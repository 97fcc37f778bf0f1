import OverloadDocs.Glob.Pattern

/-!
Patterns over stored text: a star is any run, a question mark any one character, and brackets hold
characters and ranges, which a circumflex negates. A closing bracket that comes first is an ordinary
member. Brackets that are never closed match nothing.
-/

namespace OverloadDocs.Glob

/-- Reads the members of brackets, given the member before, which a range may start from. The rest is
absent when the brackets are never closed. -/
def readMembers (before : Option Char) : List Char → List (Char × Char) × Option (List Char)
  | [] => ([], none)
  | ']' :: cs => ([], some cs)
  | '-' :: hi :: cs =>
    match before with
    | some lo =>
      if hi = ']' then (('-', '-') :: [], some cs)
      else ((lo, hi) :: (readMembers none cs).1, (readMembers none cs).2)
    | none =>
      (('-', '-') :: (readMembers (some '-') (hi :: cs)).1, (readMembers (some '-') (hi :: cs)).2)
  | c :: cs => ((c, c) :: (readMembers (some c) cs).1, (readMembers (some c) cs).2)
termination_by cs => cs.length

theorem readMembers_rest_length {before : Option Char} {cs rest : List Char}
    (h : (readMembers before cs).2 = some rest) : rest.length < cs.length := by
  fun_induction readMembers before cs with
  | case1 => simp at h
  | case2 => simp_all
  | case3 =>
    simp only [Option.some.injEq] at h
    simp only [List.length_cons, h]
    omega
  | case4 _ _ _ _ ih => exact Nat.lt_of_lt_of_le (ih h) (Nat.le_add_right _ 2)
  | case5 _ _ ih => exact Nat.lt_succ_of_lt (ih h)
  | case6 _ _ _ _ _ ih => exact Nat.lt_succ_of_lt (ih h)

def isNegated (cs : List Char) : Bool := cs.head? == some '^'

def afterNegation (cs : List Char) : List Char := if isNegated cs then cs.tail else cs

/-- The text after a closing bracket that comes first. -/
def afterBracket (cs : List Char) : List Char := if cs.head? = some ']' then cs.tail else cs

/-- Reads brackets after the opening one. -/
def readSet (cs : List Char) : Piece × Option (List Char) :=
  let body := afterNegation cs
  let first := if body.head? = some ']' then [(']', ']')] else []
  let members := readMembers none (afterBracket body)
  (.oneIn (isNegated cs) (first ++ members.1), members.2)

theorem readSet_rest_length {cs rest : List Char} (h : (readSet cs).2 = some rest) :
    rest.length < cs.length := by
  have hmembers := readMembers_rest_length h
  have hbracket : (afterBracket (afterNegation cs)).length ≤ (afterNegation cs).length := by
    unfold afterBracket; split <;> simp
  have hnegation : (afterNegation cs).length ≤ cs.length := by
    unfold afterNegation; split <;> simp
  omega

def ofStoredChars (cs : List Char) : Pattern :=
  match cs with
  | [] => []
  | '*' :: cs => .anyRun :: ofStoredChars cs
  | '?' :: cs => .anyOne :: ofStoredChars cs
  | '[' :: cs =>
    match _h : (readSet cs).2 with
    | some rest => (readSet cs).1 :: ofStoredChars rest
    | none => [.nothing]
  | c :: cs => .literal c :: ofStoredChars cs
termination_by cs.length
decreasing_by
  · simp
  · simp
  · exact Nat.lt_succ_of_lt (readSet_rest_length _h)
  · simp

/-- The pattern that a text spells, up to its first character without a code. -/
def Pattern.ofStored (text : String) : Pattern := ofStoredChars (text.toList.takeWhile (· ≠ '\x00'))

end OverloadDocs.Glob
