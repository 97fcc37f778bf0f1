/-!
The pieces of source text that hide other characters: block comments, line comments, string
literals, and whole function bodies. Each function here takes the text after the opening characters
and says what belongs to the piece and what follows it.
-/

namespace OverloadDocs.Source

def newlines (cs : List Char) : Nat := cs.count '\n'

/-- The body of a block comment, and what follows its end. A comment that is never closed runs to
the end of the text. -/
def blockBody : List Char → List Char × List Char
  | [] => ([], [])
  | '*' :: '/' :: rest => ([], rest)
  | c :: cs => (c :: (blockBody cs).1, (blockBody cs).2)

/-- The rest of the line, and the text from its line feed on. -/
def lineBody (cs : List Char) : List Char × List Char :=
  (cs.takeWhile (· ≠ '\n'), cs.dropWhile (· ≠ '\n'))

/-- A string literal after its opening quote: its text with the closing quote, the line feeds in it
that are not escaped, and what follows. -/
structure Literal where
  text : List Char
  lines : Nat
  rest : List Char

/-- Reads a string literal after its opening quote; a backslash takes the next character with it. -/
def Literal.read : List Char → Literal
  | [] => ⟨[], 0, []⟩
  | '\\' :: c :: cs =>
    let l := Literal.read cs
    ⟨'\\' :: c :: l.text, l.lines, l.rest⟩
  | '"' :: cs => ⟨['"'], 0, cs⟩
  | c :: cs =>
    let l := Literal.read cs
    ⟨c :: l.text, if c = '\n' then l.lines + 1 else l.lines, l.rest⟩

theorem blockBody_rest_length (cs : List Char) : (blockBody cs).2.length ≤ cs.length := by
  fun_induction blockBody cs with
  | case1 => exact Nat.le_refl _
  | case2 => simp only [List.length_cons]; omega
  | case3 c cs _ ih => simp only [List.length_cons]; omega

theorem lineBody_rest_length (cs : List Char) : (lineBody cs).2.length ≤ cs.length :=
  (List.dropWhile_suffix _).length_le

theorem Literal.read_rest_length (cs : List Char) : (Literal.read cs).rest.length ≤ cs.length := by
  fun_induction Literal.read cs with
  | case1 => exact Nat.le_refl _
  | case2 c cs l ih => exact Nat.le_trans ih (Nat.le_add_right _ 2)
  | case3 cs => exact Nat.le_succ _
  | case4 c cs _ _ l ih => exact Nat.le_succ_of_le ih

/-- The text after a function body that is open `depth + 1` braces deep, and the line it starts on.
Braces in comments and string literals do not count. -/
def skipBody (depth line : Nat) : List Char → List Char × Nat
  | [] => ([], line)
  | '\n' :: cs => skipBody depth (line + 1) cs
  | '/' :: '*' :: cs => skipBody depth (line + newlines (blockBody cs).1) (blockBody cs).2
  | '/' :: '/' :: cs => skipBody depth line (lineBody cs).2
  | '#' :: cs => skipBody depth line (lineBody cs).2
  | '"' :: cs => skipBody depth (line + (Literal.read cs).lines) (Literal.read cs).rest
  | '{' :: cs => skipBody (depth + 1) line cs
  | '}' :: cs =>
    match depth with
    | 0 => (cs, line)
    | depth + 1 => skipBody depth line cs
  | _ :: cs => skipBody depth line cs
termination_by cs => cs.length
decreasing_by
  · simp
  · have := blockBody_rest_length cs
    simp only [List.length_cons]; omega
  · have := lineBody_rest_length cs
    simp only [List.length_cons]; omega
  · have := lineBody_rest_length cs
    simp only [List.length_cons]; omega
  · have := Literal.read_rest_length cs
    simp only [List.length_cons]; omega
  all_goals simp

theorem skipBody_rest_length (depth line : Nat) (cs : List Char) :
    (skipBody depth line cs).1.length ≤ cs.length := by
  fun_induction skipBody depth line cs
  case case3 cs ih =>
    have := blockBody_rest_length cs
    simp only [List.length_cons]; omega
  case case4 cs ih =>
    have := lineBody_rest_length cs
    simp only [List.length_cons]; omega
  case case5 cs ih =>
    have := lineBody_rest_length cs
    simp only [List.length_cons]; omega
  case case6 cs ih =>
    have := Literal.read_rest_length cs
    simp only [List.length_cons]; omega
  all_goals simp only [List.length_cons, List.length_nil]; omega

end OverloadDocs.Source
