import OverloadDocs.Glob.Compile
import OverloadDocs.Glob.Stored

/-!
What patterns mean. A pattern accepts a text when the text can be cut into pieces that its parts take one after
the other. The patterns of the store are matched so; of path patterns this is the documented meaning, while they
are matched by what they are compiled to.
-/

namespace OverloadDocs.Glob

/-! ## Patterns over stored text -/

def Piece.Takes : Piece → List Char → Prop
  | .literal c, cs => cs = [c]
  | .anyRun, _ => True
  | .anyOne, cs => ∃ c, cs = [c]
  | .oneIn negated ranges, cs => ∃ c, cs = [c] ∧ (inSome ranges c != negated) = true
  | .nothing, _ => False

/-- The texts that pieces take one after the other. -/
def Pattern.Accepts : Pattern → List Char → Prop
  | [], cs => cs = []
  | p :: ps, cs => ∃ front back, cs = front ++ back ∧ p.Takes front ∧ Pattern.Accepts ps back

theorem mem_afterRun {cs rest : List Char} : rest ∈ afterRun cs ↔ ∃ front, cs = front ++ rest := by
  induction cs with
  | nil => simp [afterRun]
  | cons c cs ih =>
    rw [afterRun, List.mem_cons, ih]
    constructor
    · rintro (rfl | ⟨front, rfl⟩)
      · exact ⟨[], rfl⟩
      · exact ⟨c :: front, rfl⟩
    · rintro ⟨front, hcs⟩
      cases front with
      | nil => exact .inl hcs.symm
      | cons d front =>
        obtain ⟨-, rfl⟩ := List.cons.inj hcs
        exact .inr ⟨front, rfl⟩

theorem mem_afterOne {p : Char → Bool} {cs rest : List Char} :
    rest ∈ afterOne p cs ↔ ∃ c, cs = [c] ++ rest ∧ p c := by
  cases cs with
  | nil => simp [afterOne]
  | cons c cs =>
    rw [afterOne]
    constructor
    · intro hrest
      split at hrest
      · rename_i hc
        exact ⟨c, by rw [List.mem_singleton.mp hrest]; rfl, hc⟩
      · cases hrest
    · rintro ⟨d, hcs, hd⟩
      obtain ⟨rfl, rfl⟩ := List.cons.inj hcs
      rw [if_pos hd]
      exact List.mem_singleton.mpr rfl

/-- What can be left of a text is what follows a piece of it that is taken. -/
theorem Piece.mem_rests {p : Piece} {cs rest : List Char} :
    rest ∈ p.rests cs ↔ ∃ front, cs = front ++ rest ∧ p.Takes front := by
  cases p with
  | literal c =>
    rw [rests, mem_afterOne]
    constructor
    · rintro ⟨d, hcs, hd⟩
      exact ⟨[d], hcs, by rw [Takes, beq_iff_eq.mp hd]⟩
    · rintro ⟨front, hcs, rfl⟩
      exact ⟨c, hcs, beq_self_eq_true c⟩
  | anyRun => simp [rests, mem_afterRun, Takes]
  | anyOne =>
    rw [rests, mem_afterOne]
    constructor
    · rintro ⟨d, hcs, -⟩
      exact ⟨[d], hcs, d, rfl⟩
    · rintro ⟨front, hcs, d, rfl⟩
      exact ⟨d, hcs, rfl⟩
  | oneIn negated ranges =>
    rw [rests, mem_afterOne]
    constructor
    · rintro ⟨d, hcs, hd⟩
      exact ⟨[d], hcs, d, rfl, hd⟩
    · rintro ⟨front, hcs, d, rfl, hd⟩
      exact ⟨d, hcs, hd⟩
  | nothing => simp [rests, Takes]

theorem nil_mem_restsOfAll {ps : List Piece} {texts : List (List Char)} :
    [] ∈ restsOfAll ps texts ↔ ∃ cs ∈ texts, Pattern.Accepts ps cs := by
  induction ps generalizing texts with
  | nil => simp [restsOfAll, Pattern.Accepts]
  | cons p ps ih =>
    rw [restsOfAll, ih]
    simp only [List.mem_eraseDups, List.mem_flatMap, Piece.mem_rests, Pattern.Accepts]
    constructor
    · rintro ⟨back, ⟨cs, hcs, front, hcut, hfront⟩, hback⟩
      exact ⟨cs, hcs, front, back, hcut, hfront, hback⟩
    · rintro ⟨cs, hcs, front, back, hcut, hfront, hback⟩
      exact ⟨back, ⟨cs, hcs, front, hcut, hfront⟩, hback⟩

/-- The store keeps the texts that a pattern accepts. -/
theorem Pattern.matches_iff {p : Pattern} {text : String} : p.matches text ↔ p.Accepts text.toList := by
  rw [Pattern.matches, List.contains_iff_mem, nil_mem_restsOfAll]
  simp

theorem Pattern.accepts_append {ps qs : Pattern} {cs : List Char} :
    Pattern.Accepts (ps ++ qs) cs ↔
      ∃ front back, cs = front ++ back ∧ Pattern.Accepts ps front ∧ Pattern.Accepts qs back := by
  induction ps generalizing cs with
  | nil =>
    constructor
    · exact fun h => ⟨[], cs, rfl, rfl, h⟩
    · rintro ⟨_, _, rfl, rfl, h⟩
      exact h
  | cons p ps ih =>
    simp only [List.cons_append, Pattern.Accepts, ih]
    constructor
    · rintro ⟨first, _, rfl, hfirst, middle, back, rfl, hmiddle, hback⟩
      exact ⟨first ++ middle, back, (List.append_assoc ..).symm, ⟨first, middle, rfl, hfirst, hmiddle⟩, hback⟩
    · rintro ⟨_, back, rfl, ⟨first, middle, rfl, hfirst, hmiddle⟩, hback⟩
      exact ⟨first, middle ++ back, List.append_assoc .., hfirst, middle, back, rfl, hmiddle, hback⟩

/-! ## Path patterns -/

mutual

def Part.Takes (separators : List Char) : Part → List Char → Prop
  | .text s, cs => cs = s
  | .run, cs => ∀ c ∈ cs, c ∉ separators
  | .anything, _ => True
  | .one, cs => ∃ c, cs = [c] ∧ c ∉ separators
  | .listed negated chars, cs => ∃ c, cs = [c] ∧ (chars.contains c != negated) = true
  | .ranged negated lo hi, cs => ∃ c, cs = [c] ∧ (inRange lo hi c != negated) = true
  | .nothing, cs => cs = []
  | .sequence parts, cs => AllTake separators parts cs
  | .choice alternatives, cs => SomeTakes separators alternatives cs

def AllTake (separators : List Char) : List Part → List Char → Prop
  | [], cs => cs = []
  | p :: ps, cs => ∃ front back, cs = front ++ back ∧ p.Takes separators front ∧ AllTake separators ps back

def SomeTakes (separators : List Char) : List Part → List Char → Prop
  | [], _ => False
  | p :: ps, cs => p.Takes separators cs ∨ SomeTakes separators ps cs

end

/-- What a path pattern is compiled to answers for a text as the pattern means it. -/
def AsDocumented (separators : List Char) (pattern text : String) : Prop :=
  ∀ parts m, partsOf pattern = .ok parts → Matcher.ofPath separators pattern = .ok m →
    ∃ answer, m.matchesText? text = .ok answer ∧ (answer ↔ AllTake separators parts text.toList)

theorem asDocumented_of_answer {separators : List Char} {pattern text : String} {parts : List Part} (answer : Bool)
    (hparts : partsOf pattern = .ok parts)
    (hanswer : (Matcher.ofPath separators pattern).map (·.matchesText? text) = .ok (.ok answer))
    (htake : answer ↔ AllTake separators parts text.toList) : AsDocumented separators pattern text := by
  intro parts' m hparts' hm
  cases hparts.symm.trans hparts'
  rw [hm] at hanswer
  exact ⟨answer, Except.ok.inj hanswer, htake⟩

end OverloadDocs.Glob
