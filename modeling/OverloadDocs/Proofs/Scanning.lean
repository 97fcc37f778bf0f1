import OverloadDocs.Proofs.Words
import OverloadDocs.Source.Scan

/-!
What the scanner makes of plain text: text without comments, literals, directives, braces and semicolons.
Inside a statement such text is taken character by character, and blanks before the first of them are
skipped. So a plain statement ends with its folded text, with the comment that waited for it, and with the
lines on which its first and last character stand.
-/

namespace OverloadDocs.Source

open Text Token

/-- A character that opens nothing and ends nothing. -/
def IsPlain (c : Char) : Prop := c ∉ ['/', '"', '#', '\x7b', '\x7d', ';']

instance (c : Char) : Decidable (IsPlain c) := inferInstanceAs (Decidable (c ∉ _))

/-- The character that a statement holds for a plain character. -/
def spaced (c : Char) : Char := if isSpace c then ' ' else c

theorem newlines_append (cs ds : List Char) : newlines (cs ++ ds) = newlines cs + newlines ds :=
  List.count_append

theorem newlines_cons (c : Char) (cs : List Char) :
    newlines (c :: cs) = newlines [c] + newlines cs := newlines_append [c] cs

theorem newlines_of_not_isSpace {c : Char} (h : ¬ isSpace c) : newlines [c] = 0 := by
  have hline : '\n' ≠ c := by
    rintro rfl
    exact h (by decide)
  simp [newlines, hline.symm]

/-- A character that is no white space is none of those that the scanner takes for it. -/
theorem notSpaces_of_not_isSpace {c : Char} (h : ¬ isSpace c) :
    c ≠ '\n' ∧ ¬ (c = ' ' ∨ c = '\t' ∨ c = '\r' ∨ c = '\x0c' ∨ c = '\x0b') := by
  constructor
  · rintro rfl
    exact h (by decide)
  · rintro (rfl | rfl | rfl | rfl | rfl) <;> exact h (by decide)

theorem spaced_of_not_isSpace {c : Char} (h : ¬ isSpace c) : spaced c = c := if_neg h

/-- How blanks are written does not count for the words of a text. -/
theorem words_map_spaced (cs : List Char) : words (cs.map spaced) = words cs := by
  have hsolid : ∀ word, Solid word → word.map spaced = word := by
    intro word hword
    rw [← List.map_id word, List.map_map]
    apply List.map_congr_left
    intro c hc
    apply spaced_of_not_isSpace
    intro hspace
    exact absurd (isBlank_of_isSpace hspace) (by simp [hword c hc])
  induction cs using blankInduction with
  | solid cs hcs => rw [hsolid cs hcs]
  | blank word c rest hword hc ih =>
      have hspaced : isBlank (spaced c) := by
        rw [spaced]
        split
        · decide
        · exact hc
      rw [List.map_append, List.map_cons, words_append_blank hspaced, words_append_blank hc, ih,
        hsolid word hword]

namespace Scanner

theorem run_cons (s : Scanner) (c : Char) (cs : List Char) :
    s.run (c :: cs) = (s.advance c cs).1.run (s.advance c cs).2 := by
  rw [run]

theorem advance_space (s : Scanner) {c : Char} (hc : isSpace c) (cs : List Char) :
    s.advance c cs = ({ s with line := s.line + newlines [c] }.addSpace, cs) := by
  by_cases hline : c = '\n'
  · subst hline
    rfl
  · have hblank : c = ' ' ∨ c = '\t' ∨ c = '\r' ∨ c = '\x0c' ∨ c = '\x0b' := by
      simp only [isSpace, Char.le_def, UInt32.le_iff_toNat_le, Bool.or_eq_true, beq_iff_eq,
        Bool.and_eq_true, decide_eq_true_eq, Char.ext_iff, ← UInt32.toNat_inj] at hc hline ⊢
      simp at hc hline ⊢
      omega
    have hcount : newlines [c] = 0 := by simp [newlines, hline]
    rw [advance, if_neg hline, if_pos hblank, hcount, Nat.add_zero]

theorem advance_code (s : Scanner) {c : Char} (hc : IsPlain c) (hspace : ¬ isSpace c)
    (cs : List Char) : s.advance c cs = ((s.addCode [c]).markCode, cs) := by
  simp only [IsPlain, List.mem_cons, List.not_mem_nil, or_false, not_or] at hc
  obtain ⟨hline, hblank⟩ := notSpaces_of_not_isSpace hspace
  simp [advance, hline, hblank, hc]

/-- Blanks before a statement only advance the line. -/
theorem run_blanks {s : Scanner} (hs : s.statement = none) {gap : List Char}
    (hgap : ∀ c ∈ gap, isSpace c) (rest : List Char) :
    s.run (gap ++ rest) = { s with line := s.line + newlines gap }.run rest := by
  induction gap generalizing s with
  | nil => rfl
  | cons c gap ih =>
      obtain ⟨hc, hrest⟩ := List.forall_mem_cons.mp hgap
      have hspace : { s with line := s.line + newlines [c] }.addSpace =
          { s with line := s.line + newlines [c] } := by
        simp [addSpace, hs]
      have hrun := ih (s := { s with line := s.line + newlines [c] }) hs hrest
      rw [List.cons_append, run_cons, advance_space s hc, hspace, newlines_cons c gap, ← Nat.add_assoc]
      exact hrun

/-- A plain character goes into the statement that is being read. -/
theorem advance_inside {s : Scanner} {t : Statement} (hs : s.statement = some t) {c : Char}
    (hc : IsPlain c) (cs : List Char) :
    ∃ codeLine, s.advance c cs = ({ s with
      line := s.line + newlines [c]
      statement := some { t with reversed := spaced c :: t.reversed }
      codeLine := codeLine }, cs) := by
  by_cases hspace : isSpace c
  · refine ⟨s.codeLine, ?_⟩
    rw [advance_space s hspace, spaced, if_pos hspace]
    simp [addSpace, hs]
  · refine ⟨s.line, ?_⟩
    rw [advance_code s hc hspace, spaced_of_not_isSpace hspace, newlines_of_not_isSpace hspace]
    simp [addCode, hs, markCode]

/-- Plain text goes into the statement that is being read. -/
theorem run_inside {s : Scanner} {t : Statement} (hs : s.statement = some t) {cs : List Char}
    (hcs : ∀ c ∈ cs, IsPlain c) (rest : List Char) :
    ∃ codeLine, s.run (cs ++ rest) =
      run { s with
        line := s.line + newlines cs
        statement := some { t with reversed := (cs.map spaced).reverse ++ t.reversed }
        codeLine := codeLine } rest := by
  induction cs generalizing s t with
  | nil =>
      refine ⟨s.codeLine, ?_⟩
      simp [newlines, ← hs]
  | cons c cs ih =>
      obtain ⟨hc, hrest⟩ := List.forall_mem_cons.mp hcs
      obtain ⟨codeLine, hadvance⟩ := advance_inside hs hc (cs ++ rest)
      obtain ⟨codeLine', hrun⟩ := ih (s := (s.advance c (cs ++ rest)).1) (by rw [hadvance]) hrest
      refine ⟨codeLine', ?_⟩
      rw [hadvance] at hrun
      rw [List.cons_append, run_cons, hadvance, hrun, newlines_cons c cs, ← Nat.add_assoc, List.map_cons,
        List.reverse_cons, List.append_assoc, List.singleton_append]

/-- The scanner when it has read a plain text into a new statement. The statement starts with the first
character that is no blank, and takes the comment that waits. -/
def reading (s : Scanner) (cs : List Char) (codeLine : Nat) : Scanner :=
  { s with
    line := s.line + newlines cs
    statement := some ⟨((cs.dropWhile isSpace).map spaced).reverse,
      s.line + newlines (cs.takeWhile isSpace), s.pendingText⟩
    pending := none
    codeLine := codeLine }

theorem run_statement {s : Scanner} (hs : s.statement = none) {cs : List Char}
    (hcs : ∀ c ∈ cs, IsPlain c) (hcode : ∃ c ∈ cs, ¬ isSpace c) (rest : List Char) :
    ∃ codeLine, s.run (cs ++ rest) = (s.reading cs codeLine).run rest := by
  simp only [reading]
  have htext := List.takeWhile_append_dropWhile (p := isSpace) (l := cs)
  have hgap := List.all_eq_true.mp (List.all_takeWhile (p := isSpace) (l := cs))
  generalize cs.takeWhile isSpace = gap at htext hgap ⊢
  cases hdrop : cs.dropWhile isSpace with
  | nil =>
      obtain ⟨c, hc, hspace⟩ := hcode
      rw [hdrop, List.append_nil] at htext
      exact absurd (hgap c (htext ▸ hc)) hspace
  | cons c tail =>
      have hspace : ¬ isSpace c := by
        have := List.head?_dropWhile_not isSpace cs
        rw [hdrop] at this
        simpa using this
      rw [hdrop] at htext
      subst htext
      obtain ⟨hc, htail⟩ :=
        List.forall_mem_cons.mp fun d hd => hcs d (List.mem_append_right gap hd)
      let first : Scanner := { s with
        line := s.line + newlines gap
        statement := some ⟨[c], s.line + newlines gap, s.pendingText⟩
        pending := none
        codeLine := s.line + newlines gap }
      have hfirst : ({ s with line := s.line + newlines gap }.addCode [c]).markCode = first := by
        simp [first, addCode, hs, markCode, pendingText]
      obtain ⟨codeLine, hrun⟩ := run_inside (s := first) rfl htail rest
      refine ⟨codeLine, ?_⟩
      rw [List.append_assoc, run_blanks hs hgap, List.cons_append, run_cons,
        advance_code _ hc hspace, hfirst, hrun, newlines_append, newlines_cons c tail,
        newlines_of_not_isSpace hspace, Nat.zero_add, ← Nat.add_assoc, List.map_cons,
        spaced_of_not_isSpace hspace, List.reverse_cons]

/-- A statement that was read off a text is folded as the text is. -/
theorem foldBlanks_statement (cs : List Char) :
    foldBlanks ((cs.dropWhile isSpace).map spaced) = foldBlanks cs := by
  have hgap : ∀ c ∈ cs.takeWhile isSpace, isBlank c := fun c hc =>
    isBlank_of_isSpace (List.all_eq_true.mp List.all_takeWhile c hc)
  have htext := List.takeWhile_append_dropWhile (p := isSpace) (l := cs)
  rw [foldBlanks, foldBlanks, words_map_spaced, ← words_blanks_append hgap, htext]

theorem advance_semicolon (s : Scanner) (cs : List Char) :
    s.advance ';' cs = ((s.endStatement true).1.markCode, cs) := by
  simp [advance]

theorem advance_openBrace (s : Scanner) (cs : List Char) :
    s.advance '\x7b' cs = s.openBrace cs := by
  simp [advance]

/-- What a text gives as a statement that starts where the scanner stands. -/
def declared (s : Scanner) (cs : List Char) (forward : Bool) : List Declaration :=
  if s.inFunctionScope && looksLikeDeclaration (foldBlanks cs) then
    [⟨String.ofList (foldBlanks cs), s.pendingText, s.line + newlines (cs.takeWhile isSpace),
      s.line + newlines cs, forward⟩]
  else []

theorem endStatement_reading (s : Scanner) (cs : List Char) (codeLine : Nat) (forward : Bool) :
    (s.reading cs codeLine).endStatement forward =
      ({ s with
        line := s.line + newlines cs
        found := s.declared cs forward ++ s.found
        statement := none
        pending := none
        codeLine := codeLine }, s.inFunctionScope && looksLikeDeclaration (foldBlanks cs)) := by
  have htext : (s.reading cs codeLine).statementText = foldBlanks cs := by
    simp only [statementText, reading, List.reverse_reverse, foldBlanks_statement]
  have hscope : (s.reading cs codeLine).inFunctionScope = s.inFunctionScope := rfl
  rw [endStatement, htext, hscope]
  cases hlooks : s.inFunctionScope && looksLikeDeclaration (foldBlanks cs) <;>
    simp [declared, reading, hlooks]

/-- A plain text that a semicolon ends gives what it declares. -/
theorem run_forward {s : Scanner} (hs : s.statement = none) {cs : List Char}
    (hcs : ∀ c ∈ cs, IsPlain c) (hcode : ∃ c ∈ cs, ¬ isSpace c) (rest : List Char) :
    s.run (cs ++ ';' :: rest) =
      run { s with
        line := s.line + newlines cs
        found := s.declared cs true ++ s.found
        pending := none
        codeLine := s.line + newlines cs } rest := by
  obtain ⟨codeLine, hrun⟩ := run_statement hs hcs hcode (';' :: rest)
  rw [hrun, run_cons, advance_semicolon, endStatement_reading, hs, markCode]

/-- A plain text before an empty body gives what it declares. -/
theorem found_body {s : Scanner} (hs : s.statement = none) {cs : List Char}
    (hcs : ∀ c ∈ cs, IsPlain c) (hcode : ∃ c ∈ cs, ¬ isSpace c) :
    (s.run (cs ++ ['\x7b', '\x7d'])).found = s.declared cs false ++ s.found := by
  obtain ⟨codeLine, hrun⟩ := run_statement hs hcs hcode ['\x7b', '\x7d']
  rw [hrun, run_cons, advance_openBrace, openBrace, endStatement_reading]
  cases s.inFunctionScope && looksLikeDeclaration (foldBlanks cs) with
  | true => simp [skipBody, run, markCode]
  | false => simp [run, advance, closeBrace, markCode]

end Scanner

/-- The only statement of a source is a text that a semicolon ends. -/
theorem declarations_forward {text : String} (htext : ∀ c ∈ text.toList, IsPlain c)
    (hcode : ∃ c ∈ text.toList, ¬ isSpace c) :
    declarations (text ++ ";") = Scanner.declared {} text.toList true := by
  have hrun := Scanner.run_forward (s := {}) rfl htext hcode []
  rw [Scanner.run] at hrun
  have hsource : (text ++ ";").toList = text.toList ++ [';'] := by simp
  rw [declarations, hsource, hrun, Scanner.declared]
  split <;> rfl

/-- The only statement of a source is a text before an empty body. -/
theorem declarations_body {text : String} (htext : ∀ c ∈ text.toList, IsPlain c)
    (hcode : ∃ c ∈ text.toList, ¬ isSpace c) :
    declarations (text ++ " \x7b\x7d") = Scanner.declared {} (text.toList ++ [' ']) false := by
  have hplain : ∀ c ∈ text.toList ++ [' '], IsPlain c := by
    intro c hc
    rcases List.mem_append.mp hc with hc | hc
    · exact htext c hc
    · rw [List.mem_singleton] at hc
      subst hc
      decide
  have hcode' : ∃ c ∈ text.toList ++ [' '], ¬ isSpace c := by
    obtain ⟨c, hc, hspace⟩ := hcode
    exact ⟨c, List.mem_append_left _ hc, hspace⟩
  have hfound := Scanner.found_body (s := {}) rfl hplain hcode'
  have hsource : (text ++ " \x7b\x7d").toList = text.toList ++ [' '] ++ ['\x7b', '\x7d'] := by simp
  rw [declarations, hsource, hfound, Scanner.declared]
  split <;> rfl

end OverloadDocs.Source
