import OverloadDocs.Comment.Normalize
import OverloadDocs.Proofs.Shapes
import OverloadDocs.Proofs.Trimming

/-!
The folding of lines into text. Paragraphs have blank lines between them, which lays every text out in exactly one
way, and the text is folded into these paragraphs. Listed conditions have a mark before each, with or without blank
lines between them, and the list is folded into these conditions.
-/

namespace OverloadDocs.Comment

open Text

/-! ## Paragraphs -/

/-- The lines of a paragraph: at least one, and none of them empty. -/
structure IsParagraph (lines : List (List Char)) : Prop where
  nonempty : lines ≠ []
  filled : ∀ line ∈ lines, line ≠ []

/-- Paragraphs, and lines that they are laid out in: at least one blank line between two paragraphs, and any
number of blank lines around them. -/
inductive Spaced : List (List (List Char)) → List (List Char) → Prop where
  | nil : Spaced [] []
  | blank {paras lines : List _} (h : Spaced paras lines) : Spaced paras ([] :: lines)
  | last {para : List _} (hpara : IsParagraph para) : Spaced [para] para
  | cons {para paras lines : List _} (hpara : IsParagraph para) (h : Spaced paras lines) :
      Spaced (para :: paras) (para ++ [] :: lines)

theorem IsParagraph.cons {line : List Char} {para : List (List Char)} (hline : line ≠ [])
    (h : IsParagraph para) : IsParagraph (line :: para) :=
  ⟨List.cons_ne_nil _ _, List.forall_mem_cons.mpr ⟨hline, h.filled⟩⟩

theorem isParagraph_singleton {line : List Char} (hline : line ≠ []) : IsParagraph [line] :=
  ⟨List.cons_ne_nil _ _, by simpa using hline⟩

theorem paragraphs_nil : paragraphs [] = [] := by
  simp [paragraphs]

theorem paragraphs_append_blank (front lines : List (List Char)) :
    paragraphs (front ++ [] :: lines) = paragraphs front ++ paragraphs lines := by
  rw [paragraphs, List.splitOnP_append_cons _ _ (by rfl), List.filter_append, paragraphs, paragraphs]

theorem paragraphs_blank (lines : List (List Char)) : paragraphs ([] :: lines) = paragraphs lines := by
  rw [← List.nil_append ([] :: lines), paragraphs_append_blank, paragraphs_nil, List.nil_append]

theorem IsParagraph.paragraphs_eq {para : List (List Char)} (h : IsParagraph para) :
    paragraphs para = [para] := by
  have hfilled : ∀ line ∈ para, (line == []) = false := fun line hline => by
    simpa using h.filled line hline
  rw [paragraphs, List.splitOnP_eq_singleton hfilled]
  simp [h.nonempty]

theorem Spaced.paragraphs_eq {paras : List (List (List Char))} {lines : List (List Char)}
    (h : Spaced paras lines) : paragraphs lines = paras := by
  induction h with
  | nil => exact paragraphs_nil
  | blank _ ih => rw [paragraphs_blank, ih]
  | last hpara => exact hpara.paragraphs_eq
  | cons hpara _ ih => rw [paragraphs_append_blank, hpara.paragraphs_eq, ih, List.singleton_append]

theorem Spaced.exists_cons {paras : List (List (List Char))} {line : List Char} {lines : List (List Char)}
    (hline : line ≠ []) (h : Spaced paras lines) : ∃ paras', Spaced paras' (line :: lines) := by
  cases h with
  | nil => exact ⟨_, .last (isParagraph_singleton hline)⟩
  | blank h => exact ⟨_, .cons (isParagraph_singleton hline) h⟩
  | last hpara => exact ⟨_, .last (hpara.cons hline)⟩
  | cons hpara h => exact ⟨_, .cons (hpara.cons hline) h⟩

theorem exists_spaced (lines : List (List Char)) : ∃ paras, Spaced paras lines := by
  induction lines with
  | nil => exact ⟨_, .nil⟩
  | cons line lines ih =>
      obtain ⟨paras, h⟩ := ih
      by_cases hline : line = []
      · subst hline
        exact ⟨_, h.blank⟩
      · exact h.exists_cons hline

/-- Every list of lines is the layout of exactly one list of paragraphs. -/
theorem spaced_iff {paras : List (List (List Char))} {lines : List (List Char)} :
    Spaced paras lines ↔ paragraphs lines = paras := by
  refine ⟨Spaced.paragraphs_eq, fun hparas => ?_⟩
  obtain ⟨paras', h⟩ := exists_spaced lines
  rwa [← hparas, h.paragraphs_eq]

/-! ## Conditions -/

/-- Whether a character marks a condition of a list. -/
def isMark (c : Char) : Bool := c == '-' || c == '*' || c == '+'

/-- Whether a line starts as a condition of a list does: with a mark and a blank behind it. -/
def startsItem : List Char → Bool
  | mark :: c :: _ => isMark mark && isPlainBlank c
  | _ => false

/-- The lines of a condition: they are trimmed and not empty, and those behind the first do not start another
condition. -/
structure IsCondition (lines : List (List Char)) : Prop extends IsParagraph lines where
  trimmed : ∀ line ∈ lines, trim line = line
  unmarked : ∀ line ∈ lines.tail, startsItem line = false

/-- Conditions, and lines that they are listed in: a mark and a space before the first line of each condition,
and any number of blank lines between them and around them. -/
inductive Listed : List (List (List Char)) → List (List Char) → Prop where
  | nil : Listed [] []
  | blank {conds lines : List _} (h : Listed conds lines) : Listed conds ([] :: lines)
  | cons {mark : Char} {first : List Char} {rest conds lines : List _} (hmark : isMark mark)
      (hcond : IsCondition (first :: rest)) (h : Listed conds lines) :
      Listed ((first :: rest) :: conds) ((mark :: ' ' :: first) :: (rest ++ lines))

theorem bulletText?_eq_none {line : List Char} (h : startsItem line = false) : bulletText? line = none := by
  match line with
  | [] => rfl
  | [_] => rfl
  | mark :: c :: cs =>
      rw [bulletText?, if_neg]
      rintro ⟨hmark, hc⟩
      have hmark' : isMark mark := by simpa [isMark, or_assoc] using hmark
      simp [startsItem, hmark', hc] at h

theorem head_of_trimmed {c : Char} {cs : List Char} (h : trim (c :: cs) = c :: cs) : isBlank c = false := by
  by_contra hc
  have hlength := (trim_isInfix cs).length_le
  rw [← trim_cons_blank (by simpa using hc), h, List.length_cons] at hlength
  omega

/-- The text behind a mark and a space begins where the line is not blank. -/
theorem bulletText?_of_trimmed {mark : Char} {first : List Char} (hmark : isMark mark) (hne : first ≠ [])
    (htrim : trim first = first) : bulletText? (mark :: ' ' :: first) = some first := by
  obtain ⟨c, cs, rfl⟩ := List.exists_cons_of_ne_nil hne
  have hc : isPlainBlank c = false := Source.isPlainBlank_of_isBlank (head_of_trimmed htrim)
  have hmark' : mark = '-' ∨ mark = '*' ∨ mark = '+' := by simpa [isMark, or_assoc] using hmark
  rw [bulletText?, if_pos ⟨hmark', by decide⟩, List.dropWhile_cons_of_neg (by simp [hc])]

/-! What the three kinds of lines do to the lines that are gathered: a blank line closes their condition, a marked
line closes it and begins the next, and any other line joins it. -/

theorem closeCondition_of_ne_nil {gathered : List (List Char)} (h : gathered ≠ []) :
    closeCondition gathered = [joinWith [' '] gathered] :=
  if_neg h

theorem conditionsFrom_blank (gathered lines : List (List Char)) :
    conditionsFrom gathered ([] :: lines) = closeCondition gathered ++ conditions lines := by
  rw [conditionsFrom, if_pos rfl, conditions]

theorem conditionsFrom_marked {line text : List Char} (htext : bulletText? line = some text)
    (gathered lines : List (List Char)) :
    conditionsFrom gathered (line :: lines) = closeCondition gathered ++ conditionsFrom [text] lines := by
  have hne : line ≠ [] := by
    rintro rfl
    cases htext
  rw [conditionsFrom, if_neg hne, htext]

theorem conditionsFrom_append {front : List (List Char)} (hfilled : ∀ line ∈ front, line ≠ [])
    (hunmarked : ∀ line ∈ front, startsItem line = false) (gathered lines : List (List Char)) :
    conditionsFrom gathered (front ++ lines) = conditionsFrom (gathered ++ front) lines := by
  induction front generalizing gathered with
  | nil => rw [List.nil_append, List.append_nil]
  | cons line front ih =>
      obtain ⟨hline, hfront⟩ := List.forall_mem_cons.mp hfilled
      obtain ⟨hplain, hplains⟩ := List.forall_mem_cons.mp hunmarked
      rw [List.cons_append, conditionsFrom, if_neg hline, bulletText?_eq_none hplain]
      dsimp only
      rw [ih hfront hplains, ← List.append_cons]

/-- A list of conditions closes the condition before it, and each of its own once. -/
theorem Listed.conditionsFrom_eq {conds : List (List (List Char))} {lines : List (List Char)}
    (h : Listed conds lines) (gathered : List (List Char)) :
    conditionsFrom gathered lines = closeCondition gathered ++ conds.map (joinWith [' ']) := by
  induction h generalizing gathered with
  | nil => rw [conditionsFrom, List.map_nil, List.append_nil]
  | blank _ ih =>
      rw [conditionsFrom_blank, conditions, ih []]
      rfl
  | @cons mark first rest conds lines hmark hcond _ ih =>
      have hfirst : first ∈ first :: rest := List.mem_cons_self
      have htext := bulletText?_of_trimmed hmark (hcond.filled _ hfirst) (hcond.trimmed _ hfirst)
      have hrest : ∀ line ∈ rest, line ≠ [] := (List.forall_mem_cons.mp hcond.filled).2
      calc conditionsFrom gathered ((mark :: ' ' :: first) :: (rest ++ lines))
        _ = closeCondition gathered ++ conditionsFrom [first] (rest ++ lines) :=
          conditionsFrom_marked htext gathered _
        _ = closeCondition gathered ++ conditionsFrom (first :: rest) lines := by
          rw [conditionsFrom_append hrest hcond.unmarked, List.singleton_append]
        _ = closeCondition gathered ++ ((first :: rest) :: conds).map (joinWith [' ']) := by
          rw [ih, closeCondition_of_ne_nil hcond.nonempty, List.singleton_append, List.map_cons]

/-! ## Layouts are undone -/

/-- A list of conditions is folded into the lines of each joined by spaces, and paragraphs into the lines of each
joined by spaces with a blank line between them. -/
theorem folded_of_layout :
    (∀ {conds : List (List (List Char))} {lines : List (List Char)}, Listed conds lines →
      conditions lines = conds.map (joinWith [' '])) ∧
    ∀ {paras : List (List (List Char))} {lines : List (List Char)}, Spaced paras lines →
      joinParagraphs lines = joinWith ['\n', '\n'] (paras.map (joinWith [' '])) := by
  refine ⟨fun h => ?_, fun h => ?_⟩
  · rw [conditions, h.conditionsFrom_eq]
    rfl
  · rw [joinParagraphs, spaced_iff.mp h]

/-- Three conditions with different marks, two of them without a blank line between them. A mark that the text of a
condition begins with stays, and so does one at the front of a later line without a blank behind it. -/
theorem folded_of_three_marks :
    Listed [["x is".toList, "below zero".toList], ["- x".toList, "-1 or less".toList, "*".toList], ["y".toList]]
        ['-' :: ' ' :: "x is".toList, "below zero".toList, '*' :: ' ' :: "- x".toList, "-1 or less".toList,
          "*".toList, [], [], '+' :: ' ' :: "y".toList] ∧
      conditions ['-' :: ' ' :: "x is".toList, "below zero".toList, '*' :: ' ' :: "- x".toList,
          "-1 or less".toList, "*".toList, [], [], '+' :: ' ' :: "y".toList] =
        ["x is below zero".toList, "- x -1 or less *".toList, "y".toList] ∧
      Spaced [["Adds".toList, "x.".toList], ["- y".toList]]
        [[], "Adds".toList, "x.".toList, [], [], "- y".toList, []] ∧
      joinParagraphs [[], "Adds".toList, "x.".toList, [], [], "- y".toList, []] =
        "Adds x.\n\n- y".toList := by
  refine ⟨?listed, (folded_of_layout.1 ?listed).trans (by decide), ?spaced,
    (folded_of_layout.2 ?spaced).trans (by decide)⟩
  case listed =>
    exact .cons rfl ⟨⟨by decide, by decide⟩, by decide, by decide⟩
      (.cons rfl ⟨⟨by decide, by decide⟩, by decide, by decide⟩
        (.blank (.blank (.cons rfl ⟨⟨by decide, by decide⟩, by decide, by decide⟩ .nil))))
  case spaced =>
    exact .blank (.cons ⟨by decide, by decide⟩ (.blank (.cons ⟨by decide, by decide⟩ .nil)))

end OverloadDocs.Comment
