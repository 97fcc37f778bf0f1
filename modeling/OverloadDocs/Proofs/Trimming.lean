import Mathlib.Data.List.DropRight
import OverloadDocs.Comment.Lines

/-!
Trimming. A list is stripped of the members of a class at both ends; blanks are stripped off a text and
blank lines off a comment. The trimmed lines of a text are what a comment is read from: they do not change
when carriage returns before line feeds are dropped, and only lose empty ones at their ends when the text
itself is trimmed.
-/

namespace OverloadDocs

namespace Text

section

variable {α β : Type} {p q : α → Bool}

/-- A list without the members of a class at its ends. -/
def strip (p : α → Bool) (l : List α) : List α := (l.dropWhile p).rdropWhile p

theorem trim_eq_strip (cs : List Char) : trim cs = strip isBlank cs := rfl

theorem rdropWhile_append_of_pos {l back : List α} (h : ∀ x ∈ back, p x) :
    (l ++ back).rdropWhile p = l.rdropWhile p := by
  rw [List.rdropWhile, List.reverse_append,
    List.dropWhile_append_of_pos fun x hx => h x (List.mem_reverse.mp hx), List.rdropWhile]

theorem exists_rdropWhile (p : α → Bool) (l : List α) :
    ∃ back, l = l.rdropWhile p ++ back ∧ ∀ x ∈ back, p x := by
  refine ⟨(l.reverse.takeWhile p).reverse, ?_, fun x hx =>
    List.all_eq_true.mp List.all_takeWhile x (List.mem_reverse.mp hx)⟩
  rw [List.rdropWhile, ← List.reverse_append, List.takeWhile_append_dropWhile,
    List.reverse_reverse]

theorem strip_append_left {front : List α} (h : ∀ x ∈ front, p x) (l : List α) :
    strip p (front ++ l) = strip p l := by
  rw [strip, List.dropWhile_append_of_pos h, strip]

theorem strip_append_right (l : List α) {back : List α} (h : ∀ x ∈ back, p x) :
    strip p (l ++ back) = strip p l := by
  rw [strip, List.dropWhile_append, strip]
  split
  · rename_i hl
    rw [List.dropWhile_eq_nil_iff.mpr h, List.isEmpty_iff.mp hl]
  · rw [rdropWhile_append_of_pos h]

theorem strip_cons {x : α} (hx : p x) (l : List α) : strip p (x :: l) = strip p l :=
  strip_append_left (by simpa using hx : ∀ y ∈ [x], p y) l

/-- What is stripped off. -/
theorem exists_strip (p : α → Bool) (l : List α) :
    ∃ front back, l = front ++ (strip p l ++ back) ∧ (∀ x ∈ front, p x) ∧ ∀ x ∈ back, p x := by
  obtain ⟨back, hdrop, hback⟩ := exists_rdropWhile p (l.dropWhile p)
  refine ⟨l.takeWhile p, back, ?_, List.all_eq_true.mp List.all_takeWhile, hback⟩
  rw [strip, ← hdrop, List.takeWhile_append_dropWhile]

theorem strip_dropWhile (h : ∀ x, q x → p x) (l : List α) : strip p (l.dropWhile q) = strip p l := by
  have hfront : ∀ x ∈ l.takeWhile q, p x := fun x hx =>
    h x (List.all_eq_true.mp List.all_takeWhile x hx)
  rw [← strip_append_left hfront, List.takeWhile_append_dropWhile]

theorem strip_rdropWhile (h : ∀ x, q x → p x) (l : List α) :
    strip p (l.rdropWhile q) = strip p l := by
  obtain ⟨back, hl, hback⟩ := exists_rdropWhile q l
  conv_rhs => rw [hl, strip_append_right _ fun x hx => h x (hback x hx)]

theorem strip_strip (p : α → Bool) (l : List α) : strip p (strip p l) = strip p l := by
  have h := strip_rdropWhile (p := p) (fun _ h => h) (l.dropWhile p)
  rwa [strip_dropWhile fun _ h => h] at h

theorem map_strip (f : β → α) (l : List β) : (strip (p ∘ f) l).map f = strip p (l.map f) := by
  rw [strip, strip, List.dropWhile_map, List.rdropWhile, List.rdropWhile, ← List.map_reverse,
    List.dropWhile_map, List.map_reverse]

theorem filter_strip (l : List α) : (strip p l).filter (!p ·) = l.filter (!p ·) := by
  obtain ⟨front, back, hl, hfront, hback⟩ := exists_strip p l
  have hnone : ∀ l' : List α, (∀ x ∈ l', p x) → l'.filter (!p ·) = [] := fun l' h =>
    List.filter_eq_nil_iff.mpr fun x hx => by simp [h x hx]
  conv_rhs => rw [hl, List.filter_append, List.filter_append, hnone front hfront, hnone back hback,
    List.nil_append, List.append_nil]

end

theorem trim_cons_blank {c : Char} (hc : isBlank c) (cs : List Char) : trim (c :: cs) = trim cs :=
  strip_cons hc cs

theorem trim_isInfix (cs : List Char) : trim cs <:+: cs := by
  obtain ⟨front, back, hcs, -, -⟩ := exists_strip isBlank cs
  refine ⟨front, back, ?_⟩
  rw [List.append_assoc]
  exact hcs.symm

theorem trim_trim (cs : List Char) : trim (trim cs) = trim cs := strip_strip isBlank cs

theorem rdropWhile_cons (p : Char → Bool) (c : Char) (cs : List Char) :
    (c :: cs).rdropWhile p =
      if cs.rdropWhile p = [] ∧ p c then [] else c :: cs.rdropWhile p := by
  rw [List.rdropWhile, List.rdropWhile, List.reverse_cons, List.dropWhile_append]
  by_cases hrest : cs.reverse.dropWhile p = []
  · by_cases hc : p c <;> simp [hrest, hc]
  · simp [hrest]

theorem rdropWhile_cons_of_neg {c : Char} (hc : isBlank c = false) (cs : List Char) :
    (c :: cs).rdropWhile isBlank = c :: cs.rdropWhile isBlank := by
  rw [rdropWhile_cons, if_neg (by simp [hc])]

theorem trim_cons_solid {c : Char} (hc : isBlank c = false) (cs : List Char) :
    trim (c :: cs) = c :: cs.rdropWhile isBlank := by
  rw [trim_eq_strip, strip, List.dropWhile_cons_of_neg (by simp [hc]), rdropWhile_cons_of_neg hc]

theorem rdropWhile_of_trimmed {cs : List Char} (h : trim cs = cs) : cs.rdropWhile isBlank = cs := by
  rw [← h]
  exact List.rdropWhile_idempotent isBlank _

theorem rdropWhile_append {cs : List Char} (hne : cs ≠ []) (h : cs.rdropWhile isBlank = cs)
    (front : List Char) : (front ++ cs).rdropWhile isBlank = front ++ cs := by
  rw [List.rdropWhile_eq_self_iff] at h ⊢
  intro hl
  rw [List.getLast_append_of_ne_nil hl hne]
  exact h hne

theorem trim_append {c : Char} (hc : isBlank c = false) (front : List Char) {cs : List Char}
    (hne : cs ≠ []) (h : trim cs = cs) : trim (c :: front ++ cs) = c :: front ++ cs := by
  rw [List.cons_append, trim_cons_solid hc, rdropWhile_append hne (rdropWhile_of_trimmed h)]

/-! ## Pieces of a text -/

theorem splitOn_cons_self (sep : Char) (cs : List Char) :
    (sep :: cs).splitOn sep = [] :: cs.splitOn sep := by
  rw [List.splitOn_cons_eq_if_modifyHead, if_pos (by simp)]

theorem splitOn_cons_of_ne {sep c : Char} (hc : c ≠ sep) {cs line : List Char}
    {lines : List (List Char)} (h : cs.splitOn sep = line :: lines) :
    (c :: cs).splitOn sep = (c :: line) :: lines := by
  rw [List.splitOn_cons_eq_if_modifyHead, if_neg (by simpa using hc), h, List.modifyHead_cons]

theorem not_mem_of_mem_splitOn {sep : Char} {cs line : List Char} (h : line ∈ cs.splitOn sep) :
    sep ∉ line := by
  induction cs generalizing line with
  | nil =>
      rw [List.splitOn_nil, List.mem_singleton] at h
      simp [h]
  | cons c cs ih =>
      by_cases hc : c = sep
      · subst hc
        rw [splitOn_cons_self] at h
        rcases List.mem_cons.mp h with rfl | h
        · simp
        · exact ih h
      · obtain ⟨first, lines, hcs⟩ := List.exists_cons_of_ne_nil (List.splitOn_ne_nil sep cs)
        rw [hcs] at ih
        rw [splitOn_cons_of_ne hc hcs] at h
        rcases List.mem_cons.mp h with rfl | h
        · simpa [Ne.symm hc] using ih List.mem_cons_self
        · exact ih (List.mem_cons_of_mem _ h)

theorem infix_of_mem_intercalate {α : Type} (sep : List α) {part : List α} {parts : List (List α)}
    (h : part ∈ parts) : part <:+: sep.intercalate parts := by
  induction parts with
  | nil => cases h
  | cons first parts ih =>
      cases parts with
      | nil =>
          rw [List.mem_singleton] at h
          subst h
          exact ⟨[], [], by simp⟩
      | cons next parts =>
          rw [List.intercalate_cons_cons, List.append_assoc]
          rcases List.mem_cons.mp h with rfl | h
          · exact (List.prefix_append _ _).isInfix
          · exact (ih h).trans ⟨first ++ sep, [], by simp⟩

theorem infix_of_mem_splitOn {sep : Char} {cs line : List Char} (h : line ∈ cs.splitOn sep) :
    line <:+: cs := by
  have hpart := infix_of_mem_intercalate [sep] h
  rwa [List.intercalate_splitOn] at hpart

end Text

namespace Comment

open Text

/-- Text after the last line feed belongs to the last line. -/
theorem splitOn_append_right (cs back : List Char) (h : '\n' ∉ back) :
    ∃ lines line, cs.splitOn '\n' = lines ++ [line] ∧
      (cs ++ back).splitOn '\n' = lines ++ [line ++ back] := by
  induction cs with
  | nil => exact ⟨[], [], List.splitOn_nil _, List.splitOn_eq_singleton h⟩
  | cons c cs ih =>
      obtain ⟨lines, line, hcs, hback⟩ := ih
      by_cases hc : c = '\n'
      · subst hc
        refine ⟨[] :: lines, line, ?_, ?_⟩
        · rw [splitOn_cons_self, hcs, List.cons_append]
        · rw [List.cons_append, splitOn_cons_self, hback, List.cons_append]
      · cases lines with
        | nil =>
            exact ⟨[], c :: line, splitOn_cons_of_ne hc hcs, splitOn_cons_of_ne hc hback⟩
        | cons first lines =>
            exact ⟨(c :: first) :: lines, line, splitOn_cons_of_ne hc hcs,
              splitOn_cons_of_ne hc hback⟩

def lineTexts (cs : List Char) : List (List Char) := (cs.splitOn '\n').map trim

/-- Lines without the empty ones at both ends. -/
def withoutEmptyEnds (lines : List (List Char)) : List (List Char) := strip (· == []) lines

theorem map_trim_withoutBlankEnds (lines : List (List Char)) :
    (withoutBlankEnds lines).map trim = withoutEmptyEnds (lines.map trim) :=
  map_strip (p := (· == [])) trim lines

theorem lineTexts_newline (cs ds : List Char) :
    lineTexts (cs ++ '\n' :: ds) = lineTexts cs ++ lineTexts ds := by
  rw [lineTexts, List.splitOn_append_cons_self, List.map_append, lineTexts, lineTexts]

theorem lineTexts_append_unixNewlines (front cs : List Char) (h : '\n' ∉ front) :
    lineTexts (front ++ unixNewlines cs) = lineTexts (front ++ cs) := by
  fun_induction unixNewlines cs generalizing front with
  | case1 cs ih =>
      have hreturn : trim (front ++ ['\r']) = trim front :=
        strip_append_right front (List.forall_mem_singleton.mpr rfl)
      have hmem : '\n' ∉ front ++ ['\r'] := by simp [h]
      have hsplit : front ++ '\r' :: '\n' :: cs = (front ++ ['\r']) ++ '\n' :: cs := by simp
      have hrest : lineTexts (unixNewlines cs) = lineTexts cs := ih [] (by simp)
      rw [hsplit, lineTexts_newline, lineTexts_newline, hrest]
      simp [lineTexts, List.splitOn_eq_singleton h, List.splitOn_eq_singleton hmem, hreturn]
  | case2 c cs hcase ih =>
      by_cases hc : c = '\n'
      · subst hc
        have hrest : lineTexts (unixNewlines cs) = lineTexts cs := ih [] (by simp)
        rw [lineTexts_newline, lineTexts_newline, hrest]
      · have hmem : '\n' ∉ front ++ [c] := by simp [h, Ne.symm hc]
        simpa using ih (front ++ [c]) hmem
  | case3 => rfl

/-- Carriage returns at the ends of lines do not count. -/
theorem lineTexts_unixNewlines (cs : List Char) : lineTexts (unixNewlines cs) = lineTexts cs :=
  lineTexts_append_unixNewlines [] cs (by simp)

theorem lineTexts_cons_blank {c : Char} (hc : isBlank c) (hline : c ≠ '\n') (cs : List Char) :
    lineTexts (c :: cs) = lineTexts cs := by
  obtain ⟨line, lines, hcs⟩ := List.exists_cons_of_ne_nil (List.splitOn_ne_nil '\n' cs)
  rw [lineTexts, splitOn_cons_of_ne hline hcs, lineTexts, hcs, List.map_cons, List.map_cons,
    trim_cons_blank hc]

theorem withoutEmptyEnds_append_left {front : List Char} (h : ∀ c ∈ front, isBlank c)
    (cs : List Char) : withoutEmptyEnds (lineTexts (front ++ cs)) = withoutEmptyEnds (lineTexts cs) := by
  induction front with
  | nil => rfl
  | cons c front ih =>
      obtain ⟨hc, hfront⟩ := List.forall_mem_cons.mp h
      rw [← ih hfront, List.cons_append]
      by_cases hline : c = '\n'
      · subst hline
        rw [lineTexts, splitOn_cons_self]
        exact strip_cons (by decide) _
      · rw [lineTexts_cons_blank hc hline]

theorem withoutEmptyEnds_append_right {back : List Char} (h : ∀ c ∈ back, isBlank c)
    (cs : List Char) : withoutEmptyEnds (lineTexts (cs ++ back)) = withoutEmptyEnds (lineTexts cs) := by
  induction back generalizing cs with
  | nil => rw [List.append_nil]
  | cons c back ih =>
      obtain ⟨hc, hback⟩ := List.forall_mem_cons.mp h
      rw [List.append_cons, ih hback]
      by_cases hline : c = '\n'
      · subst hline
        rw [lineTexts_newline]
        exact strip_append_right _ (by decide)
      · obtain ⟨lines, line, hcs, hlast⟩ :=
          splitOn_append_right cs [c] (by simpa using Ne.symm hline)
        have htrim : trim (line ++ [c]) = trim line := strip_append_right line (by simpa using hc)
        rw [lineTexts, hlast, lineTexts, hcs]
        simp [htrim]

/-- Trimming a text only takes empty lines off its ends. -/
theorem withoutEmptyEnds_trim (cs : List Char) :
    withoutEmptyEnds (lineTexts (trim cs)) = withoutEmptyEnds (lineTexts cs) := by
  obtain ⟨front, back, hcs, hfront, hback⟩ := exists_strip isBlank cs
  conv_rhs => rw [hcs, withoutEmptyEnds_append_left hfront, withoutEmptyEnds_append_right hback]
  rfl

theorem filter_withoutEmptyEnds (lines : List (List Char)) :
    (withoutEmptyEnds lines).filter (· ≠ []) = lines.filter (· ≠ []) := by
  have hcond : (fun line : List Char => decide (line ≠ [])) = fun line => !(line == []) := by
    funext line
    cases line <;> rfl
  rw [hcond]
  exact filter_strip (p := (· == [])) lines

theorem lineTexts_joinWith {lines : List (List Char)} (hne : lines ≠ [])
    (h : ∀ line ∈ lines, '\n' ∉ line) : lineTexts (joinWith ['\n'] lines) = lines.map trim := by
  rw [lineTexts, joinWith, List.splitOn_intercalate '\n' h hne]

end Comment

end OverloadDocs
