import OverloadDocs.Proofs.Words

/-!
The shape of a declaration. The check that a statement looks like a declaration searches it from the front
for a parenthesis with a type and a name before it; here the search is described by the parts that it
finds.
-/

namespace OverloadDocs.Source

open Text

theorem isSpace_of_isPlainBlank {c : Char} (h : isPlainBlank c) : Token.isSpace c := by
  simp only [isPlainBlank, Bool.or_eq_true, beq_iff_eq] at h
  rcases h with (((rfl | rfl) | rfl) | rfl) | rfl <;> decide

theorem isPlainBlank_of_isBlank {c : Char} (h : isBlank c = false) : isPlainBlank c = false := by
  cases hplain : isPlainBlank c with
  | false => rfl
  | true =>
      have hblank := Token.isBlank_of_isSpace (isSpace_of_isPlainBlank hplain)
      simp [h] at hblank

theorem isBlank_of_isTypeEnd {c : Char} (h : isTypeEnd c) : isBlank c = false := by
  simp only [isTypeEnd, Bool.or_eq_true, beq_iff_eq] at h
  rcases h with (h | rfl) | rfl
  · exact isBlank_of_isIdentPart h
  · decide
  · decide

/-- A text that may stand before the name of a declaration: it begins as an identifier does, ends as a type
does, and has at least two characters. -/
def IsTypeText (cs : List Char) : Prop :=
  ∃ c mid d, cs = c :: mid ++ [d] ∧ isIdentStart c ∧ (∀ x ∈ mid, isTypePart x) ∧ isTypeEnd d

theorem isReversedType_iff {cs : List Char} : isReversedType cs.reverse ↔ IsTypeText cs := by
  have hstartPart : ∀ {c}, isIdentStart c → isTypePart c := fun h => by
    simp [isTypePart, isTypeEnd, isIdentPart, h]
  constructor
  · intro h
    rcases List.eq_nil_or_concat cs with rfl | ⟨init, d, rfl⟩
    · cases h
    · cases init with
      | nil => simp [isReversedType] at h
      | cons c mid =>
          simp [isReversedType] at h
          obtain ⟨⟨hd, hmid, -⟩, hc⟩ := h
          exact ⟨c, mid, d, List.concat_eq_append, hc, hmid, hd⟩
  · rintro ⟨c, mid, d, rfl, hc, hmid, hd⟩
    simp [isReversedType]
    exact ⟨⟨hd, hmid, hstartPart hc⟩, hc⟩

/-- The parts that are found in a reversed text: blanks, a name, blanks and a type. -/
theorem isReversedHead_iff_parts {rev : List Char} :
    isReversedHead rev ↔ ∃ gap' name gap type, rev = gap' ++ (name ++ (gap ++ type)) ∧
      (∀ c ∈ gap', isPlainBlank c) ∧ (name.all isIdentPart ∧ name.getLast?.any isIdentStart) ∧
      gap ≠ [] ∧ (∀ c ∈ gap, isPlainBlank c) ∧ isReversedType type := by
  constructor
  · intro h
    simp only [isReversedHead, Bool.and_eq_true] at h
    obtain ⟨⟨hstart, hbefore⟩, htype⟩ := h
    refine ⟨rev.takeWhile isPlainBlank, (rev.dropWhile isPlainBlank).takeWhile isIdentPart,
      ((rev.dropWhile isPlainBlank).dropWhile isIdentPart).takeWhile isPlainBlank, _, ?_,
      List.all_eq_true.mp List.all_takeWhile, ⟨List.all_takeWhile, hstart⟩, ?_,
      List.all_eq_true.mp List.all_takeWhile, htype⟩
    · rw [List.takeWhile_append_dropWhile, List.takeWhile_append_dropWhile,
        List.takeWhile_append_dropWhile]
    · intro hnil
      cases hcut : (rev.dropWhile isPlainBlank).dropWhile isIdentPart with
      | nil => simp [hcut] at hbefore
      | cons c cs =>
          rw [hcut] at hbefore hnil
          rw [List.takeWhile_cons_of_pos (by simpa using hbefore)] at hnil
          cases hnil
  · rintro ⟨gap', name, gap, type, rfl, hblank', ⟨hparts, hstart⟩, hgap, hblank, htype⟩
    have htypeCut : type.dropWhile isPlainBlank = type := by
      cases type with
      | nil => rfl
      | cons d cs =>
          simp only [isReversedType, Bool.and_eq_true] at htype
          simp [isPlainBlank_of_isBlank (isBlank_of_isTypeEnd htype.1.1)]
    have hnameCut : (name ++ (gap ++ type)).dropWhile isPlainBlank = name ++ (gap ++ type) := by
      cases name with
      | nil => cases hstart
      | cons c cs =>
          have hc := List.all_eq_true.mp hparts c List.mem_cons_self
          simp [isPlainBlank_of_isBlank (isBlank_of_isIdentPart hc)]
    obtain ⟨c, gap, rfl⟩ := List.exists_cons_of_ne_nil hgap
    have hc := hblank c List.mem_cons_self
    have hstops : Token.Stops (c :: gap ++ type) := by
      apply Token.Stops.cons
      cases hpart : isIdentPart c with
      | false => rfl
      | true => simp [isPlainBlank_of_isBlank (isBlank_of_isIdentPart hpart)] at hc
    obtain ⟨htake, hdrop⟩ := Token.takeWhile_word hparts hstops
    rw [isReversedHead, List.dropWhile_append_of_pos hblank', hnameCut, htake, hdrop,
      List.dropWhile_append_of_pos hblank, htypeCut]
    simp [hstart, hc, htype]

/-- What stands before the parenthesized list of a declaration: a type, blanks, a name, and perhaps more
blanks. -/
def IsHead (cs : List Char) : Prop :=
  ∃ type gap name gap', cs = type ++ (gap ++ (String.toList name ++ gap')) ∧ IsTypeText type ∧
    gap ≠ [] ∧ (∀ c ∈ gap, isPlainBlank c) ∧ isIdentifier name ∧ ∀ c ∈ gap', isPlainBlank c

theorem isIdentifier_iff_reversed {name : String} :
    isIdentifier name ↔ name.toList.reverse.all isIdentPart ∧
      name.toList.reverse.getLast?.any isIdentStart := by
  rw [isIdentifier]
  cases name.toList with
  | nil => simp
  | cons c cs =>
      simp only [Bool.and_eq_true, List.all_reverse, List.all_cons, List.getLast?_reverse,
        List.head?_cons, Option.any_some]
      constructor
      · rintro ⟨hc, hcs⟩
        refine ⟨⟨?_, hcs⟩, hc⟩
        rw [isIdentPart, hc, Bool.true_or]
      · rintro ⟨⟨-, hcs⟩, hc⟩
        exact ⟨hc, hcs⟩

theorem isReversedHead_iff {cs : List Char} : isReversedHead cs.reverse ↔ IsHead cs := by
  rw [isReversedHead_iff_parts]
  constructor
  · rintro ⟨gap', name, gap, type, hcs, hblank', hname, hgap, hblank, htype⟩
    refine ⟨type.reverse, gap.reverse, String.ofList name.reverse, gap'.reverse, ?_,
      isReversedType_iff.mp (by rwa [List.reverse_reverse]), by simpa using hgap,
      by simpa using hblank, isIdentifier_iff_reversed.mpr (by simpa using hname),
      by simpa using hblank'⟩
    rw [← List.reverse_reverse cs, hcs]
    simp
  · rintro ⟨type, gap, name, gap', rfl, htype, hgap, hblank, hname, hblank'⟩
    exact ⟨gap'.reverse, name.toList.reverse, gap.reverse, type.reverse, by simp,
      by simpa using hblank', isIdentifier_iff_reversed.mp hname, by simpa using hgap,
      by simpa using hblank, isReversedType_iff.mpr htype⟩

theorem opensList_iff {rev cs : List Char} :
    opensList rev cs ↔ ∃ front list, cs = front ++ '(' :: list ∧
      isReversedHead (front.reverse ++ rev) ∧ list.getLast? = some ')' := by
  induction cs generalizing rev with
  | nil => simp [opensList]
  | cons c cs ih =>
      rw [opensList, Bool.or_eq_true, ih]
      simp only [Bool.and_eq_true, beq_iff_eq]
      constructor
      · rintro (⟨⟨rfl, hhead⟩, hlast⟩ | ⟨front, list, rfl, hhead, hlast⟩)
        · exact ⟨[], cs, rfl, hhead, hlast⟩
        · exact ⟨c :: front, list, rfl, by simpa using hhead, hlast⟩
      · rintro ⟨front, list, hcs, hhead, hlast⟩
        cases front with
        | nil =>
            cases hcs
            exact .inl ⟨⟨rfl, hhead⟩, hlast⟩
        | cons d front =>
            cases hcs
            exact .inr ⟨front, list, rfl, by simpa using hhead, hlast⟩

/-- A statement passes for a declaration when some parenthesis has a head before it and is closed at the
end. -/
theorem opensList_nil_iff {cs : List Char} :
    opensList [] cs ↔ ∃ head list, cs = head ++ '(' :: list ∧ IsHead head ∧
      list.getLast? = some ')' := by
  simp only [opensList_iff, List.append_nil, isReversedHead_iff]

end OverloadDocs.Source
