import Mathlib.Data.List.Nodup

/-!
Tables: rows that have an identity and stand at a place. Identities are given in increasing order and never
twice, and at most one row stands at a place. A row is found by its place, and putting a row at a place
leaves what is found at the others.
-/

namespace OverloadDocs

/-- Rows with different identities, none above the last one given, at different places. -/
structure Keyed {α κ : Type} (id : α → Int) (place : α → κ) (last : Int) (rows : List α) : Prop where
  ids : (rows.map id).Nodup
  places : (rows.map place).Nodup
  bounded : ∀ row ∈ rows, id row ≤ last

/-- Of rows with different keys one is found by its key. -/
theorem find?_key_eq_some {α κ : Type} [DecidableEq κ] {key : α → κ} {rows : List α}
    (hrows : (rows.map key).Nodup) {k : κ} {row : α} :
    rows.find? (key · = k) = some row ↔ row ∈ rows ∧ key row = k := by
  constructor
  · intro hfind
    exact ⟨List.mem_of_find?_eq_some hfind, by simpa using List.find?_some hfind⟩
  · rintro ⟨hmem, rfl⟩
    obtain ⟨found, hfound⟩ : ∃ found, rows.find? (key · = key row) = some found := by
      rw [← Option.isSome_iff_exists, List.find?_isSome]
      exact ⟨row, hmem, by simp⟩
    have hkey : key found = key row := by simpa using List.find?_some hfound
    rw [hfound, List.inj_on_of_nodup_map hrows (List.mem_of_find?_eq_some hfound) hmem hkey]

theorem find?_key_eq_none {α κ : Type} [DecidableEq κ] {key : α → κ} {rows : List α} {k : κ} :
    rows.find? (key · = k) = none ↔ ∀ row ∈ rows, key row ≠ k := by
  simp

theorem find?_filter_key {α κ : Type} [DecidableEq κ] {key : α → κ} {rows : List α}
    (hrows : (rows.map key).Nodup) (keep : α → Bool) (k : κ) :
    (rows.filter keep).find? (key · = k) = (rows.find? (key · = k)).filter keep := by
  have hkept : ((rows.filter keep).map key).Nodup := hrows.sublist (List.filter_sublist.map key)
  refine Option.ext fun row => ?_
  rw [find?_key_eq_some hkept, Option.filter_eq_some_iff, find?_key_eq_some hrows, List.mem_filter]
  tauto

/-- Rows that are not kept may change, as long as they are not kept then either. -/
theorem filter_map_of_kept {α : Type} {rows : List α} {f : α → α} {keep : α → Bool}
    (hkeep : ∀ row ∈ rows, keep (f row) = keep row) (hfixed : ∀ row ∈ rows, keep row = true → f row = row) :
    (rows.map f).filter keep = rows.filter keep := by
  have hkept : rows.filter (keep ∘ f) = rows.filter keep := List.filter_congr hkeep
  rw [List.filter_map, hkept]
  refine (List.map_congr_left fun row hrow => ?_).trans (List.map_id _)
  obtain ⟨hmem, hrow⟩ := List.mem_filter.mp hrow
  exact hfixed row hmem hrow

namespace Keyed

variable {α κ : Type} {id : α → Int} {place : α → κ} {last : Int} {rows : List α}

theorem empty : Keyed id place last [] := ⟨List.nodup_nil, List.nodup_nil, fun _ => nofun⟩

theorem eq_of_id (h : Keyed id place last rows) {a b : α} (ha : a ∈ rows) (hb : b ∈ rows)
    (hid : id a = id b) : a = b :=
  List.inj_on_of_nodup_map h.ids ha hb hid

theorem eq_of_place (h : Keyed id place last rows) {a b : α} (ha : a ∈ rows) (hb : b ∈ rows)
    (hplace : place a = place b) : a = b :=
  List.inj_on_of_nodup_map h.places ha hb hplace

theorem nodup (h : Keyed id place last rows) : rows.Nodup := List.Nodup.of_map _ h.ids

theorem filter (h : Keyed id place last rows) (keep : α → Bool) : Keyed id place last (rows.filter keep) :=
  ⟨h.ids.sublist (List.filter_sublist.map _), h.places.sublist (List.filter_sublist.map _),
    fun row hrow => h.bounded row (List.mem_of_mem_filter hrow)⟩

/-- Rows may change if they keep their identities and their places. -/
theorem map (h : Keyed id place last rows) {f : α → α} (hid : ∀ row ∈ rows, id (f row) = id row)
    (hplace : ∀ row ∈ rows, place (f row) = place row) : Keyed id place last (rows.map f) := by
  refine ⟨?_, ?_, fun row hrow => ?_⟩
  · rw [List.map_map, List.map_congr_left (g := id) (by simpa using hid)]
    exact h.ids
  · rw [List.map_map, List.map_congr_left (g := place) (by simpa using hplace)]
    exact h.places
  · obtain ⟨old, hold, rfl⟩ := List.mem_map.mp hrow
    rw [hid old hold]
    exact h.bounded old hold

/-- An identity may be used up without a row. -/
theorem skip (h : Keyed id place last rows) : Keyed id place (last + 1) rows :=
  ⟨h.ids, h.places, fun row hrow => by have := h.bounded row hrow; omega⟩

theorem append (h : Keyed id place last rows) {row : α} (hid : id row = last + 1)
    (hplace : ∀ old ∈ rows, place old ≠ place row) : Keyed id place (last + 1) (rows ++ [row]) := by
  refine ⟨?_, ?_, fun r hr => ?_⟩
  · rw [List.map_append, List.map_singleton, ← List.concat_eq_append, List.nodup_concat]
    refine ⟨fun hmem => ?_, h.ids⟩
    obtain ⟨old, hold, heq⟩ := List.mem_map.mp hmem
    have := h.bounded old hold
    omega
  · rw [List.map_append, List.map_singleton, ← List.concat_eq_append, List.nodup_concat]
    refine ⟨fun hmem => ?_, h.places⟩
    obtain ⟨old, hold, heq⟩ := List.mem_map.mp hmem
    exact hplace old hold heq
  · rcases List.mem_append.mp hr with hold | hnew
    · have := h.bounded r hold
      omega
    · obtain rfl := List.mem_singleton.mp hnew
      exact Int.le_of_eq hid

/-- The row that takes the place of another. -/
theorem replace (h : Keyed id place last rows) {old : α} (hold : old ∈ rows) (row : α)
    (hid : id row = id old) (hplace : place row = place old) :
    Keyed id place last (rows.map fun r => if id r = id old then row else r) := by
  refine h.map (fun r hr => ?_) (fun r hr => ?_)
  · split
    · rename_i heq
      rw [hid, heq]
    · rfl
  · split
    · rename_i heq
      rw [hplace, h.eq_of_id hr hold heq]
    · rfl

theorem mem_replace (h : Keyed id place last rows) {old row : α} (hold : old ∈ rows) {r : α} :
    (r ∈ rows.map fun r => if id r = id old then row else r) ↔ r = row ∨ r ∈ rows ∧ r ≠ old := by
  rw [List.mem_map]
  constructor
  · rintro ⟨s, hs, rfl⟩
    split
    · exact .inl rfl
    · rename_i hne
      exact .inr ⟨hs, fun heq => hne (heq ▸ rfl)⟩
  · rintro (rfl | ⟨hr, hne⟩)
    · exact ⟨old, hold, if_pos rfl⟩
    · exact ⟨r, hr, if_neg fun heq => hne (h.eq_of_id hr hold heq)⟩

/-- Replacing a row takes the old one out and puts the new one in. -/
theorem perm_replace (h : Keyed id place last rows) {old : α} (hold : old ∈ rows) (row : α) :
    ∃ kept, rows.Perm (old :: kept) ∧
      (rows.map fun r => if id r = id old then row else r).Perm (kept ++ [row]) := by
  obtain ⟨before, behind, rfl⟩ := List.append_of_mem hold
  have hothers : ∀ r ∈ before ++ behind, (if id r = id old then row else r) = r := by
    intro r hr
    refine if_neg fun hid => ?_
    have hmem : r ∈ before ++ old :: behind := List.perm_middle.mem_iff.mpr (List.mem_cons_of_mem _ hr)
    obtain rfl := h.eq_of_id hmem hold hid
    exact (List.nodup_cons.mp (List.nodup_middle.mp h.nodup)).1 hr
  have hmiddle : (before ++ old :: behind).Perm (old :: (before ++ behind)) := List.perm_middle
  have hmap := hmiddle.map fun r => if id r = id old then row else r
  rw [List.map_cons, if_pos rfl, List.map_congr_left hothers, List.map_id'] at hmap
  exact ⟨before ++ behind, hmiddle, hmap.trans (List.perm_append_singleton row _).symm⟩

theorem replace_self (h : Keyed id place last rows) {old : α} (hold : old ∈ rows) :
    (rows.map fun r => if id r = id old then old else r) = rows := by
  refine (List.map_congr_left fun r hr => ?_).trans (List.map_id rows)
  split
  · rename_i hid
    exact (h.eq_of_id hr hold hid).symm
  · rfl

theorem filter_replace (h : Keyed id place last rows) {old row : α} (hold : old ∈ rows) {keep : α → Bool}
    (hgone : keep old = false) (hrow : keep row = false) :
    (rows.map fun r => if id r = id old then row else r).filter keep = rows.filter keep := by
  refine filter_map_of_kept (fun r hr => ?_) (fun r hr hkept => if_neg fun hid => ?_)
  · split
    · rename_i hid
      rw [hrow, h.eq_of_id hr hold hid, hgone]
    · rfl
  · rw [h.eq_of_id hr hold hid, hgone] at hkept
    contradiction

theorem find?_id (h : Keyed id place last rows) {n : Int} {row : α} :
    rows.find? (id · = n) = some row ↔ row ∈ rows ∧ id row = n :=
  find?_key_eq_some h.ids

variable [DecidableEq κ]

theorem find?_place (h : Keyed id place last rows) {k : κ} {row : α} :
    rows.find? (place · = k) = some row ↔ row ∈ rows ∧ place row = k :=
  find?_key_eq_some h.places

theorem find?_append {row : α} (hplace : ∀ old ∈ rows, place old ≠ place row) (k : κ) :
    (rows ++ [row]).find? (place · = k) =
      if k = place row then some row else rows.find? (place · = k) := by
  rw [List.find?_append]
  split
  · rename_i heq
    rw [find?_key_eq_none.mpr (heq ▸ hplace), Option.none_or, heq]
    simp
  · rename_i hne
    simp [Ne.symm hne]

theorem find?_replace (h : Keyed id place last rows) {old : α} (hold : old ∈ rows) (row : α)
    (hid : id row = id old) (hplace : place row = place old) (k : κ) :
    (rows.map fun r => if id r = id old then row else r).find? (place · = k) =
      if k = place row then some row else rows.find? (place · = k) := by
  refine Option.ext fun r => ?_
  rw [(h.replace hold row hid hplace).find?_place, h.mem_replace hold]
  split
  · rename_i heq
    constructor
    · rintro ⟨rfl | ⟨hr, hne⟩, hk⟩
      · rfl
      · exact absurd (h.eq_of_place hr hold (by rw [hk, heq, hplace])) hne
    · rintro hr
      obtain rfl := Option.some.inj hr
      exact ⟨.inl rfl, heq.symm⟩
  · rename_i hne
    rw [h.find?_place]
    constructor
    · rintro ⟨rfl | ⟨hr, -⟩, hk⟩
      · exact absurd hk.symm hne
      · exact ⟨hr, hk⟩
    · rintro ⟨hr, hk⟩
      exact ⟨.inr ⟨hr, fun heq => hne (by rw [← hk, heq, hplace])⟩, hk⟩

end Keyed

end OverloadDocs
