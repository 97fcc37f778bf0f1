import Mathlib.Algebra.BigOperators.Group.List.Basic
import Mathlib.Data.List.Nodup
import OverloadDocs.Proofs.ExactScores

/-!
Fusing two rankings, with exact scores. The scores of the functions are collected in a table, whose entries may
be met in any order, and sorted. What comes out has every function of either ranking once, higher scores first;
it does not tell the two rankings apart, and a function that is ahead of another wherever that is ranked stays
ahead of it.
-/

namespace OverloadDocs.Ranked

/-! ## The table of scores -/

/-- What the entries for a function add up to. -/
def total (id : Int) (entries : List (Int × ℚ)) : ℚ := ((entries.filter (·.1 = id)).map (·.2)).sum

@[simp] theorem total_nil (id : Int) : total id [] = 0 := rfl

theorem total_cons (id : Int) (e : Int × ℚ) (entries : List (Int × ℚ)) :
    total id (e :: entries) = (if e.1 = id then e.2 else 0) + total id entries := by
  by_cases h : e.1 = id <;> simp [total, h]

theorem total_append (id : Int) (entries more : List (Int × ℚ)) :
    total id (entries ++ more) = total id entries + total id more := by
  simp [total]

theorem total_eq_zero {id : Int} {entries : List (Int × ℚ)} (h : id ∉ entries.map (·.1)) :
    total id entries = 0 := by
  induction entries with
  | nil => rfl
  | cons e entries ih =>
    rw [List.map_cons, List.mem_cons, not_or] at h
    rw [total_cons, if_neg (Ne.symm h.1), ih h.2, zero_add]

/-- In a table with one entry for each function the entry is what there is. -/
theorem total_eq_of_mem {id : Int} {x : ℚ} {entries : List (Int × ℚ)} (hnodup : (entries.map (·.1)).Nodup)
    (h : (id, x) ∈ entries) : total id entries = x := by
  induction entries with
  | nil => cases h
  | cons e entries ih =>
    rw [List.map_cons, List.nodup_cons] at hnodup
    rw [total_cons]
    rcases List.mem_cons.mp h with rfl | hrest
    · rw [if_pos rfl, total_eq_zero hnodup.1, add_zero]
    · have hne : e.1 ≠ id := fun heq => hnodup.1 (heq ▸ List.mem_map_of_mem (f := (·.1)) hrest)
      rw [if_neg hne, zero_add, ih hnodup.2 hrest]

theorem total_addScore (id j : Int) (x : ℚ) (scores : List (Int × ℚ)) :
    total j (addScore id x scores) = total j scores + if id = j then x else 0 := by
  induction scores with
  | nil => simp [addScore, total_cons]
  | cons e scores ih =>
    rw [addScore]
    split
    · rename_i hid
      subst hid
      rw [total_cons, total_cons]
      split <;> simp [add_right_comm]
    · rw [total_cons, total_cons, ih, add_assoc]

theorem mem_ids_addScore {id j : Int} {x : ℚ} {scores : List (Int × ℚ)} :
    j ∈ (addScore id x scores).map (·.1) ↔ j ∈ scores.map (·.1) ∨ j = id := by
  induction scores with
  | nil => simp [addScore]
  | cons e scores ih =>
    rw [addScore]
    split
    · rename_i hid
      subst hid
      simp only [List.map_cons, List.mem_cons]
      tauto
    · rw [List.map_cons, List.map_cons, List.mem_cons, List.mem_cons, ih, or_assoc]

theorem nodup_ids_addScore (id : Int) (x : ℚ) {scores : List (Int × ℚ)} (h : (scores.map (·.1)).Nodup) :
    ((addScore id x scores).map (·.1)).Nodup := by
  induction scores with
  | nil => simp [addScore]
  | cons e scores ih =>
    rw [List.map_cons, List.nodup_cons] at h
    rw [addScore]
    split
    · exact List.nodup_cons.mpr h
    · rename_i hid
      refine List.nodup_cons.mpr ⟨fun hmem => ?_, ih h.2⟩
      rcases mem_ids_addScore.mp hmem with hold | hnew
      · exact h.1 hold
      · exact hid hnew

/-- A table into which entries were added one after the other: one entry for each function, which is what its
entries add up to. -/
theorem foldl_addScore (added scores : List (Int × ℚ)) (h : (scores.map (·.1)).Nodup) :
    let table := added.foldl (fun scores e => addScore e.1 e.2 scores) scores
    (table.map (·.1)).Nodup ∧
      (∀ id, id ∈ table.map (·.1) ↔ id ∈ scores.map (·.1) ∨ id ∈ added.map (·.1)) ∧
      ∀ id, total id table = total id scores + total id added := by
  induction added generalizing scores with
  | nil => exact ⟨h, by simp, by simp⟩
  | cons e added ih =>
    obtain ⟨hnodup, hmem, htotal⟩ := ih _ (nodup_ids_addScore e.1 e.2 h)
    refine ⟨hnodup, fun id => ?_, fun id => ?_⟩
    · rw [List.foldl_cons, hmem id, mem_ids_addScore, List.map_cons, List.mem_cons, or_assoc]
    · rw [List.foldl_cons, htotal id, total_addScore, total_cons, add_assoc]

/-! ## Fused scores -/

/-- The reciprocal of the rank that a ranking gives a function, shifted by a constant; nothing for a function
that it does not rank. -/
def reciprocalRank (k : ℚ) (ids : List Int) (id : Int) : ℚ :=
  if id ∈ ids then 1 / (k + (ids.idxOf id + 1 : Nat)) else 0

def fusedScore (k : ℚ) (refs texts : List Int) (id : Int) : ℚ :=
  reciprocalRank k refs id + reciprocalRank k texts id

theorem fusedScore_comm (k : ℚ) (refs texts : List Int) :
    fusedScore k refs texts = fusedScore k texts refs :=
  funext fun _ => add_comm _ _

theorem ids_mapIdx (f : Nat → ℚ) (ids : List Int) : (ids.mapIdx fun i id => (id, f i)).map (·.1) = ids := by
  induction ids generalizing f with
  | nil => rfl
  | cons id ids ih => rw [List.mapIdx_cons, List.map_cons, ih fun i => f (i + 1)]

theorem total_mapIdx (f : Nat → ℚ) {ids : List Int} (h : ids.Nodup) (id : Int) :
    total id (ids.mapIdx fun i id => (id, f i)) = if id ∈ ids then f (ids.idxOf id) else 0 := by
  induction ids generalizing f with
  | nil => rfl
  | cons j ids ih =>
    obtain ⟨hj, hids⟩ := List.nodup_cons.mp h
    rw [List.mapIdx_cons, total_cons, ih (fun i => f (i + 1)) hids]
    by_cases heq : j = id
    · subst heq
      simp [hj]
    · simp [heq, Ne.symm heq, List.idxOf_cons_ne _ heq]

theorem total_contributions (k : ℚ) {ids : List Int} (h : ids.Nodup) (id : Int) :
    total id (contributions k ids) = reciprocalRank k ids id := by
  rw [contributions, total_mapIdx (fun i => reciprocal k (i + 1)) h, reciprocalRank]
  simp [reciprocal]

/-- The table of the fused scores, in whatever order its entries are met. -/
structure IsTable (k : ℚ) (refs texts : List Int) (entries : List (Int × ℚ)) : Prop where
  nodup : (entries.map (·.1)).Nodup
  mem_iff : ∀ id x, (id, x) ∈ entries ↔ (id ∈ refs ∨ id ∈ texts) ∧ x = fusedScore k refs texts id

section

variable {k : ℚ} {refs texts : List Int}

theorem IsTable.swap {entries : List (Int × ℚ)} (h : IsTable k refs texts entries) :
    IsTable k texts refs entries :=
  ⟨h.nodup, fun id x => by rw [h.mem_iff, fusedScore_comm, or_comm]⟩

/-- Two tables have the same entries. -/
theorem IsTable.perm {entries entries' : List (Int × ℚ)} (h : IsTable k refs texts entries)
    (h' : IsTable k refs texts entries') : entries.Perm entries' := by
  refine (List.perm_ext_iff_of_nodup h.nodup.of_map h'.nodup.of_map).mpr fun e => ?_
  rw [h.mem_iff, h'.mem_iff]

theorem isTable_contributions (hrefs : refs.Nodup) (htexts : texts.Nodup) :
    IsTable k refs texts ((contributions k refs ++ contributions k texts).foldl
      (fun scores e => addScore e.1 e.2 scores) []) := by
  obtain ⟨hnodup, hmem, htotal⟩ :=
    foldl_addScore (contributions k refs ++ contributions k texts) [] List.nodup_nil
  have hids : ∀ ids : List Int, (contributions k ids).map (·.1) = ids := ids_mapIdx _
  refine ⟨hnodup, fun id x => ?_⟩
  have hid : id ∈ _ ↔ id ∈ refs ∨ id ∈ texts :=
    (hmem id).trans (by rw [List.map_append, hids, hids, List.mem_append]; simp)
  have hscore : total id _ = fusedScore k refs texts id :=
    (htotal id).trans (by
      rw [total_nil, zero_add, total_append, total_contributions k hrefs, total_contributions k htexts,
        fusedScore])
  constructor
  · intro h
    exact ⟨hid.mp (List.mem_map_of_mem (f := (·.1)) h), hscore ▸ (total_eq_of_mem hnodup h).symm⟩
  · rintro ⟨hranked, rfl⟩
    obtain ⟨⟨j, y⟩, he, rfl⟩ := List.mem_map.mp (hid.mpr hranked)
    rw [← hscore, total_eq_of_mem hnodup he]
    exact he

/-! ## The order -/

theorem before_iff {a b : Int × ℚ} :
    before a b ↔ ByKey (fun e => OrderDual.toDual e.2) (fun e e' => e.1 ≤ e'.1) a b := by
  rw [before, Score.lt_or_tie_iff, decide_eq_true_eq, eq_comm (a := b.2)]
  rfl

theorem before_trans (a b c : Int × ℚ) (hab : before a b) (hbc : before b c) : before a c :=
  before_iff.mpr ((before_iff.mp hab).trans le_trans (before_iff.mp hbc))

theorem before_total (a b : Int × ℚ) : before a b || before b a := by
  rw [Bool.or_eq_true, before_iff, before_iff]
  exact ByKey.total (le_total a.1 b.1)

theorem before_antisymm {a b : Int × ℚ} (hab : before a b) (hba : before b a) : a = b := by
  rw [before_iff] at hab hba
  have heq : a.2 = b.2 := le_antisymm hba.le hab.le
  rcases hab with hlt | ⟨-, hid⟩
  · exact absurd heq.symm (OrderDual.toDual_lt_toDual.mp hlt).ne
  · rcases hba with hlt | ⟨-, hid'⟩
    · exact absurd heq (OrderDual.toDual_lt_toDual.mp hlt).ne
    · exact Prod.ext (le_antisymm hid hid') heq

/-- Entries can be sorted in one way only. -/
theorem eq_of_sorted {entries sorted sorted' : List (Int × ℚ)} (hperm : sorted.Perm entries)
    (hperm' : sorted'.Perm entries) (hsorted : sorted.Pairwise (before · ·))
    (hsorted' : sorted'.Pairwise (before · ·)) : sorted = sorted' :=
  (hperm.trans hperm'.symm).eq_of_pairwise (fun _ _ _ _ => before_antisymm) hsorted hsorted'

/-! ## The fused ranking -/

/-- A ranking of the functions of two others: each of them once, ranked from one on and with its fused score,
higher scores first and lower identities first where scores are the same. -/
structure IsFusion (k : ℚ) (refs texts : List Int) (fused : List (Ranked ℚ)) : Prop where
  once : (fused.map (·.id)).Nodup
  complete : ∀ id, id ∈ fused.map (·.id) ↔ id ∈ refs ∨ id ∈ texts
  ranks : fused.map (·.rank) = (List.range fused.length).map (· + 1)
  scores : ∀ r ∈ fused, r.score = fusedScore k refs texts r.id
  ordered : fused.Pairwise fun r r' => r'.score < r.score ∨ r.score = r'.score ∧ r.id < r'.id

theorem ids_numbered (scores : List (Int × ℚ)) : (numbered scores).map (·.id) = scores.map (·.1) := by
  refine List.ext_getElem (by simp [numbered]) fun i hi hi' => ?_
  simp [numbered]

theorem ranks_numbered (scores : List (Int × ℚ)) :
    (numbered scores).map (·.rank) = (List.range (numbered scores).length).map (· + 1) := by
  refine List.ext_getElem (by simp) fun i hi hi' => ?_
  simp [numbered]

theorem entry_of_mem_numbered {scores : List (Int × ℚ)} {r : Ranked ℚ} (h : r ∈ numbered scores) :
    (r.id, r.score) ∈ scores := by
  obtain ⟨i, hi, rfl⟩ := List.mem_iff_getElem.mp h
  simp [numbered]

/-- A table, sorted and numbered, is the fused ranking. -/
theorem IsTable.isFusion {entries sorted : List (Int × ℚ)} (h : IsTable k refs texts entries)
    (hperm : sorted.Perm entries) (hsorted : sorted.Pairwise (before · ·)) :
    IsFusion k refs texts (numbered sorted) := by
  have hnodup : (sorted.map (·.1)).Nodup := (hperm.map (·.1)).nodup_iff.mpr h.nodup
  refine ⟨?_, fun id => ?_, ranks_numbered sorted, fun r hr => ?_, ?_⟩
  · rwa [ids_numbered]
  · rw [ids_numbered, List.mem_map]
    constructor
    · rintro ⟨⟨id, x⟩, he, rfl⟩
      exact ((h.mem_iff id x).mp (hperm.mem_iff.mp he)).1
    · intro hranked
      exact ⟨(id, _), hperm.mem_iff.mpr ((h.mem_iff id _).mpr ⟨hranked, rfl⟩), rfl⟩
  · exact ((h.mem_iff _ _).mp (hperm.mem_iff.mp (entry_of_mem_numbered hr))).2
  · rw [List.pairwise_iff_getElem] at hsorted ⊢
    intro i j hi hj hij
    have hi' : i < sorted.length := by simpa [numbered] using hi
    have hj' : j < sorted.length := by simpa [numbered] using hj
    have hne : sorted[i].1 ≠ sorted[j].1 := by
      have hget := List.pairwise_iff_getElem.mp hnodup i j (by simpa) (by simpa) hij
      simpa using hget
    simp only [numbered, List.getElem_mapIdx]
    rcases before_iff.mp (hsorted i j hi' hj' hij) with hlt | ⟨heq, hid⟩
    · exact .inl (OrderDual.toDual_lt_toDual.mp hlt)
    · exact .inr ⟨OrderDual.toDual_inj.mp heq, lt_of_le_of_ne hid hne⟩

/-- Of two functions in the fused ranking the one with the higher score has the earlier rank. -/
theorem IsFusion.rank_lt {fused : List (Ranked ℚ)} (h : IsFusion k refs texts fused) {r r' : Ranked ℚ}
    (hr : r ∈ fused) (hr' : r' ∈ fused) (hlt : r'.score < r.score) : r.rank < r'.rank := by
  obtain ⟨i, hi, rfl⟩ := List.mem_iff_getElem.mp hr
  obtain ⟨j, hj, rfl⟩ := List.mem_iff_getElem.mp hr'
  have hrank : ∀ (n : Nat) (hn : n < fused.length), fused[n].rank = n + 1 := by
    intro n hn
    have hget := List.getElem_of_eq h.ranks (i := n) (by simpa)
    simpa using hget
  have hij : i < j := by
    by_contra hle
    rcases (Nat.le_of_not_lt hle).lt_or_eq with hji | rfl
    · rcases List.pairwise_iff_getElem.mp h.ordered j i hj hi hji with hgt | ⟨heq, -⟩
      · exact hlt.not_gt hgt
      · exact hlt.ne heq
    · exact lt_irrefl _ hlt
  rw [hrank, hrank]
  omega

theorem fuse_eq_numbered (hk : 0 < k) :
    fuse k refs texts = numbered (((contributions k refs ++ contributions k texts).foldl
      (fun scores e => addScore e.1 e.2 scores) []).mergeSort before) := by
  have hconstant : Score.isZero k = false := by simp [Score.isZero, hk]
  rw [fuse, hconstant]
  rfl

/-- The fused ranking is what comes of any table of the fused scores, however it is sorted. -/
theorem numbered_eq_fuse (hk : 0 < k) (hrefs : refs.Nodup) (htexts : texts.Nodup)
    {entries sorted : List (Int × ℚ)} (h : IsTable k refs texts entries) (hperm : sorted.Perm entries)
    (hsorted : sorted.Pairwise (before · ·)) : numbered sorted = fuse k refs texts := by
  have htable := h.perm (isTable_contributions hrefs htexts)
  rw [fuse_eq_numbered hk]
  refine congrArg numbered (eq_of_sorted (hperm.trans htable) (List.mergeSort_perm _ _) hsorted ?_)
  exact List.pairwise_mergeSort before_trans before_total _

theorem isFusion_fuse (hk : 0 < k) (hrefs : refs.Nodup) (htexts : texts.Nodup) :
    IsFusion k refs texts (fuse k refs texts) := by
  rw [fuse_eq_numbered hk]
  exact (isTable_contributions hrefs htexts).isFusion (List.mergeSort_perm _ _)
    (List.pairwise_mergeSort before_trans before_total _)

theorem fuse_comm (hk : 0 < k) (hrefs : refs.Nodup) (htexts : texts.Nodup) :
    fuse k texts refs = fuse k refs texts := by
  rw [fuse_eq_numbered hk]
  exact numbered_eq_fuse hk hrefs htexts (isTable_contributions htexts hrefs).swap (List.mergeSort_perm _ _)
    (List.pairwise_mergeSort before_trans before_total _)

/-! ## Dominance -/

/-- A ranking has one function ahead of another, if it has the other. -/
def KeepsAhead (a b : Int) (ids : List Int) : Prop := b ∈ ids → a ∈ ids ∧ ids.idxOf a < ids.idxOf b

theorem shifted_pos (hk : 0 < k) (n : Nat) : 0 < k + n := add_pos_of_pos_of_nonneg hk n.cast_nonneg

theorem reciprocalRank_nonneg (hk : 0 < k) (ids : List Int) (id : Int) : 0 ≤ reciprocalRank k ids id := by
  unfold reciprocalRank
  split
  · exact (one_div_pos.mpr (shifted_pos hk _)).le
  · exact le_rfl

theorem KeepsAhead.reciprocalRank_lt {a b : Int} {ids : List Int} (h : KeepsAhead a b ids) (hk : 0 < k)
    (hb : b ∈ ids) : reciprocalRank k ids b < reciprocalRank k ids a := by
  obtain ⟨ha, hahead⟩ := h hb
  rw [reciprocalRank, reciprocalRank, if_pos hb, if_pos ha]
  have hrank : ((ids.idxOf a + 1 : Nat) : ℚ) < (ids.idxOf b + 1 : Nat) :=
    Nat.cast_lt.mpr (Nat.succ_lt_succ hahead)
  exact one_div_lt_one_div_of_lt (shifted_pos hk _) (add_lt_add_right hrank k)

theorem KeepsAhead.reciprocalRank_le {a b : Int} {ids : List Int} (h : KeepsAhead a b ids) (hk : 0 < k) :
    reciprocalRank k ids b ≤ reciprocalRank k ids a := by
  by_cases hb : b ∈ ids
  · exact (h.reciprocalRank_lt hk hb).le
  · rw [reciprocalRank, if_neg hb]
    exact reciprocalRank_nonneg hk ids a

/-- What is ahead in every ranking that has the other, and has it in one at least, gets the higher score. -/
theorem fusedScore_lt (hk : 0 < k) {a b : Int} (hb : b ∈ refs ∨ b ∈ texts) (hrefs : KeepsAhead a b refs)
    (htexts : KeepsAhead a b texts) : fusedScore k refs texts b < fusedScore k refs texts a := by
  rcases hb with hb | hb
  · exact add_lt_add_of_lt_of_le (hrefs.reciprocalRank_lt hk hb) (htexts.reciprocalRank_le hk)
  · exact add_lt_add_of_le_of_lt (hrefs.reciprocalRank_le hk) (htexts.reciprocalRank_lt hk hb)

/-- Two rankings, neither of which has a function twice, are fused into one that has every function of either
once, ranked from one on by their fused scores, higher ones first, and by lower identities where they are the
same. The order in which a table of the scores is met and how it is sorted do not show, and neither does which
ranking is the first. What is ahead of a function wherever that is ranked stays ahead of it. -/
theorem fuse_laws (hk : 0 < k) (hrefs : refs.Nodup) (htexts : texts.Nodup) :
    IsFusion k refs texts (fuse k refs texts) ∧
    (∀ entries sorted, IsTable k refs texts entries → sorted.Perm entries → sorted.Pairwise (before · ·) →
      numbered sorted = fuse k refs texts) ∧
    fuse k texts refs = fuse k refs texts ∧
    ∀ a b, (b ∈ refs ∨ b ∈ texts) → KeepsAhead a b refs → KeepsAhead a b texts →
      ∃ r ∈ fuse k refs texts, ∃ r' ∈ fuse k refs texts, r.id = a ∧ r'.id = b ∧ r.rank < r'.rank := by
  have hfusion := isFusion_fuse hk hrefs htexts
  refine ⟨hfusion, fun _ _ => numbered_eq_fuse hk hrefs htexts, fuse_comm hk hrefs htexts, ?_⟩
  intro a b hb haheadRefs haheadTexts
  have ha : a ∈ refs ∨ a ∈ texts := hb.imp (fun h => (haheadRefs h).1) fun h => (haheadTexts h).1
  obtain ⟨r, hr, rfl⟩ := List.mem_map.mp ((hfusion.complete a).mpr ha)
  obtain ⟨r', hr', rfl⟩ := List.mem_map.mp ((hfusion.complete b).mpr hb)
  refine ⟨r, hr, r', hr', rfl, rfl, hfusion.rank_lt hr hr' ?_⟩
  rw [hfusion.scores r hr, hfusion.scores r' hr']
  exact fusedScore_lt hk hb haheadRefs haheadTexts

/-- Two rankings that share a function; the first of the one comes before the second of it. -/
theorem fuse_of_shared_function :
    (0 : ℚ) < 60 ∧ [(7 : Int), 2, 5].Nodup ∧ [(5 : Int), 7].Nodup ∧
      IsFusion 60 [7, 2, 5] [5, 7] (fuse 60 [7, 2, 5] [5, 7]) ∧
      ∃ r ∈ fuse (60 : ℚ) [7, 2, 5] [5, 7], ∃ r' ∈ fuse (60 : ℚ) [7, 2, 5] [5, 7],
        r.id = 7 ∧ r'.id = 2 ∧ r.rank < r'.rank := by
  have hk : (0 : ℚ) < 60 := by norm_num
  have hrefs : [(7 : Int), 2, 5].Nodup := by decide
  have htexts : [(5 : Int), 7].Nodup := by decide
  obtain ⟨hfusion, -, -, hahead⟩ := fuse_laws hk hrefs htexts
  refine ⟨hk, hrefs, htexts, hfusion, hahead 7 2 (.inl (by decide)) ?_ ?_⟩
  · exact fun _ => by decide
  · exact fun h => absurd h (by decide)

end

end OverloadDocs.Ranked
