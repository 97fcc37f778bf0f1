import Mathlib.Tactic.SplitIfs
import OverloadDocs.Text.Utf8

/-!
The order of texts and that of their bytes are the same. The bytes of two characters differ at some place, and
there those of the greater character have the greater byte, so that what follows does not count.
-/

namespace OverloadDocs.Text

/-- Bytes come before others because of the first one in which they differ. -/
inductive Apart : Bytes → Bytes → Prop
  | here {a b : UInt8} (h : a < b) (as bs : Bytes) : Apart (a :: as) (b :: bs)
  | later {as bs : Bytes} (a : UInt8) (h : Apart as bs) : Apart (a :: as) (a :: bs)

theorem Apart.append_lt {as bs : Bytes} (h : Apart as bs) (front back : Bytes) : as ++ front < bs ++ back := by
  induction h with
  | here hlt => exact List.cons_lt_cons_iff.mpr (.inl hlt)
  | later a _ ih => exact List.cons_lt_cons_iff.mpr (.inr ⟨rfl, ih⟩)

theorem apart_ofNat {m n : Nat} {as bs : Bytes} (hle : m ≤ n) (hn : n < 256) (hrest : m = n → Apart as bs) :
    Apart (UInt8.ofNat m :: as) (UInt8.ofNat n :: bs) := by
  by_cases heq : m = n
  · subst heq
    exact .later _ (hrest rfl)
  · refine .here ?_ as bs
    have hm : m < UInt8.size := Nat.lt_of_le_of_lt hle hn
    rw [UInt8.lt_iff_toNat_lt, UInt8.toNat_ofNat_of_lt' hm, UInt8.toNat_ofNat_of_lt' hn]
    exact Nat.lt_of_le_of_ne hle heq

/-- The bytes of a character are apart from those of a greater one. Longer encodings begin with greater bytes, and
in those of one length the bytes are the digits of the character. -/
theorem apart_utf8EncodeChar {c d : Char} (h : c < d) :
    Apart (String.utf8EncodeChar c) (String.utf8EncodeChar d) := by
  have hlt : c.val.toNat < d.val.toNat := h
  have hbound : d.val.toNat < 1114112 := by
    rcases d.valid with hsmall | ⟨-, hlarge⟩
    · exact Nat.lt_trans hsmall (by decide)
    · exact hlarge
  unfold String.utf8EncodeChar
  generalize c.val.toNat = v at hlt
  generalize d.val.toNat = w at hlt hbound
  dsimp only
  -- The digits before the first different one are equal, and there are as many as four.
  split_ifs
  all_goals first
    | omega
    | exact apart_ofNat (by omega) (by omega) fun _ => by omega
    | exact apart_ofNat (by omega) (by omega) fun _ => apart_ofNat (by omega) (by omega) fun _ => by omega
    | exact apart_ofNat (by omega) (by omega) fun _ => apart_ofNat (by omega) (by omega) fun _ =>
        apart_ofNat (by omega) (by omega) fun _ => by omega
    | exact apart_ofNat (by omega) (by omega) fun _ => apart_ofNat (by omega) (by omega) fun _ =>
        apart_ofNat (by omega) (by omega) fun _ => apart_ofNat (by omega) (by omega) fun _ => by omega

/-- Every character has a byte. -/
theorem utf8EncodeChar_ne_nil (c : Char) : String.utf8EncodeChar c ≠ [] := by
  unfold String.utf8EncodeChar
  dsimp only
  split_ifs <;> exact List.cons_ne_nil _ _

theorem append_lt_append (front : Bytes) {as bs : Bytes} (h : as < bs) : front ++ as < front ++ bs := by
  induction front with
  | nil => exact h
  | cons b front ih => exact List.cons_lt_cons_iff.mpr (.inr ⟨rfl, ih⟩)

theorem bytesOfChars_lt {cs ds : List Char} (h : cs < ds) : bytesOfChars cs < bytesOfChars ds := by
  induction cs generalizing ds with
  | nil =>
      cases ds with
      | nil => exact absurd h (List.not_lt_nil _)
      | cons d ds =>
          obtain ⟨b, bs, hb⟩ := List.exists_cons_of_ne_nil (utf8EncodeChar_ne_nil d)
          rw [bytesOfChars, bytesOfChars, List.flatMap_cons, hb]
          exact List.nil_lt_cons _ _
  | cons c cs ih =>
      cases ds with
      | nil => exact absurd h (List.not_lt_nil _)
      | cons d ds =>
          rw [bytesOfChars, bytesOfChars, List.flatMap_cons, List.flatMap_cons]
          rcases List.cons_lt_cons_iff.mp h with hlt | ⟨rfl, hrest⟩
          · exact (apart_utf8EncodeChar hlt).append_lt _ _
          · exact append_lt_append _ (ih hrest)

/-- Texts are ordered as their bytes are. -/
theorem bytesOf_lt {a b : String} (h : a < b) : bytesOf a < bytesOf b := bytesOfChars_lt h

/-- Different texts stand in byte order when they are sorted. -/
theorem pairwise_bytesOf_mergeSort {texts : List String} (h : texts.Nodup) :
    (texts.mergeSort (· ≤ ·)).Pairwise fun a b => bytesOf a < bytesOf b := by
  have hsorted : (texts.mergeSort (· ≤ ·)).Pairwise fun a b => decide (a ≤ b) = true := by
    refine List.pairwise_mergeSort (fun a b c hab hbc => ?_) (fun a b => ?_) texts
    · exact decide_eq_true (String.le_trans (of_decide_eq_true hab) (of_decide_eq_true hbc))
    · rw [Bool.or_eq_true, decide_eq_true_eq, decide_eq_true_eq]
      exact String.le_total a b
  have hdistinct : (texts.mergeSort (· ≤ ·)).Nodup := (List.mergeSort_perm _ _).nodup_iff.mpr h
  refine (hsorted.and hdistinct).imp fun {a b} hab => bytesOf_lt ?_
  exact Decidable.byContradiction fun hnot =>
    hab.2 (String.le_antisymm (of_decide_eq_true hab.1) (String.not_lt.mp hnot))

end OverloadDocs.Text
