import Mathlib.Algebra.Order.Field.Basic
import Mathlib.Algebra.Order.Field.Rat
import OverloadDocs.Search.Score

/-!
Exact scores. The arithmetic of scores over the rational numbers, in which sums and quotients are not rounded, and
the order of what is compared by a score first.
-/

namespace OverloadDocs

/-- A rational number with two decimals, a tie going to the even neighbour. -/
def exactHundredths (x : ℚ) : String :=
  (if x < 0 then "-" else "") ++ Text.fixedDigits 2 (Text.roundedQuotient (x.num.natAbs * 100) x.den)

instance : Score ℚ where
  ofNat n := n
  add := (· + ·)
  div := (· / ·)
  abs x := |x|
  lt a b := decide (a < b)
  hundredths := exactHundredths

namespace Score

@[simp] theorem ofNat_exact (n : Nat) : (ofNat n : ℚ) = n := rfl

@[simp] theorem add_exact (x y : ℚ) : add x y = x + y := rfl

@[simp] theorem div_exact (x y : ℚ) : div x y = x / y := rfl

@[simp] theorem abs_exact (x : ℚ) : abs x = |x| := rfl

@[simp] theorem lt_exact (x y : ℚ) : lt x y = decide (x < y) := rfl

/-- A comparison of scores with another comparison where neither is less. -/
theorem lt_or_tie_iff {x y : ℚ} {tie : Bool} : lt x y || (!lt y x && tie) ↔ x < y ∨ x = y ∧ tie := by
  simp only [lt_exact, Bool.or_eq_true, Bool.and_eq_true, Bool.not_eq_true', decide_eq_true_eq,
    decide_eq_false_iff_not, not_lt]
  constructor
  · rintro (hlt | ⟨hle, htie⟩)
    · exact .inl hlt
    · exact hle.lt_or_eq.imp_right fun heq => ⟨heq, htie⟩
  · rintro (hlt | ⟨heq, htie⟩)
    · exact .inl hlt
    · exact .inr ⟨heq.le, htie⟩

end Score

/-- Things are compared by a key, and in another way where their keys are the same. -/
def ByKey {β κ : Type} [LT κ] (f : β → κ) (tie : β → β → Prop) (a b : β) : Prop :=
  f a < f b ∨ f a = f b ∧ tie a b

namespace ByKey

variable {β κ : Type} [LinearOrder κ] {f : β → κ} {tie : β → β → Prop} {a b c : β}

theorem trans (htie : tie a b → tie b c → tie a c) (hab : ByKey f tie a b) (hbc : ByKey f tie b c) :
    ByKey f tie a c := by
  rcases hab with hab | ⟨hab, hfirst⟩ <;> rcases hbc with hbc | ⟨hbc, hsecond⟩
  · exact .inl (hab.trans hbc)
  · exact .inl (hbc ▸ hab)
  · exact .inl (hab ▸ hbc)
  · exact .inr ⟨hab.trans hbc, htie hfirst hsecond⟩

theorem total (htie : tie a b ∨ tie b a) : ByKey f tie a b ∨ ByKey f tie b a := by
  rcases lt_trichotomy (f a) (f b) with hlt | heq | hlt
  · exact .inl (.inl hlt)
  · exact htie.imp (fun h => .inr ⟨heq, h⟩) fun h => .inr ⟨heq.symm, h⟩
  · exact .inr (.inl hlt)

theorem le (h : ByKey f tie a b) : f a ≤ f b := h.elim le_of_lt fun heq => heq.1.le

end ByKey

end OverloadDocs
