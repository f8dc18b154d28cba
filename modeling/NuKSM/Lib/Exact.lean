import Mathlib

/-! # Exact arithmetic with doubles

The result of an operation on doubles is the exact one where that is a double. Other results are left out, so that a computation
that has a result here never rounds. -/

namespace NuKSM

/-- A value with at most 53 bits over a power of two. -/
def IsDouble (x : ℚ) : Prop := x.num.natAbs < 2 ^ 53 ∧ x.den ∣ 2 ^ 1000

instance (x : ℚ) : Decidable (IsDouble x) := inferInstanceAs (Decidable (_ ∧ _))

/-- The result of an operation, whose exact result is `x`. -/
def exactly (x : ℚ) : Option ℚ := if IsDouble x then some x else none

def truncate (x : ℚ) : ℤ := if 0 ≤ x then ⌊x⌋ else ⌈x⌉

/-- The conversion of a double to a signed integer type with values less than `bound`. -/
def truncateTo (bound : ℤ) (x : ℚ) : Option ℤ := if -bound ≤ truncate x ∧ truncate x < bound then some (truncate x) else none

/-- A computation goes on with the result of its first step. -/
theorem bind_of_some {α β : Type} {p : Option α} {b : α} {f : α → Option β} {q : Option β} (h : p = some b) (hf : f b = q) :
    (p >>= f) = q := by
  subst h
  exact hf

section exact
variable {n : ℕ}

theorem exactly_scaled (k : ℕ) (hk : k ≤ 1000) (hn : n < 2 ^ 53) : exactly ((n : ℚ) / 2 ^ k) = some ((n : ℚ) / 2 ^ k) := by
  refine if_pos ⟨?_, ?_⟩
  · have hdvd : ((n : ℚ) / 2 ^ k).num ∣ (n : ℤ) := by
      have h := Rat.num_dvd (n : ℤ) (b := 2 ^ k) (by positivity)
      rwa [Rat.divInt_eq_div, Int.cast_natCast, Int.cast_pow, Int.cast_ofNat] at h
    rcases Nat.eq_zero_or_pos n with rfl | hpos
    · simp
    · exact (Nat.le_of_dvd hpos (Int.natAbs_dvd_natAbs.mpr hdvd)).trans_lt hn
  · have hdvd : (((n : ℚ) / 2 ^ k).den : ℤ) ∣ 2 ^ k := by
      have h := Rat.den_dvd (n : ℤ) (2 ^ k)
      rwa [Rat.divInt_eq_div, Int.cast_natCast, Int.cast_pow, Int.cast_ofNat] at h
    exact (by exact_mod_cast hdvd : _ ∣ 2 ^ k).trans (pow_dvd_pow 2 hk)

theorem exactly_nat (hn : n < 2 ^ 53) : exactly (n : ℚ) = some (n : ℚ) := by
  have h := exactly_scaled 0 (Nat.zero_le _) hn
  rwa [pow_zero, div_one] at h

theorem truncate_scaled (k : ℕ) : truncate ((n : ℚ) / 2 ^ k) = ((n / 2 ^ k : ℕ) : ℤ) := by
  have hpos : (0 : ℚ) ≤ (n : ℚ) / 2 ^ k := by positivity
  have h := Rat.floor_natCast_div_natCast n (2 ^ k)
  rw [Nat.cast_pow, Nat.cast_ofNat] at h
  rwa [truncate, if_pos hpos]

theorem truncateTo_scaled {bound : ℕ} (k : ℕ) (h : n / 2 ^ k < bound) :
    truncateTo bound ((n : ℚ) / 2 ^ k) = some ((n / 2 ^ k : ℕ) : ℤ) := by
  rw [truncateTo, truncate_scaled]
  exact if_pos ⟨(neg_nonpos.mpr (Int.natCast_nonneg _)).trans (Int.natCast_nonneg _), by exact_mod_cast h⟩

end exact

end NuKSM
