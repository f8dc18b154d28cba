import Mathlib

/-! # The folded squares modulo a prime

Modulo a prime `p` with `p % 4 = 3` the numbers up to `p / 2` have different squares, and the negatives of the squares of
the others are different from those. -/

namespace NuKSM
variable {p x y : ℕ}

/-- The square of `x` modulo `p`, taken from `p` where `x` lies in the upper half. -/
def foldedSquare (p x : ℕ) : ℕ := if x ≤ p / 2 then x * x % p else p - x * x % p

section prime
variable [Fact p.Prime]

theorem sq_mod_pos (h0 : 0 < x) (h : x < p) : 0 < x * x % p := by
  refine Nat.pos_of_ne_zero fun hzero => ?_
  rcases (Nat.Prime.dvd_mul Fact.out).mp (Nat.dvd_of_mod_eq_zero hzero) with hdvd | hdvd <;>
    exact absurd (Nat.le_of_dvd h0 hdvd) (by omega)

theorem foldedSquare_lt (h : x < p) : foldedSquare p x < p := by
  unfold foldedSquare
  split
  · exact Nat.mod_lt _ (by omega)
  · have := sq_mod_pos (p := p) (show 0 < x by omega) h
    omega

theorem foldedSquare_cast (x : ℕ) :
    (foldedSquare p x : ZMod p) = if x ≤ p / 2 then (x : ZMod p) ^ 2 else -(x : ZMod p) ^ 2 := by
  unfold foldedSquare
  have hsq : ((x * x % p : ℕ) : ZMod p) = (x : ZMod p) ^ 2 := by
    rw [ZMod.natCast_mod, Nat.cast_mul, sq]
  split
  · exact hsq
  · rw [Nat.cast_sub (Nat.mod_lt _ (Fact.out : p.Prime).pos).le, hsq, ZMod.natCast_self, zero_sub]

/-- Numbers with the same square are the same or add up to `p`. -/
theorem eq_or_add_eq_of_sq (hx : x < p) (hy : y < p) (h : (x : ZMod p) ^ 2 = (y : ZMod p) ^ 2) :
    x = y ∨ x + y = p ∨ x + y = 0 := by
  rcases sq_eq_sq_iff_eq_or_eq_neg.mp h with h | h
  · rw [ZMod.natCast_eq_natCast_iff', Nat.mod_eq_of_lt hx, Nat.mod_eq_of_lt hy] at h
    exact Or.inl h
  · have hsum : ((x + y : ℕ) : ZMod p) = 0 := by
      rw [Nat.cast_add, h, neg_add_cancel]
    obtain ⟨k, hk⟩ := (ZMod.natCast_eq_zero_iff _ _).mp hsum
    have hk2 : k < 2 := by
      by_contra hge
      have : p * 2 ≤ p * k := Nat.mul_le_mul_left p (by omega)
      omega
    interval_cases k <;> omega

/-- No square is the negative of another one. -/
theorem sq_ne_neg_sq (hp : p % 4 = 3) (hy0 : 0 < y) (hy : y < p) : (x : ZMod p) ^ 2 ≠ -(y : ZMod p) ^ 2 := by
  intro h
  have hne : (y : ZMod p) ≠ 0 := fun hzero => by
    have := Nat.le_of_dvd hy0 ((ZMod.natCast_eq_zero_iff _ _).mp hzero)
    omega
  have hsquare : IsSquare (-1 : ZMod p) := by
    refine ⟨x * (y : ZMod p)⁻¹, ?_⟩
    have hinv : (y : ZMod p) ^ 2 * ((y : ZMod p)⁻¹) ^ 2 = 1 := by
      rw [← mul_pow, mul_inv_cancel₀ hne, one_pow]
    linear_combination hinv - ((y : ZMod p)⁻¹) ^ 2 * h
  exact ZMod.exists_sq_eq_neg_one_iff.mp hsquare hp

theorem foldedSquare_injOn (hp : p % 4 = 3) : Set.InjOn (foldedSquare p) {x | x < p} := by
  intro x (hx : x < p) y (hy : y < p) heq
  have hcast := congrArg (Nat.cast (R := ZMod p)) heq
  rw [foldedSquare_cast, foldedSquare_cast] at hcast
  by_cases hxl : x ≤ p / 2 <;> by_cases hyl : y ≤ p / 2
  · rw [if_pos hxl, if_pos hyl] at hcast
    rcases eq_or_add_eq_of_sq hx hy hcast with h | h | h <;> omega
  · rw [if_pos hxl, if_neg hyl] at hcast
    exact absurd hcast (sq_ne_neg_sq hp (by omega) hy)
  · rw [if_neg hxl, if_pos hyl] at hcast
    exact absurd hcast.symm (sq_ne_neg_sq hp (by omega) hx)
  · rw [if_neg hxl, if_neg hyl, neg_inj] at hcast
    rcases eq_or_add_eq_of_sq hx hy hcast with h | h | h <;> omega

end prime

end NuKSM
