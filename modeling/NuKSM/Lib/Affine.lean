import Mathlib

/-! # Affine maps under composition

The maps `x ↦ slope * x + offset` of a commutative ring form a monoid under composition, so `n` equal steps of a
congruential generator are a power of one map, and repeated squaring computes it. -/

namespace NuKSM

/-- The map `x ↦ slope * x + offset`. -/
@[ext] structure Affine (R : Type) where
  slope : R
  offset : R
  deriving DecidableEq

namespace Affine
variable {R : Type} [CommRing R] {f : Affine R}

def apply (f : Affine R) (x : R) : R := f.slope * x + f.offset

instance : One (Affine R) := ⟨⟨1, 0⟩⟩

/-- `f * g` first applies `g`. -/
instance : Mul (Affine R) := ⟨fun f g => ⟨f.slope * g.slope, f.slope * g.offset + f.offset⟩⟩

@[simp] theorem one_slope : (1 : Affine R).slope = 1 := rfl
@[simp] theorem one_offset : (1 : Affine R).offset = 0 := rfl
@[simp] theorem mul_slope (f g : Affine R) : (f * g).slope = f.slope * g.slope := rfl
@[simp] theorem mul_offset (f g : Affine R) : (f * g).offset = f.slope * g.offset + f.offset := rfl

instance : Monoid (Affine R) where
  mul_assoc f g h := by ext <;> simp <;> ring
  one_mul f := by ext <;> simp
  mul_one f := by ext <;> simp

@[simp] theorem one_apply (x : R) : (1 : Affine R).apply x = x := by
  simp [apply]

@[simp] theorem mul_apply (f g : Affine R) (x : R) : (f * g).apply x = f.apply (g.apply x) := by
  simp only [apply, mul_slope, mul_offset]
  ring

theorem pow_apply (f : Affine R) (n : ℕ) (x : R) : (f ^ n).apply x = f.apply^[n] x := by
  induction n with
  | zero => simp
  | succ n ih => rw [pow_succ', mul_apply, ih, Function.iterate_succ_apply']

/-! ### Periods that are a power of two -/

/-- Each squaring brings the map of an odd slope one bit closer to the identity. -/
theorem two_pow_dvd (h : 2 ∣ f.slope - 1) (k : ℕ) :
    2 ^ (k + 1) ∣ (f ^ 2 ^ k).slope - 1 ∧ 2 ^ k ∣ (f ^ 2 ^ k).offset := by
  induction k with
  | zero => simpa using h
  | succ k ih =>
    obtain ⟨⟨s, hs⟩, t, ht⟩ := ih
    have hslope : (f ^ 2 ^ k).slope = 1 + 2 ^ (k + 1) * s := by linear_combination hs
    rw [pow_succ 2 k, mul_two, pow_add f]
    refine ⟨⟨s + 2 ^ k * s * s, ?_⟩, t + 2 ^ k * s * t, ?_⟩
    · rw [mul_slope, hslope]
      ring
    · rw [mul_offset, hslope, ht]
      ring

/-- Where `2 ^ k` is zero, an odd slope gives a period that divides `2 ^ k`. -/
theorem pow_two_pow_eq_one (h : 2 ∣ f.slope - 1) {k : ℕ} (hk : (2 : R) ^ k = 0) : f ^ 2 ^ k = 1 := by
  obtain ⟨⟨s, hs⟩, t, ht⟩ := two_pow_dvd h k
  ext
  · rw [pow_succ, hk, zero_mul, zero_mul] at hs
    exact sub_eq_zero.mp hs
  · rw [ht, hk, zero_mul, one_offset]

/-! ### Full periods -/

/-- `n` steps go `1 + slope + … + slope ^ (n - 1)` times as far as the first. -/
theorem iterate_sub (n : ℕ) (x : R) :
    f.apply^[n] x - x = (∑ i ∈ Finset.range n, f.slope ^ i) * (f.apply x - x) := by
  induction n with
  | zero => simp
  | succ n ih =>
    have hstep : f.apply (f.apply^[n] x) - x = f.slope * (f.apply^[n] x - x) + (f.apply x - x) := by
      simp only [apply]
      ring
    rw [Function.iterate_succ_apply', hstep, ih, geom_sum_succ]
    ring

theorem four_dvd_pow_sub {a : R} (h : 4 ∣ a - 1) (n : ℕ) : 4 ∣ a ^ n - 1 := by
  simpa using h.trans (sub_dvd_pow_sub_pow a 1 n)

/-- An odd element is a unit where two is nilpotent. -/
theorem isUnit_odd (h2 : IsNilpotent (2 : R)) (x : R) : IsUnit (1 + 2 * x) :=
  ((Commute.all 2 x).isNilpotent_mul_right h2).isUnit_one_add

/-- The sum of `n` powers of `1 + 4 * s` is `n` up to a unit. -/
theorem geom_sum_eq {a : R} (h : 4 ∣ a - 1) (h2 : IsNilpotent (2 : R)) (n : ℕ) :
    ∃ u, IsUnit u ∧ ∑ i ∈ Finset.range n, a ^ i = n * u := by
  induction n using Nat.strong_induction_on with
  | _ n ih =>
    rcases Nat.even_or_odd' n with ⟨m, rfl | rfl⟩
    · rcases Nat.eq_zero_or_pos m with rfl | hm
      · exact ⟨1, isUnit_one, by simp⟩
      obtain ⟨u, hu, hsum⟩ := ih m (by omega)
      obtain ⟨t, ht⟩ := four_dvd_pow_sub h m
      refine ⟨u * (1 + 2 * t), hu.mul (isUnit_odd h2 t), ?_⟩
      have hhalf : ∑ i ∈ Finset.range m, a ^ (m + i) = a ^ m * ∑ i ∈ Finset.range m, a ^ i := by
        simp only [pow_add, Finset.mul_sum]
      rw [two_mul, Finset.sum_range_add, hhalf, hsum]
      push_cast
      linear_combination (m * u : R) * ht
    · have hdvd : 4 ∣ ∑ i ∈ Finset.range (2 * m + 1), a ^ i - ((2 * m + 1 : ℕ) : R) := by
        have hcard : ((2 * m + 1 : ℕ) : R) = ∑ i ∈ Finset.range (2 * m + 1), (1 : R) := by simp
        rw [hcard, ← Finset.sum_sub_distrib]
        exact Finset.dvd_sum fun i _ => four_dvd_pow_sub h i
      obtain ⟨t, ht⟩ := hdvd
      have hodd : IsUnit ((2 * m + 1 : ℕ) : R) := by
        rw [Nat.cast_succ, Nat.cast_mul, Nat.cast_two, add_comm]
        exact isUnit_odd h2 m
      obtain ⟨v, hv⟩ := hodd.exists_right_inv
      refine ⟨1 + 2 * (2 * v * t), isUnit_odd h2 _, ?_⟩
      linear_combination ht - 4 * t * hv

/-- A generator with slope `1 + 4 * s` and an odd offset comes back to a state after a number of steps that is zero
in the ring, and not before. -/
theorem iterate_eq_self (hslope : 4 ∣ f.slope - 1) (hoffset : 2 ∣ f.offset - 1) (h2 : IsNilpotent (2 : R)) {n : ℕ}
    {x : R} (h : f.apply^[n] x = x) : (n : R) = 0 := by
  obtain ⟨u, hu, hsum⟩ := geom_sum_eq hslope h2 n
  obtain ⟨s, hs⟩ := hslope
  obtain ⟨t, ht⟩ := hoffset
  have hfirst : f.apply x - x = 1 + 2 * (2 * s * x + t) := by
    rw [apply]
    linear_combination x * hs + ht
  have hmove := iterate_sub (f := f) n x
  rw [h, sub_self, hsum, hfirst, mul_assoc] at hmove
  exact ((hu.mul (isUnit_odd h2 _)).mul_left_eq_zero).mp hmove.symm

/-- The states that such a generator passes through are different as long as the numbers of steps are. -/
theorem iterate_inj (hslope : 4 ∣ f.slope - 1) (hoffset : 2 ∣ f.offset - 1) (h2 : IsNilpotent (2 : R)) {m n : ℕ}
    (hmn : m ≤ n) {x : R} (h : f.apply^[m] x = f.apply^[n] x) : ((n - m : ℕ) : R) = 0 := by
  refine iterate_eq_self (x := f.apply^[m] x) hslope hoffset h2 ?_
  rw [← Function.iterate_add_apply, Nat.sub_add_cancel hmn, h]

end Affine

/-! ### Repeated squaring -/

section square
variable {M : Type} [Monoid M]

/-- One round of repeated squaring: an odd exponent moves a factor into the accumulator. -/
theorem pow_mul_halve (f acc : M) (n : ℕ) :
    f ^ n * acc = (f * f) ^ (n / 2) * (if n % 2 = 1 then f * acc else acc) := by
  rw [← pow_two, ← pow_mul]
  by_cases hodd : n % 2 = 1
  · rw [if_pos hodd, ← mul_assoc, ← pow_succ]
    congr 2
    omega
  · rw [if_neg hodd]
    congr 2
    omega

end square

end NuKSM
