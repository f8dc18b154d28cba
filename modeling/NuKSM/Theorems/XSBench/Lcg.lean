import NuKSM.Lib.Affine
import NuKSM.XSBench.Lcg
import Mathlib.Algebra.Group.Submonoid.Membership
import Mathlib.Data.ZMod.Basic

/-! # Skipping ahead in the random number generator

The generator and its skip-ahead compute in wrapping 64-bit arithmetic. Both are read in the integers modulo
`2 ^ 63`, where one draw is an affine map, the loop of `fast_forward_LCG` raises this map to a power by repeated
squaring, and the period of the map divides `2 ^ 63`. -/

namespace NuKSM.XSBench

/-! ### 64-bit words modulo `2 ^ 63` -/

/-- A 64-bit word modulo the modulus of the generator. -/
def residue (x : UInt64) : ZMod (2 ^ 63) := x.toNat

theorem cast_mod_word (x : ℕ) : ((x % 2 ^ 64 : ℕ) : ZMod (2 ^ 63)) = x := by
  rw [ZMod.natCast_eq_natCast_iff]
  exact Nat.mod_mod_of_dvd x (by decide)

theorem residue_mul (x y : UInt64) : residue (x * y) = residue x * residue y := by
  rw [residue, UInt64.toNat_mul, cast_mod_word, Nat.cast_mul]
  rfl

theorem residue_add (x y : UInt64) : residue (x + y) = residue x + residue y := by
  rw [residue, UInt64.toNat_add, cast_mod_word, Nat.cast_add]
  rfl

theorem residue_mod (x : UInt64) : residue (x % Lcg.m) = residue x := by
  rw [residue, UInt64.toNat_mod]
  exact ZMod.natCast_mod x.toNat (2 ^ 63)

theorem residue_one : residue 1 = 1 := Nat.cast_one

theorem mod_lt (x : UInt64) : (x % Lcg.m).toNat < 2 ^ 63 := by
  rw [UInt64.toNat_mod]
  exact Nat.mod_lt _ (by decide)

theorem residue_inj {x y : UInt64} (hx : x.toNat < 2 ^ 63) (hy : y.toNat < 2 ^ 63) (h : residue x = residue y) :
    x = y := by
  have hmod := (ZMod.natCast_eq_natCast_iff' _ _ _).mp h
  rw [Nat.mod_eq_of_lt hx, Nat.mod_eq_of_lt hy] at hmod
  exact UInt64.toNat_inj.mp hmod

/-! ### One draw -/

/-- The affine map modulo `2 ^ 63` that a slope and an offset of the source stand for. -/
def affine (a c : UInt64) : Affine (ZMod (2 ^ 63)) := ⟨residue a, residue c⟩

/-- The map of one draw. -/
def drawMap : Affine (ZMod (2 ^ 63)) := affine Lcg.a Lcg.c

theorem affine_apply (a c x : UInt64) : residue ((a * x + c) % Lcg.m) = (affine a c).apply (residue x) := by
  rw [residue_mod, residue_add, residue_mul]
  rfl

theorem residue_lcgNext_iterate (n : ℕ) (seed : UInt64) :
    residue (lcgNext^[n] seed) = drawMap.apply^[n] (residue seed) := by
  induction n with
  | zero => rfl
  | succ n ih =>
    rw [Function.iterate_succ_apply', Function.iterate_succ_apply', ← ih]
    exact affine_apply _ _ _

theorem lcgNext_iterate_lt {seed : UInt64} (h : seed.toNat < 2 ^ 63) : ∀ n, (lcgNext^[n] seed).toNat < 2 ^ 63
  | 0 => h
  | n + 1 => by
    rw [Function.iterate_succ_apply']
    exact mod_lt _

/-- The multiplier is odd, so `2 ^ 63` draws lead back to the state they started from. -/
theorem drawMap_pow_period : drawMap ^ 2 ^ 63 = 1 := by
  refine Affine.pow_two_pow_eq_one ⟨((1403098455253390354 : ℕ) : ZMod (2 ^ 63)), ?_⟩ ?_
  · have ha : drawMap.slope = ((2 * 1403098455253390354 + 1 : ℕ) : ZMod (2 ^ 63)) := rfl
    rw [ha]
    push_cast
    ring
  · exact_mod_cast ZMod.natCast_self (2 ^ 63)

/-! ### The skip-ahead -/

/-- A round of the loop on the slope and offset that it squares. -/
theorem affine_sq (a c : UInt64) : affine (a * a) (c * (a + 1)) = affine a c * affine a c := by
  ext
  · exact residue_mul a a
  · simp only [affine, residue_mul, residue_add, residue_one, Affine.mul_offset]
    ring

/-- A round of the loop on the slope and offset that it accumulates. -/
theorem affine_acc (a c aNew cNew : UInt64) :
    affine (aNew * a) (cNew * a + c) = affine a c * affine aNew cNew := by
  ext
  · exact (residue_mul aNew a).trans (mul_comm _ _)
  · simp only [affine, residue_mul, residue_add, Affine.mul_offset]
    ring

theorem and_one_ne_zero_iff (n : UInt64) : n &&& 1 ≠ 0 ↔ n.toNat % 2 = 1 := by
  have hbit : (n &&& 1).toNat = n.toNat % 2 := by
    rw [UInt64.toNat_and]
    exact Nat.and_one_is_mod n.toNat
  rw [ne_eq, ← UInt64.toNat_inj, hbit]
  change ¬ n.toNat % 2 = 0 ↔ _
  omega

theorem toNat_shiftRight_one (n : UInt64) : (n >>> 1).toNat = n.toNat / 2 := by
  rw [UInt64.toNat_shiftRight]
  exact Nat.shiftRight_one n.toNat

/-- The loop raises the map `(a, c)` to the power `n` and puts the result behind `(aNew, cNew)`. -/
theorem fastForwardLoop_spec (rounds : ℕ) : ∀ n a c aNew cNew : UInt64, n.toNat < 2 ^ rounds →
    ∃ a' c', fastForwardLoop rounds n a c aNew cNew = some (a', c') ∧
      affine a' c' = affine a c ^ n.toNat * affine aNew cNew := by
  induction rounds with
  | zero =>
    intro n a c aNew cNew hn
    have hzero : n = 0 := UInt64.toNat_inj.mp (Nat.lt_one_iff.mp hn)
    exact ⟨aNew, cNew, by rw [fastForwardLoop, if_pos hzero], by rw [hzero]; exact (one_mul _).symm⟩
  | succ rounds ih =>
    intro n a c aNew cNew hn
    by_cases hzero : n = 0
    · exact ⟨aNew, cNew, by rw [fastForwardLoop, if_pos hzero], by rw [hzero]; exact (one_mul _).symm⟩
    have hhalf : (n >>> 1).toNat < 2 ^ rounds := by
      rw [toNat_shiftRight_one]
      omega
    have hround := pow_mul_halve (affine a c) (affine aNew cNew) n.toNat
    rw [fastForwardLoop, if_neg hzero]
    by_cases hodd : n &&& 1 ≠ 0
    · obtain ⟨a', c', hrun, hval⟩ := ih _ (a * a) (c * (a + 1)) (aNew * a) (cNew * a + c) hhalf
      refine ⟨a', c', by simpa only [if_pos hodd] using hrun, ?_⟩
      rw [hval, affine_sq, affine_acc, toNat_shiftRight_one, hround, if_pos ((and_one_ne_zero_iff n).mp hodd)]
    · obtain ⟨a', c', hrun, hval⟩ := ih _ (a * a) (c * (a + 1)) aNew cNew hhalf
      refine ⟨a', c', by simpa only [if_neg hodd] using hrun, ?_⟩
      rw [hval, affine_sq, toNat_shiftRight_one, hround, if_neg fun h => hodd ((and_one_ne_zero_iff n).mpr h)]

/-- `fast_forward_LCG(seed, n)` is the state after `n` draws, for every 64-bit `n`. -/
theorem fastForwardLcg_eq_iterate {seed : UInt64} (hseed : seed.toNat < 2 ^ 63) (n : UInt64) :
    fastForwardLcg seed n = some (lcgNext^[n.toNat] seed) := by
  obtain ⟨a', c', hrun, hval⟩ := fastForwardLoop_spec 64 (n % Lcg.m) Lcg.a Lcg.c 1 0
    (Nat.lt_trans (mod_lt n) (by decide))
  have hresult : fastForwardLcg seed n = some ((a' * seed + c') % Lcg.m) := by
    rw [fastForwardLcg, hrun]
    rfl
  rw [hresult]
  have hone : affine 1 0 = 1 := by
    ext
    · exact residue_one
    · exact Nat.cast_zero
  have hpow : affine a' c' = drawMap ^ n.toNat := by
    rw [hval, hone, mul_one, UInt64.toNat_mod, pow_eq_pow_mod n.toNat drawMap_pow_period]
    rfl
  refine congrArg some (residue_inj (mod_lt _) (lcgNext_iterate_lt hseed _) ?_)
  rw [affine_apply, hpow, Affine.pow_apply, residue_lcgNext_iterate]

theorem fastForwardLcg_eq_iterate_42 :
    (42 : UInt64).toNat < 2 ^ 63 ∧
      fastForwardLcg 42 9223372036854775813 = some (lcgNext^[(9223372036854775813 : UInt64).toNat] 42) :=
  ⟨by decide, fastForwardLcg_eq_iterate (by decide) _⟩

end NuKSM.XSBench
