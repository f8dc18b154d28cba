import Mathlib
import NuKSM.BTree.Rand48

/-! # The limbs of the generator hold one 48-bit number

A step of `next` is one step of the recurrence `X ↦ (0x5DEECE66D * X + 0xB) mod 2 ^ 48` on the number that the three
limbs of `x` stand for. -/

namespace NuKSM.BTree

namespace Rand48
variable {s : Rand48}

/-! ### The macros -/

theorem low_toNat (x : UInt32) : (low x).toNat = x.toNat % 65536 := by
  rw [low, UInt32.toNat_toUInt64, UInt32.toNat_and]
  exact Nat.and_two_pow_sub_one_eq_mod x.toNat 16

theorem low_lt (x : UInt32) : (low x).toNat < 65536 := by
  rw [low_toNat]
  exact Nat.mod_lt _ (by simp)

theorem low_of_uint64 (x : UInt64) : (low x.toUInt32).toNat = x.toNat % 65536 := by
  rw [low_toNat, UInt64.toNat_toUInt32]
  omega

/-- The bits of an `int32_t` above the lowest 16 survive the arithmetic shift and the mask. -/
theorem high_toNat (x : Int32) : (high x).toNat = x.toUInt32.toNat / 65536 := by
  have hshift : (x >>> 16).toUInt32.toBitVec = x.toBitVec.sshiftRight 16 := rfl
  have hint : (x.toBitVec.sshiftRight 16).toInt = x.toBitVec.toInt / 65536 := by
    rw [BitVec.toInt_sshiftRight, Int.shiftRight_eq_div_pow]
    rfl
  have hlt := x.toBitVec.isLt
  rw [high, low_toNat, ← UInt32.toNat_toBitVec, hshift]
  rw [BitVec.toInt_eq_toNat_cond, BitVec.toInt_eq_toNat_cond] at hint
  have heq : x.toUInt32.toNat = x.toBitVec.toNat := rfl
  have hlt' := (x.toBitVec.sshiftRight 16).isLt
  rw [heq]
  split at hint <;> split at hint <;> omega

theorem toInt32_toUInt32 (x : UInt64) : x.toInt64.toInt32.toUInt32 = x.toUInt32 :=
  UInt32.eq_of_toBitVec_eq (BitVec.signExtend_eq_setWidth_of_le _ (by simp))

/-- The product of two limbs fits the 32 bits of `l`, whose sign does not matter to `LOW` and `HIGH`. -/
theorem mul_toNat {x y : UInt64} (hx : x.toNat < 65536) (hy : y.toNat < 65536) :
    (mul x y).1.toNat = x.toNat * y.toNat % 65536 ∧ (mul x y).2.toNat = x.toNat * y.toNat / 65536 := by
  have hprod : x.toNat * y.toNat < 4294967296 := Nat.mul_lt_mul'' hx hy
  have hl : (x.toInt64 * y.toInt64).toInt32.toUInt32.toNat = x.toNat * y.toNat := by
    simp only [Int64.toInt32_mul, Int32.toUInt32_mul, UInt32.toNat_mul, toInt32_toUInt32, UInt64.toNat_toUInt32]
    rw [Nat.mod_eq_of_lt (a := x.toNat) (by omega), Nat.mod_eq_of_lt (a := y.toNat) (by omega)]
    exact Nat.mod_eq_of_lt hprod
  constructor
  · rw [mul, low_toNat, hl]
  · rw [mul, high_toNat, hl]

theorem toInt_of_lt {x : UInt64} (hx : x.toNat < 65536) : x.toInt64.toInt = x.toNat := by
  rw [Int64.toInt, UInt64.toBitVec_toInt64, BitVec.toInt_eq_toNat_of_lt, UInt64.toNat_toBitVec]
  rw [UInt64.toNat_toBitVec]
  omega

theorem carry_toNat {x y : UInt64} (hx : x.toNat < 65536) (hy : y.toNat < 65536) :
    (carry x y).toNat = (x.toNat + y.toNat) / 65536 := by
  have hsum : (x.toInt64.toInt32.toInt64 + y.toInt64).toInt = x.toNat + y.toNat := by
    have hnarrow : x.toInt64.toInt32.toInt64.toInt = x.toNat := by
      rw [Int32.toInt_toInt64, Int64.toInt_toInt32, toInt_of_lt hx]
      exact Int.bmod_eq_of_le (by omega) (by omega)
    rw [Int64.toInt_add, hnarrow, toInt_of_lt hy]
    exact Int.bmod_eq_of_le (by omega) (by omega)
  have hmask : mask.toUInt64.toInt64.toInt = 65535 := by decide
  rw [carry]
  split
  next hlt =>
    rw [Int64.lt_iff_toInt_lt, hsum, hmask] at hlt
    rw [UInt64.toNat_one]
    omega
  next hlt =>
    rw [Int64.lt_iff_toInt_lt, hsum, hmask] at hlt
    rw [UInt64.toNat_zero]
    omega

theorem addequ_toNat {x y : UInt64} (hx : x.toNat < 65536) (hy : y.toNat < 65536) :
    (addequ x y).1.toNat = (x.toNat + y.toNat) % 65536 ∧ (addequ x y).2.toNat = (x.toNat + y.toNat) / 65536 := by
  refine ⟨?_, carry_toNat hx hy⟩
  rw [addequ, low_of_uint64, UInt64.toNat_add]
  omega

/-! ### One step -/

/-- The number that the limbs of `x` stand for. -/
def value (s : Rand48) : ℕ := s.x0.toNat + 65536 * s.x1.toNat + 4294967296 * s.x2.toNat

/-- A seeded generator: the limbs are below `2 ^ 16`, the parameters those of the source. -/
structure Seeded (s : Rand48) : Prop where
  x0_lt : s.x0.toNat < 65536
  x1_lt : s.x1.toNat < 65536
  x2_lt : s.x2.toNat < 65536
  a0_eq : s.a0 = 0xE66D
  a1_eq : s.a1 = 0xDEEC
  a2_eq : s.a2 = 0x5
  c_eq : s.c = 0xB

theorem Seeded.next (h : Seeded s) : Seeded s.next where
  x0_lt := low_lt _
  x1_lt := low_lt _
  x2_lt := low_lt _
  a0_eq := h.a0_eq
  a1_eq := h.a1_eq
  a2_eq := h.a2_eq
  c_eq := h.c_eq

/-- The recurrence of the generator. -/
def step (v : ℕ) : ℕ := (0x5DEECE66D * v + 0xB) % 2 ^ 48

/-- The low 48 bits of a product of three limbs by three, with the carries that `next` propagates. -/
theorem limbs_step (x0 x1 x2 : ℕ) :
    let p0 := 0xE66D * x0 % 65536 + 0xB
    let p1 := 0xE66D * x0 / 65536 + p0 / 65536
    let p2 := p1 % 65536 + 0xE66D * x1 % 65536
    let p3 := p2 % 65536 + 0xDEEC * x0 % 65536
    p0 % 65536 + 65536 * (p3 % 65536) + 4294967296 * ((p2 / 65536 + p1 / 65536 + p3 / 65536
      + 0xE66D * x1 / 65536 + 0xDEEC * x0 / 65536 + 0xE66D * x2 + 0xDEEC * x1 + 0x5 * x0) % 65536)
      = step (x0 + 65536 * x1 + 4294967296 * x2) := by
  intro p0 p1 p2 p3
  simp only [step, p3, p2, p1, p0]
  omega

theorem Seeded.value_next (h : Seeded s) : s.next.value = step s.value := by
  obtain ⟨hx0, hx1, hx2, ha0, ha1, ha2, hc⟩ := h
  have ha0' : s.a0.toNat = 0xE66D := by rw [ha0]; rfl
  have ha1' : s.a1.toNat = 0xDEEC := by rw [ha1]; rfl
  have ha2' : s.a2.toNat = 0x5 := by rw [ha2]; rfl
  have hc' : s.c.toNat = 0xB := by rw [hc]; rfl
  obtain ⟨hpl, hph⟩ := mul_toNat (x := s.a0) (y := s.x0) (by omega) hx0
  obtain ⟨hql, hqh⟩ := mul_toNat (x := s.a0) (y := s.x1) (by omega) hx1
  obtain ⟨hrl, hrh⟩ := mul_toNat (x := s.a1) (y := s.x0) (by omega) hx0
  rw [ha0'] at hpl hph hql hqh
  rw [ha1'] at hrl hrh
  obtain ⟨hp0, hcarry0⟩ := addequ_toNat (x := (mul s.a0 s.x0).1) (y := s.c) (by omega) (by omega)
  obtain ⟨hp1, hcarry1⟩ :=
    addequ_toNat (x := (mul s.a0 s.x0).2) (y := (addequ (mul s.a0 s.x0).1 s.c).2) (by omega) (by omega)
  obtain ⟨hp1', hcarry0'⟩ := addequ_toNat (y := (mul s.a0 s.x1).1)
    (x := (addequ (mul s.a0 s.x0).2 (addequ (mul s.a0 s.x0).1 s.c).2).1) (by omega) (by omega)
  have hcarry := carry_toNat (y := (mul s.a1 s.x0).1)
    (x := (addequ (addequ (mul s.a0 s.x0).2 (addequ (mul s.a0 s.x0).1 s.c).2).1 (mul s.a0 s.x1).1).1)
    (by omega) (by omega)
  have hdvd : 65536 ∣ 2 ^ 64 := by simp
  have hvalue := limbs_step s.x0.toNat s.x1.toNat s.x2.toNat
  simp only [value, Rand48.next, low_of_uint64, UInt64.toNat_add, UInt64.toNat_mul, Nat.mod_add_mod, Nat.add_mod_mod,
    Nat.mod_mod_of_dvd _ hdvd, Nat.mod_mod, ha0', ha1', ha2', hp0, hcarry0, hp1, hcarry1, hp1', hcarry0', hcarry,
    hpl, hph, hql, hqh, hrl, hrh, hc'] at hvalue ⊢
  exact hvalue

/-! ### The calls after a seed -/

/-- The sequence `X` of a seed. -/
def sequence (seedval : Int32) : ℕ → ℕ
  | 0 => (seedval.toInt % 2 ^ 32).toNat * 2 ^ 16 + 0x330E
  | n + 1 => step (sequence seedval n)

theorem seeded_redisSrand48 (s : Rand48) (seedval : Int32) : Seeded (s.redisSrand48 seedval) where
  x0_lt := by simp [redisSrand48]
  x1_lt := low_lt _
  x2_lt := low_lt _
  a0_eq := rfl
  a1_eq := rfl
  a2_eq := rfl
  c_eq := rfl

theorem value_redisSrand48 (s : Rand48) (seedval : Int32) :
    (s.redisSrand48 seedval).value = sequence seedval 0 := by
  have hbits : (seedval.toInt % 2 ^ 32).toNat = seedval.toUInt32.toNat := by
    have hlt := seedval.toBitVec.isLt
    have heq : seedval.toUInt32.toNat = seedval.toBitVec.toNat := rfl
    rw [Int32.toInt, BitVec.toInt_eq_toNat_cond, heq]
    split <;> omega
  rw [sequence, hbits, value]
  simp only [redisSrand48, low_toNat, high_toNat, UInt64.reduceToNat]
  omega

theorem Seeded.afterCalls (h : Seeded s) (n : ℕ) : Seeded (s.afterCalls n) := by
  induction n with
  | zero => exact h
  | succ n ih =>
    rw [Rand48.afterCalls, Function.iterate_succ_apply']
    exact ih.next

theorem Seeded.value_afterCalls (h : Seeded s) (n : ℕ) : (s.afterCalls n).value = step^[n] s.value := by
  induction n with
  | zero => rfl
  | succ n ih =>
    rw [Function.iterate_succ_apply', ← ih, ← (h.afterCalls n).value_next, Rand48.afterCalls,
      Function.iterate_succ_apply']
    rfl

/-- The upper 31 of the 48 bits. -/
theorem Seeded.redisLrand48 (h : Seeded s) : s.redisLrand48.1.toNat = s.next.value / 2 ^ 17 := by
  obtain ⟨hx0, hx1, hx2, -⟩ := h.next
  simp only [Rand48.redisLrand48, value, UInt64.toNat_add, UInt64.toNat_shiftLeft, UInt64.toNat_shiftRight,
    UInt64.reduceToNat, Nat.reduceMod, Nat.shiftLeft_eq, Nat.shiftRight_eq_div_pow]
  omega

theorem sequence_eq_iterate (seedval : Int32) (n : ℕ) : sequence seedval n = step^[n] (sequence seedval 0) := by
  induction n with
  | zero => rfl
  | succ n ih => rw [Function.iterate_succ_apply', ← ih, sequence]

/-- Whatever was drawn before, the call `n + 1` after a seed returns the upper 31 bits of the term `n + 1` of the
sequence of that seed, and no call leaves a limb that does not fit 16 bits. -/
theorem redisLrand48_after_seed (s : Rand48) (seedval : Int32) (n : ℕ) :
    ((s.redisSrand48 seedval).drawn n).toNat = sequence seedval (n + 1) / 2 ^ 17
      ∧ ((s.redisSrand48 seedval).drawn n).toNat < 2 ^ 31
      ∧ ((s.redisSrand48 seedval).afterCalls n).x0.toNat < 2 ^ 16
      ∧ ((s.redisSrand48 seedval).afterCalls n).x1.toNat < 2 ^ 16
      ∧ ((s.redisSrand48 seedval).afterCalls n).x2.toNat < 2 ^ 16 := by
  have hseeded := seeded_redisSrand48 s seedval
  have hcalls := hseeded.afterCalls n
  have hterm : (((s.redisSrand48 seedval).drawn n).toNat = sequence seedval (n + 1) / 2 ^ 17) := by
    rw [drawn, hcalls.redisLrand48, hcalls.value_next, hseeded.value_afterCalls, value_redisSrand48,
      ← sequence_eq_iterate, sequence]
  refine ⟨hterm, ?_, hcalls.x0_lt, hcalls.x1_lt, hcalls.x2_lt⟩
  have hlt : sequence seedval (n + 1) < 2 ^ 48 := Nat.mod_lt _ (by simp)
  rw [hterm]
  omega

/-- The first numbers after `redisSrand48(0xcafebabe)`, the seed of `main`. -/
example : (List.range 3).map (({} : Rand48).redisSrand48 0xcafebabe).drawn = [814730465, 1249889207, 462792757] := by
  decide

end Rand48

end NuKSM.BTree
