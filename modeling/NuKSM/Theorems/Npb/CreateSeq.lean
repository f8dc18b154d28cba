import NuKSM.Npb.CreateSeq
import NuKSM.Theorems.Npb.FullVerify

/-! # The keys of any number of threads

No operation of the random number generator rounds, and each thread finds its place in the sequence. So the keys are the same for
any number of threads. -/

namespace NuKSM.Npb
open Thread CellM IsCell

/-! ### The generator -/

section randlc
variable {n k x a h l : ℕ}

theorem exactly_mul {m n : ℕ} (h : m * n < 2 ^ 53) : exactly ((m : ℚ) * n) = some ((m * n : ℕ) : ℚ) := by
  rw [← Nat.cast_mul]
  exact exactly_nat h

theorem exactly_add {m n : ℕ} (h : m + n < 2 ^ 53) : exactly ((m : ℚ) + n) = some ((m + n : ℕ) : ℚ) := by
  rw [← Nat.cast_add]
  exact exactly_nat h

theorem exactly_sub {m n : ℕ} (h : m + n < 2 ^ 53) : exactly (((m + n : ℕ) : ℚ) - (m : ℕ)) = some (n : ℚ) := by
  rw [Nat.cast_add, add_sub_cancel_left]
  exact exactly_nat (by omega)

theorem intPart_scaled (h : n / 2 ^ k < 2 ^ 31) : intPart ((n : ℚ) / 2 ^ k) = some ((n / 2 ^ k : ℕ) : ℚ) := by
  have htrunc := @truncateTo_scaled _ (2 ^ 31) k h
  rw [Nat.cast_pow, Nat.cast_ofNat] at htrunc
  rw [intPart, htrunc, Option.map_some, Int.cast_natCast]

/-- The upper part of a number, and its lower 23 bits. -/
theorem split_23 (hh : h < 2 ^ 24) (hl : l < 2 ^ 23) :
    exactly (r23 * ((2 ^ 23 * h + l : ℕ) : ℚ)) = some (((2 ^ 23 * h + l : ℕ) : ℚ) / 2 ^ 23) ∧
      intPart (((2 ^ 23 * h + l : ℕ) : ℚ) / 2 ^ 23) = some (h : ℚ) ∧ exactly (t23 * (h : ℚ)) = some ((2 ^ 23 * h : ℕ) : ℚ) ∧
        exactly (((2 ^ 23 * h + l : ℕ) : ℚ) - ((2 ^ 23 * h : ℕ) : ℚ)) = some (l : ℚ) := by
  have hdiv : (2 ^ 23 * h + l) / 2 ^ 23 = h := by omega
  refine ⟨?_, ?_, ?_, exactly_sub (by omega)⟩
  · rw [show r23 * ((2 ^ 23 * h + l : ℕ) : ℚ) = ((2 ^ 23 * h + l : ℕ) : ℚ) / 2 ^ 23 by rw [r23]; ring]
    exact exactly_scaled 23 (by norm_num) (by omega)
  · rw [intPart_scaled (by omega), hdiv]
  · rw [show t23 * (h : ℚ) = ((2 ^ 23 * h : ℕ) : ℚ) by rw [t23, Nat.cast_mul, Nat.cast_pow, Nat.cast_ofNat]]
    exact exactly_nat (by omega)

/-- The upper part of a number, and its lower 46 bits. -/
theorem split_46 (hh : h < 2) (hl : l < 2 ^ 46) :
    exactly (r46 * ((2 ^ 46 * h + l : ℕ) : ℚ)) = some (((2 ^ 46 * h + l : ℕ) : ℚ) / 2 ^ 46) ∧
      intPart (((2 ^ 46 * h + l : ℕ) : ℚ) / 2 ^ 46) = some (h : ℚ) ∧ exactly (t46 * (h : ℚ)) = some ((2 ^ 46 * h : ℕ) : ℚ) ∧
        exactly (((2 ^ 46 * h + l : ℕ) : ℚ) - ((2 ^ 46 * h : ℕ) : ℚ)) = some (l : ℚ) := by
  have hdiv : (2 ^ 46 * h + l) / 2 ^ 46 = h := by omega
  refine ⟨?_, ?_, ?_, exactly_sub (by omega)⟩
  · rw [show r46 * ((2 ^ 46 * h + l : ℕ) : ℚ) = ((2 ^ 46 * h + l : ℕ) : ℚ) / 2 ^ 46 by rw [r46]; ring]
    exact exactly_scaled 46 (by norm_num) (by omega)
  · rw [intPart_scaled (by omega), hdiv]
  · rw [show t46 * (h : ℚ) = ((2 ^ 46 * h : ℕ) : ℚ) by rw [t46, Nat.cast_mul, Nat.cast_pow, Nat.cast_ofNat]]
    exact exactly_nat (by omega)

theorem mul_lt_46 (hh : h < 2 ^ 23) (hl : l < 2 ^ 23) : h * l < 2 ^ 46 := by
  have hlt : h * l < 2 ^ 23 * 2 ^ 23 := Nat.mul_lt_mul'' hh hl
  rwa [← pow_add] at hlt

theorem randlc_parts {a1 a2 x1 x2 t2 z t4 r : ℕ} (ha1 : a1 < 2 ^ 23) (ha2 : a2 < 2 ^ 23) (hx1 : x1 < 2 ^ 23) (hx2 : x2 < 2 ^ 23)
    (hz : z < 2 ^ 23) (ht1 : a1 * x2 + a2 * x1 = 2 ^ 23 * t2 + z) (hr : r < 2 ^ 46) (ht3 : 2 ^ 23 * z + a2 * x2 = 2 ^ 46 * t4 + r) :
    randlc ((2 ^ 23 * x1 + x2 : ℕ) : ℚ) ((2 ^ 23 * a1 + a2 : ℕ) : ℚ) = some ((r : ℚ), (r : ℚ) / 2 ^ 46) := by
  have h12 := mul_lt_46 ha1 hx2
  have h21 := mul_lt_46 ha2 hx1
  have h22 := mul_lt_46 ha2 hx2
  obtain ⟨a₁, a₂, a₃, a₄⟩ := split_23 (h := a1) (l := a2) (by omega) ha2
  obtain ⟨x₁, x₂, x₃, x₄⟩ := split_23 (h := x1) (l := x2) (by omega) hx2
  obtain ⟨t₁, t₂, t₃, t₄⟩ := split_23 (h := t2) (l := z) (by omega) hz
  obtain ⟨-, -, z₁, -⟩ := split_23 (h := z) (l := 0) (by omega) (by norm_num)
  obtain ⟨s₁, s₂, s₃, s₄⟩ := split_46 (h := t4) (l := r) (by omega) hr
  have hlast : exactly (r46 * (r : ℚ)) = some ((r : ℚ) / 2 ^ 46) := by
    rw [show r46 * (r : ℚ) = (r : ℚ) / 2 ^ 46 by rw [r46]; ring]
    exact exactly_scaled 46 (by norm_num) (by omega)
  have hsum₁ : exactly (((a1 * x2 : ℕ) : ℚ) + ((a2 * x1 : ℕ) : ℚ)) = some ((2 ^ 23 * t2 + z : ℕ) : ℚ) := by
    rw [exactly_add (by omega), ht1]
  have hsum₂ : exactly (((2 ^ 23 * z : ℕ) : ℚ) + ((a2 * x2 : ℕ) : ℚ)) = some ((2 ^ 46 * t4 + r : ℕ) : ℚ) := by
    rw [exactly_add (by omega), ht3]
  exact bind_of_some a₁ <| bind_of_some a₂ <| bind_of_some a₃ <| bind_of_some a₄ <| bind_of_some x₁ <| bind_of_some x₂ <|
    bind_of_some x₃ <| bind_of_some x₄ <| bind_of_some (exactly_mul (by omega)) <| bind_of_some (exactly_mul (by omega)) <|
    bind_of_some hsum₁ <| bind_of_some t₁ <| bind_of_some t₂ <| bind_of_some t₃ <| bind_of_some t₄ <| bind_of_some z₁ <|
    bind_of_some (exactly_mul (by omega)) <| bind_of_some hsum₂ <| bind_of_some s₁ <| bind_of_some s₂ <| bind_of_some s₃ <|
    bind_of_some s₄ <| bind_of_some hlast rfl

/-- `randlc` multiplies modulo 2⁴⁶, and never rounds. -/
theorem randlc_eq (hx : x < 2 ^ 46) (ha : a < 2 ^ 46) :
    randlc x a = some (((a * x % 2 ^ 46 : ℕ) : ℚ), ((a * x % 2 ^ 46 : ℕ) : ℚ) / 2 ^ 46) := by
  obtain ⟨a1, a2, ha1, ha2, rfl⟩ : ∃ a1 a2, a1 < 2 ^ 23 ∧ a2 < 2 ^ 23 ∧ a = 2 ^ 23 * a1 + a2 :=
    ⟨a / 2 ^ 23, a % 2 ^ 23, by omega, by omega, by omega⟩
  obtain ⟨x1, x2, hx1, hx2, rfl⟩ : ∃ x1 x2, x1 < 2 ^ 23 ∧ x2 < 2 ^ 23 ∧ x = 2 ^ 23 * x1 + x2 :=
    ⟨x / 2 ^ 23, x % 2 ^ 23, by omega, by omega, by omega⟩
  obtain ⟨t2, z, hz, ht1⟩ : ∃ t2 z, z < 2 ^ 23 ∧ a1 * x2 + a2 * x1 = 2 ^ 23 * t2 + z :=
    ⟨(a1 * x2 + a2 * x1) / 2 ^ 23, (a1 * x2 + a2 * x1) % 2 ^ 23, by omega, by omega⟩
  obtain ⟨t4, r, hr, ht3⟩ : ∃ t4 r, r < 2 ^ 46 ∧ 2 ^ 23 * z + a2 * x2 = 2 ^ 46 * t4 + r :=
    ⟨(2 ^ 23 * z + a2 * x2) / 2 ^ 46, (2 ^ 23 * z + a2 * x2) % 2 ^ 46, by omega, by omega⟩
  have hprod : (2 ^ 23 * a1 + a2) * (2 ^ 23 * x1 + x2) = r + 2 ^ 46 * (a1 * x1 + t2 + t4) := by
    calc (2 ^ 23 * a1 + a2) * (2 ^ 23 * x1 + x2) = 2 ^ 46 * (a1 * x1) + 2 ^ 23 * (a1 * x2 + a2 * x1) + a2 * x2 := by ring
      _ = 2 ^ 46 * (a1 * x1 + t2) + (2 ^ 23 * z + a2 * x2) := by
        rw [ht1]
        ring
      _ = r + 2 ^ 46 * (a1 * x1 + t2 + t4) := by
        rw [ht3]
        ring
  rw [hprod, Nat.add_mul_mod_self_left, Nat.mod_eq_of_lt hr]
  exact randlc_parts ha1 ha2 hx1 hx2 hz ht1 hr ht3

theorem skipAhead_eq {kk t1 t2 : ℕ} (hkk : 0 < kk) (ht1 : t1 < 2 ^ 46) (ht2 : t2 < 2 ^ 46) :
    skipAhead kk t1 t2 = some ((t2 ^ kk * t1 % 2 ^ 46 : ℕ) : ℚ) := by
  have hlt : ∀ n : ℕ, n % 2 ^ 46 < 2 ^ 46 := fun n => Nat.mod_lt _ (by norm_num)
  induction kk using Nat.strong_induction_on generalizing t1 t2 with
  | _ kk ih =>
    rw [skipAhead]
    split
    case isFalse hle =>
      obtain rfl : kk = 1 := by omega
      rw [randlc_eq ht1 ht2, pow_one]
      rfl
    case isTrue hgt =>
      split
      case isTrue heven =>
        refine bind_of_some (randlc_eq ht2 ht2) ?_
        show skipAhead (kk / 2) t1 ((t2 * t2 % 2 ^ 46 : ℕ) : ℚ) = _
        have hpow : t2 ^ kk = (t2 * t2) ^ (kk / 2) := by
          rw [← pow_two, ← pow_mul, heven]
        rw [ih (kk / 2) (by omega) (by omega) ht1 (hlt _), Nat.mul_mod, ← Nat.pow_mod, ← Nat.mul_mod, hpow]
      case isFalse hodd =>
        refine bind_of_some (randlc_eq ht1 ht2) ?_
        show skipAhead (kk - 1) ((t2 * t1 % 2 ^ 46 : ℕ) : ℚ) t2 = _
        have hpow : t2 ^ (kk - 1) * (t2 * t1) = t2 ^ kk * t1 := by
          rw [← mul_assoc, ← pow_succ, Nat.sub_add_cancel hkk]
        rw [ih (kk - 1) (by omega) (by omega) (hlt _) ht2, Nat.mul_mod, Nat.mod_mod, ← Nat.mul_mod, hpow]

end randlc

/-! ### The sequence -/

section sequence
variable {cls : IsClass} {numThreads seed a n i t : ℕ}

/-- The seed after `n` numbers. -/
def seedAfter (seed a n : ℕ) : ℕ := a ^ n * seed % 2 ^ 46

theorem seedAfter_lt : seedAfter seed a n < 2 ^ 46 := Nat.mod_lt _ (by norm_num)

theorem randlc_seedAfter (ha : a < 2 ^ 46) : randlc (seedAfter seed a n) a =
    some ((seedAfter seed a (n + 1) : ℚ), (seedAfter seed a (n + 1) : ℚ) / 2 ^ 46) := by
  have hnext : a * seedAfter seed a n % 2 ^ 46 = seedAfter seed a (n + 1) := by
    rw [seedAfter, Nat.mul_mod, Nat.mod_mod, ← Nat.mul_mod, ← mul_assoc, ← pow_succ', ← seedAfter]
  rw [randlc_eq seedAfter_lt ha, hnext]

/-- Each thread jumps to the place where its numbers start. -/
theorem findMySeed_eq (hseed : seed < 2 ^ 46) (ha : a < 2 ^ 46) (hn : 0 < n) (ht : t < numThreads) :
    findMySeed t numThreads (4 * n) seed a = some ((seedAfter seed a (4 * ((n + numThreads - 1) / numThreads * t)) : ℕ) : ℚ) := by
  have hdiv : 4 * n / 4 = n := by omega
  unfold findMySeed
  split
  case isTrue hzero =>
    rw [hzero, seedAfter, Nat.mul_zero, Nat.mul_zero, pow_zero, one_mul, Nat.mod_eq_of_lt hseed]
  case isFalse hne =>
    have hpos : 0 < (n + numThreads - 1) / numThreads := Nat.div_pos (by omega) (by omega)
    rw [hdiv, skipAhead_eq (by positivity) hseed ha, seedAfter, mul_right_comm _ 4 t, Nat.mul_comm _ 4]

/-- The sum of the four numbers for key `i`, without the factor 2⁴⁶. -/
def fourSum (seed a i : ℕ) : ℕ :=
  seedAfter seed a (4 * i + 1) + seedAfter seed a (4 * i + 2) + seedAfter seed a (4 * i + 3) + seedAfter seed a (4 * i + 4)

/-- Key `i`, which is the same whoever creates it. -/
def keyAt (cls : IsClass) (seed a i : ℕ) : ℕ := fourSum seed a i / 2 ^ (48 - cls.maxKeyLog2)

theorem fourSum_lt : fourSum seed a i < 2 ^ 48 := by
  have h₁ := @seedAfter_lt seed a (4 * i + 1)
  have h₂ := @seedAfter_lt seed a (4 * i + 2)
  have h₃ := @seedAfter_lt seed a (4 * i + 3)
  have h₄ := @seedAfter_lt seed a (4 * i + 4)
  unfold fourSum
  omega

theorem maxKeyLog2_bounds (cls : IsClass) : 2 ≤ cls.maxKeyLog2 ∧ cls.maxKeyLog2 ≤ 31 := by
  cases cls <;> decide

theorem keyAt_lt : keyAt cls seed a i < cls.maxKey := by
  have hlog := maxKeyLog2_bounds cls
  rw [keyAt, Nat.div_lt_iff_lt_mul (by positivity), IsClass.maxKey, ← pow_add, Nat.add_sub_cancel' (by omega)]
  exact fourSum_lt

theorem sumOfFour_eq (ha : a < 2 ^ 46) : sumOfFour (seedAfter seed a (4 * i)) a =
    some ((fourSum seed a i : ℚ) / 2 ^ 46, (seedAfter seed a (4 * (i + 1)) : ℚ)) := by
  have hadd : ∀ {m n : ℕ}, m + n < 2 ^ 53 → exactly ((m : ℚ) / 2 ^ 46 + (n : ℚ) / 2 ^ 46) = some (((m + n : ℕ) : ℚ) / 2 ^ 46) := by
    intro m n h
    rw [← add_div, ← Nat.cast_add]
    exact exactly_scaled 46 (by norm_num) h
  have h₁ := @seedAfter_lt seed a (4 * i + 1)
  have h₂ := @seedAfter_lt seed a (4 * i + 2)
  have h₃ := @seedAfter_lt seed a (4 * i + 3)
  have h₄ := @seedAfter_lt seed a (4 * i + 4)
  have hnext : ∀ {m n : ℕ}, n = m + 1 → randlc (seedAfter seed a m) a =
      some ((seedAfter seed a n : ℚ), (seedAfter seed a n : ℚ) / 2 ^ 46) := by
    rintro m n rfl
    exact randlc_seedAfter ha
  exact bind_of_some (hnext (n := 4 * i + 1) rfl) <| bind_of_some (hnext (n := 4 * i + 2) rfl) <|
    bind_of_some (hnext (n := 4 * i + 3) rfl) <| bind_of_some (hnext (n := 4 * i + 4) rfl) <|
    bind_of_some (hadd (by omega)) <| bind_of_some (hadd (by omega)) <| bind_of_some (hadd (by omega)) rfl

theorem nextKey_eq (ha : a < 2 ^ 46) : nextKey cls (seedAfter seed a (4 * i)) a =
    some (keyAt cls seed a i, (seedAfter seed a (4 * (i + 1)) : ℚ)) := by
  have hlog := maxKeyLog2_bounds cls
  have hfactor : ((cls.maxKey / 4 : ℕ) : ℚ) * ((fourSum seed a i : ℚ) / 2 ^ 46) = (fourSum seed a i : ℚ) / 2 ^ (48 - cls.maxKeyLog2) := by
    have hquarter : cls.maxKey / 4 = 2 ^ (cls.maxKeyLog2 - 2) := by
      rw [IsClass.maxKey, show (4 : ℕ) = 2 ^ 2 from rfl, Nat.pow_div hlog.1 (by norm_num)]
    have hpow : (2 : ℚ) ^ 46 = 2 ^ (cls.maxKeyLog2 - 2) * 2 ^ (48 - cls.maxKeyLog2) := by
      rw [← pow_add]
      congr 1
      omega
    rw [hquarter, hpow, Nat.cast_pow, Nat.cast_ofNat]
    field_simp
  have hkey : fourSum seed a i / 2 ^ (48 - cls.maxKeyLog2) < 2 ^ 31 :=
    (@keyAt_lt cls _ _ _).trans_le (Nat.pow_le_pow_right (by norm_num) hlog.2)
  have htrunc := @truncateTo_scaled _ (2 ^ 31) (48 - cls.maxKeyLog2) hkey
  rw [Nat.cast_pow, Nat.cast_ofNat] at htrunc
  refine bind_of_some (sumOfFour_eq ha) (bind_of_some ?_ (bind_of_some htrunc rfl))
  rw [hfactor]
  exact exactly_scaled _ (by omega) (fourSum_lt.trans (by norm_num))

/-- The seed after `n` calls of `randlc`. -/
def afterCalls (seed a : ℚ) (n : ℕ) : Option ℚ := (fun s => s.bind fun s => (randlc s a).map Prod.fst)^[n] (some seed)

theorem afterCalls_eq (hseed : seed < 2 ^ 46) (ha : a < 2 ^ 46) : afterCalls seed a n = some (seedAfter seed a n : ℚ) := by
  unfold afterCalls
  induction n with
  | zero => rw [Function.iterate_zero_apply, seedAfter, pow_zero, one_mul, Nat.mod_eq_of_lt hseed]
  | succ n ih =>
    rw [Function.iterate_succ_apply', ih, Option.bind_some, randlc_seedAfter ha]
    rfl

/-- From an odd seed, with a multiplier that is 5 modulo 8, the numbers come back after 2⁴⁴ calls, and not before. -/
theorem randlc_period {m : ℕ} (hseed : seed < 2 ^ 46) (ha : a < 2 ^ 46) (hodd : seed % 2 = 1) (hfive : a % 8 = 5) :
    afterCalls seed a m = afterCalls seed a n ↔ m ≡ n [MOD 2 ^ 44] := by
  have hunit : IsUnit (seed : ZMod (2 ^ 46)) :=
    (ZMod.isUnit_iff_coprime _ _).mpr (Nat.Coprime.pow_right 46 (Nat.coprime_two_right.mpr (Nat.odd_iff.mpr hodd)))
  obtain ⟨u, hu⟩ : IsUnit (a : ZMod (2 ^ 46)) :=
    (ZMod.isUnit_iff_coprime _ _).mpr (Nat.Coprime.pow_right 46 (Nat.coprime_two_right.mpr (Nat.odd_iff.mpr (by omega))))
  have horder : orderOf u = 2 ^ 44 := by
    have hquarter : (a : ZMod (2 ^ 46)) = 1 + 4 * ((a / 4 : ℕ) : ℤ) := by
      rw [Int.cast_natCast]
      exact_mod_cast congrArg (Nat.cast : ℕ → ZMod (2 ^ 46)) (show a = 1 + 4 * (a / 4) by omega)
    rw [← orderOf_units, hu, hquarter]
    exact ZMod.orderOf_one_add_four_mul _ (by exact_mod_cast Nat.odd_iff.mpr (show a / 4 % 2 = 1 by omega)) 44
  rw [afterCalls_eq hseed ha, afterCalls_eq hseed ha, Option.some_inj, Nat.cast_inj, seedAfter, seedAfter, ← horder, ← pow_eq_pow_iff_modEq]
  show a ^ m * seed ≡ a ^ n * seed [MOD 2 ^ 46] ↔ _
  rw [← ZMod.natCast_eq_natCast_iff, Nat.cast_mul, Nat.cast_mul, hunit.mul_left_inj, Nat.cast_pow, Nat.cast_pow, ← hu, ← Units.val_pow_eq_pow_val,
    ← Units.val_pow_eq_pow_val, Units.val_inj]

/-- The generator of the benchmark. -/
theorem randlc_period_one : afterCalls ((314159265 : ℕ) : ℚ) ((1220703125 : ℕ) : ℚ) 3 ≠ afterCalls ((314159265 : ℕ) : ℚ) ((1220703125 : ℕ) : ℚ) 7 :=
  fun h => absurd ((randlc_period (by norm_num) (by norm_num) (by norm_num) (by norm_num)).mp h) (by decide)

end sequence

/-! ### The threads -/

section threads
variable {cls : IsClass} {numThreads seed a t u : ℕ} {s s' : IsMemory}

/-- How many keys each thread creates. -/
def mq (cls : IsClass) (numThreads : ℕ) : ℕ := (cls.numKeys + numThreads - 1) / numThreads

def createFootprint (cls : IsClass) (numThreads t : ℕ) : Footprint IsCell where
  writes := {c | ∃ i < cls.numKeys, i / mq cls numThreads = t ∧ c = keyArray i}
  reads := {c | ∃ i < cls.numKeys, i / mq cls numThreads = t ∧ c = keyArray i}
  writes_reads := le_rfl

theorem mq_pos (ht : t < numThreads) : 0 < mq cls numThreads := by
  have hkeys : 0 < cls.numKeys := Nat.two_pow_pos _
  exact Nat.div_pos (by omega) (by omega)

theorem does_createKeys (hseed : seed < 2 ^ 46) (ha : a < 2 ^ 46) (ht : t < numThreads) :
    Does (createFootprint cls numThreads t) (createKeys cls numThreads t seed a)
      (fun _ s' => ∀ i < cls.numKeys, i / mq cls numThreads = t → s' (keyArray i) = keyAt cls seed a i) s := by
  have hpos := @mq_pos cls _ _ ht
  -- The keys of this thread.
  have hmine : ∀ {i}, i / mq cls numThreads = t ↔ mq cls numThreads * t ≤ i ∧ i < mq cls numThreads * t + mq cls numThreads := by
    intro i
    rw [Nat.div_eq_iff hpos, Nat.mul_comm]
    omega
  refine Does.mono (fun _ s' hs' i hi hmem => ?_) (Does.loopUp
    (I := fun i seed' s' => mq cls numThreads * t ≤ cls.numKeys → seed' = some ((seedAfter seed a (4 * i) : ℕ) : ℚ) ∧
      ∀ j < i, mq cls numThreads * t ≤ j → s' (keyArray j) = keyAt cls seed a j)
    (fun _ => ⟨findMySeed_eq hseed ha (Nat.two_pow_pos _) ht, fun j hj hlo => absurd (show j < mq cls numThreads * t from hj) hlo.not_gt⟩) ?_)
  · obtain ⟨hlo, hhi⟩ := hmine.mp hmem
    exact (hs' (by omega)).2 i (show i < mq cls numThreads * t + (min (mq cls numThreads * t + mq cls numThreads) cls.numKeys -
      mq cls numThreads * t) by omega) hlo
  · intro i seed' s' hlo hi hinv
    have hi' : i < mq cls numThreads * t + (min (mq cls numThreads * t + mq cls numThreads) cls.numKeys - mq cls numThreads * t) := hi
    have hlo' : mq cls numThreads * t ≤ i := hlo
    obtain ⟨rfl, hkeys⟩ := hinv (by omega)
    rw [Option.bind_some, nextKey_eq ha]
    refine Does.store_bind ⟨i, by omega, hmine.mpr ⟨hlo', by omega⟩, rfl⟩ fun _ => ⟨rfl, fun j hj hlo => ?_⟩
    rcases eq_or_ne j i with rfl | hne
    · exact Function.update_self ..
    · rw [Function.update_of_ne fun h => hne (IsCell.keyArray.inj h)]
      exact hkeys j (by omega) hlo

/-- The sequence of keys does not depend on the number of threads or on the order of their turns. -/
theorem keys_of_createSeq (hseed : seed < 2 ^ 46) (ha : a < 2 ^ 46) (hpos : 0 < numThreads) (hrun : CreateSeq cls numThreads seed a s s') :
    HasKeys cls (keyAt cls seed a) s' := by
  obtain ⟨ends, hrun⟩ := hrun
  have hapart : ∀ t u : Fin numThreads, t ≠ u →
      Disjoint (createFootprint cls numThreads t).writes (createFootprint cls numThreads u).reads := by
    intro t u hne
    rw [Set.disjoint_left]
    rintro c ⟨i, -, hi, rfl⟩ ⟨i', -, hi', hc⟩
    rw [IsCell.keyArray.inj hc] at hi
    exact hne (Fin.ext (hi.symm.trans hi'))
  obtain ⟨hends, -⟩ := hrun.apart hapart fun t => does_createKeys hseed ha t.isLt
  refine ⟨fun i hi => ?_, fun i _ => keyAt_lt⟩
  have hthread : i / mq cls numThreads < numThreads := by
    rw [Nat.div_lt_iff_lt_mul (mq_pos hpos)]
    have hdiv := Nat.lt_div_mul_add (a := cls.numKeys + numThreads - 1) hpos
    rw [← mq, Nat.mul_comm] at hdiv
    omega
  obtain ⟨v, hv, hsame⟩ := hends ⟨_, hthread⟩
  rw [hsame _ ⟨i, hi, rfl, rfl⟩]
  exact hv i hi rfl

theorem exists_isProgram (hpos : 0 < numThreads) : ∃ s passed, IsProgram cls numThreads s passed := by
  obtain ⟨ends, s₁, hrun⟩ := exists_teamRuns (fun t : Fin numThreads => createKeys cls numThreads t 314159265 1220703125) fun _ => 0
  obtain ⟨s, passed, hmain⟩ := @exists_isMain cls _ s₁ hpos
  exact ⟨s, passed, s₁, ⟨ends, hrun⟩, hmain⟩

/-- With any number of threads and in any order of their turns the program sorts the keys of one sequence as its iterations have
changed them. Its verification says whether the test keys have the expected numbers of smaller keys, in each iteration. -/
theorem isProgram_sorts {passed : ℕ} (hpos : 0 < numThreads) (hrun : IsProgram cls numThreads s passed) :
    keyList cls (s <| keyArray ·) =
        (keyList cls (keysAfter cls 1 maxIterations (keyAt cls 314159265 1220703125))).mergeSort ∧
      passed = if passesAfter cls 1 maxIterations (keyAt cls 314159265 1220703125) = 5 * maxIterations then 5 * maxIterations + 1
        else 0 := by
  obtain ⟨s₁, hcreate, hmain⟩ := hrun
  have hkeys : HasKeys cls (keyAt cls 314159265 1220703125) s₁ :=
    keys_of_createSeq (by norm_num) (by norm_num) hpos (by exact_mod_cast hcreate)
  exact isMain_sorts hkeys hmain

/-- Three threads, each in its own order. -/
theorem isProgram_sorts_three : ∃ s passed, IsProgram .S 3 s passed ∧ keyList .S (s <| keyArray ·) =
    (keyList .S (keysAfter .S 1 maxIterations (keyAt .S 314159265 1220703125))).mergeSort := by
  obtain ⟨s, passed, hrun⟩ := @exists_isProgram .S 3 (by decide)
  exact ⟨s, passed, hrun, (isProgram_sorts (by decide) hrun).1⟩

end threads

end NuKSM.Npb
