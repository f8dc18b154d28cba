import Mathlib.Tactic.Linarith

/-! # Conversions of machine integers -/

namespace NuKSM

/-! ### 32 bits -/

theorem toNat_toUInt32_eq_emod (x : Int32) : (x.toUInt32.toNat : ℤ) = x.toInt % 2 ^ 32 := by
  have hbits : x.toInt = x.toUInt32.toBitVec.toInt := rfl
  rw [hbits, BitVec.toInt_eq_toNat_cond, UInt32.toNat_toBitVec]
  have hlt := x.toUInt32.toNat_lt
  split <;> omega

theorem toNat_toUInt32 {x : Int32} (h : 0 ≤ x.toInt) : (x.toUInt32.toNat : ℤ) = x.toInt := by
  have hlt := x.toInt_lt
  rw [toNat_toUInt32_eq_emod]
  exact Int.emod_eq_of_lt h (by omega)

theorem toInt_toInt32 (x : UInt32) : x.toInt32.toInt = if x.toNat < 2 ^ 31 then (x.toNat : ℤ) else x.toNat - 2 ^ 32 := by
  have hbits : x.toInt32.toInt = x.toBitVec.toInt := rfl
  rw [hbits, BitVec.toInt_eq_toNat_cond, UInt32.toNat_toBitVec]
  have hlt := x.toNat_lt
  split <;> split <;> omega

/-! ### 64 bits -/

theorem toInt_toInt64 (x : UInt64) : x.toInt64.toInt = if x.toNat < 2 ^ 63 then (x.toNat : ℤ) else x.toNat - 2 ^ 64 := by
  have hbits : x.toInt64.toInt = x.toBitVec.toInt := rfl
  rw [hbits, BitVec.toInt_eq_toNat_cond, UInt64.toNat_toBitVec]
  have hlt := x.toNat_lt
  split <;> split <;> omega

/-- The conversion of an `int` to `unsigned long`. -/
theorem toNat_toUInt64 (x : Int32) : (x.toInt64.toUInt64.toNat : ℤ) = x.toInt % 2 ^ 64 := by
  have hbits : x.toInt64.toInt = x.toInt64.toUInt64.toBitVec.toInt := rfl
  rw [Int32.toInt_toInt64, BitVec.toInt_eq_toNat_cond, UInt64.toNat_toBitVec] at hbits
  have hlt := x.toInt64.toUInt64.toNat_lt
  split at hbits <;> omega

end NuKSM
