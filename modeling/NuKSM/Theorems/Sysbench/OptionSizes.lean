import NuKSM.Sysbench.OptionValues

/-! # Sizes that are read and printed

`sb_opt_to_size` reads a number, and one character behind it as a unit. It computes in 64 bits without a check, and does not
look at what follows the unit. `sb_print_value_size` has one round too many. -/

namespace NuKSM.Sysbench

/-! ### Reading -/

/-- The exponent of the unit that a string starts with. -/
def unitExponent : List Char → Option ℕ
  | [] => some 0
  | c :: _ =>
    match c.toUpper with
    | 'K' => some 1
    | 'M' => some 2
    | 'G' => some 3
    | 'T' => some 4
    | _ => none

/-- The size that a string denotes: a number that is followed by nothing or by one unit. -/
def denotedSize (s : List Char) : Option ℕ :=
  if s.takeWhile isDigit = [] ∨ 1 < (s.dropWhile isDigit).length then none
  else (unitExponent (s.dropWhile isDigit)).map (decimal (s.takeWhile isDigit) * 1024 ^ ·)

/-- The size that a string denotes if it has 64 bits, and otherwise 0. -/
def rightSize (s : List Char) : ℕ :=
  match denotedSize s with
  | none => 0
  | some v => if v < 2 ^ 64 then v else 0

theorem isDigit_iff (c : Char) : isDigit c = true ↔ ¬(c < '0' ∨ c > '9') := by
  rw [isDigit, Bool.and_eq_true, decide_eq_true_iff, decide_eq_true_iff, not_or, not_lt, not_lt]

/-- One more digit, in 64 bits. -/
theorem ofNat_digit (n : ℕ) {c : Char} (hc : isDigit c = true) :
    UInt64.ofNat n * 10 + UInt64.ofNat c.toNat - UInt64.ofNat '0'.toNat = UInt64.ofNat (n * 10 + (c.toNat - '0'.toNat)) := by
  have hzero : '0'.toNat ≤ c.toNat := not_lt.mp fun h => (isDigit_iff c).mp hc (Or.inl h)
  rw [← Nat.add_sub_assoc hzero, UInt64.ofNat_sub (hzero.trans (Nat.le_add_left ..)), UInt64.ofNat_add, UInt64.ofNat_mul]
  rfl

/-- The loop goes over the digits, and notes what follows the first. -/
theorem scanSize_digits (s : List Char) (n : ℕ) : scanSize s 1 (UInt64.ofNat n) =
    (if s.dropWhile isDigit = [] then 1 else 2,
      UInt64.ofNat ((s.takeWhile isDigit).foldl (fun n c => n * 10 + (c.toNat - '0'.toNat)) n),
      deref (s.dropWhile isDigit)) := by
  induction s generalizing n with
  | nil => rfl
  | cons c s ih =>
    rw [scanSize]
    by_cases hc : isDigit c = true
    · rw [if_neg ((isDigit_iff c).mp hc), ofNat_digit n hc, ih, List.takeWhile_cons_of_pos hc, List.dropWhile_cons_of_pos hc]
      rfl
    · rw [if_pos (not_not.mp fun h => hc ((isDigit_iff c).mpr h)), if_pos rfl, List.takeWhile_cons_of_neg hc,
        List.dropWhile_cons_of_neg hc, if_neg (List.cons_ne_nil _ _)]
      rfl

theorem scanSize_start (s : List Char) : scanSize s 0 0 =
    (if s.takeWhile isDigit = [] then 0 else if s.dropWhile isDigit = [] then 1 else 2,
      UInt64.ofNat (decimal (s.takeWhile isDigit)), if s.takeWhile isDigit = [] then nul else deref (s.dropWhile isDigit)) := by
  cases s with
  | nil => rfl
  | cons c s =>
    rw [scanSize]
    by_cases hc : isDigit c = true
    · rw [if_neg ((isDigit_iff c).mp hc), show (0 : UInt64) = UInt64.ofNat 0 from rfl, ofNat_digit 0 hc, scanSize_digits,
        List.takeWhile_cons_of_pos hc, List.dropWhile_cons_of_pos hc, if_neg (List.cons_ne_nil _ _), if_neg (List.cons_ne_nil _ _)]
      rfl
    · rw [if_pos (not_not.mp fun h => hc ((isDigit_iff c).mpr h)), if_neg Nat.zero_ne_one, List.takeWhile_cons_of_neg hc]
      rfl

theorem iterate_1024 (n m : ℕ) : (· * 1024)^[n] (UInt64.ofNat m) = UInt64.ofNat (m * 1024 ^ n) := by
  induction n with
  | zero => rw [Function.iterate_zero, pow_zero, mul_one, id]
  | succ n ih =>
    rw [Function.iterate_succ_apply', ih, pow_succ, ← mul_assoc, UInt64.ofNat_mul (m * 1024 ^ n)]
    rfl

/-- Where a character is in `sizemods`. -/
theorem sizemods_findIdx (c : Char) (s : List Char) :
    unitExponent (c :: s) = if sizemods.findIdx (c.toUpper = ·) < sizemods.length
      then some (sizemods.findIdx (c.toUpper = ·) + 1) else none := by
  rw [unitExponent]
  split
  · rename_i h
    rw [h]
    rfl
  · rename_i h
    rw [h]
    rfl
  · rename_i h
    rw [h]
    rfl
  · rename_i h
    rw [h]
    rfl
  · rename_i hK hM hG hT
    have hnone : sizemods.findIdx (c.toUpper = ·) = sizemods.length := by
      rw [List.findIdx_eq_length]
      intro d hd
      fin_cases hd
      · exact decide_eq_false hK
      · exact decide_eq_false hM
      · exact decide_eq_false hG
      · exact decide_eq_false hT
    rw [hnone, if_neg (lt_irrefl _)]

/-- The number times its unit, in 64 bits. -/
theorem sbOptToSize_eq (opt : SbOption) (s : CString) (values : List CString) :
    sbOptToSize { opt with values := s :: values } =
      match unitExponent (s.chars.dropWhile isDigit) with
      | none => 0
      | some k => UInt64.ofNat (decimal (s.chars.takeWhile isDigit) * 1024 ^ k) := by
  show (if (scanSize s.chars 0 0).1 = 2 then if sizemods.findIdx ((scanSize s.chars 0 0).2.2.toUpper = ·) < sizemods.length
    then _ else _ else (scanSize s.chars 0 0).2.1) = _
  rw [scanSize_start]
  by_cases hdigits : s.chars.takeWhile isDigit = []
  · have hzero : decimal [] = 0 := rfl
    rw [hdigits, if_pos rfl, if_neg (show ¬(0 : ℕ) = 2 by decide), hzero]
    cases unitExponent (s.chars.dropWhile isDigit) with
    | none => rfl
    | some k =>
      show (0 : UInt64) = UInt64.ofNat (0 * 1024 ^ k)
      rw [zero_mul]
      rfl
  · rw [if_neg hdigits, if_neg hdigits]
    cases hunit : s.chars.dropWhile isDigit with
    | nil =>
      rw [if_pos rfl, if_neg (show ¬(1 : ℕ) = 2 by decide)]
      show _ = UInt64.ofNat (_ * 1024 ^ 0)
      rw [pow_zero, mul_one]
    | cons c rest =>
      rw [if_neg (List.cons_ne_nil _ _), if_pos rfl, sizemods_findIdx]
      show (if sizemods.findIdx (c.toUpper = ·) < sizemods.length then _ else _) = _
      split
      · exact iterate_1024 _ _
      · rfl

/-- The size is right if and only if the number fits and nothing follows its unit, or what is computed is 0 in 64 bits anyway. -/
theorem sbOptToSize_right_iff (opt : SbOption) (s : CString) (values : List CString) :
    (sbOptToSize { opt with values := s :: values }).toNat = rightSize s.chars ↔
      ∀ k ∈ unitExponent (s.chars.dropWhile isDigit),
        2 ^ 64 ∣ decimal (s.chars.takeWhile isDigit) * 1024 ^ k ∨
        decimal (s.chars.takeWhile isDigit) * 1024 ^ k < 2 ^ 64 ∧ (s.chars.dropWhile isDigit).length ≤ 1 := by
  rw [sbOptToSize_eq, rightSize, denotedSize]
  cases hunit : unitExponent (s.chars.dropWhile isDigit) with
  | none =>
    simp only [Option.map_none, ite_self]
    exact ⟨nofun, fun _ => rfl⟩
  | some k =>
    generalize hv : decimal (s.chars.takeWhile isDigit) * 1024 ^ k = v
    have hres : (UInt64.ofNat v).toNat = v % 2 ^ 64 := UInt64.toNat_ofNat'
    simp only [Option.mem_some_iff, forall_eq', hv, hres, Option.map_some]
    by_cases hdigits : s.chars.takeWhile isDigit = []
    · have hzero : v = 0 := by rw [← hv, hdigits, show decimal [] = 0 from rfl, zero_mul]
      rw [if_pos (Or.inl hdigits), hzero]
      exact ⟨fun _ => Or.inl (dvd_zero _), fun _ => rfl⟩
    by_cases hlong : 1 < (s.chars.dropWhile isDigit).length
    · rw [if_pos (Or.inr hlong), ← Nat.dvd_iff_mod_eq_zero]
      exact ⟨Or.inl, fun h => h.resolve_right fun h => absurd hlong (not_lt.mpr h.2)⟩
    · rw [if_neg (not_or.mpr ⟨hdigits, hlong⟩)]
      show v % 2 ^ 64 = (if v < 2 ^ 64 then v else 0) ↔ _
      by_cases hfits : v < 2 ^ 64
      · rw [if_pos hfits]
        exact ⟨fun _ => Or.inr ⟨hfits, not_lt.mp hlong⟩, fun _ => Nat.mod_eq_of_lt hfits⟩
      · rw [if_neg hfits, ← Nat.dvd_iff_mod_eq_zero]
        exact ⟨Or.inl, fun h => h.resolve_right fun h => hfits h.1⟩

/-- `10Kx` is read as `10K`, and `18446744073709551617` as 1. -/
theorem not_sbOptToSize_right :
    (sbOptToSize ⟨.strOn, .size, [.ofMemory ['1', '0', 'K', 'x']], none⟩).toNat ≠ rightSize ['1', '0', 'K', 'x'] ∧
    (sbOptToSize ⟨.strOn, .size, [.ofMemory ['1', '8', '4', '4', '6', '7', '4', '4', '0', '7', '3', '7', '0', '9', '5', '5',
      '1', '6', '1', '7']], none⟩).toNat ≠ rightSize ['1', '8', '4', '4', '6', '7', '4', '4', '0', '7', '3', '7', '0', '9', '5',
      '5', '1', '6', '1', '7'] := by
  decide +kernel

/-! ### Printing -/

/-- The text of a unit. -/
def unitText : ℕ → Option (List Char)
  | 0 => some []
  | 1 => some ['K', 'i']
  | 2 => some ['M', 'i']
  | 3 => some ['G', 'i']
  | 4 => some ['T', 'i']
  | _ => none

/-- A number and a unit that stand for the value are printed, the number below 1024 unless there is no larger unit. -/
def PrintsSize (value : ℚ) : Prop :=
  ∃ i, (sbPrintValueSize value).1 * 1024 ^ i = value ∧ unitText i = some (sbPrintValueSize value).2 ∧
    ((sbPrintValueSize value).1 < 1024 ∨ i = 4)

/-- No unit is the terminator. -/
theorem unitText_ne_nul (i : ℕ) : unitText i ≠ some [nul, 'i'] := by
  unfold unitText
  split <;> decide

theorem scaleValue_spec (rounds : ℕ) (value : ℚ) :
    (scaleValue rounds value).2 * 1024 ^ (scaleValue rounds value).1 = value ∧ (scaleValue rounds value).1 ≤ rounds ∧
      ((scaleValue rounds value).2 < 1024 ∨ (scaleValue rounds value).1 = rounds) ∧
      ((scaleValue rounds value).1 ≠ 0 → 1 ≤ (scaleValue rounds value).2) := by
  induction rounds generalizing value with
  | zero => exact ⟨by rw [scaleValue, pow_zero, mul_one], le_rfl, Or.inr rfl, fun h => absurd rfl h⟩
  | succ rounds ih =>
    obtain ⟨hvalue, hle, hend, hone⟩ := ih (value / 1024)
    rw [scaleValue]
    split
    · rename_i hbig
      refine ⟨?_, Nat.succ_le_succ hle, hend.imp_right (congrArg (· + 1)), fun _ => ?_⟩
      · rw [pow_succ, ← mul_assoc, hvalue]
        exact div_mul_cancel₀ _ (by norm_num)
      · by_cases hzero : (scaleValue rounds (value / 1024)).1 = 0
        · rw [hzero, pow_zero, mul_one] at hvalue
          rw [hvalue, le_div_iff₀ (by norm_num), one_mul]
          exact hbig
        · exact hone hzero
    · rename_i hsmall
      exact ⟨by rw [pow_zero, mul_one], Nat.zero_le _, Or.inl (not_le.mp hsmall), fun h => absurd rfl h⟩

/-- What is printed after `i` rounds. -/
theorem sbPrintValueSize_eq (value : ℚ) :
    sbPrintValueSize value = ((scaleValue 5 value).2,
      if (scaleValue 5 value).1 > 0 then [deref (sizemods.drop ((scaleValue 5 value).1 - 1)), 'i'] else []) := by
  rw [sbPrintValueSize]
  show (if (scaleValue 5 value).1 > 0 then _ else _) = _
  split <;> rfl

/-- A value is printed right if and only if it is below 1024 times the largest unit. -/
theorem printsSize_iff (value : ℚ) : PrintsSize value ↔ value < 1024 ^ 5 := by
  obtain ⟨hvalue, hle, hend, hone⟩ := scaleValue_spec 5 value
  unfold PrintsSize
  rw [sbPrintValueSize_eq]
  generalize hi : (scaleValue 5 value).1 = i at hvalue hle hend hone
  generalize (scaleValue 5 value).2 = v at hvalue hend hone
  constructor
  · rintro ⟨j, -, htext, -⟩
    -- After five rounds the terminator is printed, which is in the text of no unit.
    have hlt : i < 5 := by
      refine lt_of_le_of_ne hle fun h5 => ?_
      subst h5
      exact unitText_ne_nul j htext
    have hsmall : v < 1024 := hend.resolve_right hlt.ne
    calc value = v * 1024 ^ i := hvalue.symm
      _ < 1024 * 1024 ^ i := mul_lt_mul_of_pos_right hsmall (by positivity)
      _ = 1024 ^ (i + 1) := (pow_succ' _ _).symm
      _ ≤ 1024 ^ 5 := pow_le_pow_right₀ (by norm_num) hlt
  · intro hlt
    have hi5 : i ≠ 5 := by
      rintro rfl
      have h1 : (1024 : ℚ) ^ 5 ≤ v * 1024 ^ 5 := le_mul_of_one_le_left (by positivity) (hone (by decide))
      rw [hvalue] at h1
      exact absurd hlt (not_lt.mpr h1)
    refine ⟨i, hvalue, ?_, Or.inl (hend.resolve_right hi5)⟩
    interval_cases i
    · rfl
    · rfl
    · rfl
    · rfl
    · rfl
    · exact absurd rfl hi5

/-- For `1024 ^ 5` the terminator is printed as its unit. -/
theorem not_printsSize : ¬PrintsSize (1024 ^ 5) := by
  rintro ⟨i, -, htext, -⟩
  have hprinted : sbPrintValueSize (1024 ^ 5) = (1, [nul, 'i']) := by decide +kernel
  rw [hprinted] at htext
  exact unitText_ne_nul i htext

end NuKSM.Sysbench
