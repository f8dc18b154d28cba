import Mathlib.Tactic.Linarith
import NuKSM.Lib.Words
import NuKSM.Sysbench.OptionValues

/-! # Integers in options

`sb_opt_to_int` accepts the integers of 32 bits, and the empty string as 0. What it returns is used as `int`, `unsigned int` and
`long long`. -/

namespace NuKSM.Sysbench

/-! ### Reading -/

/-- The integer that a string denotes: digits behind space and a sign. -/
def denotedInt (s : List Char) : Option ℤ :=
  let number := s.dropWhile isSpace
  let digits := if number.head? = some '-' ∨ number.head? = some '+' then number.tail else number
  if digits = [] ∨ digits.all isDigit = false then none
  else some (if number.head? = some '-' then -decimal digits else decimal digits)

/-- An integer is read to its end, as far as a `long` goes. -/
theorem strtol_of_denoted {s : List Char} {v : ℤ} (h : denotedInt s = some v) :
    strtol s = (max (-2 ^ 63) (min (2 ^ 63 - 1) v), []) := by
  unfold denotedInt at h
  unfold strtol
  dsimp only at h ⊢
  generalize (if (s.dropWhile isSpace).head? = some '-' ∨ (s.dropWhile isSpace).head? = some '+' then (s.dropWhile isSpace).tail
    else s.dropWhile isSpace) = digits at h ⊢
  split at h
  · cases h
  rename_i hdigits
  obtain ⟨hne, hall⟩ := not_or.mp hdigits
  rw [Bool.not_eq_false, List.all_eq_true] at hall
  rw [List.takeWhile_eq_self_iff.mpr hall, if_neg hne, List.dropWhile_eq_nil_iff.mpr hall, Option.some.inj h]

theorem strtol_of_not_denoted {s : List Char} (hs : s ≠ []) (h : denotedInt s = none) : (strtol s).2 ≠ [] := by
  unfold denotedInt at h
  unfold strtol
  dsimp only at h ⊢
  generalize (if (s.dropWhile isSpace).head? = some '-' ∨ (s.dropWhile isSpace).head? = some '+' then (s.dropWhile isSpace).tail
    else s.dropWhile isSpace) = digits at h ⊢
  split
  · exact hs
  · rename_i hstart
    intro hend
    have hall : digits.all isDigit = true := List.all_eq_true.mpr (List.dropWhile_eq_nil_iff.mp hend)
    have hne : digits ≠ [] := fun hnil => hstart (by rw [hnil]; rfl)
    rw [if_neg (by simp [hne, hall])] at h
    cases h

/-- The first value of an option. -/
def valueOf (options : List SbOption) (name : CString) : Option (List Char) :=
  ((findOption options name).bind (options[·]?)).bind fun opt => opt.values.head?.map (·.chars)

/-- What `sb_get_value_int` makes of the first value. -/
def readInt : Option (List Char) → Option ℤ
  | none | some [] => some 0
  | some s => (denotedInt s).filter fun v => -2 ^ 31 ≤ v ∧ v < 2 ^ 31

theorem readInt_range {s : Option (List Char)} {n : ℤ} (h : readInt s = some n) : -2 ^ 31 ≤ n ∧ n < 2 ^ 31 := by
  unfold readInt at h
  split at h
  · cases h
    decide
  · cases h
    decide
  · exact of_decide_eq_true (Option.filter_eq_some_iff.mp h).2

/-- The option is read as an `int`, or ends the program with an error. -/
theorem sbOptToInt_cases (opt : SbOption) :
    (∃ n v, readInt (opt.values.head?.map (·.chars)) = some n ∧ sbOptToInt opt = .ok v ∧ v.toInt = n) ∨
      (readInt (opt.values.head?.map (·.chars)) = none ∧ ∃ text, sbOptToInt opt = .error text) := by
  unfold sbOptToInt
  cases hvalues : opt.values with
  | nil => exact Or.inl ⟨0, 0, rfl, rfl, rfl⟩
  | cons val values =>
    rw [List.head?_cons, Option.map_some]
    dsimp only
    cases hchars : val.chars with
    | nil => exact Or.inl ⟨0, 0, rfl, rfl, rfl⟩
    | cons c s =>
      cases hread : readInt (some (c :: s)) with
      | some n =>
        obtain ⟨hdenoted, hrange⟩ := Option.filter_eq_some_iff.mp hread
        rw [decide_eq_true_iff] at hrange
        have hclamp : max (-2 ^ 63) (min (2 ^ 63 - 1) n) = n := by omega
        rw [strtol_of_denoted hdenoted, hclamp]
        dsimp only
        rw [if_neg (by simp; omega)]
        exact Or.inl ⟨n, _, rfl, rfl, Int32.toInt_ofInt_of_le hrange.1 hrange.2⟩
      | none =>
        have hbad : (strtol (c :: s)).2 ≠ [] ∨ (strtol (c :: s)).1 > 2 ^ 31 - 1 ∨ (strtol (c :: s)).1 < -2 ^ 31 := by
          cases hdenoted : denotedInt (c :: s) with
          | none => exact Or.inl (strtol_of_not_denoted (List.cons_ne_nil c s) hdenoted)
          | some v =>
            have hrange := Option.filter_eq_none_iff.mp hread v hdenoted
            rw [strtol_of_denoted hdenoted]
            simp at hrange ⊢
            omega
        rw [if_pos hbad]
        exact Or.inr ⟨rfl, _, rfl⟩

theorem sbOptToInt_of_readInt {opt : SbOption} {n : ℤ} (h : readInt (opt.values.head?.map (·.chars)) = some n) :
    ∃ v, sbOptToInt opt = .ok v ∧ v.toInt = n := by
  rcases sbOptToInt_cases opt with ⟨m, v, hread, hrun, hv⟩ | ⟨hread, -⟩
  · obtain rfl : m = n := Option.some.inj (hread.symm.trans h)
    exact ⟨v, hrun, hv⟩
  · cases hread.symm.trans h

theorem sbOptToInt_of_not_readInt {opt : SbOption} (h : readInt (opt.values.head?.map (·.chars)) = none) :
    ∃ text, sbOptToInt opt = .error text := by
  rcases sbOptToInt_cases opt with ⟨m, v, hread, -⟩ | ⟨-, herror⟩
  · cases hread.symm.trans h
  · exact herror

/-- An option that is missing is like one without a value. -/
theorem exists_option (options : List SbOption) (name : CString) :
    ∃ opt : SbOption, valueOf options name = opt.values.head?.map (·.chars) ∧
      sbGetValueInt options name = sbOptToInt opt ∧ sbGetValueSize options name = sbOptToSize opt := by
  unfold valueOf sbGetValueInt sbGetValueSize
  cases (findOption options name).bind (options[·]?) with
  | none => exact ⟨⟨name, .null, [], none⟩, rfl, rfl, rfl⟩
  | some opt => exact ⟨opt, rfl, rfl, rfl⟩

section value
variable {options : List SbOption} {name : CString}

theorem sbGetValueInt_of_readInt {n : ℤ} (h : readInt (valueOf options name) = some n) :
    ∃ v, sbGetValueInt options name = .ok v ∧ v.toInt = n := by
  obtain ⟨opt, hvalue, hint, -⟩ := exists_option options name
  rw [hint]
  exact sbOptToInt_of_readInt (hvalue ▸ h)

/-- What `sb_get_value_int` returns is the integer of the first value. -/
theorem readInt_of_ok {v : Int32} (h : sbGetValueInt options name = .ok v) : readInt (valueOf options name) = some v.toInt := by
  obtain ⟨opt, hvalue, hint, -⟩ := exists_option options name
  rw [hint] at h
  rw [hvalue]
  cases hread : readInt (opt.values.head?.map (·.chars)) with
  | none =>
    obtain ⟨text, htext⟩ := sbOptToInt_of_not_readInt hread
    rw [htext] at h
    cases h
  | some n =>
    obtain ⟨w, hw, rfl⟩ := sbOptToInt_of_readInt hread
    rw [hw] at h
    cases h
    rfl

end value

end NuKSM.Sysbench
