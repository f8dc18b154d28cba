import NuKSM.Sysbench.Config

/-! # Numbers in options (`sb_options.c`) -/

namespace NuKSM.Sysbench

def isDigit (c : Char) : Bool := '0' ≤ c && c ≤ '9'

/-- The number that decimal digits stand for. -/
def decimal (digits : List Char) : ℕ := digits.foldl (fun n c => n * 10 + (c.toNat - '0'.toNat)) 0

/-! ### Integers -/

/-- `strtol(s, &endptr, 10)`, where a `long` has 64 bits, and what is behind `endptr`. -/
def strtol (s : List Char) : ℤ × List Char :=
  let number := s.dropWhile isSpace
  let digits := if number.head? = some '-' ∨ number.head? = some '+' then number.tail else number
  let value : ℤ := decimal (digits.takeWhile isDigit)
  if digits.takeWhile isDigit = [] then (0, s)
  else (max (-2 ^ 63) (min (2 ^ 63 - 1) (if number.head? = some '-' then -value else value)), digits.dropWhile isDigit)

/-- `sb_opt_to_int`, with the message before `exit(EXIT_FAILURE)`. -/
def sbOptToInt (opt : SbOption) : Except String Int32 :=
  match opt.values with
  | [] => .ok 0
  | val :: _ =>
    let (res, endptr) := strtol val.chars
    if endptr ≠ [] ∨ res > 2 ^ 31 - 1 ∨ res < -2 ^ 31 then
      let name := String.ofList opt.name.chars
      let data := String.ofList val.chars
      .error s!"Invalid value for the '{name}' option: '{data}'\n"
    else .ok (Int32.ofInt res)

/-- `sb_get_value_int`. -/
def sbGetValueInt (options : List SbOption) (name : CString) : Except String Int32 :=
  match (findOption options name).bind (options[·]?) with
  | none => .ok 0
  | some opt => sbOptToInt opt

/-! ### Sizes -/

/-- `sizemods`, without its terminator. -/
def sizemods : List Char := ['K', 'M', 'G', 'T']

/-- The loop of `sb_opt_to_size` over the characters: `rc`, `res` and `mult`. -/
def scanSize : List Char → (rc : ℕ) → (res : UInt64) → ℕ × UInt64 × Char
  | [], rc, res => (rc, res, nul)
  | c :: s, rc, res =>
    if c < '0' ∨ c > '9' then if rc = 1 then (2, res, c) else (rc, res, nul)
    else scanSize s 1 (res * 10 + UInt64.ofNat c.toNat - UInt64.ofNat '0'.toNat)

/-- `sb_opt_to_size`. -/
def sbOptToSize (opt : SbOption) : UInt64 :=
  match opt.values with
  | [] => 0
  | val :: _ =>
    let (rc, res, mult) := scanSize val.chars 0 0
    if rc = 2 then
      let n := sizemods.findIdx (mult.toUpper = ·)
      if n < sizemods.length then (· * 1024)^[n + 1] res
      else 0 -- Unknown size modifier
    else res

/-- `sb_get_value_size`. -/
def sbGetValueSize (options : List SbOption) (name : CString) : UInt64 :=
  match (findOption options name).bind (options[·]?) with
  | none => 0
  | some opt => sbOptToSize opt

/-- The loop of `sb_print_value_size`, for so many rounds at most: `i` and `value`. -/
def scaleValue : (rounds : ℕ) → (value : ℚ) → ℕ × ℚ
  | 0, value => (0, value)
  | rounds + 1, value =>
    if value ≥ 1024 then ((scaleValue rounds (value / 1024)).1 + 1, (scaleValue rounds (value / 1024)).2) else (0, value)

/-- `sb_print_value_size`: the number that is printed, and the text behind it. `sizeof(sizemods)` counts the terminator. -/
def sbPrintValueSize (value : ℚ) : ℚ × List Char :=
  let (i, value) := scaleValue (sizemods.length + 1) value
  if i > 0 then (value, [deref (sizemods.drop (i - 1)), 'i']) else (value, [])

end NuKSM.Sysbench
