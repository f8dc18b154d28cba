import NuKSM.Lib.Block
import NuKSM.Lib.LittleEndian
import NuKSM.Sysbench.RandDist
import NuKSM.Sysbench.SqlApi

/-! # Parameters of the scripts (`sysbench.sql.lua`, `sb_rand.c`) -/

namespace NuKSM.Sysbench

/-- A value of Lua that a parameter is set to. -/
inductive LuaValue
  | nil
  | number (x : ℚ)
  | string (s : List Char)
  deriving DecidableEq

/-- What the machine makes of numbers: the bytes of a `double`, the number in them, and the `int64_t` for a number that is out
of the range of the type. -/
structure LuaNumbers where
  double : ℚ → List Char
  length_double : ∀ x, (double x).length = 8
  ofDouble : List Char → ℚ
  outOfRange : ℚ → Int64

/-- The conversion to `int64_t`. What is behind the point is dropped. -/
def LuaNumbers.toInt64 (nums : LuaNumbers) (x : ℚ) : Int64 :=
  let n := x.num.tdiv x.den
  if -2 ^ 63 ≤ n ∧ n < 2 ^ 63 then Int64.ofInt n else nums.outOfRange x

/-- The bytes of an `int64_t`. -/
def int64Bytes (n : Int64) : List Char := (LittleEndian.encode 8 n.toUInt64.toNat).map fun b => Char.ofNat b.toNat

/-- The `int64_t` at the start of a buffer. -/
def int64At (buffer : List Char) : Int64 :=
  (UInt64.ofNat (LittleEndian.decode ((buffer.take 8).map fun c => UInt8.ofNat c.toNat))).toInt64

/-! ### Random strings -/

/-- What `sb_rand_str` writes for the character `c`. -/
def randChar (bits : UInt64) (c : Char) : Option Char :=
  let draw : ℕ → ℚ := fun _ => sbRandUniformDouble bits
  if c = '#' then (sbRandUniform draw '0'.val '9'.val).map fun v => Char.ofNat v.toNat
  else if c = '@' then (sbRandUniform draw 'a'.val 'z'.val).map fun v => Char.ofNat v.toNat
  else some c

/-- The loop of `sb_rand_str` from `i` on, with what is left of `fmt`. The random bits for the place `i` are `bits i`. No string
of Lua is as long as `2 ^ 32`. -/
def sbRandStrFrom (bits : ℕ → UInt64) : (fmt : List Char) → (i : ℕ) → (buf : List Char) → Option (List Char)
  | [], _, buf => some buf
  | c :: fmt, i, buf =>
    if c = nul then some buf
    else (randChar (bits i) c).bind fun d => (putAt buf i [d]).bind (sbRandStrFrom bits fmt (i + 1))

/-- `sb_rand_str`: the buffer, if nothing is written outside of it. -/
def sbRandStr (bits : ℕ → UInt64) (fmt buf : List Char) : Option (List Char) := sbRandStrFrom bits fmt 0 buf

/-! ### The methods

How they end, with the parameter, if nothing is written outside of its buffer. -/

namespace SqlParam

/-- `self.buffer[i] = value` for a buffer whose elements have eight bytes. -/
def assign (param : DbBind) (i : ℕ) (value : List Char) : Option (ApiOutcome × DbBind) :=
  (putAt param.buffer (8 * i) value).map fun buffer => (.returned, { param with buffer })

/-- `sql_param.set`. Only a number is converted to a number, and only a string has the length that `ffi.copy` needs. -/
def set (nums : LuaNumbers) (param : DbBind) (value : LuaValue) : Option (ApiOutcome × DbBind) :=
  if value = .nil then some (.returned, { param with isNull := true })
  else
    let param := { param with isNull := false }
    match param.type with
    | .tinyint | .smallint | .int | .bigint =>
      match value with
      | .number x => assign param 0 (int64Bytes (nums.toInt64 x))
      | _ => some (.apiError, param)
    | .float | .double =>
      match value with
      | .number x => assign param 1 (nums.double x)
      | _ => some (.apiError, param)
    | .char | .varchar =>
      match value with
      | .string s =>
        let len := if param.maxLen < s.length then param.maxLen else s.length
        (putAt param.buffer 0 (s.take len)).map fun buffer => (.returned, { param with buffer, dataLen := len })
      | _ => some (.apiError, param)
    | _ => some (.apiError, param)

/-- `sql_param.set_rand_str`. -/
def setRandStr (param : DbBind) (fmt : List Char) (bits : ℕ → UInt64) : Option (ApiOutcome × DbBind) :=
  let param := { param with isNull := false }
  match param.type with
  | .char | .varchar =>
    let len := if param.maxLen < fmt.length then param.maxLen else fmt.length
    (sbRandStr bits fmt param.buffer).map fun buffer => (.returned, { param with buffer, dataLen := len })
  | _ => some (.apiError, param)

end SqlParam

/-- A call of a method. -/
inductive ParamCall
  | set (value : LuaValue)
  | setRandStr (fmt : List Char) (bits : ℕ → UInt64)

def ParamCall.exec (nums : LuaNumbers) (param : DbBind) : ParamCall → Option (ApiOutcome × DbBind)
  | .set value => SqlParam.set nums param value
  | .setRandStr fmt bits => SqlParam.setRandStr param fmt bits

/-- A parameter, with the call that has set it last. -/
structure ParamState where
  param : DbBind
  last : Option ParamCall := none

/-- A call that raises an error sets nothing. -/
def ParamState.call (nums : LuaNumbers) (s : ParamState) (c : ParamCall) : Option ParamState :=
  (c.exec nums s.param).map fun (outcome, param) => ⟨param, if outcome = .returned then some c else s.last⟩

end NuKSM.Sysbench
