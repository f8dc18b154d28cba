import NuKSM.Sysbench.SqlParam
import NuKSM.Theorems.Sysbench.BoundStrings
import NuKSM.Theorems.Sysbench.RandDist
import NuKSM.Theorems.Sysbench.RandSpecial

/-! # The values of parameters

Whether a parameter denotes the value that it was last set to, and the stores stay in its buffer. -/

namespace NuKSM.Sysbench

/-- A character that `sb_rand_str` may write for `c`. -/
def StandsFor (c d : Char) : Prop :=
  if c = '#' then '0' ≤ d ∧ d ≤ '9' else if c = '@' then 'a' ≤ d ∧ d ≤ 'z' else d = c

/-- A string that a format generates. The format is a string of C, so it ends with the first NUL. -/
def Generates (fmt s : List Char) : Prop := List.Forall₂ StandsFor (fmt.takeWhile (· ≠ nul)) s

/-- What a parameter denotes, as the drivers read it: NULL, the element 0 of the buffer, or its first `data_len` characters. -/
def DbBind.value (nums : LuaNumbers) (param : DbBind) : Option LuaValue :=
  if param.isNull then some .nil
  else match param.type with
    | .bigint => some (.number (int64At param.buffer).toInt)
    | .double => some (.number (nums.ofDouble (param.buffer.take 8)))
    | .varchar => some (.string (param.buffer.take param.dataLen))
    | _ => none

/-- The value that a call sets. -/
def ParamCall.Sets (maxLen : ℕ) (v : LuaValue) : ParamCall → Prop
  | .set (.string s) => v = .string (s.take maxLen)
  | .set value => v = value
  | .setRandStr fmt _ => ∃ s, Generates fmt s ∧ v = .string (s.take maxLen)

/-- The parameter denotes the value that it was last set to. -/
def ParamState.Right (nums : LuaNumbers) (maxLen : ℕ) (s : ParamState) : Prop :=
  ∀ c ∈ s.last, ∃ v, c.Sets maxLen v ∧ s.param.value nums = some v

/-- Whether a parameter of the type can be set by the call. The others raise an error. -/
def ParamCall.suits (type : DbBindType) : ParamCall → Bool
  | .set .nil => true
  | .set (.number _) => type = .bigint ∨ type = .double
  | .set (.string _) | .setRandStr .. => type = .varchar

/-- What is asked of a call that suits the parameter: a number is for an integer type and an `int64_t`, and a format is not longer
than `max_len` and has no NUL, unless that is where the string is cut anyway. -/
def ParamCall.Fits (param : DbBind) : ParamCall → Prop
  | .set (.number x) => param.type = .bigint ∧ x.den = 1 ∧ -2 ^ 63 ≤ x.num ∧ x.num < 2 ^ 63
  | .set _ => True
  | .setRandStr fmt _ => (fmt.takeWhile (· ≠ nul)).length = min param.maxLen fmt.length

/-- A call that does not suit the parameter leaves it alone only where it is not NULL. -/
def ParamCall.Careful (param : DbBind) (c : ParamCall) : Prop := if c.suits param.type then c.Fits param else param.isNull = false

/-! ### Numbers -/

theorem toNat_byteChar (b : UInt8) : (Char.ofNat b.toNat).toNat = b.toNat := by
  have hvalid : b.toNat.isValidChar := .inl (b.toNat_lt.trans (by decide))
  rw [Char.ofNat, dif_pos hvalid]
  rfl

@[simp] theorem length_int64Bytes (n : Int64) : (int64Bytes n).length = 8 := by
  rw [int64Bytes, List.length_map, LittleEndian.length_encode]

theorem int64At_int64Bytes (n : Int64) : int64At (int64Bytes n) = n := by
  have hbytes : (int64Bytes n).map (fun c => UInt8.ofNat c.toNat) = LittleEndian.encode 8 n.toUInt64.toNat := by
    rw [int64Bytes, List.map_map]
    refine (List.map_congr_left fun b _ => ?_).trans (List.map_id' _)
    exact (congrArg UInt8.ofNat (toNat_byteChar b)).trans UInt8.ofNat_toNat
  rw [int64At, List.take_of_length_le (length_int64Bytes n).le, hbytes,
    LittleEndian.decode_encode_of_lt n.toUInt64.toNat_lt, UInt64.ofNat_toNat, Int64.toInt64_toUInt64]

/-- A number is kept where it is one of an `int64_t`. -/
theorem toInt64_eq_iff (nums : LuaNumbers) (x : ℚ) :
    ((nums.toInt64 x).toInt : ℚ) = x ↔ x.den = 1 ∧ -2 ^ 63 ≤ x.num ∧ x.num < 2 ^ 63 := by
  constructor
  · intro h
    rw [← h, Rat.num_intCast]
    exact ⟨Rat.den_intCast _, Int64.le_toInt _, Int64.toInt_lt _⟩
  · rintro ⟨hden, hlow, hhigh⟩
    have hdiv : x.num.tdiv x.den = x.num := by rw [hden, Nat.cast_one, Int.tdiv_one]
    unfold LuaNumbers.toInt64
    dsimp only
    rw [hdiv, if_pos ⟨hlow, hhigh⟩, Int64.toInt_ofInt_of_le hlow hhigh, Rat.coe_int_num_of_den_eq_one hden]

/-! ### Random strings -/

section randStr
variable {bits : ℕ → UInt64} {fmt buf buf' front : List Char} {i : ℕ}

/-- A draw between two characters is one of them or a character between. -/
theorem sbRandUniform_char (x : UInt64) {a b : Char} (hab : a ≤ b) (hb : b.toNat < 128) :
    ∃ d : Char, (sbRandUniform (fun _ => (sbRandUniformDouble x : ℚ)) a.val b.val).map (fun v => Char.ofNat v.toNat) = some d ∧
      a ≤ d ∧ d ≤ b := by
  obtain ⟨v, hv, hlow, hhigh⟩ := sbRandUniform_mem (K := ℚ) (fun _ => sbRandUniformDouble_mem x) hab
  have hvalid : v.toNat.isValidChar := .inl ((UInt32.le_iff_toNat_le.mp hhigh).trans_lt (hb.trans (by decide)))
  have hval : (Char.ofNat v.toNat).val = v := by
    rw [Char.ofNat, dif_pos hvalid]
    exact UInt32.toNat_inj.mp rfl
  refine ⟨Char.ofNat v.toNat, by rw [hv, Option.map_some], ?_, ?_⟩
  · exact Char.le_def.mpr (hval.symm ▸ hlow)
  · exact Char.le_def.mpr (hval.symm ▸ hhigh)

theorem randChar_standsFor (x : UInt64) (c : Char) : ∃ d, randChar x c = some d ∧ StandsFor c d := by
  unfold randChar StandsFor
  dsimp only
  split
  · exact sbRandUniform_char x (by decide) (by decide)
  · split
    · exact sbRandUniform_char x (by decide) (by decide)
    · exact ⟨c, rfl, rfl⟩

/-- The string is written behind what is in front of it, where there is room for it. -/
theorem sbRandStrFrom_writes (hfront : front <+: buf) (hroom : front.length + (fmt.takeWhile (· ≠ nul)).length ≤ buf.length) :
    ∃ s buf', sbRandStrFrom bits fmt front.length buf = some buf' ∧ Generates fmt s ∧ front ++ s <+: buf' ∧
      buf'.length = buf.length := by
  induction fmt generalizing front buf with
  | nil => exact ⟨[], buf, rfl, .nil, by rwa [List.append_nil], rfl⟩
  | cons c fmt ih =>
    rw [sbRandStrFrom]
    by_cases hc : c = nul
    · have hend : (c :: fmt).takeWhile (· ≠ nul) = [] := List.takeWhile_cons_of_neg (by simpa using hc)
      refine ⟨[], buf, if_pos hc, ?_, by rwa [List.append_nil], rfl⟩
      rw [Generates, hend]
      exact .nil
    · have hcons : (c :: fmt).takeWhile (· ≠ nul) = c :: fmt.takeWhile (· ≠ nul) := List.takeWhile_cons_of_pos (by simpa using hc)
      rw [hcons, List.length_cons] at hroom
      obtain ⟨d, hd, hstands⟩ := randChar_standsFor (bits front.length) c
      have hplace : front.length + [d].length ≤ buf.length := by rw [List.length_singleton]; omega
      obtain ⟨mid, hmid⟩ := putAt_isSome hplace
      have hlen := length_putAt hmid
      have hfront' := prefix_putAt hfront hmid
      obtain ⟨s, buf', hrest, hgen, hpre, hlen'⟩ := ih hfront' (by rw [List.length_append, List.length_singleton]; omega)
      rw [List.length_append, List.length_singleton] at hrest
      refine ⟨d :: s, buf', ?_, ?_, ?_, hlen'.trans hlen⟩
      · rw [if_neg hc, hd, Option.bind_some, hmid, Option.bind_some, hrest]
      · rw [Generates, hcons]
        exact .cons hstands hgen
      · rwa [List.append_assoc, List.singleton_append] at hpre

theorem sbRandStrFrom_le (hi : i ≤ buf.length) (h : sbRandStrFrom bits fmt i buf = some buf') :
    i + (fmt.takeWhile (· ≠ nul)).length ≤ buf.length := by
  induction fmt generalizing i buf with
  | nil => exact hi
  | cons c fmt ih =>
    rw [sbRandStrFrom] at h
    by_cases hc : c = nul
    · rwa [List.takeWhile_cons_of_neg (by simpa using hc)]
    · rw [if_neg hc] at h
      obtain ⟨d, -, h⟩ := Option.bind_eq_some_iff.mp h
      obtain ⟨mid, hmid, h⟩ := Option.bind_eq_some_iff.mp h
      have hlen := length_putAt hmid
      have hle := putAt_le hmid
      rw [List.length_singleton] at hle
      have hrest := ih (hlen.symm ▸ hle) h
      rw [List.takeWhile_cons_of_pos (by simpa using hc), List.length_cons]
      omega

variable (bits) in
theorem sbRandStr_writes (hroom : (fmt.takeWhile (· ≠ nul)).length ≤ buf.length) :
    ∃ s buf', sbRandStr bits fmt buf = some buf' ∧ Generates fmt s ∧ s <+: buf' ∧ buf'.length = buf.length :=
  sbRandStrFrom_writes (List.nil_prefix (l := buf)) (by rwa [List.length_nil, Nat.zero_add])

theorem sbRandStr_le (h : sbRandStr bits fmt buf = some buf') : (fmt.takeWhile (· ≠ nul)).length ≤ buf.length := by
  have hle := sbRandStrFrom_le (Nat.zero_le _) h
  rwa [Nat.zero_add] at hle

theorem length_sbRandStr (h : sbRandStr bits fmt buf = some buf') : buf'.length = buf.length := by
  obtain ⟨s, buf₂, hbuf, -, -, hlen⟩ := sbRandStr_writes bits (sbRandStr_le h)
  obtain rfl := Option.some.inj (h.symm.trans hbuf)
  exact hlen

theorem Generates.length {s : List Char} (h : Generates fmt s) : s.length = (fmt.takeWhile (· ≠ nul)).length :=
  (List.Forall₂.length_eq h).symm

end randStr

/-! ### Calls -/

/-- A parameter that `bind_create` has made. The calls keep its type and the size of its buffer. -/
inductive Made (maxLen : ℕ) (param : DbBind) : Prop
  | bigint (htype : param.type = .bigint) (hlen : param.buffer.length = 8)
  | double (htype : param.type = .double) (hlen : param.buffer.length = 8)
  | varchar (htype : param.type = .varchar) (hlen : param.buffer.length = maxLen) (hmax : param.maxLen = maxLen)

theorem made_bindCreate {btype : DbBindType} {maxLen : ℕ} {param : DbBind} (hcreate : bindCreate btype maxLen = some param) :
    Made maxLen param ∧ param.isNull = false := by
  cases btype with
  | tinyint | smallint | int | bigint =>
    obtain rfl := Option.some.inj hcreate
    exact ⟨.bigint rfl rfl, rfl⟩
  | float | double =>
    obtain rfl := Option.some.inj hcreate
    exact ⟨.double rfl rfl, rfl⟩
  | char | varchar =>
    obtain rfl := Option.some.inj hcreate
    exact ⟨.varchar rfl List.length_replicate rfl, rfl⟩
  | _ => cases hcreate

section call
variable {nums : LuaNumbers} {param : DbBind} {maxLen : ℕ} {outcome : ApiOutcome} {param' : DbBind}

theorem value_of_not_null (hnull : param.isNull = false) : param.value nums = match param.type with
    | .bigint => some (.number (int64At param.buffer).toInt)
    | .double => some (.number (nums.ofDouble (param.buffer.take 8)))
    | .varchar => some (.string (param.buffer.take param.dataLen))
    | _ => none := by
  rw [DbBind.value, hnull]
  rfl

theorem value_ne_nil (hnull : param.isNull = false) : param.value nums ≠ some .nil := by
  rw [value_of_not_null hnull]
  split <;> intro h <;> cases h

theorem value_string (htype : param.type = .varchar) (hnull : param.isNull = false) :
    param.value nums = some (.string (param.buffer.take param.dataLen)) := by
  rw [value_of_not_null hnull, htype]

theorem value_bigint (htype : param.type = .bigint) (hnull : param.isNull = false) :
    param.value nums = some (.number (int64At param.buffer).toInt) := by
  rw [value_of_not_null hnull, htype]

/-- What the drivers make of a string is what the server gets of it. -/
theorem value_eq_server (htype : param.type = .varchar) :
    param.value nums = some ((convertToMysqlBind param).value.elim .nil .string) := by
  cases hnull : param.isNull with
  | true => rw [DbBind.value, if_pos hnull, MysqlBind.value, convertToMysqlBind, if_pos hnull]; rfl
  | false =>
    rw [value_string htype hnull, MysqlBind.value, convertToMysqlBind, if_neg (by rw [hnull]; exact Bool.false_ne_true)]
    rfl

/-- How a call can suit a parameter that `bind_create` has made. -/
inductive Suited (maxLen : ℕ) (param : DbBind) : ParamCall → Prop
  | nil : Suited maxLen param (.set .nil)
  | bigint {x : ℚ} (htype : param.type = .bigint) (hlen : param.buffer.length = 8) : Suited maxLen param (.set (.number x))
  | double {x : ℚ} (htype : param.type = .double) (hlen : param.buffer.length = 8) : Suited maxLen param (.set (.number x))
  | string {s : List Char} (hstring : IsString param) (hmax : param.maxLen = maxLen) : Suited maxLen param (.set (.string s))
  | randStr {fmt : List Char} {bits : ℕ → UInt64} (hstring : IsString param) (hmax : param.maxLen = maxLen) :
      Suited maxLen param (.setRandStr fmt bits)

theorem Made.suited (hmade : Made maxLen param) {c : ParamCall} (hsuits : c.suits param.type = true) : Suited maxLen param c := by
  cases c with
  | set value =>
    cases value with
    | nil => exact .nil
    | number x =>
      cases hmade with
      | bigint htype hlen => exact .bigint htype hlen
      | double htype hlen => exact .double htype hlen
      | varchar htype => rw [htype] at hsuits; cases hsuits
    | string s =>
      cases hmade with
      | bigint htype | double htype => rw [htype] at hsuits; cases hsuits
      | varchar htype hlen hmax => exact .string ⟨htype, hlen.trans hmax.symm⟩ hmax
  | setRandStr fmt bits =>
    cases hmade with
    | bigint htype | double htype => rw [htype] at hsuits; cases hsuits
    | varchar htype hlen hmax => exact .randStr ⟨htype, hlen.trans hmax.symm⟩ hmax

/-- A call that does not suit the parameter only makes it not NULL. -/
theorem exec_unsuited (hmade : Made maxLen param) {c : ParamCall} (hsuits : c.suits param.type = false) :
    c.exec nums param = some (.apiError, { param with isNull := false }) := by
  cases c with
  | set value =>
    cases value with
    | nil => cases hsuits
    | number x =>
      cases hmade with
      | bigint htype => rw [htype] at hsuits; cases hsuits
      | double htype => rw [htype] at hsuits; cases hsuits
      | varchar htype => simp only [ParamCall.exec, SqlParam.set, htype, reduceCtorEq, if_false]
    | string s =>
      cases hmade with
      | bigint htype | double htype => simp only [ParamCall.exec, SqlParam.set, htype, reduceCtorEq, if_false]
      | varchar htype => rw [htype] at hsuits; cases hsuits
  | setRandStr fmt bits =>
    cases hmade with
    | bigint htype | double htype => simp only [ParamCall.exec, SqlParam.setRandStr, htype]
    | varchar htype => rw [htype] at hsuits; cases hsuits

/-- A number is written over the element 0 of an `int64_t[1]`. -/
theorem set_bigint (htype : param.type = .bigint) (hlen : param.buffer.length = 8) (x : ℚ) :
    SqlParam.set nums param (.number x) =
      some (.returned, { param with isNull := false, buffer := int64Bytes (nums.toInt64 x) }) := by
  have hput : putAt param.buffer (8 * 0) (int64Bytes (nums.toInt64 x)) = some (int64Bytes (nums.toInt64 x)) := by
    rw [putAt, if_pos (by rw [length_int64Bytes, hlen]), overlay, List.take_length, List.take_zero, List.nil_append,
      List.drop_eq_nil_of_le (by rw [length_int64Bytes, hlen]), List.append_nil]
  simp only [SqlParam.set, htype, reduceCtorEq, if_false, SqlParam.assign, hput, Option.map_some]

/-- The element 1 of a `double[1]` is outside of it. -/
theorem set_double (htype : param.type = .double) (hlen : param.buffer.length = 8) (x : ℚ) :
    SqlParam.set nums param (.number x) = none := by
  have hput : putAt param.buffer (8 * 1) (nums.double x) = none := by
    rw [putAt, if_neg (by rw [nums.length_double, hlen]; decide)]
  simp only [SqlParam.set, htype, reduceCtorEq, if_false, SqlParam.assign, hput, Option.map_none]

theorem set_string (hstring : IsString param) (s : List Char) :
    SqlParam.set nums param (.string s) = some (.returned, sqlParamSet (some s) param) := by
  have hmin : (if param.maxLen < s.length then param.maxLen else s.length) = min param.maxLen s.length := (min_def_lt ..).symm
  have htake : (s.take (min param.maxLen s.length)).length = min param.maxLen s.length := by
    rw [List.length_take, min_eq_left (min_le_right ..)]
  have hput : putAt param.buffer 0 (s.take (min param.maxLen s.length)) =
      some (s.take (min param.maxLen s.length) ++ param.buffer.drop (min param.maxLen s.length)) := by
    rw [putAt, if_pos (by rw [htake, hstring.length, Nat.zero_add]; exact min_le_left ..), overlay, List.take_zero,
      List.nil_append, List.take_length, htake, Nat.zero_add]
  simp only [SqlParam.set, hstring.type, reduceCtorEq, if_false, sqlParamSet, hmin, hput, Option.map_some]

theorem value_sqlParamSet (hstring : IsString param) (s : List Char) :
    (sqlParamSet (some s) param).value nums = some (.string (s.take param.maxLen)) := by
  rcases Nat.lt_or_ge s.length param.maxLen with hlt | hge
  · rw [sqlParamSet_of_lt hlt, value_string (by exact hstring.type) (by rfl), List.take_left, List.take_of_length_le hlt.le]
  · rw [sqlParamSet_of_ge hstring.length hge, value_string (by exact hstring.type) (by rfl), List.take_take, min_self]

theorem setRandStr_varchar (htype : param.type = .varchar) (fmt : List Char) (bits : ℕ → UInt64) :
    SqlParam.setRandStr param fmt bits = (sbRandStr bits fmt param.buffer).map fun buffer =>
      (.returned, { param with isNull := false, buffer, dataLen := min param.maxLen fmt.length }) := by
  have hmin : (if param.maxLen < fmt.length then param.maxLen else fmt.length) = min param.maxLen fmt.length := (min_def_lt ..).symm
  simp only [SqlParam.setRandStr, htype, hmin]

variable (nums) in
/-- The generated string is all that the parameter denotes exactly where the format fits. -/
theorem setRandStr_right_iff (hstring : IsString param) (fmt : List Char) (bits : ℕ → UInt64) :
    (∃ param', SqlParam.setRandStr param fmt bits = some (.returned, param') ∧
      ∃ s, Generates fmt s ∧ param'.value nums = some (.string (s.take param.maxLen))) ↔
    (fmt.takeWhile (· ≠ nul)).length = min param.maxLen fmt.length := by
  have hlen := hstring.length
  rw [setRandStr_varchar hstring.type]
  constructor
  · rintro ⟨param', hexec, s, hgen, hvalue⟩
    obtain ⟨buf', hbuf, heq⟩ := Option.map_eq_some_iff.mp hexec
    obtain rfl := (Prod.mk.inj heq).2
    have hroom := sbRandStr_le hbuf
    have hlen' := length_sbRandStr hbuf
    rw [value_string (by exact hstring.type) (by rfl)] at hvalue
    -- Both have their lengths: the generated string is not cut, and the buffer has all of `data_len`.
    have hlengths := congrArg List.length (LuaValue.string.inj (Option.some.inj hvalue))
    rw [List.length_take, List.length_take, hgen.length] at hlengths
    dsimp only at hlengths
    omega
  · intro hfits
    have hroom : (fmt.takeWhile (· ≠ nul)).length ≤ param.buffer.length := by omega
    obtain ⟨s, buf', hbuf, hgen, hpre, -⟩ := sbRandStr_writes bits hroom
    refine ⟨_, by rw [hbuf, Option.map_some], s, hgen, ?_⟩
    have hslen := hgen.length
    rw [value_string (by exact hstring.type) (by rfl)]
    dsimp only
    rw [← hfits, ← hslen, ← List.prefix_iff_eq_take.mp hpre, List.take_of_length_le (by omega)]

variable (nums) in
/-- A call that suits the parameter stays in the buffer and leaves a parameter that denotes the value, exactly where it fits. -/
theorem exec_right_iff (hmade : Made maxLen param) {c : ParamCall} (hsuits : c.suits param.type = true) :
    (∃ param', c.exec nums param = some (.returned, param') ∧ ∃ v, c.Sets maxLen v ∧ param'.value nums = some v) ↔
      c.Fits param := by
  cases hmade.suited hsuits with
  | nil => exact iff_of_true ⟨_, rfl, .nil, rfl, rfl⟩ trivial
  | @bigint x htype hlen =>
    rw [ParamCall.exec, set_bigint htype hlen, ParamCall.Fits, and_iff_right htype, ← toInt64_eq_iff nums]
    constructor
    · rintro ⟨param', hexec, v, rfl, hvalue⟩
      obtain rfl := (Prod.mk.inj (Option.some.inj hexec)).2
      rw [value_bigint (by exact htype) (by rfl), int64At_int64Bytes] at hvalue
      exact LuaValue.number.inj (Option.some.inj hvalue)
    · intro hx
      refine ⟨_, rfl, .number x, rfl, ?_⟩
      rw [value_bigint (by exact htype) (by rfl), int64At_int64Bytes, hx]
  | double htype hlen =>
    refine iff_of_false ?_ fun h => ?_
    · rintro ⟨param', hexec, -⟩
      rw [ParamCall.exec, set_double htype hlen] at hexec
      cases hexec
    · have heq := h.1.symm.trans htype
      cases heq
  | @string s hstring hmax =>
    subst hmax
    have hset : SqlParam.set nums param (.string s) = _ := set_string hstring s
    exact iff_of_true ⟨_, hset, _, rfl, value_sqlParamSet hstring s⟩ trivial
  | @randStr fmt bits hstring hmax =>
    subst hmax
    refine Iff.trans ?_ (setRandStr_right_iff nums hstring fmt bits)
    refine exists_congr fun param' => and_congr_right fun _ => ?_
    constructor
    · rintro ⟨v, ⟨s, hgen, rfl⟩, hvalue⟩
      exact ⟨s, hgen, hvalue⟩
    · rintro ⟨s, hgen, hvalue⟩
      exact ⟨_, ⟨s, hgen, rfl⟩, hvalue⟩

theorem Made.withNull (hmade : Made maxLen param) (isNull : Bool) : Made maxLen { param with isNull } := by
  cases hmade with
  | bigint htype hlen => exact .bigint htype hlen
  | double htype hlen => exact .double htype hlen
  | varchar htype hlen hmax => exact .varchar htype hlen hmax

/-- A call that suits the parameter returns, if it stays in the buffer, and keeps its type and its size. -/
theorem exec_suited (hmade : Made maxLen param) {c : ParamCall} (hsuits : c.suits param.type = true)
    (h : c.exec nums param = some (outcome, param')) : outcome = .returned ∧ Made maxLen param' := by
  cases hmade.suited hsuits with
  | nil =>
    obtain ⟨rfl, rfl⟩ := Prod.mk.inj (Option.some.inj h)
    exact ⟨rfl, hmade.withNull true⟩
  | bigint htype hlen =>
    rw [ParamCall.exec, set_bigint htype hlen] at h
    obtain ⟨rfl, rfl⟩ := Prod.mk.inj (Option.some.inj h)
    exact ⟨rfl, .bigint htype (length_int64Bytes _)⟩
  | double htype hlen =>
    rw [ParamCall.exec, set_double htype hlen] at h
    cases h
  | @string s hstring hmax =>
    subst hmax
    rw [ParamCall.exec, set_string hstring] at h
    obtain ⟨rfl, rfl⟩ := Prod.mk.inj (Option.some.inj h)
    exact ⟨rfl, .varchar (hstring.set (some s)).type (hstring.set (some s)).length rfl⟩
  | @randStr fmt bits hstring hmax =>
    rw [ParamCall.exec, setRandStr_varchar hstring.type] at h
    obtain ⟨buf', hbuf, heq⟩ := Option.map_eq_some_iff.mp h
    obtain ⟨rfl, rfl⟩ := Prod.mk.inj heq
    exact ⟨rfl, .varchar hstring.type ((length_sbRandStr hbuf).trans (hstring.length.trans hmax)) hmax⟩

end call

/-! ### Runs -/

section run
variable {nums : LuaNumbers} {maxLen : ℕ} {s s' : ParamState} {c : ParamCall}

/-- What holds of a parameter along a run: the last call has set it, and before that it is not NULL. -/
structure ParamState.Inv (nums : LuaNumbers) (maxLen : ℕ) (s : ParamState) : Prop where
  made : Made maxLen s.param
  unset : s.last = none → s.param.isNull = false
  right : s.Right nums maxLen

theorem ParamCall.Sets.eq_nil (h : c.Sets maxLen .nil) {v : LuaValue} (hv : c.Sets maxLen v) : v = .nil := by
  cases c with
  | set value =>
    cases value with
    | nil => exact hv
    | number x => cases h
    | string s => cases h
  | setRandStr fmt bits =>
    obtain ⟨s, -, heq⟩ := h
    cases heq

/-- A call that does not suit the parameter is right where it is not NULL. -/
theorem call_unsuited_iff (hinv : s.Inv nums maxLen) (hsuits : c.suits s.param.type = false) :
    (∃ s' ∈ s.call nums c, s'.Right nums maxLen) ↔ s.param.isNull = false := by
  have hcall : s.call nums c = some ⟨{ s.param with isNull := false }, s.last⟩ := by
    rw [ParamState.call, exec_unsuited hinv.made hsuits]
    rfl
  constructor
  · rintro ⟨s', hs', hright⟩
    obtain rfl := Option.some.inj (hcall.symm.trans hs')
    by_contra hnull
    cases hlast : s.last with
    | none => exact hnull (hinv.unset hlast)
    | some c₀ =>
      -- It was set to nil, and denotes something else now.
      obtain ⟨v, hsets, hvalue⟩ := hinv.right c₀ hlast
      obtain ⟨v', hsets', hvalue'⟩ := hright c₀ hlast
      rw [DbBind.value, if_pos (Bool.not_eq_false _ ▸ hnull)] at hvalue
      obtain rfl := Option.some.inj hvalue
      obtain rfl := hsets.eq_nil hsets'
      exact value_ne_nil (by rfl) hvalue'
  · intro hnull
    refine ⟨_, hcall, ?_⟩
    rw [← hnull]
    exact hinv.right

theorem call_suited_iff (hinv : s.Inv nums maxLen) (hsuits : c.suits s.param.type = true) :
    (∃ s' ∈ s.call nums c, s'.Right nums maxLen) ↔ c.Fits s.param := by
  rw [← exec_right_iff nums hinv.made hsuits]
  constructor
  · rintro ⟨s', hs', hright⟩
    obtain ⟨⟨outcome, param'⟩, hexec, rfl⟩ := Option.map_eq_some_iff.mp hs'
    obtain ⟨rfl, -⟩ := exec_suited hinv.made hsuits hexec
    exact ⟨param', hexec, hright c rfl⟩
  · rintro ⟨param', hexec, hvalue⟩
    refine ⟨⟨param', some c⟩, Option.map_eq_some_iff.mpr ⟨_, hexec, rfl⟩, fun c' hc' => ?_⟩
    obtain rfl := Option.some.inj hc'
    exact hvalue

theorem call_right_iff (hinv : s.Inv nums maxLen) : (∃ s' ∈ s.call nums c, s'.Right nums maxLen) ↔ c.Careful s.param := by
  unfold ParamCall.Careful
  cases hsuits : c.suits s.param.type with
  | true => rw [if_pos rfl, call_suited_iff hinv hsuits]
  | false => rw [if_neg Bool.false_ne_true, call_unsuited_iff hinv hsuits]

theorem ParamState.Inv.call (hinv : s.Inv nums maxLen) (hs' : s' ∈ s.call nums c) (hright : s'.Right nums maxLen) :
    s'.Inv nums maxLen := by
  obtain ⟨⟨outcome, param'⟩, hexec, rfl⟩ := Option.map_eq_some_iff.mp hs'
  cases hsuits : c.suits s.param.type with
  | true =>
    obtain ⟨rfl, hmade⟩ := exec_suited hinv.made hsuits hexec
    exact ⟨hmade, fun hnone => absurd hnone (Option.some_ne_none c), hright⟩
  | false =>
    rw [exec_unsuited hinv.made hsuits] at hexec
    obtain ⟨rfl, rfl⟩ := Prod.mk.inj (Option.some.inj hexec)
    exact ⟨hinv.made.withNull false, fun _ => rfl, hright⟩

/-- Along a run of calls each store stays in the buffer and the parameter denotes the value last set after each call, exactly
where each call is a careful one. -/
theorem paramCalls_right_iff {btype : DbBindType} {param : DbBind} (hcreate : bindCreate btype maxLen = some param)
    (calls : List ParamCall) :
    EachCall (ParamState.call nums) (fun s c => ∃ s' ∈ s.call nums c, s'.Right nums maxLen) ⟨param, none⟩ calls ↔
      EachCall (ParamState.call nums) (fun s c => c.Careful s.param) ⟨param, none⟩ calls := by
  obtain ⟨hmade, hnull⟩ := made_bindCreate hcreate
  have hstart : ParamState.Inv nums maxLen ⟨param, none⟩ := ⟨hmade, fun _ => hnull, fun c hc => by cases hc⟩
  refine EachCall.congr hstart (fun s c hinv => call_right_iff hinv) (fun s c s' hinv hP hs' => ?_) calls
  obtain ⟨s'', hs'', hright⟩ := hP
  obtain rfl := Option.mem_unique hs'' hs'
  exact hinv.call hs' hright

end run

/-- Numbers of which only zero is kept as a `double`. -/
def zeroNumbers : LuaNumbers where
  double _ := List.replicate 8 nul
  length_double _ := List.length_replicate
  ofDouble _ := 0
  outOfRange _ := Int64.minValue

/-- A string that is cut, nil, and a random string that fits. -/
theorem paramCalls_right_iff_string :
    EachCall (ParamState.call zeroNumbers) (fun s c => ∃ s' ∈ s.call zeroNumbers c, s'.Right zeroNumbers 4) ⟨fourChars, none⟩
      [.set (.string ['a', 'b', 'c', 'd', 'e']), .set .nil, .setRandStr ['a', '#'] fun _ => 0] :=
  (paramCalls_right_iff (by exact (rfl : bindCreate .varchar 4 = some fourChars)) _).mpr
    ⟨trivial, fun s hs => Option.some.inj hs ▸ ⟨trivial, fun s hs => Option.some.inj hs ▸ ⟨rfl, fun _ _ => trivial⟩⟩⟩

/-- A number for a `double` and a format that is longer than the buffer are written outside of it. -/
theorem not_paramCalls_right :
    (∃ param, bindCreate .double 8 = some param ∧ ¬EachCall (ParamState.call zeroNumbers)
      (fun s c => ∃ s' ∈ s.call zeroNumbers c, s'.Right zeroNumbers 8) ⟨param, none⟩ [.set (.number 0)]) ∧
    ∃ param, bindCreate .varchar 2 = some param ∧ ¬EachCall (ParamState.call zeroNumbers)
      (fun s c => ∃ s' ∈ s.call zeroNumbers c, s'.Right zeroNumbers 2) ⟨param, none⟩ [.setRandStr ['a', 'b', 'c'] fun _ => 0] := by
  refine ⟨⟨_, rfl, fun h => ?_⟩, ⟨_, rfl, fun h => ?_⟩⟩
  · obtain ⟨s', hs', -⟩ := h.1
    cases hs'
  · obtain ⟨s', hs', -⟩ := h.1
    cases hs'

end NuKSM.Sysbench
