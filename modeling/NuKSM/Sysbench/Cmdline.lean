import NuKSM.Sysbench.Config

/-! # The options of a script (`sysbench.cmdline.lua`, `sb_lua.c`)

A script describes its options in a table of Lua, which becomes an array of C and from there the options of sysbench.
A string of Lua ends for C at its first NUL. The memory of Lua strings is not collected while the array points to it. -/

namespace NuKSM.Sysbench

/-! ### Lua -/

/-- A value in the definition of an option. A table is a list of strings and a function one that validates an option. -/
inductive LuaArg
  | nil
  | boolean (b : Bool)
  | number (x : ℚ)
  | string (s : List Char)
  | table (items : List (List Char))
  | function (f : SbOptValidate)

/-- The definition of an option: the slots `1, 2, …` of a table. -/
abbrev LuaDef := List LuaArg

/-- A table with strings as keys, in the order of `pairs`. -/
abbrev LuaTable := List (List Char × LuaDef)

/-- `def[i]`; a slot behind the last one is nil. -/
def slot (d : LuaDef) (i : ℕ) : LuaArg := d.getD (i - 1) .nil

namespace LuaArg

/-- `type(v)`. -/
def typeName : LuaArg → List Char
  | nil => "nil".toList
  | boolean _ => "boolean".toList
  | number _ => "number".toList
  | string _ => "string".toList
  | table _ => "table".toList
  | function _ => "function".toList

/-- `v == w`. Values of different types are not equal; tables and functions are not compared here. -/
def eq : LuaArg → LuaArg → Bool
  | nil, nil => true
  | boolean a, boolean b => a = b
  | number x, number y => x = y
  | string s, string t => s = t
  | _, _ => false

end LuaArg

namespace LuaTable

/-- `t[key] = d`. -/
def assign (t : LuaTable) (key : List Char) (d : LuaDef) : LuaTable :=
  if t.any (·.1 = key) then t.map fun e => if e.1 = key then (key, d) else e else t ++ [(key, d)]

/-- `t[key] = nil`. -/
def remove (t : LuaTable) (key : List Char) : LuaTable := t.filter (·.1 ≠ key)

end LuaTable

/-! ### The iterator -/

/-- The key of `t.__orderedIndex`. -/
def orderedIndex : List Char := "__orderedIndex".toList

/-- `__genOrderedIndex`. -/
def genOrderedIndex (t : LuaTable) : List (List Char) := (t.map Prod.fst).insertionSort (· ≤ ·)

/-- The loop of `orderedNext` over `t.__orderedIndex`. -/
def nextKey (index : LuaDef) (state : List Char) : LuaArg :=
  (List.range index.length).foldl
    (fun key i => if (slot index (i + 1)).eq (.string state) then slot index (i + 2) else key) .nil

/-- `orderedNext`. The keys that it finds are strings or nil. -/
def orderedNext (t : LuaTable) (state : Option (List Char)) : Option (List Char × Option LuaDef) × LuaTable :=
  let t := if state.isNone then t.assign orderedIndex ((genOrderedIndex t).map .string) else t
  let index := (t.lookup orderedIndex).getD []
  let key := state.elim (slot index 1) (nextKey index)
  match key with
  | .string key => (some (key, t.lookup key), t)
  | _ => (none, t.remove orderedIndex)

/-! ### Conversions -/

/-- What ends a Lua function: a failed assertion, or a value that cannot be converted to a type of C. -/
inductive LuaError
  | assertion (message : List Char)
  | conversion
  deriving DecidableEq

/-- The constants of `sb_arg_type_t`, as the FFI knows them. -/
def SbArgType.constants : List (List Char × SbArgType) :=
  [("SB_ARG_TYPE_NULL".toList, .null), ("SB_ARG_TYPE_BOOL".toList, .bool), ("SB_ARG_TYPE_INT".toList, .int),
    ("SB_ARG_TYPE_SIZE".toList, .size), ("SB_ARG_TYPE_DOUBLE".toList, .double), ("SB_ARG_TYPE_STRING".toList, .string),
    ("SB_ARG_TYPE_LIST".toList, .list), ("SB_ARG_TYPE_FILE".toList, .file), ("SB_ARG_TYPE_MAX".toList, .max)]

/-- The number of a constant. -/
def SbArgType.code : SbArgType → ℕ
  | null => 0
  | bool => 1
  | int => 2
  | size => 3
  | double => 4
  | string => 5
  | list => 6
  | file => 7
  | max => 8

/-- `sysbench.cmdline.ARG_BOOL` and the others. -/
def SbArgType.arg (type : SbArgType) : LuaArg := .number type.code

/-- The type with a number. A number that is no constant is an unknown type, which `set_option` treats like the last one. -/
def SbArgType.ofCode : ℤ → SbArgType
  | 0 => null
  | 1 => bool
  | 2 => int
  | 3 => size
  | 4 => double
  | 5 => string
  | 6 => list
  | 7 => file
  | _ => max

/-- The conversion to `const char *`. -/
def toCharPtr : LuaArg → Except LuaError (Option CString)
  | .nil => .ok none
  | .string s => .ok (some (.ofMemory s))
  | _ => .error .conversion

/-- The conversion to `sb_arg_type_t`. -/
def toArgType : LuaArg → Except LuaError SbArgType
  | .number x => .ok (.ofCode (x.num.tdiv x.den))
  | .boolean b => .ok (if b then .bool else .null)
  | .string s => (SbArgType.constants.lookup s).elim (.error .conversion) .ok
  | _ => .error .conversion

/-- The conversion to `sb_opt_validate_t *`. -/
def toValidate : LuaArg → Except LuaError (Option SbOptValidate)
  | .nil => .ok none
  | .function f => .ok (some f)
  | _ => .error .conversion

/-! ### Reading the options -/

/-- An `sb_arg_t` with its description. -/
structure TestArg extends SbArg where
  desc : Option CString

/-- `assert(ok, message)`. -/
def luaAssert (ok : Bool) (message : List Char) : Except LuaError Unit :=
  if ok then .ok () else .error (.assertion message)

/-- `arg_types[type(v)]`. -/
def argTypes : LuaArg → LuaArg
  | .boolean _ => SbArgType.bool.arg
  | .string _ => SbArgType.string.arg
  | .number _ => SbArgType.double.arg
  | .table _ => SbArgType.list.arg
  | _ => .nil

/-- `table.concat(items, ',')`. -/
def concat (items : List (List Char)) : List Char := [','].intercalate items

section read
-- The text of a number.
variable (tostring : ℚ → List Char)

/-- The value that the branches for the default leave in `args[i].value`. -/
def readDefault (name : List Char) (default type : LuaArg) : Except LuaError (Option CString) :=
  match default with
  | .table items => do
    luaAssert (type.typeName = "nil".toList || (LuaArg.string type.typeName).eq SbArgType.list.arg)
      ("wrong type for list option ".toList ++ name)
    toCharPtr (.string (concat items))
  | .boolean b => toCharPtr (.string (if b then "on".toList else "off".toList))
  | .number x => toCharPtr (.string (tostring x))
  | default => toCharPtr default

/-- The type that an option is given. -/
def readType (default type : LuaArg) : LuaArg :=
  match type with
  | .nil =>
    match default with
    | .nil => SbArgType.string.arg
    | default => argTypes default
  | type => type

/-- The body of the loop of `read_cmdline_options`. -/
def readOption (name : List Char) (d : Option LuaDef) : Except LuaError TestArg := do
  luaAssert d.isSome "wrong table structure in sysbench.cmdline.options".toList
  let d := d.getD []
  luaAssert (!(slot d 1).eq .nil) ("nil description for option ".toList ++ name)
  let desc ← toCharPtr (slot d 1)
  let value ← readDefault tostring name (slot d 2) (slot d 3)
  let t := readType (slot d 2) (slot d 3)
  luaAssert (!t.eq .nil) ("cannot determine type for option ".toList ++ name)
  let type ← toArgType t
  let validate ← toValidate (slot d 4)
  return { name := .ofMemory name, value, type, validate, desc }

/-- The passes of the loop of `read_cmdline_options`, with a bound on their number. The array that they fill has an element
for each option. -/
def readLoop : (passes : ℕ) → LuaTable → (state : Option (List Char)) → List TestArg →
    Option (Except LuaError (List TestArg))
  | 0, _, _, _ => none
  | passes + 1, t, state, args =>
    match orderedNext t state with
    | (none, _) => some (.ok args)
    | (some (name, d), t) =>
      match readOption tostring name d with
      | .error e => some (.error e)
      | .ok arg => readLoop passes t (some name) (args ++ [arg])

/-- `sb_lua_set_test_args`: what it leaves in `sbtest.args`, and what it returns. -/
def sbLuaSetTestArgs (args : List TestArg) : List TestArg × ℤ :=
  (args.map fun arg =>
    { name := arg.name, desc := arg.desc, type := arg.type, value := arg.value, validate := arg.validate }, 0)

/-- `sysbench.cmdline.options`. -/
inductive CmdlineOptions
  | undefined
  | table (t : LuaTable)
  | other (typeName : List Char)

/-- `read_cmdline_options`: what it returns, and `sbtest.args` if it sets them. -/
def readCmdlineOptions (passes : ℕ) : CmdlineOptions → Option (Except LuaError (Bool × Option (List TestArg)))
  | .undefined => some (.ok (true, none))
  | .other typeName =>
    some (.error (.assertion ("wrong type for sysbench.cmdline.options: ".toList ++ typeName)))
  | .table t =>
    (readLoop tostring passes t none []).map fun result => result.map fun args =>
      let (args, rc) := sbLuaSetTestArgs args
      (rc = 0, some args)

end read

end NuKSM.Sysbench
