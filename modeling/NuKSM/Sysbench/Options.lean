import Mathlib

/-! # The options of sysbench (`sb_options.c`) -/

namespace NuKSM.Sysbench

/-! ### Strings -/

/-- The terminator of a string. -/
def nul : Char := Char.ofNat 0

/-- A string of C, without its terminator. -/
structure CString where
  chars : List Char
  noNul : nul ∉ chars
  deriving DecidableEq

/-- `*s`. -/
def deref : List Char → Char
  | [] => nul
  | c :: _ => c

/-- `strtok(s, ",")`: the next item, and what follows it. -/
def strtok : List Char → Option (List Char × List Char)
  | [] => none
  | c :: s => if c = ',' then strtok s else some (c :: s.takeWhile (· ≠ ','), (s.dropWhile (· ≠ ',')).tail)

theorem strtok_sublist {s item rest : List Char} (h : strtok s = some (item, rest)) :
    rest.length < s.length ∧ item ⊆ s ∧ rest ⊆ s := by
  induction s with
  | nil => cases h
  | cons c s ih =>
    rw [strtok] at h
    split at h
    · obtain ⟨hlt, hitem, hrest⟩ := ih h
      exact ⟨Nat.lt_succ_of_lt hlt, fun x hx => List.mem_cons_of_mem _ (hitem hx), fun x hx => List.mem_cons_of_mem _ (hrest hx)⟩
    · cases h
      have hsuffix : (s.dropWhile (· ≠ ',')).tail <:+ s := (List.tail_suffix _).trans (List.dropWhile_suffix _)
      exact ⟨Nat.lt_succ_of_le hsuffix.length_le, List.cons_subset_cons _ (List.takeWhile_sublist _).subset,
        fun x hx => List.mem_cons_of_mem _ (hsuffix.subset hx)⟩

/-- `for (tmp = strtok(tmp, ","); tmp != NULL; tmp = strtok(NULL, ","))`. -/
def listItems (s : List Char) : List (List Char) :=
  match _h : strtok s with
  | none => []
  | some (item, rest) => item :: listItems rest
  termination_by s.length
  decreasing_by exact (strtok_sublist _h).1

theorem listItems_noNul {s : List Char} (hs : nul ∉ s) : ∀ item ∈ listItems s, nul ∉ item := by
  fun_induction listItems s with
  | case1 => exact fun item h => absurd h List.not_mem_nil
  | case2 s item rest h ih =>
    obtain ⟨-, hitem, hrest⟩ := strtok_sublist h
    intro x hx
    rcases List.mem_cons.mp hx with rfl | hx
    · exact fun hnul => hs (hitem hnul)
    · exact ih (fun hnul => hs (hrest hnul)) x hx

namespace CString

def strOn : CString := ⟨['o', 'n'], by decide⟩
def strTrue : CString := ⟨['t', 'r', 'u', 'e'], by decide⟩
def strOne : CString := ⟨['1'], by decide⟩
def strOff : CString := ⟨['o', 'f', 'f'], by decide⟩
def strFalse : CString := ⟨['f', 'a', 'l', 's', 'e'], by decide⟩
def strZero : CString := ⟨['0'], by decide⟩

/-- The items of a list. -/
def items (s : CString) : List CString := (listItems s.chars).pmap mk (listItems_noNul s.noNul)

end CString

/-! ### Options -/

/-- `sb_arg_type_t`. -/
inductive SbArgType
  | null | bool | int | size | double | string | list | file | max
  deriving DecidableEq, Repr

/-- `sb_opt_validate_t`. -/
abbrev SbOptValidate := CString → Option CString → Bool

/-- `option_t`. -/
structure SbOption where
  name : CString
  type : SbArgType
  values : List CString
  validate : Option SbOptValidate

/-- `sb_arg_t`. -/
structure SbArg where
  name : CString
  value : Option CString
  type : SbArgType
  validate : Option SbOptValidate

/-- A character as `convert_dashes` leaves it. -/
def convertDash (c : Char) : Char := if c = '-' then '_' else c

theorem convertDash_ne_nul {c : Char} (hc : c ≠ nul) : convertDash c ≠ nul := by
  unfold convertDash
  split
  · decide
  · exact hc

/-- `convert_dashes`. -/
def convertDashes (s : CString) : CString :=
  ⟨s.chars.map convertDash, fun h => by
    obtain ⟨c, hc, hnul⟩ := List.mem_map.mp h
    exact convertDash_ne_nul (fun heq => s.noNul (heq ▸ hc)) hnul⟩

/-- `opt_name_cmp`. The loop tests the terminator of `s1` only. -/
def optNameCmp : (s1 s2 : List Char) → ℤ
  | [], s2 => nul.toNat - (deref s2).toNat
  | c :: s1, s2 =>
    if c = deref s2 then optNameCmp s1 s2.tail
    else if (c ≠ '-' ∧ c ≠ '_') ∨ (deref s2 ≠ '-' ∧ deref s2 ≠ '_') then c.toNat - (deref s2).toNat
    else optNameCmp s1 s2.tail

/-- `find_option`: where the option is in the list. -/
def findOption (options : List SbOption) (name : CString) : Option ℕ :=
  options.findIdx? fun opt => optNameCmp opt.name.chars name.chars = 0

/-- `add_option`. -/
def addOption (options : List SbOption) (name : CString) : ℕ × List SbOption :=
  match findOption options name with
  | some i => (i, options)
  | none => (options.length, options ++ [⟨convertDashes name, .null, [], none⟩])

/-- `value == NULL || value[0] == '\0'`. -/
def isEmpty (value : Option CString) : Prop := ∀ v ∈ value, v.chars = []

instance (value : Option CString) : Decidable (isEmpty value) := by
  unfold isEmpty
  infer_instance

/-- The values that the `switch` of `set_option` adds. It fails on a flag that is neither on nor off and on a type that it
does not know. -/
def switchType (type : SbArgType) (value : Option CString) : Option (List CString) :=
  match type with
  | .bool =>
    if value = none ∨ value = some .strOn ∨ value = some .strTrue ∨ value = some .strOne then some [.strOn]
    else if value = some .strOff ∨ value = some .strFalse ∨ value = some .strZero then some []
    else none
  | .int | .size | .double | .string => some value.toList
  | .list => some (value.elim [] CString.items)
  | _ => none

section setOption
-- What `read_config_file` does with the options.
variable (readConfigFile : Option CString → List SbOption → List SbOption)

/-- `set_option`: where the option is, or nothing on failure. -/
def setOption (options : List SbOption) (name : CString) (value : Option CString) (type : SbArgType) :
    Option ℕ × List SbOption :=
  let (i, options) := addOption options name
  let options := options.modify i fun opt => { opt with type := type, values := [] }
  if (options[i]?.bind (·.validate)).any fun validate => !validate name value then (none, options)
  else if type ≠ .bool ∧ isEmpty value then (some i, options)
  else if type = .file then (some i, readConfigFile value options)
  else match switchType type value with
    | some values => (some i, options.modify i fun opt => { opt with values := opt.values ++ values })
    | none => (none, options)

/-- The loop of `sb_register_arg_set`, and whether it fails. -/
def registerArgs (validate : Option SbOptValidate) : List SbArg → List SbOption → Bool × List SbOption
  | [], options => (false, options)
  | arg :: set, options =>
    match setOption readConfigFile options arg.name arg.value arg.type with
    | (none, options) => (true, options)
    | (some i, options) => registerArgs validate set (options.modify i fun opt => { opt with validate := validate })

/-- `sb_register_arg_set`. Each option gets the validation of the first argument. -/
def sbRegisterArgSet (set : List SbArg) (options : List SbOption) : Bool × List SbOption :=
  registerArgs readConfigFile (set.head?.bind (·.validate)) set options

/-! ### Calls -/

inductive OptionCall
  | setOption (name : CString) (value : Option CString) (type : SbArgType)
  | registerArgSet (set : List SbArg)

/-- The options after a call, unless it fails. -/
def OptionCall.run : OptionCall → List SbOption → Option (List SbOption)
  | setOption name value type, options =>
    let (i, options) := Sysbench.setOption readConfigFile options name value type
    i.map fun _ => options
  | registerArgSet set, options =>
    let (failed, options) := sbRegisterArgSet readConfigFile set options
    if failed then none else some options

/-- The options after the calls, one after the other, unless one fails. -/
def runOptions (calls : List OptionCall) (options : List SbOption) : Option (List SbOption) :=
  calls.foldlM (fun options call => call.run readConfigFile options) options

end setOption

end NuKSM.Sysbench
