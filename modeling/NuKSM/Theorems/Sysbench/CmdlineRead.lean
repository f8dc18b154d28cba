import NuKSM.Theorems.Sysbench.OrderedPairs

/-! # What is read of the options of a script

Each definition is read as it stands, except that a list fails when it declares its type, and that the option with the
key of the iterator's list is hidden by this list. -/

namespace NuKSM.Sysbench
variable {tostring : ℚ → List Char}

/-! ### Definitions of options -/

inductive Default
  | nil
  | boolean (b : Bool)
  | string (s : List Char)
  | list (items : List (List Char))
  deriving DecidableEq

structure OptionDef where
  name : List Char
  desc : List Char
  default : Default
  type : Option SbArgType
  validate : Option SbOptValidate

namespace Default

def arg : Default → LuaArg
  | nil => .nil
  | boolean b => .boolean b
  | string s => .string s
  | list items => .table items

/-- The type fits the default. An option without default can have any type. -/
def Fits : Default → SbArgType → Prop
  | nil, _ => True
  | boolean _, type => type = .bool
  | string _, type => type = .string ∨ type = .int ∨ type = .size ∨ type = .double
  | list _, type => type = .list

/-- A list of values is what the default says. -/
def Means : Default → List (List Char) → Prop
  | nil, values => values = [] ∨ values = ["off".toList]
  | boolean false, values => values = [] ∨ values = ["off".toList]
  | boolean true, values => values = ["on".toList]
  | string s, values => values = [s]
  | list items, values => values = items

def strings : Default → List (List Char)
  | string s => [s]
  | list items => items
  | _ => []

/-- `args[i].value` of an option with this default. -/
def value : Default → Option CString
  | nil => none
  | boolean b => some (if b then .strOn else .strOff)
  | string s => some (.ofMemory s)
  | list items => some (.ofMemory (concat items))

/-- The type of an option that has this default and declares no type. -/
def type : Default → SbArgType
  | nil => .string
  | boolean _ => .bool
  | string _ => .string
  | list _ => .list

end Default

namespace OptionDef

/-- The table of the definition. -/
def slots (o : OptionDef) : LuaDef :=
  [.string o.desc, o.default.arg, o.type.elim .nil SbArgType.arg, o.validate.elim .nil .function]

/-- The definition has the form that a script gives it. -/
structure Valid (o : OptionDef) : Prop where
  string : ∀ s, o.default = .string s → s ≠ []
  list : ∀ items, o.default = .list items → ∀ item ∈ items, item ≠ [] ∧ ',' ∉ item
  type : ∀ type ∈ o.type, o.default.Fits type

/-- The type that the option is registered with. -/
def argType (o : OptionDef) : SbArgType := o.type.getD o.default.type

def testArg (o : OptionDef) : TestArg where
  name := .ofMemory o.name
  value := o.default.value
  type := o.argType
  validate := o.validate
  desc := some (.ofMemory o.desc)

/-- The values of an option whose default has no NUL. Without a default a flag is on. -/
def values (o : OptionDef) : List (List Char) :=
  match o.default with
  | .nil => if o.type = some .bool then ["on".toList] else []
  | .boolean b => if b then ["on".toList] else []
  | .string s => [s]
  | .list items => items

/-- A list that declares its type. -/
def TypedList (o : OptionDef) : Prop := o.type ≠ none ∧ ∃ items, o.default = .list items

end OptionDef

/-! ### Reading a definition -/

theorem toArgType_arg (type : SbArgType) : toArgType type.arg = .ok type := by
  cases type <;> rfl

variable (tostring) in
/-- The type of a type is a string and no type, so a list that declares its type fails the assertion. -/
theorem readDefault_arg (name : List Char) (default : Default) (type : Option SbArgType) :
    ((type ≠ none ∧ ∃ items, default = .list items) ∧
        ∃ e, readDefault tostring name default.arg (type.elim .nil SbArgType.arg) = .error e) ∨
      (¬(type ≠ none ∧ ∃ items, default = .list items) ∧
        readDefault tostring name default.arg (type.elim .nil SbArgType.arg) = .ok default.value) := by
  cases default with
  | nil => exact Or.inr ⟨by simp, rfl⟩
  | boolean b => exact Or.inr ⟨by simp, by cases b <;> rfl⟩
  | string s => exact Or.inr ⟨by simp, rfl⟩
  | list items =>
    cases type with
    | none => exact Or.inr ⟨fun h => h.1 rfl, rfl⟩
    | some type => exact Or.inl ⟨⟨Option.some_ne_none type, items, rfl⟩, _, rfl⟩

theorem readType_arg (default : Default) (type : Option SbArgType) :
    readType default.arg (type.elim .nil SbArgType.arg) = (type.getD default.type).arg := by
  cases type with
  | none => cases default <;> rfl
  | some type => rfl

theorem toValidate_elim (validate : Option SbOptValidate) : toValidate (validate.elim .nil .function) = .ok validate := by
  cases validate <;> rfl

variable (tostring) in
/-- A definition is read unless it is a list that declares its type. -/
theorem readOption_slots (o : OptionDef) :
    (o.TypedList ∧ ∃ e, readOption tostring o.name (some o.slots) = .error e) ∨
      (¬o.TypedList ∧ readOption tostring o.name (some o.slots) = .ok o.testArg) := by
  have hread : readOption tostring o.name (some o.slots) = do
      let value ← readDefault tostring o.name o.default.arg (o.type.elim .nil SbArgType.arg)
      return { o.testArg with value := value } := by
    have hslots : slot o.slots 1 = .string o.desc ∧ slot o.slots 2 = o.default.arg ∧
        slot o.slots 3 = o.type.elim .nil SbArgType.arg ∧ slot o.slots 4 = o.validate.elim .nil .function :=
      ⟨rfl, rfl, rfl, rfl⟩
    obtain ⟨h1, h2, h3, h4⟩ := hslots
    simp only [readOption, Option.getD_some, h1, h2, h3, h4, readType_arg, toArgType_arg, toValidate_elim, toCharPtr]
    rfl
  rw [hread]
  rcases readDefault_arg tostring o.name o.default o.type with ⟨hlist, e, herror⟩ | ⟨hlist, hok⟩
  · exact Or.inl ⟨hlist, e, by rw [herror]; rfl⟩
  · exact Or.inr ⟨hlist, by rw [hok]; rfl⟩

/-! ### Reading the table -/

def sortedOptions (opts : List OptionDef) : List OptionDef := opts.insertionSort fun a b => a.name ≤ b.name

/-- The list of the names, which the iterator puts into the table. -/
def optionNames (opts : List OptionDef) : List (List Char) := (sortedOptions opts).map (·.name)

/-- What is read for an option: the option with the key of the list is hidden by the list. -/
def OptionDef.hidden (names : List (List Char)) (o : OptionDef) : OptionDef :=
  if o.name = orderedIndex then
    { name := o.name, desc := names.headD [], default := (names[1]?).elim .nil .string, type := none, validate := none }
  else o

/-- The options as they are read. -/
def asRead (opts : List OptionDef) : List OptionDef := (sortedOptions opts).map (·.hidden (optionNames opts))

/-- `sysbench.cmdline.options`. -/
def luaTable (opts : List OptionDef) : LuaTable := opts.map fun o => (o.name, o.slots)

variable {opts : List OptionDef} {names : List (List Char)}

theorem name_hidden (o : OptionDef) : (o.hidden names).name = o.name := by
  unfold OptionDef.hidden
  split <;> rfl

theorem names_asRead : (asRead opts).map (·.name) = optionNames opts := by
  rw [asRead, List.map_map, optionNames]
  exact List.map_congr_left fun o _ => name_hidden o

theorem perm_sortedOptions : (sortedOptions opts).Perm opts := List.perm_insertionSort ..

theorem genOrderedIndex_luaTable : genOrderedIndex (luaTable opts) = optionNames opts := by
  have hkeys : (luaTable opts).map Prod.fst = opts.map (·.name) := by
    rw [luaTable, List.map_map]
    rfl
  rw [genOrderedIndex, hkeys, optionNames, sortedOptions]
  exact (List.map_insertionSort (fun a b : OptionDef => a.name ≤ b.name) (· ≤ ·) _ opts fun _ _ _ _ => Iff.rfl).symm

theorem optionNames_sorted (hnodup : (opts.map (·.name)).Nodup) : (optionNames opts).Pairwise (· < ·) := by
  have hle : (optionNames opts).Pairwise (· ≤ ·) := by
    rw [← genOrderedIndex_luaTable]
    exact List.pairwise_insertionSort ..
  have hne : (optionNames opts).Nodup := (perm_sortedOptions.map _).nodup_iff.mpr hnodup
  exact (hle.and hne).imp fun h => lt_of_le_of_ne h.1 h.2

theorem constants_lt : ∀ e ∈ SbArgType.constants, e.1 < orderedIndex := by
  decide

variable (tostring) in
/-- The list of the names as a definition: with a third name there is a type that is no type, or a validation function
that is no function. -/
theorem readOption_names (hsorted : names.Pairwise (· < ·)) (hmem : orderedIndex ∈ names) :
    (2 < names.length ∧ ∃ e, readOption tostring orderedIndex (some (names.map .string)) = .error e) ∨
      (names.length ≤ 2 ∧ ∀ o : OptionDef, o.name = orderedIndex →
        readOption tostring orderedIndex (some (names.map .string)) = .ok (o.hidden names).testArg) := by
  rcases names with _ | ⟨a, _ | ⟨b, _ | ⟨c, rest⟩⟩⟩
  · simp at hmem
  · refine Or.inr ⟨by simp, fun o ho => ?_⟩
    rw [OptionDef.hidden, if_pos ho, ho]
    rfl
  · refine Or.inr ⟨by simp, fun o ho => ?_⟩
    rw [OptionDef.hidden, if_pos ho, ho]
    rfl
  · refine Or.inl ⟨by simp, ?_⟩
    have hread : readOption tostring orderedIndex (some ((a :: b :: c :: rest).map .string)) = do
        let type ← toArgType (.string c)
        let validate ← toValidate (rest.head?.elim .nil .string)
        return ⟨⟨.ofMemory orderedIndex, some (.ofMemory b), type, validate⟩, some (.ofMemory a)⟩ := by
      cases rest <;> rfl
    rw [hread]
    cases rest with
    | nil =>
      -- The third name is the key of the list or comes after it.
      have hle : orderedIndex ≤ c := by
        simp only [List.pairwise_cons, List.mem_cons, List.not_mem_nil, or_false] at hsorted hmem
        rcases hmem with h | h | h
        · exact h ▸ (hsorted.1 c (Or.inr rfl)).le
        · exact h ▸ (hsorted.2.1 c rfl).le
        · exact h.le
      have hlookup : SbArgType.constants.lookup c = none := List.lookup_eq_none_iff.mpr fun e he => by
        simpa using ((constants_lt e he).trans_le hle).ne'
      refine ⟨.conversion, ?_⟩
      rw [toArgType, hlookup]
      rfl
    | cons d rest =>
      cases toArgType (.string c) with
      | error e => exact ⟨e, rfl⟩
      | ok type => exact ⟨.conversion, rfl⟩

/-- What the loop reads, when each definition is read or ends it. -/
theorem readAll_map {t : LuaTable} {P : OptionDef → Prop} {g : OptionDef → TestArg} {S : List OptionDef}
    (h : ∀ o ∈ S, (¬P o ∧ ∃ e, readOption tostring o.name (t.lookup o.name) = .error e) ∨
      (P o ∧ readOption tostring o.name (t.lookup o.name) = .ok (g o))) (args : List TestArg) :
    ((∃ o ∈ S, ¬P o) ∧ ∃ e, readAll tostring t (S.map (·.name)) args = .error e) ∨
      ((∀ o ∈ S, P o) ∧ readAll tostring t (S.map (·.name)) args = .ok (args ++ S.map g)) := by
  induction S generalizing args with
  | nil => exact Or.inr ⟨fun o ho => absurd ho List.not_mem_nil, by rw [List.map_nil, List.map_nil, List.append_nil]; rfl⟩
  | cons o S ih =>
    rw [List.map_cons, readAll]
    rcases h o List.mem_cons_self with ⟨ho, e, herror⟩ | ⟨ho, hok⟩
    · exact Or.inl ⟨⟨o, List.mem_cons_self, ho⟩, e, by rw [herror]; rfl⟩
    · rw [hok]
      rcases ih (fun o' ho' => h o' (List.mem_cons_of_mem _ ho')) (args ++ [g o]) with ⟨⟨o', ho', hP⟩, hrest⟩ | ⟨hall, hrest⟩
      · exact Or.inl ⟨⟨o', List.mem_cons_of_mem _ ho', hP⟩, hrest⟩
      · refine Or.inr ⟨List.forall_mem_cons.mpr ⟨ho, hall⟩, hrest.trans ?_⟩
        rw [List.map_cons, List.append_assoc, List.singleton_append]

/-- The definition of an option does not end the loop. -/
def Readable (opts : List OptionDef) (o : OptionDef) : Prop :=
  if o.name = orderedIndex then opts.length ≤ 2 else ¬o.TypedList

theorem lookup_luaTable (hnodup : (opts.map (·.name)).Nodup) {o : OptionDef} (ho : o ∈ opts) :
    (luaTable opts).indexed.lookup o.name =
      if o.name = orderedIndex then some ((optionNames opts).map .string) else some o.slots := by
  have hlookup : (luaTable opts).lookup o.name = some o.slots := by
    obtain ⟨A, C, rfl⟩ := List.append_of_mem ho
    refine List.lookup_eq_some_iff.mpr ⟨luaTable A, luaTable C, List.map_append, fun e he => ?_⟩
    obtain ⟨a, ha, rfl⟩ := List.mem_map.mp he
    rw [List.map_append, List.map_cons] at hnodup
    have hne := (List.nodup_append.mp hnodup).2.2 _ (List.mem_map_of_mem ha) _ List.mem_cons_self
    simpa using hne.symm
  rw [LuaTable.indexed, lookup_assign, genOrderedIndex_luaTable, hlookup]

theorem readOption_luaTable (hnodup : (opts.map (·.name)).Nodup) {o : OptionDef} (ho : o ∈ opts) :
    (¬Readable opts o ∧
        ∃ e, readOption tostring o.name ((luaTable opts).indexed.lookup o.name) = .error e) ∨
      (Readable opts o ∧ readOption tostring o.name ((luaTable opts).indexed.lookup o.name) =
        .ok (o.hidden (optionNames opts)).testArg) := by
  have hlen : (optionNames opts).length = opts.length := by
    rw [optionNames, List.length_map]
    exact perm_sortedOptions.length_eq
  rw [lookup_luaTable hnodup ho, Readable]
  by_cases hindex : o.name = orderedIndex
  · rw [if_pos hindex, if_pos hindex, ← hlen]
    have hmem : orderedIndex ∈ optionNames opts :=
      hindex ▸ List.mem_map_of_mem (perm_sortedOptions.mem_iff.mpr ho)
    rcases readOption_names tostring (optionNames_sorted hnodup) hmem with ⟨hlt, herror⟩ | ⟨hle, hok⟩
    · exact Or.inl ⟨by omega, hindex ▸ herror⟩
    · exact Or.inr ⟨hle, hindex ▸ hok o hindex⟩
  · rw [if_neg hindex, if_neg hindex, OptionDef.hidden, if_neg hindex]
    rcases readOption_slots tostring o with ⟨hlist, herror⟩ | hread
    · exact Or.inl ⟨not_not.mpr hlist, herror⟩
    · exact Or.inr hread

/-- The table is read exactly when no definition ends the loop. -/
theorem readCmdlineOptions_iff (hnodup : (opts.map (·.name)).Nodup) {args : List TestArg} :
    (∃ passes, readCmdlineOptions tostring passes (.table (luaTable opts)) = some (.ok (true, some args))) ↔
      (∀ o ∈ opts, Readable opts o) ∧ args = (asRead opts).map (·.testArg) := by
  have hkeys : ((luaTable opts).map Prod.fst).Nodup := by
    rw [luaTable, List.map_map]
    exact hnodup
  have hcopy : ∀ args : List TestArg, sbLuaSetTestArgs args = (args, 0) := fun args => by
    rw [sbLuaSetTestArgs, List.map_id'']
    exact fun arg => rfl
  have hread : ∀ passes, readCmdlineOptions tostring passes (.table (luaTable opts)) =
      (readLoop tostring passes (luaTable opts) none []).map fun result => result.map fun args => (true, some args) := by
    intro passes
    simp only [readCmdlineOptions, hcopy]
    rfl
  have hall : ((∃ o ∈ sortedOptions opts, ¬Readable opts o) ∧
        ∃ e, readAll tostring (luaTable opts).indexed (optionNames opts) [] = .error e) ∨
      ((∀ o ∈ sortedOptions opts, Readable opts o) ∧
        readAll tostring (luaTable opts).indexed (optionNames opts) [] = .ok ((asRead opts).map (·.testArg))) := by
    rw [asRead, List.map_map, ← List.nil_append (List.map (_ ∘ _) _)]
    exact readAll_map (fun o ho => readOption_luaTable hnodup (perm_sortedOptions.mem_iff.mp ho)) []
  have hloop : ∀ passes, (readLoop tostring passes (luaTable opts) none [] = none ∧ passes ≤ (optionNames opts).length) ∨
      readLoop tostring passes (luaTable opts) none [] =
        some (readAll tostring (luaTable opts).indexed (optionNames opts) []) :=
    fun passes => genOrderedIndex_luaTable ▸ readLoop_ahead (ahead_none hkeys)
  constructor
  · rintro ⟨passes, h⟩
    rw [hread] at h
    rcases hloop passes with ⟨hnone, -⟩ | hsome
    · rw [hnone] at h
      cases h
    · rw [hsome] at h
      rcases hall with ⟨-, e, herror⟩ | ⟨hok, hargs⟩
      · rw [herror] at h
        cases h
      · rw [hargs] at h
        cases h
        exact ⟨fun o ho => hok o (perm_sortedOptions.mem_iff.mpr ho), rfl⟩
  · rintro ⟨hok, rfl⟩
    refine ⟨(optionNames opts).length + 1, ?_⟩
    rw [hread]
    rcases hloop ((optionNames opts).length + 1) with ⟨-, hle⟩ | hsome
    · omega
    · rw [hsome]
      rcases hall with ⟨⟨o, ho, hno⟩, -⟩ | ⟨-, hargs⟩
      · exact absurd (hok o (perm_sortedOptions.mem_iff.mp ho)) hno
      · rw [hargs]
        rfl

end NuKSM.Sysbench
