import NuKSM.Sysbench.Config
import NuKSM.Theorems.Sysbench.Options

/-! # Options that are checked

`set_option` clears the option before it checks anything. A validation function stays with its option, and
`sb_register_arg_set` gives all options of a set that of the first. -/

namespace NuKSM.Sysbench

/-- What a validation function accepts, where there is one. -/
def accepts (validate : Option SbOptValidate) (name : CString) (value : Option CString) : Bool := validate.all (· name value)

/-- `set_option` has a branch for the value. -/
def ValidFor (type : SbArgType) (value : Option CString) : Prop :=
  (type ≠ .bool ∧ isEmpty value) ∨ type = .file ∨ (switchType type value).isSome

/-- The check of `set_option`. -/
def checkOption (options : List SbOption) (name : CString) (value : Option CString) : Bool :=
  accepts ((addOption options name).2[(addOption options name).1]?.bind (·.validate)) name value

/-- The options once `set_option` has freed the values. -/
def clearOption (options : List SbOption) (name : CString) (type : SbArgType) : List SbOption :=
  (addOption options name).2.modify (addOption options name).1 fun opt => { opt with type := type, values := [] }

section calls
variable {readFile : Option CString → List SbOption → List SbOption} {options options' : List SbOption} {name : CString}
  {value : Option CString} {type : SbArgType} {validate : Option SbOptValidate}

theorem clearOption_check : ((clearOption options name type)[(addOption options name).1]?.bind (·.validate)).any
    (fun validate => !validate name value) = !checkOption options name value := by
  rw [clearOption, List.getElem?_modify_eq, checkOption, accepts]
  cases (addOption options name).2[(addOption options name).1]? with
  | none => rfl
  | some opt =>
    show opt.validate.any _ = !opt.validate.all _
    cases opt.validate <;> rfl

/-- What a call of `set_option` can do. -/
theorem setOption_cases (readFile : Option CString → List SbOption → List SbOption) (options : List SbOption) (name : CString)
    (value : Option CString) (type : SbArgType) :
    (¬(checkOption options name value = true ∧ ValidFor type value) ∧
      setOption readFile options name value type = (none, clearOption options name type)) ∨
    ((checkOption options name value = true ∧ ValidFor type value) ∧
      ∃ options', setOption readFile options name value type = (some (addOption options name).1, options') ∧
        (options' = clearOption options name type ∨ options' = readFile value (clearOption options name type) ∨
          ∃ values, options' = (clearOption options name type).modify (addOption options name).1
            fun opt => { opt with values := opt.values ++ values })) := by
  have hset : setOption readFile options name value type =
      if ((clearOption options name type)[(addOption options name).1]?.bind (·.validate)).any (fun validate => !validate name value)
      then (none, clearOption options name type)
      else if type ≠ .bool ∧ isEmpty value then (some (addOption options name).1, clearOption options name type)
      else if type = .file then (some (addOption options name).1, readFile value (clearOption options name type))
      else (switchType type value).elim (none, clearOption options name type) fun values =>
        (some (addOption options name).1, (clearOption options name type).modify (addOption options name).1
          fun opt => { opt with values := opt.values ++ values }) := by
    unfold setOption
    cases switchType type value <;> rfl
  rw [hset, clearOption_check]
  cases checkOption options name value with
  | false => exact Or.inl ⟨fun h => Bool.noConfusion h.1, rfl⟩
  | true =>
    rw [Bool.not_true, if_neg Bool.false_ne_true]
    by_cases hempty : type ≠ .bool ∧ isEmpty value
    · rw [if_pos hempty]
      exact Or.inr ⟨⟨rfl, Or.inl hempty⟩, _, rfl, Or.inl rfl⟩
    rw [if_neg hempty]
    by_cases hfile : type = .file
    · rw [if_pos hfile]
      exact Or.inr ⟨⟨rfl, Or.inr (Or.inl hfile)⟩, _, rfl, Or.inr (Or.inl rfl)⟩
    rw [if_neg hfile]
    unfold ValidFor
    cases switchType type value with
    | none => exact Or.inl ⟨fun h => h.2.elim hempty fun h => h.elim hfile Bool.false_ne_true, rfl⟩
    | some values => exact Or.inr ⟨⟨rfl, Or.inr (Or.inr rfl)⟩, _, rfl, Or.inr (Or.inr ⟨values, rfl⟩)⟩

theorem setOption_isSome_iff : (setOption readFile options name value type).1.isSome ↔
    checkOption options name value = true ∧ ValidFor type value := by
  rcases setOption_cases readFile options name value type with ⟨hnot, hset⟩ | ⟨hok, options', hset, -⟩
  · rw [hset]
    exact ⟨nofun, fun h => absurd h hnot⟩
  · rw [hset]
    exact ⟨fun _ => hok, fun _ => rfl⟩

/-! ### What a call that fails leaves -/

theorem clearOption_some {i : ℕ} (h : findOption options name = some i) :
    clearOption options name type = options.modify i fun opt => { opt with type := type, values := [] } := by
  rw [clearOption, addOption, h]

theorem clearOption_new (h : findOption options name = none) :
    clearOption options name type = options ++ [⟨convertDashes name, type, [], none⟩] := by
  rw [clearOption, addOption, h]
  exact modify_middle options [] _ _

theorem exists_of_findOption {i : ℕ} (h : findOption options name = some i) : ∃ opt, options[i]? = some opt := by
  obtain ⟨hi, -, -⟩ := List.findIdx?_eq_some_iff_getElem.mp h
  exact ⟨options[i], List.getElem?_eq_getElem hi⟩

/-- A call that fails leaves the option with the new type and without values, and so is without effect only on an option
that was like this before. -/
theorem setOption_failed (h : (setOption readFile options name value type).1 = none) :
    (∀ i, findOption options name = some i → (setOption readFile options name value type).2 =
      options.modify i fun opt => { opt with type := type, values := [] }) ∧
    (findOption options name = none → (setOption readFile options name value type).2 =
      options ++ [⟨convertDashes name, type, [], none⟩]) ∧
    ((setOption readFile options name value type).2 = options ↔
      ∃ opt, (findOption options name).bind (options[·]?) = some opt ∧ opt.type = type ∧ opt.values = []) := by
  have hleft : (setOption readFile options name value type).2 = clearOption options name type := by
    rcases setOption_cases readFile options name value type with ⟨-, hset⟩ | ⟨-, options', hset, -⟩
    · rw [hset]
    · rw [hset] at h
      cases h
  rw [hleft]
  refine ⟨fun i => clearOption_some, clearOption_new, ?_⟩
  cases hfind : findOption options name with
  | none =>
    rw [clearOption_new hfind]
    refine ⟨fun heq => ?_, fun ⟨opt, hopt, _⟩ => by cases hopt⟩
    have hlength := congrArg List.length heq
    rw [List.length_append, List.length_singleton] at hlength
    omega
  | some i =>
    obtain ⟨opt, hopt⟩ := exists_of_findOption hfind
    rw [clearOption_some hfind, Option.bind_some, hopt]
    constructor
    · intro heq
      have hsame : (options.modify i fun opt => { opt with type := type, values := [] })[i]? = options[i]? := by rw [heq]
      rw [List.getElem?_modify_eq, hopt] at hsame
      have hsame := Option.some.inj hsame
      exact ⟨opt, rfl, (congrArg SbOption.type hsame).symm, (congrArg SbOption.values hsame).symm⟩
    · rintro ⟨_, ⟨⟩, rfl, hvalues⟩
      refine List.ext_getElem? fun j => ?_
      rw [List.getElem?_modify]
      split
      · rename_i hj
        subst hj
        rw [hopt, ← hvalues]
        rfl
      · exact Option.map_id_apply ..

/-- A flag that is on. -/
def flagOn : SbOption := ⟨⟨['a'], nul_notMem_a⟩, .bool, [.strOn], none⟩

theorem setOption_failed_flag : (setOption (fun _ options => options) [flagOn] flagOn.name (some ⟨['x'], by decide⟩) .bool).2 =
    [{ flagOn with values := [] }] :=
  (@setOption_failed (fun _ options => options) [flagOn] flagOn.name (some ⟨['x'], by decide⟩) .bool rfl).1 0 rfl

/-- A value that is neither on nor off turns the flag off. -/
theorem not_setOption_unchanged :
    (setOption (fun _ options => options) [flagOn] flagOn.name (some ⟨['x'], by decide⟩) .bool).1 = none ∧
    (setOption (fun _ options => options) [flagOn] flagOn.name (some ⟨['x'], by decide⟩) .bool).2 ≠ [flagOn] := by
  refine ⟨rfl, fun heq => ?_⟩
  have hvalues : [[]] = [[CString.strOn]] := congrArg (List.map SbOption.values) heq
  exact absurd hvalues (by decide)

/-! ### Validation functions -/

/-- The names and the validation functions of options. -/
def guards (options : List SbOption) : List (CString × Option SbOptValidate) := options.map fun opt => (opt.name, opt.validate)

/-- The option with the name has the validation function. -/
def Guarded (options : List SbOption) (name : CString) (validate : Option SbOptValidate) : Prop :=
  ∃ i opt, findOption options name = some i ∧ options[i]? = some opt ∧ opt.validate = validate

theorem map_modify {α β : Type} {g : α → β} {f : α → α} (h : ∀ a, g (f a) = g a) (l : List α) (i : ℕ) :
    (l.modify i f).map g = l.map g := by
  refine List.ext_getElem? fun j => ?_
  rw [List.getElem?_map, List.getElem?_map, List.getElem?_modify]
  cases l[j]? with
  | none => rfl
  | some a =>
    show some (g (if i = j then f a else a)) = some (g a)
    split
    · rw [h]
    · rfl

theorem guards_modify {i : ℕ} {f : SbOption → SbOption} (h : ∀ opt, ((f opt).name, (f opt).validate) = (opt.name, opt.validate)) :
    guards (options.modify i f) = guards options := map_modify h options i

theorem findOption_eq (options : List SbOption) (name : CString) :
    findOption options name = (guards options).findIdx? fun g => optNameCmp g.1.chars name.chars = 0 := by
  rw [guards, List.findIdx?_map]
  rfl

theorem findOption_of_later (hpre : guards options <+: guards options') {i : ℕ} (h : findOption options name = some i) :
    findOption options' name = some i := by
  rw [findOption_eq] at h ⊢
  obtain ⟨rest, hrest⟩ := hpre
  rw [← hrest, List.findIdx?_append, h, Option.some_or]

/-- A validation function changes nothing about where options are found. -/
theorem findOption_validate (i : ℕ) : findOption (options.modify i fun opt => { opt with validate := validate }) name =
    findOption options name := by
  have hfind : ∀ options : List SbOption, findOption options name =
      (options.map (·.name)).findIdx? fun n => optNameCmp n.chars name.chars = 0 := fun options => by
    rw [List.findIdx?_map]
    rfl
  have hnames : (options.modify i fun opt => { opt with validate := validate }).map (·.name) = options.map (·.name) :=
    map_modify (fun _ => by rfl) options i
  rw [hfind, hfind, hnames]

theorem Guarded.of_later (h : Guarded options name validate) (hpre : guards options <+: guards options') :
    Guarded options' name validate := by
  obtain ⟨i, opt, hfind, hopt, hvalidate⟩ := h
  have hfind' := findOption_of_later hpre hfind
  obtain ⟨opt', hopt'⟩ := exists_of_findOption hfind'
  refine ⟨i, opt', hfind', hopt', ?_⟩
  have hguard : (guards options)[i]? = some (opt.name, opt.validate) := by rw [guards, List.getElem?_map, hopt, Option.map_some]
  have hguard' : (guards options')[i]? = some (opt'.name, opt'.validate) := by
    rw [guards, List.getElem?_map, hopt', Option.map_some]
  obtain ⟨rest, hrest⟩ := hpre
  rw [← hrest, List.getElem?_append_left (List.getElem?_eq_some_iff.mp hguard).1, hguard] at hguard'
  rw [← (Prod.mk.inj (Option.some.inj hguard')).2, hvalidate]

theorem Guarded.checkOption (h : Guarded options name validate) : checkOption options name value = accepts validate name value := by
  obtain ⟨i, opt, hfind, hopt, rfl⟩ := h
  rw [Sysbench.checkOption, addOption, hfind]
  show accepts (options[i]?.bind _) _ _ = _
  rw [hopt, Option.bind_some]

theorem optNameCmp_convertDashes (name : CString) : optNameCmp (convertDashes name).chars name.chars = 0 := by
  rw [optNameCmp_eq_zero (convertDashes name).noNul name.noNul]
  exact canonical_convertDashes name

/-- `add_option` changes no option that is there, and the new one is found. -/
theorem addOption_guards (options : List SbOption) (name : CString) :
    guards options <+: guards (addOption options name).2 ∧
      findOption (addOption options name).2 name = some (addOption options name).1 := by
  rw [addOption]
  split
  · rename_i hfind
    exact ⟨List.prefix_refl _, hfind⟩
  · rename_i hfind
    refine ⟨?_, ?_⟩
    · show guards options <+: guards (options ++ _)
      rw [guards, guards, List.map_append]
      exact List.prefix_append ..
    · show findOption (options ++ _) name = some options.length
      rw [findOption, List.findIdx?_append]
      rw [findOption] at hfind
      rw [hfind, Option.none_or, List.findIdx?_singleton, if_pos (decide_eq_true (optNameCmp_convertDashes name))]
      show some (0 + options.length) = _
      rw [Nat.zero_add]

theorem clearOption_guards (options : List SbOption) (name : CString) (type : SbArgType) :
    guards options <+: guards (clearOption options name type) ∧
      findOption (clearOption options name type) name = some (addOption options name).1 := by
  obtain ⟨hpre, hfind⟩ := addOption_guards options name
  have hguards : guards (clearOption options name type) = guards (addOption options name).2 :=
    guards_modify fun _ => rfl
  exact ⟨hguards ▸ hpre, by rw [findOption_eq, hguards, ← findOption_eq, hfind]⟩

/-- `set_option` changes no name and no validation function of an option that is there. -/
theorem setOption_guards (hread : ∀ value options, guards options <+: guards (readFile value options))
    (options : List SbOption) (name : CString) (value : Option CString) (type : SbArgType) :
    guards options <+: guards (setOption readFile options name value type).2 ∧
      ∀ i ∈ (setOption readFile options name value type).1,
        findOption (setOption readFile options name value type).2 name = some i := by
  obtain ⟨hpre, hfind⟩ := clearOption_guards options name type
  rcases setOption_cases readFile options name value type with ⟨-, hset⟩ | ⟨-, options', hset, hcase⟩
  · rw [hset]
    exact ⟨hpre, nofun⟩
  · have hsame : guards (clearOption options name type) <+: guards options' := by
      rcases hcase with rfl | rfl | ⟨values, rfl⟩
      · exact List.prefix_refl _
      · exact hread ..
      · have hvalues : guards ((clearOption options name type).modify (addOption options name).1
            fun opt => { opt with values := opt.values ++ values }) = guards (clearOption options name type) :=
          guards_modify fun _ => rfl
        rw [hvalues]
    rw [hset]
    exact ⟨hpre.trans hsame, fun i hi => (findOption_of_later hsame hfind).trans hi⟩

/-- Calls of `set_option`, whether they fail or not. -/
def setOptions (readFile : Option CString → List SbOption → List SbOption)
    (calls : List (CString × Option CString × SbArgType)) (options : List SbOption) : List SbOption :=
  calls.foldl (fun options call => (setOption readFile options call.1 call.2.1 call.2.2).2) options

theorem setOptions_guards (hread : ∀ value options, guards options <+: guards (readFile value options))
    (calls : List (CString × Option CString × SbArgType)) (options : List SbOption) :
    guards options <+: guards (setOptions readFile calls options) := by
  induction calls generalizing options with
  | nil => exact List.prefix_refl _
  | cons call calls ih => exact (setOption_guards hread options call.1 call.2.1 call.2.2).1.trans (ih _)

theorem Guarded.modify (h : Guarded options name validate) (i : ℕ) :
    Guarded (options.modify i fun opt => { opt with validate := validate }) name validate := by
  obtain ⟨j, opt, hfind, hopt, hvalidate⟩ := h
  refine ⟨j, if i = j then { opt with validate := validate } else opt, (findOption_validate i).trans hfind, ?_, ?_⟩
  · rw [List.getElem?_modify, hopt]
    split <;> rfl
  · split
    · rfl
    · exact hvalidate

/-- Registered options have the validation function of the set. -/
theorem registerArgs_guarded (hread : ∀ value options, guards options <+: guards (readFile value options))
    {set : List SbArg} : ∀ {options : List SbOption}, registerArgs readFile validate set options = (false, options') →
      (∀ arg ∈ set, Guarded options' arg.name validate) ∧
      ∀ name, Guarded options name validate → Guarded options' name validate := by
  induction set with
  | nil =>
    rintro options ⟨⟩
    exact ⟨nofun, fun _ h => h⟩
  | cons arg set ih =>
    intro options h
    rw [registerArgs] at h
    split at h
    · cases h
    · rename_i i options₁ hset
      obtain ⟨hpre, hfind⟩ := setOption_guards hread options arg.name arg.value arg.type
      rw [hset] at hpre hfind
      have hfind := hfind i rfl
      obtain ⟨hset', hkept⟩ := ih h
      refine ⟨fun arg' harg' => ?_, fun name hname => hkept name ((hname.of_later hpre).modify i)⟩
      rcases List.mem_cons.mp harg' with rfl | harg'
      · obtain ⟨opt, hopt⟩ := exists_of_findOption hfind
        refine hkept _ ⟨i, { opt with validate := validate }, (findOption_validate i).trans hfind, ?_, rfl⟩
        rw [List.getElem?_modify_eq, hopt]
        rfl
      · exact hset' arg' harg'

/-! ### Which sets are registered -/

/-- The validation functions by the names of their options. -/
def validators (options : List SbOption) : Dict (List Char) (Option SbOptValidate) :=
  Dict.ofList (options.map fun opt => (opt.name.chars, opt.validate))

theorem checkOption_eq (hinv : OptionsInv options) :
    checkOption options name value = accepts (validators options name.canonical).join name value := by
  rw [validators, ← findOption_ofList SbOption.validate hinv name, checkOption, addOption]
  cases h : findOption options name with
  | none => simp
  | some i =>
    obtain ⟨opt, hopt⟩ := exists_of_findOption h
    simp [hopt]

/-- The checks of `sb_register_arg_set`: each option is checked by the validation function that it has by then. -/
def AllAccepted (validate : Option SbOptValidate) : Dict (List Char) (Option SbOptValidate) → List SbArg → Prop
  | _, [] => True
  | d, arg :: set =>
    accepts (d arg.name.canonical).join arg.name arg.value = true ∧
      AllAccepted validate (d.write (arg.name.canonical, some validate)) set

/-- A set is registered exactly when all its options are accepted. -/
theorem registerArgs_iff {set : List SbArg}
    (hvalid : ∀ arg ∈ set, ValidFor arg.type arg.value ∧ (arg.type = .file → isEmpty arg.value)) :
    ∀ {options : List SbOption}, OptionsInv options →
      ((∃ options', registerArgs readFile validate set options = (false, options')) ↔
        AllAccepted validate (validators options) set) := by
  induction set with
  | nil => exact fun _ => ⟨fun _ => trivial, fun _ => ⟨_, rfl⟩⟩
  | cons arg set ih =>
    intro options hinv
    obtain ⟨harg, hempty⟩ := hvalid arg List.mem_cons_self
    have hsome : (setOption readFile options arg.name arg.value arg.type).1.isSome ↔
        checkOption options arg.name arg.value = true := setOption_isSome_iff.trans (and_iff_left harg)
    rw [registerArgs, AllAccepted, ← checkOption_eq hinv, ← hsome]
    rcases hset : setOption readFile options arg.name arg.value arg.type with ⟨_ | i, options₁⟩
    · refine iff_of_false ?_ fun h => absurd h.1 Bool.false_ne_true
      rintro ⟨_, h⟩
      cases h
    · obtain ⟨A, opt, C, rfl, rfl, hinv₁, hname, -, horigin⟩ := setOption_spec hinv hempty hset
      have hinv₂ : OptionsInv (A ++ { opt with validate := validate } :: C) := hinv₁.replace rfl
      have hwrite : validators (A ++ { opt with validate := validate } :: C) =
          (validators options).write (arg.name.canonical, some validate) := by
        rw [← hname]
        exact ofList_replaced SbOption.validate hinv₂ horigin
      have hrest := ih (fun arg' h => hvalid arg' (List.mem_cons_of_mem _ h)) hinv₂
      rw [hwrite] at hrest
      simp only [modify_middle]
      exact hrest.trans (and_iff_right rfl).symm

/-- The validation function of an option is that of its set once an option before it in the set has its name, and until
then the one that it had before. -/
theorem allAccepted_iff {set : List SbArg} : ∀ {d : Dict (List Char) (Option SbOptValidate)},
    AllAccepted validate d set ↔ ∀ A arg C, set = A ++ arg :: C →
      ((∃ a ∈ A, a.name.canonical = arg.name.canonical) → accepts validate arg.name arg.value = true) ∧
      ((∀ a ∈ A, a.name.canonical ≠ arg.name.canonical) →
        accepts (d arg.name.canonical).join arg.name arg.value = true) := by
  induction set with
  | nil => exact fun {_} => ⟨fun _ A arg C h => by simp at h, fun _ => trivial⟩
  | cons arg set ih =>
    intro d
    rw [AllAccepted, ih]
    constructor
    · rintro ⟨hfirst, hrest⟩ A arg' C hset
      rcases List.cons_eq_append_iff.mp hset with ⟨rfl, hcons⟩ | ⟨A, rfl, rfl⟩
      · cases hcons
        refine ⟨?_, fun _ => hfirst⟩
        rintro ⟨_, h, -⟩
        exact absurd h List.not_mem_nil
      · obtain ⟨hagain, hfresh⟩ := hrest A arg' C rfl
        by_cases hA : ∃ a ∈ A, a.name.canonical = arg'.name.canonical
        · refine ⟨fun _ => hagain hA, fun hno => ?_⟩
          obtain ⟨a, ha, heq⟩ := hA
          exact absurd heq (hno a (List.mem_cons_of_mem _ ha))
        · have hnone : ∀ a ∈ A, a.name.canonical ≠ arg'.name.canonical := fun a ha heq => hA ⟨a, ha, heq⟩
          have hwrite := hfresh hnone
          rw [Dict.write] at hwrite
          by_cases harg : arg.name.canonical = arg'.name.canonical
          · rw [harg, Function.update_self] at hwrite
            exact ⟨fun _ => hwrite, fun hno => absurd harg (hno arg List.mem_cons_self)⟩
          · rw [Function.update_of_ne (Ne.symm harg)] at hwrite
            refine ⟨?_, fun _ => hwrite⟩
            rintro ⟨a, ha, heq⟩
            rcases List.mem_cons.mp ha with rfl | ha
            · exact absurd heq harg
            · exact absurd heq (hnone a ha)
    · intro hall
      refine ⟨(hall [] arg set rfl).2 fun _ h => absurd h List.not_mem_nil, fun A arg' C hset => ?_⟩
      obtain ⟨hagain, hfresh⟩ := hall (arg :: A) arg' C (by rw [hset]; rfl)
      refine ⟨?_, fun hnone => ?_⟩
      · rintro ⟨a, ha, heq⟩
        exact hagain ⟨a, List.mem_cons_of_mem _ ha, heq⟩
      rw [Dict.write]
      by_cases harg : arg.name.canonical = arg'.name.canonical
      · rw [harg, Function.update_self]
        exact hagain ⟨arg, List.mem_cons_self, harg⟩
      · rw [Function.update_of_ne (Ne.symm harg)]
        refine hfresh fun a ha => ?_
        rcases List.mem_cons.mp ha with rfl | ha
        · exact harg
        · exact hnone a ha

end calls

theorem readConfig_guards (text : List Char) (options : List SbOption) : guards options <+: guards (readConfig text options).2 := by
  have hline : ∀ line options, guards options <+: guards (readLine line options).2 := by
    intro line options
    unfold readLine
    simp only
    split
    · have hvalues : ∀ (options : List SbOption) (i : ℕ) (values : List CString),
          guards (options.modify i fun opt => { opt with values := values }) = guards options := fun options i values =>
        guards_modify fun _ => rfl
      show guards options <+: guards (List.modify _ _ _)
      rw [hvalues]
      exact (addOption_guards options _).1
    · exact List.prefix_refl _
  fun_induction readConfig text options with
  | case1 options => exact List.prefix_refl _
  | case2 c text options options' hread ih =>
    have hpre := hline (fgets (maxStrLen - 1) (c :: text)).1 options
    rw [hread] at hpre
    exact hpre.trans ih
  | case3 c text options ok options' hread hok =>
    have hpre := hline (fgets (maxStrLen - 1) (c :: text)).1 options
    rwa [hread] at hpre

theorem readConfigFile_guards (files : CString → Option (List Char)) (filename : Option CString) (options : List SbOption) :
    guards options <+: guards (readConfigFile files filename options) := by
  unfold readConfigFile
  split
  · exact List.prefix_refl _
  · exact readConfig_guards ..

/-- After a set was registered, each of its options is checked by its own validation function if and only if that of the
first accepts the same values for it. -/
theorem sbRegisterArgSet_checks_iff {files : CString → Option (List Char)} {set : List SbArg} {options options' : List SbOption}
    (h : sbRegisterArgSet (readConfigFile files) set options = (false, options')) :
    (∀ later, ∀ arg ∈ set, ∀ value type,
      (setOption (readConfigFile files) (setOptions (readConfigFile files) later options') arg.name value type).1.isSome ↔
        accepts arg.validate arg.name value = true ∧ ValidFor type value) ↔
    ∀ arg ∈ set, ∀ value,
      accepts (set.head?.bind (·.validate)) arg.name value = accepts arg.validate arg.name value := by
  obtain ⟨hset, -⟩ := registerArgs_guarded (readConfigFile_guards files) h
  have hcheck : ∀ later, ∀ arg ∈ set, ∀ value, checkOption (setOptions (readConfigFile files) later options') arg.name value =
      accepts (set.head?.bind (·.validate)) arg.name value := fun later arg harg value =>
    ((hset arg harg).of_later (setOptions_guards (readConfigFile_guards files) later options')).checkOption
  constructor
  · intro hright arg harg value
    have hstring := hright [] arg harg value .string
    have hvalid : ValidFor .string value := Or.inr (Or.inr rfl)
    rw [setOption_isSome_iff, hcheck [] arg harg, and_iff_left hvalid, and_iff_left hvalid] at hstring
    exact Bool.eq_iff_iff.mpr hstring
  · intro hsame later arg harg value type
    rw [setOption_isSome_iff, hcheck later arg harg, hsame arg harg]

/-- An option without a validation function, and one whose function accepts nothing. -/
def twoArgs : List SbArg :=
  [⟨⟨['a'], nul_notMem_a⟩, some .strOne, .string, none⟩, ⟨⟨['b'], by decide⟩, some .strOne, .string, some fun _ _ => false⟩]

/-- The second option accepts what its validation function does not. -/
theorem not_sbRegisterArgSet_checks : ∃ options, sbRegisterArgSet (readConfigFile fun _ => none) twoArgs [] = (false, options) ∧
    ¬∀ later, ∀ arg ∈ twoArgs, ∀ value type,
      (setOption (readConfigFile fun _ => none) (setOptions (readConfigFile fun _ => none) later options) arg.name value type).1.isSome ↔
        accepts arg.validate arg.name value = true ∧ ValidFor type value := by
  refine ⟨_, rfl, fun hright => ?_⟩
  have hsecond := hright [] ⟨⟨['b'], by decide⟩, some .strOne, .string, some fun _ _ => false⟩ (by simp [twoArgs])
    (some .strOne) .string
  exact absurd (hsecond.mp rfl).1 (by decide)

theorem sbRegisterArgSet_checks_alike : ∃ options,
    sbRegisterArgSet (readConfigFile fun _ => none) (twoArgs.map fun arg => { arg with validate := none }) [] = (false, options) ∧
    (setOption (readConfigFile fun _ => none) options ⟨['b'], by decide⟩ (some .strOff) .string).1.isSome := by
  refine ⟨_, rfl, ?_⟩
  have hchecks := (@sbRegisterArgSet_checks_iff (fun _ => none) (twoArgs.map fun arg => { arg with validate := none }) [] _
    rfl).mpr fun arg harg value => by fin_cases harg <;> rfl
  exact (hchecks [] ⟨⟨['b'], by decide⟩, some .strOne, .string, none⟩ (by simp [twoArgs]) (some .strOff) .string).mpr
    ⟨rfl, Or.inr (Or.inr rfl)⟩

end NuKSM.Sysbench
