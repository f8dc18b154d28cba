import NuKSM.Lib.Dict
import NuKSM.Sysbench.Options

/-! # One option for each name

Names are stored with their dashes converted and compared as if they were, so the options are a map from the converted
names. A call writes to one key of it. -/

namespace NuKSM.Sysbench

/-! ### Names -/

/-- A name of one letter. -/
theorem nul_notMem_a : nul ∉ ['a'] := by decide

/-- The name with its dashes converted, by which options are told apart. -/
def CString.canonical (s : CString) : List Char := s.chars.map convertDash

theorem convertDash_convertDash (c : Char) : convertDash (convertDash c) = convertDash c := by
  unfold convertDash
  split <;> rfl

theorem canonical_convertDashes (s : CString) : (convertDashes s).canonical = s.canonical := by
  simp only [CString.canonical, convertDashes, List.map_map]
  exact List.map_congr_left fun c _ => convertDash_convertDash c

/-- Two characters are the same name character if they are equal or both dashes. -/
theorem convertDash_eq_iff (c d : Char) :
    convertDash c = convertDash d ↔ c = d ∨ ((c = '-' ∨ c = '_') ∧ (d = '-' ∨ d = '_')) := by
  unfold convertDash
  split <;> split <;> grind

theorem sub_toNat_ne_zero {c d : Char} (h : c ≠ d) : (c.toNat : ℤ) - d.toNat ≠ 0 := by
  intro heq
  exact h (Char.toNat_inj.mp (by omega))

theorem optNameCmp_eq_zero {s1 s2 : List Char} (h1 : nul ∉ s1) (h2 : nul ∉ s2) :
    optNameCmp s1 s2 = 0 ↔ s1.map convertDash = s2.map convertDash := by
  induction s1 generalizing s2 with
  | nil =>
    cases s2 with
    | nil => exact ⟨fun _ => rfl, fun _ => rfl⟩
    | cons d s2 =>
      have hd : nul ≠ d := fun heq => h2 (heq ▸ List.mem_cons_self ..)
      exact ⟨fun h => absurd h (sub_toNat_ne_zero hd), fun h => by cases h⟩
  | cons c s1 ih =>
    have hc : c ≠ nul := fun heq => h1 (heq ▸ List.mem_cons_self ..)
    have h1' : nul ∉ s1 := fun h => h1 (List.mem_cons_of_mem _ h)
    rw [optNameCmp]
    cases s2 with
    | nil =>
      -- The terminator of `s2` is no character of a name, and no dash.
      show (if c = nul then _ else if (c ≠ '-' ∧ c ≠ '_') ∨ (nul ≠ '-' ∧ nul ≠ '_') then (c.toNat : ℤ) - nul.toNat else _) = 0 ↔ _
      rw [if_neg hc, if_pos (Or.inr (by decide))]
      exact ⟨fun h => absurd h (sub_toNat_ne_zero hc), fun h => by cases h⟩
    | cons d s2 =>
      have h2' : nul ∉ s2 := fun h => h2 (List.mem_cons_of_mem _ h)
      rw [List.map_cons, List.map_cons, List.cons.injEq, convertDash_eq_iff]
      show (if c = d then optNameCmp s1 s2 else if (c ≠ '-' ∧ c ≠ '_') ∨ (d ≠ '-' ∧ d ≠ '_') then (c.toNat : ℤ) - d.toNat
        else optNameCmp s1 s2) = 0 ↔ _
      split
      · rw [ih h1' h2']
        exact ⟨fun h => ⟨Or.inl ‹_›, h⟩, And.right⟩
      · split
        · refine ⟨fun h => absurd h (sub_toNat_ne_zero ‹_›), fun h => ?_⟩
          rcases h.1 with heq | ⟨hc', hd'⟩
          · exact absurd heq ‹_›
          · grind
        · rw [ih h1' h2']
          exact ⟨fun h => ⟨Or.inr (by grind), h⟩, And.right⟩

/-! ### Values -/

/-- The values that the last call for an option determines. -/
def settingValues (type : SbArgType) (value : Option CString) : List (List Char) :=
  match type with
  | .bool => if value = none ∨ value = some .strOn ∨ value = some .strTrue ∨ value = some .strOne then [CString.strOn.chars] else []
  | .list => value.elim [] fun v => (v.chars.splitOn ',').filter (· ≠ [])
  | _ => if isEmpty value then [] else (value.map (·.chars)).toList

theorem splitOn_ne_comma {item : List Char} (h : ∀ c ∈ item, c ≠ ',') : item.splitOn ',' = [item] :=
  List.splitOn_eq_singleton fun hmem => h _ hmem rfl

theorem listItems_eq (s : List Char) : listItems s = (s.splitOn ',').filter (· ≠ []) := by
  induction hn : s.length using Nat.strong_induction_on generalizing s with
  | _ n ih =>
    cases s with
    | nil =>
      rw [listItems]
      rfl
    | cons c s =>
      by_cases hc : c = ','
      · subst hc
        have hskip : listItems (',' :: s) = listItems s := by
          rw [listItems, listItems]
          rfl
        have hsplit : (',' :: s).splitOn ',' = [] :: s.splitOn ',' := List.splitOnP_append_cons [] s (by decide)
        rw [hskip, hsplit, ih s.length (by rw [← hn]; exact Nat.lt_succ_self _) s rfl]
        rfl
      · have hitem : ∀ x ∈ c :: s.takeWhile (· ≠ ','), x ≠ ',' := by
          intro x hx
          rcases List.mem_cons.mp hx with rfl | hx
          · exact hc
          · simpa using List.mem_takeWhile_imp hx
        have hstrtok : strtok (c :: s) = some (c :: s.takeWhile (· ≠ ','), (s.dropWhile (· ≠ ',')).tail) := by
          rw [strtok, if_neg hc]
        have hloop : listItems (c :: s) = (c :: s.takeWhile (· ≠ ',')) :: listItems (s.dropWhile (· ≠ ',')).tail := by
          rw [listItems]
          split
          · rename_i h
            rw [h] at hstrtok
            cases hstrtok
          · rename_i item rest h
            rw [h] at hstrtok
            cases hstrtok
            rfl
        have hcut : c :: s = (c :: s.takeWhile (· ≠ ',')) ++ s.dropWhile (· ≠ ',') := by
          rw [List.cons_append, List.takeWhile_append_dropWhile]
        have hlt := (strtok_sublist hstrtok).1
        rw [hloop, ih _ (by rw [← hn]; exact hlt) _ rfl]
        conv_rhs => rw [hcut]
        cases hrest : s.dropWhile (· ≠ ',') with
        | nil =>
          rw [List.append_nil, splitOn_ne_comma hitem]
          rfl
        | cons d t =>
          have hd : d = ',' := by
            have := List.head?_dropWhile_not (· ≠ ',') s
            rw [hrest] at this
            simpa using this
          subst hd
          have hsplit : ((c :: s.takeWhile (· ≠ ',')) ++ ',' :: t).splitOn ',' =
              (c :: s.takeWhile (· ≠ ',')).splitOn ',' ++ t.splitOn ',' := List.splitOnP_append_cons _ t (by decide)
          rw [hsplit, splitOn_ne_comma hitem]
          rfl

theorem items_chars (s : CString) : s.items.map (·.chars) = (s.chars.splitOn ',').filter (· ≠ []) := by
  rw [← listItems_eq, CString.items, List.map_pmap]
  simp

/-- What the `switch` adds are the values that the call determines. -/
theorem switchType_values {type : SbArgType} {value : Option CString} {values : List CString}
    (hempty : ¬(type ≠ .bool ∧ isEmpty value)) (h : switchType type value = some values) :
    values.map (·.chars) = settingValues type value := by
  have hvalue : type ≠ .bool → ¬isEmpty value := fun htype hvalue => hempty ⟨htype, hvalue⟩
  cases type with
  | bool =>
    rw [switchType] at h
    rw [settingValues]
    split at h
    · rw [if_pos ‹_›]
      cases h
      rfl
    · rw [if_neg ‹_›]
      split at h
      · cases h
        rfl
      · cases h
  | list =>
    cases h
    cases value with
    | none => rfl
    | some v => exact items_chars v
  | int | size | double | string =>
    cases h
    refine Eq.trans ?_ (if_neg (hvalue (by decide))).symm
    cases value <;> rfl
  | null | file | max => cases h

theorem settingValues_of_isEmpty {type : SbArgType} {value : Option CString} (htype : type ≠ .bool) (h : isEmpty value) :
    settingValues type value = [] := by
  cases type with
  | bool => exact absurd rfl htype
  | list =>
    cases value with
    | none => rfl
    | some v => rw [settingValues, Option.elim_some, h v rfl]; rfl
  | _ => exact if_pos h

/-! ### The list of options -/

/-- The type and the values of an option. -/
def SbOption.setting (opt : SbOption) : SbArgType × List (List Char) := (opt.type, opt.values.map (·.chars))

/-- The options by their names. -/
def entries (options : List SbOption) : List (List Char × SbArgType × List (List Char)) :=
  options.map fun opt => (opt.name.chars, opt.setting)

/-- The names are stored with their dashes converted, and no two are the same. -/
structure OptionsInv (options : List SbOption) : Prop where
  canonical : ∀ opt ∈ options, opt.name.chars = opt.name.canonical
  nodup : (options.map fun opt => opt.name.chars).Nodup

theorem modify_middle (A C : List SbOption) (opt : SbOption) (f : SbOption → SbOption) :
    (A ++ opt :: C).modify A.length f = A ++ f opt :: C := by
  induction A with
  | nil => rfl
  | cons a A ih => rw [List.length_cons, List.cons_append, List.modify_succ_cons, ih, List.cons_append]

theorem getElem?_middle (A C : List SbOption) (opt : SbOption) : (A ++ opt :: C)[A.length]? = some opt := by simp

theorem OptionsInv.replace {A C : List SbOption} {opt opt' : SbOption} (h : OptionsInv (A ++ opt :: C))
    (hname : opt'.name = opt.name) : OptionsInv (A ++ opt' :: C) where
  canonical o ho := by
    rcases List.mem_append.mp ho with ho | ho
    · exact h.canonical o (List.mem_append_left _ ho)
    · rcases List.mem_cons.mp ho with rfl | ho
      · rw [hname]
        exact h.canonical opt (List.mem_append_right _ (List.mem_cons_self ..))
      · exact h.canonical o (List.mem_append_right _ (List.mem_cons_of_mem _ ho))
  nodup := by
    have hnodup := h.nodup
    rw [List.map_append, List.map_cons] at hnodup ⊢
    rwa [hname]

/-- No option before the one in the middle has its name. -/
theorem OptionsInv.before {A C : List SbOption} {opt : SbOption} (h : OptionsInv (A ++ opt :: C)) :
    ∀ e ∈ entries A, e.1 ≠ opt.name.chars := by
  intro e he
  obtain ⟨o, ho, rfl⟩ := List.mem_map.mp he
  have hnodup := h.nodup
  rw [List.map_append, List.map_cons] at hnodup
  exact (List.nodup_append.mp hnodup).2.2 _ (List.mem_map_of_mem ho) _ (List.mem_cons_self ..)

theorem optNameCmp_name {opt : SbOption} (hcanonical : opt.name.chars = opt.name.canonical) (name : CString) :
    (optNameCmp opt.name.chars name.chars = 0) ↔ opt.name.chars = name.canonical := by
  rw [optNameCmp_eq_zero opt.name.noNul name.noNul, CString.canonical]
  exact ⟨fun h => hcanonical.trans h, fun h => hcanonical.symm.trans h⟩

theorem findOption_none {options : List SbOption} {name : CString} (hinv : OptionsInv options)
    (h : findOption options name = none) : ∀ opt ∈ options, opt.name.chars ≠ name.canonical := by
  intro opt hopt heq
  have := List.findIdx?_eq_none_iff.mp h opt hopt
  exact absurd ((optNameCmp_name (hinv.canonical opt hopt) name).mpr heq) (by simpa using this)

theorem findOption_some {options : List SbOption} {name : CString} {i : ℕ} (hinv : OptionsInv options)
    (h : findOption options name = some i) :
    ∃ A opt C, options = A ++ opt :: C ∧ i = A.length ∧ opt.name.chars = name.canonical := by
  obtain ⟨hi, hcmp, -⟩ := List.findIdx?_eq_some_iff_getElem.mp h
  refine ⟨options.take i, options[i], options.drop (i + 1), ?_, ?_, ?_⟩
  · rw [List.cons_getElem_drop_succ, List.take_append_drop]
  · rw [List.length_take, Nat.min_eq_left hi.le]
  · exact (optNameCmp_name (hinv.canonical _ (List.getElem_mem hi)) name).mp (by simpa using hcmp)

/-- `add_option` finds the option, or adds it at the end. -/
theorem addOption_spec {options : List SbOption} (hinv : OptionsInv options) (name : CString) :
    ∃ A opt C, addOption options name = (A.length, A ++ opt :: C) ∧ OptionsInv (A ++ opt :: C) ∧
      opt.name.chars = name.canonical ∧ ((options = A ++ opt :: C) ∨ (options = A ∧ C = [])) := by
  unfold addOption
  split
  · rename_i i h
    obtain ⟨A, opt, C, rfl, rfl, hname⟩ := findOption_some hinv h
    exact ⟨A, opt, C, rfl, hinv, hname, Or.inl rfl⟩
  · rename_i h
    have hnew := findOption_none hinv h
    refine ⟨options, ⟨convertDashes name, .null, [], none⟩, [], rfl, ⟨fun o ho => ?_, ?_⟩, rfl, Or.inr ⟨rfl, rfl⟩⟩
    · rcases List.mem_append.mp ho with ho | ho
      · exact hinv.canonical o ho
      · rw [List.mem_singleton.mp ho]
        exact (canonical_convertDashes name).symm
    · rw [List.map_append, List.map_singleton, List.nodup_append]
      refine ⟨hinv.nodup, List.nodup_singleton _, fun a ha b hb => ?_⟩
      obtain ⟨o, ho, rfl⟩ := List.mem_map.mp ha
      rw [List.mem_singleton.mp hb]
      exact hnew o ho

/-! ### Calls -/

section calls
variable {readConfigFile : Option CString → List SbOption → List SbOption}

/-- Something of each option, by name, after one option was replaced or put at the end. -/
theorem ofList_replaced {β : Type} (f : SbOption → β) {options A C : List SbOption} {opt : SbOption}
    (hinv : OptionsInv (A ++ opt :: C))
    (horigin : (∃ opt₀ : SbOption, opt₀.name = opt.name ∧ options = A ++ opt₀ :: C) ∨ (options = A ∧ C = [])) :
    Dict.ofList ((A ++ opt :: C).map fun o => (o.name.chars, f o)) =
      (Dict.ofList (options.map fun o => (o.name.chars, f o))).write (opt.name.chars, some (f opt)) := by
  have hbefore : ∀ e ∈ A.map fun o => (o.name.chars, f o), e.1 ≠ opt.name.chars := by
    intro e he
    obtain ⟨o, ho, rfl⟩ := List.mem_map.mp he
    exact hinv.before (o.name.chars, o.setting) (List.mem_map_of_mem ho)
  rw [List.map_append, List.map_cons]
  rcases horigin with ⟨opt₀, hname, rfl⟩ | ⟨rfl, rfl⟩
  · rw [List.map_append, List.map_cons, hname]
    exact Dict.ofList_replace hbefore
  · rw [Dict.ofList_insert hbefore, List.map_nil, List.append_nil]

/-- What an option becomes in a successful call. -/
theorem setOption_spec {options options' : List SbOption} {name : CString} {value : Option CString} {type : SbArgType} {i : ℕ}
    (hinv : OptionsInv options) (htype : type = .file → isEmpty value)
    (h : setOption readConfigFile options name value type = (some i, options')) :
    ∃ A opt C, options' = A ++ opt :: C ∧ i = A.length ∧ OptionsInv options' ∧ opt.name.chars = name.canonical ∧
      opt.setting = (type, settingValues type value) ∧
      ((∃ opt₀ : SbOption, opt₀.name = opt.name ∧ options = A ++ opt₀ :: C) ∨ (options = A ∧ C = [])) := by
  obtain ⟨A, opt, C, hadd, hinv', hname, horigin⟩ := addOption_spec hinv name
  have horigin' : ∀ opt' : SbOption, opt'.name = opt.name →
      (∃ opt₀ : SbOption, opt₀.name = opt'.name ∧ options = A ++ opt₀ :: C) ∨ (options = A ∧ C = []) :=
    fun opt' hopt' => horigin.imp_left fun hold => ⟨opt, hopt'.symm, hold⟩
  rw [setOption, hadd] at h
  simp only [modify_middle, getElem?_middle] at h
  split at h
  · cases h
  · split at h
    · rename_i hvalue
      cases h
      refine ⟨A, _, C, rfl, rfl, hinv'.replace rfl, hname, ?_, horigin' _ rfl⟩
      rw [settingValues_of_isEmpty hvalue.1 hvalue.2]
      rfl
    · rename_i hvalue
      have hfile : type ≠ .file := fun hfile => hvalue ⟨hfile ▸ (by decide), htype hfile⟩
      rw [if_neg hfile] at h
      split at h
      · rename_i values hswitch
        cases h
        refine ⟨A, _, C, rfl, rfl, hinv'.replace rfl, hname, ?_, horigin' _ rfl⟩
        rw [← switchType_values hvalue hswitch]
        rfl
      · cases h

/-- A successful call writes one setting. -/
theorem setOption_entries {options options' : List SbOption} {name : CString} {value : Option CString} {type : SbArgType}
    {i : ℕ} (hinv : OptionsInv options) (htype : type = .file → isEmpty value)
    (h : setOption readConfigFile options name value type = (some i, options')) :
    OptionsInv options' ∧ Dict.ofList (entries options') =
      (Dict.ofList (entries options)).write (name.canonical, some (type, settingValues type value)) := by
  obtain ⟨A, opt, C, rfl, -, hinv', hname, hsetting, horigin⟩ := setOption_spec hinv htype h
  refine ⟨hinv', ?_⟩
  rw [← hname, ← hsetting]
  exact ofList_replaced SbOption.setting hinv' horigin

/-- The settings that a call makes, by name. -/
def OptionCall.settings : OptionCall → List (List Char × Option (SbArgType × List (List Char)))
  | setOption name value type => [(name.canonical, some (type, settingValues type value))]
  | registerArgSet set => set.map fun arg => (arg.name.canonical, some (arg.type, settingValues arg.type arg.value))

/-- The call reads no configuration file. -/
def OptionCall.NoFile : OptionCall → Prop
  | setOption _ _ type => type ≠ .file
  | registerArgSet set => ∀ arg ∈ set, arg.type ≠ .file

theorem registerArgs_spec {validate : Option SbOptValidate} {set : List SbArg}
    (htypes : ∀ arg ∈ set, arg.type = .file → isEmpty arg.value) :
    ∀ {options options' : List SbOption}, OptionsInv options →
      registerArgs readConfigFile validate set options = (false, options') →
      OptionsInv options' ∧ Dict.ofList (entries options') =
        (OptionCall.registerArgSet set).settings.foldl Dict.write (Dict.ofList (entries options)) := by
  induction set with
  | nil =>
    intro options options' hinv h
    cases h
    exact ⟨hinv, rfl⟩
  | cons arg set ih =>
    intro options options' hinv h
    rw [registerArgs] at h
    split at h
    · cases h
    · rename_i i options₁ hset
      have htype := htypes arg (List.mem_cons_self ..)
      have hwrite := (setOption_entries hinv htype hset).2
      obtain ⟨A, opt, C, rfl, rfl, hinv₁, -⟩ := setOption_spec hinv htype hset
      rw [modify_middle] at h
      obtain ⟨hinv₂, hrest⟩ := ih (fun arg' h' => htypes arg' (List.mem_cons_of_mem _ h')) (hinv₁.replace (by rfl)) h
      refine ⟨hinv₂, hrest.trans ?_⟩
      rw [show entries (A ++ { opt with validate := validate } :: C) = entries (A ++ opt :: C) by
        simp only [entries, List.map_append, List.map_cons, SbOption.setting], hwrite]
      rfl

theorem OptionCall.run_spec {call : OptionCall} {options options' : List SbOption} (hinv : OptionsInv options)
    (hfile : call.NoFile) (h : call.run readConfigFile options = some options') :
    OptionsInv options' ∧ Dict.ofList (entries options') = call.settings.foldl Dict.write (Dict.ofList (entries options)) := by
  cases call with
  | setOption name value type =>
    obtain ⟨i, hi, rfl⟩ := Option.map_eq_some_iff.mp h
    exact setOption_entries hinv (fun h => absurd h hfile) (Prod.ext hi rfl)
  | registerArgSet set =>
    have h : (if (sbRegisterArgSet readConfigFile set options).1 = true then none
      else some (sbRegisterArgSet readConfigFile set options).2) = some options' := h
    split at h
    · cases h
    · rename_i hfailed
      cases h
      exact registerArgs_spec (fun arg harg h => absurd h (hfile arg harg)) hinv (Prod.ext (Bool.eq_false_iff.mpr hfailed) rfl)

theorem runOptions_spec {calls : List OptionCall} (hfile : ∀ call ∈ calls, call.NoFile) :
    ∀ {options options' : List SbOption}, OptionsInv options → runOptions readConfigFile calls options = some options' →
      OptionsInv options' ∧
      Dict.ofList (entries options') = (calls.flatMap (·.settings)).foldl Dict.write (Dict.ofList (entries options)) := by
  induction calls with
  | nil =>
    intro options options' hinv h
    cases h
    exact ⟨hinv, rfl⟩
  | cons call calls ih =>
    intro options options' hinv h
    obtain ⟨options₁, hcall, hcalls⟩ := Option.bind_eq_some_iff.mp (show (call.run readConfigFile options).bind _ = some options' from h)
    obtain ⟨hinv₁, hwrite⟩ := call.run_spec hinv (hfile call (List.mem_cons_self ..)) hcall
    obtain ⟨hinv', hrest⟩ := ih (fun call' h' => hfile call' (List.mem_cons_of_mem _ h')) hinv₁ hcalls
    refine ⟨hinv', ?_⟩
    rw [hrest, hwrite, List.flatMap_cons, List.foldl_append]

/-- `find_option` finds what the name stands for. -/
theorem findOption_ofList {β : Type} (f : SbOption → β) {options : List SbOption} (hinv : OptionsInv options) (name : CString) :
    ((findOption options name).bind (options[·]?)).map f =
      Dict.ofList (options.map fun o => (o.name.chars, f o)) name.canonical := by
  cases h : findOption options name with
  | none =>
    refine (Dict.ofList_eq_none.mpr fun e he => ?_).symm
    obtain ⟨opt, hopt, rfl⟩ := List.mem_map.mp he
    exact findOption_none hinv h opt hopt
  | some i =>
    obtain ⟨A, opt, C, rfl, rfl, hname⟩ := findOption_some hinv h
    have hfound : (some A.length).bind ((A ++ opt :: C)[·]?) = some opt := getElem?_middle A C opt
    rw [hfound, ofList_replaced f hinv (Or.inl ⟨opt, rfl, rfl⟩), Dict.write, hname, Function.update_self]
    rfl

theorem findOption_entries {options : List SbOption} (hinv : OptionsInv options) (name : CString) :
    ((findOption options name).bind (options[·]?)).map SbOption.setting = Dict.ofList (entries options) name.canonical ∧
    ∀ opt ∈ (findOption options name).bind (options[·]?), opt.name.canonical = name.canonical := by
  refine ⟨findOption_ofList SbOption.setting hinv name, fun opt hopt => ?_⟩
  obtain ⟨i, hi, hopt⟩ := Option.bind_eq_some_iff.mp hopt
  obtain ⟨A, opt', C, rfl, rfl, hname⟩ := findOption_some hinv hi
  rw [getElem?_middle] at hopt
  cases hopt
  rw [← hname]
  exact (hinv.canonical opt (List.mem_append_right _ (List.mem_cons_self ..))).symm

/-- After calls that do not fail there is one option for each name that was set, under whichever spelling, and it has the
type and the values of the last call for it. -/
theorem runOptions_determined {calls : List OptionCall} {options : List SbOption} (hfile : ∀ call ∈ calls, call.NoFile)
    (hrun : runOptions readConfigFile calls [] = some options) :
    (∀ a b : CString, optNameCmp a.chars b.chars = 0 ↔ a.canonical = b.canonical) ∧
    (options.map fun opt => opt.name.canonical).Nodup ∧
    ∀ name : CString,
      ((findOption options name).bind (options[·]?)).map SbOption.setting =
        Dict.after (calls.flatMap (·.settings)) name.canonical ∧
      ∀ opt ∈ (findOption options name).bind (options[·]?), opt.name.canonical = name.canonical := by
  have hstart : OptionsInv [] := ⟨fun opt hopt => absurd hopt List.not_mem_nil, List.nodup_nil⟩
  obtain ⟨hinv, hentries⟩ := runOptions_spec hfile hstart hrun
  refine ⟨fun a b => optNameCmp_eq_zero a.noNul b.noNul, ?_, fun name => ?_⟩
  · have hsame : (options.map fun opt => opt.name.canonical) = options.map fun opt => opt.name.chars :=
      List.map_congr_left fun opt hopt => (hinv.canonical opt hopt).symm
    rw [hsame]
    exact hinv.nodup
  · obtain ⟨hfound, hname⟩ := findOption_entries hinv name
    exact ⟨hfound.trans (congrFun hentries _), hname⟩

end calls

/-- A flag that is registered, and turned off under another spelling. -/
def respelled : List OptionCall :=
  [.registerArgSet [⟨⟨['a', '-', 'b'], by decide⟩, some .strOn, .bool, none⟩],
    .setOption ⟨['a', '_', 'b'], by decide⟩ (some .strZero) .bool]

theorem runOptions_determined_respelled : ∃ options, runOptions (fun _ options => options) respelled [] = some options ∧
    ((findOption options ⟨['a', '-', 'b'], by decide⟩).bind (options[·]?)).map SbOption.setting = some (.bool, []) := by
  have hfile : ∀ call ∈ respelled, call.NoFile := by
    intro call hcall
    rcases List.mem_pair.mp hcall with rfl | rfl
    · intro arg harg
      rw [List.mem_singleton.mp harg]
      decide
    · exact SbArgType.noConfusion
  exact ⟨_, rfl, ((@runOptions_determined (fun _ options => options) respelled _ hfile rfl).2.2 _).1.trans rfl⟩

end NuKSM.Sysbench
