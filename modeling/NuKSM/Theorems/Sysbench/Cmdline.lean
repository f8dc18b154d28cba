import NuKSM.Lib.Dict
import NuKSM.Theorems.Sysbench.CmdlineRead
import NuKSM.Theorems.Sysbench.Config
import NuKSM.Theorems.Sysbench.OptionChecks

/-! # What becomes of the options of a script

A definition goes through three representations: the table of the script, the array of C and the lists of values. -/

namespace NuKSM.Sysbench
variable {tostring : ℚ → List Char} {opts : List OptionDef} {o a : OptionDef}
  {readConfigFile : Option CString → List SbOption → List SbOption}

/-! ### Values -/

/-- The strings of the default have no NUL. -/
def Default.NoNul (default : Default) : Prop := ∀ s ∈ default.strings, nul ∉ s

instance {default : Default} : Decidable default.NoNul := inferInstanceAs (Decidable (∀ s ∈ _, _))

theorem concat_noNul {items : List (List Char)} (h : ∀ item ∈ items, nul ∉ item) : nul ∉ concat items := by
  unfold concat
  induction items with
  | nil => exact List.not_mem_nil
  | cons item items ih =>
    have hitem := h item List.mem_cons_self
    have hrest := ih fun item' h' => h item' (List.mem_cons_of_mem _ h')
    cases items with
    | nil => rwa [List.intercalate_singleton]
    | cons item' items =>
      rw [List.intercalate_cons_cons, List.mem_append, List.mem_append]
      rintro ((hnul | hnul) | hnul)
      · exact hitem hnul
      · exact absurd (List.mem_singleton.mp hnul) (by decide)
      · exact hrest hnul

/-- An option with a valid definition gets the values that its default says. -/
theorem settingValues_testArg (ho : o.Valid) (hnul : o.default.NoNul) :
    settingValues o.argType o.default.value = o.values := by
  obtain ⟨name, desc, default, type, validate⟩ := o
  cases default with
  | nil =>
    cases type with
    | none => rfl
    | some type => cases type <;> rfl
  | boolean b =>
    obtain rfl | rfl : type = none ∨ type = some .bool := by
      cases type with
      | none => exact Or.inl rfl
      | some type => exact Or.inr (congrArg some (ho.type type rfl))
    · cases b <;> rfl
    · cases b <;> rfl
  | string s =>
    have hs : (CString.ofMemory s).chars = s := ofMemory_of_noNul (hnul s List.mem_cons_self)
    have hne : ¬isEmpty (some (CString.ofMemory s)) := fun h => ho.string s rfl (hs ▸ h _ rfl)
    have htext : (if isEmpty (some (CString.ofMemory s)) then [] else ((some (CString.ofMemory s)).map (·.chars)).toList) = [s] := by
      rw [if_neg hne, Option.map_some, hs]
      rfl
    cases type with
    | none => exact htext
    | some type =>
      rcases ho.type type rfl with rfl | rfl | rfl | rfl
      all_goals exact htext
  | list items =>
    have hitems := ho.list items rfl
    have hchars : (CString.ofMemory (concat items)).chars = concat items := ofMemory_of_noNul (concat_noNul hnul)
    have hvalues : ((CString.ofMemory (concat items)).chars.splitOn ',').filter (· ≠ []) = items := by
      rw [hchars]
      by_cases hempty : items = []
      · subst hempty
        rfl
      · rw [concat, List.splitOn_intercalate ',' (fun item h => (hitems item h).2) hempty]
        exact List.filter_eq_self.mpr fun item h => by simpa using (hitems item h).1
    cases type with
    | none => exact hvalues
    | some type =>
      obtain rfl : type = .list := ho.type type rfl
      exact hvalues

/-- The values of C strings say what a default says only if the default has no NUL. -/
theorem noNul_of_means {default : Default} {values : List (List Char)} (hvalues : ∀ v ∈ values, nul ∉ v)
    (h : default.Means values) : default.NoNul := by
  cases default with
  | nil => exact fun s hs => absurd hs List.not_mem_nil
  | boolean b => exact fun s hs => absurd hs List.not_mem_nil
  | string s =>
    obtain rfl : values = [s] := h
    exact hvalues
  | list items =>
    obtain rfl : values = items := h
    exact hvalues

theorem validFor_testArg (ho : o.Valid) :
    ValidFor o.argType o.default.value ∧ (o.argType = .file → isEmpty o.default.value) := by
  obtain ⟨name, desc, default, type, validate⟩ := o
  cases default with
  | nil =>
    have hempty : isEmpty none := fun v hv => by cases hv
    refine ⟨?_, fun _ => hempty⟩
    by_cases htype : type.getD .string = .bool
    · exact Or.inr (Or.inr (by rw [OptionDef.argType, Default.type, htype]; rfl))
    · exact Or.inl ⟨htype, hempty⟩
  | boolean b =>
    obtain rfl | rfl : type = none ∨ type = some .bool := by
      cases type with
      | none => exact Or.inl rfl
      | some type => exact Or.inr (congrArg some (ho.type type rfl))
    · exact ⟨Or.inr (Or.inr (by cases b <;> rfl)), fun h => by cases h⟩
    · exact ⟨Or.inr (Or.inr (by cases b <;> rfl)), fun h => by cases h⟩
  | string s =>
    cases type with
    | none => exact ⟨Or.inr (Or.inr rfl), fun h => by cases h⟩
    | some type =>
      rcases ho.type type rfl with rfl | rfl | rfl | rfl
      all_goals exact ⟨Or.inr (Or.inr rfl), fun h => by cases h⟩
  | list items =>
    cases type with
    | none => exact ⟨Or.inr (Or.inr rfl), fun h => by cases h⟩
    | some type =>
      obtain rfl : type = .list := ho.type type rfl
      exact ⟨Or.inr (Or.inr rfl), fun h => by cases h⟩

/-! ### The options that are read -/

theorem mem_asRead : o ∈ asRead opts ↔ ∃ a ∈ opts, a.hidden (optionNames opts) = o := by
  rw [asRead, List.mem_map]
  exact exists_congr fun a => and_congr_left fun _ => perm_sortedOptions.mem_iff

theorem mem_names {name : List Char} : name ∈ optionNames opts ↔ name ∈ opts.map (·.name) :=
  (perm_sortedOptions.map _).mem_iff

/-- What hides an option is a valid definition. -/
theorem valid_asRead (hnodup : (opts.map (·.name)).Nodup) (hvalid : ∀ o ∈ opts, o.Valid) (ho : o ∈ asRead opts) :
    o.Valid := by
  obtain ⟨a, ha, rfl⟩ := mem_asRead.mp ho
  unfold OptionDef.hidden
  split
  case isFalse => exact hvalid a ha
  case isTrue =>
    have hsorted := optionNames_sorted hnodup
    generalize optionNames opts = names at hsorted
    rcases names with _ | ⟨first, _ | ⟨second, names⟩⟩
    · exact ⟨fun s h => by simp at h, fun items h => by simp at h, fun type h => by cases h⟩
    · exact ⟨fun s h => by simp at h, fun items h => by simp at h, fun type h => by cases h⟩
    · refine ⟨fun s h => ?_, fun items h => by simp at h, fun type h => by cases h⟩
      obtain rfl : second = s := by simpa using h
      have hlt := (List.pairwise_cons.mp hsorted).1 second List.mem_cons_self
      rintro rfl
      exact absurd hlt (List.not_lt_nil first)

theorem noNul_asRead (hnul : ∀ o ∈ opts, nul ∉ o.name ∧ o.default.NoNul) (ho : o ∈ asRead opts) :
    nul ∉ o.name ∧ o.default.NoNul := by
  obtain ⟨a, ha, rfl⟩ := mem_asRead.mp ho
  refine ⟨name_hidden a ▸ (hnul a ha).1, ?_⟩
  unfold OptionDef.hidden
  split
  case isFalse => exact (hnul a ha).2
  case isTrue =>
    cases hsecond : (optionNames opts)[1]? with
    | none => exact fun s hs => absurd hs List.not_mem_nil
    | some second =>
      obtain ⟨b, hb, rfl⟩ := List.mem_map.mp (mem_names.mp (List.mem_of_getElem? hsecond))
      exact fun s hs => List.mem_singleton.mp hs ▸ (hnul b hb).1

/-- The names are handed over as they are exactly when they have no NUL. -/
theorem names_testArg_iff (hnodup : (opts.map (·.name)).Nodup) :
    ((((asRead opts).map (·.testArg)).map (·.name.chars)).Perm (opts.map (·.name)) ∧
        (((asRead opts).map (·.testArg)).map (·.name.chars)).Pairwise (· < ·)) ↔
      ∀ o ∈ opts, nul ∉ o.name := by
  have hchars : ((asRead opts).map (·.testArg)).map (·.name.chars) =
      (optionNames opts).map fun name => (CString.ofMemory name).chars := by
    rw [← names_asRead, List.map_map, List.map_map]
    rfl
  rw [hchars]
  constructor
  · rintro ⟨hperm, -⟩ o ho
    obtain ⟨name, -, hname⟩ := List.mem_map.mp (hperm.mem_iff.mpr (List.mem_map_of_mem ho))
    exact hname ▸ (CString.ofMemory name).noNul
  · intro hnul
    have hsame : (optionNames opts).map (fun name => (CString.ofMemory name).chars) = optionNames opts := by
      refine (List.map_congr_left fun name hname => ?_).trans (List.map_id _)
      obtain ⟨o, ho, rfl⟩ := List.mem_map.mp (mem_names.mp hname)
      exact ofMemory_of_noNul (hnul o ho)
    rw [hsame]
    exact ⟨perm_sortedOptions.map _, optionNames_sorted hnodup⟩

/-! ### Registration -/

/-- Two names stand for the same option. -/
def Alike (a o : OptionDef) : Prop := a.name.map convertDash = o.name.map convertDash

theorem alike_iff (ha : nul ∉ a.name) (ho : nul ∉ o.name) :
    (CString.ofMemory a.name).canonical = (CString.ofMemory o.name).canonical ↔ Alike a o := by
  rw [CString.canonical, CString.canonical, ofMemory_of_noNul ha, ofMemory_of_noNul ho, Alike]

/-- Each default is accepted by the validation function that the option has when it is registered: that of the first
option once the set has registered the name, and until then the one that it had before. -/
structure DefaultsAccepted (registry : List SbOption) (read : List OptionDef) : Prop where
  again : ∀ A o C, read = A ++ o :: C → (∃ a ∈ A, Alike a o) →
    accepts (read.head?.bind (·.validate)) (.ofMemory o.name) o.default.value = true
  fresh : ∀ A o C, read = A ++ o :: C → (∀ a ∈ A, ¬Alike a o) →
    checkOption registry (.ofMemory o.name) o.default.value = true

section register
variable {registry options' : List SbOption} {read A C : List OptionDef}

theorem register_iff (hinv : OptionsInv registry) (hvalid : ∀ o ∈ read, o.Valid) (hnul : ∀ o ∈ read, nul ∉ o.name) :
    (∃ options', sbRegisterArgSet readConfigFile (read.map (·.testArg.toSbArg)) registry = (false, options')) ↔
      DefaultsAccepted registry read := by
  have hargs : ∀ arg ∈ read.map (·.testArg.toSbArg), ValidFor arg.type arg.value ∧ (arg.type = .file → isEmpty arg.value) := by
    intro arg harg
    obtain ⟨o, ho, rfl⟩ := List.mem_map.mp harg
    exact validFor_testArg (hvalid o ho)
  have hfirst : (read.map (·.testArg.toSbArg)).head?.bind (·.validate) = read.head?.bind (·.validate) := by
    cases read <;> rfl
  have hsame : ∀ {a o}, a ∈ read → o ∈ read →
      (a.testArg.name.canonical = o.testArg.name.canonical ↔ Alike a o) :=
    fun ha ho => alike_iff (hnul _ ha) (hnul _ ho)
  rw [sbRegisterArgSet, hfirst]
  refine (registerArgs_iff hargs hinv).trans (allAccepted_iff.trans ⟨fun hall => ?_, fun hall A' arg C' hsplit => ?_⟩)
  · have hplace : ∀ A o C, read = A ++ o :: C → read.map (·.testArg.toSbArg) =
        A.map (·.testArg.toSbArg) ++ o.testArg.toSbArg :: C.map (·.testArg.toSbArg) := by
      rintro A o C rfl
      rw [List.map_append, List.map_cons]
    constructor
    · rintro A o C hread ⟨a, ha, halike⟩
      refine (hall _ _ _ (hplace A o C hread)).1 ⟨_, List.mem_map_of_mem ha, ?_⟩
      exact (hsame (by rw [hread]; exact List.mem_append_left _ ha) (by rw [hread]; simp)).mpr halike
    · intro A o C hread hno
      rw [checkOption_eq hinv]
      refine (hall _ _ _ (hplace A o C hread)).2 fun arg harg => ?_
      obtain ⟨a, ha, rfl⟩ := List.mem_map.mp harg
      refine fun heq => hno a ha ?_
      exact (hsame (by rw [hread]; exact List.mem_append_left _ ha) (by rw [hread]; simp)).mp heq
  · obtain ⟨A, rest, hread, rfl, hrest⟩ := List.map_eq_append_iff.mp hsplit
    obtain ⟨o, C, rfl, rfl, rfl⟩ := List.map_eq_cons_iff.mp hrest
    have hmem : ∀ a ∈ A, a ∈ read := fun a ha => by rw [hread]; exact List.mem_append_left _ ha
    have ho : o ∈ read := by rw [hread]; simp
    constructor
    · rintro ⟨arg, harg, heq⟩
      obtain ⟨a, ha, rfl⟩ := List.mem_map.mp harg
      exact hall.again A o C hread ⟨a, ha, (hsame (hmem a ha) ho).mp heq⟩
    · intro hno
      rw [← checkOption_eq hinv]
      exact hall.fresh A o C hread fun a ha halike =>
        hno _ (List.mem_map_of_mem ha) ((hsame (hmem a ha) ho).mpr halike)

/-- The setting of an option is that of the last definition for it. -/
theorem register_setting (hinv : OptionsInv registry) (hvalid : ∀ o ∈ read, o.Valid)
    (h : sbRegisterArgSet readConfigFile (read.map (·.testArg.toSbArg)) registry = (false, options'))
    (hread : read = A ++ o :: C) {name : CString} (hname : name.canonical = (CString.ofMemory o.name).canonical)
    (hlast : ∀ c ∈ C, (CString.ofMemory c.name).canonical ≠ name.canonical) :
    ((findOption options' name).bind (options'[·]?)).map SbOption.setting =
      some (o.argType, settingValues o.argType o.default.value) := by
  have htypes : ∀ arg ∈ read.map (·.testArg.toSbArg), arg.type = .file → isEmpty arg.value := by
    intro arg harg
    obtain ⟨o, ho, rfl⟩ := List.mem_map.mp harg
    exact (validFor_testArg (hvalid o ho)).2
  obtain ⟨hinv', hentries⟩ := registerArgs_spec htypes hinv h
  have hsettings : (OptionCall.registerArgSet (read.map (·.testArg.toSbArg))).settings =
      A.map (fun o => ((CString.ofMemory o.name).canonical, some (o.argType, settingValues o.argType o.default.value))) ++
        (name.canonical, some (o.argType, settingValues o.argType o.default.value)) ::
        C.map fun o => ((CString.ofMemory o.name).canonical, some (o.argType, settingValues o.argType o.default.value)) := by
    rw [OptionCall.settings, List.map_map, hread, List.map_append, List.map_cons, hname]
    rfl
  rw [(findOption_entries hinv' name).1, hentries, hsettings]
  refine Dict.foldl_write_last fun w hw => ?_
  obtain ⟨c, hc, rfl⟩ := List.mem_map.mp hw
  exact hlast c hc

/-- An option that is registered has the values of the last definition for it. -/
theorem values_registered (hinv : OptionsInv registry) (hvalid : ∀ o ∈ read, o.Valid)
    (hnul : ∀ o ∈ read, nul ∉ o.name ∧ o.default.NoNul)
    (h : sbRegisterArgSet readConfigFile (read.map (·.testArg.toSbArg)) registry = (false, options'))
    (hread : read = A ++ o :: C) (ha : nul ∉ a.name) (halike : Alike o a) (hlast : ∀ c ∈ C, ¬Alike c a) :
    ∃ opt, (findOption options' (.ofMemory a.name)).bind (options'[·]?) = some opt ∧
      opt.values.map (·.chars) = o.values := by
  have ho : o ∈ read := by rw [hread]; simp
  have hC : ∀ c ∈ C, c ∈ read := fun c hc => by rw [hread]; simp [hc]
  have hsetting := register_setting hinv hvalid h hread ((alike_iff (hnul o ho).1 ha).mpr halike).symm fun c hc heq =>
    hlast c hc ((alike_iff (hnul c (hC c hc)).1 ha).mp heq)
  obtain ⟨opt, hopt, hsetting⟩ := Option.map_eq_some_iff.mp hsetting
  refine ⟨opt, hopt, ?_⟩
  rw [← settingValues_testArg (hvalid o ho) (hnul o ho).2]
  exact congrArg Prod.snd hsetting

end register

/-! ### From the table to the values -/

/-- `read_cmdline_options` succeeds, hands over each option once and in the order of the names, and the options that are
registered have their defaults as values. -/
def Loads (tostring : ℚ → List Char) (readConfigFile : Option CString → List SbOption → List SbOption)
    (registry : List SbOption) (opts : List OptionDef) : Prop :=
  ∃ passes args options',
    readCmdlineOptions tostring passes (.table (luaTable opts)) = some (.ok (true, some args)) ∧
    (args.map (·.name.chars)).Perm (opts.map (·.name)) ∧ (args.map (·.name.chars)).Pairwise (· < ·) ∧
    sbRegisterArgSet readConfigFile (args.map (·.toSbArg)) registry = (false, options') ∧
    ∀ o ∈ opts, ∃ opt, (findOption options' (.ofMemory o.name)).bind (options'[·]?) = some opt ∧
      o.default.Means (opt.values.map (·.chars))

structure Loadable (registry : List SbOption) (opts : List OptionDef) : Prop where
  readable : ∀ o ∈ opts, Readable opts o
  noNul : ∀ o ∈ opts, nul ∉ o.name ∧ o.default.NoNul
  accepted : DefaultsAccepted registry (asRead opts)
  /-- Of definitions for one option the last one says what each of them says. -/
  agree : ∀ o ∈ opts, ∀ A o' C, asRead opts = A ++ o' :: C → Alike o' o → (∀ c ∈ C, ¬Alike c o) →
    o.default.Means o'.values

theorem exists_last {α : Type} {P : α → Prop} {l : List α} (h : ∃ x ∈ l, P x) :
    ∃ A x C, l = A ++ x :: C ∧ P x ∧ ∀ c ∈ C, ¬P c := by
  induction l with
  | nil => simp at h
  | cons y l ih =>
    by_cases hl : ∃ x ∈ l, P x
    · obtain ⟨A, x, C, rfl, hx, hC⟩ := ih hl
      exact ⟨y :: A, x, C, rfl, hx, hC⟩
    · have hy : P y := (List.exists_mem_cons_iff _ _ _).mp h |>.resolve_right hl
      exact ⟨[], y, l, rfl, hy, fun c hc hPc => hl ⟨c, hc, hPc⟩⟩

/-- The options of a script get their defaults as values exactly when they are like this. -/
theorem loads_iff {registry : List SbOption} (hinv : OptionsInv registry) (hnodup : (opts.map (·.name)).Nodup)
    (hvalid : ∀ o ∈ opts, o.Valid) : Loads tostring readConfigFile registry opts ↔ Loadable registry opts := by
  have hread : ∀ o ∈ asRead opts, o.Valid := fun o ho => valid_asRead hnodup hvalid ho
  have hset : ((asRead opts).map (·.testArg)).map (·.toSbArg) = (asRead opts).map (·.testArg.toSbArg) := by
    rw [List.map_map]
    rfl
  constructor
  · rintro ⟨passes, args, options', hpasses, hperm, hsorted, hregister, hvalues⟩
    obtain ⟨hreadable, rfl⟩ := (readCmdlineOptions_iff hnodup).mp ⟨passes, hpasses⟩
    have hnames := (names_testArg_iff hnodup).mp ⟨hperm, hsorted⟩
    have hnul : ∀ o ∈ opts, nul ∉ o.name ∧ o.default.NoNul := by
      intro o ho
      obtain ⟨opt, -, hmeans⟩ := hvalues o ho
      refine ⟨hnames o ho, noNul_of_means (fun v hv => ?_) hmeans⟩
      obtain ⟨value, -, rfl⟩ := List.mem_map.mp hv
      exact value.noNul
    rw [hset] at hregister
    refine ⟨hreadable, hnul, ?_, fun o ho A o' C hsplit halike hlast => ?_⟩
    · exact (register_iff hinv hread fun o ho => (noNul_asRead hnul ho).1).mp ⟨options', hregister⟩
    · obtain ⟨opt, hopt, hmeans⟩ := hvalues o ho
      obtain ⟨opt', hopt', heq⟩ :=
        values_registered hinv hread (fun o ho => noNul_asRead hnul ho) hregister hsplit (hnames o ho) halike hlast
      obtain rfl : opt = opt' := Option.some.inj (hopt.symm.trans hopt')
      exact heq ▸ hmeans
  · rintro ⟨hreadable, hnul, haccepted, hagree⟩
    obtain ⟨passes, hpasses⟩ : ∃ passes, readCmdlineOptions tostring passes (.table (luaTable opts)) =
        some (.ok (true, some ((asRead opts).map (·.testArg)))) := (readCmdlineOptions_iff hnodup).mpr ⟨hreadable, rfl⟩
    obtain ⟨hperm, hsorted⟩ := (names_testArg_iff hnodup).mpr fun o ho => (hnul o ho).1
    obtain ⟨options', hregister⟩ : ∃ options',
        sbRegisterArgSet readConfigFile ((asRead opts).map (·.testArg.toSbArg)) registry = (false, options') :=
      (register_iff hinv hread fun o ho => (noNul_asRead hnul ho).1).mpr haccepted
    refine ⟨passes, _, options', hpasses, hperm, hsorted, by rw [hset]; exact hregister, fun o ho => ?_⟩
    have hsome : ∃ o' ∈ asRead opts, Alike o' o :=
      ⟨o.hidden (optionNames opts), mem_asRead.mpr ⟨o, ho, rfl⟩, by rw [Alike, name_hidden]⟩
    obtain ⟨A, o', C, hsplit, halike, hlast⟩ := exists_last hsome
    obtain ⟨opt, hopt, heq⟩ :=
      values_registered hinv hread (fun o ho => noNul_asRead hnul ho) hregister hsplit (hnul o ho).1 halike hlast
    exact ⟨opt, hopt, heq ▸ hagree o ho A o' C hsplit halike hlast⟩

/-- A list, and a flag that comes before it in the order of the names. -/
def listAndFlag : List OptionDef :=
  [⟨"list-opt".toList, "a list".toList, .list ["foo".toList, "bar".toList], none, none⟩,
    ⟨"bool_opt".toList, "a flag".toList, .boolean true, some .bool, none⟩]

theorem loads_iff_listAndFlag : Loads (fun _ => []) (fun _ options => options) [] listAndFlag := by
  refine (loads_iff ⟨fun opt h => absurd h List.not_mem_nil, List.nodup_nil⟩ (by decide) ?_).mpr ⟨?_, ?_, ⟨?_, ?_⟩, ?_⟩
  · intro o ho
    rcases List.mem_pair.mp ho with rfl | rfl
    · exact ⟨fun s h => (by cases h), fun items h => (by cases h; decide), fun type h => (by cases h)⟩
    · exact ⟨fun s h => (by cases h), fun items h => (by cases h), fun type h => (by cases h; rfl)⟩
  · intro o ho
    rcases List.mem_pair.mp ho with rfl | rfl
    · exact fun h => h.1 rfl
    · rintro ⟨-, items, h⟩
      cases h
  · intro o ho
    rcases List.mem_pair.mp ho with rfl | rfl
    · exact ⟨by decide, by decide⟩
    · exact ⟨by decide, by decide⟩
  · exact fun A o C _ _ => rfl
  · exact fun A o C _ _ => rfl
  · intro o ho A o' C hsplit halike _
    have ho' : o' ∈ asRead listAndFlag := by rw [hsplit]; simp
    rcases List.mem_pair.mp ho with rfl | rfl <;> rcases List.mem_pair.mp ho' with rfl | rfl
    · exact absurd halike (by unfold Alike; decide)
    · rfl
    · rfl
    · exact absurd halike (by unfold Alike; decide)

def declaredList : OptionDef := ⟨"list-opt".toList, "a list".toList, .list ["foo".toList, "bar".toList], some .list, none⟩

/-- Its definition is valid, and the type of its type is compared with `ARG_LIST`. -/
theorem not_loads_declaredList : declaredList.Valid ∧
    readOption (fun _ => []) declaredList.name (some declaredList.slots) =
      .error (.assertion "wrong type for list option list-opt".toList) ∧
    ¬Loads (fun _ => []) (fun _ options => options) [] [declaredList] := by
  refine ⟨⟨fun s h => (by cases h), fun items h => (by cases h; decide), fun type h => (by cases h; rfl)⟩, rfl, ?_⟩
  rintro ⟨passes, args, options', hread, -⟩
  have hreadable := ((readCmdlineOptions_iff (by decide)).mp ⟨passes, hread⟩).1 declaredList List.mem_cons_self
  exact hreadable ⟨Option.some_ne_none _, _, rfl⟩

end NuKSM.Sysbench
