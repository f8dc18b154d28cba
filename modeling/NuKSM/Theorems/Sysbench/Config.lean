import NuKSM.Sysbench.Config
import NuKSM.Theorems.Sysbench.Options

/-! # Configuration files

What is read back of the options that have been written. -/

namespace NuKSM.Sysbench

/-- An option that the format of the file can hold. -/
structure Writable (opt : SbOption) : Prop where
  name_ne : opt.name.chars ≠ []
  name : ∀ c ∈ opt.name.chars, c ≠ valueDelimiter ∧ isSpace c = false ∧ c ≠ '-'
  value_ne : ∀ v ∈ opt.values, v.chars ≠ []
  value : ∀ v ∈ opt.values, ∀ c ∈ v.chars, isSpace c = false ∧ c ≠ valueSeparator ∧ c ≠ '\'' ∧ c ≠ '"' ∧ c ≠ commentChar
  short : (configLine opt).length < maxStrLen - 1

/-- What is written is read back, with the same names and values. -/
def RoundTrips (options : List (SbOption × Bool)) : Prop :=
  (readConfig (writeConfig options).1 []).1 = true ∧
    (readConfig (writeConfig options).1 []).2.map (fun opt => (opt.name, opt.values)) =
      options.map fun opt => (opt.1.name, opt.1.values)

/-! ### Values -/

theorem ofMemory_of_noNul {s : List Char} (h : nul ∉ s) : (CString.ofMemory s).chars = s :=
  List.takeWhile_eq_self_iff.mpr fun _ hc => decide_eq_true fun heq => h (heq ▸ hc)

theorem ofMemory_chars (s : CString) : CString.ofMemory s.chars = s := by
  cases s
  exact CString.mk.injEq .. ▸ ofMemory_of_noNul ‹_›

theorem readValues_space {c : Char} {s : List Char} (h : isSpace c = true) : readValues (c :: s) = readValues s := by
  rw [readValues, if_pos h]

/-- A value is read up to the character that ends it. -/
theorem readValues_value {v : CString} (hne : v.chars ≠ [])
    (h : ∀ c ∈ v.chars, isSpace c = false ∧ c ≠ valueSeparator ∧ c ≠ '\'' ∧ c ≠ '"' ∧ c ≠ commentChar) {d : Char} (hd : endsValue d = true)
    (s : List Char) : readValues (v.chars ++ d :: s) = (v :: (readValues s).1, (readValues s).2) := by
  have hends : ∀ c ∈ v.chars, (!endsValue c) = true := fun c hc => by
    simp [endsValue, (h c hc).1, (h c hc).2.1]
  have htake : (v.chars ++ d :: s).takeWhile (fun d => !endsValue d) = v.chars := by
    rw [List.takeWhile_append_of_pos hends, List.takeWhile_cons_of_neg (by simp [hd]), List.append_nil]
  have hdrop : (v.chars ++ d :: s).dropWhile (fun d => !endsValue d) = d :: s := by
    rw [List.dropWhile_append_of_pos hends, List.dropWhile_cons_of_neg (by simp [hd])]
  obtain ⟨c, t, hv⟩ := List.exists_cons_of_ne_nil hne
  obtain ⟨hspace, -, hquote, hdouble, hcomment⟩ := h c (hv ▸ List.mem_cons_self)
  have hread : readValues ((c :: t) ++ d :: s) =
      (.ofMemory (((c :: t) ++ d :: s).takeWhile fun d => !endsValue d) ::
        (readValues (((c :: t) ++ d :: s).dropWhile fun d => !endsValue d).tail).1,
        (readValues (((c :: t) ++ d :: s).dropWhile fun d => !endsValue d).tail).2) := by
    rw [List.cons_append, readValues, if_neg (by rw [hspace]; decide), if_neg hcomment, if_neg (by simp [hquote, hdouble])]
  rw [← hv, htake, hdrop, ofMemory_chars] at hread
  exact hread

/-- The values of a line are read as they were written. -/
theorem readValues_values {values : List CString} (hne : ∀ v ∈ values, v.chars ≠ [])
    (h : ∀ v ∈ values, ∀ c ∈ v.chars, isSpace c = false ∧ c ≠ valueSeparator ∧ c ≠ '\'' ∧ c ≠ '"' ∧ c ≠ commentChar) :
    readValues (List.intercalate [valueSeparator, ' '] (values.map (·.chars)) ++ ['\n']) = (values, true) := by
  induction values with
  | nil =>
    rw [List.map_nil, List.intercalate_nil, List.nil_append, readValues_space rfl, readValues]
  | cons v values ih =>
    have hv := fun d (hd : endsValue d = true) s =>
      readValues_value (hne v List.mem_cons_self) (h v List.mem_cons_self) hd s
    cases values with
    | nil =>
      have htext : List.intercalate [valueSeparator, ' '] ([v].map (·.chars)) ++ ['\n'] = v.chars ++ '\n' :: [] := by
        simp [List.intercalate]
      rw [htext, hv _ rfl, readValues]
    | cons w values =>
      have htext : List.intercalate [valueSeparator, ' '] ((v :: w :: values).map (·.chars)) ++ ['\n'] = v.chars ++ valueSeparator ::
          (' ' :: (List.intercalate [valueSeparator, ' '] ((w :: values).map (·.chars)) ++ ['\n'])) := by
        simp [List.intercalate]
      rw [htext, hv _ rfl, readValues_space rfl,
        ih (fun u hu => hne u (List.mem_cons_of_mem _ hu)) fun u hu => h u (List.mem_cons_of_mem _ hu)]

/-! ### Lines -/

theorem fgets_line {l : List Char} (hl : '\n' ∉ l) {n : ℕ} (hn : l.length < n) (rest : List Char) :
    fgets n (l ++ '\n' :: rest) = (l ++ ['\n'], rest) := by
  induction l generalizing n with
  | nil =>
    obtain ⟨n, rfl⟩ := Nat.exists_eq_succ_of_ne_zero (Nat.ne_zero_of_lt hn)
    rfl
  | cons c l ih =>
    obtain ⟨n, rfl⟩ := Nat.exists_eq_succ_of_ne_zero (Nat.ne_zero_of_lt hn)
    have hc : c ≠ '\n' := fun heq => hl (heq ▸ List.mem_cons_self)
    rw [List.cons_append, fgets, if_neg hc, ih (fun h => hl (List.mem_cons_of_mem _ h)) (Nat.lt_of_succ_lt_succ hn)]
    rfl

/-- The name as it is read, with the blank before the delimiter. -/
def blankName (name : CString) : CString := ⟨name.chars ++ [' '], by
  simp [name.noNul]
  decide⟩

/-- An option as it is read. -/
def readBack (opt : SbOption) : SbOption := ⟨blankName opt.name, .null, opt.values, none⟩

/-- A line is read, and then the rest of the file. -/
theorem readConfig_line {l : List Char} (hl : '\n' ∉ l) (hn : l.length < maxStrLen - 1) (rest : List Char)
    (options : List SbOption) : readConfig (l ++ '\n' :: rest) options =
      if (readLine (l ++ ['\n']) options).1 then readConfig rest (readLine (l ++ ['\n']) options).2
      else (false, (readLine (l ++ ['\n']) options).2) := by
  obtain ⟨c, text, heq⟩ : ∃ c text, l ++ '\n' :: rest = c :: text := List.exists_cons_of_ne_nil (by simp)
  rw [heq, readConfig, ← heq, fgets_line hl hn]

theorem mem_intercalate {sep : List Char} {texts : List (List Char)} {c : Char} (hc : c ∈ List.intercalate sep texts) :
    c ∈ sep ∨ ∃ text ∈ texts, c ∈ text := by
  induction texts with
  | nil => cases hc
  | cons text texts ih =>
    cases texts with
    | nil => exact .inr ⟨text, List.mem_cons_self, by simpa [List.intercalate] using hc⟩
    | cons text' texts =>
      have hsplit : c ∈ text ∨ c ∈ sep ∨ c ∈ List.intercalate sep (text' :: texts) := by
        simpa [List.intercalate] using hc
      rcases hsplit with hc | hc | hc
      · exact .inr ⟨text, List.mem_cons_self, hc⟩
      · exact .inl hc
      · rcases ih hc with hc | ⟨u, hu, hc⟩
        · exact .inl hc
        · exact .inr ⟨u, List.mem_cons_of_mem _ hu, hc⟩

section line
variable {opt : SbOption}

/-- The line of an option before its end. -/
def lineText (opt : SbOption) : List Char :=
  opt.name.chars ++ ' ' :: valueDelimiter :: ' ' :: List.intercalate [valueSeparator, ' '] (opt.values.map (·.chars))

theorem configLine_eq (opt : SbOption) : configLine opt = lineText opt ++ ['\n'] := by
  simp [configLine, lineText]

theorem newline_of_not_space {c : Char} (h : isSpace c = false) : c ≠ '\n' := by
  rintro rfl
  exact absurd h (by decide)

theorem Writable.mem_lineText (h : Writable opt) {c : Char} (hc : c ∈ lineText opt) : c ≠ '\n' ∧ c ≠ nul := by
  rcases List.mem_append.mp hc with hc | hc
  · exact ⟨newline_of_not_space (h.name c hc).2.1, fun heq => opt.name.noNul (heq ▸ hc)⟩
  simp only [List.mem_cons] at hc
  rcases hc with rfl | rfl | rfl | hc
  · decide
  · decide
  · decide
  rcases mem_intercalate hc with hc | ⟨text, htext, hc⟩
  · simp only [List.mem_cons, List.not_mem_nil, or_false] at hc
    rcases hc with rfl | rfl <;> decide
  · obtain ⟨v, hv, rfl⟩ := List.mem_map.mp htext
    exact ⟨newline_of_not_space (h.value v hv c hc).1, fun heq => v.noNul (heq ▸ hc)⟩

/-- A written line adds its option, with a blank behind the name, or sets the values of one of that name. -/
theorem readLine_configLine (h : Writable opt) (options : List SbOption) : readLine (configLine opt) options =
    (true, (addOption options (blankName opt.name)).2.modify (addOption options (blankName opt.name)).1
      fun o => { o with values := opt.values }) := by
  have hnul : nul ∉ configLine opt := by
    rw [configLine_eq]
    intro hmem
    rcases List.mem_append.mp hmem with hmem | hmem
    · exact (h.mem_lineText hmem).2 rfl
    · exact absurd (List.mem_singleton.mp hmem) (by decide)
  have hname : ∀ c ∈ opt.name.chars ++ [' '], decide (c ≠ valueDelimiter) = true := fun c hc => by
    rcases List.mem_append.mp hc with hc | hc
    · exact decide_eq_true (h.name c hc).1
    · obtain rfl := List.mem_singleton.mp hc
      rfl
  have hsplit : configLine opt = (opt.name.chars ++ [' ']) ++ valueDelimiter ::
      (' ' :: (List.intercalate [valueSeparator, ' '] (opt.values.map (·.chars)) ++ ['\n'])) := by
    simp [configLine]
  have htake : (configLine opt).takeWhile (· ≠ valueDelimiter) = (blankName opt.name).chars := by
    rw [hsplit, List.takeWhile_append_of_pos hname, List.takeWhile_cons_of_neg (by simp), List.append_nil]
    rfl
  have hdrop : ((configLine opt).dropWhile (· ≠ valueDelimiter)).tail =
      ' ' :: (List.intercalate [valueSeparator, ' '] (opt.values.map (·.chars)) ++ ['\n']) := by
    rw [hsplit, List.dropWhile_append_of_pos hname, List.dropWhile_cons_of_neg (by simp), List.tail_cons]
  unfold readLine
  dsimp only
  rw [ofMemory_of_noNul hnul, if_pos (by rw [hsplit]; simp), htake, hdrop, ofMemory_chars, readValues_space rfl,
    readValues_values h.value_ne h.value]

/-- The options after a written line. -/
def afterLine (opt : SbOption) (options : List SbOption) : List SbOption :=
  (addOption options (blankName opt.name)).2.modify (addOption options (blankName opt.name)).1
    fun o => { o with values := opt.values }

theorem readConfig_configLine (h : Writable opt) (rest : List Char) (options : List SbOption) :
    readConfig (configLine opt ++ rest) options = readConfig rest (afterLine opt options) := by
  have hl : '\n' ∉ lineText opt := fun hmem => (h.mem_lineText hmem).1 rfl
  have hn : (lineText opt).length < maxStrLen - 1 := by
    have hshort := h.short
    rw [configLine_eq, List.length_append] at hshort
    exact Nat.lt_of_le_of_lt (Nat.le_add_right _ _) hshort
  rw [configLine_eq, List.append_assoc, List.singleton_append, readConfig_line hl hn, ← configLine_eq, readLine_configLine h, if_pos rfl]
  rfl

end line

/-! ### Files -/

theorem convertDashes_blankName {opt : SbOption} (h : Writable opt) : convertDashes (blankName opt.name) = blankName opt.name := by
  have hdash : ∀ c ∈ (blankName opt.name).chars, convertDash c = c := fun c hc => by
    rcases List.mem_append.mp hc with hc | hc
    · exact if_neg (h.name c hc).2.2
    · obtain rfl := List.mem_singleton.mp hc
      rfl
  have hmap := List.map_congr_left hdash
  rw [List.map_id'] at hmap
  exact CString.mk.injEq .. ▸ hmap

/-- A new name is added at the end. -/
theorem afterLine_new {opt : SbOption} (h : Writable opt) {options : List SbOption} (hinv : OptionsInv options)
    (hnew : ∀ o ∈ options, o.name.chars ≠ (blankName opt.name).chars) : afterLine opt options = options ++ [readBack opt] := by
  have hnone : findOption options (blankName opt.name) = none := by
    cases hfind : findOption options (blankName opt.name) with
    | none => rfl
    | some i =>
      obtain ⟨A, o, C, rfl, -, hname⟩ := findOption_some hinv hfind
      have hcanonical := congrArg CString.chars (convertDashes_blankName h)
      exact absurd (hname.trans hcanonical) (hnew o (by simp))
  unfold afterLine addOption
  rw [hnone, convertDashes_blankName h]
  exact modify_middle options [] _ _

theorem OptionsInv.left {A C : List SbOption} (h : OptionsInv (A ++ C)) : OptionsInv A where
  canonical opt hopt := h.canonical opt (List.mem_append_left _ hopt)
  nodup := by
    have hnodup := h.nodup
    rw [List.map_append] at hnodup
    exact hnodup.of_append_left

/-- Options with different names are read back in their order, with a blank behind each name. -/
theorem readConfig_options {written options : List SbOption} (h : ∀ opt ∈ written, Writable opt)
    (hinv : OptionsInv (options ++ written.map readBack)) :
    readConfig (written.flatMap configLine) options = (true, options ++ written.map readBack) := by
  induction written generalizing options with
  | nil => rw [List.flatMap_nil, readConfig, List.map_nil, List.append_nil]
  | cons opt written ih =>
    rw [List.map_cons] at hinv ⊢
    have hnew : ∀ o ∈ options, o.name.chars ≠ (blankName opt.name).chars := fun o ho =>
      hinv.before (o.name.chars, o.setting) (List.mem_map_of_mem ho)
    rw [List.flatMap_cons, readConfig_configLine (h opt List.mem_cons_self), afterLine_new (h opt List.mem_cons_self) hinv.left hnew]
    have hsplit : options ++ readBack opt :: written.map readBack = (options ++ [readBack opt]) ++ written.map readBack := by simp
    rw [hsplit] at hinv ⊢
    exact ih (fun o ho => h o (List.mem_cons_of_mem _ ho)) hinv

/-! ### Round trips -/

/-- The first option keeps its place and its name. -/
def StartsWith (name : CString) (options : List SbOption) : Prop := ∃ opt rest, options = opt :: rest ∧ opt.name = name

theorem StartsWith.modify {name : CString} {options : List SbOption} (h : StartsWith name options) (i : ℕ) (values : List CString) :
    StartsWith name (options.modify i fun opt => { opt with values := values }) := by
  obtain ⟨opt, rest, rfl, rfl⟩ := h
  cases i with
  | zero => exact ⟨_, _, rfl, rfl⟩
  | succ i => exact ⟨_, _, List.modify_succ_cons .., rfl⟩

theorem StartsWith.addOption {name : CString} {options : List SbOption} (h : StartsWith name options) (new : CString) :
    StartsWith name (addOption options new).2 := by
  obtain ⟨opt, rest, rfl, rfl⟩ := h
  unfold Sysbench.addOption
  split
  · exact ⟨opt, rest, rfl, rfl⟩
  · exact ⟨opt, _, rfl, rfl⟩

theorem StartsWith.readLine {name : CString} {options : List SbOption} (h : StartsWith name options) (line : List Char) :
    StartsWith name (readLine line options).2 := by
  unfold Sysbench.readLine
  dsimp only
  split
  · exact (h.addOption _).modify _ _
  · exact h

theorem StartsWith.readConfig {name : CString} {options : List SbOption} (h : StartsWith name options) (text : List Char) :
    StartsWith name (readConfig text options).2 := by
  fun_induction Sysbench.readConfig text options with
  | case1 => exact h
  | case2 c text options options' hline ih =>
    have hread := h.readLine (fgets (maxStrLen - 1) (c :: text)).1
    rw [hline] at hread
    exact ih hread
  | case3 c text options ok options' hline =>
    have hread := h.readLine (fgets (maxStrLen - 1) (c :: text)).1
    rwa [hline] at hread

theorem writeConfig_cases (options : List (SbOption × Bool)) : (writeConfig options).1 = [] ∨
    ∃ opt ∈ options, ∃ rest, (writeConfig options).1 = configLine opt.1 ++ rest := by
  induction options with
  | nil => exact .inl rfl
  | cons opt options ih =>
    obtain ⟨opt, ignore⟩ := opt
    cases ignore with
    | true =>
      rcases ih with hnil | ⟨o, ho, rest, heq⟩
      · exact .inl hnil
      · exact .inr ⟨o, List.mem_cons_of_mem _ ho, rest, heq⟩
    | false => exact .inr ⟨(opt, false), List.mem_cons_self, _, rfl⟩

/-- No options but none are read back as they were written. -/
theorem roundTrips_iff {options : List (SbOption × Bool)} (h : ∀ opt ∈ options, Writable opt.1) :
    RoundTrips options ↔ options = [] := by
  refine ⟨fun ⟨_, hread⟩ => ?_, ?_⟩
  · rcases writeConfig_cases options with hnil | ⟨opt, hopt, rest, htext⟩
    · rw [hnil, readConfig] at hread
      exact List.map_eq_nil_iff.mp hread.symm
    · have hstart : StartsWith (blankName opt.1.name) (afterLine opt.1 []) := by
        refine StartsWith.modify ?_ _ _
        exact ⟨_, [], rfl, convertDashes_blankName (h opt hopt)⟩
      obtain ⟨o, options', hback, hname⟩ := hstart.readConfig rest
      rw [htext, readConfig_configLine (h opt hopt), hback] at hread
      cases options with
      | nil => rfl
      | cons first options =>
        have heq : o.name = first.1.name := (Prod.mk.inj (List.cons.inj hread).1).1
        have hblank : ' ' ∈ first.1.name.chars := by
          rw [← heq, hname]
          exact List.mem_append_right _ List.mem_cons_self
        exact absurd ((h first List.mem_cons_self).name ' ' hblank).2.1 (by decide)
  · rintro rfl
    simp [RoundTrips, writeConfig, readConfig]

/-- An option `a` with the value `1`. -/
def optionA : SbOption := ⟨⟨['a'], nul_notMem_a⟩, .string, [⟨['1'], CString.strOne.noNul⟩], none⟩

theorem writable_optionA : Writable optionA where
  name_ne := by decide
  name := List.forall_mem_singleton.mpr (by decide)
  value_ne := by decide
  value := List.forall_mem_singleton.mpr (List.forall_mem_singleton.mpr (by decide))
  short := by decide

theorem roundTrips_iff_optionA : ¬RoundTrips [(optionA, false)] :=
  fun h => List.cons_ne_nil _ _ ((roundTrips_iff (List.forall_mem_singleton.mpr writable_optionA)).mp h)

/-- The option `a` is read back as `a` with a blank behind it. -/
theorem not_roundTrips_optionA : (∀ opt ∈ [(optionA, false)], Writable opt.1) ∧
    ((readConfig (writeConfig [(optionA, false)]).1 []).2.map fun opt => (opt.name.chars, opt.values)) =
      [(['a', ' '], optionA.values)] ∧ ¬RoundTrips [(optionA, false)] := by
  have hread : readConfig (configLine optionA) [] = (true, [readBack optionA]) := by
    have hinv : OptionsInv ([] ++ [optionA].map readBack) := ⟨by decide, by decide⟩
    simpa using readConfig_options (List.forall_mem_singleton.mpr writable_optionA) hinv
  have htext : (writeConfig [(optionA, false)]).1 = configLine optionA := by simp [writeConfig]
  refine ⟨List.forall_mem_singleton.mpr writable_optionA, by rw [htext, hread]; rfl, fun h => ?_⟩
  have hnames := h.2
  rw [htext, hread] at hnames
  exact absurd hnames (by decide)

end NuKSM.Sysbench
