import NuKSM.Lib.Dict
import NuKSM.XSBench.ReadCli

/-! # The order of the options

What `read_CLI` reads of options that are given once depends on the values of the options and on whether `-m event` comes before
`-l` and `-p`. -/

namespace NuKSM.XSBench

/-! ### Options with values -/

/-- An option with a value that `read_CLI` accepts. -/
inductive ValidPair : String → String → Prop
  | threads {v} : 1 ≤ atoi v → ValidPair "-t" v
  | gridpoints {v} : 1 ≤ atol v → ValidPair "-g" v
  | method {v m} : simulationMethod? v = some m → ValidPair "-m" v
  | lookups {v} : 1 ≤ atoi v → ValidPair "-l" v
  | hashBins {v} : 1 ≤ atoi v → ValidPair "-h" v
  | particles {v} : ValidPair "-p" v
  | size {v} : ["small", "large", "XL", "XXL"].any (sameIgnoringCase v) = true → ValidPair "-s" v
  | gridType {v t} : gridType? v = some t → ValidPair "-G" v
  | binaryMode {v b} : binaryMode? v = some b → ValidPair "-b" v
  | kernel {v} : ValidPair "-k" v

/-- The arguments that options with values are. -/
def argsOf (pairs : List (String × String)) : List String := pairs.flatMap fun p => [p.1, p.2]

/-- Each option once, with a value that is accepted. -/
structure ValidPairs (pairs : List (String × String)) : Prop where
  once : (pairs.map Prod.fst).Nodup
  valid : ∀ p ∈ pairs, ValidPair p.1 p.2

/-- The values that are given. -/
def given (pairs : List (String × String)) : Dict String String := Dict.after (pairs.map fun p => (p.1, some p.2))

/-- `-m event` is given before `-l` and `-p`. -/
def resets (pairs : List (String × String)) : Bool := ("-m", "event") ∈ pairs.takeWhile fun p => p.1 ≠ "-l" ∧ p.1 ≠ "-p"

/-- What is read, by the values that are given and whether the defaults are reset. -/
def stateOf (nthreads : ℤ) (values : Dict String String) (reset : Bool) : CliState where
  input := {
    nthreads := (values "-t").elim nthreads atoi
    nGridpoints := (values "-g").elim 11303 atol
    simulationMethod := ((values "-m").bind simulationMethod?).getD .historyBased
    lookups := (values "-l").elim (if reset then 17000000 else 34) atoi
    hashBins := (values "-h").elim 10000 atoi
    particles := (values "-p").elim (if reset then 0 else 500000) atoi
    hm := (values "-s").getD "large"
    gridType := ((values "-G").bind gridType?).getD .unionized
    binaryMode := ((values "-b").bind binaryMode?).getD .none
    kernelId := (values "-k").elim 0 atoi }
  userG := (values "-g").isSome
  defaultLookups := (values "-l").isNone
  defaultParticles := (values "-p").isNone

variable {pairs pairs' : List (String × String)} {p : String × String} {values : Dict String String} {nthreads : ℤ} {reset : Bool}

theorem given_snoc : given (pairs ++ [p]) = (given pairs).write (p.1, some p.2) := by
  rw [given, List.map_append, List.map_singleton, Dict.after_append]
  rfl

theorem simulationMethod?_event {v : String} {m : SimulationMethod} (h : simulationMethod? v = some m) :
    m = .eventBased ↔ v = "event" := by
  unfold simulationMethod? at h
  split at h
  · cases h
    decide
  · cases h
    decide
  · cases h

/-- What one more option adds. -/
theorem readOption_stateOf (hvalid : ValidPair p.1 p.2) (hnew : values p.1 = none) (hreset : reset = true → values "-m" ≠ none) :
    readOption p.1 p.2 (stateOf nthreads values reset) = some (stateOf nthreads (values.write (p.1, some p.2))
      (reset || (p = ("-m", "event") && (values "-l").isNone && (values "-p").isNone))) := by
  obtain ⟨arg, value⟩ := p
  dsimp only at hvalid hnew ⊢
  cases hvalid with
  | threads => simp [readOption, stateOf, Dict.write]
  | gridpoints => simp [readOption, stateOf, Dict.write]
  | @method _ m h =>
    have hreset : reset = false := Bool.eq_false_iff.mpr fun hr => hreset hr hnew
    have hevent := simulationMethod?_event h
    cases m with
    | historyBased =>
      have hvalue : value ≠ "event" := fun heq => SimulationMethod.noConfusion (hevent.mpr heq)
      simp [readOption, stateOf, Dict.write, h, hvalue]
    | eventBased =>
      obtain rfl := hevent.mp rfl
      cases hl : values "-l" <;> cases hp : values "-p" <;> simp [readOption, stateOf, Dict.write, h, hl, hp, hreset]
  | lookups => simp [readOption, stateOf, Dict.write]
  | hashBins => simp [readOption, stateOf, Dict.write]
  | particles => simp [readOption, stateOf, Dict.write]
  | size => simp [readOption, stateOf, Dict.write]
  | gridType h => simp [readOption, stateOf, Dict.write, h]
  | binaryMode h => simp [readOption, stateOf, Dict.write, h]
  | kernel => simp [readOption, stateOf, Dict.write]

/-! ### All options -/

theorem readArgs_snoc {s : CliState} :
    readArgs (argsOf (pairs ++ [p])) s = (readArgs (argsOf pairs) s).bind (readOption p.1 p.2) := by
  induction pairs generalizing s with
  | nil =>
    show (readOption p.1 p.2 s).bind (readArgs []) = readOption p.1 p.2 s
    cases readOption p.1 p.2 s <;> rfl
  | cons q pairs ih =>
    show (readOption q.1 q.2 s).bind (readArgs (argsOf (pairs ++ [p]))) =
      ((readOption q.1 q.2 s).bind (readArgs (argsOf pairs))).bind _
    rw [Option.bind_assoc]
    exact congrArg _ (funext fun s => ih)

theorem given_eq_none (h : p.1 ∉ pairs.map Prod.fst) : given pairs p.1 = none := by
  refine Dict.after_of_notMem ?_
  rwa [List.map_map]

theorem given_of_mem (hpairs : ValidPairs pairs) (h : p ∈ pairs) : given pairs p.1 = some p.2 := by
  refine Dict.after_of_mem ?_ (List.mem_map.mpr ⟨p, h, rfl⟩)
  rw [List.map_map]
  exact hpairs.once

theorem given_isSome_iff (hpairs : ValidPairs pairs) {opt : String} : (given pairs opt).isSome ↔ opt ∈ pairs.map Prod.fst := by
  constructor
  · intro hsome
    by_contra hnone
    rw [given_eq_none (p := (opt, "")) hnone] at hsome
    cases hsome
  · intro hmem
    obtain ⟨q, hq, rfl⟩ := List.mem_map.mp hmem
    rw [given_of_mem hpairs hq]
    rfl

/-- Neither `-l` nor `-p` is given. -/
theorem unset_iff (hpairs : ValidPairs pairs) : ((given pairs "-l").isNone && (given pairs "-p").isNone) = true ↔
    ∀ q ∈ pairs, decide (q.1 ≠ "-l" ∧ q.1 ≠ "-p") = true := by
  have hnone : ∀ opt, (given pairs opt).isNone = true ↔ ∀ q ∈ pairs, q.1 ≠ opt := by
    intro opt
    rw [← Option.not_isSome, Bool.not_eq_true', Bool.eq_false_iff, ne_eq, given_isSome_iff hpairs, List.mem_map, not_exists]
    exact forall_congr' fun q => not_and
  rw [Bool.and_eq_true, hnone, hnone]
  simp only [decide_eq_true_eq, forall_and]

theorem resets_snoc (hpairs : ValidPairs pairs) : resets (pairs ++ [p]) =
    (resets pairs || (p = ("-m", "event") && (given pairs "-l").isNone && (given pairs "-p").isNone)) := by
  rw [Bool.and_assoc]
  by_cases hunset : ∀ q ∈ pairs, decide (q.1 ≠ "-l" ∧ q.1 ≠ "-p") = true
  · rw [(unset_iff hpairs).mpr hunset, resets, resets, List.takeWhile_append_of_pos hunset, List.takeWhile_eq_self_iff.mpr hunset]
    by_cases hp : p = ("-m", "event")
    · simp [hp]
    · have hnot : ("-m", "event") ∉ [p].takeWhile fun q => q.1 ≠ "-l" ∧ q.1 ≠ "-p" := fun hmem =>
        hp (List.mem_singleton.mp ((List.takeWhile_sublist _).mem hmem)).symm
      rw [decide_eq_false hp, Bool.false_and, Bool.or_false]
      exact decide_eq_decide.mpr (List.mem_append.trans (or_iff_left hnot))
  · rw [Bool.eq_false_iff.mpr fun h => hunset ((unset_iff hpairs).mp h), Bool.and_false, Bool.or_false, resets, resets,
      List.takeWhile_append, if_neg]
    exact fun hlength => hunset (List.takeWhile_eq_self_iff.mp ((List.takeWhile_prefix _).eq_of_length hlength))

theorem ValidPairs.init (hpairs : ValidPairs (pairs ++ [p])) : ValidPairs pairs ∧ p.1 ∉ pairs.map Prod.fst := by
  have honce := hpairs.once
  rw [List.map_append, List.nodup_append] at honce
  exact ⟨⟨honce.1, fun q hq => hpairs.valid q (List.mem_append_left _ hq)⟩,
    fun hmem => honce.2.2 _ hmem _ (List.mem_singleton.mpr rfl) rfl⟩

theorem mem_of_resets (h : resets pairs = true) : ("-m", "event") ∈ pairs :=
  (List.takeWhile_sublist _).mem (of_decide_eq_true h)

/-- What is read of valid options. -/
theorem readArgs_eq (hpairs : ValidPairs pairs) :
    readArgs (argsOf pairs) { input := { nthreads } } = some (stateOf nthreads (given pairs) (resets pairs)) := by
  induction pairs using List.reverseRecOn with
  | nil => rfl
  | append_singleton pairs p ih =>
    obtain ⟨hinit, hnew⟩ := hpairs.init
    rw [readArgs_snoc, ih hinit, Option.bind_some, given_snoc, resets_snoc hinit]
    refine readOption_stateOf (hpairs.valid p (by simp)) (given_eq_none hnew) fun hreset => ?_
    rw [given_of_mem hinit (mem_of_resets hreset)]
    exact Option.some_ne_none _

/-! ### Validation -/

theorem given_valid (hpairs : ValidPairs pairs) {opt v : String} (h : given pairs opt = some v) : ValidPair opt v := by
  have hsome : (given pairs opt).isSome := by rw [h]; rfl
  obtain ⟨q, hq, rfl⟩ := List.mem_map.mp ((given_isSome_iff hpairs).mp hsome)
  rw [given_of_mem hpairs hq] at h
  exact Option.some.inj h ▸ hpairs.valid q hq

theorem ValidPair.value {opt v : String} (h : ValidPair opt v) : (opt = "-t" → 1 ≤ atoi v) ∧ (opt = "-g" → 1 ≤ atol v) ∧
    (opt = "-l" → 1 ≤ atoi v) ∧ (opt = "-h" → 1 ≤ atoi v) ∧
    (opt = "-s" → ["small", "large", "XL", "XXL"].any (sameIgnoringCase v) = true) := by
  cases h <;> simp_all

/-- A number that is at least 1 if it is given, and if it is not. -/
theorem one_le_elim (hpairs : ValidPairs pairs) {opt : String} {default : ℤ} {read : String → ℤ} (hdefault : 1 ≤ default)
    (hread : ∀ v, ValidPair opt v → 1 ≤ read v) : 1 ≤ (given pairs opt).elim default read := by
  cases h : given pairs opt with
  | none => exact hdefault
  | some v => exact hread v (given_valid hpairs h)

theorem validInput_stateOf (hthreads : 1 ≤ nthreads) (hpairs : ValidPairs pairs) :
    validInput (stateOf nthreads (given pairs) (resets pairs)).input = true := by
  have hlookups : (1 : ℤ) ≤ if resets pairs then 17000000 else 34 := by split <;> decide
  have hsize : ["small", "large", "XL", "XXL"].any (sameIgnoringCase ((given pairs "-s").getD "large")) = true := by
    cases h : given pairs "-s" with
    | none => decide
    | some v => exact (given_valid hpairs h).value.2.2.2.2 rfl
  have hisotopes : (stateOf nthreads (given pairs) (resets pairs)).input.nIsotopes = 355 := rfl
  unfold validInput
  simp only [Bool.and_eq_true, decide_eq_true_eq, hisotopes]
  refine ⟨⟨⟨⟨⟨?_, by decide⟩, ?_⟩, ?_⟩, ?_⟩, hsize⟩
  · exact one_le_elim hpairs hthreads fun v h => h.value.1 rfl
  · exact one_le_elim hpairs (by decide) fun v h => h.value.2.1 rfl
  · exact one_le_elim hpairs hlookups fun v h => h.value.2.2.1 rfl
  · exact one_le_elim hpairs (by decide) fun v h => h.value.2.2.2.1 rfl

/-- Valid options pass the validation. -/
theorem readCli_eq (hthreads : 1 ≤ nthreads) (hpairs : ValidPairs pairs) :
    readCli nthreads (argsOf pairs) = some (setSize (stateOf nthreads (given pairs) (resets pairs))) := by
  rw [readCli, readArgs_eq hpairs, Option.bind_eq_bind, Option.bind_some, if_pos (validInput_stateOf hthreads hpairs)]

/-- The numbers of lookups and particles do not depend on the size. -/
theorem setSize_counts (s : CliState) : (setSize s).lookups = s.input.lookups ∧ (setSize s).particles = s.input.particles := by
  unfold setSize
  split_ifs <;> exact ⟨rfl, rfl⟩

/-! ### Orders -/

/-- What is read does not depend on the order of the options. -/
def AnyOrder (nthreads : ℤ) (pairs : List (String × String)) : Prop :=
  ∀ pairs' : List (String × String), pairs'.Perm pairs → readCli nthreads (argsOf pairs') = readCli nthreads (argsOf pairs)

theorem ValidPairs.perm (hpairs : ValidPairs pairs) (h : pairs'.Perm pairs) : ValidPairs pairs' :=
  ⟨(h.map _).nodup_iff.mpr hpairs.once, fun q hq => hpairs.valid q (h.mem_iff.mp hq)⟩

theorem given_perm (hpairs : ValidPairs pairs) (h : pairs'.Perm pairs) : given pairs' = given pairs := by
  refine Dict.after_perm ?_ (h.map _)
  rw [List.map_map]
  exact (hpairs.perm h).once

/-- If both numbers are given, the defaults do not count. -/
theorem stateOf_of_both {v w : String} (hl : values "-l" = some v) (hp : values "-p" = some w) (reset reset' : Bool) :
    stateOf nthreads values reset = stateOf nthreads values reset' := by
  simp [stateOf, hl, hp]

theorem resets_of_neither (hpairs : ValidPairs pairs) (hevent : ("-m", "event") ∈ pairs)
    (hl : given pairs "-l" = none) (hp : given pairs "-p" = none) : resets pairs = true := by
  have hunset := (unset_iff hpairs).mp (by rw [hl, hp]; rfl)
  rw [resets, List.takeWhile_eq_self_iff.mpr hunset]
  exact decide_eq_true hevent

theorem anyOrder_of_both (hthreads : 1 ≤ nthreads) (hpairs : ValidPairs pairs)
    (h : ("-m", "event") ∈ pairs → ((given pairs "-l").isSome ↔ (given pairs "-p").isSome)) : AnyOrder nthreads pairs := by
  intro pairs' hperm
  rw [readCli_eq hthreads hpairs, readCli_eq hthreads (hpairs.perm hperm), given_perm hpairs hperm]
  by_cases hevent : ("-m", "event") ∈ pairs
  · cases hl : given pairs "-l" with
    | none =>
      have hp : given pairs "-p" = none := Option.not_isSome_iff_eq_none.mp ((h hevent).not.mp (by rw [hl]; decide))
      have hgiven := given_perm hpairs hperm
      rw [resets_of_neither hpairs hevent hl hp,
        resets_of_neither (hpairs.perm hperm) (hperm.mem_iff.mpr hevent) (hgiven ▸ hl) (hgiven ▸ hp)]
    | some v =>
      obtain ⟨w, hp⟩ := Option.isSome_iff_exists.mp ((h hevent).mp (by rw [hl]; rfl))
      rw [stateOf_of_both hl hp (resets pairs') (resets pairs)]
  · rw [Bool.eq_false_iff.mpr fun h => hevent (mem_of_resets h),
      Bool.eq_false_iff.mpr fun h => hevent (hperm.mem_iff.mp (mem_of_resets h))]

/-- If `-m event` may be first and last, it does not count whether the defaults are reset. -/
theorem AnyOrder.reset_irrelevant (h : AnyOrder nthreads pairs) (hthreads : 1 ≤ nthreads) (hpairs : ValidPairs pairs)
    (hevent : ("-m", "event") ∈ pairs) (hset : ¬((given pairs "-l").isNone && (given pairs "-p").isNone) = true) :
    setSize (stateOf nthreads (given pairs) true) = setSize (stateOf nthreads (given pairs) false) := by
  obtain ⟨A, C, rfl⟩ := List.append_of_mem hevent
  have hfirst : (("-m", "event") :: (A ++ C)).Perm (A ++ ("-m", "event") :: C) := List.perm_middle.symm
  have hlast : (A ++ C ++ [("-m", "event")]).Perm (A ++ ("-m", "event") :: C) := (List.perm_append_singleton _ _).trans hfirst
  obtain ⟨hrest, hnew⟩ := (hpairs.perm hlast).init
  have heq := (h _ hfirst).trans (h _ hlast).symm
  rw [readCli_eq hthreads (hpairs.perm hfirst), readCli_eq hthreads (hpairs.perm hlast), given_perm hpairs hfirst,
    given_perm hpairs hlast, Option.some_inj] at heq
  have hreset : resets (("-m", "event") :: (A ++ C)) = true := by
    rw [resets, List.takeWhile_cons_of_pos (by decide)]
    exact decide_eq_true List.mem_cons_self
  have hkept : resets (A ++ C ++ [("-m", "event")]) = false := by
    have hrest' : resets (A ++ C) = false :=
      Bool.eq_false_iff.mpr fun hr => hnew (List.mem_map.mpr ⟨_, mem_of_resets hr, rfl⟩)
    rw [resets_snoc hrest, hrest', Bool.false_or, Bool.and_assoc, Bool.and_eq_false_iff]
    refine .inr (Bool.eq_false_iff.mpr fun hunset => hset ((unset_iff hpairs).mpr fun q hq => ?_))
    rcases List.mem_cons.mp (hfirst.mem_iff.mpr hq) with rfl | hq
    · decide
    · exact (unset_iff hrest).mp hunset q hq
  rwa [hreset, hkept] at heq

theorem AnyOrder.both (h : AnyOrder nthreads pairs) (hthreads : 1 ≤ nthreads) (hpairs : ValidPairs pairs)
    (hevent : ("-m", "event") ∈ pairs) : (given pairs "-l").isSome ↔ (given pairs "-p").isSome := by
  by_cases hset : ((given pairs "-l").isNone && (given pairs "-p").isNone) = true
  · rw [Bool.and_eq_true, Option.isNone_iff_eq_none, Option.isNone_iff_eq_none] at hset
    rw [hset.1, hset.2]
  have hsame := h.reset_irrelevant hthreads hpairs hevent hset
  have hlookups := congrArg CliInputs.lookups hsame
  have hparticles := congrArg CliInputs.particles hsame
  rw [(setSize_counts _).1, (setSize_counts _).1] at hlookups
  rw [(setSize_counts _).2, (setSize_counts _).2] at hparticles
  have hl : (given pairs "-l").isSome := by
    cases hl : given pairs "-l" with
    | none => simp [stateOf, hl] at hlookups
    | some v => rfl
  have hp : (given pairs "-p").isSome := by
    cases hp : given pairs "-p" with
    | none => simp [stateOf, hp] at hparticles
    | some v => rfl
  exact iff_of_true hl hp

/-- The order of the options does not count, unless the simulation is event based and just one of the numbers of lookups and
particles is given. -/
theorem anyOrder_iff (hthreads : 1 ≤ nthreads) (hpairs : ValidPairs pairs) : AnyOrder nthreads pairs ↔
    (("-m", "event") ∈ pairs → ("-l" ∈ pairs.map Prod.fst ↔ "-p" ∈ pairs.map Prod.fst)) := by
  rw [← given_isSome_iff hpairs, ← given_isSome_iff hpairs]
  exact ⟨fun h hevent => h.both hthreads hpairs hevent, anyOrder_of_both hthreads hpairs⟩

theorem validPairs_event : ValidPairs [("-m", "event"), ("-l", "100"), ("-p", "10")] where
  once := by decide
  valid p hp := by
    simp only [List.mem_cons, List.not_mem_nil, or_false] at hp
    rcases hp with rfl | rfl | rfl
    · exact .method rfl
    · exact .lookups (by decide)
    · exact .particles

theorem anyOrder_iff_event : AnyOrder 1 [("-m", "event"), ("-l", "100"), ("-p", "10")] :=
  (anyOrder_iff (by decide) validPairs_event).mpr fun _ => by decide

/-- Without `-l` there are 17000000 lookups or the 34 of a particle. -/
theorem not_anyOrder : ¬∀ pairs, ValidPairs pairs → AnyOrder 1 pairs := by
  intro hall
  have hperm : [("-m", "event"), ("-p", "10"), ("-l", "100")].Perm [("-m", "event"), ("-l", "100"), ("-p", "10")] :=
    (List.Perm.swap ..).cons _
  have hpairs : ValidPairs [("-m", "event"), ("-p", "10")] := (validPairs_event.perm hperm).init (p := ("-l", "100")) |>.1
  exact absurd (hall _ hpairs [("-p", "10"), ("-m", "event")] (List.Perm.swap ..)) (by decide)

/-! ### What the rest of the program relies on -/

/-- No option sets the number of isotopes. -/
theorem readOption_nIsotopes {arg value : String} {s s' : CliState} (h : readOption arg value s = some s') :
    s'.input.nIsotopes = s.input.nIsotopes := by
  unfold readOption at h
  split at h
  case h_3 =>
    obtain ⟨m, -, rfl⟩ := Option.map_eq_some_iff.mp h
    cases m with
    | historyBased => rfl
    | eventBased =>
      dsimp only
      split <;> rfl
  case h_8 | h_9 =>
    obtain ⟨m, -, rfl⟩ := Option.map_eq_some_iff.mp h
    rfl
  all_goals
    cases h
    try rfl

theorem readArgs_nIsotopes : ∀ {args : List String} {s s' : CliState}, readArgs args s = some s' →
    s'.input.nIsotopes = s.input.nIsotopes
  | [], _, _, h => by
    cases h
    rfl
  | [_], _, _, h => by cases h
  | _ :: _ :: _, _, _, h => by
    obtain ⟨s₁, hoption, hrest⟩ := Option.bind_eq_some_iff.mp h
    exact (readArgs_nIsotopes hrest).trans (readOption_nIsotopes hoption)

/-- What `read_CLI` returns has numbers that the grids can be built with. -/
theorem readCli_accepted {args : List String} {input : CliInputs} (h : readCli nthreads args = some input) :
    input.toInputs.Accepted := by
  obtain ⟨s, hread, h⟩ := Option.bind_eq_some_iff.mp h
  have hisotopes : s.input.nIsotopes = 355 := readArgs_nIsotopes hread
  split at h
  case isFalse => cases h
  case isTrue hvalid =>
    obtain rfl := Option.some.inj h
    simp only [validInput, Bool.and_eq_true, decide_eq_true_eq] at hvalid
    obtain ⟨⟨⟨⟨-, hgridpoints⟩, -⟩, hhashBins⟩, -⟩ := hvalid
    unfold setSize
    split_ifs
    · exact ⟨.inl rfl, hgridpoints, hhashBins⟩
    · exact ⟨.inr hisotopes, by norm_num, hhashBins⟩
    · exact ⟨.inr hisotopes, by norm_num, hhashBins⟩
    · exact ⟨.inr hisotopes, hgridpoints, hhashBins⟩

end NuKSM.XSBench
