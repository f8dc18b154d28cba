import NuKSM.Theorems.XSBench.Lcg
import NuKSM.Theorems.XSBench.QuickSort
import NuKSM.XSBench.Simulation

/-! # The event based simulations

The optimized variant moves the samples around, the same way energies and materials. Both variants add up the votes of
the same samples, and the order of the additions does not matter. -/

namespace NuKSM.XSBench
variable {E : Type} [LinearOrder E] [SampleArith E]

/-! ### Samples -/

theorem pickMatFor_bounds (roll : E) : 0 ≤ pickMatFor roll ∧ pickMatFor roll < 12 := by
  unfold pickMatFor
  cases hfind : ([0, 1, 2, 3, 4, 5, 6, 7, 8, 9, 10, 11] : List ℤ).find? fun i => decide (roll < SampleArith.running i) with
  | none => decide
  | some i =>
    have hmem := List.mem_of_find?_eq_some hfind
    simp only [List.mem_cons, List.not_mem_nil, or_false] at hmem
    simp only [Option.getD_some]
    omega

theorem toNat_ofInt {n : ℤ} (h0 : 0 ≤ n) (h : n < 18446744073709551616) : (UInt64.ofInt n).toNat = n.toNat := by
  have hmod : n % 2 ^ 64 = n := Int.emod_eq_of_lt h0 h
  rw [UInt64.ofInt, UInt64.toNat_ofNat', hmod]
  exact Nat.mod_eq_of_lt (by omega)

theorem startingSeed_lt : startingSeed.toNat < 2 ^ 63 := by decide

/-- The generator behind `k` draws of the stream that starts at `STARTING_SEED`. -/
theorem fastForward_start {n : ℤ} (h0 : 0 ≤ n) (h : n < 18446744073709551616) :
    (Stream.mk startingSeed []).fastForward (UInt64.ofInt n) = some ⟨lcgNext^[n.toNat] startingSeed, []⟩ := by
  rw [Stream.fastForward, fastForwardLcg_eq_iterate startingSeed_lt, toNat_ofInt h0 h]
  rfl

theorem eventSample_eq {i : ℤ} (h0 : 0 ≤ i) (hint : 2 * i < 2147483648) :
    eventSample E i = some (sample E ⟨lcgNext^[(2 * i).toNat] startingSeed, []⟩) := by
  rw [eventSample, intArith_eq (by omega) hint]
  simp only [Option.bind_eq_bind, Option.bind_some, fastForward_start (n := 2 * i) (by omega) (by omega)]
  rfl

/-- The energy and the material of lookup `i`. -/
def eventPair (E : Type) [LinearOrder E] [SampleArith E] (i : ℤ) : E × ℤ :=
  (sample E ⟨lcgNext^[(2 * i).toNat] startingSeed, []⟩).1

theorem eventPair_bounds (i : ℤ) : 0 ≤ (eventPair E i).2 ∧ (eventPair E i).2 < 12 := pickMatFor_bounds _

/-! ### Votes -/

/-- What the votes of some samples add to `verification`. -/
def tally (macroXs : E → ℤ → Option (List E)) (verification : UInt64) (samples : List (E × ℤ)) : Option UInt64 :=
  samples.foldlM (fun verification p => (lookup macroXs p.1 p.2 verification).map Prod.snd) verification

section tally
variable {macroXs : E → ℤ → Option (List E)}

/-- The vote of one sample. -/
def vote (macroXs : E → ℤ → Option (List E)) (p : E × ℤ) : Option UInt64 :=
  (macroXs p.1 p.2).bind fun macroXsVector => (maxIndex macroXsVector).map fun maxIdx => UInt64.ofInt (maxIdx + 1)

theorem lookup_eq (p : E × ℤ) (verification : UInt64) :
    (lookup macroXs p.1 p.2 verification).map Prod.snd = (vote macroXs p).map (verification + ·) := by
  unfold lookup vote
  cases macroXs p.1 p.2 with
  | none => rfl
  | some macroXsVector =>
    simp only [Option.bind_eq_bind, Option.bind_some]
    cases maxIndex macroXsVector <;> rfl

/-- The order of the samples does not matter. -/
theorem tally_perm {l l' : List (E × ℤ)} (h : l.Perm l') (v : UInt64) : tally macroXs v l = tally macroXs v l' := by
  unfold tally
  rw [List.foldlM_eq_foldl, List.foldlM_eq_foldl]
  refine h.foldl_eq' (fun p _ q _ total => ?_) _
  cases total with
  | none => rfl
  | some v =>
    simp only [lookup_eq, Option.bind_eq_bind, Option.bind_some]
    cases vote macroXs p with
    | none => cases vote macroXs q <;> rfl
    | some x =>
      cases vote macroXs q with
      | none => rfl
      | some y =>
        simp only [Option.map_some, Option.bind_some]
        rw [UInt64.add_assoc, UInt64.add_assoc, UInt64.add_comm x y]

theorem tally_append (v : UInt64) (l l' : List (E × ℤ)) :
    tally macroXs v (l ++ l') = (tally macroXs v l).bind fun v => tally macroXs v l' := by
  unfold tally
  rw [List.foldlM_append]
  rfl

/-- The lookups of one segment of the samples. -/
theorem segment_tally {energies : List E} {mats : List ℤ} {off n : ℤ} {v : UInt64} (h0 : 0 ≤ off) (hn : 0 ≤ n)
    (hlen : mats.length = energies.length) (hfit : off + n ≤ energies.length) :
    forUp n (fun v k => do
      let pEnergy ← peek energies (off + k)
      let mat ← peek mats (off + k)
      (lookup macroXs pEnergy mat v).map Prod.snd) v =
        tally macroXs v (((energies.zip mats).drop off.toNat).take n.toNat) := by
  refine Eq.trans (congrArg (forUp n · v) ?_) (forUp_peek h0 hn (by rw [List.length_zip, hlen, min_self]; exact hfit))
  funext w k
  rw [peek_zip]
  cases peek energies (off + k) with
  | none => rfl
  | some e => cases peek mats (off + k) <;> rfl

theorem maxIndex_isSome {macroXsVector : List E} (hlen : macroXsVector.length = 5) : ∃ m, maxIndex macroXsVector = some m := by
  obtain ⟨r, hr, -⟩ : ∃ r, forUp 5 (fun (v : E × ℤ) j => (peek macroXsVector j).map
      fun x => if x > v.1 then (x, j) else (v.1, v.2)) (SampleArith.const (-1), 0) = some r ∧ True :=
    forUp_total (P := fun _ _ => True) (by decide) trivial fun k v h0 hk _ => by
      obtain ⟨x, hx⟩ := exists_peek (A := macroXsVector) h0 (by omega)
      exact ⟨_, by rw [hx]; rfl, trivial⟩
  exact ⟨r.2, congrArg (Option.map Prod.snd) hr⟩

/-- A lookup that returns its five cross sections votes. -/
theorem vote_isSome {p : E × ℤ} {macroXsVector : List E} (h : macroXs p.1 p.2 = some macroXsVector)
    (hlen : macroXsVector.length = 5) : ∃ x, vote macroXs p = some x := by
  obtain ⟨m, hm⟩ := maxIndex_isSome hlen
  exact ⟨_, by rw [vote, h, Option.bind_some, hm]; rfl⟩

theorem tally_isSome (h : ∀ e m, ∃ macroXsVector, macroXs e m = some macroXsVector ∧ macroXsVector.length = 5)
    (l : List (E × ℤ)) : ∀ v, ∃ v', tally macroXs v l = some v' := by
  induction l with
  | nil => exact fun v => ⟨v, rfl⟩
  | cons p l ih =>
    intro v
    obtain ⟨macroXsVector, hxs, hlen⟩ := h p.1 p.2
    obtain ⟨x, hx⟩ := vote_isSome hxs hlen
    obtain ⟨v', hv'⟩ := ih (v + x)
    refine ⟨v', ?_⟩
    rw [tally, List.foldlM_cons, lookup_eq, hx]
    exact hv'

end tally

/-! ### Segments -/

/-- The numbers of samples per material: twelve, and together `total`. -/
structure Counts (num : List ℤ) (total : ℤ) : Prop where
  length : num.length = 12
  nonneg : ∀ n ∈ num, 0 ≤ n
  sum : num.sum = total

namespace Counts
variable {num : List ℤ} {total : ℤ}

/-- Where the segment of material `m` starts. -/
def start (num : List ℤ) (m : ℤ) : ℤ := (num.take m.toNat).sum

theorem start_succ {m n : ℤ} (hm : peek num m = some n) : start num (m + 1) = start num m + n := by
  obtain ⟨h0, -⟩ := peek_bounds hm
  lift m to ℕ using h0
  rw [peek_natCast] at hm
  unfold start
  rw [show ((m : ℤ) + 1).toNat = m + 1 from rfl, List.take_add_one, hm]
  simp

theorem start_nonneg (h : Counts num total) (m : ℤ) : 0 ≤ start num m :=
  List.sum_nonneg fun n hn => h.nonneg n (List.mem_of_mem_take hn)

theorem start_le (h : Counts num total) (m : ℤ) : start num m ≤ total := by
  rw [← h.sum, ← List.sum_take_add_sum_drop num m.toNat]
  have hrest : 0 ≤ (num.drop m.toNat).sum := List.sum_nonneg fun n hn => h.nonneg n (List.mem_of_mem_drop hn)
  unfold start
  omega

theorem start_last (h : Counts num total) : start num 12 = total := by
  rw [← h.sum, start, List.take_of_length_le (by rw [h.length]; rfl)]

theorem exists_num (h : Counts num total) {m : ℤ} (h0 : 0 ≤ m) (hm : m < 12) : ∃ n, peek num m = some n ∧ 0 ≤ n := by
  obtain ⟨n, hn⟩ := exists_peek (A := num) h0 (by rw [h.length]; exact hm)
  exact ⟨n, hn, h.nonneg n (mem_of_peek hn)⟩

/-- One more sample of the material `m`. -/
theorem count (h : Counts num total) {m : ℤ} (h0 : 0 ≤ m) (hm : m < 12) :
    ∃ n num', peek num m = some n ∧ poke num m (n + 1) = some num' ∧ Counts num' (total + 1) := by
  obtain ⟨n, hn, hn0⟩ := h.exists_num h0 hm
  lift m to ℕ using h0
  have hlt : m < num.length := by rw [h.length]; omega
  have hget : num[m] = n := by
    rw [peek_natCast, List.getElem?_eq_getElem hlt] at hn
    exact Option.some.inj hn
  refine ⟨n, num.set m (n + 1), hn, if_pos ⟨by omega, by omega⟩, by rw [List.length_set, h.length], fun x hx => ?_, ?_⟩
  · rcases List.mem_or_eq_of_mem_set hx with hx | rfl
    · exact h.nonneg x hx
    · omega
  · rw [List.sum_set', dif_pos hlt, h.sum, hget]
    ring

end Counts

/-- Every material of a sample is counted. -/
theorem numSamplesPerMat_counts {matSamples : List ℤ} (hmat : ∀ m ∈ matSamples, 0 ≤ m ∧ m < 12) :
    ∃ num, numSamplesPerMat matSamples.length matSamples = some num ∧ Counts num matSamples.length := by
  refine forUp_total (P := fun k num => Counts num k) (Int.natCast_nonneg _) ⟨rfl, ?_, rfl⟩ fun l num h0 hl hnum => ?_
  · intro n hn
    rw [List.eq_of_mem_replicate hn]
  · obtain ⟨m, hm⟩ := exists_peek h0 hl
    obtain ⟨hm0, hm1⟩ := hmat m (mem_of_peek hm)
    obtain ⟨n, num', hn, hpoke, hcounts⟩ := hnum.count hm0 hm1
    exact ⟨num', by simp only [Option.bind_eq_bind, hm, Option.bind_some, hn, hpoke], hcounts⟩

theorem sampleOffsets_eq {num : List ℤ} {total : ℤ} (h : Counts num total) :
    ∃ offsets, sampleOffsets num = some offsets ∧ ∀ m, 0 ≤ m → m < 12 → peek offsets m = some (Counts.start num m) := by
  have htotal : ∃ offsets, sampleOffsets num = some offsets ∧ offsets.length = 12 ∧
      ∀ m, 0 ≤ m → m < 11 + 1 → peek offsets m = some (Counts.start num m) := by
    refine forUp_total
      (P := fun k (offsets : List ℤ) =>
        offsets.length = 12 ∧ ∀ m, 0 ≤ m → m < k + 1 → peek offsets m = some (Counts.start num m))
      (by decide) ⟨rfl, fun m h0 hm => ?_⟩ fun k offsets h0 hk ⟨hlen, hdone⟩ => ?_
    · obtain rfl : m = 0 := by omega
      rfl
    · obtain ⟨n, hn, -⟩ := h.exists_num h0 (by omega)
      obtain ⟨offsets', hpoke, hlen', hsame, hother⟩ :=
        poke_spec (A := offsets) (i := k + 1) (Counts.start num k + n) (by omega) (by omega)
      refine ⟨offsets', ?_, hlen'.trans hlen, fun m hm0 hm => ?_⟩
      · simp only [Option.bind_eq_bind, add_sub_cancel_right, hdone k h0 (by omega), hn, Option.bind_some, hpoke]
      · rcases eq_or_ne m (k + 1) with rfl | hne
        · rw [hsame, Counts.start_succ hn]
        · rw [hother m hne, hdone m hm0 (by omega)]
  obtain ⟨offsets, hrun, -, hoffsets⟩ := htotal
  exact ⟨offsets, hrun, fun m h0 hm => hoffsets m h0 (by omega)⟩

omit [SampleArith E] in
/-- The second sort keeps the pairs of energies and materials. -/
theorem sortSegments_moved {beyondEnergy : ℤ → Option E} (hbeyond : ∀ i, ∃ x, beyondEnergy i = some x)
    {num offsets : List ℤ} {total : ℤ} (hnum : Counts num total)
    (hoffsets : ∀ m, 0 ≤ m → m < 12 → peek offsets m = some (Counts.start num m)) {A : KeyValue E ℤ}
    (hkey : A.key.length = total) (hvalue : A.value.length = A.key.length) (hint : 2 * (total - 1) < 2147483648) :
    ∃ B, forUp 12 (fun A m => do
      let offset ← peek offsets m
      let n ← peek num m
      quickSortParallelDI beyondEnergy A offset n) A = some B ∧ Moved 0 (total - 1) A B := by
  refine forUp_total (P := fun _ B => Moved 0 (total - 1) A B) (by decide) Moved.refl fun m B h0 hm hB => ?_
  obtain ⟨n, hn, hn0⟩ := hnum.exists_num h0 hm
  have hstart := hnum.start_nonneg m
  have hend := hnum.start_le (m + 1)
  rw [Counts.start_succ hn] at hend
  have hlenB := hB.key_length
  have hvalueB := hB.value_length
  have hsorts : Sorts (quickSortParallelDI beyondEnergy B (Counts.start num m) n) B (Counts.start num m) 0 (n - 1) :=
    quickSortParallel_sorts hstart hn0 (by omega) (by omega) (by omega) fun _ => load_isSome hbeyond _ _
  obtain ⟨C, hC, hmoved, -⟩ := hsorts
  refine ⟨C, ?_, hB.trans (hmoved.mono (by omega) (by omega))⟩
  simp only [Option.bind_eq_bind, hoffsets m h0 hm, hn, Option.bind_some]
  exact hC

/-- The lookups of all materials add up the votes of all samples. -/
theorem lookupsPerMat_eq {macroXs : E → ℤ → Option (List E)} {num : List ℤ} {energies : List E} {mats : List ℤ}
    (hnum : Counts num energies.length) (hlen : mats.length = energies.length) :
    lookupsPerMat macroXs num energies mats = tally macroXs 0 (energies.zip mats) := by
  have hloop : ∀ m : ℕ, m ≤ 12 → forUp m (fun (v : UInt64 × ℤ) m => do
      let n ← peek num m
      let verification ← forUp n (fun verification k => do
        let pEnergy ← peek energies (v.2 + k)
        let mat ← peek mats (v.2 + k)
        (lookup macroXs pEnergy mat verification).map Prod.snd) v.1
      return (verification, v.2 + n)) (0, 0) =
      (tally macroXs 0 ((energies.zip mats).take (Counts.start num m).toNat)).map fun v => (v, Counts.start num m) := by
    intro m
    induction m with
    | zero => exact fun _ => rfl
    | succ m ih =>
      intro hm
      obtain ⟨n, hn, hn0⟩ := hnum.exists_num (m := m) (by omega) (by omega)
      have hstart := hnum.start_nonneg m
      have hend := hnum.start_le (m + 1)
      have hsucc := Counts.start_succ hn
      have hsegment : (energies.zip mats).take (Counts.start num (m + 1)).toNat =
          (energies.zip mats).take (Counts.start num m).toNat ++
            ((energies.zip mats).drop (Counts.start num m).toNat).take n.toNat := by
        rw [hsucc, Int.toNat_add hstart hn0, List.take_add]
      rw [Nat.cast_succ, forUp_succ (by omega), ih (by omega), hsegment, tally_append, hsucc]
      cases tally macroXs 0 ((energies.zip mats).take (Counts.start num m).toNat) with
      | none => rfl
      | some v =>
        simp only [Option.map_some, Option.bind_some, Option.bind_eq_bind, hn]
        rw [← segment_tally hstart hn0 hlen (by omega)]
        exact (Option.map_eq_bind ..).symm
  have hall : (energies.zip mats).take (Counts.start num (12 : ℕ)).toNat = energies.zip mats := by
    refine List.take_of_length_le ?_
    rw [show ((12 : ℕ) : ℤ) = 12 from rfl, hnum.start_last, List.length_zip, hlen, min_self, Int.toNat_natCast]
  refine (congrArg (Option.map Prod.fst) (hloop 12 le_rfl)).trans ?_
  rw [hall, Option.map_map]
  exact Option.map_id'

/-! ### The two simulations -/

/-- The baseline adds up the votes of its samples. -/
theorem runEventBasedSimulation_eq {macroXs : E → ℤ → Option (List E)} {lookups : ℤ} (h0 : 0 ≤ lookups)
    (hint : 2 * (lookups - 1) < 2147483648) {samples : List (E × ℤ)} (hlen : samples.length = lookups)
    (hsamples : ∀ i, 0 ≤ i → i < lookups → peek samples i = some (eventPair E i)) :
    runEventBasedSimulation macroXs lookups = tally macroXs 0 samples := by
  have hbody : ∀ (v : UInt64) (i : ℤ), 0 ≤ i → i < lookups →
      ((eventSample E i).bind fun r => (lookup macroXs r.1.1 r.1.2 v).map Prod.snd) =
      (peek samples (0 + i)).bind fun p => (lookup macroXs p.1 p.2 v).map Prod.snd := fun v i hi0 hi => by
    rw [zero_add, hsamples i hi0 hi, eventSample_eq hi0 (by omega)]
    rfl
  refine (forUp_congr h0 hbody).trans ((forUp_peek le_rfl h0 (by omega)).trans ?_)
  rw [Int.toNat_zero, List.drop_zero, List.take_of_length_le (by omega)]
  rfl

/-- Sorting the samples by material, and each material's samples by energy, does not change the verification value. -/
theorem optimization1_eq_baseline (macroXs : E → ℤ → Option (List E)) (beyondMat : ℤ → ℤ) (beyondEnergy : ℤ → E)
    {lookups : ℤ} (h1 : 1 ≤ lookups) (hint : 2 * (lookups - 1) < 2147483648) :
    runEventBasedSimulationOptimization1 macroXs (fun i => some (beyondMat i)) (fun i => some (beyondEnergy i)) lookups =
        runEventBasedSimulation macroXs lookups ∧
      ((∀ e m, ∃ macroXsVector, macroXs e m = some macroXsVector ∧ macroXsVector.length = 5) →
        ∃ verification, runEventBasedSimulation macroXs lookups = some verification) := by
  obtain ⟨samples, htab, hlen, hsamples⟩ := tabulate_eq_some
    (f := fun i => (eventSample E i).map Prod.fst) (g := eventPair E) (n := lookups) (by omega) fun i hi0 hi => by
      rw [eventSample_eq hi0 (by omega)]
      rfl
  rw [runEventBasedSimulation_eq (by omega) hint hlen hsamples]
  refine ⟨?_, fun htotal => tally_isSome htotal samples 0⟩
  have hmats : (samples.map Prod.snd).length = lookups := by rw [List.length_map, hlen]
  have henergies : (samples.map Prod.fst).length = lookups := by rw [List.length_map, hlen]
  -- The first sort.
  have hsorts : Sorts (quickSortParallelID (fun i => some (beyondMat i))
      ⟨samples.map Prod.snd, samples.map Prod.fst⟩ 0 lookups) ⟨samples.map Prod.snd, samples.map Prod.fst⟩ 0 0
      (lookups - 1) :=
    quickSortParallel_sorts le_rfl (by omega) (by simp only; omega) (by simp) hint fun _ =>
      load_isSome (fun i => ⟨_, rfl⟩) _ _
  obtain ⟨A, hA, hmovedA, -⟩ := hsorts
  have hkeyA : A.key.length = lookups := by rw [hmovedA.key_length, hmats]
  have hvalueA : A.value.length = lookups := by rw [hmovedA.value_length, henergies]
  have hbounds : ∀ m ∈ A.key, 0 ≤ m ∧ m < 12 := by
    intro m hm
    obtain ⟨p, hp, rfl⟩ := List.mem_map.mp (hmovedA.key_perm.mem_iff.mp hm)
    obtain ⟨i, hi⟩ := exists_peek_of_mem hp
    obtain ⟨hi0, hil⟩ := peek_bounds hi
    rw [hsamples i hi0 (by omega)] at hi
    cases hi
    exact eventPair_bounds i
  -- The segments, and the second sort.
  obtain ⟨num, hnum, hcounts⟩ := numSamplesPerMat_counts hbounds
  rw [hkeyA] at hnum hcounts
  obtain ⟨offsets, hoffsets, hstarts⟩ := sampleOffsets_eq hcounts
  obtain ⟨B, hB, hmovedB⟩ := sortSegments_moved (A := ⟨A.value, A.key⟩) (fun i => ⟨beyondEnergy i, rfl⟩) hcounts hstarts
    hvalueA (by exact_mod_cast hkeyA.trans hvalueA.symm) hint
  have hkeyB : B.key.length = lookups := by rw [hmovedB.key_length, hvalueA]
  have hvalueB : B.value.length = lookups := by rw [hmovedB.value_length, hkeyA]
  have hrun : runEventBasedSimulationOptimization1 macroXs (fun i => some (beyondMat i))
      (fun i => some (beyondEnergy i)) lookups = lookupsPerMat macroXs num B.key B.value := by
    rw [runEventBasedSimulationOptimization1, htab]
    simp only [Option.bind_eq_bind, Option.bind_some, hA, hnum, hoffsets]
    exact congrArg (Option.bind · fun A : KeyValue E ℤ => lookupsPerMat macroXs num A.key A.value) hB
  rw [hrun, lookupsPerMat_eq (hkeyB ▸ hcounts) (by exact_mod_cast hvalueB.trans hkeyB.symm)]
  have hpairs : (samples.map Prod.fst).zip (samples.map Prod.snd) = samples := by
    rw [← List.unzip_fst, ← List.unzip_snd, List.zip_unzip]
  refine tally_perm (hmovedB.perm.trans ?_) 0
  have := hmovedA.perm_swap
  rwa [hpairs] at this

theorem optimization1_eq_baseline_three :
    2 * ((3 : ℤ) - 1) < 2147483648 ∧
      runEventBasedSimulationOptimization1 (fun (e : ℚ) m => some [e, m, 0, 1, 2]) (fun _ => some 0) (fun _ => some 0) 3 =
        runEventBasedSimulation (fun (e : ℚ) m => some [e, m, 0, 1, 2]) 3 :=
  ⟨by decide, (optimization1_eq_baseline _ (fun _ => 0) (fun _ => 0) (by decide) (by decide)).1⟩

end NuKSM.XSBench
