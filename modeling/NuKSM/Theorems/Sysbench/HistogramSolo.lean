import NuKSM.Lib.Solo
import NuKSM.Theorems.Sysbench.Conserved

/-! # A histogram in one thread

What the functions of a histogram return and leave where no other thread takes turns. Each of the three percentiles
moves the contents of all slots to the cumulative array. -/

namespace NuKSM.Sysbench
open Thread HistogramOp

variable {ι : Type} [DecidableEq ι] {t : ι} {h h' : Histogram ι}

/-! ### Accesses -/

section access
variable {slot i : ℕ} {v : UInt64}

theorem step_fasSlot (hslot : slot < sbHistogramNslots) (hi : i < h.arraySize.toNat) :
    (fasSlot slot i).step t h = some (h.intermSlots slot i, h.setSlot slot i 0) := if_pos ⟨hslot, hi⟩

theorem step_incSlot (hslot : slot < sbHistogramNslots) (hi : i < h.arraySize.toNat) :
    (incSlot slot i).step t h = some ((), h.setSlot slot i (h.intermSlots slot i + 1)) := if_pos ⟨hslot, hi⟩

theorem step_loadTemp (hi : i < h.arraySize.toNat) : (loadTemp i).step t h = some (h.tempArray i, h) := if_pos hi

theorem step_storeTemp (hi : i < h.arraySize.toNat) : (storeTemp i v).step t h =
    some ((), { h with tempArray := Function.update h.tempArray i v }) := if_pos hi

theorem step_loadCumulative (hi : i < h.arraySize.toNat) :
    (loadCumulative i).step t h = some (h.cumulativeArray i, h) := if_pos hi

theorem step_storeCumulative (hi : i < h.arraySize.toNat) : (storeCumulative i v).step t h =
    some ((), { h with cumulativeArray := Function.update h.cumulativeArray i v }) := if_pos hi

theorem step_clearCumulative (hi : i < h.arraySize.toNat) : (clearCumulative i).step t h =
    some ((), { h with cumulativeArray := Function.update h.cumulativeArray i 0 }) := if_pos hi

theorem step_wrlock (hlock : h.lock = none) : wrlock.step t h = some ((), { h with lock := some t }) := if_pos hlock

theorem step_unlock (hlock : h.lock = some t) : unlock.step t h = some ((), { h with lock := none }) := if_pos hlock

theorem addCumulative_ends (hi : i < h.arraySize.toNat) {Q : Unit → Histogram ι → Prop}
    (hQ : Q () { h with cumulativeArray := Function.update h.cumulativeArray i (h.cumulativeArray i + v) }) :
    Ends (step t) (addCumulative i v) h Q :=
  Ends.perform_bind (step_loadCumulative hi) (Ends.perform (step_storeCumulative hi) hQ)

theorem addTemp_ends (hi : i < h.arraySize.toNat) {Q : Unit → Histogram ι → Prop}
    (hQ : Q () { h with tempArray := Function.update h.tempArray i (h.tempArray i + v) }) :
    Ends (step t) (addTemp i v) h Q :=
  Ends.perform_bind (step_loadTemp hi) (Ends.perform (step_storeTemp hi) hQ)

end access

/-! ### The search for a bin -/

/-- The bin `b` is the first of `n` whose count, with those of the bins below, reaches `nmax`; without one it is `n`. -/
structure Found (f : ℕ → UInt64) (nmax : UInt64) (n b : ℕ) : Prop where
  le : b ≤ n
  below : ∀ j < b, ∑ k ∈ Finset.range (j + 1), f k < nmax
  reached : b < n → nmax ≤ ∑ k ∈ Finset.range (b + 1), f k

theorem Found.congr {f g : ℕ → UInt64} {nmax : UInt64} {n b : ℕ} (hb : Found f nmax n b) (hfg : ∀ i < n, f i = g i) :
    Found g nmax n b := by
  have hsum : ∀ j < n, ∑ k ∈ Finset.range (j + 1), f k = ∑ k ∈ Finset.range (j + 1), g k := fun j hj =>
    Finset.sum_congr rfl fun k hk => hfg k (by have := Finset.mem_range.mp hk; omega)
  exact ⟨hb.le, fun j hj => hsum j (hj.trans_le hb.le) ▸ hb.below j hj, fun hlt => hsum b hlt ▸ hb.reached hlt⟩

theorem findBin_ends {load : ℕ → HistogramThread UInt64} {f : ℕ → UInt64} {n : ℕ} {nmax : UInt64}
    (hload : ∀ i < n, Ends (step t) (load i) h fun count s => count = f i ∧ s = h) :
    ∀ k i ncur, i + k = n → ncur = ∑ j ∈ Finset.range i, f j → (∀ j < i, ∑ k ∈ Finset.range (j + 1), f k < nmax) →
      Ends (step t) (findBin load nmax i k ncur) h fun b s => Found f nmax n b ∧ s = h := by
  intro k
  induction k with
  | zero =>
    intro i ncur hk hncur hbelow
    exact Ends.pure ⟨⟨by omega, hbelow, fun hlt => absurd hlt (by omega)⟩, rfl⟩
  | succ k ih =>
    intro i ncur hk hncur hbelow
    refine (hload i (by omega)).bind fun count s hs => ?_
    obtain ⟨rfl, rfl⟩ := hs
    have hsum : ncur + f i = ∑ k ∈ Finset.range (i + 1), f k := by rw [Finset.sum_range_succ, hncur]
    split
    · rename_i hge
      exact Ends.pure ⟨⟨by omega, hbelow, fun _ => hsum ▸ hge⟩, rfl⟩
    · rename_i hlt
      refine ih (i + 1) _ (by omega) hsum fun j hj => ?_
      rcases Nat.lt_succ_iff_lt_or_eq.mp hj with hj | rfl
      · exact hbelow j hj
      · exact hsum ▸ UInt64.not_le.mp hlt

/-! ### Merging -/

/-- All counts of the slots of `h` are in the cumulative array of `h'`, and in its total. -/
structure Merged (h h' : Histogram ι) : Prop where
  size : h'.arraySize = h.arraySize
  empty : ∀ i < h.arraySize.toNat, h'.slotSum i = 0
  cumulative : ∀ i < h.arraySize.toNat, h'.cumulativeArray i = h.slotSum i + h.cumulativeArray i
  nevents : h'.cumulativeNevents + h.cumulativeSum = h.cumulativeNevents + h'.cumulativeSum

/-- The slots below `slot`, and of this one the cells below `i`, are empty. -/
def Drained (h : Histogram ι) (slot i : ℕ) : Prop :=
  ∀ s < sbHistogramNslots, ∀ j < h.arraySize.toNat, s < slot ∨ s = slot ∧ j < i → h.intermSlots s j = 0

omit [DecidableEq ι] in
theorem Drained.setSlot {slot i : ℕ} (hd : Drained h slot i) : Drained (h.setSlot slot i 0) slot (i + 1) := by
  intro s hs j hj hlt
  rcases eq_or_ne s slot with rfl | hne
  · rcases eq_or_ne j i with rfl | hji
    · simp only [Histogram.setSlot, Function.update_self]
    · simp only [Histogram.setSlot, Function.update_self, Function.update_of_ne hji]
      exact hd s hs j hj (by omega)
  · simp only [Histogram.setSlot, Function.update_of_ne hne]
    exact hd s hs j hj (by omega)

omit [DecidableEq ι] in
theorem Drained.next {slot : ℕ} (hd : Drained h slot h.arraySize.toNat) : Drained h (slot + 1) 0 :=
  fun s hs j hj hlt => hd s hs j hj (by omega)

omit [DecidableEq ι] in
theorem Drained.slotSum {i j : ℕ} (hd : Drained h sbHistogramNslots i) (hj : j < h.arraySize.toNat) : h.slotSum j = 0 :=
  Finset.sum_eq_zero fun s hs => hd s (Finset.mem_range.mp hs) j hj (Or.inl (Finset.mem_range.mp hs))

omit [DecidableEq ι] in
/-- The count of a slot moves to an array. -/
theorem slotSum_moved {slot : ℕ} (hslot : slot < sbHistogramNslots) (i j : ℕ) (f : ℕ → UInt64) :
    (h.setSlot slot i 0).slotSum j + Function.update f i (f i + h.intermSlots slot i) j = h.slotSum j + f j := by
  rcases eq_or_ne j i with rfl | hne
  · have hsum := slotSum_setSlot h hslot j 0
    rw [add_zero] at hsum
    rw [Function.update_self, ← hsum]
    abel
  · rw [Function.update_of_ne hne, slotSum_setSlot_of_ne _ _ hne]

/-- The state of a merge before cell `i` of slot `slot`, with the total `n`. -/
structure MergeLoop (t : ι) (h : Histogram ι) (slot i : ℕ) (n : UInt64) (h' : Histogram ι) : Prop where
  lock : h'.lock = some t
  size : h'.arraySize = h.arraySize
  kept : ∀ j < h.arraySize.toNat, h'.slotSum j + h'.cumulativeArray j = h.slotSum j + h.cumulativeArray j
  total : n + h.cumulativeSum = h.cumulativeNevents + h'.cumulativeSum
  drained : Drained h' slot i

theorem mergeSlot_ends {slot i : ℕ} {n : UInt64} (hslot : slot < sbHistogramNslots) (hi : i < h.arraySize.toNat)
    (hm : MergeLoop t h slot i n h') :
    Ends (step t) (mergeSlot slot i n) h' (MergeLoop t h slot (i + 1)) := by
  obtain ⟨hlock, hsize, hkept, htotal, hdrained⟩ := hm
  rw [← hsize] at hi
  refine Ends.perform_bind (step_fasSlot hslot hi) ((addCumulative_ends (h := h'.setSlot slot i 0) hi
    (Q := fun _ => MergeLoop t h slot (i + 1) (n + h'.intermSlots slot i)) ?_).bind fun _ s hs => Ends.pure hs)
  refine ⟨hlock, hsize, fun j hj => ?_, ?_, hdrained.setSlot⟩
  · show (h'.setSlot slot i 0).slotSum j +
      Function.update h'.cumulativeArray i (h'.cumulativeArray i + h'.intermSlots slot i) j = _
    rw [← hkept j hj, slotSum_moved hslot]
  · refine add_right_cancel (b := h'.cumulativeArray i) ?_
    show n + h'.intermSlots slot i + h.cumulativeSum + _ = h.cumulativeNevents +
      ∑ j ∈ Finset.range h'.arraySize.toNat,
        Function.update h'.cumulativeArray i (h'.cumulativeArray i + h'.intermSlots slot i) j + _
    rw [add_assoc h.cumulativeNevents, sum_update hi]
    calc _ = n + h.cumulativeSum + (h'.cumulativeArray i + h'.intermSlots slot i) := by abel
      _ = h.cumulativeNevents + h'.cumulativeSum + (h'.cumulativeArray i + h'.intermSlots slot i) := by rw [htotal]
      _ = _ := by rw [Histogram.cumulativeSum]; abel

theorem mergeIntermediateIntoCumulative_ends (hlock : h.lock = some t) :
    Ends (step t) mergeIntermediateIntoCumulative h fun _ h' => Merged h h' ∧ h'.lock = some t := by
  refine Ends.perform_bind rfl (Ends.perform_bind rfl ?_)
  have hstart : MergeLoop t h 0 0 h.cumulativeNevents h :=
    ⟨hlock, rfl, fun _ _ => rfl, rfl, fun _ _ _ _ hlt => absurd hlt (by omega)⟩
  refine (Ends.loopUp (I := fun slot n h' => MergeLoop t h slot 0 n h') hstart fun slot n h' _ hslot hm => ?_).bind
    fun n h' hm => ?_
  · refine (Ends.loopUp (I := MergeLoop t h slot) hm fun i n h' _ hi hm => mergeSlot_ends (by omega) (by omega) hm).mono
      fun n h' hm => ⟨hm.lock, hm.size, hm.kept, hm.total, ?_⟩
    refine Drained.next ?_
    rw [hm.size, ← Nat.zero_add h.arraySize.toNat]
    exact hm.drained
  · rw [Nat.zero_add] at hm
    refine Ends.perform rfl ⟨⟨hm.size, fun i hi => hm.drained.slotSum (by rwa [hm.size]), fun i hi => ?_, hm.total⟩, hm.lock⟩
    have hkept := hm.kept i hi
    rwa [hm.drained.slotSum (by rwa [hm.size]), zero_add] at hkept

theorem getPctCumulative_ends (percentile : ℚ) :
    Ends (step t) (getPctCumulative percentile) h fun b h' =>
      Found h.cumulativeArray (rank h.cumulativeNevents percentile) h.arraySize.toNat b ∧ h' = h :=
  Ends.perform_bind rfl (Ends.perform_bind rfl (findBin_ends
    (fun _ hi => Ends.perform (step_loadCumulative hi) ⟨rfl, rfl⟩) _ _ _ (Nat.zero_add _) rfl
    fun j hj => absurd hj (Nat.not_lt_zero j)))

/-! ### The intermediate percentile -/

/-- What the thread has taken from the slots of `h` is in the temporary array, `n` counts in all. -/
structure Taking (t : ι) (h : Histogram ι) (slot i k : ℕ) (n : UInt64) (h' : Histogram ι) : Prop where
  lock : h'.lock = some t
  size : h'.arraySize = h.arraySize
  cumulative : h'.cumulativeArray = h.cumulativeArray
  nevents : h'.cumulativeNevents = h.cumulativeNevents
  kept : ∀ j < h.arraySize.toNat, h'.slotSum j + (if j < k then h'.tempArray j else 0) = h.slotSum j
  total : n = ∑ j ∈ Finset.range k, h'.tempArray j
  drained : Drained h' slot i

theorem takeFirst_ends {i : ℕ} {n : UInt64} (hi : i < h.arraySize.toNat) (hm : Taking t h 0 i i n h') :
    Ends (step t) (takeFirst i n) h' (Taking t h 0 (i + 1) (i + 1)) := by
  obtain ⟨hlock, hsize, hcum, hnevents, hkept, htotal, hdrained⟩ := hm
  rw [← hsize] at hi
  have hslot : 0 < sbHistogramNslots := by decide
  refine Ends.perform_bind (step_fasSlot hslot hi) (Ends.perform_bind (step_storeTemp hi)
    (Ends.perform_bind (step_loadTemp hi) (Ends.pure ⟨hlock, hsize, hcum, hnevents, fun j hj => ?_, ?_, hdrained.setSlot⟩)))
  · show (h'.setSlot 0 i 0).slotSum j +
      (if j < i + 1 then Function.update h'.tempArray i (h'.intermSlots 0 i) j else 0) = _
    rw [← hkept j hj]
    rcases eq_or_ne j i with rfl | hne
    · rw [Function.update_self, if_pos (Nat.lt_succ_self j), if_neg (lt_irrefl j), slotSum_setSlot h' hslot]
    · rw [Function.update_of_ne hne, slotSum_setSlot_of_ne _ _ hne]
      exact congrArg _ (if_congr (by omega) rfl rfl)
  · show n + Function.update h'.tempArray i (h'.intermSlots 0 i) i =
      ∑ j ∈ Finset.range (i + 1), Function.update h'.tempArray i (h'.intermSlots 0 i) j
    rw [htotal, Finset.sum_range_succ, Finset.sum_congr rfl fun j hj =>
      (Function.update_of_ne (ne_of_lt (Finset.mem_range.mp hj)) (h'.intermSlots 0 i) h'.tempArray).symm]

theorem takeSlot_ends {slot i : ℕ} {n : UInt64} (hslot : slot < sbHistogramNslots) (hi : i < h.arraySize.toNat)
    (hm : Taking t h slot i h.arraySize.toNat n h') :
    Ends (step t) (takeSlot slot i n) h' (Taking t h slot (i + 1) h.arraySize.toNat) := by
  obtain ⟨hlock, hsize, hcum, hnevents, hkept, htotal, hdrained⟩ := hm
  have hi' := hi
  rw [← hsize] at hi'
  refine Ends.perform_bind (step_fasSlot hslot hi') ((addTemp_ends (h := h'.setSlot slot i 0) hi'
    (Q := fun _ => Taking t h slot (i + 1) h.arraySize.toNat (n + h'.intermSlots slot i)) ?_).bind
      fun _ s hs => Ends.pure hs)
  refine ⟨hlock, hsize, hcum, hnevents, fun j hj => ?_, ?_, hdrained.setSlot⟩
  · show (h'.setSlot slot i 0).slotSum j + (if j < h.arraySize.toNat then
      Function.update h'.tempArray i (h'.tempArray i + h'.intermSlots slot i) j else 0) = _
    rw [← hkept j hj, if_pos hj, if_pos hj, slotSum_moved hslot]
  · refine add_right_cancel (b := h'.tempArray i) ?_
    show n + h'.intermSlots slot i + _ = ∑ j ∈ Finset.range h.arraySize.toNat,
      Function.update h'.tempArray i (h'.tempArray i + h'.intermSlots slot i) j + _
    rw [sum_update hi, htotal]
    abel

/-- The cells below `i` of the temporary array are added to the cumulative array of `h`. -/
structure Copying (t : ι) (h : Histogram ι) (i : ℕ) (h' : Histogram ι) : Prop where
  lock : h'.lock = some t
  size : h'.arraySize = h.arraySize
  slots : h'.intermSlots = h.intermSlots
  temp : h'.tempArray = h.tempArray
  nevents : h'.cumulativeNevents = h.cumulativeNevents
  cumulative : h'.cumulativeArray = fun j => if j < i then h.cumulativeArray j + h.tempArray j else h.cumulativeArray j

theorem copyTemp_ends {i : ℕ} (hi : i < h.arraySize.toNat) (hm : Copying t h i h') :
    Ends (step t) (do
      let t ← perform (loadTemp i)
      addCumulative i t) h' fun _ => Copying t h (i + 1) := by
  obtain ⟨hlock, hsize, hslots, htemp, hnevents, hcum⟩ := hm
  rw [← hsize] at hi
  refine Ends.perform_bind (step_loadTemp hi) (addCumulative_ends hi ⟨hlock, hsize, hslots, htemp, hnevents, ?_⟩)
  funext j
  show Function.update h'.cumulativeArray i (h'.cumulativeArray i + h'.tempArray i) j = _
  rcases eq_or_ne j i with rfl | hne
  · rw [Function.update_self, if_pos (Nat.lt_succ_self j), hcum, htemp]
    exact congrArg (· + h.tempArray j) (if_neg (lt_irrefl j))
  · rw [Function.update_of_ne hne, hcum]
    exact if_congr (by omega) rfl rfl

theorem sbHistogramGetPctIntermediate_ends (hlock : h.lock = none) (percentile : ℚ) :
    Ends (step t) (sbHistogramGetPctIntermediate percentile) h fun b h' =>
      Found h.slotSum (rank (∑ i ∈ Finset.range h.arraySize.toNat, h.slotSum i) percentile) h.arraySize.toNat b ∧
      Merged h h' ∧ h'.lock = none := by
  refine Ends.perform_bind (step_wrlock hlock) (Ends.perform_bind (r := h.arraySize) rfl ?_)
  have hstart : Taking t h 0 0 0 0 { h with lock := some t } := ⟨rfl, rfl, rfl, rfl, fun j _ => add_zero _, rfl,
    fun _ _ _ _ hlt => absurd hlt (by omega)⟩
  refine (Ends.loopUp (I := fun i => Taking t h 0 i i) hstart fun i n h' _ hi hm => takeFirst_ends (by omega) hm).bind
    fun n h₂ hm => ?_
  rw [Nat.zero_add] at hm
  have hfirst : Taking t h 1 0 h.arraySize.toNat n h₂ :=
    ⟨hm.lock, hm.size, hm.cumulative, hm.nevents, hm.kept, hm.total, Drained.next (by rw [hm.size]; exact hm.drained)⟩
  refine (Ends.loopUp (I := fun slot => Taking t h slot 0 h.arraySize.toNat) hfirst fun slot n h' _ hslot hm => ?_).bind
    fun n h₃ hm => ?_
  · have hslot' : slot < sbHistogramNslots := by
      have : 1 + (sbHistogramNslots - 1) = sbHistogramNslots := rfl
      omega
    refine (Ends.loopUp (I := fun i => Taking t h slot i h.arraySize.toNat) hm
      fun i n h' _ hi hm => takeSlot_ends hslot' (by omega) hm).mono fun n h' hm =>
        ⟨hm.lock, hm.size, hm.cumulative, hm.nevents, hm.kept, hm.total, Drained.next ?_⟩
    rw [hm.size, ← Nat.zero_add h.arraySize.toNat]
    exact hm.drained
  obtain ⟨hlock₃, hsize₃, hcum₃, hnevents₃, hkept₃, htotal₃, hdrained₃⟩ := hm
  have hempty : ∀ i < h.arraySize.toNat, h₃.slotSum i = 0 := fun i hi =>
    Drained.slotSum (i := 0) hdrained₃ (by rwa [hsize₃])
  have htemp : ∀ i < h.arraySize.toNat, h₃.tempArray i = h.slotSum i := fun i hi => by
    have hkept := hkept₃ i hi
    rwa [hempty i hi, if_pos hi, zero_add] at hkept
  have hsum : n = ∑ i ∈ Finset.range h.arraySize.toNat, h.slotSum i :=
    htotal₃.trans (Finset.sum_congr rfl fun i hi => htemp i (Finset.mem_range.mp hi))
  refine (findBin_ends (h := h₃) (n := h.arraySize.toNat) (fun i hi => Ends.perform (step_loadTemp (by rwa [hsize₃]))
    ⟨rfl, rfl⟩) _ _ _ (Nat.zero_add _) rfl fun j hj => absurd hj (Nat.not_lt_zero j)).bind fun b h₃' hb => ?_
  obtain ⟨hb, rfl⟩ := hb
  have hcopy : Copying t h₃' 0 h₃' := ⟨hlock₃, rfl, rfl, rfl, rfl, funext fun j => (if_neg (Nat.not_lt_zero j)).symm⟩
  refine (Ends.loopUp (I := fun i _ => Copying t h₃' i) hcopy fun i _ h' _ hi hm =>
    copyTemp_ends (by rw [hsize₃]; omega) hm).bind fun _ h₄ hm => ?_
  rw [Nat.zero_add] at hm
  obtain ⟨hlock₄, hsize₄, hslots₄, -, hnevents₄, hcum₄⟩ := hm
  have hcum : ∀ i < h.arraySize.toNat, h₄.cumulativeArray i = h.slotSum i + h.cumulativeArray i := fun i hi => by
    rw [hcum₄, hcum₃, ← htemp i hi, add_comm]
    exact if_pos hi
  refine Ends.perform_bind rfl (Ends.perform_bind rfl (Ends.perform_bind (step_unlock hlock₄) (Ends.pure
    ⟨?_, ⟨hsize₄.trans hsize₃, fun i hi => ?_, hcum, ?_⟩, rfl⟩)))
  · rw [hsum] at hb
    exact hb.congr htemp
  · show ∑ s ∈ Finset.range sbHistogramNslots, h₄.intermSlots s i = 0
    rw [hslots₄]
    exact hempty i hi
  · show h₄.cumulativeNevents + n + h.cumulativeSum =
      h.cumulativeNevents + ∑ i ∈ Finset.range h₄.arraySize.toNat, h₄.cumulativeArray i
    rw [hnevents₄, hnevents₃, hsize₄, hsize₃, Finset.sum_congr rfl fun i hi => hcum i (Finset.mem_range.mp hi),
      Finset.sum_add_distrib, ← hsum, Histogram.cumulativeSum, add_assoc]

/-! ### The other functions -/

theorem sbHistogramUpdate_ends {random : UInt64} {i : Int64} (hi : (clampBin h.arraySize i).toUInt64.toNat < h.arraySize.toNat) :
    Ends (step t) (sbHistogramUpdate random i) h fun _ h' =>
      h' = h.setSlot (random.toNat % sbHistogramNslots) (clampBin h.arraySize i).toUInt64.toNat
        (h.intermSlots (random.toNat % sbHistogramNslots) (clampBin h.arraySize i).toUInt64.toNat + 1) :=
  Ends.perform_bind rfl (Ends.perform (step_incSlot (Nat.mod_lt _ (by decide)) hi) rfl)

/-- The lock and the merge that three of the functions start with. -/
theorem merge_ends {α : Type} (hlock : h.lock = none) {f : Unit → HistogramThread α} {Q : α → Histogram ι → Prop}
    (hf : ∀ h', Merged h h' → h'.lock = some t → Ends (step t) (f ()) h' Q) :
    Ends (step t) (do perform wrlock; let r ← mergeIntermediateIntoCumulative; f r) h Q := by
  refine Ends.perform_bind (step_wrlock hlock) ((mergeIntermediateIntoCumulative_ends (h := { h with lock := some t })
    rfl).bind fun _ h' hm => hf h' ?_ hm.2)
  exact ⟨hm.1.size, hm.1.empty, hm.1.cumulative, hm.1.nevents⟩

theorem sbHistogramGetPctCumulative_ends (hlock : h.lock = none) (percentile : ℚ) :
    Ends (step t) (sbHistogramGetPctCumulative percentile) h fun b h' =>
      Found h'.cumulativeArray (rank h'.cumulativeNevents percentile) h.arraySize.toNat b ∧ Merged h h' ∧ h'.lock = none := by
  refine merge_ends hlock fun h₁ hm hlock₁ => (getPctCumulative_ends percentile).bind fun b h₂ hb => ?_
  obtain ⟨hb, rfl⟩ := hb
  rw [hm.size] at hb
  exact Ends.perform_bind (step_unlock hlock₁) (Ends.pure
    ⟨hb, ⟨hm.size, hm.empty, hm.cumulative, hm.nevents⟩, rfl⟩)

/-- Nothing is recorded in the histogram. -/
structure Cleared (size : UInt64) (h : Histogram ι) : Prop where
  dims : h.arraySize = size
  slots : ∀ i < size.toNat, h.slotSum i = 0
  cumulative : ∀ i < size.toNat, h.cumulativeArray i = 0
  nevents : h.cumulativeNevents = 0

theorem sbHistogramGetPctCheckpoint_ends (hlock : h.lock = none) (percentile : ℚ) :
    Ends (step t) (sbHistogramGetPctCheckpoint percentile) h fun b h' =>
      (∃ h₁, Merged h h₁ ∧ Found h₁.cumulativeArray (rank h₁.cumulativeNevents percentile) h.arraySize.toNat b) ∧
      Cleared h.arraySize h' ∧ h'.lock = none := by
  refine merge_ends hlock fun h₁ hm hlock₁ => (getPctCumulative_ends percentile).bind fun b h₂ hb => ?_
  obtain ⟨hb, rfl⟩ := hb
  rw [hm.size] at hb
  refine Ends.perform_bind (r := h₂.arraySize) rfl ((Ends.loopUp (I := fun i _ h' => h'.lock = some t ∧
    h'.arraySize = h₂.arraySize ∧ h'.intermSlots = h₂.intermSlots ∧ ∀ j < i, h'.cumulativeArray j = 0)
    ⟨hlock₁, rfl, rfl, fun j hj => absurd hj (Nat.not_lt_zero j)⟩ fun i _ h' _ hi hloop => ?_).bind fun _ h₃ hloop => ?_)
  · obtain ⟨hlock', hsize', hslots', hzero'⟩ := hloop
    refine Ends.perform (step_clearCumulative (by rw [hsize']; omega)) ⟨hlock', hsize', hslots', fun j hj => ?_⟩
    rcases eq_or_ne j i with rfl | hne
    · exact Function.update_self _ _ _
    · exact (Function.update_of_ne hne _ _).trans (hzero' j (by omega))
  · obtain ⟨hlock₃, hsize₃, hslots₃, hzero₃⟩ := hloop
    rw [Nat.zero_add, hm.size] at hzero₃
    refine Ends.perform_bind rfl (Ends.perform_bind (step_unlock hlock₃) (Ends.pure
      ⟨⟨h₂, hm, hb⟩, ⟨hsize₃.trans hm.size, fun i hi => ?_, hzero₃, rfl⟩, rfl⟩))
    show ∑ s ∈ Finset.range sbHistogramNslots, h₃.intermSlots s i = 0
    rw [hslots₃]
    exact hm.empty i hi

/-- Some bin has a count. -/
def Recorded (h : Histogram ι) : Prop := ∃ i < h.arraySize.toNat, h.slotSum i + h.cumulativeArray i ≠ 0

/-- `sb_histogram_print` keeps the lock of a histogram without counts. -/
theorem sbHistogramPrint_ends (hlock : h.lock = none) :
    Ends (step t) sbHistogramPrint h fun _ h' =>
      Merged h h' ∧ (Recorded h → h'.lock = none) ∧ (¬Recorded h → h'.lock = some t) := by
  refine merge_ends hlock fun h₁ hm hlock₁ => Ends.perform_bind (r := h₁.arraySize) rfl
    ((Ends.loopUp (I := fun i m h' => h' = h₁ ∧ (m = 0 ↔ ∀ j < i, h₁.cumulativeArray j = 0))
      ⟨rfl, fun _ j hj => absurd hj (Nat.not_lt_zero j), fun _ => rfl⟩ fun i m h' _ hi hloop => ?_).bind
        fun maxcnt h₂ hloop => ?_)
  · obtain ⟨rfl, hm⟩ := hloop
    refine Ends.perform_bind (step_loadCumulative (by omega)) (Ends.pure ⟨rfl, ?_⟩)
    rw [Nat.forall_lt_succ_right, ← hm]
    split
    · rename_i hgt
      have hpos : h'.cumulativeArray i ≠ 0 := fun h0 => absurd (h0 ▸ hgt : (0 : UInt64) > m) UInt64.not_lt_zero
      exact ⟨fun h0 => absurd h0 hpos, fun h0 => h0.2⟩
    · rename_i hle
      refine ⟨fun h0 => ⟨h0, ?_⟩, fun h0 => h0.1⟩
      subst h0
      exact UInt64.le_zero_iff.mp (UInt64.not_lt.mp hle)
  · obtain ⟨rfl, hmax⟩ := hloop
    have hrecorded : Recorded h ↔ maxcnt ≠ 0 := by
      rw [Nat.zero_add, hm.size] at hmax
      rw [Ne, hmax, not_forall₂]
      simp only [exists_prop]
      exact exists_congr fun i => and_congr_right fun hi => by rw [hm.cumulative i hi]
    split
    · rename_i hzero
      exact Ends.pure ⟨hm, fun hr => absurd hzero (hrecorded.mp hr), fun _ => hlock₁⟩
    · rename_i hne
      refine (Ends.loopUp (I := fun _ _ h' => h' = h₂) rfl fun i lines h' _ hi hloop => ?_).bind fun lines h₃ hloop => ?_
      · obtain rfl := hloop
        exact Ends.perform_bind (step_loadCumulative (by omega)) (Ends.pure rfl)
      · obtain rfl := hloop
        exact Ends.perform_bind (step_unlock hlock₁) (Ends.pure
          ⟨⟨hm.size, hm.empty, hm.cumulative, hm.nevents⟩, fun _ => rfl, fun hr => absurd (hrecorded.mpr hne) hr⟩)

/-! ### Sequences of calls -/

/-- The histogram after the calls. -/
def runCalls (t : ι) (h : Histogram ι) : List HistogramCall → Option (Histogram ι)
  | [] => some h
  | c :: cs => (c.body.solo (step t) h).bind fun r => runCalls t r.2 cs

theorem runCalls_append (h : Histogram ι) (cs ds : List HistogramCall) :
    runCalls t h (cs ++ ds) = (runCalls t h cs).bind fun h => runCalls t h ds := by
  induction cs generalizing h with
  | nil => rfl
  | cons c cs ih =>
    rw [List.cons_append, runCalls, runCalls, Option.bind_assoc]
    exact Option.bind_congr fun r _ => ih r.2

theorem runCalls_snoc {cs : List HistogramCall} {c : HistogramCall} {h h₁ h₂ : Histogram ι} {b : Option ℕ}
    (hcs : runCalls t h cs = some h₁) (hc : c.body.solo (step t) h₁ = some (b, h₂)) :
    runCalls t h (cs ++ [c]) = some h₂ := by
  rw [runCalls_append, hcs, Option.bind_some, runCalls, hc]
  rfl

end NuKSM.Sysbench
