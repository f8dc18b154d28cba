import NuKSM.Sysbench.Histogram

/-! # No update is lost

Each update of a histogram is in a slot, in the cumulative array, among those that a checkpoint has discarded, or on its
way through a thread that holds the lock. Only that thread moves counts, and updates by other threads change the slots
alone. -/

namespace NuKSM.Sysbench
open Thread HistogramOp

variable {ι : Type}

/-! ### Slots -/

theorem sum_update {n i : ℕ} (hi : i < n) (f : ℕ → UInt64) (v : UInt64) :
    ∑ j ∈ Finset.range n, Function.update f i v j + f i = ∑ j ∈ Finset.range n, f j + v := by
  have hmem := Finset.mem_range.mpr hi
  rw [Finset.sum_update_of_mem hmem, Finset.sum_eq_add_sum_sdiff_singleton_of_mem hmem f]
  abel

/-- The count of a bin in all slots. -/
def Histogram.slotSum (h : Histogram ι) (i : ℕ) : UInt64 := ∑ s ∈ Finset.range sbHistogramNslots, h.intermSlots s i

/-- The count of all bins in the cumulative array. -/
def Histogram.cumulativeSum (h : Histogram ι) : UInt64 := ∑ i ∈ Finset.range h.arraySize.toNat, h.cumulativeArray i

theorem slotSum_setSlot (h : Histogram ι) {slot : ℕ} (hslot : slot < sbHistogramNslots) (i : ℕ) (v : UInt64) :
    (h.setSlot slot i v).slotSum i + h.intermSlots slot i = h.slotSum i + v := by
  have hupdate : ∀ s, (h.setSlot slot i v).intermSlots s i = Function.update (h.intermSlots · i) slot v s := by
    intro s
    rcases eq_or_ne s slot with rfl | hne
    · simp only [Histogram.setSlot, Function.update_self]
    · simp only [Histogram.setSlot, Function.update_of_ne hne]
  unfold Histogram.slotSum
  rw [Finset.sum_congr rfl fun s _ => hupdate s]
  exact sum_update hslot (h.intermSlots · i) v

theorem slotSum_setSlot_of_ne (h : Histogram ι) (slot : ℕ) {i j : ℕ} (hne : j ≠ i) (v : UInt64) :
    (h.setSlot slot i v).slotSum j = h.slotSum j := by
  refine Finset.sum_congr rfl fun s _ => ?_
  rcases eq_or_ne s slot with rfl | hs
  · simp only [Histogram.setSlot, Function.update_self, Function.update_of_ne hne]
  · simp only [Histogram.setSlot, Function.update_of_ne hs]

/-! ### What has been done to a histogram -/

/-- The updates of each bin, and the counts that checkpoints have discarded. -/
structure Tally where
  updates : ℕ → ℕ
  discarded : ℕ → UInt64

def Tally.zero : Tally := ⟨fun _ => 0, fun _ => 0⟩

def Tally.record (g : Tally) (h : Histogram ι) : HistogramOp → Tally
  | .incSlot _ i => { g with updates := Function.update g.updates i (g.updates i + 1) }
  | .clearCumulative i => { g with discarded := Function.update g.discarded i (g.discarded i + h.cumulativeArray i) }
  | _ => g

/-- An access to a histogram, with its effect on the tally. -/
def tallied [DecidableEq ι] (t : ι) (op : HistogramOp) (s : Histogram ι × Tally) (r : op.Res) (s' : Histogram ι × Tally) : Prop :=
  op.step t s.1 = some (r, s'.1) ∧ s'.2 = s.2.record s.1 op

theorem tallied_of_step [DecidableEq ι] {t : ι} {op : HistogramOp} {h h' : Histogram ι} {g : Tally} {r : op.Res}
    (hstep : op.step t h = some (r, h')) : tallied t op (h, g) r (h', g.record h op) := ⟨hstep, rfl⟩

/-- Every update is accounted for, those of bin `i` up to `extra i`. -/
def Accounted (extra : ℕ → UInt64) (s : Histogram ι × Tally) : Prop :=
  ∀ i < s.1.arraySize.toNat,
    UInt64.ofNat (s.2.updates i) = s.1.slotSum i + s.1.cumulativeArray i + s.2.discarded i + extra i

/-- What the thread that holds the lock finds again after the turns of the others. -/
structure Undisturbed (s s' : Histogram ι × Tally) : Prop where
  lock : s'.1.lock = s.1.lock
  size : s'.1.arraySize = s.1.arraySize
  temp : s'.1.tempArray = s.1.tempArray
  cumulative : s'.1.cumulativeArray = s.1.cumulativeArray
  nevents : s'.1.cumulativeNevents = s.1.cumulativeNevents
  discarded : s'.2.discarded = s.2.discarded
  updates : ∀ i, UInt64.ofNat (s'.2.updates i) + s.1.slotSum i = UInt64.ofNat (s.2.updates i) + s'.1.slotSum i

theorem Undisturbed.refl (s : Histogram ι × Tally) : Undisturbed s s := ⟨rfl, rfl, rfl, rfl, rfl, rfl, fun _ => rfl⟩

theorem Undisturbed.trans {s₁ s₂ s₃ : Histogram ι × Tally} (h₁ : Undisturbed s₁ s₂) (h₂ : Undisturbed s₂ s₃) :
    Undisturbed s₁ s₃ where
  lock := h₂.lock.trans h₁.lock
  size := h₂.size.trans h₁.size
  temp := h₂.temp.trans h₁.temp
  cumulative := h₂.cumulative.trans h₁.cumulative
  nevents := h₂.nevents.trans h₁.nevents
  discarded := h₂.discarded.trans h₁.discarded
  updates := fun i => by
    have := congrArg₂ (· + ·) (h₁.updates i) (h₂.updates i)
    refine add_right_cancel (b := UInt64.ofNat (s₂.2.updates i) + s₂.1.slotSum i) ?_
    calc _ = UInt64.ofNat (s₂.2.updates i) + s₁.1.slotSum i + (UInt64.ofNat (s₃.2.updates i) + s₂.1.slotSum i) := by abel
      _ = UInt64.ofNat (s₁.2.updates i) + s₂.1.slotSum i + (UInt64.ofNat (s₂.2.updates i) + s₃.1.slotSum i) := this
      _ = _ := by abel

theorem Undisturbed.accounted {s s' : Histogram ι × Tally} (h : Undisturbed s s') {extra : ℕ → UInt64}
    (hs : Accounted extra s) : Accounted extra s' := by
  intro i hi
  rw [h.size] at hi
  rw [h.cumulative, h.discarded]
  refine add_right_cancel (b := s.1.slotSum i) ?_
  rw [h.updates i, hs i hi]
  abel

section threads
variable [DecidableEq ι]

/-- An update by any thread. -/
theorem undisturbed_incSlot {t : ι} {slot i : ℕ} {s s' : Histogram ι × Tally} {r : Unit}
    (hexec : tallied t (incSlot slot i) s r s') : Undisturbed s s' := by
  obtain ⟨hstep, htally⟩ := hexec
  simp only [step, Option.ite_none_right_eq_some, Option.some.injEq, Prod.mk.injEq, true_and] at hstep
  obtain ⟨⟨hslot, -⟩, hs'⟩ := hstep
  refine ⟨?_, ?_, ?_, ?_, ?_, ?_, fun j => ?_⟩
  · rw [← hs']; rfl
  · rw [← hs']; rfl
  · rw [← hs']; rfl
  · rw [← hs']; rfl
  · rw [← hs']; rfl
  · rw [htally]; rfl
  rw [← hs', htally]
  simp only [Tally.record]
  rcases eq_or_ne j i with rfl | hne
  · rw [Function.update_self, UInt64.ofNat_add]
    refine add_right_cancel (b := s.1.intermSlots slot j) ?_
    calc _ = UInt64.ofNat (s.2.updates j) + (s.1.slotSum j + (s.1.intermSlots slot j + 1)) := by
          show UInt64.ofNat (s.2.updates j) + 1 + _ + _ = _
          abel
      _ = _ := by rw [← slotSum_setSlot s.1 hslot]; abel
  · rw [Function.update_of_ne hne, slotSum_setSlot_of_ne _ _ hne]

/-! ### The thread that holds the lock -/

/-- The thread `t` holds the lock and knows the histogram; of bin `i` it has taken out `extra i` updates. -/
structure Held (t : ι) (temp cum : ℕ → UInt64) (nevents : UInt64) (extra : ℕ → UInt64) (size : UInt64)
    (s : Histogram ι × Tally) : Prop where
  lock : s.1.lock = some t
  size : s.1.arraySize = size
  temp : s.1.tempArray = temp
  cum : s.1.cumulativeArray = cum
  nevents : s.1.cumulativeNevents = nevents
  accounted : Accounted extra s

namespace Held
variable {t : ι} {temp cum extra : ℕ → UInt64} {n size : UInt64} {s s' : Histogram ι × Tally}

omit [DecidableEq ι] in
theorem undisturbed (h : Held t temp cum n extra size s) (hs : Undisturbed s s') : Held t temp cum n extra size s' :=
  ⟨hs.lock.trans h.lock, hs.size.trans h.size, hs.temp.trans h.temp, hs.cumulative.trans h.cum,
    hs.nevents.trans h.nevents, hs.accounted h.accounted⟩

omit [DecidableEq ι] in
theorem congr {extra' : ℕ → UInt64} (h : Held t temp cum n extra size s)
    (hextra : ∀ i < size.toNat, extra i = extra' i) : Held t temp cum n extra' size s :=
  ⟨h.lock, h.size, h.temp, h.cum, h.nevents, fun i hi => by
    rw [h.accounted i hi, hextra i (by rwa [h.size] at hi)]⟩

theorem loadArraySize {r : UInt64} (h : Held t temp cum n extra size s)
    (hexec : tallied t HistogramOp.loadArraySize s r s') : r = size ∧ Held t temp cum n extra size s' := by
  obtain ⟨hstep, htally⟩ := hexec
  cases s
  cases s'
  cases hstep
  cases htally
  exact ⟨h.size, h⟩

theorem loadNevents {r : UInt64} (h : Held t temp cum n extra size s)
    (hexec : tallied t HistogramOp.loadNevents s r s') : r = n ∧ Held t temp cum n extra size s' := by
  obtain ⟨hstep, htally⟩ := hexec
  cases s
  cases s'
  cases hstep
  cases htally
  exact ⟨h.nevents, h⟩

theorem loadTemp {i : ℕ} {r : UInt64} (h : Held t temp cum n extra size s)
    (hexec : tallied t (HistogramOp.loadTemp i) s r s') : r = temp i ∧ Held t temp cum n extra size s' := by
  obtain ⟨hstep, htally⟩ := hexec
  simp only [step, Option.ite_none_right_eq_some, Option.some.injEq, Prod.mk.injEq] at hstep
  obtain ⟨-, rfl, hs'⟩ := hstep
  obtain rfl : s = s' := Prod.ext hs' htally.symm
  exact ⟨congrFun h.temp i, h⟩

theorem loadCumulative {i : ℕ} {r : UInt64} (h : Held t temp cum n extra size s)
    (hexec : tallied t (HistogramOp.loadCumulative i) s r s') : r = cum i ∧ Held t temp cum n extra size s' := by
  obtain ⟨hstep, htally⟩ := hexec
  simp only [step, Option.ite_none_right_eq_some, Option.some.injEq, Prod.mk.injEq] at hstep
  obtain ⟨-, rfl, hs'⟩ := hstep
  obtain rfl : s = s' := Prod.ext hs' htally.symm
  exact ⟨congrFun h.cum i, h⟩

theorem storeNevents {v : UInt64} {r : Unit} (h : Held t temp cum n extra size s)
    (hexec : tallied t (HistogramOp.storeNevents v) s r s') : Held t temp cum v extra size s' := by
  obtain ⟨hstep, htally⟩ := hexec
  simp only [step, Option.some.injEq, Prod.mk.injEq] at hstep
  obtain rfl : ({ s.1 with cumulativeNevents := v }, s.2) = s' := Prod.ext hstep.2 htally.symm
  exact ⟨h.lock, h.size, h.temp, h.cum, rfl, h.accounted⟩

theorem storeTemp {i : ℕ} {v : UInt64} {r : Unit} (h : Held t temp cum n extra size s)
    (hexec : tallied t (HistogramOp.storeTemp i v) s r s') : Held t (Function.update temp i v) cum n extra size s' := by
  obtain ⟨hstep, htally⟩ := hexec
  simp only [step, Option.ite_none_right_eq_some, Option.some.injEq, Prod.mk.injEq] at hstep
  obtain rfl : ({ s.1 with tempArray := Function.update s.1.tempArray i v }, s.2) = s' :=
    Prod.ext hstep.2.2 htally.symm
  exact ⟨h.lock, h.size, by rw [← h.temp], h.cum, h.nevents, h.accounted⟩

/-- What the thread takes from a slot is on its way. -/
theorem fasSlot {slot i : ℕ} {r : UInt64} (h : Held t temp cum n extra size s)
    (hexec : tallied t (HistogramOp.fasSlot slot i) s r s') :
    Held t temp cum n (Function.update extra i (extra i + r)) size s' := by
  obtain ⟨hstep, htally⟩ := hexec
  simp only [step, Option.ite_none_right_eq_some, Option.some.injEq, Prod.mk.injEq] at hstep
  obtain ⟨⟨hslot, -⟩, rfl, hs'⟩ := hstep
  obtain rfl : (s.1.setSlot slot i 0, s.2) = s' := Prod.ext hs' htally.symm
  refine ⟨h.lock, h.size, h.temp, h.cum, h.nevents, fun j hj => (h.accounted j hj).trans ?_⟩
  show s.1.slotSum j + s.1.cumulativeArray j + s.2.discarded j + extra j =
    (s.1.setSlot slot i 0).slotSum j + s.1.cumulativeArray j + s.2.discarded j +
      Function.update extra i (extra i + s.1.intermSlots slot i) j
  rcases eq_or_ne j i with rfl | hne
  · have hsum := slotSum_setSlot s.1 hslot j 0
    rw [add_zero] at hsum
    rw [Function.update_self, ← hsum]
    abel
  · rw [Function.update_of_ne hne, slotSum_setSlot_of_ne _ _ hne]

/-- What the thread adds to the cumulative array is no longer on its way. -/
theorem storeCumulative {i : ℕ} {v : UInt64} {r : Unit} (h : Held t temp cum n extra size s)
    (hexec : tallied t (HistogramOp.storeCumulative i (cum i + v)) s r s') :
    i < size.toNat ∧ Held t temp (Function.update cum i (cum i + v)) n (Function.update extra i (extra i - v)) size s' := by
  obtain ⟨hstep, htally⟩ := hexec
  simp only [step, Option.ite_none_right_eq_some, Option.some.injEq, Prod.mk.injEq] at hstep
  obtain ⟨hi, -, hs'⟩ := hstep
  obtain rfl : ({ s.1 with cumulativeArray := Function.update s.1.cumulativeArray i (cum i + v) }, s.2) = s' :=
    Prod.ext hs' htally.symm
  refine ⟨by rwa [h.size] at hi, h.lock, h.size, h.temp, by rw [← h.cum], h.nevents, fun j hj => (h.accounted j hj).trans ?_⟩
  show s.1.slotSum j + s.1.cumulativeArray j + s.2.discarded j + extra j =
    s.1.slotSum j + Function.update s.1.cumulativeArray i (cum i + v) j + s.2.discarded j +
      Function.update extra i (extra i - v) j
  rw [h.cum]
  rcases eq_or_ne j i with rfl | hne
  · rw [Function.update_self, Function.update_self]
    abel
  · rw [Function.update_of_ne hne, Function.update_of_ne hne]

/-- What the thread clears is discarded. -/
theorem clearCumulative {i : ℕ} {r : Unit} (h : Held t temp cum n extra size s)
    (hexec : tallied t (HistogramOp.clearCumulative i) s r s') :
    Held t temp (Function.update cum i 0) n extra size s' := by
  obtain ⟨hstep, htally⟩ := hexec
  simp only [step, Option.ite_none_right_eq_some, Option.some.injEq, Prod.mk.injEq] at hstep
  obtain ⟨-, -, hs'⟩ := hstep
  obtain rfl : ({ s.1 with cumulativeArray := Function.update s.1.cumulativeArray i 0 },
      s.2.record s.1 (HistogramOp.clearCumulative i)) = s' := Prod.ext hs' htally.symm
  refine ⟨h.lock, h.size, h.temp, by rw [← h.cum], h.nevents, fun j hj => (h.accounted j hj).trans ?_⟩
  show s.1.slotSum j + s.1.cumulativeArray j + s.2.discarded j + extra j =
    s.1.slotSum j + Function.update s.1.cumulativeArray i 0 j +
      Function.update s.2.discarded i (s.2.discarded i + s.1.cumulativeArray i) j + extra j
  rcases eq_or_ne j i with rfl | hne
  · rw [Function.update_self, Function.update_self]
    abel
  · rw [Function.update_of_ne hne, Function.update_of_ne hne]

end Held

/-! ### The protocol -/

/-- Between two critical sections every update is accounted for, and the total is right. -/
def Settled (s : Histogram ι × Tally) : Prop :=
  Accounted (fun _ => 0) s ∧ s.1.cumulativeNevents = s.1.cumulativeSum

omit [DecidableEq ι] in
theorem Undisturbed.settled {s s' : Histogram ι × Tally} (h : Undisturbed s s') (hs : Settled s) : Settled s' := by
  refine ⟨h.accounted hs.1, ?_⟩
  unfold Histogram.cumulativeSum
  rw [h.nevents, h.size, h.cumulative]
  exact hs.2

/-- Whoever takes the lock finds the histogram settled, and nobody disturbs it before it is free again. -/
def histogramProtocol (ι : Type) [DecidableEq ι] : Protocol (Histogram ι × Tally) ι HistogramOp HistogramOp.Res
    (fun _ => HistogramCall) (Option ℕ) where
  exec := tallied
  inv w := w.2.1.lock = none → Settled w.2
  idle _ _ := True
  rely t w w' := w.2.1.lock = some t → Undisturbed w.2 w'.2
  rely_refl _ w _ := .refl w.2
  rely_trans h₁ h₂ hlock := (h₁ hlock).trans (h₂ ((h₁ hlock).lock.trans hlock))
  idle_rely _ _ := trivial

abbrev HistogramWorld (ι : Type) :=
  World (Histogram ι × Tally) ι HistogramOp HistogramOp.Res (fun _ => HistogramCall) (Option ℕ)

section critical
variable {t : ι} {temp cum extra : ℕ → UInt64} {n size : UInt64} {w : HistogramWorld ι}

/-- An access by the thread that holds the lock and keeps it. -/
theorem wp_held {op : HistogramOp} {Q : op.Res → HistogramWorld ι → Prop} (h : Held t temp cum n extra size w.2)
    (hop : ∀ {s r s'}, Held t temp cum n extra size s → tallied t op s r s' →
      s'.1.lock = some t ∧ ∀ hist, Q r (hist, s')) : (histogramProtocol ι).wp t (perform op) Q w := by
  intro hist s r s' hrely _ hexec
  have hs := h.undisturbed (hrely h.lock)
  obtain ⟨hlock, hQ⟩ := hop hs hexec
  refine ⟨⟨fun hfree => ?_, fun u hu hlock' => ?_⟩, hQ _⟩
  · rw [hlock] at hfree
    cases hfree
  · rw [hs.lock] at hlock'
    exact absurd (Option.some.inj hlock').symm hu

theorem wp_wrlock : (histogramProtocol ι).wp t (perform wrlock)
    (fun _ w => ∃ temp cum n size, Held t temp cum n (fun _ => 0) size w.2 ∧
      n = ∑ j ∈ Finset.range size.toNat, cum j) w := by
  intro hist s r s' _ hinv hexec
  obtain ⟨hstep, htally⟩ := hexec
  simp only [step, Option.ite_none_right_eq_some, Option.some.injEq, Prod.mk.injEq, true_and] at hstep
  obtain ⟨hfree, hs'⟩ := hstep
  obtain ⟨haccounted, hnevents⟩ := hinv hfree
  obtain rfl : ({ s.1 with lock := some t }, s.2) = s' := Prod.ext hs' htally.symm
  refine ⟨⟨fun hl => ?_, fun u _ hl => ?_⟩, _, _, _, _, ⟨rfl, rfl, rfl, rfl, rfl, haccounted⟩, hnevents⟩
  · cases hl
  · rw [show s.1.lock = none from hfree] at hl
    cases hl

theorem wp_unlock (h : Held t temp cum n (fun _ => 0) size w.2) (hn : n = ∑ j ∈ Finset.range size.toNat, cum j) :
    (histogramProtocol ι).wp t (perform unlock) (fun _ _ => True) w := by
  intro hist s r s' hrely _ hexec
  have hs := h.undisturbed (hrely h.lock)
  obtain ⟨hstep, htally⟩ := hexec
  simp only [step, Option.ite_none_right_eq_some, Option.some.injEq, Prod.mk.injEq, true_and] at hstep
  obtain rfl : ({ s.1 with lock := none }, s.2) = s' := Prod.ext hstep.2 htally.symm
  refine ⟨⟨fun _ => ⟨hs.accounted, ?_⟩, fun u hu hl => ?_⟩, trivial⟩
  · show s.1.cumulativeNevents = ∑ i ∈ Finset.range s.1.arraySize.toNat, s.1.cumulativeArray i
    rw [hs.nevents, hs.size, hs.cum]
    exact hn
  · rw [hs.lock] at hl
    exact absurd (Option.some.inj hl).symm hu

theorem wp_addTemp (h : Held t temp cum n extra size w.2) (i : ℕ) (v : UInt64) :
    (histogramProtocol ι).wp t (addTemp i v)
      (fun _ w => Held t (Function.update temp i (temp i + v)) cum n extra size w.2) w := by
  refine Protocol.wp_bind.mpr (wp_held h fun hs hexec => ?_)
  obtain ⟨rfl, hs⟩ := hs.loadTemp hexec
  exact ⟨hs.lock, fun _ => wp_held hs fun hs hexec => ⟨(hs.storeTemp hexec).lock, fun _ => hs.storeTemp hexec⟩⟩

theorem wp_addCumulative (h : Held t temp cum n extra size w.2) (i : ℕ) (v : UInt64) :
    (histogramProtocol ι).wp t (addCumulative i v) (fun _ w => i < size.toNat ∧
      Held t temp (Function.update cum i (cum i + v)) n (Function.update extra i (extra i - v)) size w.2) w := by
  refine Protocol.wp_bind.mpr (wp_held h fun hs hexec => ?_)
  obtain ⟨rfl, hs⟩ := hs.loadCumulative hexec
  exact ⟨hs.lock, fun _ => wp_held hs fun hs hexec =>
    ⟨(hs.storeCumulative hexec).2.lock, fun _ => hs.storeCumulative hexec⟩⟩

/-- A search among the counts changes nothing. -/
theorem wp_findBin {load : ℕ → HistogramThread UInt64} {I : HistogramWorld ι → Prop}
    (hload : ∀ i w, I w → (histogramProtocol ι).wp t (load i) (fun _ => I) w) (nmax : UInt64) :
    ∀ k i ncur w, I w → (histogramProtocol ι).wp t (findBin load nmax i k ncur) (fun _ => I) w := by
  intro k
  induction k with
  | zero => exact fun _ _ _ h => h
  | succ k ih =>
    intro i ncur w h
    refine Protocol.wp_bind.mpr (Protocol.wp_mono (fun count w h => ?_) (hload i w h))
    split
    · exact h
    · exact ih (i + 1) (ncur + count) w h

/-- The thread `t` holds the lock, and `n` is the sum of the cumulative array. -/
def Merging (t : ι) (size n : UInt64) (s : Histogram ι × Tally) : Prop :=
  ∃ temp cum nevents, Held t temp cum nevents (fun _ => 0) size s ∧ n = ∑ j ∈ Finset.range size.toNat, cum j

theorem wp_mergeSlot {n : UInt64} (h : Merging t size n w.2) (slot i : ℕ) :
    (histogramProtocol ι).wp t (mergeSlot slot i n) (fun n w => Merging t size n w.2) w := by
  obtain ⟨temp, cum, nevents, h, rfl⟩ := h
  refine Protocol.wp_bind.mpr (wp_held h fun {s r s'} hs hexec => ?_)
  have hs := hs.fasSlot hexec
  refine ⟨hs.lock, fun _ => Protocol.wp_bind.mpr (Protocol.wp_mono (fun _ w hw => ?_) (wp_addCumulative hs i r))⟩
  obtain ⟨hi, hw⟩ := hw
  refine ⟨_, _, _, hw.congr fun j _ => ?_, ?_⟩
  · rcases eq_or_ne j i with rfl | hne
    · rw [Function.update_self, Function.update_self]
      abel
    · rw [Function.update_of_ne hne, Function.update_of_ne hne]
  · refine add_right_cancel (b := cum i) ?_
    rw [sum_update hi]
    abel

theorem wp_mergeIntermediateIntoCumulative (h : Held t temp cum n (fun _ => 0) size w.2)
    (hn : n = ∑ j ∈ Finset.range size.toNat, cum j) :
    (histogramProtocol ι).wp t mergeIntermediateIntoCumulative (fun _ w => ∃ temp cum n,
      Held t temp cum n (fun _ => 0) size w.2 ∧ n = ∑ j ∈ Finset.range size.toNat, cum j) w := by
  refine Protocol.wp_bind.mpr (wp_held h fun hs hexec => ?_)
  obtain ⟨rfl, hs⟩ := hs.loadNevents hexec
  refine ⟨hs.lock, fun _ => Protocol.wp_bind.mpr (wp_held hs fun hs hexec => ?_)⟩
  obtain ⟨rfl, hs⟩ := hs.loadArraySize hexec
  refine ⟨hs.lock, fun hist => Protocol.wp_bind.mpr (Protocol.wp_mono (fun n w hw => ?_)
    (Protocol.wp_loopUp (I := fun _ n w => Merging t _ n w.2) ⟨_, _, _, hs, hn⟩ fun slot n w _ _ hw =>
      Protocol.wp_loopUp (I := fun _ n w => Merging t _ n w.2) hw fun i n w _ _ hw => wp_mergeSlot hw slot i))⟩
  obtain ⟨temp, cum, nevents, hw, hn⟩ := hw
  exact wp_held hw fun hs hexec => ⟨(hs.storeNevents hexec).lock, fun _ => ⟨_, _, _, hs.storeNevents hexec, hn⟩⟩

theorem wp_getPctCumulative (h : Held t temp cum n extra size w.2) (percentile : ℚ) :
    (histogramProtocol ι).wp t (getPctCumulative percentile) (fun _ w => Held t temp cum n extra size w.2) w := by
  refine Protocol.wp_bind.mpr (wp_held h fun hs hexec => ?_)
  obtain ⟨rfl, hs⟩ := hs.loadNevents hexec
  refine ⟨hs.lock, fun _ => Protocol.wp_bind.mpr (wp_held hs fun hs hexec => ?_)⟩
  obtain ⟨rfl, hs⟩ := hs.loadArraySize hexec
  exact ⟨hs.lock, fun _ => wp_findBin (I := fun w => Held t temp cum _ extra _ w.2)
    (fun i w hw => wp_held hw fun hs hexec => ⟨(hs.loadCumulative hexec).2.lock, fun _ => (hs.loadCumulative hexec).2⟩)
    _ _ _ _ _ hs⟩

/-! ### The intermediate percentile -/

theorem wp_takeFirst {i : ℕ} {m : UInt64} (hi : i < size.toNat)
    (h : ∃ temp, Held t temp cum n (fun j => if j < i then temp j else 0) size w.2 ∧
      m = ∑ j ∈ Finset.range i, temp j) :
    (histogramProtocol ι).wp t (takeFirst i m) (fun m w => ∃ temp,
      Held t temp cum n (fun j => if j < i + 1 then temp j else 0) size w.2 ∧
      m = ∑ j ∈ Finset.range (i + 1), temp j) w := by
  obtain ⟨temp, h, rfl⟩ := h
  refine Protocol.wp_bind.mpr (wp_held h fun {s r s'} hs hexec => ?_)
  have hs := hs.fasSlot hexec
  refine ⟨hs.lock, fun _ => Protocol.wp_bind.mpr (wp_held hs fun hs hexec => ?_)⟩
  have hs := hs.storeTemp hexec
  refine ⟨hs.lock, fun _ => Protocol.wp_bind.mpr (wp_held hs fun hs hexec => ?_)⟩
  obtain ⟨rfl, hs⟩ := hs.loadTemp hexec
  refine ⟨hs.lock, fun _ => ⟨_, hs.congr fun j _ => ?_, ?_⟩⟩
  · rcases eq_or_ne j i with rfl | hne
    · rw [Function.update_self, if_neg (lt_irrefl j), if_pos (Nat.lt_succ_self j), Function.update_self, zero_add]
    · rw [Function.update_of_ne hne, Function.update_of_ne hne]
      exact if_congr (by omega) rfl rfl
  · rw [Finset.sum_range_succ, Finset.sum_congr rfl fun j hj =>
      Function.update_of_ne (ne_of_lt (Finset.mem_range.mp hj)) r temp]

theorem wp_takeSlot {m : UInt64} {slot i : ℕ} (hi : i < size.toNat)
    (h : ∃ temp, Held t temp cum n temp size w.2 ∧ m = ∑ j ∈ Finset.range size.toNat, temp j) :
    (histogramProtocol ι).wp t (takeSlot slot i m) (fun m w => ∃ temp,
      Held t temp cum n temp size w.2 ∧ m = ∑ j ∈ Finset.range size.toNat, temp j) w := by
  obtain ⟨temp, h, rfl⟩ := h
  refine Protocol.wp_bind.mpr (wp_held h fun {s r s'} hs hexec => ?_)
  have hs := hs.fasSlot hexec
  refine ⟨hs.lock, fun _ => Protocol.wp_bind.mpr (Protocol.wp_mono (fun _ w hw => ?_) (wp_addTemp hs i r))⟩
  refine ⟨_, hw, add_right_cancel (b := temp i) ?_⟩
  rw [sum_update hi]
  abel

/-- What is copied to the cumulative array is no longer on its way. -/
theorem wp_copyTemp {i : ℕ} (hi : i < size.toNat)
    (h : ∃ cum, Held t temp cum n (fun j => if j < i then 0 else temp j) size w.2 ∧
      n + ∑ j ∈ Finset.range i, temp j = ∑ j ∈ Finset.range size.toNat, cum j) :
    (histogramProtocol ι).wp t (do
        let t ← perform (loadTemp i)
        addCumulative i t) (fun _ w => ∃ cum,
      Held t temp cum n (fun j => if j < i + 1 then 0 else temp j) size w.2 ∧
      n + ∑ j ∈ Finset.range (i + 1), temp j = ∑ j ∈ Finset.range size.toNat, cum j) w := by
  obtain ⟨cum, h, hn⟩ := h
  refine Protocol.wp_bind.mpr (wp_held h fun hs hexec => ?_)
  obtain ⟨rfl, hs⟩ := hs.loadTemp hexec
  refine ⟨hs.lock, fun _ => Protocol.wp_mono (fun _ w hw => ⟨_, hw.2.congr fun j _ => ?_, ?_⟩)
    (wp_addCumulative hs i _)⟩
  · rcases eq_or_ne j i with rfl | hne
    · rw [Function.update_self, if_neg (lt_irrefl j), if_pos (Nat.lt_succ_self j), sub_self]
    · rw [Function.update_of_ne hne]
      exact if_congr (by omega) rfl rfl
  · refine add_right_cancel (b := cum i) ?_
    rw [sum_update hi, Finset.sum_range_succ, ← hn]
    abel

theorem wp_sbHistogramGetPctIntermediate (percentile : ℚ) :
    (histogramProtocol ι).wp t (sbHistogramGetPctIntermediate percentile) (fun _ _ => True) w := by
  refine Protocol.wp_bind.mpr (Protocol.wp_mono (fun _ w hw => ?_) wp_wrlock)
  obtain ⟨temp, cum, n, size, h, hn⟩ := hw
  refine Protocol.wp_bind.mpr (wp_held h fun hs hexec => ?_)
  obtain ⟨rfl, hs⟩ := hs.loadArraySize hexec
  refine ⟨hs.lock, fun hist => Protocol.wp_bind.mpr (Protocol.wp_mono (fun m w hw => ?_)
    (Protocol.wp_loopUp (I := fun i m w => ∃ temp, Held t temp cum n (fun j => if j < i then temp j else 0) _ w.2 ∧
      m = ∑ j ∈ Finset.range i, temp j) ⟨temp, hs.congr fun j _ => (if_neg (Nat.not_lt_zero j)).symm, rfl⟩
      fun i m w _ hi hw => wp_takeFirst (by omega) hw))⟩
  rw [Nat.zero_add] at hw
  obtain ⟨temp, h, hm⟩ := hw
  refine Protocol.wp_bind.mpr (Protocol.wp_mono (fun m w hw => ?_)
    (Protocol.wp_loopUp (I := fun _ m w => ∃ temp, Held t temp cum n temp _ w.2 ∧ m = ∑ j ∈ Finset.range _, temp j)
      ⟨temp, h.congr fun j hj => if_pos hj, hm⟩ fun slot m w _ _ hw =>
        Protocol.wp_loopUp (I := fun _ m w => ∃ temp, Held t temp cum n temp _ w.2 ∧ m = ∑ j ∈ Finset.range _, temp j)
          hw fun i m w _ hi hw => wp_takeSlot (by omega) hw))
  obtain ⟨temp, h, rfl⟩ := hw
  refine Protocol.wp_bind.mpr (Protocol.wp_mono (fun bin w hw => ?_)
    (wp_findBin (I := fun w => Held t temp cum n temp _ w.2)
      (fun i w hw => wp_held hw fun hs hexec => ⟨(hs.loadTemp hexec).2.lock, fun _ => (hs.loadTemp hexec).2⟩)
      _ _ _ _ _ h))
  refine Protocol.wp_bind.mpr (Protocol.wp_mono (fun _ w hw => ?_)
    (Protocol.wp_loopUp (I := fun i _ w => ∃ cum, Held t temp cum n (fun j => if j < i then 0 else temp j) _ w.2 ∧
      n + ∑ j ∈ Finset.range i, temp j = ∑ j ∈ Finset.range _, cum j)
      ⟨cum, hw.congr fun j _ => (if_neg (Nat.not_lt_zero j)).symm, by rw [Finset.sum_range_zero, add_zero]; exact hn⟩
      fun i _ w _ hi hw => wp_copyTemp (by omega) hw))
  rw [Nat.zero_add] at hw
  obtain ⟨cum, h, hsum⟩ := hw
  refine Protocol.wp_bind.mpr (wp_held h fun hs hexec => ?_)
  obtain ⟨rfl, hs⟩ := hs.loadNevents hexec
  refine ⟨hs.lock, fun _ => Protocol.wp_bind.mpr (wp_held hs fun hs hexec => ?_)⟩
  have hs := hs.storeNevents hexec
  refine ⟨hs.lock, fun _ => Protocol.wp_bind.mpr (Protocol.wp_mono (fun _ w _ => trivial)
    (wp_unlock (hs.congr fun j hj => if_pos hj) hsum))⟩

/-! ### The calls -/

theorem wp_sbHistogramUpdate (random : UInt64) (i : Int64) :
    (histogramProtocol ι).wp t (sbHistogramUpdate random i) (fun _ _ => True) w := by
  intro hist s r s' _ hinv hexec
  obtain ⟨hstep, htally⟩ := hexec
  simp only [step, Option.some.injEq, Prod.mk.injEq] at hstep
  obtain rfl : s = s' := Prod.ext hstep.2 htally.symm
  refine ⟨⟨hinv, fun u _ _ => .refl s⟩, fun hist s r s' _ hinv hexec => ?_⟩
  have hs := undisturbed_incSlot hexec
  exact ⟨⟨fun hfree => hs.settled (hinv (hs.lock.symm.trans hfree)), fun u _ _ => hs⟩, trivial⟩

theorem wp_sbHistogramGetPctCumulative (percentile : ℚ) :
    (histogramProtocol ι).wp t (sbHistogramGetPctCumulative percentile) (fun _ _ => True) w := by
  refine Protocol.wp_bind.mpr (Protocol.wp_mono (fun _ w hw => ?_) wp_wrlock)
  obtain ⟨temp, cum, n, size, h, hn⟩ := hw
  refine Protocol.wp_bind.mpr (Protocol.wp_mono (fun _ w hw => ?_) (wp_mergeIntermediateIntoCumulative h hn))
  obtain ⟨temp, cum, n, h, hn⟩ := hw
  refine Protocol.wp_bind.mpr (Protocol.wp_mono (fun _ w hw => ?_) (wp_getPctCumulative h percentile))
  exact Protocol.wp_bind.mpr (Protocol.wp_mono (fun _ w _ => trivial) (wp_unlock hw hn))

theorem wp_sbHistogramGetPctCheckpoint (percentile : ℚ) :
    (histogramProtocol ι).wp t (sbHistogramGetPctCheckpoint percentile) (fun _ _ => True) w := by
  refine Protocol.wp_bind.mpr (Protocol.wp_mono (fun _ w hw => ?_) wp_wrlock)
  obtain ⟨temp, cum, n, size, h, hn⟩ := hw
  refine Protocol.wp_bind.mpr (Protocol.wp_mono (fun _ w hw => ?_) (wp_mergeIntermediateIntoCumulative h hn))
  obtain ⟨temp, cum, n, h, hn⟩ := hw
  refine Protocol.wp_bind.mpr (Protocol.wp_mono (fun _ w hw => ?_) (wp_getPctCumulative h percentile))
  refine Protocol.wp_bind.mpr (wp_held hw fun {s r s'} hs hexec => ?_)
  obtain ⟨rfl, hs⟩ := hs.loadArraySize hexec
  -- The bins below `i` are cleared.
  refine ⟨hs.lock, fun hist => Protocol.wp_bind.mpr (Protocol.wp_mono (fun _ w hw => ?_)
    (Protocol.wp_loopUp (I := fun i _ w => ∃ cum, Held t temp cum n (fun _ => 0) r w.2 ∧ ∀ j < i, cum j = 0)
      ⟨cum, hs, fun j hj => absurd hj (Nat.not_lt_zero j)⟩ fun i _ w _ _ hw => ?_))⟩
  · rw [Nat.zero_add] at hw
    obtain ⟨cum, h, hzero⟩ := hw
    refine Protocol.wp_bind.mpr (wp_held h fun hs hexec => ?_)
    have hs := hs.storeNevents hexec
    refine ⟨hs.lock, fun _ => Protocol.wp_bind.mpr (Protocol.wp_mono (fun _ w _ => trivial) (wp_unlock hs ?_))⟩
    exact (Finset.sum_eq_zero fun j hj => hzero j (Finset.mem_range.mp hj)).symm
  · obtain ⟨cum, h, hzero⟩ := hw
    refine wp_held h fun hs hexec => ⟨(hs.clearCumulative hexec).lock, fun _ => ⟨_, hs.clearCumulative hexec, fun j hj => ?_⟩⟩
    rcases eq_or_ne j i with rfl | hne
    · exact Function.update_self _ _ _
    · rw [Function.update_of_ne hne]
      exact hzero j (by omega)

theorem wp_sbHistogramPrint :
    (histogramProtocol ι).wp t sbHistogramPrint (fun _ _ => True) w := by
  refine Protocol.wp_bind.mpr (Protocol.wp_mono (fun _ w hw => ?_) wp_wrlock)
  obtain ⟨temp, cum, n, size, h, hn⟩ := hw
  refine Protocol.wp_bind.mpr (Protocol.wp_mono (fun _ w hw => ?_) (wp_mergeIntermediateIntoCumulative h hn))
  obtain ⟨temp, cum, n, h, hn⟩ := hw
  refine Protocol.wp_bind.mpr (wp_held h fun {s r s'} hs hexec => ?_)
  obtain ⟨rfl, hs⟩ := hs.loadArraySize hexec
  -- Both loops only read.
  have hread : ∀ {β : Type} {f : UInt64 → HistogramThread β} {i w}, (∀ count, ∃ b, f count = pure b) →
      Held t temp cum n (fun _ => 0) r w.2 → (histogramProtocol ι).wp t (perform (loadCumulative i) >>= f)
        (fun _ w => Held t temp cum n (fun _ => 0) r w.2) w := by
    intro β f i w hf hw
    refine Protocol.wp_bind.mpr (wp_held hw fun {s r s'} hs hexec => ⟨(hs.loadCumulative hexec).2.lock, fun _ => ?_⟩)
    obtain ⟨b, hb⟩ := hf r
    rw [hb]
    exact (hs.loadCumulative hexec).2
  refine ⟨hs.lock, fun hist => Protocol.wp_bind.mpr (Protocol.wp_mono (fun maxcnt w hw => ?_)
    (Protocol.wp_loopUp (I := fun _ _ w => Held t temp cum n (fun _ => 0) r w.2) hs
      fun i b w _ _ hw => hread (fun _ => ⟨_, rfl⟩) hw))⟩
  split
  · trivial
  refine Protocol.wp_bind.mpr (Protocol.wp_mono (fun lines w hw => ?_)
    (Protocol.wp_loopUp (I := fun _ _ w => Held t temp cum n (fun _ => 0) r w.2) hw
      fun i b w _ _ hw => hread (fun _ => ⟨_, rfl⟩) hw))
  exact Protocol.wp_bind.mpr (Protocol.wp_mono (fun _ w _ => trivial) (wp_unlock hw hn))

end critical

theorem histogram_kept : (histogramProtocol ι).Kept fun _ c => c.body := by
  intro t c hist s hinv _
  refine ⟨⟨hinv, fun u _ _ => .refl s⟩, ?_⟩
  have hret : ∀ {α : Type} {p : HistogramThread α} {f : α → HistogramThread (Option ℕ)} {w : HistogramWorld ι},
      (∀ a, ∃ b, f a = pure b) → (histogramProtocol ι).wp t p (fun _ _ => True) w →
      (histogramProtocol ι).wp t (p >>= f) ((histogramProtocol ι).Returns t c) w := by
    intro α p f w hf hp
    refine Protocol.wp_bind.mpr (Protocol.wp_mono (fun a w _ => ?_) hp)
    obtain ⟨b, hb⟩ := hf a
    rw [hb]
    exact fun hist s _ hinv => ⟨⟨hinv, fun u _ _ => .refl s⟩, trivial⟩
  cases c with
  | update random i => exact hret (fun _ => ⟨_, rfl⟩) (wp_sbHistogramUpdate random i)
  | getPctIntermediate percentile => exact hret (fun _ => ⟨_, rfl⟩) (wp_sbHistogramGetPctIntermediate percentile)
  | getPctCumulative percentile => exact hret (fun _ => ⟨_, rfl⟩) (wp_sbHistogramGetPctCumulative percentile)
  | getPctCheckpoint percentile => exact hret (fun _ => ⟨_, rfl⟩) (wp_sbHistogramGetPctCheckpoint percentile)
  | print => exact hret (fun _ => ⟨_, rfl⟩) wp_sbHistogramPrint

/-! ### Whole runs -/

abbrev HistogramEvent (ι : Type) := Event ι HistogramOp HistogramOp.Res (fun _ => HistogramCall) (Option ℕ)

omit [DecidableEq ι] in
/-- Whether an event is an update of bin `i`. -/
def isUpdate (i : ℕ) : HistogramEvent ι → Bool
  | .act _ (.incSlot _ j) _ => j == i
  | _ => false

theorem arraySize_tallied {t : ι} {op : HistogramOp} {s s' : Histogram ι × Tally} {r : op.Res}
    (hexec : tallied t op s r s') : s'.1.arraySize = s.1.arraySize := by
  have hstep := hexec.1
  cases op <;> simp only [step, Option.ite_none_right_eq_some, Option.some.injEq, Prod.mk.injEq] at hstep
  case loadArraySize | loadNevents => rw [← hstep.2]
  case storeNevents => rw [← hstep.2]
  case incSlot | fasSlot =>
    rw [← hstep.2.2]
    rfl
  all_goals rw [← hstep.2.2]

theorem updates_tallied {t : ι} {op : HistogramOp} {s s' : Histogram ι × Tally} {r : op.Res}
    (hexec : tallied t op s r s') (i : ℕ) :
    s'.2.updates i = s.2.updates i + if isUpdate i (.act t op r) then 1 else 0 := by
  rw [hexec.2]
  cases op
  case incSlot slot j =>
    rcases eq_or_ne j i with rfl | hne
    · simp only [Tally.record, isUpdate, Function.update_self, beq_self_eq_true, if_true]
    · simp only [Tally.record, isUpdate, Function.update_of_ne hne.symm, beq_eq_false_iff_ne.mpr hne, Bool.false_eq_true,
        if_false, add_zero]
  all_goals rfl

theorem interleaving_tallied {s₀ : Histogram ι × Tally} {h : List (HistogramEvent ι)}
    {c : Config (Histogram ι × Tally) ι HistogramOp HistogramOp.Res (fun _ => HistogramCall) (Option ℕ)}
    (hrun : Interleaving tallied (fun _ call => call.body) s₀ h c) :
    c.shared.1.arraySize = s₀.1.arraySize ∧ ∀ i, c.shared.2.updates i = s₀.2.updates i + h.countP (isUpdate i) := by
  induction hrun with
  | nil => exact ⟨rfl, fun _ => rfl⟩
  | snoc _ hstep ih =>
    cases hstep with
    | call c _ => exact ⟨ih.1, fun i => by rw [List.countP_append]; exact ih.2 i⟩
    | ret _ => exact ⟨ih.1, fun i => by rw [List.countP_append]; exact ih.2 i⟩
    | act _ hexec =>
      refine ⟨(arraySize_tallied hexec).trans ih.1, fun i => ?_⟩
      rw [List.countP_append, List.countP_singleton, updates_tallied hexec]
      have hi := ih.2 i
      dsimp only at hi
      omega

/-- The contents of a zeroed `sb_histogram_t`. -/
def Histogram.zeroed : Histogram ι := ⟨fun _ _ => 0, fun _ => 0, fun _ => 0, 0, 0, none⟩

omit [DecidableEq ι] in
theorem sbHistogramInit_eq {heap : ℕ → Bool} {h h₀ : Histogram ι} {size : UInt64}
    (hinit : sbHistogramInit heap h size = some (0, h₀)) :
    h₀ = ⟨fun _ _ => 0, fun _ => 0, fun _ => 0, h.cumulativeNevents, size, none⟩ := by
  unfold sbHistogramInit at hinit
  split at hinit
  · split at hinit
    · cases hinit
      rfl
    · cases hinit
  · cases hinit

end threads

end NuKSM.Sysbench
