import NuKSM.Theorems.Sysbench.HistogramSolo

/-! # Percentiles of what has been recorded

A histogram answers for the updates that it was given: the intermediate percentile for those since the last merge, the
others for those since the last checkpoint. The total starts with what `malloc` left in `cumulative_nevents`, so a new
histogram answers rightly only if that is zero. -/

namespace NuKSM.Sysbench
open Thread HistogramOp

/-! ### The percentile of counts -/

/-- The bin `b` is the least of `size` bins whose count, with those of the bins below, reaches the rank. -/
def Selects (counts : ℕ → ℕ) (size : ℕ) (percentile : ℚ) (b : ℕ) : Prop :=
  IsLeast {i | i < size ∧ ⌊((∑ j ∈ Finset.range size, counts j : ℕ) : ℚ) * percentile / 100 + 1 / 2⌋ ≤
    ((∑ j ∈ Finset.range (i + 1), counts j : ℕ) : ℤ)} b

theorem ofNat_sum (f : ℕ → ℕ) (n : ℕ) :
    UInt64.ofNat (∑ i ∈ Finset.range n, f i) = ∑ i ∈ Finset.range n, UInt64.ofNat (f i) := by
  induction n with
  | zero => rfl
  | succ n ih => rw [Finset.sum_range_succ, Finset.sum_range_succ, UInt64.ofNat_add, ih]

theorem floor_rank_le (total : ℕ) {percentile : ℚ} (h0 : 0 ≤ percentile) (h100 : percentile ≤ 100) :
    0 ≤ ⌊(total : ℚ) * percentile / 100 + 1 / 2⌋ ∧ ⌊(total : ℚ) * percentile / 100 + 1 / 2⌋ ≤ total := by
  have htotal : (0 : ℚ) ≤ total := Nat.cast_nonneg total
  have hle : (total : ℚ) * percentile ≤ total * 100 := mul_le_mul_of_nonneg_left h100 htotal
  have hnonneg : 0 ≤ (total : ℚ) * percentile := mul_nonneg htotal h0
  refine ⟨Int.floor_nonneg.mpr (by linarith), Int.lt_add_one_iff.mp (Int.floor_lt.mpr ?_)⟩
  push_cast
  linarith

theorem toNat_rank {total : ℕ} {percentile : ℚ} (htotal : total < 2 ^ 64) (h0 : 0 ≤ percentile) (h100 : percentile ≤ 100) :
    ((rank (UInt64.ofNat total) percentile).toNat : ℤ) = ⌊(total : ℚ) * percentile / 100 + 1 / 2⌋ := by
  obtain ⟨hnonneg, hle⟩ := floor_rank_le total h0 h100
  have hlt : ⌊(total : ℚ) * percentile / 100 + 1 / 2⌋.toNat < 2 ^ 64 := by omega
  rw [rank, UInt64.toNat_ofNat_of_lt' htotal, UInt64.toNat_ofNat_of_lt' hlt, Int.toNat_of_nonneg hnonneg]

/-- The search finds the least bin where no count wraps. -/
theorem Found.selects {f : ℕ → UInt64} {counts : ℕ → ℕ} {size b : ℕ} {percentile : ℚ}
    (hb : Found f (rank (∑ i ∈ Finset.range size, f i) percentile) size b)
    (hf : ∀ i < size, f i = UInt64.ofNat (counts i)) (htotal : ∑ i ∈ Finset.range size, counts i < 2 ^ 64)
    (hpos : 0 < size) (h0 : 0 ≤ percentile) (h100 : percentile ≤ 100) : Selects counts size percentile b := by
  have hfirst : ∀ i ≤ size, (∑ j ∈ Finset.range i, f j).toNat = ∑ j ∈ Finset.range i, counts j := by
    intro i hi
    have hle : ∑ j ∈ Finset.range i, counts j ≤ ∑ j ∈ Finset.range size, counts j :=
      Finset.sum_le_sum_of_subset (Finset.range_mono hi)
    rw [Finset.sum_congr rfl fun j hj => hf j ((Finset.mem_range.mp hj).trans_le hi), ← ofNat_sum,
      UInt64.toNat_ofNat_of_lt' (hle.trans_lt htotal)]
  have hsum : ∑ i ∈ Finset.range size, f i = UInt64.ofNat (∑ i ∈ Finset.range size, counts i) := by
    rw [ofNat_sum]
    exact Finset.sum_congr rfl fun i hi => hf i (Finset.mem_range.mp hi)
  have hrank := toNat_rank htotal h0 h100
  rw [← hsum] at hrank
  obtain ⟨-, hle⟩ := floor_rank_le (∑ i ∈ Finset.range size, counts i) h0 h100
  have hlt : ∀ j < b, ((∑ k ∈ Finset.range (j + 1), counts k : ℕ) : ℤ) <
      ⌊((∑ i ∈ Finset.range size, counts i : ℕ) : ℚ) * percentile / 100 + 1 / 2⌋ := fun j hj => by
    have hbelow := UInt64.lt_iff_toNat_lt.mp (hb.below j hj)
    rw [hfirst (j + 1) (hj.trans_le hb.le)] at hbelow
    omega
  -- All counts together reach the rank, so the search does not run off the end.
  have hbsize : b < size := by
    refine lt_of_le_of_ne hb.le fun heq => ?_
    have hlast := hlt (size - 1) (by omega)
    rw [Nat.sub_add_cancel hpos] at hlast
    omega
  refine ⟨⟨hbsize, ?_⟩, fun i hi => ?_⟩
  · have hreached := UInt64.le_iff_toNat_le.mp (hb.reached hbsize)
    rw [hfirst (b + 1) hbsize] at hreached
    omega
  · by_contra hlt'
    have hi' := hlt i (by omega)
    exact absurd hi.2 (by omega)

/-! ### What has been recorded -/

/-- The updates of each bin since the last merge, and since the last checkpoint. -/
structure Tallies where
  recent : ℕ → ℕ
  kept : ℕ → ℕ

/-- The bin of a rounded logarithm. -/
def binOf (size : ℕ) (i : ℤ) : ℕ := (max 0 (min i (size - 1))).toNat

def Tallies.after (size : ℕ) (a : Tallies) : HistogramCall → Tallies
  | .update _ i =>
    { recent := Function.update a.recent (binOf size i.toInt) (a.recent (binOf size i.toInt) + 1)
      kept := Function.update a.kept (binOf size i.toInt) (a.kept (binOf size i.toInt) + 1) }
  | .getPctCheckpoint _ => ⟨fun _ => 0, fun _ => 0⟩
  | _ => { a with recent := fun _ => 0 }

def tallies (size : ℕ) (cs : List HistogramCall) : Tallies := cs.foldl (Tallies.after size) ⟨fun _ => 0, fun _ => 0⟩

/-- What a call should select after `a` has been recorded. -/
def Correct (size : ℕ) (a : Tallies) : HistogramCall → Option ℕ → Prop
  | .getPctIntermediate percentile, b =>
    0 ≤ percentile → percentile ≤ 100 → ∃ i, b = some i ∧ Selects a.recent size percentile i
  | .getPctCumulative percentile, b | .getPctCheckpoint percentile, b =>
    0 ≤ percentile → percentile ≤ 100 → ∃ i, b = some i ∧ Selects a.kept size percentile i
  | _, _ => True

/-! ### The bins of updates -/

theorem toInt_eq (x : Int64) :
    x.toInt = if 2 * x.toUInt64.toNat < 2 ^ 64 then (x.toUInt64.toNat : ℤ) else (x.toUInt64.toNat : ℤ) - 2 ^ 64 :=
  BitVec.toInt_eq_toNat_cond x.toBitVec

theorem toNat_size_sub {size : UInt64} (hpos : 0 < size.toNat) : (size - 1).toNat = size.toNat - 1 :=
  UInt64.toNat_sub_of_le size 1 (UInt64.le_iff_toNat_le.mpr hpos)

theorem toNat_clampBin {size : UInt64} (hpos : 0 < size.toNat) (hsize : size.toNat < 2 ^ 63) (i : Int64) :
    (clampBin size i).toUInt64.toNat = binOf size.toNat i.toInt := by
  have hi := toInt_eq i
  have hs := toInt_eq size.toInt64
  rw [UInt64.toUInt64_toInt64] at hs
  have hlt := i.toUInt64.toNat_lt
  have hzero : (0 : Int64).toInt = 0 := rfl
  unfold clampBin binOf
  simp only [Int64.lt_iff_toInt_lt, ge_iff_le, Int64.le_iff_toInt_le, hzero]
  split_ifs
  · show 0 = _
    omega
  · rw [UInt64.toUInt64_toInt64, toNat_size_sub hpos]
    omega
  · omega

theorem clampBin_lt {size : UInt64} (hpos : 0 < size.toNat) (i : Int64) :
    (clampBin size i).toUInt64.toNat < size.toNat := by
  have hi := toInt_eq i
  have hs := toInt_eq size.toInt64
  rw [UInt64.toUInt64_toInt64] at hs
  have hlt := i.toUInt64.toNat_lt
  have hlt' := size.toNat_lt
  have hzero : (0 : Int64).toInt = 0 := rfl
  unfold clampBin
  simp only [Int64.lt_iff_toInt_lt, ge_iff_le, Int64.le_iff_toInt_le, hzero]
  split_ifs
  · exact hpos
  · rw [UInt64.toUInt64_toInt64, toNat_size_sub hpos]
    omega
  · omega

/-! ### Histograms and tallies -/

section calls
variable {ι : Type} [DecidableEq ι] {t : ι} {size : UInt64} {a : Tallies} {h h' : Histogram ι}

/-- The histogram holds what has been recorded. -/
structure Counted (size : UInt64) (a : Tallies) (h : Histogram ι) : Prop where
  lock : h.lock = none
  dims : h.arraySize = size
  recent : ∀ i < size.toNat, h.slotSum i = UInt64.ofNat (a.recent i)
  kept : ∀ i < size.toNat, h.slotSum i + h.cumulativeArray i = UInt64.ofNat (a.kept i)
  nevents : h.cumulativeNevents = h.cumulativeSum
  le : ∀ i, a.recent i ≤ a.kept i

omit [DecidableEq ι] in
theorem Counted.merged (hc : Counted size a h) (hm : Merged h h') (hlock : h'.lock = none) :
    Counted size { a with recent := fun _ => 0 } h' := by
  have hdims := hc.dims
  refine ⟨hlock, hm.size.trans hdims, fun i hi => hm.empty i (by rwa [hdims]), fun i hi => ?_, ?_, fun i => Nat.zero_le _⟩
  · rw [hm.empty i (by rwa [hdims]), hm.cumulative i (by rwa [hdims]), zero_add, hc.kept i hi]
  · refine add_right_cancel (b := h.cumulativeSum) ?_
    rw [hm.nevents, hc.nevents, add_comm]

omit [DecidableEq ι] in
theorem Counted.selects (hc : Counted size a h) (hm : Merged h h') (hpos : 0 < size.toNat)
    (htotal : ∑ i ∈ Finset.range size.toNat, a.kept i < 2 ^ 64) {percentile : ℚ} {b : ℕ}
    (hb : Found h'.cumulativeArray (rank h'.cumulativeNevents percentile) h.arraySize.toNat b)
    (h0 : 0 ≤ percentile) (h100 : percentile ≤ 100) : Selects a.kept size.toNat percentile b := by
  have hdims := hc.dims
  have hnevents : h'.cumulativeNevents = ∑ i ∈ Finset.range size.toNat, h'.cumulativeArray i := by
    refine add_right_cancel (b := h.cumulativeSum) ?_
    rw [hm.nevents, hc.nevents, add_comm, Histogram.cumulativeSum, hm.size, hdims]
  rw [hnevents, hdims] at hb
  refine hb.selects (fun i hi => ?_) htotal hpos h0 h100
  rw [hm.cumulative i (by rwa [hdims]), hc.kept i hi]

/-- Each call selects the right bin, and the histogram goes on to hold what has been recorded. -/
theorem Counted.call (hc : Counted size a h) (hpos : 0 < size.toNat) (hsize : size.toNat < 2 ^ 63)
    (htotal : ∑ i ∈ Finset.range size.toNat, a.kept i < 2 ^ 64) {c : HistogramCall} (hprint : c ≠ .print) :
    Ends (step t) c.body h fun b h' => Correct size.toNat a c b ∧ Counted size (a.after size.toNat c) h' := by
  have hdims := hc.dims
  cases c with
  | update random i =>
    have hbin := toNat_clampBin hpos hsize i
    have hlt := clampBin_lt hpos i
    rw [← hdims] at hbin hlt
    refine (sbHistogramUpdate_ends hlt).bind fun _ h' hh' => Ends.pure ⟨trivial, ?_⟩
    rw [hbin, hdims] at hh'
    have hslot : random.toNat % sbHistogramNslots < sbHistogramNslots := Nat.mod_lt _ (by decide)
    subst hh'
    set k := binOf size.toNat i.toInt
    -- One more in a slot is one more update of the bin.
    have hsum : ∀ j, (h.setSlot (random.toNat % sbHistogramNslots) k
        (h.intermSlots (random.toNat % sbHistogramNslots) k + 1)).slotSum j = h.slotSum j + if j = k then 1 else 0 := by
      intro j
      rcases eq_or_ne j k with hj | hne
      · refine add_right_cancel (b := h.intermSlots (random.toNat % sbHistogramNslots) k) ?_
        rw [hj, slotSum_setSlot h hslot, if_pos rfl]
        abel
      · rw [slotSum_setSlot_of_ne _ _ hne, if_neg hne, add_zero]
    have hbump : ∀ (f : ℕ → ℕ) j, UInt64.ofNat (Function.update f k (f k + 1) j) =
        UInt64.ofNat (f j) + if j = k then 1 else 0 := by
      intro f j
      rcases eq_or_ne j k with hj | hne
      · rw [hj, Function.update_self, if_pos rfl, UInt64.ofNat_add]
        rfl
      · rw [Function.update_of_ne hne, if_neg hne, add_zero]
    refine ⟨hc.lock, hdims, fun j hj => ?_, fun j hj => ?_, hc.nevents, fun j => ?_⟩
    · rw [hsum, hc.recent j hj]
      exact (hbump a.recent j).symm
    · rw [hsum]
      refine Eq.trans ?_ (hbump a.kept j).symm
      rw [← hc.kept j hj]
      show h.slotSum j + (if j = k then 1 else 0) + h.cumulativeArray j = _
      abel
    · simp only [Tallies.after, Function.update_apply]
      split
      · exact Nat.succ_le_succ (hc.le _)
      · exact hc.le _
  | getPctIntermediate percentile =>
    refine (sbHistogramGetPctIntermediate_ends hc.lock percentile).bind fun b h' hh' => Ends.pure
      ⟨fun h0 h100 => ⟨b, rfl, ?_⟩, hc.merged hh'.2.1 hh'.2.2⟩
    have hb := hh'.1
    rw [hdims] at hb
    exact hb.selects hc.recent ((Finset.sum_le_sum fun i _ => hc.le i).trans_lt htotal) hpos h0 h100
  | getPctCumulative percentile =>
    refine (sbHistogramGetPctCumulative_ends hc.lock percentile).bind fun b h' hh' => Ends.pure
      ⟨fun h0 h100 => ⟨b, rfl, ?_⟩, hc.merged hh'.2.1 hh'.2.2⟩
    exact hc.selects hh'.2.1 hpos htotal hh'.1 h0 h100
  | getPctCheckpoint percentile =>
    refine (sbHistogramGetPctCheckpoint_ends hc.lock percentile).bind fun b h' hh' => ?_
    obtain ⟨⟨h₁, hm, hb⟩, hcleared, hlock⟩ := hh'
    rw [hdims] at hcleared
    refine Ends.pure ⟨fun h0 h100 => ⟨b, rfl, hc.selects hm hpos htotal hb h0 h100⟩,
      hlock, hcleared.dims, hcleared.slots, fun i hi => ?_, ?_, fun _ => le_rfl⟩
    · rw [hcleared.slots i hi, hcleared.cumulative i hi]
      rfl
    · rw [hcleared.nevents, Histogram.cumulativeSum, hcleared.dims]
      exact (Finset.sum_eq_zero fun i hi => hcleared.cumulative i (Finset.mem_range.mp hi)).symm
  | print => exact absurd rfl hprint

/-! ### Sequences of calls -/

/-- Each call of the sequence ends and selects the right bin. -/
def Right (t : ι) (size : ℕ) (h : Histogram ι) (cs : List HistogramCall) : Prop :=
  ∀ before c after, cs = before ++ c :: after → ∃ s b s', runCalls t h before = some s ∧
    c.body.solo (step t) s = some (b, s') ∧ Correct size (tallies size before) c b

/-- The updates since the last checkpoint are always fewer than a `uint64_t` can count. -/
def Countable (size : ℕ) (cs : List HistogramCall) : Prop :=
  ∀ before, before <+: cs → ∑ i ∈ Finset.range size, (tallies size before).kept i < 2 ^ 64

theorem Counted.run (hc : Counted size ⟨fun _ => 0, fun _ => 0⟩ h) (hpos : 0 < size.toNat) (hsize : size.toNat < 2 ^ 63)
    {cs : List HistogramCall} (hprint : .print ∉ cs) (hcount : Countable size.toNat cs) :
    ∃ s, runCalls t h cs = some s ∧ Counted size (tallies size.toNat cs) s := by
  induction cs using List.reverseRecOn with
  | nil => exact ⟨h, rfl, hc⟩
  | append_singleton cs c ih =>
    rw [List.mem_append, not_or] at hprint
    obtain ⟨s, hs, hcs⟩ := ih hprint.1 fun before hb => hcount before (hb.trans (List.prefix_append cs [c]))
    obtain ⟨b, s', hcall, -, hcs'⟩ := hcs.call (t := t) hpos hsize (hcount cs (List.prefix_append cs [c]))
      (fun heq => hprint.2 (heq ▸ List.mem_singleton_self _))
    refine ⟨s', runCalls_snoc hs hcall, ?_⟩
    rwa [tallies, List.foldl_append]

theorem Counted.right (hc : Counted size ⟨fun _ => 0, fun _ => 0⟩ h) (hpos : 0 < size.toNat) (hsize : size.toNat < 2 ^ 63)
    {cs : List HistogramCall} (hprint : .print ∉ cs) (hcount : Countable size.toNat cs) : Right t size.toNat h cs := by
  rintro before c after rfl
  rw [List.mem_append, List.mem_cons, not_or, not_or] at hprint
  have hfirst : before <+: before ++ c :: after := List.prefix_append _ _
  obtain ⟨s, hs, hcs⟩ := hc.run (t := t) hpos hsize hprint.1 fun b hb => hcount b (hb.trans hfirst)
  obtain ⟨b, s', hcall, hcorrect, -⟩ := hcs.call (t := t) hpos hsize (hcount before hfirst)
    fun heq => hprint.2.1 heq.symm
  exact ⟨s, b, s', hs, hcall, hcorrect⟩

/-- A stale total runs the search off the end of an empty histogram. -/
theorem nevents_eq_zero_of_right (hlock : h.lock = none) (hcum : ∀ i < h.arraySize.toNat, h.cumulativeArray i = 0)
    (hslots : ∀ i < h.arraySize.toNat, h.slotSum i = 0) (hright : Right t h.arraySize.toNat h [.getPctCumulative 100]) :
    h.cumulativeNevents = 0 := by
  obtain ⟨s, b, s', hs, hcall, hcorrect⟩ := hright [] _ [] rfl
  obtain rfl : h = s := Option.some.inj hs
  obtain ⟨i, rfl, hi⟩ := hcorrect (by norm_num) le_rfl
  obtain ⟨b', h', hcall', hb, hm, -⟩ := sbHistogramGetPctCumulative_ends (t := t) hlock 100
  have hsame : some (some i, s') = some (some b', h') := by
    rw [← hcall]
    show ((sbHistogramGetPctCumulative 100) >>= fun r => pure (some r)).solo (step t) h = _
    rw [solo_bind, hcall']
    rfl
  obtain ⟨rfl, rfl⟩ : i = b' ∧ s' = h' := by simpa using hsame
  have hzero : ∀ i < h.arraySize.toNat, s'.cumulativeArray i = 0 := fun i hi => by
    rw [hm.cumulative i hi, hslots i hi, hcum i hi, add_zero]
  -- The bin that is found has a count of zero, so the rank is zero, and with it the total.
  have hlast := hb.reached hi.1.1
  rw [Finset.sum_eq_zero fun k hk => hzero k (by have := Finset.mem_range.mp hk; have := hi.1.1; omega)] at hlast
  have hnevents : s'.cumulativeNevents = h.cumulativeNevents := by
    have hsum := hm.nevents
    rwa [Histogram.cumulativeSum, Histogram.cumulativeSum, hm.size,
      Finset.sum_eq_zero fun k hk => hzero k (Finset.mem_range.mp hk),
      Finset.sum_eq_zero fun k hk => hcum k (Finset.mem_range.mp hk), add_zero, add_zero] at hsum
  have hrank := toNat_rank h.cumulativeNevents.toNat_lt (show (0 : ℚ) ≤ 100 by norm_num) le_rfl
  rw [UInt64.ofNat_toNat, ← hnevents, UInt64.le_zero_iff.mp hlast, mul_div_assoc, div_self (by norm_num), mul_one] at hrank
  have hfloor : ⌊(s'.cumulativeNevents.toNat : ℚ) + 1 / 2⌋ = s'.cumulativeNevents.toNat := by
    rw [Int.floor_eq_iff]
    constructor <;> push_cast <;> linarith
  rw [hfloor] at hrank
  rw [← hnevents]
  exact UInt64.toNat_inj.mp (by simpa using hrank.symm)

/-! ### New histograms -/

section creation
variable {heap : ℕ → Bool} {memory : Histogram ι}

/-- The allocator refuses one of the two blocks of a histogram. -/
def Refused (heap : ℕ → Bool) (size : UInt64) : Prop :=
  calloc heap (size * (UInt64.ofNat sbHistogramNslots + 2)).toNat 8 = none ∨ heap (sbHistogramNslots * 8) = false

omit [DecidableEq ι] in
theorem sbHistogramNew_of_refused (hrefused : Refused heap size) : sbHistogramNew heap (some memory) size = some none := by
  unfold sbHistogramNew sbHistogramInit
  rcases hrefused with h | h <;> rw [h]
  · rfl
  · cases calloc heap (size * (UInt64.ofNat sbHistogramNslots + 2)).toNat 8 <;> rfl

omit [DecidableEq ι] in
/-- The bins are there if their number does not wrap. -/
theorem sbHistogramNew_of_not_refused (hrefused : ¬Refused heap size) :
    sbHistogramNew heap (some memory) size = if size.toNat * 130 < 2 ^ 64 then
      some (some ⟨fun _ _ => 0, fun _ => 0, fun _ => 0, memory.cumulativeNevents, size, none⟩) else none := by
  rw [Refused, not_or, Bool.not_eq_false] at hrefused
  obtain ⟨cells, hcells⟩ := Option.ne_none_iff_exists'.mp hrefused.1
  obtain rfl : (size * (UInt64.ofNat sbHistogramNslots + 2)).toNat = cells := by
    simp only [calloc, Option.ite_none_right_eq_some, Option.some.injEq] at hcells
    exact hcells.2
  have hmul : (size * (UInt64.ofNat sbHistogramNslots + 2)).toNat = size.toNat * 130 % 2 ^ 64 := UInt64.toNat_mul _ _
  unfold sbHistogramNew sbHistogramInit
  rw [hcells, hrefused.2, hmul, show sbHistogramNslots + 2 = 130 from rfl]
  dsimp only
  by_cases hlt : size.toNat * 130 < 2 ^ 64
  · rw [Nat.mod_eq_of_lt hlt, if_pos hlt, if_pos le_rfl]
    rfl
  · rw [if_neg hlt, if_neg]
    · rfl
    · have := Nat.mod_lt (size.toNat * 130) (show 0 < 2 ^ 64 by norm_num)
      omega

/-- A histogram from `sb_histogram_new`, where `malloc` returned `memory`, selects the right bin in every sequence of
calls. -/
def PercentilesRight (t : ι) (heap : ℕ → Bool) (memory : Histogram ι) (size : UInt64) : Prop :=
  ∃ r, sbHistogramNew heap (some memory) size = some r ∧ ∀ h, r = some h → ∀ cs, HistogramCall.print ∉ cs →
    Countable size.toNat cs → Right t size.toNat h cs

theorem countable_single (size : ℕ) (percentile : ℚ) : Countable size [.getPctCumulative percentile] := by
  rintro before hb
  rcases List.prefix_cons_iff.mp hb with rfl | ⟨l, rfl, hl⟩
  · show ∑ i ∈ Finset.range size, 0 < 2 ^ 64
    rw [Finset.sum_const_zero]
    norm_num
  · rw [List.prefix_nil.mp hl]
    show ∑ i ∈ Finset.range size, 0 < 2 ^ 64
    rw [Finset.sum_const_zero]
    norm_num

theorem nevents_eq_zero_of_percentilesRight (hright : PercentilesRight t heap memory size) (hrefused : ¬Refused heap size) :
    size.toNat * 130 < 2 ^ 64 ∧ memory.cumulativeNevents = 0 := by
  obtain ⟨r, hnew, hr⟩ := hright
  rw [sbHistogramNew_of_not_refused hrefused] at hnew
  split at hnew
  · rename_i hlt
    have hright := hr _ (Option.some.inj hnew).symm _ (by simp) (countable_single size.toNat 100)
    exact ⟨hlt, nevents_eq_zero_of_right
      (h := ⟨fun _ _ => 0, fun _ => 0, fun _ => 0, memory.cumulativeNevents, size, none⟩)
      rfl (fun _ _ => rfl) (fun _ _ => Finset.sum_const_zero) hright⟩
  · cases hnew

/-- A new histogram selects the right bins if and only if `malloc` left a zero in `cumulative_nevents` and the number of
its cells does not wrap, or there is no histogram. -/
theorem percentilesRight_iff (t : ι) (heap : ℕ → Bool) (memory : Histogram ι) (size : UInt64) (hpos : 1 ≤ size.toNat) :
    PercentilesRight t heap memory size ↔
      Refused heap size ∨ size.toNat * 130 < 2 ^ 64 ∧ memory.cumulativeNevents = 0 := by
  by_cases hrefused : Refused heap size
  · exact ⟨fun _ => Or.inl hrefused, fun _ => ⟨none, sbHistogramNew_of_refused hrefused, fun h hr => by cases hr⟩⟩
  refine ⟨fun hright => Or.inr (nevents_eq_zero_of_percentilesRight hright hrefused), fun hcond => ?_⟩
  obtain ⟨hlt, hzero⟩ := hcond.resolve_left hrefused
  refine ⟨_, (sbHistogramNew_of_not_refused hrefused).trans (if_pos hlt), fun h hr cs hprint hcount => ?_⟩
  obtain rfl := Option.some.inj hr
  have hstart : Counted size ⟨fun _ => 0, fun _ => 0⟩
      (⟨fun _ _ => 0, fun _ => 0, fun _ => 0, memory.cumulativeNevents, size, none⟩ : Histogram ι) :=
    ⟨rfl, rfl, fun i _ => Finset.sum_const_zero, fun i _ => (add_zero _).trans Finset.sum_const_zero,
      hzero.trans Finset.sum_const_zero.symm, fun _ => le_rfl⟩
  exact hstart.right hpos (by omega) hprint hcount

end creation

end calls

/-- A zeroed block of memory. -/
theorem percentilesRight_iff_three : PercentilesRight () (fun _ => true) Histogram.zeroed 3 :=
  (percentilesRight_iff () (fun _ => true) Histogram.zeroed 3 (by decide)).mpr (Or.inr ⟨by decide, rfl⟩)

/-- A block of memory with a five where the total goes. -/
theorem not_percentilesRight :
    ¬PercentilesRight () (fun _ => true) { (Histogram.zeroed : Histogram Unit) with cumulativeNevents := 5 } 3 := by
  intro hright
  have hrefused : ¬Refused (fun _ => true) 3 := by
    rintro (h | h)
    · exact absurd h (by decide)
    · cases h
  exact absurd (nevents_eq_zero_of_percentilesRight hright hrefused).2 (by decide)

end NuKSM.Sysbench
