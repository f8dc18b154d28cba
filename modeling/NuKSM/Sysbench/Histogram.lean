import NuKSM.Lib.Thread

/-! # The latency histograms of sysbench (`sb_histogram.c`)

The bins are those before `exp`, percentages and ranks are exact rational numbers. -/

namespace NuKSM.Sysbench

/-- `SB_HISTOGRAM_NSLOTS`. -/
def sbHistogramNslots : ℕ := 128

/-- `sb_histogram_t`, with the contents of its arrays and the thread that has locked it. -/
structure Histogram (ι : Type) where
  intermSlots : ℕ → ℕ → UInt64
  cumulativeArray : ℕ → UInt64
  tempArray : ℕ → UInt64
  cumulativeNevents : UInt64
  arraySize : UInt64
  lock : Option ι

def Histogram.setSlot {ι : Type} (h : Histogram ι) (slot i : ℕ) (v : UInt64) : Histogram ι :=
  { h with intermSlots := Function.update h.intermSlots slot (Function.update (h.intermSlots slot) i v) }

/-- The accesses to a histogram. -/
inductive HistogramOp
  | wrlock
  | unlock
  | loadArraySize
  /-- `ck_pr_inc_64(&h->interm_slots[slot][i])`. -/
  | incSlot (slot i : ℕ)
  /-- `ck_pr_fas_64(&h->interm_slots[slot][i], 0)`. -/
  | fasSlot (slot i : ℕ)
  | loadTemp (i : ℕ)
  | storeTemp (i : ℕ) (v : UInt64)
  | loadCumulative (i : ℕ)
  | storeCumulative (i : ℕ) (v : UInt64)
  /-- The cell `i` of the `memset` of a checkpoint. -/
  | clearCumulative (i : ℕ)
  | loadNevents
  | storeNevents (v : UInt64)

namespace HistogramOp

@[reducible] def Res : HistogramOp → Type
  | loadArraySize | fasSlot .. | loadTemp _ | loadCumulative _ | loadNevents => UInt64
  | _ => Unit

variable {ι : Type} [DecidableEq ι]

/-- An access of the thread `t`. It has no outcome while it has to wait for the lock, and none outside the arrays. -/
def step (t : ι) : (op : HistogramOp) → Histogram ι → Option (op.Res × Histogram ι)
  | wrlock, h => if h.lock = none then some ((), { h with lock := some t }) else none
  | unlock, h => if h.lock = some t then some ((), { h with lock := none }) else none
  | loadArraySize, h => some (h.arraySize, h)
  | incSlot slot i, h =>
    if slot < sbHistogramNslots ∧ i < h.arraySize.toNat then
      some ((), h.setSlot slot i (h.intermSlots slot i + 1))
    else none
  | fasSlot slot i, h =>
    if slot < sbHistogramNslots ∧ i < h.arraySize.toNat then
      some (h.intermSlots slot i, h.setSlot slot i 0)
    else none
  | loadTemp i, h => if i < h.arraySize.toNat then some (h.tempArray i, h) else none
  | storeTemp i v, h =>
    if i < h.arraySize.toNat then some ((), { h with tempArray := Function.update h.tempArray i v }) else none
  | loadCumulative i, h => if i < h.arraySize.toNat then some (h.cumulativeArray i, h) else none
  | storeCumulative i v, h =>
    if i < h.arraySize.toNat then some ((), { h with cumulativeArray := Function.update h.cumulativeArray i v }) else none
  | clearCumulative i, h =>
    if i < h.arraySize.toNat then some ((), { h with cumulativeArray := Function.update h.cumulativeArray i 0 }) else none
  | loadNevents, h => some (h.cumulativeNevents, h)
  | storeNevents v, h => some ((), { h with cumulativeNevents := v })

end HistogramOp

abbrev HistogramThread := Thread HistogramOp HistogramOp.Res

open Thread HistogramOp

/-! ### Creation -/

/-- `calloc`, for an allocator that serves the requests `heap`, in bytes; the number of cells that it returns. -/
def calloc (heap : ℕ → Bool) (nmemb size : ℕ) : Option ℕ :=
  if nmemb * size < 2 ^ 64 ∧ heap (nmemb * size) then some nmemb else none

/-- `sb_histogram_init`: its code and the histogram. It has no outcome where it sets pointers past the end of the block
that it has allocated. -/
def sbHistogramInit {ι : Type} (heap : ℕ → Bool) (h : Histogram ι) (size : UInt64) : Option (ℕ × Histogram ι) :=
  match calloc heap (size * (UInt64.ofNat sbHistogramNslots + 2)).toNat 8, heap (sbHistogramNslots * 8) with
  | some cells, true =>
    if size.toNat * (sbHistogramNslots + 2) ≤ cells then
      some (0, { h with
        cumulativeArray := fun _ => 0, tempArray := fun _ => 0, intermSlots := fun _ _ => 0,
        arraySize := size, lock := none })
    else none
  | _, _ => some (1, h)

/-- `sb_histogram_new`, where `malloc` returns `memory`. -/
def sbHistogramNew {ι : Type} (heap : ℕ → Bool) (memory : Option (Histogram ι)) (size : UInt64) :
    Option (Option (Histogram ι)) :=
  match memory with
  | none => some none
  | some h => (sbHistogramInit heap h size).map fun r => if r.1 = 0 then some r.2 else none

/-! ### Recording -/

/-- The bin that `sb_histogram_update` makes of the rounded logarithm of its value. -/
def clampBin (size : UInt64) (i : Int64) : Int64 :=
  if i < 0 then 0 else if i ≥ size.toInt64 then (size - 1).toInt64 else i

/-- `sb_histogram_update`, for the random number and the rounded logarithm that it computes. -/
def sbHistogramUpdate (random : UInt64) (i : Int64) : HistogramThread Unit := do
  let slot := random.toNat % sbHistogramNslots
  let size ← perform loadArraySize
  perform (incSlot slot (clampBin size i).toUInt64.toNat)

/-! ### Percentiles -/

/-- `floor(nevents * percentile / 100 + 0.5)`. -/
def rank (nevents : UInt64) (percentile : ℚ) : UInt64 :=
  UInt64.ofNat ⌊(nevents.toNat : ℚ) * percentile / 100 + 1 / 2⌋.toNat

/-- Adds up the counts from bin `i` on, `n` of them, until they reach `nmax`; the bin where it stops. -/
def findBin (load : ℕ → HistogramThread UInt64) (nmax : UInt64) : (i n : ℕ) → UInt64 → HistogramThread ℕ
  | i, 0, _ => pure i
  | i, n + 1, ncur => do
    let count ← load i
    if ncur + count ≥ nmax then pure i else findBin load nmax (i + 1) n (ncur + count)

/-- `array[i] += t` for `temp_array`. -/
def addTemp (i : ℕ) (t : UInt64) : HistogramThread Unit := do
  let old ← perform (loadTemp i)
  perform (storeTemp i (old + t))

/-- `cumulative_array[i] += t`. -/
def addCumulative (i : ℕ) (t : UInt64) : HistogramThread Unit := do
  let old ← perform (loadCumulative i)
  perform (storeCumulative i (old + t))

/-- The first slot goes to `temp_array`. -/
def takeFirst (i : ℕ) (nevents : UInt64) : HistogramThread UInt64 := do
  let t ← perform (fasSlot 0 i)
  perform (storeTemp i t)
  let t ← perform (loadTemp i)
  return nevents + t

/-- The other slots are added to `temp_array`. -/
def takeSlot (s i : ℕ) (nevents : UInt64) : HistogramThread UInt64 := do
  let t ← perform (fasSlot s i)
  addTemp i t
  return nevents + t

/-- `sb_histogram_get_pct_intermediate`. -/
def sbHistogramGetPctIntermediate (percentile : ℚ) : HistogramThread ℕ := do
  perform wrlock
  let size ← perform loadArraySize
  let nevents ← loopUp takeFirst 0 size.toNat 0
  let nevents ← loopUp (fun s nevents => loopUp (takeSlot s) 0 size.toNat nevents) 1 (sbHistogramNslots - 1) nevents
  let i ← findBin (fun i => perform (loadTemp i)) (rank nevents percentile) 0 size.toNat 0
  loopUp (fun i _ => do
    let t ← perform (loadTemp i)
    addCumulative i t) 0 size.toNat ()
  let total ← perform loadNevents
  perform (storeNevents (total + nevents))
  perform unlock
  return i

/-- A cell of a slot is added to `cumulative_array`. -/
def mergeSlot (s i : ℕ) (nevents : UInt64) : HistogramThread UInt64 := do
  let t ← perform (fasSlot s i)
  addCumulative i t
  return nevents + t

/-- `merge_intermediate_into_cumulative`. -/
def mergeIntermediateIntoCumulative : HistogramThread Unit := do
  let nevents ← perform loadNevents
  let size ← perform loadArraySize
  let nevents ← loopUp (fun s nevents => loopUp (mergeSlot s) 0 size.toNat nevents) 0 sbHistogramNslots nevents
  perform (storeNevents nevents)

/-- `get_pct_cumulative`. -/
def getPctCumulative (percentile : ℚ) : HistogramThread ℕ := do
  let nevents ← perform loadNevents
  let size ← perform loadArraySize
  findBin (fun i => perform (loadCumulative i)) (rank nevents percentile) 0 size.toNat 0

/-- `sb_histogram_get_pct_cumulative`. -/
def sbHistogramGetPctCumulative (percentile : ℚ) : HistogramThread ℕ := do
  perform wrlock
  mergeIntermediateIntoCumulative
  let res ← getPctCumulative percentile
  perform unlock
  return res

/-- `sb_histogram_get_pct_checkpoint`. -/
def sbHistogramGetPctCheckpoint (percentile : ℚ) : HistogramThread ℕ := do
  perform wrlock
  mergeIntermediateIntoCumulative
  let res ← getPctCumulative percentile
  let size ← perform loadArraySize
  loopUp (fun i _ => perform (clearCumulative i)) 0 size.toNat ()
  perform (storeNevents 0)
  perform unlock
  return res

/-! ### Printing -/

/-- A line of a printed histogram: the bin, the number of stars and the count. -/
structure Line where
  bin : ℕ
  width : ℕ
  count : UInt64
  deriving DecidableEq, Repr

/-- `sb_histogram_print`. -/
def sbHistogramPrint : HistogramThread (List Line) := do
  perform wrlock
  mergeIntermediateIntoCumulative
  let size ← perform loadArraySize
  let maxcnt ← loopUp (fun i maxcnt => do
    let count ← perform (loadCumulative i)
    return if count > maxcnt then count else maxcnt) 0 size.toNat (0 : UInt64)
  if maxcnt = 0 then return []
  let lines ← loopUp (fun i lines => do
    let count ← perform (loadCumulative i)
    return if count = 0 then lines
      else lines ++ [⟨i, ⌊(count.toNat : ℚ) * 40 / maxcnt.toNat + 1 / 2⌋.toNat, count⟩]) 0 size.toNat []
  perform unlock
  return lines

/-! ### Calls -/

inductive HistogramCall
  | update (random : UInt64) (i : Int64)
  | getPctIntermediate (percentile : ℚ)
  | getPctCumulative (percentile : ℚ)
  | getPctCheckpoint (percentile : ℚ)
  | print
  deriving DecidableEq, Repr

/-- The bin that a call selects, where it selects one. -/
def HistogramCall.body : HistogramCall → HistogramThread (Option ℕ)
  | update random i => do
    sbHistogramUpdate random i
    return none
  | getPctIntermediate percentile => do return some (← sbHistogramGetPctIntermediate percentile)
  | getPctCumulative percentile => do return some (← sbHistogramGetPctCumulative percentile)
  | getPctCheckpoint percentile => do return some (← sbHistogramGetPctCheckpoint percentile)
  | print => do
    let _ ← sbHistogramPrint
    return none

end NuKSM.Sysbench
