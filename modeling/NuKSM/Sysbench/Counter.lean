import NuKSM.Lib.Thread

/-! # The statistics counters of sysbench (`sb_counter.c`, `sb_counter.h`) -/

namespace NuKSM.Sysbench

/-- `sb_counter_type_t`. -/
inductive SbCounterType
  | other | read | write | event | error | reconnect
  deriving DecidableEq, Repr

/-- The index of a counter. -/
def SbCounterType.toNat : SbCounterType → ℕ
  | other => 0
  | read => 1
  | write => 2
  | event => 3
  | error => 4
  | reconnect => 5

/-- `SB_CNT_MAX`. -/
def sbCntMax : ℕ := 6

/-- The two kinds of reports. -/
inductive Kind
  | intermediate | cumulative
  deriving DecidableEq, Repr

/-- `sb_counters`, and with `last` the arrays `last_intermediate_counters` and `last_cumulative_counters`. -/
structure Counters where
  slots : ℕ → ℕ → UInt64
  last : Kind → ℕ → UInt64

/-- All of it starts zeroed. -/
def Counters.zero : Counters := ⟨fun _ _ => 0, fun _ _ => 0⟩

inductive CounterOp
  /-- `ck_pr_load_64(&sb_counters[thread_id][type])`. -/
  | load (threadId type : ℕ)
  /-- `ck_pr_store_64(&sb_counters[thread_id][type], v)`. -/
  | store (threadId type : ℕ) (v : UInt64)
  | loadLast (kind : Kind) (i : ℕ)
  | storeLast (kind : Kind) (i : ℕ) (v : UInt64)
  deriving DecidableEq, Repr

namespace CounterOp

@[reducible] def Res : CounterOp → Type
  | load .. | loadLast .. => UInt64
  | _ => Unit

def step : (op : CounterOp) → Counters → op.Res × Counters
  | load threadId type, s => (s.slots threadId type, s)
  | store threadId type v, s =>
    ((), { s with slots := Function.update s.slots threadId (Function.update (s.slots threadId) type v) })
  | loadLast kind i, s => (s.last kind i, s)
  | storeLast kind i v, s => ((), { s with last := Function.update s.last kind (Function.update (s.last kind) i v) })

end CounterOp

abbrev CounterM := Thread CounterOp CounterOp.Res

open Thread CounterOp

/-- `sb_counter_val`. -/
def sbCounterVal (threadId type : ℕ) : CounterM UInt64 := perform (load threadId type)

/-- `sb_counter_inc`. -/
def sbCounterInc (threadId : ℕ) (type : SbCounterType) : CounterM Unit := do
  let v ← sbCounterVal threadId type.toNat
  perform (store threadId type.toNat (v + 1))

/-- `sb_counters_merge`, for `threads` threads. -/
def sbCountersMerge (threads : ℕ) (dst : ℕ → UInt64) : CounterM (ℕ → UInt64) :=
  loopUp (fun t dst => loopUp (fun i dst => do
    let v ← sbCounterVal i t
    return Function.update dst t (dst t + v)) 0 threads dst) 0 sbCntMax dst

/-- `sb_counters_checkpoint`. -/
def sbCountersCheckpoint (dst : ℕ → UInt64) (cp : Kind) : CounterM (ℕ → UInt64) :=
  loopUp (fun i dst => do
    let tmp ← perform (loadLast cp i)
    perform (storeLast cp i (dst i))
    return Function.update dst i (dst i - tmp)) 0 sbCntMax dst

/-- What `sb_counters_agg_intermediate` and `sb_counters_agg_cumulative` do with the array `cp`. -/
def sbCountersAgg (threads : ℕ) (cp : Kind) : CounterM (ℕ → UInt64) := do
  let val ← sbCountersMerge threads fun _ => 0
  sbCountersCheckpoint val cp

/-- `sb_counters_agg_intermediate`. -/
def sbCountersAggIntermediate (threads : ℕ) : CounterM (ℕ → UInt64) := sbCountersAgg threads .intermediate

/-- `sb_counters_agg_cumulative`. -/
def sbCountersAggCumulative (threads : ℕ) : CounterM (ℕ → UInt64) := sbCountersAgg threads .cumulative

/-! ### The threads -/

/-- A worker has a slot of its own, the background threads share the slot after those. Each kind of report is made by a
single thread. -/
inductive CounterThread (threads : ℕ)
  | worker (id : Fin threads)
  | background (n : ℕ)
  | reporter (kind : Kind)
  deriving DecidableEq, Repr

/-- What a thread can be called to do: to increment a counter, or to report. -/
def CounterThread.Call {threads : ℕ} : CounterThread threads → Type
  | worker _ | background _ => SbCounterType
  | reporter _ => Unit

/-- The values that a call reports, where it reports some. -/
def counterBody (threads : ℕ) : (t : CounterThread threads) → t.Call → CounterM (Option (ℕ → UInt64))
  | .worker id, type => do
    sbCounterInc id type
    return none
  | .background _, type => do
    sbCounterInc threads type
    return none
  | .reporter .intermediate, _ => do return some (← sbCountersAggIntermediate threads)
  | .reporter .cumulative, _ => do return some (← sbCountersAggCumulative threads)

end NuKSM.Sysbench
