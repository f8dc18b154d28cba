import NuKSM.Sysbench.Timer

/-! # Cumulative reports of latencies (`sb_timer.c`, `sysbench.c`)

The timer that a report merges into is its own, so only the counters of it are kept. -/

namespace NuKSM.Sysbench
open Thread TimerOp

/-- `sb_timer_avg`. -/
def sbTimerAvg (t : TimerField → UInt64) : UInt64 := if t .events = 0 then 0 else t .sumTime / t .events

/-- `sb_timer_sum`. -/
def sbTimerSum (t : TimerField → UInt64) : UInt64 := t .sumTime

/-- `sb_timer_min`. -/
def sbTimerMin (t : TimerField → UInt64) : UInt64 := if t .events = 0 then 0 else t .minTime

/-- `sb_timer_max`. -/
def sbTimerMax (t : TimerField → UInt64) : UInt64 := t .maxTime

/-- `sb_timer_merge`. -/
def sbTimerMerge (t1 t2 : TimerField → UInt64) : TimerField → UInt64
  | .sumTime => t1 .sumTime + t2 .sumTime
  | .events => t1 .events + t2 .events
  | .maxTime => if t1 .maxTime > t2 .maxTime then t1 .maxTime else t2 .maxTime
  | .minTime => if t1 .minTime < t2 .minTime then t1 .minTime else t2 .minTime
  | .queueTime => 0

/-- The counters of a timer that `sb_timer_merge` reads. -/
def loadCounts (n : TimerName) : TimerM (TimerField → UInt64) := do
  let sumTime ← perform (load n .sumTime)
  let events ← perform (load n .events)
  let maxTime ← perform (load n .maxTime)
  let minTime ← perform (load n .minTime)
  return fun
    | .sumTime => sumTime
    | .events => events
    | .maxTime => maxTime
    | .minTime => minTime
    | .queueTime => 0

/-- The loop of `report_cumulative` over the copies, which are taken in the given order. -/
def mergeTimers : (order : List ℕ) → (TimerField → UInt64) → TimerM (TimerField → UInt64)
  | [], t => return t
  | i :: order, t => do
    let copy ← loadCounts (.copy i)
    mergeTimers order (sbTimerMerge t copy)

/-- The merged number of events, and the latencies of a report in nanoseconds. -/
structure LatencyStat where
  events : UInt64
  latencyMin : UInt64
  latencyMax : UInt64
  latencyAvg : UInt64
  latencySum : UInt64
  deriving DecidableEq, Repr

def LatencyStat.of (t : TimerField → UInt64) : LatencyStat :=
  ⟨t .events, sbTimerMin t, sbTimerMax t, sbTimerAvg t, sbTimerSum t⟩

/-- The part of `report_cumulative` about latencies. -/
def reportCumulative (nthreads : ℕ) (order : List ℕ) : TimerM LatencyStat := do
  checkpointTimers nthreads
  let t ← mergeTimers order initCounts
  return .of t

/-! ### Threads -/

/-- The workers, and the thread of the reports: that of the checkpoints, and the main thread once it has joined it. -/
inductive TimerThread (threads : ℕ)
  | worker (id : Fin threads)
  | reporter
  deriving DecidableEq, Repr

/-- What a worker can be called to do: a run of events, or a part of one. -/
inductive WorkerCall
  | moreEvents
  | eventStart
  | eventStop
  | run (n : ℕ)
  deriving DecidableEq, Repr

/-- A report is called with the order in which it merges the copies. -/
def TimerThread.Call {threads : ℕ} : TimerThread threads → Type
  | worker _ => WorkerCall
  | reporter => { order : List ℕ // order.Perm (List.range threads) }

def WorkerCall.body (g : SbGlobals) (id : ℕ) : WorkerCall → TimerM Unit
  | moreEvents => do
    let _ ← sbMoreEvents g id
    return ()
  | eventStart => sbEventStart id
  | eventStop => do
    let _ ← sbEventStop g id
    return ()
  | run n => do
    let _ ← threadRun g id n
    return ()

def timerBody (g : SbGlobals) {threads : ℕ} : (t : TimerThread threads) → t.Call → TimerM (Option LatencyStat)
  | .worker id, c => do
    c.body g id
    return none
  | .reporter, order => do
    let stat ← reportCumulative threads order.1
    return some stat

end NuKSM.Sysbench
