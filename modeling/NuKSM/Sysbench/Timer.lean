import NuKSM.Lib.Loop

/-! # The timers of sysbench (`sb_timer.c`, `sb_timer.h`) and the events that they time (`sysbench.c`) -/

namespace NuKSM.Sysbench

/-- `struct timespec`. -/
structure Timespec where
  sec : Int64
  nsec : Int64
  deriving DecidableEq, Repr

/-- `TIMESPEC_DIFF`. -/
def timespecDiff (a b : Timespec) : UInt64 := (a.sec - b.sec).toUInt64 * 1000000000 + (a.nsec - b.nsec).toUInt64

/-- The counters of a timer. -/
inductive TimerField
  | events | queueTime | minTime | maxTime | sumTime
  deriving DecidableEq, Repr

/-- `sb_timer_t`, with the thread that has locked it. -/
structure Timer (ι : Type) where
  timeStart : Timespec
  timeEnd : Timespec
  count : TimerField → UInt64
  lock : Option ι

/-- `sb_exec_timer`, and for each thread its timers in `timers` and `timers_copy`. -/
inductive TimerName
  | exec
  | thread (id : ℕ)
  | copy (id : ℕ)
  deriving DecidableEq, Repr

/-- What threads share. The readings of the clock and what the rest of sysbench does are sequences of values to come. -/
structure Shared (ι : Type) where
  timers : TimerName → Timer ι
  nevents : UInt64
  concurrency : Int32
  clock : ℕ → Timespec
  error : ℕ → Bool
  queueIsFull : ℕ → Bool
  queue : ℕ → UInt64
  hasEvent : ℕ → Bool
  rc : ℕ → Int32

def Shared.setTimer {ι : Type} (s : Shared ι) (n : TimerName) (t : Timer ι) : Shared ι :=
  { s with timers := Function.update s.timers n t }

/-- Zeroed memory, at the time zero. -/
def Shared.zeroed {ι : Type} : Shared ι :=
  ⟨fun _ => ⟨⟨0, 0⟩, ⟨0, 0⟩, fun _ => 0, none⟩, 0, 0, fun _ => ⟨0, 0⟩, fun _ => false, fun _ => false, fun _ => 0,
    fun _ => false, fun _ => 0⟩

inductive TimerOp
  /-- `SB_GETTIME`. -/
  | getTime
  | lock (n : TimerName)
  | unlock (n : TimerName)
  | initLock (n : TimerName)
  | loadStart (n : TimerName)
  | storeStart (n : TimerName) (v : Timespec)
  | loadEnd (n : TimerName)
  | storeEnd (n : TimerName) (v : Timespec)
  | load (n : TimerName) (f : TimerField)
  | store (n : TimerName) (f : TimerField) (v : UInt64)
  | loadError
  /-- `ck_pr_faa_64(&sb_globals.nevents, delta)`. -/
  | faaNevents (delta : UInt64)
  /-- The loop that takes an event from the queue, once there is one or the queue is full. -/
  | dequeue
  | loadQueueIsFull
  | addConcurrency (delta : Int32)
  /-- `sb_histogram_update(&sb_latency_histogram, NS2MS(value))`. -/
  | updateHistogram (value : UInt64)
  /-- `sb_counter_inc(thread_id, SB_CNT_EVENT)`. -/
  | incCounter
  /-- `test->ops.next_event(thread_id)`, and whether it is an event other than `SB_REQ_TYPE_NULL`. -/
  | nextEvent
  /-- `test->ops.execute_event(&event, thread_id)`. -/
  | executeEvent
  /-- The thread takes no more turns. -/
  | halt
  deriving DecidableEq, Repr

namespace TimerOp

@[reducible] def Res : TimerOp → Type
  | getTime | loadStart _ | loadEnd _ => Timespec
  | load .. | faaNevents _ | dequeue => UInt64
  | loadError | loadQueueIsFull | nextEvent => Bool
  | executeEvent => Int32
  | halt => Empty
  | _ => Unit

variable {ι : Type}

/-- An access of the thread `t`. It has no outcome while it has to wait for a lock. -/
def step (t : ι) : (op : TimerOp) → Shared ι → Option (op.Res × Shared ι)
  | getTime, s => some (s.clock 0, { s with clock := fun k => s.clock (k + 1) })
  | lock n, s =>
    if (s.timers n).lock = none then some ((), s.setTimer n { s.timers n with lock := some t }) else none
  | unlock n, s => some ((), s.setTimer n { s.timers n with lock := none })
  | initLock n, s => some ((), s.setTimer n { s.timers n with lock := none })
  | loadStart n, s => some ((s.timers n).timeStart, s)
  | storeStart n v, s => some ((), s.setTimer n { s.timers n with timeStart := v })
  | loadEnd n, s => some ((s.timers n).timeEnd, s)
  | storeEnd n v, s => some ((), s.setTimer n { s.timers n with timeEnd := v })
  | load n f, s => some ((s.timers n).count f, s)
  | store n f v, s => some ((), s.setTimer n { s.timers n with count := Function.update (s.timers n).count f v })
  | loadError, s => some (s.error 0, { s with error := fun k => s.error (k + 1) })
  | faaNevents delta, s => some (s.nevents, { s with nevents := s.nevents + delta })
  | dequeue, s => some (s.queue 0, { s with queue := fun k => s.queue (k + 1) })
  | loadQueueIsFull, s => some (s.queueIsFull 0, { s with queueIsFull := fun k => s.queueIsFull (k + 1) })
  | addConcurrency delta, s => some ((), { s with concurrency := s.concurrency + delta })
  | updateHistogram _, s => some ((), s)
  | incCounter, s => some ((), s)
  | nextEvent, s => some (s.hasEvent 0, { s with hasEvent := fun k => s.hasEvent (k + 1) })
  | executeEvent, s => some (s.rc 0, { s with rc := fun k => s.rc (k + 1) })
  | halt, _ => none

end TimerOp

abbrev TimerM := Thread TimerOp TimerOp.Res

open Thread TimerOp

/-- A thread that takes no more turns. -/
def waitForever {α : Type} : TimerM α := act halt Empty.elim

/-! ### `sb_timer.c` and `sb_timer.h` -/

/-- The counters of a timer after `sb_timer_reset`. -/
def initCounts : TimerField → UInt64
  | .minTime => 18446744073709551615
  | _ => 0

/-- `sb_timer_reset`. -/
def sbTimerReset (n : TimerName) : TimerM Unit := do
  perform (store n .minTime 18446744073709551615)
  perform (store n .maxTime 0)
  perform (store n .sumTime 0)
  perform (store n .events 0)
  perform (store n .queueTime 0)

/-- `sb_timer_init`. -/
def sbTimerInit (n : TimerName) : TimerM Unit := do
  perform (storeStart n ⟨0, 0⟩)
  perform (storeEnd n ⟨0, 0⟩)
  perform (initLock n)
  sbTimerReset n

/-- `sb_timer_running`. -/
def sbTimerRunning (n : TimerName) : TimerM Bool := do
  let start ← perform (loadStart n)
  let stop ← perform (loadEnd n)
  return timespecDiff start stop > 0

/-- `sb_timer_start`. -/
def sbTimerStart (n : TimerName) : TimerM Unit := do
  perform (lock n)
  let now ← perform getTime
  perform (storeStart n now)
  perform (unlock n)

/-- `if (elapsed < t->min_time) t->min_time = elapsed`. -/
def lowerMinTime (n : TimerName) (elapsed : UInt64) : TimerM Unit := do
  let minTime ← perform (load n .minTime)
  onlyIf (elapsed < minTime) (perform (store n .minTime elapsed))

/-- `if (elapsed > t->max_time) t->max_time = elapsed`. -/
def raiseMaxTime (n : TimerName) (elapsed : UInt64) : TimerM Unit := do
  let maxTime ← perform (load n .maxTime)
  onlyIf (elapsed > maxTime) (perform (store n .maxTime elapsed))

/-- `sb_timer_stop`. -/
def sbTimerStop (n : TimerName) : TimerM UInt64 := do
  perform (lock n)
  let now ← perform getTime
  perform (storeEnd n now)
  let stop ← perform (loadEnd n)
  let start ← perform (loadStart n)
  let queueTime ← perform (load n .queueTime)
  let elapsed := timespecDiff stop start + queueTime
  let events ← perform (load n .events)
  perform (store n .events (events + 1))
  let sumTime ← perform (load n .sumTime)
  perform (store n .sumTime (sumTime + elapsed))
  lowerMinTime n elapsed
  raiseMaxTime n elapsed
  perform (unlock n)
  return elapsed

/-- `sb_timer_value`. -/
def sbTimerValue (n : TimerName) : TimerM UInt64 := do
  let now ← perform getTime
  let start ← perform (loadStart n)
  let queueTime ← perform (load n .queueTime)
  return timespecDiff now start + queueTime

def copyField (n old : TimerName) (f : TimerField) : TimerM Unit := do
  let v ← perform (load n f)
  perform (store old f v)

/-- `memcpy(old, t, sizeof(*old))`, but for the lock. -/
def copyTimer (n old : TimerName) : TimerM Unit := do
  let start ← perform (loadStart n)
  perform (storeStart old start)
  let stop ← perform (loadEnd n)
  perform (storeEnd old stop)
  copyField n old .events
  copyField n old .queueTime
  copyField n old .minTime
  copyField n old .maxTime
  copyField n old .sumTime

/-- `sb_timer_checkpoint`. -/
def sbTimerCheckpoint (n old : TimerName) : TimerM Unit := do
  perform (lock n)
  copyTimer n old
  perform (initLock old)
  sbTimerReset n
  perform (unlock n)

/-! ### `sysbench.c` -/

/-- The fields of `sb_globals` that do not change during a run. -/
structure SbGlobals where
  threads : ℕ
  txRate : UInt32
  maxEvents : UInt64
  maxTimeNs : UInt64
  percentile : UInt32
  deriving DecidableEq, Repr

/-- The part of `sb_more_events` that takes an event from the queue, in rate mode. -/
def takeEvent (threadId : ℕ) : TimerM Bool := do
  let ptr ← perform dequeue
  if ← perform loadQueueIsFull then return false
  perform (addConcurrency 1)
  let value ← sbTimerValue .exec
  perform (store (.thread threadId) .queueTime (value - ptr))
  return true

/-- The part of `sb_more_events` that counts events, and what follows. -/
def countEvent (g : SbGlobals) (threadId : ℕ) : TimerM Bool := do
  if g.maxEvents > 0 then
    if (← perform (faaNevents 1)) ≥ g.maxEvents then return false
  if g.txRate > 0 then takeEvent threadId else return true

/-- `sb_more_events`. -/
def sbMoreEvents (g : SbGlobals) (threadId : ℕ) : TimerM Bool := do
  if ← perform loadError then return false
  if g.maxTimeNs > 0 then
    if (← sbTimerValue .exec) ≥ g.maxTimeNs then return false
  countEvent g threadId

/-- `sb_event_start`. -/
def sbEventStart (threadId : ℕ) : TimerM Unit := sbTimerStart (.thread threadId)

/-- `sb_event_stop`, and the value that it records. -/
def sbEventStop (g : SbGlobals) (threadId : ℕ) : TimerM UInt64 := do
  let value ← sbTimerStop (.thread threadId)
  onlyIf (g.percentile > 0) (perform (updateHistogram value))
  perform incCounter
  onlyIf (g.txRate > 0) (perform (addConcurrency (-1)))
  return value

/-- A round of the loop of `thread_run`, where `rc` is the result of the last event. -/
def threadRunRound (g : SbGlobals) (threadId : ℕ) (rc : Int32) : TimerM (Int32 ⊕ Int32) := do
  if !(← sbMoreEvents g threadId) then return .inr rc
  if rc ≠ 0 then return .inr rc
  if !(← perform nextEvent) then return .inr rc
  sbEventStart threadId
  let rc ← perform executeEvent
  let _ ← sbEventStop g threadId
  return .inl rc

/-- `thread_run`, for some rounds of its loop. -/
def threadRun (g : SbGlobals) (threadId n : ℕ) : TimerM Int32 := rounds waitForever (threadRunRound g threadId) n 0

/-- The workers, each called with the number of rounds of its loop. -/
def workerBody (g : SbGlobals) {threads : ℕ} (id : Fin threads) (n : ℕ) : TimerM Int32 := threadRun g id n

/-- What `init` does with the timers. -/
def initTimers (nthreads : ℕ) : TimerM Unit := loopUp (fun i _ => sbTimerInit (.thread i)) 0 nthreads ()

/-- What `report_cumulative` does with the timers: each is copied and reset. -/
def checkpointTimers (nthreads : ℕ) : TimerM Unit :=
  loopUp (fun i _ => sbTimerCheckpoint (.thread i) (.copy i)) 0 nthreads ()

/-- The loop of `sb_report_cumulative` over the timers that are still running on a forced shutdown. -/
def stopUnfinished (nthreads : ℕ) : TimerM ℕ :=
  loopUp (fun i unfinished => do
    if ← sbTimerRunning (.copy i) then
      let _ ← sbTimerStop (.copy i)
      return unfinished + 1
    else return unfinished) 0 nthreads 0

end NuKSM.Sysbench
