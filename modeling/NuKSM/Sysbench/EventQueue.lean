import NuKSM.Lib.Loop

/-! # The queue of events in rate mode (`sysbench.c`)

A pointer into `queue_array` is an index. The length `MAX_QUEUE_LEN` is a parameter, and `ck_ring` a queue that has room for
one entry less. -/

namespace NuKSM.Sysbench

/-- `queue_array`, `queue_ring` and `queue_is_full`, and the readings of `sb_exec_timer` to come. -/
structure EventQueue where
  queueArray : ℕ → UInt64
  queueRing : List ℕ
  queueIsFull : Bool
  execTimer : ℕ → UInt64

inductive QueueOp
  /-- `sb_timer_value(&sb_exec_timer)`. -/
  | timerValue
  | storeStamp (i : ℕ) (v : UInt64)
  /-- `ck_ring_enqueue_spmc(&queue_ring, queue_ring_buffer, &queue_array[i])`. -/
  | enqueue (i : ℕ)
  /-- `ck_ring_dequeue_spmc(&queue_ring, queue_ring_buffer, &ptr)`, and the pointer if there is one. -/
  | dequeue
  | setQueueIsFull
  | loadQueueIsFull
  /-- `((uint64_t *) ptr)[0]`. -/
  | loadStamp (ptr : ℕ)
  /-- The thread takes no more turns. -/
  | halt
  deriving DecidableEq, Repr

namespace QueueOp

@[reducible] def Res : QueueOp → Type
  | timerValue | loadStamp _ => UInt64
  | enqueue _ | loadQueueIsFull => Bool
  | dequeue => Option ℕ
  | halt => Empty
  | _ => Unit

def step (maxQueueLen : ℕ) : (op : QueueOp) → EventQueue → Option (op.Res × EventQueue)
  | timerValue, s => some (s.execTimer 0, { s with execTimer := fun k => s.execTimer (k + 1) })
  | storeStamp i v, s => some ((), { s with queueArray := Function.update s.queueArray i v })
  | enqueue i, s =>
    if s.queueRing.length < maxQueueLen - 1 then some (true, { s with queueRing := s.queueRing ++ [i] }) else some (false, s)
  | dequeue, s => some (s.queueRing.head?, { s with queueRing := s.queueRing.tail })
  | setQueueIsFull, s => some ((), { s with queueIsFull := true })
  | loadQueueIsFull, s => some (s.queueIsFull, s)
  | loadStamp ptr, s => some (s.queueArray ptr, s)
  | halt, _ => none

end QueueOp

abbrev QueueM := Thread QueueOp QueueOp.Res

open Thread QueueOp

/-- A thread that takes no more turns. -/
def halted {α : Type} : QueueM α := act halt Empty.elim

/-- A round of the loop of `eventgen_thread_proc`. -/
def generateEvent (maxQueueLen i : ℕ) : QueueM (ℕ ⊕ Unit) := do
  let now ← perform timerValue
  perform (storeStamp i now)
  if ← perform (enqueue i) then
    return .inl (if i + 1 ≥ maxQueueLen - 1 then 0 else i + 1)
  else
    perform setQueueIsFull
    return .inr ()

/-- `eventgen_thread_proc` once the ring is there, for some rounds of its loop. The thread is not started again. -/
def eventgenThreadProc (maxQueueLen n : ℕ) : QueueM (Option UInt64) := do
  rounds halted (generateEvent maxQueueLen) n 0
  halted

/-- A round of the loop of `sb_more_events` that waits for an event. -/
def tryDequeue : QueueM (Unit ⊕ Option ℕ) := do
  match ← perform dequeue with
  | some ptr => return .inr (some ptr)
  | none => if ← perform loadQueueIsFull then return .inr none else return .inl ()

/-- The part of `sb_more_events` that takes an event from the queue, for some rounds of its loop, and the queue time. -/
def takeQueued (n : ℕ) : QueueM (Option UInt64) := do
  let ptr ← rounds halted (fun _ => tryDequeue) n ()
  if ← perform loadQueueIsFull then return none
  match ptr with
  | none => halted
  | some ptr =>
    let value ← perform timerValue
    let stamp ← perform (loadStamp ptr)
    return some (value - stamp)

/-- The generator, and the workers. -/
inductive QueueThread
  | eventgen
  | worker (id : ℕ)
  deriving DecidableEq, Repr

/-- A thread is called with the number of rounds of its loop. -/
def queueBody (maxQueueLen : ℕ) : QueueThread → ℕ → QueueM (Option UInt64)
  | .eventgen, n => eventgenThreadProc maxQueueLen n
  | .worker _, n => takeQueued n

end NuKSM.Sysbench
