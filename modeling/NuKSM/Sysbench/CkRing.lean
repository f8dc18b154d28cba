import NuKSM.Lib.Linear
import NuKSM.Lib.Loop

/-! # The ring of the event queue (`ck_ring.h`)

A ring with one producer and any number of consumers. The fences keep loads and stores in the order of the program, and each
of them is atomic, that of an entry as well. `mask` is only written by `ck_ring_init`, so it is a parameter, and `p_head` belongs
to rings with several producers. -/

namespace NuKSM.Sysbench

/-- A ring with its buffer. -/
structure CkRing (V : Type) where
  cHead : UInt32
  pTail : UInt32
  buffer : UInt32 → V

/-- `ck_ring_init`, over a buffer that is there. -/
def ckRingInit {V : Type} (buffer : UInt32 → V) : CkRing V := ⟨0, 0, buffer⟩

/-- The field `mask` of a ring of this size. -/
def ckRingMask (size : UInt32) : UInt32 := size - 1

inductive RingOp (V : Type)
  | loadCHead
  | loadPTail
  | storeSlot (i : UInt32) (entry : V)
  | storePTail (p : UInt32)
  | loadSlot (i : UInt32)
  /-- `ck_pr_cas_uint_value(&ring->c_head, compare, set, &value)`, with the `value`. -/
  | casCHead (compare set : UInt32)
  /-- The thread takes no more turns. -/
  | halt

namespace RingOp
variable {V : Type}

@[reducible] def Res : RingOp V → Type
  | loadCHead | loadPTail => UInt32
  | loadSlot _ => V
  | casCHead _ _ => Bool × UInt32
  | halt => Empty
  | _ => Unit

def step : (op : RingOp V) → CkRing V → Option (op.Res × CkRing V)
  | loadCHead, s => some (s.cHead, s)
  | loadPTail, s => some (s.pTail, s)
  | storeSlot i entry, s => some ((), { s with buffer := Function.update s.buffer i entry })
  | storePTail p, s => some ((), { s with pTail := p })
  | loadSlot i, s => some (s.buffer i, s)
  | casCHead compare set, s =>
    if s.cHead = compare then some ((true, s.cHead), { s with cHead := set }) else some ((false, s.cHead), s)
  | halt, _ => none

end RingOp

abbrev RingM (V : Type) := Thread (RingOp V) RingOp.Res

open Thread RingOp

variable {V : Type}

/-- `_ck_ring_enqueue_sp`. -/
def ckRingEnqueueSp (mask : UInt32) (entry : V) : RingM V Bool := do
  let consumer ← perform loadCHead
  let producer ← perform loadPTail
  let delta := producer + 1
  if delta &&& mask = consumer &&& mask then
    return false
  else
    perform (storeSlot (producer &&& mask) entry)
    perform (storePTail delta)
    return true

/-- A round of the loop of `_ck_ring_dequeue_mc`, and the next `consumer` or the result. -/
def tryDequeueMc (mask consumer : UInt32) : RingM V (UInt32 ⊕ Option V) := do
  let producer ← perform loadPTail
  if consumer = producer then
    return .inr none
  else
    let data ← perform (loadSlot (consumer &&& mask))
    let (ok, value) ← perform (casCHead consumer (consumer + 1))
    return if ok then .inr (some data) else .inl value

/-- `_ck_ring_dequeue_mc`, for some rounds of its loop, and the entry if there is one. -/
def ckRingDequeueMc (mask : UInt32) (n : ℕ) : RingM V (Option V) := do
  let consumer ← perform loadCHead
  rounds (act halt Empty.elim) (tryDequeueMc mask) n consumer

inductive RingThread
  | producer
  | consumer (id : ℕ)
  deriving DecidableEq, Repr

/-- The producer calls with an entry, a consumer with the number of rounds of its loop. -/
@[reducible] def RingCall (V : Type) : RingThread → Type
  | .producer => V
  | .consumer _ => ℕ

inductive RingResult (V : Type)
  | enqueued (ok : Bool)
  | dequeued (entry : Option V)
  deriving DecidableEq, Repr

/-- `ck_ring_enqueue_spmc` and `ck_ring_dequeue_spmc`. -/
def ringBody (mask : UInt32) : (t : RingThread) → RingCall V t → RingM V (RingResult V)
  | .producer, entry => do return .enqueued (← ckRingEnqueueSp mask entry)
  | .consumer _, n => do return .dequeued (← ckRingDequeueMc mask n)

/-! ### What a ring is for -/

/-- A sequential queue of bounded length. -/
def fifo [DecidableEq V] (capacity : ℕ) : Monitor (List V) (Effect RingThread (RingCall V) (RingResult V))
  | q, ⟨.producer, entry, .enqueued ok⟩ =>
    if ok = decide (q.length < capacity) then some (if ok then q ++ [entry] else q) else none
  | q, ⟨.consumer _, _, .dequeued entry⟩ => if entry = q.head? then some q.tail else none
  | _, _ => none

end NuKSM.Sysbench
