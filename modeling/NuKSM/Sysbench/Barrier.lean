import NuKSM.Lib.Loop

/-! # The thread barrier (`sb_barrier.c`)

A thread that waits on the condition may wake up at any time, so it makes no difference whom a broadcast wakes. -/

namespace NuKSM.Sysbench

/-- The fields of `sb_barrier_t` that change, with the thread that has locked the mutex, and the results of the callback to
come. -/
structure SbBarrier (ι : Type) where
  count : UInt32
  serial : UInt32
  error : Bool
  owner : Option ι
  results : ℕ → Int32

/-- `init_count`, and whether there is a callback. -/
structure BarrierConfig where
  initCount : UInt32
  hasCallback : Bool
  deriving DecidableEq, Repr

/-- `sb_barrier_init`, which fails for no threads. -/
def sbBarrierInit {ι : Type} (b : BarrierConfig) (results : ℕ → Int32) : Option (SbBarrier ι) :=
  if b.initCount = 0 then none else some ⟨b.initCount, 0, false, none, results⟩

inductive BarrierOp
  | lock
  | unlock
  /-- `--barrier->count`. -/
  | decCount
  | incSerial
  | storeCount (v : UInt32)
  /-- `pthread_cond_broadcast(&barrier->cond)`. -/
  | broadcast
  /-- `barrier->callback(barrier->arg)`. -/
  | callback
  | setError
  | loadSerial
  | loadError
  /-- `pthread_cond_wait` up to where it has unlocked the mutex. -/
  | condSleep
  /-- `pthread_cond_wait` from where it locks the mutex again. -/
  | condWake
  /-- The thread takes no more turns. -/
  | halt
  deriving DecidableEq, Repr

namespace BarrierOp

@[reducible] def Res : BarrierOp → Type
  | decCount | loadSerial => UInt32
  | callback => Int32
  | loadError => Bool
  | halt => Empty
  | _ => Unit

variable {ι : Type}

def step (t : ι) : (op : BarrierOp) → SbBarrier ι → Option (op.Res × SbBarrier ι)
  | lock, s | condWake, s => if s.owner.isNone then some ((), { s with owner := some t }) else none
  | unlock, s | condSleep, s => some ((), { s with owner := none })
  | decCount, s => some (s.count - 1, { s with count := s.count - 1 })
  | incSerial, s => some ((), { s with serial := s.serial + 1 })
  | storeCount v, s => some ((), { s with count := v })
  | broadcast, s => some ((), s)
  | callback, s => some (s.results 0, { s with results := fun k => s.results (k + 1) })
  | setError, s => some ((), { s with error := true })
  | loadSerial, s => some (s.serial, s)
  | loadError, s => some (s.error, s)
  | halt, _ => none

end BarrierOp

abbrev BarrierM := Thread BarrierOp BarrierOp.Res

open Thread BarrierOp

/-- A call that goes on waiting. -/
def waitOn {α : Type} : BarrierM α := act halt Empty.elim

/-- A round of the loop of `sb_barrier_wait`. -/
def waitRound (serial : UInt32) : BarrierM (Unit ⊕ Unit) := do
  perform condSleep
  perform condWake
  if serial = (← perform loadSerial) then return .inl () else return .inr ()

/-- The part of `sb_barrier_wait` of the last thread to arrive. -/
def releaseBarrier (b : BarrierConfig) : BarrierM Int32 := do
  perform incSerial
  perform (storeCount b.initCount)
  perform broadcast
  if b.hasCallback then
    if (← perform callback) ≠ 0 then
      perform setError
      perform unlock
      return -1
  perform unlock
  return 1

/-- The part of `sb_barrier_wait` of the other threads, for some rounds of its loop. -/
def awaitRelease (n : ℕ) : BarrierM Int32 := do
  let serial ← perform loadSerial
  rounds waitOn (fun _ => waitRound serial) n ()
  let error ← perform loadError
  perform unlock
  return if error then -1 else 0

/-- `sb_barrier_wait`. -/
def sbBarrierWait (b : BarrierConfig) (n : ℕ) : BarrierM Int32 := do
  perform lock
  if (← perform decCount) = 0 then releaseBarrier b else awaitRelease n

/-- Threads, each called with the number of rounds of its loop. -/
def barrierBody (b : BarrierConfig) {ι : Type} (_ : ι) (n : ℕ) : BarrierM Int32 := sbBarrierWait b n

end NuKSM.Sysbench
