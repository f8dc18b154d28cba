import NuKSM.Lib.Extend
import NuKSM.Sysbench.FileAio

/-! # The queues of asynchronous operations (`sb_fileio.c`)

Each thread has a queue of its own, and all threads count what has been reported to them. -/

namespace NuKSM.Sysbench
open Thread FileOp

/-- What `file_thread_done` reads besides. -/
inductive AioLoad
  | nrequests
  deriving DecidableEq, Repr

abbrev AioOp := FileOp ⊕ AioLoad

namespace AioOp

@[reducible] def Res : AioOp → Type := Sum.elim FileOp.Res fun _ => ℕ

end AioOp

abbrev AioM := Thread AioOp AioOp.Res

/-- `aio_ctxts[thread_id].nrequests`. -/
def loadRequests : AioM ℕ := perform (Sum.inr AioLoad.nrequests)

/-- The loop of `file_thread_done` over the files, and whether it fails. -/
def fsyncFiles (c : FileConfig) : (ids : List ℕ) → FileM Bool
  | [] => return false
  | i :: ids => do
    if ← fileFsync c i then return true
    fsyncFiles c ids

/-- The first part of `file_thread_done`, and whether it fails. -/
def fsyncAtEnd (c : FileConfig) : FileM Bool :=
  if c.fileFsyncEnd ∧ c.testMode ≠ .read ∧ c.testMode ≠ .rndRead then fsyncFiles c (List.range c.numFiles) else return false

/-- The second part of `file_thread_done`, and whether it fails. -/
def drainQueue (c : FileConfig) : AioM Bool :=
  if c.fileIoMode = .async then do
    if (← loadRequests) > 0 then
      let nreq ← loadRequests
      (fileWait nreq).inl
    else return false
  else return false

/-- `file_thread_done`, and whether it fails. -/
def fileThreadDone (c : FileConfig) : AioM Bool := do
  if ← (fsyncAtEnd c).inl then return true
  drainQueue c

/-! ### The system -/

/-- `nrequests`, and the operations that were submitted and that the kernel has yet to report. -/
structure AioQueue where
  nrequests : ℕ
  pending : List AioOper
  deriving DecidableEq, Repr

/-- The entries of `aio_ctxts`, and the statistics. -/
structure AioShared where
  aioCtxts : ℕ → AioQueue
  readOps : Int32
  writeOps : Int32
  otherOps : Int32
  bytesRead : UInt64
  bytesWritten : UInt64

/-- After `calloc` and `clear_stats`. -/
def AioShared.zeroed : AioShared := ⟨fun _ => ⟨0, []⟩, 0, 0, 0, 0, 0⟩

def AioShared.setCtxt (s : AioShared) (t : ℕ) (q : AioQueue) : AioShared :=
  { s with aioCtxts := Function.update s.aioCtxts t q }

/-- The report on an operation that has been performed to its full length. -/
def AioOper.report (o : AioOper) : AioEvent := ⟨o.type, o.len, if o.type = .fsync then 0 else o.len⟩

/-- What an operation of a thread may do. Results of files and of their contents are left open. `io_submit` may refuse an
operation. `io_getevents` returns between as many reports as it asks for and as many as fit in `events`, each of another
operation of the thread. -/
def QueueStep (c : FileConfig) (t : ℕ) : (op : FileOp) → AioShared → op.Res → AioShared → Prop
  | .ioSubmit type fileId count offset, s, accepted, s' =>
    s' = if accepted then
      s.setCtxt t { s.aioCtxts t with pending := (s.aioCtxts t).pending ++ [⟨type, fileId, count, offset⟩] } else s
  | .incRequests, s, nrequests, s' =>
    nrequests = ((s.aioCtxts t).nrequests + 1) % 2 ^ 32 ∧ s' = s.setCtxt t { s.aioCtxts t with nrequests := nrequests }
  | .decRequests, s, _, s' =>
    s' = s.setCtxt t { s.aioCtxts t with nrequests := ((s.aioCtxts t).nrequests + 2 ^ 32 - 1) % 2 ^ 32 }
  | .ioGetevents nreq, s, events, s' => ∃ done rest, (s.aioCtxts t).pending.Perm (done ++ rest) ∧
    nreq ≤ done.length ∧ done.length ≤ c.fileAsyncBacklog ∧ events = done.map AioOper.report ∧
    s' = s.setCtxt t { s.aioCtxts t with pending := rest }
  | .countOther, s, _, s' => s' = { s with otherOps := s.otherOps + 1 }
  | .countRead size, s, _, s' => s' = { s with readOps := s.readOps + 1, bytesRead := s.bytesRead + UInt64.ofInt size }
  | .countWrite size, s, _, s' =>
    s' = { s with writeOps := s.writeOps + 1, bytesWritten := s.bytesWritten + UInt64.ofInt size }
  | _, s, _, s' => s' = s

def AioExec (c : FileConfig) (t : ℕ) : (op : AioOp) → AioShared → op.Res → AioShared → Prop
  | .inl op, s, r, s' => QueueStep c t op s r s'
  | .inr .nrequests, s, nrequests, s' => nrequests = (s.aioCtxts t).nrequests ∧ s' = s

/-- What a thread is called for. -/
inductive AioCall
  /-- `file_execute_event`. -/
  | execute (req : SbFileRequest)
  /-- `file_submit_or_wait` for a write or a read. -/
  | submit (write : Bool) (fileId : ℕ) (count offset : ℤ)
  /-- `file_thread_done`. -/
  | threadDone
  deriving DecidableEq, Repr

def aioQueueBody (c : FileConfig) (_ : ℕ) : AioCall → AioM Bool
  | .execute req => (fileExecuteEvent c req).inl
  | .submit write fileId count offset => (fileSubmitOrWait c (if write then .write else .read) fileId count offset).inl
  | .threadDone => fileThreadDone c

end NuKSM.Sysbench
