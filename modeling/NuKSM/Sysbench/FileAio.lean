import NuKSM.Sysbench.FileExec

/-! # Asynchronous file operations (`sb_fileio.c`)

A thread has one buffer for all its requests. What it submits, the kernel performs at some later time, on that buffer. -/

namespace NuKSM.Sysbench
open Thread FileOp

/-- `sb_aio_oper_t`, with what its `iocb` is about. -/
structure AioOper where
  type : SbFileOp
  fileId : ℕ
  len : ℤ
  offset : ℤ
  deriving DecidableEq, Repr

/-- `sb_aio_context_t`, with the operations that the kernel has yet to perform, and those that it has yet to report. -/
structure AioContext where
  nrequests : ℕ
  inFlight : List AioOper
  completed : List AioEvent
  deriving DecidableEq, Repr

def AioContext.empty : AioContext := ⟨0, [], []⟩

/-- The thread that executes requests, and the kernel. -/
inductive AioThread
  | worker
  | kernel
  deriving DecidableEq, Repr

/-- The kernel is called with the place of the operation that it performs. -/
def AioThread.Call : AioThread → Type
  | worker => { req : SbFileRequest // 0 ≤ req.pos }
  | kernel => ℕ

def aioBody (c : FileConfig) : (t : AioThread) → t.Call → FileM Bool
  | .worker, req => fileExecuteEvent c req.1
  | .kernel, i => do
    let _ ← perform (performAio i)
    return false

/-- What an operation may do. Results of files and of their contents are left open. `io_submit` may refuse an operation, and
`io_getevents` waits until as many have been performed as it asks for; it reports no more than fit in `events`. -/
def AioStep (c : FileConfig) (_ : AioThread) : (op : FileOp) → AioContext → op.Res → AioContext → Prop
  | .ioSubmit type fileId count offset, s, accepted, s' =>
    s' = if accepted then { s with inFlight := s.inFlight ++ [⟨type, fileId, count, offset⟩] } else s
  | .incRequests, s, nrequests, s' => nrequests = s.nrequests + 1 ∧ s' = { s with nrequests }
  | .decRequests, s, _, s' => s' = { s with nrequests := s.nrequests - 1 }
  | .ioGetevents nreq, s, events, s' => nreq ≤ events.length ∧ events.length ≤ c.fileAsyncBacklog ∧
    ∃ rest, s.completed.Perm (events ++ rest) ∧ s' = { s with completed := rest }
  | .performAio i, s, res, s' => ∃ o, s.inFlight[i]? = some o ∧
    s' = { s with inFlight := s.inFlight.eraseIdx i, completed := s.completed ++ [⟨o.type, o.len, res⟩] }
  | _, s, _, s' => s' = s

end NuKSM.Sysbench
