import NuKSM.Lib.Thread
import NuKSM.Sysbench.FileIo

/-! # The execution of file requests (`sb_fileio.c`)

Each request is run by one thread, which has a buffer of its own. Reads and writes of that buffer, of the files and of the
queue of asynchronous operations are its operations. -/

namespace NuKSM.Sysbench

/-- What `io_getevents` reports of an operation: `oper->type`, `oper->len` and `event->res`. -/
structure AioEvent where
  type : SbFileOp
  len : ℤ
  res : ℤ
  deriving DecidableEq, Repr

inductive FileOp
  /-- `files[file_id]`. -/
  | file (fileId : ℕ)
  /-- `file_fill_buffer(per_thread[thread_id].buffer, len, offset)`. -/
  | fillBuffer (len offset : ℤ)
  /-- `file_validate_buffer(per_thread[thread_id].buffer, len, offset)`. -/
  | validateBuffer (len offset : ℤ)
  | pread (fileId : ℕ) (count offset : ℤ)
  | pwrite (fileId : ℕ) (count offset : ℤ)
  /-- `memcpy(buf, (char *)mmaps[file_id] + offset, count)`. -/
  | readMap (fileId : ℕ) (count offset : ℤ)
  /-- `memcpy((char *)mmaps[file_id] + offset, buf, count)`. -/
  | writeMap (fileId : ℕ) (count offset : ℤ)
  /-- `io_submit` of one operation, and whether it is accepted. -/
  | ioSubmit (type : SbFileOp) (fileId : ℕ) (count offset : ℤ)
  /-- `aio_ctxts[thread_id].nrequests++`, and the new value. -/
  | incRequests
  /-- `aio_ctxts[thread_id].nrequests--`. -/
  | decRequests
  /-- `io_getevents` for at least `nreq` operations. -/
  | ioGetevents (nreq : ℕ)
  /-- `fsync` or `fdatasync`, and whether it fails. -/
  | fsync (fileId : ℕ)
  /-- `msync(mmaps[id], file_size, MS_SYNC | MS_INVALIDATE)`, and whether it fails. -/
  | msync (fileId : ℕ)
  /-- `other_ops++`. -/
  | countOther
  /-- `read_ops++` and `bytes_read += size`. -/
  | countRead (size : ℤ)
  /-- `write_ops++` and `bytes_written += size`. -/
  | countWrite (size : ℤ)
  /-- The kernel performs the operation at a place of the queue of the submitted ones, and its result. -/
  | performAio (i : ℕ)
  deriving DecidableEq, Repr

namespace FileOp

@[reducible] def Res : FileOp → Type
  | pread .. | pwrite .. | performAio _ => ℤ
  | validateBuffer .. | ioSubmit .. | fsync _ | msync _ => Bool
  | incRequests => ℕ
  | ioGetevents _ => List AioEvent
  | _ => Unit

/-- An index of `files[]` or `mmaps[]` lies among the `num_files` entries. -/
def InBounds (numFiles : ℕ) : FileOp → Prop
  | file id | pread id .. | pwrite id .. | readMap id .. | writeMap id .. | ioSubmit _ id .. | fsync id | msync id => id < numFiles
  | _ => True

end FileOp

abbrev FileM := Thread FileOp FileOp.Res

open Thread FileOp

/-- The loop of `file_wait` over the reported operations, and whether it fails. -/
def verifyEvents : List AioEvent → FileM Bool
  | [] => return false
  | e :: events => do
    match e.type with
    | .fsync =>
      if e.res ≠ 0 then return true
      perform countOther
    | .read =>
      if e.res ≠ e.len then return true
      perform (countRead e.len)
    | .write =>
      if e.res ≠ e.len then return true
      perform (countWrite e.len)
    | .null => pure ()
    perform decRequests
    verifyEvents events

/-- `file_wait`, and whether it fails. -/
def fileWait (nreq : ℕ) : FileM Bool := do
  let events ← perform (ioGetevents nreq)
  if events.length < 1 then return true
  verifyEvents events

/-- `file_submit_or_wait`, and whether it fails. -/
def fileSubmitOrWait (c : FileConfig) (type : SbFileOp) (fileId : ℕ) (count offset : ℤ) : FileM Bool := do
  if !(← perform (ioSubmit type fileId count offset)) then return true
  let nrequests ← perform incRequests
  if nrequests < c.fileAsyncBacklog then return false
  fileWait 1

/-- `file_pread`, on a 64-bit platform. -/
def filePread (c : FileConfig) (fileId : ℕ) (count offset : ℤ) : FileM ℤ := do
  perform (file fileId)
  match c.fileIoMode with
  | .sync => perform (pread fileId count offset)
  | .async =>
    if ← fileSubmitOrWait c .read fileId count offset then return 0
    return count
  | .mmap =>
    perform (readMap fileId count offset)
    return count

/-- `file_pwrite`, on a 64-bit platform. -/
def filePwrite (c : FileConfig) (fileId : ℕ) (count offset : ℤ) : FileM ℤ := do
  perform (file fileId)
  match c.fileIoMode with
  | .sync => perform (pwrite fileId count offset)
  | .async =>
    if ← fileSubmitOrWait c .write fileId count offset then return 0
    return count
  | .mmap =>
    perform (writeMap fileId count offset)
    return count

/-- `file_do_fsync`, on a 64-bit platform, and whether it fails. Asynchronous mode is not asynchronous here. -/
def fileDoFsync (c : FileConfig) (id : ℕ) : FileM Bool := do
  perform (file id)
  match c.fileIoMode with
  | .sync | .async => perform (fsync id)
  | .mmap => perform (msync id)

/-- `file_fsync`, and whether it fails. -/
def fileFsync (c : FileConfig) (id : ℕ) : FileM Bool := do
  if ← fileDoFsync c id then return true
  perform countOther
  return false

/-- The checks of `file_execute_event` on the request. -/
def checkRequest (c : FileConfig) (req : SbFileRequest) : Except String Unit := do
  checkArg (req.fileId ≤ c.numFiles) s!"Incorrect file id in request: {req.fileId}"
  checkArg (req.pos + req.size ≤ c.fileSize)
    s!"I/O request exceeds file size. file id: {req.fileId} file size: {c.fileSize} req offset: {req.pos} req size: {req.size}"

/-- The write of `file_execute_event`, and whether it fails. -/
def executeWrite (c : FileConfig) (req : SbFileRequest) : FileM Bool := do
  onlyIf c.validate (perform (fillBuffer req.size req.pos))
  if (← filePwrite c req.fileId req.size req.pos) ≠ req.size then return true
  if c.fileFsyncAll then
    if ← fileFsync c req.fileId then return true
  onlyIf (c.fileIoMode ≠ .async) (perform (countWrite req.size))
  return false

/-- The read of `file_execute_event`, and whether it fails. -/
def executeRead (c : FileConfig) (req : SbFileRequest) : FileM Bool := do
  if (← filePread c req.fileId req.size req.pos) ≠ req.size then return true
  if c.validate then
    if ← perform (validateBuffer req.size req.pos) then return true
  onlyIf (c.fileIoMode ≠ .async) (perform (countRead req.size))
  return false

/-- `file_execute_event`, and whether it fails. -/
def fileExecuteEvent (c : FileConfig) (req : SbFileRequest) : FileM Bool :=
  match checkRequest c req with
  | .error _ => return true
  | .ok () => do
    perform (file req.fileId)
    match req.operation with
    | .null => return true
    | .write => executeWrite c req
    | .read => executeRead c req
    | .fsync => if c.fileFsyncAll then return false else fileFsync c req.fileId

end NuKSM.Sysbench
