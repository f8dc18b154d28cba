import Mathlib

/-! # The requests of the file I/O test of sysbench (`sb_fileio.c`) -/

namespace NuKSM.Sysbench

/-! ### Options -/

/-- `file_test_mode_t`. -/
inductive FileTestMode
  | read | write | rewrite | rndRead | rndWrite | rndRw | mixed
  deriving DecidableEq, Repr

/-- `file_fsync_mode_t`. -/
inductive FileFsyncMode
  | all | data
  deriving DecidableEq, Repr

/-- `file_io_mode_t`. -/
inductive FileIoMode
  | sync | async | mmap
  deriving DecidableEq, Repr

/-- What the build has. -/
structure FileBuild where
  haveLibaio : Bool
  haveMmap : Bool
  haveFdatasync : Bool
  deriving DecidableEq, Repr

/-- The fields of `sb_globals` that the test reads. -/
structure FileGlobals where
  cmdname : String
  threads : ℕ
  validate : Bool
  deriving DecidableEq, Repr

/-- The options of the test, as `sb_get_value_int` and the like return them. -/
structure FileArgs where
  fileNum : Int32
  fileBlockSize : UInt64
  fileTotalSize : UInt64
  fileTestMode : Option String
  fileIoMode : Option String
  fileAsyncBacklog : Int32
  fileExtraFlags : List String
  fileFsyncFreq : Int32
  fileFsyncAll : Bool
  fileFsyncEnd : Bool
  fileFsyncMode : String
  fileMergedRequests : Int32
  fileRwRatio : ℚ
  deriving DecidableEq, Repr

/-- The variables that `parse_arguments` and `file_async_init` set, and the globals. -/
structure FileConfig where
  threads : ℕ
  validate : Bool
  numFiles : ℕ
  totalSize : ℤ
  fileSize : ℤ
  testMode : FileTestMode
  fileIoMode : FileIoMode
  fileMergedRequests : ℤ
  fileBlockSize : ℤ
  fileRequestSize : ℤ
  fileExtraFlags : ℕ
  fileFsyncFreq : ℕ
  fileFsyncEnd : Bool
  fileFsyncAll : Bool
  fileFsyncMode : FileFsyncMode
  fileRwRatio : ℚ
  fileAsyncBacklog : ℕ
  deriving DecidableEq, Repr

/-- `if (!ok) { log_text(LOG_FATAL, text); return 1; }`. -/
def checkArg (ok : Prop) [Decidable ok] (text : String) : Except String Unit := if ok then .ok () else .error text

/-- The test mode, which only the command `run` needs. It is `MODE_READ`, which is 0, before it is set. -/
def parseTestMode (cmdname : String) (mode : Option String) : Except String FileTestMode :=
  if cmdname = "run" then
    match mode with
    | none => .error "Missing required argument: --file-test-mode\n"
    | some "seqwr" => .ok .write
    | some "seqrewr" => .ok .rewrite
    | some "seqrd" => .ok .read
    | some "rndrd" => .ok .rndRead
    | some "rndwr" => .ok .rndWrite
    | some "rndrw" => .ok .rndRw
    | some mode => .error s!"Invalid IO operations mode: {mode}."
  else .ok .read

def parseIoMode (build : FileBuild) (mode : Option String) : Except String FileIoMode :=
  match mode.getD "sync" with
  | "sync" => .ok .sync
  | "async" => if build.haveLibaio then .ok .async else .error "asynchronous I/O mode is unsupported on this platform."
  | "mmap" => if build.haveMmap then .ok .mmap else .error "mmap'ed I/O mode is unsupported on this platform."
  | mode => .error s!"unknown I/O mode: {mode}"

/-- The bits of `file_flags_t`. The text shows the first flag, whichever is wrong. -/
def parseExtraFlags (flags : List String) : Except String ℕ :=
  flags.foldlM (fun bits flag =>
    match flag with
    | "sync" => .ok (bits ||| 1)
    | "dsync" => .ok (bits ||| 2)
    | "direct" => .ok (bits ||| 4)
    | _ => .error s!"Invalid value for file-extra-flags: {flags.headD flag}") 0

def parseFsyncMode (build : FileBuild) (mode : String) : Except String FileFsyncMode :=
  match mode with
  | "fsync" => .ok .all
  | "fdatasync" => if build.haveFdatasync then .ok .data else .error "fdatasync() is unavailable on this platform"
  | mode => .error s!"Invalid fsync mode: {mode}."

/-- `parse_arguments`. `num_files` is unsigned, so a negative number of files is a large one. The product of the block size
and the number of merged requests is an `int`; no memory is found for a buffer of negative size. -/
def parseArguments (build : FileBuild) (g : FileGlobals) (args : FileArgs) : Except String FileConfig := do
  let numFiles := args.fileNum.toUInt32.toNat
  checkArg (numFiles > 0) s!"Invalid value for file-num: {numFiles}"
  let totalSize := args.fileTotalSize.toInt64.toInt
  checkArg (totalSize > 0) s!"Invalid value for file-total-size: {totalSize}"
  let testMode ← parseTestMode g.cmdname args.fileTestMode
  let fileIoMode ← parseIoMode build args.fileIoMode
  let fileMergedRequests := args.fileMergedRequests.toInt
  checkArg (fileMergedRequests ≥ 0) s!"Invalid value for file-merged-requests: {fileMergedRequests}."
  let fileBlockSize := args.fileBlockSize.toUInt32.toInt32
  checkArg (fileBlockSize.toInt > 0) s!"Invalid value for file-block-size: {fileBlockSize.toInt}."
  let fileRequestSize := if fileMergedRequests > 0 then fileBlockSize * args.fileMergedRequests else fileBlockSize
  let fileExtraFlags ← parseExtraFlags args.fileExtraFlags
  let fileFsyncFreq := args.fileFsyncFreq.toInt
  checkArg (fileFsyncFreq ≥ 0) s!"Invalid value for file-fsync-freq: {fileFsyncFreq}."
  let fileFsyncMode ← parseFsyncMode build args.fileFsyncMode
  checkArg (args.fileRwRatio ≥ 0) s!"Invalid value for --file-rw-ratio: {args.fileRwRatio}."
  checkArg (fileRequestSize.toInt ≥ 0) "Failed to allocate a memory buffer"
  return {
    threads := g.threads, validate := g.validate
    numFiles, totalSize, fileSize := totalSize / numFiles, testMode, fileIoMode, fileMergedRequests
    fileBlockSize := fileBlockSize.toInt, fileRequestSize := fileRequestSize.toInt, fileExtraFlags
    fileFsyncFreq := if args.fileFsyncAll then 0 else fileFsyncFreq.toNat
    fileFsyncEnd := args.fileFsyncEnd && !args.fileFsyncAll, fileFsyncAll := args.fileFsyncAll
    fileFsyncMode, fileRwRatio := args.fileRwRatio, fileAsyncBacklog := 0 }

/-- `file_async_init`. The backlog is unsigned as well. -/
def fileAsyncInit (args : FileArgs) (c : FileConfig) : Except String FileConfig := do
  if c.fileIoMode ≠ .async then return c
  let fileAsyncBacklog := args.fileAsyncBacklog.toUInt32.toNat
  checkArg (fileAsyncBacklog > 0) s!"Invalid value of file-async-backlog: {fileAsyncBacklog}"
  return { c with fileAsyncBacklog }

/-- What `file_init` does with the options. -/
def fileInit (build : FileBuild) (g : FileGlobals) (args : FileArgs) : Except String FileConfig := do
  fileAsyncInit args (← parseArguments build g args)

/-! ### Requests -/

/-- `sb_file_op_t`. -/
inductive SbFileOp
  | null | read | write | fsync
  deriving DecidableEq, Repr

/-- `sb_file_request_t`. -/
structure SbFileRequest where
  fileId : ℕ
  pos : ℤ
  size : ℤ
  operation : SbFileOp
  deriving DecidableEq, Repr

/-- The variables of the generators, the counts of finished operations, and for each thread the block that it uses, which
`malloc` leaves unset. -/
structure FileState where
  position : ℤ
  currentFile : ℕ
  fsyncedFile : ℕ
  isDirty : Bool
  readOps : ℤ
  writeOps : ℤ
  otherOps : ℤ
  reqPerformed : ℕ
  perThread : ℕ → ℕ × ℤ

/-- `init_vars`. -/
def initVars (s : FileState) : FileState :=
  { s with position := 0, currentFile := 0, fsyncedFile := 0, reqPerformed := 0, isDirty := false }

/-- `clear_stats`. -/
def clearStats (s : FileState) : FileState := { s with readOps := 0, writeOps := 0, otherOps := 0 }

/-- `req_performed++`. -/
def nextPerformed (s : FileState) : ℕ := (s.reqPerformed + 1) % 2 ^ 32

/-- The next request of a series of `fsync` requests, one for each file. -/
def fsyncRequest (c : FileConfig) (s : FileState) : SbFileRequest × FileState :=
  (⟨s.fsyncedFile, 0, 0, .fsync⟩,
    if s.fsyncedFile + 1 = c.numFiles then { s with fsyncedFile := 0, isDirty := false }
    else { s with fsyncedFile := s.fsyncedFile + 1 })

/-- `file_get_seq_request`. -/
def fileGetSeqRequest (c : FileConfig) (s : FileState) : SbFileRequest × FileState :=
  let operation := if c.testMode = .write ∨ c.testMode = .rewrite then SbFileOp.write else .read
  if c.fileFsyncFreq ≠ 0 ∧ operation = .write ∧ s.isDirty ∧ s.reqPerformed % c.fileFsyncFreq = 0 then fsyncRequest c s
  else
    -- The generator goes back to the first file at the call after the last request of a pass.
    let (position, currentFile) := if s.currentFile = c.numFiles then (0, 0) else (s.position, s.currentFile)
    let size := min c.fileRequestSize (c.fileSize - position)
    let next := position + size
    (⟨currentFile, position, size, operation⟩,
      { s with
        reqPerformed := nextPerformed s
        isDirty := s.isDirty || operation = .write
        position := if next = c.fileSize then 0 else next
        currentFile := if next = c.fileSize then currentFile + 1 else currentFile })

/-- Why a call of `file_get_rnd_request` has no result. -/
inductive RndStop
  | divisionByZero
  /-- It is still drawing. -/
  | drawsUsedUp
  deriving DecidableEq, Repr

/-- The position over all files that the draw `u` stands for: the start of a block. -/
def drawnPosition (c : FileConfig) (u : ℚ) : ℤ := ⌊u * c.totalSize⌋ - ⌊u * c.totalSize⌋ % c.fileBlockSize

/-- The request for the block at a position over all files. The file is an `int` that becomes unsigned. -/
def blockRequest (c : FileConfig) (operation : SbFileOp) (tmppos : ℤ) : SbFileRequest where
  fileId := (tmppos / c.fileSize % 2 ^ 32).toNat
  pos := tmppos % c.fileSize
  size := min c.fileBlockSize (c.fileSize - tmppos % c.fileSize)
  operation := operation

/-- Another thread has its last block where the request is. -/
def blockInUse (c : FileConfig) (threadId : ℕ) (s : FileState) (req : SbFileRequest) : Prop :=
  ∃ i < c.threads, i ≠ threadId ∧ s.perThread i = (req.fileId, req.pos)

instance (c : FileConfig) (threadId : ℕ) (s : FileState) (req : SbFileRequest) : Decidable (blockInUse c threadId s req) := by
  unfold blockInUse
  infer_instance

/-- The loop at `retry`. -/
def drawRequest (c : FileConfig) (threadId : ℕ) (operation : SbFileOp) (s : FileState) :
    (draws : List ℚ) → Except RndStop SbFileRequest
  | [] => .error .drawsUsedUp
  | u :: draws =>
    if c.fileSize = 0 then .error .divisionByZero
    else if c.validate ∧ blockInUse c threadId s (blockRequest c operation (drawnPosition c u)) then
      drawRequest c threadId operation s draws
    else .ok (blockRequest c operation (drawnPosition c u))

/-- The mode of the next request. In combined tests it depends on the operations so far. -/
def rndMode (c : FileConfig) (s : FileState) : FileTestMode :=
  if c.testMode = .rndRw then
    if (s.readOps + 1 : ℚ) / (s.writeOps + 1) < c.fileRwRatio then .rndRead else .rndWrite
  else c.testMode

/-- `file_get_rnd_request`, with the draws of `sb_rand_uniform_double` that are to come. -/
def fileGetRndRequest (c : FileConfig) (threadId : ℕ) (draws : List ℚ) (s : FileState) :
    Except RndStop (SbFileRequest × FileState) :=
  if c.fileFsyncFreq ≠ 0 ∧ s.isDirty ∧ s.reqPerformed % c.fileFsyncFreq = 0 then .ok (fsyncRequest c s)
  else do
    let operation := if rndMode c s = .rndWrite then SbFileOp.write else .read
    let req ← drawRequest c threadId operation s draws
    return (req,
      { s with
        perThread := Function.update s.perThread threadId (req.fileId, req.pos)
        reqPerformed := nextPerformed s
        isDirty := s.isDirty || operation = .write })

/-- `file_next_event`. -/
def fileNextEvent (c : FileConfig) (threadId : ℕ) (draws : List ℚ) (s : FileState) :
    Except RndStop (SbFileRequest × FileState) :=
  if c.testMode = .write ∨ c.testMode = .rewrite ∨ c.testMode = .read then .ok (fileGetSeqRequest c s)
  else fileGetRndRequest c threadId draws s

end NuKSM.Sysbench
