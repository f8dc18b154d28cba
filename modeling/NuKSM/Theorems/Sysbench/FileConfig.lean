import NuKSM.Lib.Performs
import NuKSM.Lib.Prog
import NuKSM.Sysbench.FileExec

/-! # Options that are accepted, and indices that stay in bounds -/

namespace NuKSM.Sysbench
open Thread FileOp

/-! ### Options -/

/-- What `parse_arguments` makes sure of. -/
structure FileConfig.Accepted (c : FileConfig) : Prop where
  numFiles_pos : 0 < c.numFiles
  numFiles_lt : c.numFiles < 2 ^ 32
  totalSize_pos : 0 < c.totalSize
  fileSize_eq : c.fileSize = c.totalSize / c.numFiles
  blockSize_pos : 0 < c.fileBlockSize
  blockSize_lt : c.fileBlockSize < 2 ^ 31
  requestSize_nonneg : 0 ≤ c.fileRequestSize
  requestSize_lt : c.fileRequestSize < 2 ^ 31
  fileRwRatio_nonneg : 0 ≤ c.fileRwRatio

theorem checkArg_ok {ok : Prop} [Decidable ok] {text : String} {u : Unit} (h : checkArg ok text = .ok u) : ok := by
  unfold checkArg at h
  split at h
  · assumption
  · cases h

/-- The product of the block size and the number of merged requests, as an `int`. -/
def requestSize (block merged : Int32) : Int32 := if merged.toInt > 0 then block * merged else block

/-- What has become of the options, and the checks that they have passed. -/
structure ParsedArguments (g : FileGlobals) (args : FileArgs) (c : FileConfig) : Prop where
  threads : c.threads = g.threads
  validate : c.validate = g.validate
  numFiles : c.numFiles = args.fileNum.toUInt32.toNat
  numFiles_pos : 0 < c.numFiles
  totalSize : c.totalSize = args.fileTotalSize.toInt64.toInt
  totalSize_pos : 0 < c.totalSize
  fileSize : c.fileSize = c.totalSize / c.numFiles
  merged : c.fileMergedRequests = args.fileMergedRequests.toInt
  merged_nonneg : 0 ≤ c.fileMergedRequests
  blockSize : c.fileBlockSize = args.fileBlockSize.toUInt32.toInt32.toInt
  blockSize_pos : 0 < c.fileBlockSize
  requestSize : c.fileRequestSize = (requestSize args.fileBlockSize.toUInt32.toInt32 args.fileMergedRequests).toInt
  requestSize_nonneg : 0 ≤ c.fileRequestSize
  fileRwRatio_nonneg : 0 ≤ c.fileRwRatio

theorem parseArguments_ok {build : FileBuild} {g : FileGlobals} {args : FileArgs} {c : FileConfig}
    (h : parseArguments build g args = .ok c) : ParsedArguments g args c := by
  unfold parseArguments at h
  obtain ⟨_, hnum, h⟩ := bind_eq_ok h
  obtain ⟨_, htotal, h⟩ := bind_eq_ok h
  obtain ⟨testMode, -, h⟩ := bind_eq_ok h
  obtain ⟨ioMode, -, h⟩ := bind_eq_ok h
  obtain ⟨_, hmerged, h⟩ := bind_eq_ok h
  obtain ⟨_, hblock, h⟩ := bind_eq_ok h
  obtain ⟨flags, -, h⟩ := bind_eq_ok h
  obtain ⟨_, hfreq, h⟩ := bind_eq_ok h
  obtain ⟨fsyncMode, -, h⟩ := bind_eq_ok h
  obtain ⟨_, hratio, h⟩ := bind_eq_ok h
  obtain ⟨_, hrequest, h⟩ := bind_eq_ok h
  cases h
  exact ⟨rfl, rfl, rfl, checkArg_ok hnum, rfl, checkArg_ok htotal, rfl, rfl, checkArg_ok hmerged, rfl, checkArg_ok hblock, rfl,
    checkArg_ok hrequest, checkArg_ok hratio⟩

theorem parseArguments_accepted {build : FileBuild} {g : FileGlobals} {args : FileArgs} {c : FileConfig}
    (h : parseArguments build g args = .ok c) :
    c.Accepted ∧ c.threads = g.threads ∧ c.validate = g.validate ∧ c.numFiles = args.fileNum.toUInt32.toNat := by
  have hparsed := parseArguments_ok h
  refine ⟨{
    numFiles_pos := hparsed.numFiles_pos
    numFiles_lt := ?_
    totalSize_pos := hparsed.totalSize_pos
    fileSize_eq := hparsed.fileSize
    blockSize_pos := hparsed.blockSize_pos
    blockSize_lt := ?_
    requestSize_nonneg := hparsed.requestSize_nonneg
    requestSize_lt := ?_
    fileRwRatio_nonneg := hparsed.fileRwRatio_nonneg }, hparsed.threads, hparsed.validate, hparsed.numFiles⟩
  · rw [hparsed.numFiles]
    exact UInt32.toNat_lt _
  · rw [hparsed.blockSize]
    exact Int32.toInt_lt _
  · rw [hparsed.requestSize]
    exact Int32.toInt_lt _

/-! ### The operations of a request -/

/-- The operation is one on the file, the block and the buffer of the request. -/
def FileOp.Serves (req : SbFileRequest) : FileOp → Prop
  | file id | fsync id | msync id => id = req.fileId
  | fillBuffer len offset | validateBuffer len offset => len = req.size ∧ offset = req.pos
  | pread id count offset | pwrite id count offset | readMap id count offset | writeMap id count offset
  | ioSubmit _ id count offset => id = req.fileId ∧ count = req.size ∧ offset = req.pos
  | performAio _ => False
  | _ => True

section serves
variable {c : FileConfig} {req : SbFileRequest}

theorem verifyEvents_serves (events : List AioEvent) : (verifyEvents events).Performs (Serves req) := by
  induction events with
  | nil => trivial
  | cons e events ih =>
    have hrest : (do perform decRequests; verifyEvents events).Performs (Serves req) :=
      Performs.bind ⟨trivial, fun _ => trivial⟩ fun _ => ih
    rw [verifyEvents]
    cases e.type with
    | null => exact hrest
    | _ => exact Performs.ite (fun _ => trivial) fun _ => Performs.bind ⟨trivial, fun _ => trivial⟩ fun _ => hrest

theorem fileSubmitOrWait_serves (type : SbFileOp) :
    (fileSubmitOrWait c type req.fileId req.size req.pos).Performs (Serves req) := by
  refine Performs.bind (performs_perform.mpr ⟨rfl, rfl, rfl⟩) fun accepted => Performs.ite (fun _ => trivial) fun _ =>
    Performs.bind (performs_perform.mpr trivial) fun nrequests => Performs.ite (fun _ => trivial) fun _ => ?_
  exact Performs.bind (performs_perform.mpr trivial) fun events =>
    Performs.ite (fun _ => trivial) fun _ => verifyEvents_serves events

theorem filePread_serves : (filePread c req.fileId req.size req.pos).Performs (Serves req) := by
  refine Performs.bind (performs_perform.mpr rfl) fun _ => ?_
  cases c.fileIoMode with
  | sync => exact performs_perform.mpr ⟨rfl, rfl, rfl⟩
  | async => exact Performs.bind (fileSubmitOrWait_serves _) fun _ => Performs.ite (fun _ => trivial) fun _ => trivial
  | mmap => exact Performs.bind (performs_perform.mpr ⟨rfl, rfl, rfl⟩) fun _ => trivial

theorem filePwrite_serves : (filePwrite c req.fileId req.size req.pos).Performs (Serves req) := by
  refine Performs.bind (performs_perform.mpr rfl) fun _ => ?_
  cases c.fileIoMode with
  | sync => exact performs_perform.mpr ⟨rfl, rfl, rfl⟩
  | async => exact Performs.bind (fileSubmitOrWait_serves _) fun _ => Performs.ite (fun _ => trivial) fun _ => trivial
  | mmap => exact Performs.bind (performs_perform.mpr ⟨rfl, rfl, rfl⟩) fun _ => trivial

theorem fileFsync_serves : (fileFsync c req.fileId).Performs (Serves req) := by
  refine Performs.bind (Performs.bind (performs_perform.mpr rfl) fun _ => ?_) fun _ =>
    Performs.ite (fun _ => trivial) fun _ => Performs.bind (performs_perform.mpr trivial) fun _ => trivial
  cases c.fileIoMode <;> exact performs_perform.mpr rfl

theorem fileExecuteEvent_serves (c : FileConfig) (req : SbFileRequest) :
    (fileExecuteEvent c req).Performs fun op => Serves req op ∧ checkRequest c req = .ok () := by
  unfold fileExecuteEvent
  split
  · trivial
  · rename_i hcheck
    refine Performs.mono (P := Serves req) (fun op hop => ⟨hop, hcheck⟩) ?_
    refine Performs.bind (performs_perform.mpr rfl) fun _ => ?_
    cases req.operation with
    | null => trivial
    | write =>
      refine Performs.bind (Performs.onlyIf fun _ => performs_perform.mpr ⟨rfl, rfl⟩) fun _ =>
        Performs.bind filePwrite_serves fun _ => Performs.ite (fun _ => trivial) fun _ => ?_
      refine Performs.ite (fun _ => Performs.bind fileFsync_serves fun _ => Performs.ite (fun _ => trivial) fun _ => ?_)
        fun _ => ?_ <;>
      exact Performs.bind (Performs.onlyIf fun _ => performs_perform.mpr trivial) fun _ => trivial
    | read =>
      refine Performs.bind filePread_serves fun _ => Performs.ite (fun _ => trivial) fun _ => ?_
      refine Performs.ite (fun _ => Performs.bind (performs_perform.mpr ⟨rfl, rfl⟩) fun _ =>
        Performs.ite (fun _ => trivial) fun _ => ?_) fun _ => ?_ <;>
      exact Performs.bind (Performs.onlyIf fun _ => performs_perform.mpr trivial) fun _ => trivial
    | fsync => exact Performs.ite (fun _ => trivial) fun _ => fileFsync_serves

/-- A request for one of the files makes no access outside of them. -/
theorem fileExecuteEvent_performs (hid : req.fileId < c.numFiles) :
    (fileExecuteEvent c req).Performs (InBounds c.numFiles) := by
  refine Performs.mono (fun op hop => ?_) (fileExecuteEvent_serves c req)
  have hop : op.Serves req := hop.1
  cases op with
  | file id | fsync id | msync id => exact hop.symm ▸ hid
  | pread id | pwrite id | readMap id | writeMap id | ioSubmit _ id => exact hop.1.symm ▸ hid
  | _ => trivial

end serves

theorem checkRequest_ok {c : FileConfig} {req : SbFileRequest} (hid : req.fileId ≤ c.numFiles)
    (hsize : req.pos + req.size ≤ c.fileSize) : checkRequest c req = .ok () := by
  unfold checkRequest checkArg
  rw [if_pos hid, if_pos hsize]
  rfl

theorem fits_of_checkRequest {c : FileConfig} {req : SbFileRequest} (h : checkRequest c req = .ok ()) :
    req.pos + req.size ≤ c.fileSize := by
  obtain ⟨_, -, hsize⟩ := bind_eq_ok h
  exact checkArg_ok hsize

theorem backlog_pos {build : FileBuild} {g : FileGlobals} {args : FileArgs} {c : FileConfig}
    (h : fileInit build g args = .ok c) (hasync : c.fileIoMode = .async) : 0 < c.fileAsyncBacklog := by
  obtain ⟨c₀, -, hinit⟩ := bind_eq_ok h
  unfold fileAsyncInit at hinit
  split at hinit
  · rename_i hmode
    cases hinit
    exact absurd hasync hmode
  · obtain ⟨_, hbacklog, hinit⟩ := bind_eq_ok hinit
    cases hinit
    exact checkArg_ok hbacklog

end NuKSM.Sysbench
