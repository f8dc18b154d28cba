import NuKSM.Theorems.Sysbench.FileSync
import NuKSM.Theorems.Sysbench.RndRequests
import NuKSM.Theorems.Sysbench.SeqRequests

/-! # Validation in synchronous mode

`create_files`, the sequential and the random generator each divide the files into blocks in their own way. Validation
succeeds where the blocks that are read are blocks that have been written. -/

namespace NuKSM.Sysbench
open Thread

/-- No request of the runs goes wrong: there is room for the checksum and the offset, what is read was filled as a whole, and
the requests for the files succeed, which they do not after a mismatch. -/
structure ValidationRight (crc32 : List UInt8 → UInt32) (c : FileConfig) (threadId : ℕ) : Prop where
  created : ∀ s random fd, (createFiles c).solo (CreateOp.step crc32) (.blank c s random, fd) ≠ none
  generated : ∀ d draws, FileRun crc32 c threadId d → (∀ u ∈ draws, 0 ≤ u ∧ u < 1) →
    fileNextEvent c threadId draws d.vars ≠ .error .divisionByZero
  room : ∀ d draws req vars, FileRun crc32 c threadId d → (∀ u ∈ draws, 0 ≤ u ∧ u < 1) →
    fileNextEvent c threadId draws d.vars = .ok (req, vars) → req.operation ≠ .fsync → 12 ≤ req.size
  lastFilled : ∀ d draws req vars, FileRun crc32 c threadId d → (∀ u ∈ draws, 0 ≤ u ∧ u < 1) →
    fileNextEvent c threadId draws d.vars = .ok (req, vars) → req.operation = .read →
    LastFilled d req.fileId req.pos req.size
  executed : ∀ d draws req vars, FileRun crc32 c threadId d → (∀ u ∈ draws, 0 ≤ u ∧ u < 1) →
    fileNextEvent c threadId draws d.vars = .ok (req, vars) → req.fileId < c.numFiles →
    ∃ d', (fileExecuteEvent c req).solo (FileOp.syncStep crc32 c.numFiles) (d.setVars vars) = some (false, d')

/-- `convert_extra_flags` refuses the flags, or the blocks are large enough and fit together. -/
def FileConfig.BlocksFit (c : FileConfig) : Prop :=
  4 < c.fileExtraFlags ∨
  (0 < c.fileSize ∧ 12 ≤ c.fileBlockSize ∧ c.fileBlockSize ≤ c.fileRequestSize ∧
    match c.testMode with
    | .read => c.fileRequestSize = c.fileBlockSize ∧ c.fileBlockSize ∣ c.fileSize ∨ c.fileSize = c.fileBlockSize
    | .write | .rewrite => c.fileSize % c.fileRequestSize = 0 ∨ 12 ≤ c.fileSize % c.fileRequestSize
    | .rndRead | .mixed => c.fileBlockSize ∣ c.fileSize ∧ (c.numFiles : ℤ) ∣ c.totalSize
    | .rndWrite => ∀ t, c.OnGrid t → 12 ≤ c.fileSize - t % c.fileSize
    | .rndRw => c.fileBlockSize ∣ c.fileSize ∧ (c.numFiles : ℤ) ∣ c.totalSize ∨
        c.fileRwRatio = 0 ∧ (∀ t, c.OnGrid t → 12 ≤ c.fileSize - t % c.fileSize) ∨
        c.totalSize ≤ c.fileBlockSize ∧ 12 ≤ c.fileSize ∧ c.fileRwRatio ≤ 1)

/-! ### The next request -/

section next
variable {c : FileConfig} {threadId : ℕ} {draws : List ℚ} {s s' : FileState} {req : SbFileRequest}

/-- The test is sequential. -/
def FileConfig.Sequential (c : FileConfig) : Prop := c.testMode = .write ∨ c.testMode = .rewrite ∨ c.testMode = .read

theorem fileNextEvent_sequential (h : c.Sequential) : fileNextEvent c threadId draws s = .ok (fileGetSeqRequest c s) := if_pos h

theorem fileNextEvent_random (h : ¬c.Sequential) : fileNextEvent c threadId draws s = fileGetRndRequest c threadId draws s :=
  if_neg h

/-- It is time for an `fsync` request. -/
def SyncDue (c : FileConfig) (s : FileState) : Prop := c.Sequential ∧ FsyncDue c s ∨ ¬c.Sequential ∧ RndFsyncDue c s

theorem SyncDue.isDirty (h : SyncDue c s) : s.isDirty := by
  rcases h with ⟨-, h⟩ | ⟨-, h⟩
  · exact h.2.2.1
  · exact h.2.1

theorem fileNextEvent_sync (h : SyncDue c s) (threadId : ℕ) (draws : List ℚ) :
    fileNextEvent c threadId draws s = .ok (fsyncRequest c s) := by
  rcases h with ⟨hseq, h⟩ | ⟨hrnd, h⟩
  · rw [fileNextEvent_sequential hseq, fileGetSeqRequest_fsync h]
  · rw [fileNextEvent_random hrnd, fileGetRndRequest_fsync h]

theorem fileNextEvent_seq (hseq : c.Sequential) (h : ¬SyncDue c s) {position : ℤ} {currentFile : ℕ}
    (hstart : seqStart c s = (position, currentFile)) (threadId : ℕ) (draws : List ℚ) :
    ∃ vars, fileNextEvent c threadId draws s =
        .ok (⟨currentFile, position, min c.fileRequestSize (c.fileSize - position), if c.Writes then .write else .read⟩, vars) ∧
      vars.fsyncedFile = s.fsyncedFile ∧
      vars.position = (if position + min c.fileRequestSize (c.fileSize - position) = c.fileSize then 0
        else position + min c.fileRequestSize (c.fileSize - position)) ∧
      vars.currentFile = if position + min c.fileRequestSize (c.fileSize - position) = c.fileSize then currentFile + 1
        else currentFile := by
  have hdue : ¬FsyncDue c s := fun hdue => h (Or.inl ⟨hseq, hdue⟩)
  rw [fileNextEvent_sequential hseq, fileGetSeqRequest_next hdue hstart]
  exact ⟨_, rfl, rfl, rfl, rfl⟩

theorem fileNextEvent_rnd (hc : c.Accepted) (hrnd : ¬c.Sequential) (hdraws : ∀ u ∈ draws, 0 ≤ u ∧ u < 1) (h : ¬SyncDue c s)
    (hnext : fileNextEvent c threadId draws s = .ok (req, s')) :
    (∃ t, c.OnGrid t ∧ req = blockRequest c (rndOperation c s) t) ∧ s' = s.drawn threadId req := by
  have hdue : ¬RndFsyncDue c s := fun hdue => h (Or.inr ⟨hrnd, hdue⟩)
  rw [fileNextEvent_random hrnd] at hnext
  rcases fileGetRndRequest_cases hnext with ⟨hdue', -⟩ | ⟨-, hdraw, -, hs'⟩
  · exact absurd hdue' hdue
  · exact ⟨(drawRequest_ok hc hdraws hdraw).2.1, hs'⟩

end next

/-! ### Runs where the blocks fit -/

/-- `fsync` requests leave this as it is. -/
structure SameFiles (d d' : FileDisk) : Prop where
  position : d'.vars.position = d.vars.position
  currentFile : d'.vars.currentFile = d.vars.currentFile
  readOps : d'.vars.readOps = d.vars.readOps
  writeOps : d'.vars.writeOps = d.vars.writeOps
  perThread : d'.vars.perThread = d.vars.perThread
  written : d'.written = d.written

/-- A request that reads or writes a block of its own. -/
structure SbFileRequest.Good (c : FileConfig) (d : FileDisk) (req : SbFileRequest) : Prop where
  operation : req.operation = .read ∨ req.operation = .write
  fits : req.pos + req.size ≤ c.fileSize
  room : 12 ≤ req.size
  size_le : req.size ≤ c.fileRequestSize
  lastFilled : req.operation = .read → LastFilled d req.fileId req.pos req.size

/-- An invariant under which the requests that read or write are good. -/
structure Maintained (crc32 : List UInt8 → UInt32) (c : FileConfig) (threadId : ℕ) (I : FileDisk → Prop) : Prop where
  prepared : ∀ d s random, Created crc32 c d → I (d.prepared c s random)
  same : ∀ {d d'}, I d → SameFiles d d' → I d'
  transfer : ∀ {d draws req vars}, I d → ¬SyncDue c d.vars → (∀ u ∈ draws, 0 ≤ u ∧ u < 1) →
    fileNextEvent c threadId draws d.vars = .ok (req, vars) →
    vars.fsyncedFile = d.vars.fsyncedFile ∧ req.Good c d ∧
      ∀ d', req.fileId < c.numFiles → Executed crc32 c req (d.setVars vars) d' → I d'

/-- What holds of every run that meets an invariant. -/
structure FileInv (crc32 : List UInt8 → UInt32) (c : FileConfig) (I : FileDisk → Prop) (d : FileDisk) : Prop where
  sound : d.Sound crc32 c
  long : d.Long c
  fsynced : d.vars.fsyncedFile < c.numFiles
  inv : I d

section maintained
variable {crc32 : List UInt8 → UInt32} {c : FileConfig} {threadId : ℕ} {I : FileDisk → Prop} {d d' : FileDisk} {req : SbFileRequest}

theorem SbFileRequest.Good.operation_ne (h : req.Good c d) : req.operation ≠ .null ∧ req.operation ≠ .fsync := by
  rcases h.operation with h | h <;> rw [h] <;> decide

theorem fsyncRequest_fits (hfile : 0 ≤ c.fileSize) {s : FileState} (hs : s.fsyncedFile < c.numFiles) :
    (fsyncRequest c s).1.Fits c := by
  rw [(fsyncRequest_kept c s).1]
  exact ⟨hs, by show (0 : ℤ) + 0 ≤ _; omega, nofun, fun hno => absurd rfl hno⟩

theorem fsyncRequest_fsyncedFile {s : FileState} (hs : s.fsyncedFile < c.numFiles) : (fsyncRequest c s).2.fsyncedFile < c.numFiles := by
  unfold fsyncRequest
  split
  · show 0 < _
    omega
  · show _ + 1 < _
    omega

theorem fsyncRequest_executed (h : Executed crc32 c (fsyncRequest c d.vars).1 (d.setVars (fsyncRequest c d.vars).2) d') :
    SameFiles d d' ∧ d'.vars.fsyncedFile = (fsyncRequest c d.vars).2.fsyncedFile ∧
      d'.vars.isDirty = (fsyncRequest c d.vars).2.isDirty := by
  obtain ⟨hreq, hposition, hcurrent, -⟩ := fsyncRequest_kept c d.vars
  obtain ⟨hreads, hwrites, hthreads⟩ : (fsyncRequest c d.vars).2.readOps = d.vars.readOps ∧
      (fsyncRequest c d.vars).2.writeOps = d.vars.writeOps ∧ (fsyncRequest c d.vars).2.perThread = d.vars.perThread := by
    unfold fsyncRequest
    split <;> exact ⟨rfl, rfl, rfl⟩
  have hop : (fsyncRequest c d.vars).1.operation = .fsync := by rw [hreq]
  have hvars := h.vars
  rw [hop] at hvars
  have hwritten := h.kept (by rw [hop]; decide)
  refine ⟨⟨?_, ?_, ?_, ?_, ?_, hwritten⟩, ?_, ?_⟩ <;> rw [hvars]
  · exact hposition
  · exact hcurrent
  · exact (add_zero _).trans hreads
  · exact (add_zero _).trans hwrites
  · exact hthreads
  · rfl
  · rfl

theorem FileDisk.Long.mono (h : d.Long c) (hlong : ∀ id, d.length id ≤ d'.length id) : d'.Long c :=
  fun id hid => (h id hid).trans (hlong id)

theorem Created.fileInv (h : Created crc32 c d) (hrequest : 0 ≤ c.fileRequestSize) (hnum : 0 < c.numFiles) (s : FileState)
    (random : ℕ → UInt8) (hI : I (d.prepared c s random)) : FileInv crc32 c I (d.prepared c s random) where
  sound := ⟨(FileDisk.blank_sound crc32 hrequest s random).buffer, fun _ _ hfilled => (by cases hfilled), h.sound.cells,
    h.sound.blocks⟩
  long := h.long
  fsynced := hnum
  inv := hI

/-- What each request of a run that meets the invariant does. -/
theorem Maintained.step (hI : Maintained crc32 c threadId I) (hmode : c.fileIoMode = .sync) (hvalidate : c.validate)
    (hfile : 0 ≤ c.fileSize) (h : FileInv crc32 c I d) {draws : List ℚ} (hdraws : ∀ u ∈ draws, 0 ≤ u ∧ u < 1) {vars : FileState}
    (hnext : fileNextEvent c threadId draws d.vars = .ok (req, vars)) :
    (req.operation ≠ .fsync → req.Good c d) ∧ (req.fileId < c.numFiles →
      Ends (FileOp.syncStep crc32 c.numFiles) (fileExecuteEvent c req) (d.setVars vars) fun failed d' =>
        failed = false ∧ FileInv crc32 c I d') := by
  by_cases hdue : SyncDue c d.vars
  · rw [fileNextEvent_sync hdue] at hnext
    obtain ⟨rfl, rfl⟩ := Prod.mk.inj (Except.ok.inj hnext)
    have hop : (fsyncRequest c d.vars).1.operation = .fsync := by rw [(fsyncRequest_kept c d.vars).1]
    refine ⟨fun hno => absurd hop hno, fun _ => ?_⟩
    refine Ends.mono (fileExecuteEvent_ends hmode hvalidate (h.sound.setVars _) h.long (fsyncRequest_fits hfile h.fsynced)
      fun hread => absurd (hop.symm.trans hread) (by decide)) ?_
    rintro failed d' ⟨rfl, hexec⟩
    obtain ⟨hsame, hsynced, -⟩ := fsyncRequest_executed hexec
    exact ⟨rfl, hexec.sound, h.long.mono hexec.long, hsynced ▸ fsyncRequest_fsyncedFile h.fsynced, hI.same h.inv hsame⟩
  · obtain ⟨hsynced, hgood, hkeep⟩ := hI.transfer h.inv hdue hdraws hnext
    refine ⟨fun _ => hgood, fun hid => ?_⟩
    have hfits : req.Fits c := ⟨hid, hgood.fits, hgood.operation_ne.1, fun _ => ⟨hgood.room, hgood.size_le⟩⟩
    refine Ends.mono (fileExecuteEvent_ends hmode hvalidate (h.sound.setVars _) h.long hfits hgood.lastFilled) ?_
    rintro failed d' ⟨rfl, hexec⟩
    refine ⟨rfl, hexec.sound, h.long.mono hexec.long, ?_, hkeep d' hid hexec⟩
    rw [hexec.vars]
    exact hsynced ▸ h.fsynced

theorem Maintained.fileInv (hI : Maintained crc32 c threadId I) (hc : c.Accepted) (hmode : c.fileIoMode = .sync)
    (hvalidate : c.validate) (hfile : 0 < c.fileSize) (hflags : c.fileExtraFlags ≤ 4)
    (hroom : 12 ≤ c.fileBlockSize ∧ c.fileBlockSize ≤ c.fileRequestSize) (hrun : FileRun crc32 c threadId d) :
    FileInv crc32 c I d := by
  induction hrun with
  | @created s s' random random' fd fd' d hcreate =>
    obtain ⟨failed, w, hends, -, hcreated⟩ :=
      createFiles_ends crc32 hvalidate hc.requestSize_nonneg hflags (fun _ => hroom) s random fd
    obtain ⟨-, rfl⟩ := Prod.mk.inj (Option.some.inj (hends.symm.trans hcreate))
    exact hcreated.fileInv hc.requestSize_nonneg hc.numFiles_pos s' random' (hI.prepared _ _ _ hcreated)
  | request _ hdraws hnext hexec ih =>
    obtain ⟨failed, d', hends, -, hinv⟩ := (hI.step hmode hvalidate hfile.le ih hdraws hnext).2 (fileId_lt_of_executed hexec)
    obtain ⟨-, rfl⟩ := Prod.mk.inj (Option.some.inj (hends.symm.trans hexec))
    exact hinv

theorem fileNextEvent_ne_divisionByZero (hfile : c.fileSize ≠ 0) (draws : List ℚ) (s : FileState) :
    fileNextEvent c threadId draws s ≠ .error .divisionByZero := by
  intro herror
  by_cases hseq : c.Sequential
  · rw [fileNextEvent_sequential hseq] at herror
    cases herror
  · rw [fileNextEvent_random hseq] at herror
    exact fileGetRndRequest_ne_divisionByZero hfile draws s herror

/-- With such an invariant nothing goes wrong. -/
theorem Maintained.right (hI : Maintained crc32 c threadId I) (hc : c.Accepted) (hmode : c.fileIoMode = .sync)
    (hvalidate : c.validate) (hfile : 0 < c.fileSize) (hflags : c.fileExtraFlags ≤ 4)
    (hroom : 12 ≤ c.fileBlockSize ∧ c.fileBlockSize ≤ c.fileRequestSize) : ValidationRight crc32 c threadId := by
  have hinv : ∀ d, FileRun crc32 c threadId d → FileInv crc32 c I d := fun d => hI.fileInv hc hmode hvalidate hfile hflags hroom
  refine ⟨fun s random fd hnone => ?_, fun d draws _ _ => fileNextEvent_ne_divisionByZero hfile.ne' draws d.vars,
    fun d draws req vars hrun hdraws hnext hop => ?_, fun d draws req vars hrun hdraws hnext hop => ?_,
    fun d draws req vars hrun hdraws hnext hid => ?_⟩
  · obtain ⟨failed, w, hends, -⟩ :=
      createFiles_ends crc32 hvalidate hc.requestSize_nonneg hflags (fun _ => hroom) s random fd
    rw [hnone] at hends
    cases hends
  · exact ((hI.step hmode hvalidate hfile.le (hinv d hrun) hdraws hnext).1 hop).room
  · exact ((hI.step hmode hvalidate hfile.le (hinv d hrun) hdraws hnext).1 (by rw [hop]; decide)).lastFilled hop
  · obtain ⟨failed, d', hends, rfl, -⟩ := (hI.step hmode hvalidate hfile.le (hinv d hrun) hdraws hnext).2 hid
    exact ⟨d', hends⟩

end maintained

/-! ### Sequential tests -/

/-- The next request starts at a multiple of the request size. -/
structure SeqAt (c : FileConfig) (s : FileState) : Prop where
  nonneg : 0 ≤ s.position
  lt : s.position < c.fileSize
  dvd : c.fileRequestSize ∣ s.position
  currentFile_le : s.currentFile ≤ c.numFiles

section sequential
variable {crc32 : List UInt8 → UInt32} {c : FileConfig} {threadId : ℕ} {d : FileDisk} {s vars : FileState} {draws : List ℚ}
  {req : SbFileRequest}

theorem SeqAt.init (hfile : 0 < c.fileSize) (s : FileState) : SeqAt c (clearStats (initVars s)) :=
  ⟨le_rfl, hfile, dvd_zero _, Nat.zero_le _⟩

theorem SeqAt.congr {s' : FileState} (h : SeqAt c s) (hposition : s'.position = s.position) (hcurrent : s'.currentFile = s.currentFile) :
    SeqAt c s' :=
  ⟨hposition ▸ h.nonneg, hposition ▸ h.lt, hposition ▸ h.dvd, hcurrent ▸ h.currentFile_le⟩

/-- A request of a sequential test. -/
structure SeqRequest (c : FileConfig) (req : SbFileRequest) : Prop where
  fileId_lt : req.fileId < c.numFiles
  nonneg : 0 ≤ req.pos
  lt : req.pos < c.fileSize
  dvd : c.fileRequestSize ∣ req.pos
  size : req.size = min c.fileRequestSize (c.fileSize - req.pos)
  operation : req.operation = if c.Writes then .write else .read

theorem SeqAt.next (h : SeqAt c s) (hseq : c.Sequential) (hnum : 0 < c.numFiles) (hrequest : 0 < c.fileRequestSize)
    (hdue : ¬SyncDue c s) (hnext : fileNextEvent c threadId draws s = .ok (req, vars)) :
    SeqRequest c req ∧ vars.fsyncedFile = s.fsyncedFile ∧ SeqAt c vars := by
  obtain ⟨position, currentFile, hstart, h0, h1, hdvd, hcur⟩ : ∃ position currentFile, seqStart c s = (position, currentFile) ∧
      0 ≤ position ∧ position < c.fileSize ∧ c.fileRequestSize ∣ position ∧ currentFile < c.numFiles := by
    have hle := h.currentFile_le
    by_cases hwrap : s.currentFile = c.numFiles
    · exact ⟨0, 0, if_pos hwrap, le_rfl, h.nonneg.trans_lt h.lt, dvd_zero _, hnum⟩
    · exact ⟨s.position, s.currentFile, if_neg hwrap, h.nonneg, h.lt, h.dvd, by omega⟩
  obtain ⟨vars', hnext', hsynced, hposition, hcurrent⟩ := fileNextEvent_seq hseq hdue hstart threadId draws
  obtain ⟨rfl, rfl⟩ := Prod.mk.inj (Except.ok.inj (hnext'.symm.trans hnext))
  refine ⟨⟨hcur, h0, h1, hdvd, rfl, rfl⟩, hsynced, ?_⟩
  by_cases hdone : position + min c.fileRequestSize (c.fileSize - position) = c.fileSize
  · rw [if_pos hdone] at hposition hcurrent
    exact ⟨hposition.ge, hposition ▸ h0.trans_lt h1, hposition ▸ dvd_zero _, by omega⟩
  · rw [if_neg hdone] at hposition hcurrent
    have hmin : min c.fileRequestSize (c.fileSize - position) = c.fileRequestSize := by omega
    rw [hmin] at hposition
    exact ⟨by omega, by omega, hposition ▸ dvd_add_self_right.mpr hdvd, by omega⟩

theorem Executed.seqAt {d' : FileDisk} (hexec : Executed crc32 c req (d.setVars vars) d') (h : SeqAt c vars) : SeqAt c d'.vars := by
  rw [hexec.vars]
  exact h.congr rfl rfl

/-- The last block of a file has room for the checksum and the offset as well. -/
theorem maintained_seqWrite (hseq : c.Sequential) (hwrites : c.Writes) (hnum : 0 < c.numFiles) (hfile : 0 < c.fileSize)
    (hrequest : 12 ≤ c.fileRequestSize) (htail : c.fileSize % c.fileRequestSize = 0 ∨ 12 ≤ c.fileSize % c.fileRequestSize) :
    Maintained crc32 c threadId fun d => SeqAt c d.vars where
  prepared d s random _ := SeqAt.init hfile s
  same h hsame := h.congr hsame.position hsame.currentFile
  transfer {d draws req vars} h hdue hdraws hnext := by
    obtain ⟨hreq, hsynced, hat⟩ := h.next hseq hnum (by omega) hdue hnext
    have hop := hreq.operation
    rw [if_pos hwrites] at hop
    have hsize := hreq.size
    have hlt := hreq.lt
    refine ⟨hsynced, ⟨Or.inr hop, by omega, ?_, by omega, fun hread => absurd (hop.symm.trans hread) (by decide)⟩,
      fun d' _ hexec => hexec.seqAt hat⟩
    rw [hsize]
    refine le_min hrequest ?_
    obtain ⟨k, hk⟩ := hreq.dvd
    have hmod : (c.fileSize - req.pos) % c.fileRequestSize = c.fileSize % c.fileRequestSize := by
      rw [hk, Int.sub_mul_emod_self_left]
    rcases htail with hzero | htail
    · have hdvd := Int.le_of_dvd (by omega) (Int.dvd_of_emod_eq_zero (hmod.trans hzero))
      omega
    · have hparts := Int.emod_add_mul_ediv (c.fileSize - req.pos) c.fileRequestSize
      have hwhole : 0 ≤ c.fileRequestSize * ((c.fileSize - req.pos) / c.fileRequestSize) :=
        mul_nonneg (by omega) (Int.ediv_nonneg (by omega) (by omega))
      omega

theorem maintained_seqRead (hmode : c.testMode = .read) (hnum : 0 < c.numFiles) (hfile : 0 < c.fileSize) (hblock : 12 ≤ c.fileBlockSize)
    (hle : c.fileBlockSize ≤ c.fileRequestSize)
    (hfit : c.fileRequestSize = c.fileBlockSize ∧ c.fileBlockSize ∣ c.fileSize ∨ c.fileSize = c.fileBlockSize) :
    Maintained crc32 c threadId fun d => SeqAt c d.vars ∧ c.Tiled d.written where
  prepared d s random hcreated := ⟨SeqAt.init hfile s, hcreated.tiled⟩
  same h hsame := ⟨h.1.congr hsame.position hsame.currentFile, hsame.written ▸ h.2⟩
  transfer {d draws req vars} h hdue hdraws hnext := by
    obtain ⟨hreq, hsynced, hat⟩ := h.1.next (Or.inr (Or.inr hmode)) hnum (by omega) hdue hnext
    have hop := hreq.operation
    rw [if_neg (by rw [FileConfig.Writes, hmode]; decide)] at hop
    have hlt := hreq.lt
    have hnonneg := hreq.nonneg
    -- A request is for a block of `create_files`.
    obtain ⟨hdvd, hsize⟩ : c.fileBlockSize ∣ req.pos ∧ req.size = c.fileBlockSize := by
      rcases hfit with ⟨heq, hdvd⟩ | heq
      · have hpos := heq ▸ hreq.dvd
        have hrest := Int.le_of_dvd (by omega) (dvd_sub hdvd hpos)
        exact ⟨hpos, hreq.size.trans (by omega)⟩
      · have hzero := Int.eq_zero_of_dvd_of_nonneg_of_lt hnonneg (by omega) hreq.dvd
        exact ⟨hzero ▸ dvd_zero _, hreq.size.trans (by omega)⟩
    have hrest := hreq.size
    refine ⟨hsynced, ⟨Or.inl hop, by omega, by omega, by omega, fun _ => ?_⟩, fun d' _ hexec => ⟨hexec.seqAt hat, ?_⟩⟩
    · rw [hsize]
      exact h.2.lastFilled hreq.fileId_lt hnonneg hlt hdvd (by omega)
    · rw [hexec.kept (by rw [hop]; decide)]
      exact h.2

end sequential

/-! ### Random tests -/

section random
variable {crc32 : List UInt8 → UInt32} {c : FileConfig} {threadId : ℕ} {d d' : FileDisk} {req : SbFileRequest} {vars : FileState}

theorem rndOperation_cases (c : FileConfig) (s : FileState) : rndOperation c s = .write ∨ rndOperation c s = .read := by
  unfold rndOperation
  split
  · exact Or.inl rfl
  · exact Or.inr rfl

theorem blockRequest_good (hfile : 0 < c.fileSize) (hc : c.Accepted) (hle : c.fileBlockSize ≤ c.fileRequestSize) {s : FileState} {t : ℤ}
    (hroom : 12 ≤ min c.fileBlockSize (c.fileSize - t % c.fileSize))
    (hlast : rndOperation c s = .read →
      LastFilled d (blockRequest c .read t).fileId (blockRequest c .read t).pos (blockRequest c .read t).size) :
    (blockRequest c (rndOperation c s) t).Good c d where
  operation := (rndOperation_cases c s).symm
  fits := (blockRequest_pos hfile hc t).2.2
  room := hroom
  size_le := (min_le_left ..).trans hle
  lastFilled := hlast

/-- The blocks of the grid are those of `create_files`. -/
theorem onGrid_creates (hc : c.Accepted) (hfile : 0 < c.fileSize) (hdvd : c.fileBlockSize ∣ c.fileSize)
    (htotal : (c.numFiles : ℤ) ∣ c.totalSize) {t : ℤ} (ht : c.OnGrid t) (operation : SbFileOp) :
    (blockRequest c operation t).fileId < c.numFiles ∧ c.fileBlockSize ∣ t % c.fileSize ∧
      (blockRequest c operation t).size = c.fileBlockSize := by
  have hmod : c.fileBlockSize ∣ t % c.fileSize := Int.emod_def t c.fileSize ▸ dvd_sub ht.dvd (hdvd.mul_right _)
  have hlt := Int.emod_lt_of_pos t hfile
  have hrest := Int.le_of_dvd (by omega) (dvd_sub hdvd hmod)
  refine ⟨blockRequest_fileId_lt ?_, hmod, min_eq_left hrest⟩
  have hnum : t / c.fileSize < c.numFiles := by
    refine Int.ediv_lt_of_lt_mul hfile ?_
    rw [hc.fileSize_eq, Int.mul_ediv_cancel' htotal]
    exact ht.lt
  have hlt32 := hc.numFiles_lt
  rwa [Int.emod_eq_of_lt (Int.ediv_nonneg ht.nonneg hfile.le) (by omega)]

theorem maintained_rnd (hc : c.Accepted) (hrnd : ¬c.Sequential) (hfile : 0 < c.fileSize) (hblock : 12 ≤ c.fileBlockSize)
    (hle : c.fileBlockSize ≤ c.fileRequestSize) (hdvd : c.fileBlockSize ∣ c.fileSize) (htotal : (c.numFiles : ℤ) ∣ c.totalSize) :
    Maintained crc32 c threadId fun d => c.Tiled d.written where
  prepared d s random hcreated := hcreated.tiled
  same h hsame := hsame.written ▸ h
  transfer {d draws req vars} h hdue hdraws hnext := by
    obtain ⟨⟨t, ht, rfl⟩, rfl⟩ := fileNextEvent_rnd hc hrnd hdraws hdue hnext
    obtain ⟨hid, hpos, hsize⟩ := onGrid_creates hc hfile hdvd htotal ht (rndOperation c d.vars)
    have hnonneg := Int.emod_nonneg t hfile.ne'
    have hlt := Int.emod_lt_of_pos t hfile
    have hroom : 12 ≤ (blockRequest c (rndOperation c d.vars) t).size := hblock.trans hsize.ge
    refine ⟨rfl, blockRequest_good hfile hc hle hroom fun _ => ?_, fun d' hid' hexec => ?_⟩
    · have hread := h.lastFilled hid hnonneg hlt hpos (by omega)
      rw [← hsize] at hread
      exact hread
    · by_cases hop : (blockRequest c (rndOperation c d.vars) t).operation = .write
      · obtain ⟨w, hwritten, hfile', hpos', hlen, hnote⟩ := hexec.wrote hop
        rw [hwritten]
        refine FileConfig.Tiled.cons h ⟨hfile' ▸ hid, hpos' ▸ hnonneg, hpos' ▸ hlt, hpos' ▸ hpos, hlen.trans hsize, ?_⟩
        rw [hnote, hpos', hsize]
      · rw [hexec.kept hop]
        exact h

/-- A test that does not read. -/
theorem rndOperation_write (hmode : c.testMode = .rndWrite ∨ c.testMode = .rndRw ∧ c.fileRwRatio = 0) {s : FileState}
    (hreads : 0 ≤ s.readOps) (hwrites : 0 ≤ s.writeOps) : rndOperation c s = .write := by
  refine if_pos ?_
  unfold rndMode
  rcases hmode with hmode | ⟨hmode, hratio⟩
  · rw [if_neg (by rw [hmode]; decide), hmode]
  · rw [if_pos hmode, if_neg]
    rw [hratio, not_lt]
    have hreads : (0 : ℚ) ≤ s.readOps := by exact_mod_cast hreads
    have hwrites : (0 : ℚ) ≤ s.writeOps := by exact_mod_cast hwrites
    positivity

theorem Executed.counts (hexec : Executed crc32 c req (d.setVars vars) d') (hreads : 0 ≤ vars.readOps) (hwrites : 0 ≤ vars.writeOps) :
    0 ≤ d'.vars.readOps ∧ 0 ≤ d'.vars.writeOps := by
  rw [hexec.vars]
  refine ⟨add_nonneg hreads ?_, add_nonneg hwrites ?_⟩ <;> split <;> decide

theorem maintained_rndWrite (hc : c.Accepted) (hmode : c.testMode = .rndWrite ∨ c.testMode = .rndRw ∧ c.fileRwRatio = 0)
    (hfile : 0 < c.fileSize) (hblock : 12 ≤ c.fileBlockSize) (hle : c.fileBlockSize ≤ c.fileRequestSize)
    (htail : ∀ t, c.OnGrid t → 12 ≤ c.fileSize - t % c.fileSize) :
    Maintained crc32 c threadId fun d => 0 ≤ d.vars.readOps ∧ 0 ≤ d.vars.writeOps where
  prepared d s random _ := ⟨le_rfl, le_rfl⟩
  same h hsame := by rwa [hsame.readOps, hsame.writeOps]
  transfer {d draws req vars} h hdue hdraws hnext := by
    have hrnd : ¬c.Sequential := by
      unfold FileConfig.Sequential
      rcases hmode with hmode | ⟨hmode, -⟩ <;> rw [hmode] <;> decide
    obtain ⟨⟨t, ht, rfl⟩, rfl⟩ := fileNextEvent_rnd hc hrnd hdraws hdue hnext
    refine ⟨rfl, blockRequest_good hfile hc hle (le_min hblock (htail t ht)) fun hread => ?_, fun d' _ hexec => hexec.counts h.1 h.2⟩
    rw [rndOperation_write hmode h.1 h.2] at hread
    cases hread

/-- The block that has been written is the newest. -/
theorem Executed.lastFilled (hexec : Executed crc32 c req (d.setVars vars) d') (hop : req.operation = .write) (hsize : 0 < req.size) :
    LastFilled d' req.fileId req.pos req.size := by
  obtain ⟨w, hwritten, hfile, hpos, hlen, hnote⟩ := hexec.wrote hop
  refine ⟨w, ?_, hpos, hlen, hnote⟩
  rw [hwritten]
  exact newest_cons_of_touches ⟨hfile, by omega, by omega⟩

/-- Where reads are not to outnumber writes, the first request writes. -/
theorem rndOperation_first (hmode : c.testMode = .rndRw) (hratio : c.fileRwRatio ≤ 1) {s : FileState} (hreads : s.readOps = 0)
    (hwrites : s.writeOps = 0) : rndOperation c s = .write := by
  have hnot : ¬((s.readOps + 1 : ℚ) / (s.writeOps + 1) < c.fileRwRatio) := by
    rw [hreads, hwrites]
    simpa using hratio
  unfold rndOperation rndMode
  rw [if_pos hmode, if_neg hnot, if_pos rfl]

/-- There is one block only, which is written first. -/
theorem maintained_oneBlock (hc : c.Accepted) (hmode : c.testMode = .rndRw) (hfile : 12 ≤ c.fileSize)
    (hle : c.fileBlockSize ≤ c.fileRequestSize) (htotal : c.totalSize ≤ c.fileBlockSize) (hratio : c.fileRwRatio ≤ 1) :
    Maintained crc32 c threadId fun d => d.vars.readOps = 0 ∧ d.vars.writeOps = 0 ∨ LastFilled d 0 0 c.fileSize where
  prepared d s random _ := Or.inl ⟨rfl, rfl⟩
  same h hsame := by
    unfold LastFilled
    rwa [hsame.readOps, hsame.writeOps, hsame.written]
  transfer {d draws req vars} h hdue hdraws hnext := by
    have hrnd : ¬c.Sequential := by
      unfold FileConfig.Sequential
      rw [hmode]
      decide
    obtain ⟨⟨t, ht, rfl⟩, rfl⟩ := fileNextEvent_rnd hc hrnd hdraws hdue hnext
    have hzero : t = 0 := Int.eq_zero_of_dvd_of_nonneg_of_lt ht.nonneg (ht.lt.trans_le htotal) ht.dvd
    have hnum : (0 : ℤ) < c.numFiles := by exact_mod_cast hc.numFiles_pos
    have hfiletotal : c.fileSize ≤ c.totalSize := by
      rw [hc.fileSize_eq]
      exact Int.ediv_le_self _ hc.totalSize_pos.le
    have hreq : ∀ operation, blockRequest c operation t = ⟨0, 0, c.fileSize, operation⟩ := by
      intro operation
      unfold blockRequest
      rw [hzero, Int.zero_ediv, Int.zero_emod, Int.zero_emod, sub_zero, min_eq_right (by omega)]
      rfl
    have hgood : (blockRequest c (rndOperation c d.vars) t).Good c d := by
      refine blockRequest_good (by omega) hc hle ?_ fun hread => ?_
      · rw [hzero, Int.zero_emod]
        omega
      · rw [hreq]
        rcases h with ⟨hreads, hwrites⟩ | hlast
        · exact absurd ((rndOperation_first hmode hratio hreads hwrites).symm.trans hread) (by decide)
        · exact hlast
    rw [hreq] at hgood ⊢
    refine ⟨rfl, hgood, fun d' _ hexec => Or.inr ?_⟩
    rcases rndOperation_cases c d.vars with hop | hop
    · exact hexec.lastFilled hop (by show 0 < c.fileSize; omega)
    · have hkept : d'.written = d.written := hexec.kept fun hwrite => absurd (hop.symm.trans hwrite) (by decide)
      have hlast : LastFilled d 0 0 c.fileSize := hgood.lastFilled hop
      unfold LastFilled
      rwa [hkept]

end random

section fits
variable {crc32 : List UInt8 → UInt32} {c : FileConfig} {threadId : ℕ} {d : FileDisk}

theorem createFiles_refused (hflags : 4 < c.fileExtraFlags) : createFiles c = pure true := if_pos hflags

theorem not_fileRun (hflags : 4 < c.fileExtraFlags) : ¬FileRun crc32 c threadId d := by
  intro hrun
  induction hrun with
  | created hcreate =>
    rw [createFiles_refused hflags] at hcreate
    cases hcreate
  | request _ _ _ _ ih => exact ih

theorem FileConfig.BlocksFit.right (h : c.BlocksFit) (hc : c.Accepted) (hmode : c.fileIoMode = .sync) (hvalidate : c.validate) :
    ValidationRight crc32 c threadId := by
  rcases Nat.lt_or_ge 4 c.fileExtraFlags with hflags | hflags
  · refine ⟨fun s random fd => ?_, fun d draws hrun => absurd hrun (not_fileRun hflags),
      fun d draws req vars hrun => absurd hrun (not_fileRun hflags), fun d draws req vars hrun => absurd hrun (not_fileRun hflags),
      fun d draws req vars hrun => absurd hrun (not_fileRun hflags)⟩
    rw [createFiles_refused hflags]
    exact Option.some_ne_none _
  obtain ⟨hfile, hblock, hle, h⟩ := h.resolve_left (by omega)
  have hnum := hc.numFiles_pos
  obtain ⟨I, hI⟩ : ∃ I, Maintained crc32 c threadId I := by
    cases htest : c.testMode <;> rw [htest] at h
    case read => exact ⟨_, maintained_seqRead htest hnum hfile hblock hle h⟩
    case write => exact ⟨_, maintained_seqWrite (Or.inl htest) (Or.inl htest) hnum hfile (by omega) h⟩
    case rewrite => exact ⟨_, maintained_seqWrite (Or.inr (Or.inl htest)) (Or.inr htest) hnum hfile (by omega) h⟩
    case rndRead => exact ⟨_, maintained_rnd hc (by rw [FileConfig.Sequential, htest]; decide) hfile hblock hle h.1 h.2⟩
    case mixed => exact ⟨_, maintained_rnd hc (by rw [FileConfig.Sequential, htest]; decide) hfile hblock hle h.1 h.2⟩
    case rndWrite => exact ⟨_, maintained_rndWrite hc (Or.inl htest) hfile hblock hle h⟩
    case rndRw =>
      rcases h with ⟨hdvd, htotal⟩ | ⟨hratio, htail⟩ | ⟨htotal, hroom, hratio⟩
      · exact ⟨_, maintained_rnd hc (by rw [FileConfig.Sequential, htest]; decide) hfile hblock hle hdvd htotal⟩
      · exact ⟨_, maintained_rndWrite hc (Or.inr ⟨htest, hratio⟩) hfile hblock hle htail⟩
      · exact ⟨_, maintained_oneBlock hc htest hroom hle htotal hratio⟩
  exact hI.right hc hmode hvalidate hfile hflags ⟨hblock, hle⟩

end fits

/-! ### Runs that go wrong elsewhere -/

section wrong
variable {crc32 : List UInt8 → UInt32} {c : FileConfig} {threadId : ℕ} {I : FileDisk → Prop} {d d' : FileDisk} {req : SbFileRequest}
  {vars : FileState} {draws : List ℚ}

theorem exists_prepared (crc32 : List UInt8 → UInt32) (threadId : ℕ) (hc : c.Accepted) (hvalidate : c.validate) (hflags : c.fileExtraFlags ≤ 4)
    (hroom : 0 < c.fileSize → 12 ≤ c.fileBlockSize ∧ c.fileBlockSize ≤ c.fileRequestSize) (s : FileState) :
    ∃ d, FileRun crc32 c threadId d ∧ d.Sound crc32 c ∧ d.Long c ∧ c.Tiled d.written ∧ d.vars = clearStats (initVars s) := by
  obtain ⟨failed, ⟨d, fd⟩, hends, rfl, hcreated⟩ :=
    createFiles_ends crc32 hvalidate hc.requestSize_nonneg hflags hroom s (fun _ => 0) (0, 0)
  have hinv : FileInv crc32 c (fun d => c.Tiled d.written) (d.prepared c s fun _ => 0) :=
    hcreated.fileInv hc.requestSize_nonneg hc.numFiles_pos s _ hcreated.tiled
  exact ⟨_, .created hends, hinv.sound, hinv.long, hinv.inv, rfl⟩

/-- As long as nothing goes wrong, the next request leads to a further state. -/
theorem ValidationRight.step (hright : ValidationRight crc32 c threadId) (hmode : c.fileIoMode = .sync) (hvalidate : c.validate)
    (hrun : FileRun crc32 c threadId d) (hd : d.Sound crc32 c) (hlong : d.Long c) (hdraws : ∀ u ∈ draws, 0 ≤ u ∧ u < 1)
    (hnext : fileNextEvent c threadId draws d.vars = .ok (req, vars)) (hid : req.fileId < c.numFiles) (hop : req.operation ≠ .null)
    (hfits : req.pos + req.size ≤ c.fileSize) (hle : req.operation ≠ .fsync → req.size ≤ c.fileRequestSize) :
    ∃ d', FileRun crc32 c threadId d' ∧ Executed crc32 c req (d.setVars vars) d' := by
  obtain ⟨failed, d', hends, rfl, hexec⟩ := fileExecuteEvent_ends hmode hvalidate (hd.setVars vars) hlong
    ⟨hid, hfits, hop, fun hop => ⟨hright.room d draws req vars hrun hdraws hnext hop, hle hop⟩⟩
    fun hread => hright.lastFilled d draws req vars hrun hdraws hnext hread
  exact ⟨d', .request hrun hdraws hnext hends, hexec⟩

/-- A state of a run with an invariant, at which it is not the time for `fsync` requests. -/
structure Reached (crc32 : List UInt8 → UInt32) (c : FileConfig) (threadId : ℕ) (I : FileDisk → Prop) (d : FileDisk) : Prop where
  run : FileRun crc32 c threadId d
  inv : FileInv crc32 c I d
  notDue : ¬SyncDue c d.vars

/-- A series of `fsync` requests comes to an end. -/
theorem exists_reached (hright : ValidationRight crc32 c threadId) (hmode : c.fileIoMode = .sync) (hvalidate : c.validate)
    (hfile : 0 ≤ c.fileSize) (hsame : ∀ {d d'}, I d → SameFiles d d' → I d') (hrun : FileRun crc32 c threadId d)
    (h : FileInv crc32 c I d) : ∃ d', Reached crc32 c threadId I d' := by
  induction hn : c.numFiles - d.vars.fsyncedFile generalizing d with
  | zero => exact absurd h.fsynced (by omega)
  | succ n ih =>
    by_cases hdue : SyncDue c d.vars
    · have hnext := fileNextEvent_sync hdue threadId []
      have hfits := fsyncRequest_fits hfile h.fsynced
      obtain ⟨d', hrun', hexec⟩ := hright.step hmode hvalidate hrun h.sound h.long (fun u hu => absurd hu List.not_mem_nil) hnext
        hfits.fileId_lt hfits.operation hfits.fits fun hno => (hfits.room hno).2
      obtain ⟨hkept, hsynced, hdirty⟩ := fsyncRequest_executed hexec
      have hinv : FileInv crc32 c I d' := ⟨hexec.sound, h.long.mono hexec.long, hsynced ▸ fsyncRequest_fsyncedFile h.fsynced,
        hsame h.inv hkept⟩
      by_cases hlast : d.vars.fsyncedFile + 1 = c.numFiles
      · refine ⟨d', hrun', hinv, fun hdue' => ?_⟩
        have hclean : d'.vars.isDirty = false := by
          rw [hdirty, fsyncRequest, if_pos hlast]
        exact absurd (hclean.symm.trans hdue'.isDirty) (by decide)
      · refine ih hrun' hinv ?_
        rw [hsynced, fsyncRequest, if_neg hlast]
        show c.numFiles - (d.vars.fsyncedFile + 1) = n
        omega
    · exact ⟨d, hrun, h, hdue⟩

/-- A state at which nothing has been done. -/
theorem exists_first (hc : c.Accepted) (hvalidate : c.validate) (hflags : c.fileExtraFlags ≤ 4)
    (hroom : 0 < c.fileSize → 12 ≤ c.fileBlockSize ∧ c.fileBlockSize ≤ c.fileRequestSize) (s : FileState)
    (hI : ∀ d : FileDisk, c.Tiled d.written → d.vars = clearStats (initVars s) → I d) : ∃ d, Reached crc32 c threadId I d := by
  obtain ⟨d, hrun, hsound, hlong, htiled, hvars⟩ := exists_prepared crc32 threadId hc hvalidate hflags hroom s
  refine ⟨d, hrun, ⟨hsound, hlong, ?_, hI d htiled hvars⟩, fun hdue => ?_⟩
  · rw [hvars]
    exact hc.numFiles_pos
  · have hdirty := hdue.isDirty
    rw [hvars] at hdirty
    cases hdirty

/-- What is read from a tiling is one of its blocks. -/
theorem FileConfig.Tiled.block_of_lastFilled (h : c.Tiled d.written) {id : ℕ} {pos size : ℤ} (hlast : LastFilled d id pos size) :
    id < c.numFiles ∧ size = c.fileBlockSize := by
  obtain ⟨w, hw, -, hlen, -⟩ := hlast
  have hcreates := h.blocks w (mem_of_newest hw)
  exact ⟨(touches_of_newest hw).1 ▸ hcreates.file_lt, hlen.symm.trans hcreates.length⟩

end wrong

/-- A sequential test is at block `k` of the first file. -/
structure AtBlock (c : FileConfig) (k : ℕ) (d : FileDisk) : Prop where
  position : d.vars.position = k * c.fileRequestSize
  currentFile : d.vars.currentFile = 0
  tiled : ¬c.Writes → c.Tiled d.written

section seqWrong
variable {crc32 : List UInt8 → UInt32} {c : FileConfig} {threadId k : ℕ} {d : FileDisk}

/-- The request for block `k`, and its operation. -/
def seqBlock (c : FileConfig) (k : ℕ) : SbFileRequest :=
  ⟨0, k * c.fileRequestSize, min c.fileRequestSize (c.fileSize - k * c.fileRequestSize), if c.Writes then .write else .read⟩

theorem seqBlock_operation (c : FileConfig) (k : ℕ) : (seqBlock c k).operation ≠ .null ∧ (seqBlock c k).operation ≠ .fsync := by
  show (if c.Writes then SbFileOp.write else .read) ≠ .null ∧ (if c.Writes then SbFileOp.write else .read) ≠ .fsync
  split <;> decide

theorem seqBlock_fits (c : FileConfig) (k : ℕ) : (seqBlock c k).pos + (seqBlock c k).size ≤ c.fileSize := by
  show (k : ℤ) * c.fileRequestSize + min c.fileRequestSize (c.fileSize - k * c.fileRequestSize) ≤ c.fileSize
  omega

theorem Reached.next_seqBlock (h : Reached crc32 c threadId (AtBlock c k) d) (hseq : c.Sequential) (hnum : 0 < c.numFiles) :
    ∃ vars, fileNextEvent c threadId [] d.vars = .ok (seqBlock c k, vars) ∧ vars.fsyncedFile = d.vars.fsyncedFile ∧
      ((k + 1) * c.fileRequestSize < c.fileSize → vars.position = (k + 1) * c.fileRequestSize ∧ vars.currentFile = 0) := by
  have hstart : seqStart c d.vars = (k * c.fileRequestSize, 0) := by
    unfold seqStart
    rw [if_neg (by rw [h.inv.inv.currentFile]; omega), h.inv.inv.position, h.inv.inv.currentFile]
  obtain ⟨vars, hnext, hsynced, hposition, hcurrent⟩ := fileNextEvent_seq hseq h.notDue hstart threadId []
  refine ⟨vars, hnext, hsynced, fun hlt => ?_⟩
  have hsum : ((k : ℤ) + 1) * c.fileRequestSize = k * c.fileRequestSize + c.fileRequestSize := by ring
  have hmin : min c.fileRequestSize (c.fileSize - k * c.fileRequestSize) = c.fileRequestSize := by omega
  rw [hmin] at hposition hcurrent
  rw [if_neg (by omega)] at hposition hcurrent
  exact ⟨hposition.trans hsum.symm, hcurrent⟩

theorem exists_atBlock (hright : ValidationRight crc32 c threadId) (hc : c.Accepted) (hmode : c.fileIoMode = .sync)
    (hvalidate : c.validate) (hseq : c.Sequential) (hflags : c.fileExtraFlags ≤ 4)
    (hroom : 0 < c.fileSize → 12 ≤ c.fileBlockSize ∧ c.fileBlockSize ≤ c.fileRequestSize) :
    ∀ k : ℕ, k = 0 ∨ k * c.fileRequestSize < c.fileSize → ∃ d, Reached crc32 c threadId (AtBlock c k) d
  | 0, _ => exists_first hc hvalidate hflags hroom ⟨0, 0, 0, false, 0, 0, 0, 0, fun _ => (0, 0)⟩ fun d htiled hvars => by
    refine ⟨?_, ?_, fun _ => htiled⟩ <;> rw [hvars]
    · exact (zero_mul _).symm
    · rfl
  | k + 1, hlt => by
    have hlt : ((k : ℤ) + 1) * c.fileRequestSize < c.fileSize := by
      rcases hlt with hzero | hlt
      · cases hzero
      · push_cast at hlt
        exact hlt
    have hrequest := hc.requestSize_nonneg
    have hle : (k : ℤ) * c.fileRequestSize ≤ (k + 1) * c.fileRequestSize := mul_le_mul_of_nonneg_right (by omega) hrequest
    have hfile : 0 < c.fileSize := (mul_nonneg (by omega) hrequest).trans_lt hlt
    obtain ⟨d, hd⟩ := exists_atBlock hright hc hmode hvalidate hseq hflags hroom k (Or.inr (by omega))
    obtain ⟨vars, hnext, hsynced, hat⟩ := hd.next_seqBlock hseq hc.numFiles_pos
    obtain ⟨d', hrun, hexec⟩ := hright.step hmode hvalidate hd.run hd.inv.sound hd.inv.long (fun u hu => absurd hu List.not_mem_nil)
      hnext hc.numFiles_pos (seqBlock_operation c k).1 (seqBlock_fits c k) fun _ => min_le_left ..
    refine exists_reached hright hmode hvalidate hfile.le (fun h hsame => ?_) hrun ⟨hexec.sound, hd.inv.long.mono hexec.long, ?_, ?_⟩
    · exact ⟨hsame.position.trans h.position, hsame.currentFile.trans h.currentFile, fun hreads => hsame.written ▸ h.tiled hreads⟩
    · rw [hexec.vars]
      exact hsynced ▸ hd.inv.fsynced
    · refine ⟨?_, ?_, fun hreads => ?_⟩
      · rw [hexec.vars]
        push_cast
        exact (hat hlt).1
      · rw [hexec.vars]
        exact (hat hlt).2
      · have hop : (seqBlock c k).operation = .read := if_neg hreads
        rw [hexec.kept (by rw [hop]; decide)]
        exact hd.inv.inv.tiled hreads

/-- What the request for a block shows of the options. -/
theorem ValidationRight.seqBlock_room (hright : ValidationRight crc32 c threadId) (hc : c.Accepted) (hmode : c.fileIoMode = .sync)
    (hvalidate : c.validate) (hseq : c.Sequential) (hflags : c.fileExtraFlags ≤ 4)
    (hroom : 0 < c.fileSize → 12 ≤ c.fileBlockSize ∧ c.fileBlockSize ≤ c.fileRequestSize) {k : ℕ}
    (hk : k = 0 ∨ k * c.fileRequestSize < c.fileSize) :
    12 ≤ (seqBlock c k).size ∧ (¬c.Writes → (seqBlock c k).size = c.fileBlockSize) := by
  obtain ⟨d, hd⟩ := exists_atBlock hright hc hmode hvalidate hseq hflags hroom k hk
  obtain ⟨vars, hnext, -⟩ := hd.next_seqBlock hseq hc.numFiles_pos
  have hdraws : ∀ u ∈ ([] : List ℚ), 0 ≤ u ∧ u < 1 := fun u hu => absurd hu List.not_mem_nil
  refine ⟨hright.room d [] _ vars hd.run hdraws hnext (seqBlock_operation c k).2, fun hreads => ?_⟩
  · have hop : (seqBlock c k).operation = .read := if_neg hreads
    exact ((hd.inv.inv.tiled hreads).block_of_lastFilled (hright.lastFilled d [] _ vars hd.run hdraws hnext hop)).2

/-- The last block of a file is a part of one where the size of the file is no multiple. -/
theorem seqBlock_last (hrequest : 0 < c.fileRequestSize) (hfile : 0 < c.fileSize) (hmod : c.fileSize % c.fileRequestSize ≠ 0) :
    (c.fileSize / c.fileRequestSize).toNat * c.fileRequestSize < c.fileSize ∧
      (seqBlock c (c.fileSize / c.fileRequestSize).toNat).size = c.fileSize % c.fileRequestSize := by
  have hdiv := Int.emod_add_mul_ediv c.fileSize c.fileRequestSize
  have hnonneg := Int.emod_nonneg c.fileSize hrequest.ne'
  have hlt := Int.emod_lt_of_pos c.fileSize hrequest
  have hcast : ((c.fileSize / c.fileRequestSize).toNat : ℤ) = c.fileSize / c.fileRequestSize :=
    Int.toNat_of_nonneg (Int.ediv_nonneg hfile.le hrequest.le)
  unfold seqBlock
  rw [hcast, mul_comm]
  exact ⟨by omega, by show min _ _ = _; omega⟩

end seqWrong

/-- A random test has read nothing, and has written the first block `k` times. -/
structure AtWrite (c : FileConfig) (threadId k : ℕ) (d : FileDisk) : Prop where
  readOps : d.vars.readOps = 0
  writeOps : d.vars.writeOps = k
  free : ∀ i ≠ threadId, (d.vars.perThread i).2 < 0
  blocks : ∀ w ∈ d.written, c.Creates w ∨ 0 < k ∧ w.file = 0 ∧ w.pos = 0

section rndWrong
variable {crc32 : List UInt8 → UInt32} {c : FileConfig} {threadId k : ℕ} {d : FileDisk}

/-- Any block of the grid may come next. -/
theorem Reached.onGrid (h : Reached crc32 c threadId (AtWrite c threadId k) d) (hrnd : ¬c.Sequential) (hfile : c.fileSize ≠ 0) {t : ℤ}
    (ht : c.OnGrid t) : ∃ draws, (∀ u ∈ draws, 0 ≤ u ∧ u < 1) ∧ fileNextEvent c threadId draws d.vars =
      .ok (blockRequest c (rndOperation c d.vars) t, d.vars.drawn threadId (blockRequest c (rndOperation c d.vars) t)) := by
  obtain ⟨h0, h1, -⟩ := drawnPosition_eq ht
  have hdue : ¬RndFsyncDue c d.vars := fun hdue => h.notDue (Or.inr ⟨hrnd, hdue⟩)
  refine ⟨[(t : ℚ) / c.totalSize], fun u hu => ?_, ?_⟩
  · rw [List.mem_singleton.mp hu]
    exact ⟨h0, h1⟩
  · rw [fileNextEvent_random hrnd, fileGetRndRequest_drawn hdue, drawRequest_onGrid hfile ht h.inv.inv.free]
    rfl

theorem onGrid_zero (hc : c.Accepted) : c.OnGrid 0 := ⟨le_rfl, hc.totalSize_pos, dvd_zero _⟩

/-- The operation that comes next in a combined test. -/
theorem AtWrite.rndOperation (h : AtWrite c threadId k d) (hmode : c.testMode = .rndRw) :
    rndOperation c d.vars = if 1 / ((k : ℚ) + 1) < c.fileRwRatio then .read else .write := by
  unfold Sysbench.rndOperation rndMode
  rw [if_pos hmode, h.readOps, h.writeOps, Int.cast_zero, zero_add, Int.cast_natCast]
  split <;> rfl

theorem exists_atWrite (hright : ValidationRight crc32 c threadId) (hc : c.Accepted) (hmode : c.fileIoMode = .sync)
    (hvalidate : c.validate) (hrnd : ¬c.Sequential) (hflags : c.fileExtraFlags ≤ 4)
    (hroom : 0 < c.fileSize → 12 ≤ c.fileBlockSize ∧ c.fileBlockSize ≤ c.fileRequestSize) :
    ∀ k : ℕ, (0 < k → 0 < c.fileSize ∧ c.testMode = .rndRw) → (∀ j < k, ¬1 / ((j : ℚ) + 1) < c.fileRwRatio) →
      ∃ d, Reached crc32 c threadId (AtWrite c threadId k) d
  -- What `malloc` leaves in the table is no block of the files.
  | 0, _, _ => exists_first hc hvalidate hflags hroom ⟨0, 0, 0, false, 0, 0, 0, 0, fun _ => (0, -1)⟩ fun d htiled hvars => by
    refine ⟨?_, ?_, ?_, fun w hw => Or.inl (htiled.blocks w hw)⟩ <;> rw [hvars]
    · rfl
    · rfl
    · exact fun _ _ => neg_one_lt_zero
  | k + 1, hkind, hwrites => by
    obtain ⟨hfile, htest⟩ := hkind (Nat.succ_pos k)
    obtain ⟨d, hd⟩ := exists_atWrite hright hc hmode hvalidate hrnd hflags hroom k (fun _ => ⟨hfile, htest⟩) fun j hj =>
      hwrites j (hj.trans (Nat.lt_succ_self k))
    have hop := hd.inv.inv.rndOperation htest
    rw [if_neg (hwrites k (Nat.lt_succ_self k))] at hop
    obtain ⟨draws, hdraws, hnext⟩ := hd.onGrid hrnd hfile.ne' (onGrid_zero hc)
    rw [hop] at hnext
    have hid : (blockRequest c .write 0).fileId = 0 := by
      unfold blockRequest
      rw [Int.zero_ediv]
      rfl
    obtain ⟨d', hrun, hexec⟩ := hright.step hmode hvalidate hd.run hd.inv.sound hd.inv.long hdraws hnext (hid ▸ hc.numFiles_pos)
      (by show SbFileOp.write ≠ .null; decide) (blockRequest_pos hfile hc 0).2.2 fun _ => (min_le_left ..).trans (hroom hfile).2
    refine exists_reached hright hmode hvalidate hfile.le (fun h hsame => ?_) hrun ⟨hexec.sound, hd.inv.long.mono hexec.long, ?_, ?_⟩
    · exact ⟨hsame.readOps.trans h.readOps, hsame.writeOps.trans h.writeOps, hsame.perThread ▸ h.free, hsame.written ▸ h.blocks⟩
    · rw [hexec.vars]
      exact hd.inv.fsynced
    · obtain ⟨w, hwritten, hwfile, hwpos, -⟩ := hexec.wrote rfl
      refine ⟨?_, ?_, ?_, ?_⟩
      · rw [hexec.vars]
        exact (add_zero _).trans hd.inv.inv.readOps
      · rw [hexec.vars]
        show d.vars.writeOps + 1 = _
        rw [hd.inv.inv.writeOps]
        push_cast
        rfl
      · rw [hexec.vars]
        intro i hi
        show (Function.update d.vars.perThread threadId _ i).2 < 0
        rw [Function.update_of_ne hi]
        exact hd.inv.inv.free i hi
      · rw [hwritten]
        intro w' hw'
        rcases List.mem_cons.mp hw' with rfl | hw'
        · exact Or.inr ⟨Nat.succ_pos k, hwfile.trans hid, hwpos.trans (Int.zero_emod _)⟩
        · exact (hd.inv.inv.blocks w' hw').imp id fun h => ⟨Nat.succ_pos k, h.2⟩

/-- What is read is a block of `create_files`, or starts where the first block does. -/
theorem AtWrite.block_of_lastFilled (h : AtWrite c threadId k d) {id : ℕ} {pos size : ℤ} (hlast : LastFilled d id pos size) :
    id < c.numFiles ∧ size = c.fileBlockSize ∨ 0 < k ∧ id = 0 ∧ pos = 0 := by
  obtain ⟨w, hw, hpos, hlen, -⟩ := hlast
  have hfile := (touches_of_newest hw).1
  rcases h.blocks w (mem_of_newest hw) with hcreates | ⟨hk, h0, h0'⟩
  · exact Or.inl ⟨hfile ▸ hcreates.file_lt, hlen.symm.trans hcreates.length⟩
  · exact Or.inr ⟨hk, hfile.symm.trans h0, hpos.symm.trans h0'⟩

/-- Where the blocks of the grid are not those of `create_files`, one of them shows it. With a second block on the grid that is
not the first. -/
theorem exists_misfit (hc : c.Accepted) (hfile : 0 < c.fileSize)
    (h : ¬(c.fileBlockSize ∣ c.fileSize ∧ (c.numFiles : ℤ) ∣ c.totalSize)) :
    ∃ t, c.OnGrid t ∧ (c.numFiles ≤ (blockRequest c .read t).fileId ∨ (blockRequest c .read t).size ≠ c.fileBlockSize) ∧
      (c.fileBlockSize < c.totalSize → (blockRequest c .read t).fileId ≠ 0 ∨ (blockRequest c .read t).pos ≠ 0) := by
  have hblock := hc.blockSize_pos
  have hblocklt := hc.blockSize_lt
  have hnum : (0 : ℤ) < c.numFiles := by exact_mod_cast hc.numFiles_pos
  have hnumlt := hc.numFiles_lt
  have htotal : c.numFiles * c.fileSize ≤ c.totalSize := by
    rw [hc.fileSize_eq]
    exact Int.mul_ediv_self_le hnum.ne'
  have hfiletotal : c.fileSize ≤ c.totalSize := by
    rw [hc.fileSize_eq]
    exact Int.ediv_le_self _ hc.totalSize_pos.le
  by_cases hdvd : c.fileBlockSize ∣ c.fileSize
  · -- The grid goes on behind the last file.
    have hne : c.numFiles * c.fileSize ≠ c.totalSize := fun heq => h ⟨hdvd, heq ▸ dvd_mul_right ..⟩
    have hid : (blockRequest c .read (c.numFiles * c.fileSize)).fileId = c.numFiles := by
      show (c.numFiles * c.fileSize / c.fileSize % 2 ^ 32).toNat = _
      rw [Int.mul_ediv_cancel _ hfile.ne', Int.emod_eq_of_lt hnum.le (by omega)]
      rfl
    exact ⟨c.numFiles * c.fileSize, ⟨by positivity, by omega, hdvd.mul_left _⟩, Or.inl hid.ge, fun _ => Or.inl (by omega)⟩
  · have hmod : 0 < c.fileSize % c.fileBlockSize :=
      lt_of_le_of_ne (Int.emod_nonneg _ hblock.ne') fun heq => hdvd (Int.dvd_of_emod_eq_zero heq.symm)
    have hmodlt := Int.emod_lt_of_pos c.fileSize hblock
    have hparts := Int.emod_add_mul_ediv c.fileSize c.fileBlockSize
    rcases lt_or_ge c.fileSize c.fileBlockSize with hsmall | hlarge
    · -- No request is as large as a block.
      have hsize : ∀ t, (blockRequest c .read t).size ≠ c.fileBlockSize := by
        intro t
        have hnonneg := Int.emod_nonneg t hfile.ne'
        show min c.fileBlockSize (c.fileSize - t % c.fileSize) ≠ _
        omega
      by_cases hsecond : c.fileBlockSize < c.totalSize
      · refine ⟨c.fileBlockSize, ⟨hblock.le, hsecond, dvd_rfl⟩, Or.inr (hsize _), fun _ => Or.inl ?_⟩
        have hpos : 0 < c.fileBlockSize / c.fileSize := (Int.le_ediv_iff_mul_le hfile).mpr (by omega)
        have hlt : c.fileBlockSize / c.fileSize ≤ c.fileBlockSize := Int.ediv_le_self _ hblock.le
        show (c.fileBlockSize / c.fileSize % 2 ^ 32).toNat ≠ 0
        omega
      · exact ⟨0, onGrid_zero hc, Or.inr (hsize 0), fun hno => absurd hno hsecond⟩
    · -- The last block of the first file is cut off.
      have hwhole : 0 < c.fileSize / c.fileBlockSize := (Int.le_ediv_iff_mul_le hblock).mpr (by omega)
      have hpos : 0 < c.fileBlockSize * (c.fileSize / c.fileBlockSize) := mul_pos hblock hwhole
      have hemod : c.fileBlockSize * (c.fileSize / c.fileBlockSize) % c.fileSize = c.fileBlockSize * (c.fileSize / c.fileBlockSize) :=
        Int.emod_eq_of_lt hpos.le (by omega)
      refine ⟨c.fileBlockSize * (c.fileSize / c.fileBlockSize), ⟨hpos.le, by omega, dvd_mul_right ..⟩, Or.inr ?_, fun _ => Or.inr ?_⟩
      · show min c.fileBlockSize (c.fileSize - _ % c.fileSize) ≠ _
        rw [hemod]
        omega
      · show _ % c.fileSize ≠ 0
        rw [hemod]
        exact hpos.ne'

/-- What the first requests of a random test show of the options. -/
theorem ValidationRight.room_onGrid (hright : ValidationRight crc32 c threadId) (hc : c.Accepted) (hmode : c.fileIoMode = .sync)
    (hvalidate : c.validate) (hrnd : ¬c.Sequential) (hflags : c.fileExtraFlags ≤ 4) (hfile : 0 < c.fileSize)
    (hroom : 12 ≤ c.fileBlockSize ∧ c.fileBlockSize ≤ c.fileRequestSize) {t : ℤ} (ht : c.OnGrid t) :
    12 ≤ c.fileSize - t % c.fileSize := by
  obtain ⟨d, hd⟩ := exists_atWrite hright hc hmode hvalidate hrnd hflags (fun _ => hroom) 0 (fun hno => absurd hno (by omega))
    fun j hj => absurd hj (Nat.not_lt_zero j)
  obtain ⟨draws, hdraws, hnext⟩ := hd.onGrid hrnd hfile.ne' ht
  exact (hright.room d draws _ _ hd.run hdraws hnext (rndOperation_ne_fsync c d.vars)).trans (min_le_right ..)

/-- What the first read of a random test shows, after `k` writes. -/
theorem ValidationRight.block_onGrid (hright : ValidationRight crc32 c threadId) (hd : Reached crc32 c threadId (AtWrite c threadId k) d)
    (hrnd : ¬c.Sequential) (hfile : 0 < c.fileSize) (hop : rndOperation c d.vars = .read) {t : ℤ} (ht : c.OnGrid t) :
    (blockRequest c .read t).fileId < c.numFiles ∧ (blockRequest c .read t).size = c.fileBlockSize ∨
      0 < k ∧ (blockRequest c .read t).fileId = 0 ∧ (blockRequest c .read t).pos = 0 := by
  obtain ⟨draws, hdraws, hnext⟩ := hd.onGrid hrnd hfile.ne' ht
  rw [hop] at hnext
  exact hd.inv.inv.block_of_lastFilled (hright.lastFilled d draws _ _ hd.run hdraws hnext rfl)

/-- A test that reads first reads all blocks of the grid. -/
theorem ValidationRight.tiles (hright : ValidationRight crc32 c threadId) (hc : c.Accepted)
    (hd : Reached crc32 c threadId (AtWrite c threadId 0) d) (hrnd : ¬c.Sequential) (hfile : 0 < c.fileSize)
    (hop : rndOperation c d.vars = .read) : c.fileBlockSize ∣ c.fileSize ∧ (c.numFiles : ℤ) ∣ c.totalSize := by
  by_contra hno
  obtain ⟨t, ht, hbad, -⟩ := exists_misfit hc hfile hno
  rcases hright.block_onGrid hd hrnd hfile hop ht with ⟨hid, hsize⟩ | ⟨hzero, -⟩
  · rcases hbad with hbad | hbad
    · omega
    · exact hbad hsize
  · omega

/-- A combined test comes to read at last. -/
theorem ValidationRight.rndRw (hright : ValidationRight crc32 c threadId) (hc : c.Accepted) (hmode : c.fileIoMode = .sync)
    (hvalidate : c.validate) (htest : c.testMode = .rndRw) (hflags : c.fileExtraFlags ≤ 4) (hfile : 0 < c.fileSize)
    (hroom : 12 ≤ c.fileBlockSize ∧ c.fileBlockSize ≤ c.fileRequestSize) (hratio : 0 < c.fileRwRatio) :
    c.fileBlockSize ∣ c.fileSize ∧ (c.numFiles : ℤ) ∣ c.totalSize ∨ c.totalSize ≤ c.fileBlockSize ∧ c.fileRwRatio ≤ 1 := by
  have hrnd : ¬c.Sequential := by
    unfold FileConfig.Sequential
    rw [htest]
    decide
  obtain hexists := exists_nat_one_div_lt hratio
  obtain ⟨d, hd⟩ := exists_atWrite hright hc hmode hvalidate hrnd hflags (fun _ => hroom) (Nat.find hexists) (fun _ => ⟨hfile, htest⟩)
    fun j => Nat.find_min hexists
  have hop := hd.inv.inv.rndOperation htest
  rw [if_pos (Nat.find_spec hexists)] at hop
  by_cases hfirst : Nat.find hexists = 0
  · rw [hfirst] at hd
    exact Or.inl (hright.tiles hc hd hrnd hfile hop)
  · by_contra hno
    obtain ⟨hno, hno'⟩ := not_or.mp hno
    have hle : c.fileRwRatio ≤ 1 := by
      have hnot := Nat.find_min hexists (Nat.pos_of_ne_zero hfirst)
      simpa using hnot
    obtain ⟨t, ht, hbad, helse⟩ := exists_misfit hc hfile hno
    rcases hright.block_onGrid hd hrnd hfile hop ht with ⟨hid, hsize⟩ | ⟨-, hid, hpos⟩
    · rcases hbad with hbad | hbad
      · omega
      · exact hbad hsize
    · rcases helse (lt_of_not_ge fun hge => hno' ⟨hge, hle⟩) with hne | hne
      · exact hne hid
      · exact hne hpos

theorem ValidationRight.fits (hright : ValidationRight crc32 c threadId) (hc : c.Accepted) (hmode : c.fileIoMode = .sync)
    (hvalidate : c.validate) : c.BlocksFit := by
  rcases Nat.lt_or_ge 4 c.fileExtraFlags with hflags | hflags
  · exact Or.inl hflags
  have hroom : 0 < c.fileSize → 12 ≤ c.fileBlockSize ∧ c.fileBlockSize ≤ c.fileRequestSize := by
    intro hfile
    by_contra hno
    exact hright.created ⟨0, 0, 0, false, 0, 0, 0, 0, fun _ => (0, 0)⟩ (fun _ => 0) (0, 0)
      (createFiles_outside hvalidate hc.requestSize_nonneg hflags hc.numFiles_pos hfile hno _ _ _)
  have hnonneg : 0 ≤ c.fileSize := by
    rw [hc.fileSize_eq]
    exact Int.ediv_nonneg hc.totalSize_pos.le (Int.natCast_nonneg _)
  have hrequest := hc.requestSize_nonneg
  have hfile : 0 < c.fileSize := by
    refine lt_of_le_of_ne hnonneg fun hzero => ?_
    by_cases hseq : c.Sequential
    · have hsize := (hright.seqBlock_room hc hmode hvalidate hseq hflags hroom (k := 0) (Or.inl rfl)).1
      have hmin : (seqBlock c 0).size ≤ c.fileSize - ((0 : ℕ) : ℤ) * c.fileRequestSize := min_le_right ..
      push_cast at hmin
      omega
    · obtain ⟨d, hd⟩ := exists_atWrite hright hc hmode hvalidate hseq hflags hroom 0 (fun hno => absurd hno (by omega))
        fun j hj => absurd hj (Nat.not_lt_zero j)
      have hdue : ¬RndFsyncDue c d.vars := fun hdue => hd.notDue (Or.inr ⟨hseq, hdue⟩)
      refine hright.generated d [0] hd.run (by simp) ?_
      rw [fileNextEvent_random hseq, fileGetRndRequest_drawn hdue, drawRequest, if_pos hzero.symm]
      rfl
  obtain ⟨hblock, hle⟩ := hroom hfile
  have hlast : ∀ hmod : c.fileSize % c.fileRequestSize ≠ 0, c.Sequential →
      12 ≤ c.fileSize % c.fileRequestSize ∧ (¬c.Writes → c.fileSize % c.fileRequestSize = c.fileBlockSize) := by
    intro hmod hseq
    obtain ⟨hlt, hsize⟩ := seqBlock_last (by omega) hfile hmod
    rw [← hsize]
    exact hright.seqBlock_room hc hmode hvalidate hseq hflags hroom (Or.inr hlt)
  have htail : ¬c.Sequential → ∀ t, c.OnGrid t → 12 ≤ c.fileSize - t % c.fileSize := fun hrnd t ht =>
    hright.room_onGrid hc hmode hvalidate hrnd hflags hfile ⟨hblock, hle⟩ ht
  have hreads : (c.testMode = .rndRead ∨ c.testMode = .mixed) → c.fileBlockSize ∣ c.fileSize ∧ (c.numFiles : ℤ) ∣ c.totalSize := by
    intro htest
    have hrnd : ¬c.Sequential := by
      unfold FileConfig.Sequential
      rcases htest with htest | htest <;> rw [htest] <;> decide
    obtain ⟨d, hd⟩ := exists_atWrite hright hc hmode hvalidate hrnd hflags hroom 0 (fun hno => absurd hno (by omega))
      fun j hj => absurd hj (Nat.not_lt_zero j)
    refine hright.tiles hc hd hrnd hfile ?_
    unfold Sysbench.rndOperation rndMode
    rcases htest with htest | htest <;> rw [htest] <;> rfl
  refine Or.inr ⟨hfile, hblock, hle, ?_⟩
  cases htest : c.testMode
  case read =>
    have hseq : c.Sequential := Or.inr (Or.inr htest)
    have hnot : ¬c.Writes := by
      unfold FileConfig.Writes
      rw [htest]
      decide
    have hsize := (hright.seqBlock_room hc hmode hvalidate hseq hflags hroom (k := 0) (Or.inl rfl)).2 hnot
    have hmin : (seqBlock c 0).size = min c.fileRequestSize (c.fileSize - ((0 : ℕ) : ℤ) * c.fileRequestSize) := rfl
    push_cast at hmin
    by_cases hequal : c.fileSize = c.fileBlockSize
    · exact Or.inr hequal
    · have hrequest : c.fileRequestSize = c.fileBlockSize := by omega
      refine Or.inl ⟨hrequest, Int.dvd_of_emod_eq_zero ?_⟩
      by_contra hmod
      rw [← hrequest] at hmod
      have hsize := (hlast hmod hseq).2 hnot
      have hlt := Int.emod_lt_of_pos c.fileSize (show 0 < c.fileRequestSize by omega)
      omega
  case write => exact (em _).imp id fun hmod => (hlast hmod (Or.inl htest)).1
  case rewrite => exact (em _).imp id fun hmod => (hlast hmod (Or.inr (Or.inl htest))).1
  case rndRead => exact hreads (Or.inl htest)
  case mixed => exact hreads (Or.inr htest)
  case rndWrite => exact htail (by rw [FileConfig.Sequential, htest]; decide)
  case rndRw =>
    have htail := htail (by rw [FileConfig.Sequential, htest]; decide)
    rcases hc.fileRwRatio_nonneg.eq_or_lt with hzero | hpos
    · exact Or.inr (Or.inl ⟨hzero.symm, htail⟩)
    · refine (hright.rndRw hc hmode hvalidate htest hflags hfile ⟨hblock, hle⟩ hpos).imp id fun h => Or.inr ⟨h.1, ?_, h.2⟩
      have hroom := htail 0 (onGrid_zero hc)
      rwa [Int.zero_emod, sub_zero] at hroom

end rndWrong

/-- `--file-num=1 --file-total-size=26 --file-block-size=13 --file-test-mode=seqrd`. -/
def oneFileArgs : FileArgs :=
  { threeFilesArgs with fileNum := 1, fileTotalSize := 26, fileBlockSize := 13, fileTestMode := some "seqrd" }

def oneFile : FileConfig := ⟨1, true, 1, 26, 26, .read, .sync, 0, 13, 13, 0, 100, true, false, .all, 3 / 2, 0⟩

theorem parse_oneFile : parseArguments ⟨true, true, true⟩ ⟨"run", 1, true⟩ oneFileArgs = .ok oneFile := by decide +kernel

/-- The two blocks of the file in one request. -/
def twoBlocks : FileConfig := { oneFile with fileMergedRequests := 2, fileRequestSize := 26 }

end NuKSM.Sysbench
