import NuKSM.Theorems.Sysbench.FileConfig

/-! # Random requests

A draw stands for a block of a grid over all files, one after the other. The files together may be shorter than the total
size, so that the grid goes on behind the last file. -/

namespace NuKSM.Sysbench
open Thread FileOp

/-- A block of the grid starts at `t`. -/
structure FileConfig.OnGrid (c : FileConfig) (t : ℤ) : Prop where
  nonneg : 0 ≤ t
  lt : t < c.totalSize
  dvd : c.fileBlockSize ∣ t

/-! ### Draws -/

section draws
variable {c : FileConfig} {threadId : ℕ} {operation : SbFileOp} {s s' : FileState} {req : SbFileRequest} {draws : List ℚ}

theorem drawnPosition_onGrid (hc : c.Accepted) {u : ℚ} (h0 : 0 ≤ u) (h1 : u < 1) : c.OnGrid (drawnPosition c u) := by
  have htotal : (0 : ℚ) < c.totalSize := by exact_mod_cast hc.totalSize_pos
  have hfloor0 : 0 ≤ ⌊u * c.totalSize⌋ := Int.floor_nonneg.mpr (mul_nonneg h0 htotal.le)
  have hfloor1 : ⌊u * c.totalSize⌋ < c.totalSize := Int.floor_lt.mpr (by nlinarith)
  have hmod := Int.emod_nonneg ⌊u * c.totalSize⌋ hc.blockSize_pos.ne'
  have hrounded : drawnPosition c u = c.fileBlockSize * (⌊u * c.totalSize⌋ / c.fileBlockSize) :=
    sub_eq_of_eq_add (Int.mul_ediv_add_emod _ _).symm
  refine ⟨?_, ?_, ?_⟩
  · rw [hrounded]
    exact mul_nonneg hc.blockSize_pos.le (Int.ediv_nonneg hfloor0 hc.blockSize_pos.le)
  · unfold drawnPosition
    omega
  · rw [hrounded]
    exact dvd_mul_right ..

/-- Every block of the grid has a draw. -/
theorem drawnPosition_eq {t : ℤ} (ht : c.OnGrid t) :
    0 ≤ (t : ℚ) / c.totalSize ∧ (t : ℚ) / c.totalSize < 1 ∧ drawnPosition c (t / c.totalSize) = t := by
  have htotal : (0 : ℚ) < c.totalSize := by exact_mod_cast ht.nonneg.trans_lt ht.lt
  have hnonneg : (0 : ℚ) ≤ t := by exact_mod_cast ht.nonneg
  refine ⟨div_nonneg hnonneg htotal.le, (div_lt_one htotal).mpr (by exact_mod_cast ht.lt), ?_⟩
  unfold drawnPosition
  rw [div_mul_cancel₀ _ htotal.ne', Int.floor_intCast, Int.emod_eq_zero_of_dvd ht.dvd, sub_zero]

theorem blockRequest_pos (hfile : 0 < c.fileSize) (hc : c.Accepted) (t : ℤ) :
    let req := blockRequest c operation t
    0 ≤ req.pos ∧ 1 ≤ req.size ∧ req.pos + req.size ≤ c.fileSize := by
  have hnonneg := Int.emod_nonneg t hfile.ne'
  have hlt := Int.emod_lt_of_pos t hfile
  have hblock := hc.blockSize_pos
  unfold blockRequest
  refine ⟨hnonneg, ?_, ?_⟩ <;> simp only <;> omega

/-- A request that is drawn is for a block of the grid, which no other thread uses. -/
theorem drawRequest_ok (hc : c.Accepted) (hdraws : ∀ u ∈ draws, 0 ≤ u ∧ u < 1)
    (h : drawRequest c threadId operation s draws = .ok req) :
    c.fileSize ≠ 0 ∧ (∃ t, c.OnGrid t ∧ req = blockRequest c operation t) ∧ (c.validate → ¬blockInUse c threadId s req) := by
  induction draws with
  | nil => cases h
  | cons u draws ih =>
    have hu := hdraws u (List.mem_cons_self ..)
    rw [drawRequest] at h
    split at h
    · cases h
    · rename_i hfile
      split at h
      · exact ih (fun u' h' => hdraws u' (List.mem_cons_of_mem _ h')) h
      · rename_i hfree
        cases h
        exact ⟨hfile, ⟨_, drawnPosition_onGrid hc hu.1 hu.2, rfl⟩, fun hvalidate huse => hfree ⟨hvalidate, huse⟩⟩

theorem drawRequest_ne_divisionByZero (hfile : c.fileSize ≠ 0) :
    drawRequest c threadId operation s draws ≠ .error .divisionByZero := by
  induction draws with
  | nil => exact fun h => by cases h
  | cons u draws ih =>
    rw [drawRequest, if_neg hfile]
    split
    · exact ih
    · exact fun h => by cases h

/-- Where the other threads have no block yet, every block of the grid can be drawn. -/
theorem drawRequest_onGrid (hfile : c.fileSize ≠ 0) {t : ℤ} (ht : c.OnGrid t) (hfree : ∀ i ≠ threadId, (s.perThread i).2 < 0) :
    drawRequest c threadId operation s [(t : ℚ) / c.totalSize] = .ok (blockRequest c operation t) := by
  have hnot : ¬blockInUse c threadId s (blockRequest c operation t) := by
    rintro ⟨i, -, hi, heq⟩
    have hpos : (s.perThread i).2 = t % c.fileSize := congrArg Prod.snd heq
    exact absurd (hfree i hi) (not_lt.mpr (hpos ▸ Int.emod_nonneg t hfile))
  rw [drawRequest, if_neg hfile, (drawnPosition_eq ht).2.2, if_neg fun h => hnot h.2]

/-- It is time for an `fsync` request of a random test. -/
def RndFsyncDue (c : FileConfig) (s : FileState) : Prop :=
  c.fileFsyncFreq ≠ 0 ∧ s.isDirty ∧ s.reqPerformed % c.fileFsyncFreq = 0

/-- The state after a request that is drawn. -/
def FileState.drawn (s : FileState) (threadId : ℕ) (req : SbFileRequest) : FileState :=
  { s with
    perThread := Function.update s.perThread threadId (req.fileId, req.pos)
    reqPerformed := nextPerformed s
    isDirty := s.isDirty || req.operation = .write }

/-- The operation of a request that is drawn. -/
def rndOperation (c : FileConfig) (s : FileState) : SbFileOp := if rndMode c s = .rndWrite then .write else .read

theorem rndOperation_ne_fsync (c : FileConfig) (s : FileState) : rndOperation c s ≠ .fsync := by
  unfold rndOperation
  split <;> decide

theorem drawRequest_operation (h : drawRequest c threadId operation s draws = .ok req) : req.operation = operation := by
  induction draws with
  | nil => cases h
  | cons u draws ih =>
    rw [drawRequest] at h
    split at h
    · cases h
    · split at h
      · exact ih h
      · cases h
        rfl

theorem fileGetRndRequest_fsync (h : RndFsyncDue c s) : fileGetRndRequest c threadId draws s = .ok (fsyncRequest c s) := if_pos h

theorem fileGetRndRequest_drawn (h : ¬RndFsyncDue c s) : fileGetRndRequest c threadId draws s =
    (drawRequest c threadId (rndOperation c s) s draws).map fun req => (req, s.drawn threadId req) := by
  have hget : fileGetRndRequest c threadId draws s =
      (do
        let req ← drawRequest c threadId (rndOperation c s) s draws
        return (req, { s with
          perThread := Function.update s.perThread threadId (req.fileId, req.pos)
          reqPerformed := nextPerformed s
          isDirty := s.isDirty || rndOperation c s = .write })) := if_neg h
  rw [hget]
  cases hdraw : drawRequest c threadId (rndOperation c s) s draws with
  | error e => rfl
  | ok req =>
    rw [← drawRequest_operation hdraw]
    rfl

/-- What a call of `file_get_rnd_request` can do. -/
theorem fileGetRndRequest_cases (h : fileGetRndRequest c threadId draws s = .ok (req, s')) :
    (RndFsyncDue c s ∧ (req, s') = fsyncRequest c s) ∨
    (¬RndFsyncDue c s ∧ drawRequest c threadId (rndOperation c s) s draws = .ok req ∧ req.operation = rndOperation c s ∧
      s' = s.drawn threadId req) := by
  by_cases hdue : RndFsyncDue c s
  · rw [fileGetRndRequest_fsync hdue] at h
    cases h
    exact Or.inl ⟨hdue, rfl⟩
  · rw [fileGetRndRequest_drawn hdue] at h
    cases hdraw : drawRequest c threadId (rndOperation c s) s draws with
    | error e =>
      rw [hdraw] at h
      cases h
    | ok req' =>
      rw [hdraw] at h
      cases h
      exact Or.inr ⟨hdue, rfl, drawRequest_operation hdraw, rfl⟩

end draws

/-! ### Runs of all threads -/

/-- The states that requests of any threads lead to, with the last read or write request of each thread. Operations that
finish in between change the counts. -/
inductive RndRun (c : FileConfig) : FileState → (ℕ → Option SbFileRequest) → Prop
  | init (s : FileState) : RndRun c (clearStats (initVars s)) fun _ => none
  | request {s s' : FileState} {held : ℕ → Option SbFileRequest} {threadId : ℕ} {draws : List ℚ} {req : SbFileRequest} :
      RndRun c s held → threadId < c.threads → (∀ u ∈ draws, 0 ≤ u ∧ u < 1) →
      fileGetRndRequest c threadId draws s = .ok (req, s') →
      RndRun c s' (if req.operation = .fsync then held else Function.update held threadId (some req))
  | finished {s : FileState} {held : ℕ → Option SbFileRequest} (readOps writeOps otherOps : ℤ) : RndRun c s held →
      RndRun c { s with readOps := readOps, writeOps := writeOps, otherOps := otherOps } held

theorem RndRun.fsyncedFile_lt {c : FileConfig} (hnum : 0 < c.numFiles) {s : FileState} {held : ℕ → Option SbFileRequest}
    (h : RndRun c s held) : s.fsyncedFile < c.numFiles := by
  induction h with
  | init s => exact hnum
  | request hs _ _ hget ih =>
    rcases fileGetRndRequest_cases hget with ⟨-, heq⟩ | ⟨-, -, -, rfl⟩
    · obtain ⟨-, rfl⟩ := Prod.mk.inj heq
      split
      · exact hnum
      · show _ + 1 < _
        omega
    · exact ih
  | finished readOps writeOps otherOps hs ih => exact ih

/-- The calls of `file_get_rnd_request` divide by no zero, and what they return lies inside the files and is accepted. -/
def SafeRequests (c : FileConfig) : Prop :=
  ∀ s held threadId draws, RndRun c s held → threadId < c.threads → (∀ u ∈ draws, 0 ≤ u ∧ u < 1) →
    fileGetRndRequest c threadId draws s ≠ .error .divisionByZero ∧
    ∀ req s', fileGetRndRequest c threadId draws s = .ok (req, s') →
      (req.operation ≠ .fsync → req.fileId < c.numFiles ∧ 0 ≤ req.pos ∧ 1 ≤ req.size ∧ req.pos + req.size ≤ c.fileSize) ∧
      checkRequest c req = .ok () ∧ (fileExecuteEvent c req).Performs (InBounds c.numFiles)

/-- Every block of the grid starts in a file. -/
def FileConfig.FitsFiles (c : FileConfig) : Prop := 0 < c.fileSize ∧ ∀ t, c.OnGrid t → t / c.fileSize % 2 ^ 32 < c.numFiles

section safe
variable {c : FileConfig}

theorem blockRequest_fileId_lt {operation : SbFileOp} {t : ℤ} (h : t / c.fileSize % 2 ^ 32 < c.numFiles) :
    (blockRequest c operation t).fileId < c.numFiles := by
  have hnonneg := Int.emod_nonneg (t / c.fileSize) (show (2 ^ 32 : ℤ) ≠ 0 by norm_num)
  show (t / c.fileSize % 2 ^ 32).toNat < c.numFiles
  omega

theorem fileGetRndRequest_ne_divisionByZero {threadId : ℕ} (hfile : c.fileSize ≠ 0) (draws : List ℚ) (s : FileState) :
    fileGetRndRequest c threadId draws s ≠ .error .divisionByZero := by
  intro herror
  by_cases hdue : RndFsyncDue c s
  · rw [fileGetRndRequest_fsync hdue] at herror
    cases herror
  · rw [fileGetRndRequest_drawn hdue] at herror
    cases hdraw : drawRequest c threadId (rndOperation c s) s draws with
    | ok req =>
      rw [hdraw] at herror
      cases herror
    | error e =>
      rw [hdraw] at herror
      cases herror
      exact drawRequest_ne_divisionByZero hfile hdraw

theorem FileConfig.FitsFiles.safe (hc : c.Accepted) (h : c.FitsFiles) : SafeRequests c := by
  intro s held threadId draws hs hthread hdraws
  obtain ⟨hfile, hgrid⟩ := h
  refine ⟨fileGetRndRequest_ne_divisionByZero hfile.ne' draws s, fun req s' hget => ?_⟩
  rcases fileGetRndRequest_cases hget with ⟨-, heq⟩ | ⟨-, hdraw, -, -⟩
  · have hreq : req = ⟨s.fsyncedFile, 0, 0, .fsync⟩ := (Prod.mk.inj heq).1
    have hlt := hs.fsyncedFile_lt hc.numFiles_pos
    rw [hreq]
    exact ⟨fun hop => absurd rfl hop, checkRequest_ok hlt.le (by simpa using hfile.le), fileExecuteEvent_performs hlt⟩
  · obtain ⟨-, ⟨t, ht, rfl⟩, -⟩ := drawRequest_ok hc hdraws hdraw
    have hlt : (blockRequest c (rndOperation c s) t).fileId < c.numFiles := blockRequest_fileId_lt (hgrid t ht)
    obtain ⟨hpos, hsize, hend⟩ : 0 ≤ (blockRequest c (rndOperation c s) t).pos ∧ _ ∧ _ := blockRequest_pos hfile hc t
    exact ⟨fun _ => ⟨hlt, hpos, hsize, hend⟩, checkRequest_ok hlt.le hend, fileExecuteEvent_performs hlt⟩

/-- The first request of a run may be for any block of the grid. -/
theorem exists_first_request (hfile : c.fileSize ≠ 0) {t : ℤ} (ht : c.OnGrid t) :
    ∃ s s' draws, RndRun c s (fun _ => none) ∧ (∀ u ∈ draws, 0 ≤ u ∧ u < 1) ∧ ∃ operation, operation ≠ .fsync ∧
      fileGetRndRequest c 0 draws s = .ok (blockRequest c operation t, s') := by
  obtain ⟨h0, h1, -⟩ := drawnPosition_eq ht
  -- What `malloc` leaves in the table is no block of the files.
  let s := clearStats (initVars ⟨0, 0, 0, false, 0, 0, 0, 0, fun _ => (0, -1)⟩)
  have hnot : ¬RndFsyncDue c s := fun hdue => absurd hdue.2.1 (by decide)
  refine ⟨s, s.drawn 0 (blockRequest c (rndOperation c s) t), [(t : ℚ) / c.totalSize], .init _, ?_, rndOperation c s,
    rndOperation_ne_fsync c s, ?_⟩
  · intro u hu
    rw [List.mem_singleton.mp hu]
    exact ⟨h0, h1⟩
  · rw [fileGetRndRequest_drawn hnot, drawRequest_onGrid hfile ht fun _ _ => neg_one_lt_zero]
    rfl

theorem FileConfig.Accepted.fileSize_nonneg (hc : c.Accepted) : 0 ≤ c.fileSize := by
  rw [hc.fileSize_eq]
  exact Int.ediv_nonneg hc.totalSize_pos.le (Int.natCast_nonneg _)

theorem SafeRequests.fits (hc : c.Accepted) (hthreads : 0 < c.threads) (h : SafeRequests c) : c.FitsFiles := by
  have hfile : c.fileSize ≠ 0 := by
    intro hzero
    let s := clearStats (initVars ⟨0, 0, 0, false, 0, 0, 0, 0, fun _ => (0, 0)⟩)
    have hnot : ¬RndFsyncDue c s := fun hdue => absurd hdue.2.1 (by decide)
    refine (h s _ 0 [0] (.init _) hthreads (by simp)).1 ?_
    rw [fileGetRndRequest_drawn hnot, drawRequest, if_pos hzero]
    rfl
  refine ⟨lt_of_le_of_ne hc.fileSize_nonneg hfile.symm, fun t ht => ?_⟩
  obtain ⟨s, s', draws, hs, hdraws, operation, hop, hget⟩ := exists_first_request hfile ht
  have hid := ((h s _ 0 draws hs hthreads hdraws).2 _ _ hget).1 hop |>.1
  have hid : (t / c.fileSize % 2 ^ 32).toNat < c.numFiles := hid
  omega

/-- The last block of the grid. -/
def FileConfig.lastBlock (c : FileConfig) : ℤ := (c.totalSize - 1) / c.fileBlockSize * c.fileBlockSize

theorem FileConfig.Accepted.lastBlock_onGrid (hc : c.Accepted) : c.OnGrid c.lastBlock := by
  have htotal := hc.totalSize_pos
  refine ⟨mul_nonneg (Int.ediv_nonneg (by omega) hc.blockSize_pos.le) hc.blockSize_pos.le, ?_, dvd_mul_left ..⟩
  have := Int.ediv_mul_le (c.totalSize - 1) hc.blockSize_pos.ne'
  unfold lastBlock
  omega

theorem FileConfig.OnGrid.le_lastBlock {t : ℤ} (ht : c.OnGrid t) (hc : c.Accepted) : t ≤ c.lastBlock := by
  obtain ⟨k, rfl⟩ := ht.dvd
  have hlt := ht.lt
  have hk : k ≤ (c.totalSize - 1) / c.fileBlockSize := by
    rw [Int.le_ediv_iff_mul_le hc.blockSize_pos, mul_comm]
    omega
  rw [lastBlock, mul_comm c.fileBlockSize]
  exact mul_le_mul_of_nonneg_right hk hc.blockSize_pos.le

theorem FileConfig.Accepted.fileSize_pos_iff (hc : c.Accepted) : 0 < c.fileSize ↔ (c.numFiles : ℤ) ≤ c.totalSize := by
  have hnum : (0 : ℤ) < c.numFiles := by exact_mod_cast hc.numFiles_pos
  rw [hc.fileSize_eq, Int.lt_iff_add_one_le, zero_add, Int.le_ediv_iff_mul_le hnum, one_mul]

/-- The grid reaches less than twice as far as the files. -/
theorem FileConfig.OnGrid.lt_twice {t : ℤ} (ht : c.OnGrid t) (hc : c.Accepted) (hfile : 0 < c.fileSize) :
    t / c.fileSize < 2 * c.numFiles := by
  have hnum : (0 : ℤ) < c.numFiles := by exact_mod_cast hc.numFiles_pos
  have htotal : c.totalSize < (c.fileSize + 1) * c.numFiles := by
    rw [hc.fileSize_eq]
    exact Int.lt_ediv_add_one_mul_self _ hnum
  refine Int.ediv_lt_of_lt_mul hfile ?_
  have := ht.lt
  nlinarith

theorem fitsFiles_iff (hc : c.Accepted) (hnum : c.numFiles < 2 ^ 31) :
    c.FitsFiles ↔ (c.numFiles : ℤ) ≤ c.totalSize ∧ c.lastBlock < c.numFiles * c.fileSize := by
  rw [FileConfig.FitsFiles, hc.fileSize_pos_iff]
  refine and_congr_right fun hle => ?_
  have hfile := hc.fileSize_pos_iff.mpr hle
  -- With fewer than `2 ^ 31` files the `int` that counts them does not wrap.
  have hid : ∀ t, c.OnGrid t → (t / c.fileSize % 2 ^ 32 < c.numFiles ↔ t < c.numFiles * c.fileSize) := by
    intro t ht
    have hlt := ht.lt_twice hc hfile
    rw [Int.emod_eq_of_lt (Int.ediv_nonneg ht.nonneg hfile.le) (by omega), Int.ediv_lt_iff_lt_mul hfile]
  exact ⟨fun h => (hid _ hc.lastBlock_onGrid).mp (h _ hc.lastBlock_onGrid),
    fun h t ht => (hid t ht).mpr ((ht.le_lastBlock hc).trans_lt h)⟩

end safe

theorem toNat_toUInt32_lt {n : Int32} (h : 0 < n.toInt) : n.toUInt32.toNat < 2 ^ 31 := by
  have hlt := Int32.toInt_lt n
  have hcases := BitVec.toInt_eq_toNat_cond n.toBitVec
  have hnat := n.toBitVec.isLt
  show n.toBitVec.toNat < 2 ^ 31
  rw [Int32.toInt_toBitVec] at hcases
  split at hcases <;> omega

/-- The requests of the random tests are safe if and only if every block of the grid starts in a file. For a positive
`file-num` the last block decides. -/
theorem safeRequests_iff {build : FileBuild} {g : FileGlobals} {args : FileArgs} {c : FileConfig}
    (hparse : parseArguments build g args = .ok c) (hthreads : 0 < g.threads) :
    (SafeRequests c ↔ c.FitsFiles) ∧
    (0 < args.fileNum.toInt →
      (SafeRequests c ↔ (c.numFiles : ℤ) ≤ c.totalSize ∧ c.lastBlock < c.numFiles * c.fileSize)) := by
  obtain ⟨hc, hg, -, hnum⟩ := parseArguments_accepted hparse
  have hiff : SafeRequests c ↔ c.FitsFiles := ⟨SafeRequests.fits hc (hg ▸ hthreads), fun h => h.safe hc⟩
  exact ⟨hiff, fun hpos => hiff.trans (fitsFiles_iff hc (hnum ▸ toNat_toUInt32_lt hpos))⟩

/-- `--file-num=3 --file-total-size=100 --file-block-size=1`. -/
def threeFilesArgs : FileArgs where
  fileNum := 3
  fileBlockSize := 1
  fileTotalSize := 100
  fileTestMode := some "rndrd"
  fileIoMode := some "sync"
  fileAsyncBacklog := 128
  fileExtraFlags := []
  fileFsyncFreq := 100
  fileFsyncAll := false
  fileFsyncEnd := true
  fileFsyncMode := "fsync"
  fileMergedRequests := 0
  fileRwRatio := 3 / 2

def threeFiles : FileConfig := ⟨1, false, 3, 100, 33, .rndRead, .sync, 0, 1, 1, 0, 100, true, false, .all, 3 / 2, 0⟩

theorem parse_threeFiles : parseArguments ⟨true, true, true⟩ ⟨"run", 1, false⟩ threeFilesArgs = .ok threeFiles := by
  decide +kernel

/-- The files have 33 bytes each, and the last byte of the 100 is that of a fourth file. -/
theorem not_safeRequests : parseArguments ⟨true, true, true⟩ ⟨"run", 1, false⟩ threeFilesArgs = .ok threeFiles ∧
    ¬SafeRequests threeFiles := by
  refine ⟨parse_threeFiles, fun h => ?_⟩
  have hc := (parseArguments_accepted parse_threeFiles).1
  have hfits := ((fitsFiles_iff hc (by decide)).mp (h.fits hc (by decide))).2
  exact absurd hfits (by decide)

theorem safeRequests_iff_three : parseArguments ⟨true, true, true⟩ ⟨"run", 1, false⟩
    { threeFilesArgs with fileTotalSize := 99 } = .ok { threeFiles with totalSize := 99 } ∧
    SafeRequests { threeFiles with totalSize := 99 } := by
  have hparse : parseArguments ⟨true, true, true⟩ ⟨"run", 1, false⟩ { threeFilesArgs with fileTotalSize := 99 } =
      .ok { threeFiles with totalSize := 99 } := by decide +kernel
  exact ⟨hparse, ((safeRequests_iff hparse (by decide)).2 (by decide)).mpr (by decide)⟩

end NuKSM.Sysbench
