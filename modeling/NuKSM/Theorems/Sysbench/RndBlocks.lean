import NuKSM.Theorems.Sysbench.RndRequests

/-! # Draws that are made again

In validation mode `file_get_rnd_request` draws until its block is not that of another thread. Each other thread takes one
block at most, so a block is left as long as there are no more threads than different blocks. With more threads the others may
have them all, and the loop never ends. -/

namespace NuKSM.Sysbench

/-- `file_next_event` calls `file_get_rnd_request`. -/
def FileConfig.Random (c : FileConfig) : Prop := ¬(c.testMode = .write ∨ c.testMode = .rewrite ∨ c.testMode = .read)

instance (c : FileConfig) : Decidable c.Random := by
  unfold FileConfig.Random
  infer_instance

/-- In every reachable state where the loop at `retry` comes up there is a draw that ends it. -/
def NeverStuck (c : FileConfig) : Prop :=
  c.Random → ∀ s held threadId, RndRun c s held → threadId < c.threads → ¬RndFsyncDue c s →
    ∃ u, 0 ≤ u ∧ u < 1 ∧ ∃ req, drawRequest c threadId (rndOperation c s) s [u] = .ok req

/-- The number of blocks of the grid. -/
def FileConfig.blockCount (c : FileConfig) : ℕ := ((c.totalSize - 1) / c.fileBlockSize + 1).toNat

/-- The entry of the table of the threads for the block at `t`. -/
def FileConfig.block (c : FileConfig) (t : ℤ) : ℕ × ℤ := ((blockRequest c .null t).fileId, (blockRequest c .null t).pos)

/-- The different blocks that a draw can stand for. -/
def FileConfig.blocks (c : FileConfig) : Finset (ℕ × ℤ) :=
  (Finset.range c.blockCount).image fun k : ℕ => c.block (k * c.fileBlockSize)

section blocks
variable {c : FileConfig}

theorem FileConfig.Accepted.blockCount_eq (hc : c.Accepted) : (c.blockCount : ℤ) = (c.totalSize - 1) / c.fileBlockSize + 1 := by
  have htotal := hc.totalSize_pos
  have := Int.ediv_nonneg (show 0 ≤ c.totalSize - 1 by omega) hc.blockSize_pos.le
  unfold blockCount
  omega

theorem FileConfig.Accepted.lt_blockCount (hc : c.Accepted) {k : ℕ} : k < c.blockCount ↔ k * c.fileBlockSize < c.totalSize := by
  have hk : (k : ℤ) ≤ (c.totalSize - 1) / c.fileBlockSize ↔ k * c.fileBlockSize ≤ c.totalSize - 1 :=
    Int.le_ediv_iff_mul_le hc.blockSize_pos
  have hcount := hc.blockCount_eq
  constructor
  · intro h
    have := hk.mp (by omega)
    omega
  · intro h
    have := hk.mpr (by omega)
    omega

theorem FileConfig.Accepted.mem_blocks (hc : c.Accepted) {p : ℕ × ℤ} : p ∈ c.blocks ↔ ∃ t, c.OnGrid t ∧ c.block t = p := by
  unfold blocks
  rw [Finset.mem_image]
  constructor
  · rintro ⟨k, hk, rfl⟩
    refine ⟨k * c.fileBlockSize, ⟨?_, hc.lt_blockCount.mp (Finset.mem_range.mp hk), dvd_mul_left ..⟩, rfl⟩
    exact mul_nonneg (Int.natCast_nonneg _) hc.blockSize_pos.le
  · rintro ⟨t, ht, rfl⟩
    obtain ⟨k, rfl⟩ := ht.dvd
    have hk : 0 ≤ k := nonneg_of_mul_nonneg_right ht.nonneg hc.blockSize_pos
    obtain ⟨k, rfl⟩ := Int.eq_ofNat_of_zero_le hk
    have hlt := ht.lt
    rw [mul_comm] at hlt ⊢
    exact ⟨k, Finset.mem_range.mpr (hc.lt_blockCount.mpr hlt), rfl⟩

/-- For a positive `file-num` all blocks of the grid are different. -/
theorem FileConfig.Accepted.card_blocks (hc : c.Accepted) (hnum : c.numFiles < 2 ^ 31) (hfile : 0 < c.fileSize) :
    c.blocks.card = c.blockCount := by
  unfold blocks
  rw [Finset.card_image_of_injOn, Finset.card_range]
  intro k hk k' hk' heq
  have hgrid : ∀ k ∈ Finset.range c.blockCount,
      0 ≤ k * c.fileBlockSize / c.fileSize ∧ k * c.fileBlockSize / c.fileSize < 2 ^ 32 := by
    intro k hk
    have hnonneg : 0 ≤ k * c.fileBlockSize := mul_nonneg (Int.natCast_nonneg _) hc.blockSize_pos.le
    have ht : c.OnGrid (k * c.fileBlockSize) := ⟨hnonneg, hc.lt_blockCount.mp (Finset.mem_range.mp hk), dvd_mul_left ..⟩
    have hlt := ht.lt_twice hc hfile
    exact ⟨Int.ediv_nonneg hnonneg hfile.le, by omega⟩
  obtain ⟨h0, hlt⟩ := hgrid k hk
  obtain ⟨h0', hlt'⟩ := hgrid k' hk'
  obtain ⟨hid, hpos⟩ := Prod.mk.inj heq
  have hid : (k * c.fileBlockSize / c.fileSize % 2 ^ 32).toNat = (k' * c.fileBlockSize / c.fileSize % 2 ^ 32).toNat := hid
  have hpos : k * c.fileBlockSize % c.fileSize = k' * c.fileBlockSize % c.fileSize := hpos
  rw [Int.emod_eq_of_lt h0 hlt, Int.emod_eq_of_lt h0' hlt'] at hid
  have hrow : (k * c.fileBlockSize / c.fileSize : ℤ) = k' * c.fileBlockSize / c.fileSize := by omega
  have hsame : (k : ℤ) * c.fileBlockSize = k' * c.fileBlockSize := by
    rw [← Int.mul_ediv_add_emod (k * c.fileBlockSize) c.fileSize, hrow, hpos, Int.mul_ediv_add_emod]
  exact_mod_cast mul_right_cancel₀ hc.blockSize_pos.ne' hsame

end blocks

/-! ### The loop -/

section loop
variable {c : FileConfig} {threadId : ℕ} {operation : SbFileOp} {s : FileState}

theorem blockInUse_iff (t : ℤ) :
    blockInUse c threadId s (blockRequest c operation t) ↔ ∃ i < c.threads, i ≠ threadId ∧ s.perThread i = c.block t := Iff.rfl

/-- There are fewer other threads than blocks, so one is left. -/
theorem exists_free_block (hc : c.Accepted) (hthread : threadId < c.threads) (hcard : c.threads ≤ c.blocks.card) :
    ∃ t, c.OnGrid t ∧ ¬blockInUse c threadId s (blockRequest c operation t) := by
  have hless : (((Finset.range c.threads).erase threadId).image s.perThread).card < c.blocks.card := by
    calc (((Finset.range c.threads).erase threadId).image s.perThread).card
        ≤ ((Finset.range c.threads).erase threadId).card := Finset.card_image_le
      _ = c.threads - 1 := by rw [Finset.card_erase_of_mem (Finset.mem_range.mpr hthread), Finset.card_range]
      _ < c.blocks.card := by omega
  obtain ⟨p, hp, hfree⟩ := Finset.exists_mem_notMem_of_card_lt_card hless
  obtain ⟨t, ht, rfl⟩ := hc.mem_blocks.mp hp
  refine ⟨t, ht, fun huse => hfree ?_⟩
  obtain ⟨i, hi, hne, hi'⟩ := (blockInUse_iff t).mp huse
  exact Finset.mem_image.mpr ⟨i, Finset.mem_erase.mpr ⟨hne, Finset.mem_range.mpr hi⟩, hi'⟩

/-- Where the others have all blocks, no draw ends the loop. -/
theorem drawRequest_stuck (hc : c.Accepted) (hvalidate : c.validate = true) (hfile : c.fileSize ≠ 0)
    (huse : ∀ p ∈ c.blocks, ∃ i < c.threads, i ≠ threadId ∧ s.perThread i = p) {draws : List ℚ}
    (hdraws : ∀ u ∈ draws, 0 ≤ u ∧ u < 1) : drawRequest c threadId operation s draws = .error .drawsUsedUp := by
  induction draws with
  | nil => rfl
  | cons u draws ih =>
    obtain ⟨hu, hdraws⟩ := List.forall_mem_cons.mp hdraws
    have hblock := huse _ (hc.mem_blocks.mpr ⟨_, drawnPosition_onGrid hc hu.1 hu.2, rfl⟩)
    rw [drawRequest, if_neg hfile, if_pos ⟨hvalidate, (blockInUse_iff _).mpr hblock⟩]
    exact ih hdraws

theorem neverStuck_of_card (hc : c.Accepted) (h : c.Random → 0 < c.threads → 0 < c.fileSize ∧ c.threads ≤ c.blocks.card) :
    NeverStuck c := by
  intro hrandom s held threadId hrun hthread hdue
  obtain ⟨hfile, hcard⟩ := h hrandom (by omega)
  obtain ⟨t, ht, hfree⟩ : ∃ t, c.OnGrid t ∧ ¬blockInUse c threadId s (blockRequest c (rndOperation c s) t) :=
    exists_free_block hc hthread hcard
  obtain ⟨h0, h1, hdrawn⟩ := drawnPosition_eq ht
  refine ⟨_, h0, h1, blockRequest c (rndOperation c s) t, ?_⟩
  rw [drawRequest, if_neg hfile.ne', hdrawn, if_neg fun h => hfree h.2]

/-- No call has been made yet, and the table holds anything. -/
def unsetTable (table : ℕ → ℕ × ℤ) : FileState := clearStats (initVars ⟨0, 0, 0, false, 0, 0, 0, 0, table⟩)

theorem unsetTable_run (table : ℕ → ℕ × ℤ) : RndRun c (unsetTable table) fun _ => none := .init _

theorem unsetTable_not_due (table : ℕ → ℕ × ℤ) : ¬RndFsyncDue c (unsetTable table) := by
  rintro ⟨-, hdirty, -⟩
  cases hdirty

theorem NeverStuck.fileSize_pos (hc : c.Accepted) (h : NeverStuck c) (hrandom : c.Random) (hthreads : 0 < c.threads) :
    0 < c.fileSize := by
  refine lt_of_le_of_ne hc.fileSize_nonneg fun hzero => ?_
  obtain ⟨u, -, -, req, hdraw⟩ := h hrandom _ _ 0 (unsetTable_run fun _ => (0, 0)) hthreads (unsetTable_not_due _)
  rw [drawRequest, if_pos hzero.symm] at hdraw
  cases hdraw

/-- The table may hold all blocks before the first call. -/
theorem NeverStuck.card (hc : c.Accepted) (hvalidate : c.validate = true) (h : NeverStuck c) (hrandom : c.Random)
    (hthreads : 0 < c.threads) : c.threads ≤ c.blocks.card := by
  by_contra hless
  let s := unsetTable fun i => (c.blocks.toList[i - 1]?).getD (0, 0)
  have huse : ∀ p ∈ c.blocks, ∃ i < c.threads, i ≠ 0 ∧ s.perThread i = p := by
    intro p hp
    obtain ⟨k, hk, rfl⟩ := List.mem_iff_getElem.mp (Finset.mem_toList.mpr hp)
    have hlen := Finset.length_toList c.blocks
    refine ⟨k + 1, by omega, by omega, ?_⟩
    show (c.blocks.toList[k]?).getD (0, 0) = _
    rw [List.getElem?_eq_getElem hk, Option.getD_some]
  have hfile := (h.fileSize_pos hc hrandom hthreads).ne'
  obtain ⟨u, h0, h1, req, hdraw⟩ := h hrandom s _ 0 (unsetTable_run _) hthreads (unsetTable_not_due _)
  rw [drawRequest_stuck hc hvalidate hfile huse (by simpa using ⟨h0, h1⟩)] at hdraw
  cases hdraw

end loop

/-- In validation mode a thread can always go on if and only if there are at most as many threads as different blocks. For a
positive `file-num` these are all blocks of the total size. -/
theorem neverStuck_iff {build : FileBuild} {g : FileGlobals} {args : FileArgs} {c : FileConfig}
    (hparse : parseArguments build g args = .ok c) (hvalidate : g.validate = true) :
    (NeverStuck c ↔ (c.Random → 0 < c.threads → 0 < c.fileSize ∧ c.threads ≤ c.blocks.card)) ∧
    (0 < args.fileNum.toInt → (NeverStuck c ↔ (c.Random → 0 < c.threads →
      (c.numFiles : ℤ) ≤ c.totalSize ∧ (c.threads - 1) * c.fileBlockSize < c.totalSize))) := by
  obtain ⟨hc, -, hv, hnum⟩ := parseArguments_accepted hparse
  have hiff : NeverStuck c ↔ (c.Random → 0 < c.threads → 0 < c.fileSize ∧ c.threads ≤ c.blocks.card) :=
    ⟨fun h hrandom hthreads => ⟨h.fileSize_pos hc hrandom hthreads, h.card hc (hv.trans hvalidate) hrandom hthreads⟩,
      neverStuck_of_card hc⟩
  refine ⟨hiff, fun hpos => hiff.trans (forall₂_congr fun _ hthreads => ?_)⟩
  rw [hc.fileSize_pos_iff]
  refine and_congr_right fun hle => ?_
  rw [hc.card_blocks (hnum ▸ toNat_toUInt32_lt hpos) (hc.fileSize_pos_iff.mpr hle)]
  obtain ⟨k, hk⟩ : ∃ k, c.threads = k + 1 := ⟨c.threads - 1, by omega⟩
  rw [hk, Nat.succ_le_iff, hc.lt_blockCount]
  simp

/-- `--file-num=1 --file-total-size=1 --file-block-size=1 --threads=2 --validate`. -/
def oneBlock : FileConfig :=
  { threeFiles with threads := 2, validate := true, numFiles := 1, totalSize := 1, fileSize := 1 }

theorem parse_oneBlock : parseArguments ⟨true, true, true⟩ ⟨"run", 2, true⟩
    { threeFilesArgs with fileNum := 1, fileTotalSize := 1 } = .ok oneBlock := by
  decide +kernel

/-- The first thread has drawn the only block, and the second draws for ever. -/
theorem not_neverStuck : parseArguments ⟨true, true, true⟩ ⟨"run", 2, true⟩
      { threeFilesArgs with fileNum := 1, fileTotalSize := 1 } = .ok oneBlock ∧
    (∃ s held, RndRun oneBlock s held ∧ held 0 = some ⟨0, 0, 1, .read⟩ ∧ ¬RndFsyncDue oneBlock s ∧
      ∀ draws : List ℚ, (∀ u ∈ draws, 0 ≤ u ∧ u < 1) →
        drawRequest oneBlock 1 (rndOperation oneBlock s) s draws = .error .drawsUsedUp) ∧
    ¬NeverStuck oneBlock := by
  have hc := (parseArguments_accepted parse_oneBlock).1
  have hdrawn : drawnPosition oneBlock 0 = 0 := by decide +kernel
  let s := unsetTable fun _ => (7, 0)
  have hget : fileGetRndRequest oneBlock 0 [0] s = .ok (⟨0, 0, 1, .read⟩, s.drawn 0 ⟨0, 0, 1, .read⟩) := by
    rw [fileGetRndRequest_drawn (unsetTable_not_due _)]
    simp only [drawRequest, hdrawn]
    rfl
  have hrun := (unsetTable_run fun _ => (7, 0)).request (show 0 < oneBlock.threads by decide) (by simp) hget
  have hdue : ¬RndFsyncDue oneBlock (s.drawn 0 ⟨0, 0, 1, .read⟩) := by
    rintro ⟨-, hdirty, -⟩
    cases hdirty
  have huse : ∀ p ∈ oneBlock.blocks, ∃ i < oneBlock.threads, i ≠ 1 ∧ (s.drawn 0 ⟨0, 0, 1, .read⟩).perThread i = p := by
    intro p hp
    have hp : p = (0, 0) := by
      have hblocks : oneBlock.blocks = {(0, 0)} := by decide +kernel
      rwa [hblocks, Finset.mem_singleton] at hp
    exact ⟨0, by decide, zero_ne_one, hp ▸ rfl⟩
  have hstuck : ∀ draws : List ℚ, (∀ u ∈ draws, 0 ≤ u ∧ u < 1) →
      drawRequest oneBlock 1 (rndOperation oneBlock (s.drawn 0 ⟨0, 0, 1, .read⟩)) (s.drawn 0 ⟨0, 0, 1, .read⟩) draws =
        .error .drawsUsedUp := fun draws hdraws => drawRequest_stuck hc rfl (by decide) huse hdraws
  refine ⟨parse_oneBlock, ⟨_, _, hrun, rfl, hdue, hstuck⟩, fun h => ?_⟩
  obtain ⟨u, h0, h1, req, hdraw⟩ := h (by decide) _ _ 1 hrun (by decide) hdue
  rw [hstuck [u] (by simpa using ⟨h0, h1⟩)] at hdraw
  cases hdraw

theorem neverStuck_iff_two : parseArguments ⟨true, true, true⟩ ⟨"run", 2, true⟩
      { threeFilesArgs with fileNum := 1, fileTotalSize := 2 } = .ok { oneBlock with totalSize := 2, fileSize := 2 } ∧
    NeverStuck { oneBlock with totalSize := 2, fileSize := 2 } := by
  have hparse : parseArguments ⟨true, true, true⟩ ⟨"run", 2, true⟩
      { threeFilesArgs with fileNum := 1, fileTotalSize := 2 } = .ok { oneBlock with totalSize := 2, fileSize := 2 } := by
    decide +kernel
  exact ⟨hparse, ((neverStuck_iff hparse rfl).2 (by decide)).mpr fun _ _ => by decide⟩

end NuKSM.Sysbench
