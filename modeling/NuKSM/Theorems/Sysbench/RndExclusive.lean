import NuKSM.Theorems.Sysbench.RndRequests

/-! # Threads that use different blocks

In validation mode a thread draws again while its block is that of another thread. Blocks of the grid are told apart by file
and position, and two blocks of one file with different positions lie a whole block apart. -/

namespace NuKSM.Sysbench

/-- The requests have no byte in common. -/
def SbFileRequest.Disjoint (r r' : SbFileRequest) : Prop :=
  r.fileId ≠ r'.fileId ∨ r.pos + r.size ≤ r'.pos ∨ r'.pos + r'.size ≤ r.pos

/-- The request is for a block of the grid. -/
def FileConfig.Draws (c : FileConfig) (req : SbFileRequest) : Prop := ∃ t, c.OnGrid t ∧ req = blockRequest c req.operation t

section grid
variable {c : FileConfig}

/-- Blocks of one row that do not start at the same position do not overlap. -/
theorem block_le_of_lt {b f t t' : ℤ} (ht : b ∣ t) (ht' : b ∣ t') (hrow : t / f = t' / f) (hlt : t % f < t' % f) :
    t % f + b ≤ t' % f := by
  have hsub : t' - t = t' % f - t % f := by
    have h := Int.mul_ediv_add_emod t f
    have h' := Int.mul_ediv_add_emod t' f
    rw [← hrow] at h'
    omega
  have := Int.le_of_dvd (by omega) (hsub ▸ Int.dvd_sub ht' ht)
  omega

/-- Where the files have the total size, no file number wraps. -/
theorem FileConfig.OnGrid.file_lt (hc : c.Accepted) (hdvd : c.totalSize % c.numFiles = 0) {t : ℤ} (ht : c.OnGrid t) :
    0 < c.fileSize ∧ 0 ≤ t / c.fileSize ∧ t / c.fileSize < c.numFiles := by
  have hnum : (0 : ℤ) < c.numFiles := by exact_mod_cast hc.numFiles_pos
  have htotal : c.numFiles * c.fileSize = c.totalSize := by
    rw [hc.fileSize_eq]
    exact Int.mul_ediv_cancel' (Int.dvd_of_emod_eq_zero hdvd)
  have hfile : 0 < c.fileSize := by
    by_contra hnot
    have := hc.totalSize_pos
    nlinarith
  refine ⟨hfile, Int.ediv_nonneg ht.nonneg hfile.le, ?_⟩
  rw [Int.ediv_lt_iff_lt_mul hfile, htotal]
  exact ht.lt

theorem FileConfig.Draws.disjoint (hc : c.Accepted) (hdvd : c.totalSize % c.numFiles = 0) {r r' : SbFileRequest}
    (hr : c.Draws r) (hr' : c.Draws r') (hne : (r.fileId, r.pos) ≠ (r'.fileId, r'.pos)) : r.Disjoint r' := by
  obtain ⟨t, ht, heq⟩ := hr
  obtain ⟨t', ht', heq'⟩ := hr'
  obtain ⟨hfile, h0, hlt⟩ := ht.file_lt hc hdvd
  obtain ⟨-, h0', hlt'⟩ := ht'.file_lt hc hdvd
  have hnumFiles := hc.numFiles_lt
  rw [heq, heq'] at hne ⊢
  by_cases hrow : t / c.fileSize = t' / c.fileSize
  · refine Or.inr ?_
    have hpos : t % c.fileSize ≠ t' % c.fileSize := fun h => hne (by simp only [blockRequest, hrow, h])
    show t % c.fileSize + min c.fileBlockSize _ ≤ t' % c.fileSize ∨ t' % c.fileSize + min c.fileBlockSize _ ≤ t % c.fileSize
    rcases lt_or_gt_of_ne hpos with h | h
    · have := block_le_of_lt ht.dvd ht'.dvd hrow h
      omega
    · have := block_le_of_lt ht'.dvd ht.dvd hrow.symm h
      omega
  · refine Or.inl fun hid => hrow ?_
    have hid : (t / c.fileSize % 2 ^ 32).toNat = (t' / c.fileSize % 2 ^ 32).toNat := hid
    rw [Int.emod_eq_of_lt h0 (by omega), Int.emod_eq_of_lt h0' (by omega)] at hid
    omega

end grid

/-! ### The table of the threads -/

/-- The table holds the block of each thread that has one, and no two threads have the same. -/
structure Exclusive (c : FileConfig) (s : FileState) (held : ℕ → Option SbFileRequest) : Prop where
  lt : ∀ i r, held i = some r → i < c.threads
  table : ∀ i r, held i = some r → s.perThread i = (r.fileId, r.pos)
  draws : ∀ i r, held i = some r → c.Draws r
  distinct : ∀ i j r r', i ≠ j → held i = some r → held j = some r' → (r.fileId, r.pos) ≠ (r'.fileId, r'.pos)

theorem Exclusive.drawn {c : FileConfig} {s : FileState} {held : ℕ → Option SbFileRequest} {threadId : ℕ} {req : SbFileRequest}
    (h : Exclusive c s held) (hthread : threadId < c.threads) (hdraws : c.Draws req) (hfree : ¬blockInUse c threadId s req) :
    Exclusive c (s.drawn threadId req) (Function.update held threadId (some req)) := by
  -- The block of another thread is in the table, so the request is for another block.
  have hother : ∀ j r, j ≠ threadId → held j = some r → (req.fileId, req.pos) ≠ (r.fileId, r.pos) := fun j r hj hr heq =>
    hfree ⟨j, h.lt j r hr, hj, (h.table j r hr).trans heq.symm⟩
  have hcases : ∀ j r, Function.update held threadId (some req) j = some r → (j = threadId ∧ r = req) ∨ (j ≠ threadId ∧ held j = some r) := by
    intro j r hr
    rcases eq_or_ne j threadId with rfl | hne
    · rw [Function.update_self] at hr
      exact Or.inl ⟨rfl, (Option.some.inj hr).symm⟩
    · rw [Function.update_of_ne hne] at hr
      exact Or.inr ⟨hne, hr⟩
  refine ⟨fun j r hr => ?_, fun j r hr => ?_, fun j r hr => ?_, fun i j r r' hij hr hr' => ?_⟩
  · rcases hcases j r hr with ⟨rfl, rfl⟩ | ⟨hne, hr⟩
    · exact hthread
    · exact h.lt j r hr
  · show Function.update s.perThread threadId (req.fileId, req.pos) j = _
    rcases hcases j r hr with ⟨rfl, rfl⟩ | ⟨hne, hr⟩
    · exact Function.update_self ..
    · rw [Function.update_of_ne hne]
      exact h.table j r hr
  · rcases hcases j r hr with ⟨rfl, rfl⟩ | ⟨hne, hr⟩
    · exact hdraws
    · exact h.draws j r hr
  · rcases hcases i r hr with ⟨rfl, rfl⟩ | ⟨hi, hri⟩
    · rcases hcases j r' hr' with ⟨rfl, rfl⟩ | ⟨hj, hrj⟩
      · exact absurd rfl hij
      · exact hother j r' hj hrj
    · rcases hcases j r' hr' with ⟨rfl, rfl⟩ | ⟨hj, hrj⟩
      · exact (hother i r hi hri).symm
      · exact h.distinct i j r r' hij hri hrj

theorem RndRun.exclusive {c : FileConfig} (hc : c.Accepted) (hvalidate : c.validate = true) {s : FileState}
    {held : ℕ → Option SbFileRequest} (h : RndRun c s held) : Exclusive c s held := by
  induction h with
  | init s => exact ⟨nofun, nofun, nofun, nofun⟩
  | @request s s' held threadId draws req hs hthread hdraws hget ih =>
    rcases fileGetRndRequest_cases hget with ⟨-, heq⟩ | ⟨-, hdraw, hop, rfl⟩
    · -- An `fsync` request changes neither the table nor what is held.
      obtain ⟨rfl, rfl⟩ := Prod.mk.inj heq
      rw [if_pos rfl]
      refine ⟨ih.lt, fun i r hr => ?_, ih.draws, ih.distinct⟩
      rw [← ih.table i r hr]
      split <;> rfl
    · obtain ⟨-, ⟨t, ht, heq⟩, hfree⟩ := drawRequest_ok hc hdraws hdraw
      rw [if_neg (hop ▸ rndOperation_ne_fsync c s)]
      exact ih.drawn hthread ⟨t, ht, hop ▸ heq⟩ (hfree hvalidate)
  | finished readOps writeOps otherOps hs ih => exact ⟨ih.lt, ih.table, ih.draws, ih.distinct⟩

/-- In validation mode, where the total size is a multiple of the number of files, two threads never hold overlapping
blocks. -/
theorem rndRun_disjoint {build : FileBuild} {g : FileGlobals} {args : FileArgs} {c : FileConfig} {s : FileState}
    {held : ℕ → Option SbFileRequest} (hparse : parseArguments build g args = .ok c) (hvalidate : g.validate = true)
    (hdvd : c.totalSize % c.numFiles = 0) (hrun : RndRun c s held) {i j : ℕ} {r r' : SbFileRequest} (hij : i ≠ j)
    (hi : held i = some r) (hj : held j = some r') : r.Disjoint r' := by
  obtain ⟨hc, -, hv, -⟩ := parseArguments_accepted hparse
  have h := hrun.exclusive hc (hv.trans hvalidate)
  exact (h.draws i r hi).disjoint hc hdvd (h.draws j r' hj) (h.distinct i j r r' hij hi hj)

/-- `--file-num=3 --file-total-size=99 --file-block-size=1 --threads=2 --validate`. -/
def twoThreads : FileConfig := { threeFiles with threads := 2, validate := true, totalSize := 99 }

theorem parse_twoThreads : parseArguments ⟨true, true, true⟩ ⟨"run", 2, true⟩ { threeFilesArgs with fileTotalSize := 99 } =
    .ok twoThreads := by
  decide +kernel

/-- Two threads draw the first block, and the second draws again. -/
theorem rndRun_disjoint_two : ∃ s held r r', RndRun twoThreads s held ∧ held 0 = some r ∧ held 1 = some r' ∧ r.Disjoint r' := by
  have hfirst : ∀ u ∈ [(0 : ℚ)], 0 ≤ u ∧ u < 1 := by simp
  have hsecond : ∀ u ∈ [(0 : ℚ), 1 / 2], 0 ≤ u ∧ u < 1 := by
    simp only [List.mem_cons, List.not_mem_nil, or_false, forall_eq_or_imp, forall_eq]
    norm_num
  have hdrawn : drawnPosition twoThreads 0 = 0 ∧ drawnPosition twoThreads (1 / 2) = 49 := by decide +kernel
  have hinit : RndRun twoThreads _ _ := .init ⟨0, 0, 0, false, 0, 0, 0, 0, fun _ => (7, 0)⟩
  have hone := hinit.request (show 0 < 2 by decide) hfirst
    (by rw [fileGetRndRequest, if_neg (by decide)]; simp only [drawRequest, hdrawn]; rfl)
  have htwo := hone.request (show 1 < 2 by decide) hsecond
    (by rw [fileGetRndRequest, if_neg (by decide)]; simp only [drawRequest, hdrawn]; rfl)
  exact ⟨_, _, _, _, htwo, rfl, rfl, rndRun_disjoint parse_twoThreads rfl (by decide) htwo zero_ne_one rfl rfl⟩

end NuKSM.Sysbench
