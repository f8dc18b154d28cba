import NuKSM.Sysbench.SeqCheck
import NuKSM.Theorems.Sysbench.FileConfig
import NuKSM.Theorems.Sysbench.SeqRequests

/-! # What the check of sequential requests finds

A series of requests that `check_seq_req` says nothing about runs through the bytes of the files without a gap and without
going back, so it reports every request that does not. The requests of `file_get_seq_request` pass, unless there is only one
file: then the first request of the second pass is in the same file as the one before. -/

namespace NuKSM.Sysbench
open Tiling

/-- The request stays in one of the files. -/
structure SbFileRequest.InFiles (c : FileConfig) (r : SbFileRequest) : Prop where
  operation : r.operation ≠ .null
  fileId_lt : r.fileId < c.numFiles
  pos_nonneg : 0 ≤ r.pos
  size_nonneg : 0 ≤ r.size
  end_le : r.pos + r.size ≤ c.fileSize

/-- The requests that read or write go through the bytes of the files in order, from the first file again after the last. -/
def Contiguous (c : FileConfig) (reqs : List SbFileRequest) : Prop :=
  ∃ b, (transfers reqs).flatMap (·.bytes) = (List.range (totalSize (transfers reqs))).map fun k => byteAt c (b + k)

/-- Some calls with the check: the requests, the state, `prev_req` and the warnings. -/
structure SeqRun where
  reqs : List SbFileRequest
  state : FileState
  prev : SbFileRequest
  warnings : List String

/-- The first calls after `init_vars`. -/
def seqChecked (c : FileConfig) (s : FileState) : ℕ → SeqRun
  | 0 => ⟨[], initVars s, nullRequest, []⟩
  | n + 1 =>
    let run := seqChecked c s n
    let (req, state, prev, warnings) := fileGetCheckedRequest c run.prev run.state
    ⟨run.reqs ++ [req], state, prev, run.warnings ++ warnings⟩

/-- The check has nothing to say about the requests that are made, and it reports a series in which one of them is replaced
by a request that leaves bytes out or repeats them. -/
structure ChecksSequence (c : FileConfig) : Prop where
  quiet : ∀ s n, (seqChecked c s n).warnings = []
  alert : ∀ s n i r, i < n → r.InFiles c → ¬Contiguous c ((seqRequests c s n).1.set i r) →
    checkSeqReqs c nullRequest ((seqRequests c s n).1.set i r) ≠ []

section check
variable {c : FileConfig} {prev r : SbFileRequest}

/-! ### A request that passes -/

/-- The byte `b` of the passes through the files is where the request starts. -/
def StartsAt (c : FileConfig) (r : SbFileRequest) (b : ℕ) : Prop :=
  ∃ pass : ℕ, b = (pass * c.numFiles + r.fileId) * c.fileSize.toNat + r.pos.toNat

theorem StartsAt.bytes {b : ℕ} (hr : r.InFiles c) (h : StartsAt c r b) :
    r.bytes = (List.range r.size.toNat).map fun k => byteAt c (b + k) := by
  obtain ⟨pass, rfl⟩ := h
  exact SbFileRequest.bytes_eq pass hr.fileId_lt hr.pos_nonneg hr.size_nonneg hr.end_le

/-- A request that passes the check starts at the byte after the last one. -/
theorem StartsAt.next {b : ℕ} (hnum : c.numFiles < 2 ^ 32) (hprev : prev.InFiles c) (hr : r.InFiles c) (hop : r.operation ≠ .fsync)
    (hcheck : checkSeqReq c prev r = []) (h : StartsAt c prev b) : StartsAt c r (b + prev.size.toNat) := by
  obtain ⟨pass, rfl⟩ := h
  have hfile := hr.fileId_lt
  have hfile' := hprev.fileId_lt
  have hpos := hprev.pos_nonneg
  have hsize := hprev.size_nonneg
  unfold checkSeqReq at hcheck
  rw [if_neg (by simp [hop, hr.operation]), if_neg hprev.operation] at hcheck
  split at hcheck
  · cases hcheck
  rename_i hnear
  split at hcheck
  · rename_i hsame
    split at hcheck
    · cases hcheck
    rename_i hdiff
    refine ⟨pass, ?_⟩
    rw [hsame]
    omega
  · rename_i hswitch
    split at hcheck
    · cases hcheck
    rename_i hends
    obtain ⟨hend, hzero⟩ : prev.pos + prev.size = c.fileSize ∧ r.pos = 0 := by
      push Not at hends
      exact hends
    have hbyte : prev.pos.toNat + prev.size.toNat = c.fileSize.toNat := by omega
    by_cases hnext : r.fileId = prev.fileId + 1
    · refine ⟨pass, ?_⟩
      rw [hnext, hzero, add_assoc, hbyte]
      simp only [Int.toNat_zero]
      ring
    · -- The difference of the files is unsigned, so only the last file and the first are left.
      have hrewind : r.fileId = 0 ∧ prev.fileId + 1 = c.numFiles := by omega
      refine ⟨pass + 1, ?_⟩
      rw [hrewind.1, hzero, add_assoc, hbyte, ← hrewind.2]
      simp only [Int.toNat_zero]
      ring

/-! ### A series that passes -/

variable {reqs : List SbFileRequest} {b : ℕ}

theorem transfers_cons_fsync (h : r.operation = .fsync) : transfers (r :: reqs) = transfers reqs := by
  simp [transfers, h]

theorem StartsAt.bytes_cons (hr : r.InFiles c) (hop : r.operation ≠ .fsync) (h : StartsAt c r b)
    (hrest : (transfers reqs).flatMap (·.bytes) =
      (List.range (totalSize (transfers reqs))).map fun k => byteAt c (b + r.size.toNat + k)) :
    (transfers (r :: reqs)).flatMap (·.bytes) =
      (List.range (totalSize (transfers (r :: reqs)))).map fun k => byteAt c (b + k) := by
  have htransfers : transfers (r :: reqs) = r :: transfers reqs := by simp [transfers, hop]
  have htotal : totalSize (r :: transfers reqs) = r.size.toNat + totalSize (transfers reqs) := by simp [totalSize]
  rw [htransfers, List.flatMap_cons, hrest, h.bytes hr, htotal, List.range_add, List.map_append, List.map_map]
  refine congrArg _ (List.map_congr_left fun k _ => ?_)
  rw [Function.comp_apply, add_assoc b]

theorem bytes_of_checked (hnum : c.numFiles < 2 ^ 32) (hreqs : ∀ r ∈ reqs, r.InFiles c) (hprev : prev.InFiles c)
    (hcheck : checkSeqReqs c prev reqs = []) (h : StartsAt c prev b) :
    (transfers reqs).flatMap (·.bytes) =
      (List.range (totalSize (transfers reqs))).map fun k => byteAt c (b + prev.size.toNat + k) := by
  induction reqs generalizing prev b with
  | nil => rfl
  | cons r reqs ih =>
    obtain ⟨hr, hreqs⟩ := List.forall_mem_cons.mp hreqs
    rw [checkSeqReqs] at hcheck
    split at hcheck
    · rename_i hop
      rw [transfers_cons_fsync hop]
      exact ih hreqs hprev hcheck h
    · rename_i hop
      obtain ⟨hthis, hrest⟩ := List.append_eq_nil_iff.mp hcheck
      have hstart := h.next hnum hprev hr hop hthis
      exact hstart.bytes_cons hr hop (ih hreqs hr hrest hstart)

/-- A series of requests that the check says nothing about leaves no bytes out and repeats none. -/
theorem contiguous_of_checked (hnum : c.numFiles < 2 ^ 32) (hreqs : ∀ r ∈ reqs, r.InFiles c)
    (hcheck : checkSeqReqs c nullRequest reqs = []) : Contiguous c reqs := by
  induction reqs with
  | nil => exact ⟨0, rfl⟩
  | cons r reqs ih =>
    obtain ⟨hr, hreqs⟩ := List.forall_mem_cons.mp hreqs
    rw [checkSeqReqs] at hcheck
    split at hcheck
    · rename_i hop
      unfold Contiguous
      rw [transfers_cons_fsync hop]
      exact ih hreqs hcheck
    · rename_i hop
      -- The first request is not checked against anything.
      have hstart : StartsAt c r (r.fileId * c.fileSize.toNat + r.pos.toNat) := ⟨0, by simp⟩
      have hrest := bytes_of_checked hnum hreqs hr (List.append_eq_nil_iff.mp hcheck).2 hstart
      exact ⟨_, hstart.bytes_cons hr hop hrest⟩

end check

/-! ### The requests of the generator -/

section generator
variable {c : FileConfig} {s : FileState} {prev : SbFileRequest}

/-- Where the generator goes on after `prev`. -/
structure SeqPlace (c : FileConfig) (prev : SbFileRequest) (s : FileState) : Prop where
  position_nonneg : 0 ≤ s.position
  position_lt : s.position < c.fileSize
  currentFile_le : s.currentFile ≤ c.numFiles
  rewound : s.currentFile = c.numFiles → s.position = 0
  fsynced_lt : s.fsyncedFile < c.numFiles
  first : prev.operation = .null → s.currentFile = 0 ∧ s.position = 0
  inFiles : prev.operation ≠ .null → prev.InFiles c
  whole : prev.operation ≠ .null → prev.pos + prev.size = c.fileSize → s.currentFile = prev.fileId + 1 ∧ s.position = 0
  part : prev.operation ≠ .null → prev.pos + prev.size ≠ c.fileSize →
    s.currentFile = prev.fileId ∧ s.position = prev.pos + prev.size

theorem SeqPlace.init (hnum : 1 ≤ c.numFiles) (hfile : 1 ≤ c.fileSize) (s : FileState) : SeqPlace c nullRequest (initVars s) where
  position_nonneg := le_rfl
  position_lt := by
    show (0 : ℤ) < _
    omega
  currentFile_le := Nat.zero_le _
  rewound := fun _ => rfl
  fsynced_lt := hnum
  first := fun _ => ⟨rfl, rfl⟩
  inFiles := fun h => absurd rfl h
  whole := fun h => absurd rfl h
  part := fun h => absurd rfl h

theorem SeqPlace.fsync (h : SeqPlace c prev s) : SeqPlace c prev (fsyncRequest c s).2 := by
  obtain ⟨-, hposition, hcurrent, -⟩ := fsyncRequest_kept c s
  have hsynced : (fsyncRequest c s).2.fsyncedFile < c.numFiles := by
    have := h.fsynced_lt
    unfold fsyncRequest
    split
    · exact Nat.zero_lt_of_lt this
    · show s.fsyncedFile + 1 < _
      omega
  refine ⟨?_, ?_, ?_, ?_, hsynced, ?_, h.inFiles, ?_, ?_⟩ <;> simp only [hposition, hcurrent]
  · exact h.position_nonneg
  · exact h.position_lt
  · exact h.currentFile_le
  · exact h.rewound
  · exact h.first
  · exact h.whole
  · exact h.part

/-- The next request that reads or writes starts where the generator is, and the generator goes on behind it. -/
theorem SeqPlace.transfer (hnum : 1 ≤ c.numFiles) (hfile : 1 ≤ c.fileSize) (hsize : 0 ≤ c.fileRequestSize) (h : SeqPlace c prev s)
    (hnot : ¬FsyncDue c s) :
    (fileGetSeqRequest c s).1.InFiles c ∧ (fileGetSeqRequest c s).1.operation ≠ .fsync ∧
      seqStart c s = ((fileGetSeqRequest c s).1.pos, (fileGetSeqRequest c s).1.fileId) ∧
      (fileGetSeqRequest c s).1.pos < c.fileSize ∧
      (fileGetSeqRequest c s).1.size = min c.fileRequestSize (c.fileSize - (fileGetSeqRequest c s).1.pos) ∧
      SeqPlace c (fileGetSeqRequest c s).1 (fileGetSeqRequest c s).2 := by
  have hnonneg := h.position_nonneg
  have hlt := h.position_lt
  have hle := h.currentFile_le
  have hsynced := h.fsynced_lt
  obtain ⟨position, currentFile, hstart, hpos, hposlt, hcur⟩ : ∃ (position : ℤ) (currentFile : ℕ),
      seqStart c s = (position, currentFile) ∧ 0 ≤ position ∧ position < c.fileSize ∧ currentFile < c.numFiles := by
    by_cases hwrap : s.currentFile = c.numFiles
    · exact ⟨0, 0, if_pos hwrap, le_rfl, by omega, by omega⟩
    · exact ⟨s.position, s.currentFile, if_neg hwrap, hnonneg, hlt, by omega⟩
  rw [fileGetSeqRequest_next hnot hstart]
  have hop : (if c.Writes then SbFileOp.write else .read) ≠ .null ∧ (if c.Writes then SbFileOp.write else .read) ≠ .fsync := by
    split <;> decide
  generalize hmin : min c.fileRequestSize (c.fileSize - position) = size
  have hin : SbFileRequest.InFiles c ⟨currentFile, position, size, if c.Writes then .write else .read⟩ :=
    ⟨hop.1, hcur, hpos, by show 0 ≤ size; omega, by show position + size ≤ _; omega⟩
  refine ⟨hin, hop.2, hstart, hposlt, rfl, ?_⟩
  by_cases hdone : position + size = c.fileSize
  · refine ⟨?_, ?_, ?_, ?_, hsynced, fun hnull => absurd hnull hop.1, fun _ => hin, fun _ _ => ?_,
      fun _ hpart => absurd hdone hpart⟩ <;>
      simp only [if_pos hdone]
    · exact le_rfl
    · omega
    · omega
    · exact fun _ => trivial
    · exact ⟨trivial, trivial⟩
  · refine ⟨?_, ?_, ?_, ?_, hsynced, fun hnull => absurd hnull hop.1, fun _ => hin, fun _ hwhole => absurd hwhole hdone,
      fun _ _ => ?_⟩ <;>
      simp only [if_neg hdone]
    · omega
    · omega
    · omega
    · exact fun heq => absurd heq hcur.ne
    · exact ⟨trivial, trivial⟩

variable {r : SbFileRequest}

/-- The next request passes, unless the generator goes back to the file where it was. -/
theorem SeqPlace.check_iff (hnum : 1 ≤ c.numFiles) (hnum' : c.numFiles < 2 ^ 32) (hfile : 1 ≤ c.fileSize) (h : SeqPlace c prev s)
    (hr : r.InFiles c) (hop : r.operation ≠ .fsync) (hstart : seqStart c s = (r.pos, r.fileId)) :
    checkSeqReq c prev r = [] ↔ (2 ≤ c.numFiles ∨ s.currentFile ≠ c.numFiles) := by
  unfold checkSeqReq
  rw [if_neg (by simp [hop, hr.operation])]
  by_cases hnull : prev.operation = .null
  · have := (h.first hnull).1
    rw [if_pos hnull]
    exact ⟨fun _ => Or.inr (by omega), fun _ => rfl⟩
  rw [if_neg hnull]
  have hin := h.inFiles hnull
  have hid := hin.fileId_lt
  unfold seqStart at hstart
  by_cases hend : prev.pos + prev.size = c.fileSize
  · obtain ⟨hcurrent, hposition⟩ := h.whole hnull hend
    by_cases hwrap : s.currentFile = c.numFiles
    · rw [if_pos hwrap] at hstart
      obtain ⟨hpos, hfileId⟩ := Prod.mk.inj hstart
      rw [if_neg (by omega)]
      by_cases hsame : r.fileId = prev.fileId
      · have hdiff : r.pos - prev.pos ≠ prev.size := by omega
        rw [if_pos hsame, if_pos hdiff]
        exact ⟨fun h => absurd h (List.cons_ne_nil _ _), fun h => by omega⟩
      · rw [if_neg hsame, if_neg (by omega)]
        exact ⟨fun _ => Or.inl (by omega), fun _ => rfl⟩
    · rw [if_neg hwrap] at hstart
      obtain ⟨hpos, hfileId⟩ := Prod.mk.inj hstart
      rw [if_neg (by omega), if_neg (by omega), if_neg (by omega)]
      exact ⟨fun _ => Or.inr hwrap, fun _ => rfl⟩
  · obtain ⟨hcurrent, hposition⟩ := h.part hnull hend
    have hwrap : s.currentFile ≠ c.numFiles := by omega
    rw [if_neg hwrap] at hstart
    obtain ⟨hpos, hfileId⟩ := Prod.mk.inj hstart
    rw [if_neg (by omega), if_pos (by omega), if_neg (by omega)]
    exact ⟨fun _ => Or.inr hwrap, fun _ => rfl⟩

/-! ### Runs -/

theorem seqChecked_fsync {n : ℕ} (h : FsyncDue c (seqChecked c s n).state) :
    seqChecked c s (n + 1) =
      { reqs := (seqChecked c s n).reqs ++ [(fsyncRequest c (seqChecked c s n).state).1]
        state := (fsyncRequest c (seqChecked c s n).state).2
        prev := (seqChecked c s n).prev
        warnings := (seqChecked c s n).warnings } := by
  have hnot : ¬((fsyncRequest c (seqChecked c s n).state).1.operation ≠ .fsync ∧ c.validate) := fun hno => hno.1 rfl
  rw [seqChecked, fileGetCheckedRequest, fileGetSeqRequest_fsync h]
  dsimp only
  rw [if_neg hnot]
  simp

theorem seqChecked_transfer {n : ℕ} (hvalidate : c.validate = true)
    (hop : (fileGetSeqRequest c (seqChecked c s n).state).1.operation ≠ .fsync) :
    seqChecked c s (n + 1) =
      { reqs := (seqChecked c s n).reqs ++ [(fileGetSeqRequest c (seqChecked c s n).state).1]
        state := (fileGetSeqRequest c (seqChecked c s n).state).2
        prev := (fileGetSeqRequest c (seqChecked c s n).state).1
        warnings := (seqChecked c s n).warnings ++
          checkSeqReq c (seqChecked c s n).prev (fileGetSeqRequest c (seqChecked c s n).state).1 } := by
  rw [seqChecked, fileGetCheckedRequest]
  dsimp only
  rw [if_pos ⟨hop, hvalidate⟩]

/-- What holds after each call. -/
structure SeqRunInv (c : FileConfig) (s : FileState) (n : ℕ) (run : SeqRun) : Prop where
  place : SeqPlace c run.prev run.state
  requests : seqRequests c s n = (run.reqs, run.state)
  inFiles : ∀ r ∈ run.reqs, r.InFiles c

theorem seqChecked_inv (hvalidate : c.validate = true) (hnum : 1 ≤ c.numFiles) (hfile : 1 ≤ c.fileSize)
    (hsize : 0 ≤ c.fileRequestSize) (s : FileState) (n : ℕ) : SeqRunInv c s n (seqChecked c s n) := by
  induction n with
  | zero => exact ⟨.init hnum hfile s, rfl, fun r hr => absurd hr List.not_mem_nil⟩
  | succ n ih =>
    obtain ⟨hplace, hreqs, hin⟩ := ih
    by_cases hdue : FsyncDue c (seqChecked c s n).state
    · rw [seqChecked_fsync hdue]
      refine ⟨hplace.fsync, ?_, ?_⟩
      · rw [seqRequests, hreqs]
        dsimp only
        rw [fileGetSeqRequest_fsync hdue]
      · refine List.forall_mem_append.mpr ⟨hin, List.forall_mem_singleton.mpr ?_⟩
        exact ⟨by show SbFileOp.fsync ≠ .null; decide, hplace.fsynced_lt, le_rfl, le_rfl, by show (0 : ℤ) + 0 ≤ _; omega⟩
    · obtain ⟨hr, hop, -, -, -, hnext⟩ := hplace.transfer hnum hfile hsize hdue
      rw [seqChecked_transfer hvalidate hop]
      refine ⟨hnext, ?_, List.forall_mem_append.mpr ⟨hin, List.forall_mem_singleton.mpr hr⟩⟩
      rw [seqRequests, hreqs]

/-- A request of no bytes does not get to the end of a file. -/
theorem currentFile_lt_of_empty (hvalidate : c.validate = true) (hnum : 1 ≤ c.numFiles) (hfile : 1 ≤ c.fileSize)
    (hempty : c.fileRequestSize = 0) (s : FileState) (n : ℕ) : (seqChecked c s n).state.currentFile < c.numFiles := by
  induction n with
  | zero => exact hnum
  | succ n ih =>
    have hplace := (seqChecked_inv hvalidate hnum hfile hempty.ge s n).place
    by_cases hdue : FsyncDue c (seqChecked c s n).state
    · rw [seqChecked_fsync hdue]
      dsimp only
      rwa [(fsyncRequest_kept c _).2.2.1]
    · obtain ⟨hr, hop, -, hposlt, hsize, hnext⟩ := hplace.transfer hnum hfile hempty.ge hdue
      rw [seqChecked_transfer hvalidate hop]
      have hfileId := hr.fileId_lt
      have hcurrent := (hnext.part hr.operation (by omega)).1
      dsimp only
      omega

theorem seqChecked_quiet (hvalidate : c.validate = true) (hnum : 1 ≤ c.numFiles) (hnum' : c.numFiles < 2 ^ 32)
    (hfile : 1 ≤ c.fileSize) (hsize : 0 ≤ c.fileRequestSize) (h : 2 ≤ c.numFiles ∨ c.fileRequestSize = 0)
    (s : FileState) (n : ℕ) :
    (seqChecked c s n).warnings = [] := by
  induction n with
  | zero => rfl
  | succ n ih =>
    have hplace := (seqChecked_inv hvalidate hnum hfile hsize s n).place
    by_cases hdue : FsyncDue c (seqChecked c s n).state
    · rw [seqChecked_fsync hdue]
      exact ih
    · obtain ⟨hr, hop, hstart, -⟩ := hplace.transfer hnum hfile hsize hdue
      rw [seqChecked_transfer hvalidate hop]
      refine List.append_eq_nil_iff.mpr ⟨ih, (hplace.check_iff hnum hnum' hfile hr hop hstart).mpr ?_⟩
      exact h.imp_right fun hempty => (currentFile_lt_of_empty hvalidate hnum hfile hempty s n).ne

/-- With one file there is at most one `fsync` request before the next request that reads or writes. -/
theorem seqChecked_next (hvalidate : c.validate = true) (hone : c.numFiles = 1) (hfile : 1 ≤ c.fileSize)
    (hsize : 0 ≤ c.fileRequestSize) (s : FileState) (n : ℕ) :
    ∃ m, ¬FsyncDue c (seqChecked c s m).state ∧ (seqChecked c s m).state.position = (seqChecked c s n).state.position ∧
      (seqChecked c s m).state.currentFile = (seqChecked c s n).state.currentFile := by
  have hplace := (seqChecked_inv hvalidate hone.ge hfile hsize s n).place
  by_cases hdue : FsyncDue c (seqChecked c s n).state
  · have hsynced := hplace.fsynced_lt
    obtain ⟨-, hposition, hcurrent, -⟩ := fsyncRequest_kept c (seqChecked c s n).state
    refine ⟨n + 1, ?_⟩
    rw [seqChecked_fsync hdue]
    refine ⟨fun hagain => ?_, hposition, hcurrent⟩
    have hdirty := hagain.2.2.1
    dsimp only [fsyncRequest] at hdirty
    rw [if_pos (by omega)] at hdirty
    cases hdirty
  · exact ⟨n, hdue, rfl, rfl⟩

/-- With one file the second pass begins in the file where the first one ended. -/
theorem seqChecked_warns_of_end (hvalidate : c.validate = true) (hone : c.numFiles = 1) (hfile : 1 ≤ c.fileSize)
    (hsize : 0 ≤ c.fileRequestSize) {s : FileState} {n : ℕ} (hdue : ¬FsyncDue c (seqChecked c s n).state)
    (hend : (seqChecked c s n).state.currentFile = 1) : (seqChecked c s (n + 1)).warnings ≠ [] := by
  have hplace := (seqChecked_inv hvalidate hone.ge hfile hsize s n).place
  obtain ⟨hr, hop, hstart, -⟩ := hplace.transfer hone.ge hfile hsize hdue
  rw [seqChecked_transfer hvalidate hop]
  intro hnone
  rcases (hplace.check_iff hone.ge (by omega) hfile hr hop hstart).mp (List.append_eq_nil_iff.mp hnone).2 with h | h
  · omega
  · exact h (hend.trans hone.symm)

theorem seqChecked_warns (hvalidate : c.validate = true) (hone : c.numFiles = 1) (hfile : 1 ≤ c.fileSize)
    (hsize : 1 ≤ c.fileRequestSize) (s : FileState) : ∃ n, (seqChecked c s n).warnings ≠ [] := by
  have hsize' : 0 ≤ c.fileRequestSize := by omega
  -- Each request leaves fewer bytes before the end of the file.
  suffices hrest : ∀ (k n : ℕ), (seqChecked c s n).state.currentFile = 1 ∨
      c.fileSize - (seqChecked c s n).state.position ≤ k → ∃ n, (seqChecked c s n).warnings ≠ [] from
    hrest c.fileSize.toNat 0 (Or.inr (by show c.fileSize - 0 ≤ _; omega))
  intro k
  induction k with
  | zero =>
    intro n hn
    obtain ⟨m, hdue, hposition, hcurrent⟩ := seqChecked_next hvalidate hone hfile hsize' s n
    have hlt := (seqChecked_inv hvalidate hone.ge hfile hsize' s n).place.position_lt
    exact ⟨m + 1, seqChecked_warns_of_end hvalidate hone hfile hsize' hdue (by omega)⟩
  | succ k ih =>
    intro n hn
    obtain ⟨m, hdue, hposition, hcurrent⟩ := seqChecked_next hvalidate hone hfile hsize' s n
    by_cases hend : (seqChecked c s m).state.currentFile = 1
    · exact ⟨m + 1, seqChecked_warns_of_end hvalidate hone hfile hsize' hdue hend⟩
    obtain ⟨hr, hop, hstart, hposlt, hlength, hnext⟩ :=
      (seqChecked_inv hvalidate hone.ge hfile hsize' s m).place.transfer hone.ge hfile hsize' hdue
    refine ih (m + 1) ?_
    rw [seqChecked_transfer hvalidate hop]
    unfold seqStart at hstart
    rw [if_neg (by rwa [hone])] at hstart
    have hpos := (Prod.mk.inj hstart).1
    have hfileId := hr.fileId_lt
    by_cases hdone : (fileGetSeqRequest c (seqChecked c s m).state).1.pos +
        (fileGetSeqRequest c (seqChecked c s m).state).1.size = c.fileSize
    · have hwhole := (hnext.whole hr.operation hdone).1
      refine Or.inl ?_
      dsimp only
      omega
    · have hpart := (hnext.part hr.operation hdone).2
      refine Or.inr ?_
      dsimp only
      omega

end generator

/-- The check does what it is for if there are two files or more, or if the requests are empty and no pass comes to an end. -/
theorem checksSequence_iff {c : FileConfig} (hvalidate : c.validate = true) (hnum : 1 ≤ c.numFiles) (hnum' : c.numFiles < 2 ^ 32)
    (hfile : 1 ≤ c.fileSize) (hsize : 0 ≤ c.fileRequestSize) :
    ChecksSequence c ↔ (2 ≤ c.numFiles ∨ c.fileRequestSize = 0) := by
  refine ⟨fun h => ?_, fun h => ⟨seqChecked_quiet hvalidate hnum hnum' hfile hsize h, ?_⟩⟩
  · by_contra hno
    obtain ⟨n, hn⟩ := seqChecked_warns hvalidate (by omega) hfile (by omega) FileState.zero
    exact hn (h.quiet _ n)
  · intro s n i r hi hr hbytes hnone
    have hinv := seqChecked_inv hvalidate hnum hfile hsize s n
    refine hbytes (contiguous_of_checked hnum' (fun r' hr' => ?_) hnone)
    rw [hinv.requests] at hr'
    rcases List.mem_or_eq_of_mem_set hr' with hmem | rfl
    · exact hinv.inFiles r' hmem
    · exact hr

/-- One file of 5 bytes, rewritten 3 bytes at a time. -/
def rewrittenFile : FileConfig :=
  { twoFiles with validate := true, numFiles := 1, totalSize := 5, fileFsyncFreq := 100 }

def rewrittenFileArgs : FileArgs where
  fileNum := 1
  fileBlockSize := 3
  fileTotalSize := 5
  fileTestMode := some "seqrewr"
  fileIoMode := none
  fileAsyncBacklog := 128
  fileExtraFlags := []
  fileFsyncFreq := 100
  fileFsyncAll := false
  fileFsyncEnd := false
  fileFsyncMode := "fsync"
  fileMergedRequests := 0
  fileRwRatio := 0

theorem not_checksSequence :
    parseArguments ⟨false, false, false⟩ ⟨"run", 1, true⟩ rewrittenFileArgs = .ok rewrittenFile ∧
      (seqChecked rewrittenFile .zero 3).warnings = ["Discovered too large position difference in seq request!"] ∧
      ¬ChecksSequence rewrittenFile := by
  have hwarns : (seqChecked rewrittenFile .zero 3).warnings = ["Discovered too large position difference in seq request!"] := by decide
  refine ⟨by decide, hwarns, fun h => ?_⟩
  have hquiet := h.quiet .zero 3
  rw [hwarns] at hquiet
  cases hquiet

theorem checksSequence_iff_two : ChecksSequence { twoFiles with validate := true } ↔ (2 ≤ 2 ∨ (3 : ℤ) = 0) :=
  checksSequence_iff (by decide) (by decide) (by decide) (by decide) (by decide)

end NuKSM.Sysbench
