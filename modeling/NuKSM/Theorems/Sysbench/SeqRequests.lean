import NuKSM.Lib.Tiling
import NuKSM.Sysbench.FileIo

/-! # Sequential requests

The requests of the sequential tests run through the bytes of all files in order, from the first file again after the last.
In the tests that write, a series of `fsync` requests follows each `file_fsync_freq` writes. -/

namespace NuKSM.Sysbench
open Tiling

/-- The first requests after `init_vars`, and the state after them. -/
def seqRequests (c : FileConfig) (s : FileState) : ℕ → List SbFileRequest × FileState
  | 0 => ([], initVars s)
  | n + 1 =>
    let (reqs, s) := seqRequests c s n
    let (req, s) := fileGetSeqRequest c s
    (reqs ++ [req], s)

/-- The test writes. -/
def FileConfig.Writes (c : FileConfig) : Prop := c.testMode = .write ∨ c.testMode = .rewrite

instance (c : FileConfig) : Decidable c.Writes := by
  unfold FileConfig.Writes
  infer_instance

/-- The requests that read or write. -/
def transfers (reqs : List SbFileRequest) : List SbFileRequest := reqs.filter (·.operation ≠ .fsync)

/-- The bytes of a request: their file and their position in it. -/
def SbFileRequest.bytes (req : SbFileRequest) : List (ℕ × ℤ) :=
  (List.range req.size.toNat).map fun k : ℕ => (req.fileId, req.pos + k)

/-- The byte `k` of all files. -/
def byteAt (c : FileConfig) (k : ℕ) : ℕ × ℤ := (cellAt c.numFiles c.fileSize.toNat k).map id Nat.cast

/-- The bytes of a request that stays in one of the files. -/
theorem SbFileRequest.bytes_eq {c : FileConfig} {req : SbFileRequest} (pass : ℕ) (hfile : req.fileId < c.numFiles)
    (hpos : 0 ≤ req.pos) (hsize : 0 ≤ req.size) (hend : req.pos + req.size ≤ c.fileSize) :
    req.bytes = (List.range req.size.toNat).map fun k =>
      byteAt c ((pass * c.numFiles + req.fileId) * c.fileSize.toNat + req.pos.toNat + k) := by
  have hcells : (List.range req.size.toNat).map (fun k =>
        cellAt c.numFiles c.fileSize.toNat ((pass * c.numFiles + req.fileId) * c.fileSize.toNat + req.pos.toNat + k)) =
      (List.range req.size.toNat).map fun k => (req.fileId, req.pos.toNat + k) := map_cellAt_range pass hfile (by omega)
  have hbytes := congrArg (List.map (Prod.map id (Nat.cast : ℕ → ℤ))) hcells
  rw [List.map_map, List.map_map] at hbytes
  refine Eq.trans ?_ hbytes.symm
  unfold SbFileRequest.bytes
  refine List.map_congr_left fun k _ => ?_
  show (req.fileId, req.pos + k) = (req.fileId, ((req.pos.toNat + k : ℕ) : ℤ))
  rw [Nat.cast_add, Int.toNat_of_nonneg hpos]

/-- It is time for an `fsync` request. -/
def FsyncDue (c : FileConfig) (s : FileState) : Prop :=
  c.fileFsyncFreq ≠ 0 ∧ c.Writes ∧ s.isDirty ∧ s.reqPerformed % c.fileFsyncFreq = 0

/-- The next request reads or writes at the position `b` of all bytes. -/
structure AtByte (c : FileConfig) (s : FileState) (b : ℕ) : Prop where
  position_nonneg : 0 ≤ s.position
  position_lt : s.position < c.fileSize
  currentFile_le : s.currentFile ≤ c.numFiles
  rewound : s.currentFile = c.numFiles → s.position = 0
  pass : ∃ p : ℕ, b = (p * c.numFiles + s.currentFile) * c.fileSize.toNat + s.position.toNat

section step
variable {c : FileConfig} {s : FileState}

theorem fileGetSeqRequest_fsync (h : FsyncDue c s) : fileGetSeqRequest c s = fsyncRequest c s := by
  obtain ⟨hfreq, hwrites, hdue⟩ := h
  unfold fileGetSeqRequest
  rw [if_pos ⟨hfreq, if_pos hwrites, hdue⟩]

/-- Where the request that comes next starts, once the generator has gone back to the first file. -/
def seqStart (c : FileConfig) (s : FileState) : ℤ × ℕ := if s.currentFile = c.numFiles then (0, 0) else (s.position, s.currentFile)

theorem fileGetSeqRequest_next (h : ¬FsyncDue c s) {position : ℤ} {currentFile : ℕ} (hstart : seqStart c s = (position, currentFile)) :
    fileGetSeqRequest c s =
      (⟨currentFile, position, min c.fileRequestSize (c.fileSize - position), if c.Writes then .write else .read⟩,
        { s with
          reqPerformed := nextPerformed s
          isDirty := s.isDirty || decide ((if c.Writes then SbFileOp.write else .read) = .write)
          position := if position + min c.fileRequestSize (c.fileSize - position) = c.fileSize then 0
            else position + min c.fileRequestSize (c.fileSize - position)
          currentFile := if position + min c.fileRequestSize (c.fileSize - position) = c.fileSize then currentFile + 1
            else currentFile }) := by
  have hstart : (if s.currentFile = c.numFiles then ((0 : ℤ), 0) else (s.position, s.currentFile)) = (position, currentFile) := hstart
  unfold fileGetSeqRequest
  rw [if_neg, hstart]
  · rfl
  · rintro ⟨hfreq, hwrite, hdirty, hmod⟩
    refine h ⟨hfreq, ?_, hdirty, hmod⟩
    by_contra hno
    rw [if_neg (show ¬(c.testMode = .write ∨ c.testMode = .rewrite) from hno)] at hwrite
    cases hwrite

/-- What a request that reads or writes is like, and what comes after it. -/
structure Transferred (c : FileConfig) (s : FileState) (b : ℕ) (req : SbFileRequest) (s' : FileState) : Prop where
  operation : req.operation = if c.Writes then .write else .read
  size_pos : 1 ≤ req.size
  size_le : req.size ≤ c.fileRequestSize
  bytes : req.bytes = (List.range req.size.toNat).map fun k => byteAt c (b + k)
  atByte : AtByte c s' (b + req.size.toNat)
  performed : s'.reqPerformed = nextPerformed s
  dirty : s'.isDirty = (s.isDirty || decide c.Writes)
  fsynced : s'.fsyncedFile = s.fsyncedFile

theorem fileGetSeqRequest_transfer {b : ℕ} (hfile : 1 ≤ c.fileSize) (hsize : 1 ≤ c.fileRequestSize) (hnum : 1 ≤ c.numFiles)
    (hs : AtByte c s b) (h : ¬FsyncDue c s) :
    Transferred c s b (fileGetSeqRequest c s).1 (fileGetSeqRequest c s).2 := by
  obtain ⟨hnonneg, hlt, hle, hrewound, p, hp⟩ := hs
  obtain ⟨position, currentFile, hstart, hpos, hposlt, hcur, q, hq⟩ : ∃ (position : ℤ) (currentFile : ℕ),
      seqStart c s = (position, currentFile) ∧ 0 ≤ position ∧ position < c.fileSize ∧ currentFile < c.numFiles ∧
      ∃ q : ℕ, b = (q * c.numFiles + currentFile) * c.fileSize.toNat + position.toNat := by
    by_cases hwrap : s.currentFile = c.numFiles
    · refine ⟨0, 0, if_pos hwrap, le_rfl, by omega, by omega, p + 1, ?_⟩
      rw [hp, hrewound hwrap, hwrap]
      ring
    · exact ⟨s.position, s.currentFile, if_neg hwrap, hnonneg, hlt, by omega, p, hp⟩
  rw [fileGetSeqRequest_next h hstart]
  generalize hmin : min c.fileRequestSize (c.fileSize - position) = size
  have hsizepos : 1 ≤ size := by omega
  have hend : position + size ≤ c.fileSize := by omega
  refine ⟨rfl, hsizepos, by show size ≤ _; omega, ?_, ?_, rfl, ?_, rfl⟩
  · rw [hq]
    exact SbFileRequest.bytes_eq q hcur hpos (by show 0 ≤ size; omega) hend
  · have htotal : b + size.toNat = (q * c.numFiles + currentFile) * c.fileSize.toNat + (position + size).toNat := by
      rw [hq]
      omega
    show AtByte c _ (b + size.toNat)
    by_cases hdone : position + size = c.fileSize
    · refine ⟨?_, ?_, ?_, ?_, q, ?_⟩ <;> simp only [if_pos hdone]
      · exact le_rfl
      · omega
      · omega
      · exact fun _ => trivial
      · rw [htotal, hdone]
        show _ = (q * c.numFiles + (currentFile + 1)) * c.fileSize.toNat + 0
        ring
    · refine ⟨?_, ?_, ?_, ?_, q, ?_⟩ <;> simp only [if_neg hdone]
      · omega
      · omega
      · omega
      · exact fun heq => absurd heq hcur.ne
      · exact htotal
  · by_cases hwrites : c.Writes
    · simp [hwrites]
    · simp [hwrites]

/-- Where the test is between two series of `fsync` requests, after `n` requests, `w` of which write. -/
inductive SeqPhase (c : FileConfig) (s : FileState) (n w : ℕ) : Prop
  | writing (q r : ℕ) : r < c.fileFsyncFreq → n = q * (c.fileFsyncFreq + c.numFiles) + r → w = q * c.fileFsyncFreq + r →
      s.fsyncedFile = 0 → s.isDirty = decide (0 < r) → SeqPhase c s n w
  | syncing (q k : ℕ) : k < c.numFiles → n = q * (c.fileFsyncFreq + c.numFiles) + (c.fileFsyncFreq + k) →
      w = q * c.fileFsyncFreq + c.fileFsyncFreq → s.fsyncedFile = k → s.isDirty = true → SeqPhase c s n w

/-- The phase tells whether an `fsync` request is next. -/
theorem SeqPhase.due {n w : ℕ} (h : SeqPhase c s n w) (hfreq : c.fileFsyncFreq ≠ 0) (hwrites : c.Writes)
    (hw : s.reqPerformed = w) :
    (FsyncDue c s ↔ c.fileFsyncFreq ≤ n % (c.fileFsyncFreq + c.numFiles)) ∧
      (FsyncDue c s → s.fsyncedFile = n % (c.fileFsyncFreq + c.numFiles) - c.fileFsyncFreq) := by
  cases h with
  | writing q r hr hn hwr hsynced hdirty =>
    have hmod : n % (c.fileFsyncFreq + c.numFiles) = r := by
      rw [hn, Nat.mul_comm, Nat.mul_add_mod, Nat.mod_eq_of_lt (by omega)]
    have hno : ¬FsyncDue c s := by
      rintro ⟨-, -, hd, hm⟩
      rw [hdirty, decide_eq_true_iff] at hd
      rw [hw, hwr, Nat.mul_comm, Nat.mul_add_mod, Nat.mod_eq_of_lt hr] at hm
      omega
    rw [hmod]
    exact ⟨⟨fun h => absurd h hno, fun h => absurd h (by omega)⟩, fun h => absurd h hno⟩
  | syncing q k hk hn hwk hsynced hdirty =>
    have hmod : n % (c.fileFsyncFreq + c.numFiles) = c.fileFsyncFreq + k := by
      rw [hn, Nat.mul_comm, Nat.mul_add_mod, Nat.mod_eq_of_lt (by omega)]
    have hyes : FsyncDue c s := by
      refine ⟨hfreq, hwrites, hdirty, ?_⟩
      rw [hw, hwk, ← Nat.succ_mul, Nat.mul_mod_left]
    rw [hmod, hsynced]
    exact ⟨⟨fun _ => Nat.le_add_right .., fun _ => hyes⟩, fun _ => by omega⟩

theorem SeqPhase.write {n w : ℕ} {s' : FileState} (h : SeqPhase c s n w) (hnum : 1 ≤ c.numFiles)
    (hnot : ¬c.fileFsyncFreq ≤ n % (c.fileFsyncFreq + c.numFiles)) (hsynced' : s'.fsyncedFile = s.fsyncedFile)
    (hdirty' : s'.isDirty = true) : SeqPhase c s' (n + 1) (w + 1) := by
  cases h with
  | writing q r hr hn hw hsynced hdirty =>
    rcases Nat.lt_or_ge (r + 1) c.fileFsyncFreq with hlt | hge
    · exact .writing q (r + 1) hlt (by omega) (by omega) (hsynced'.trans hsynced) (by rw [hdirty']; simp)
    · exact .syncing q 0 (by omega) (by omega) (by omega) (hsynced'.trans hsynced) hdirty'
  | syncing q k hk hn hw hsynced hdirty =>
    have hmod : n % (c.fileFsyncFreq + c.numFiles) = c.fileFsyncFreq + k := by
      rw [hn, Nat.mul_comm, Nat.mul_add_mod, Nat.mod_eq_of_lt (by omega)]
    omega

theorem SeqPhase.fsync {n w : ℕ} (h : SeqPhase c s n w) (hfreq : c.fileFsyncFreq ≠ 0)
    (hdue : c.fileFsyncFreq ≤ n % (c.fileFsyncFreq + c.numFiles)) : SeqPhase c (fsyncRequest c s).2 (n + 1) w := by
  cases h with
  | writing q r hr hn hw hsynced hdirty =>
    have hmod : n % (c.fileFsyncFreq + c.numFiles) = r := by
      rw [hn, Nat.mul_comm, Nat.mul_add_mod, Nat.mod_eq_of_lt (by omega)]
    omega
  | syncing q k hk hn hw hsynced hdirty =>
    show SeqPhase c (if s.fsyncedFile + 1 = c.numFiles then _ else _) _ _
    by_cases hlast : s.fsyncedFile + 1 = c.numFiles
    · rw [if_pos hlast]
      refine .writing (q + 1) 0 (by omega) ?_ ?_ rfl rfl
      · rw [Nat.succ_mul]
        omega
      · rw [Nat.succ_mul]
        omega
    · rw [if_neg hlast]
      exact .syncing q (k + 1) (by omega) (by omega) hw (by rw [← hsynced]) hdirty

end step

/-! ### Whole runs -/

/-- The number of bytes of some requests. -/
def totalSize (reqs : List SbFileRequest) : ℕ := (reqs.map (·.size.toNat)).sum

/-- The requests so far have run through the bytes, with the `fsync` requests where they belong. -/
structure SeqInv (c : FileConfig) (n : ℕ) (reqs : List SbFileRequest) (s : FileState) : Prop where
  length : reqs.length = n
  atByte : AtByte c s (totalSize (transfers reqs))
  sizes : ∀ req ∈ transfers reqs,
    req.operation = (if c.Writes then .write else .read) ∧ 1 ≤ req.size ∧ req.size ≤ c.fileRequestSize
  bytes : (transfers reqs).flatMap (·.bytes) = (List.range (totalSize (transfers reqs))).map (byteAt c)
  performed : s.reqPerformed = (transfers reqs).length
  phase : c.fileFsyncFreq ≠ 0 → c.Writes → SeqPhase c s n (transfers reqs).length
  fsyncs : ∀ i req, reqs[i]? = some req →
    (req.operation = .fsync ↔
      c.fileFsyncFreq ≠ 0 ∧ c.Writes ∧ c.fileFsyncFreq ≤ i % (c.fileFsyncFreq + c.numFiles)) ∧
    (req.operation = .fsync → req.fileId = i % (c.fileFsyncFreq + c.numFiles) - c.fileFsyncFreq)

section run
variable {c : FileConfig} {s : FileState} {n : ℕ} {reqs : List SbFileRequest}

theorem SeqInv.due (h : SeqInv c n reqs s) :
    (FsyncDue c s ↔ c.fileFsyncFreq ≠ 0 ∧ c.Writes ∧ c.fileFsyncFreq ≤ n % (c.fileFsyncFreq + c.numFiles)) ∧
      (FsyncDue c s → s.fsyncedFile = n % (c.fileFsyncFreq + c.numFiles) - c.fileFsyncFreq) := by
  by_cases hfreq : c.fileFsyncFreq = 0
  · exact ⟨⟨fun hdue => absurd hfreq hdue.1, fun hdue => absurd hfreq hdue.1⟩, fun hdue => absurd hfreq hdue.1⟩
  · by_cases hwrites : c.Writes
    · obtain ⟨hiff, hfile⟩ := (h.phase hfreq hwrites).due hfreq hwrites h.performed
      exact ⟨⟨fun hdue => ⟨hfreq, hwrites, hiff.mp hdue⟩, fun hdue => hiff.mpr hdue.2.2⟩, hfile⟩
    · exact ⟨⟨fun hdue => absurd hdue.2.1 hwrites, fun hdue => absurd hdue.2.1 hwrites⟩, fun hdue => absurd hdue.2.1 hwrites⟩

theorem transfers_snoc_fsync {req : SbFileRequest} (h : req.operation = .fsync) : transfers (reqs ++ [req]) = transfers reqs := by
  simp [transfers, h]

theorem transfers_snoc {req : SbFileRequest} (h : req.operation ≠ .fsync) : transfers (reqs ++ [req]) = transfers reqs ++ [req] := by
  simp [transfers, h]

theorem getElem?_snoc_cases {reqs : List SbFileRequest} {req x : SbFileRequest} {i : ℕ} (h : (reqs ++ [req])[i]? = some x) :
    reqs[i]? = some x ∨ (i = reqs.length ∧ x = req) := by
  rcases Nat.lt_or_ge i reqs.length with hlt | hge
  · rw [List.getElem?_append_left hlt] at h
    exact Or.inl h
  · rw [List.getElem?_append_right hge] at h
    obtain ⟨hi, hx⟩ := List.getElem?_eq_some_iff.mp h
    rw [List.length_singleton] at hi
    refine Or.inr ⟨by omega, ?_⟩
    rw [List.getElem_singleton] at hx
    exact hx.symm

theorem AtByte.congr {s' : FileState} {b : ℕ} (h : AtByte c s b) (hposition : s'.position = s.position)
    (hcurrent : s'.currentFile = s.currentFile) : AtByte c s' b := by
  obtain ⟨hnonneg, hlt, hle, hrewound, hpass⟩ := h
  rw [← hposition] at hnonneg hlt hrewound hpass
  rw [← hcurrent] at hle hrewound hpass
  exact ⟨hnonneg, hlt, hle, hrewound, hpass⟩

/-- An `fsync` request leaves the place in the files as it is. -/
theorem fsyncRequest_kept (c : FileConfig) (s : FileState) :
    (fsyncRequest c s).1 = ⟨s.fsyncedFile, 0, 0, .fsync⟩ ∧ (fsyncRequest c s).2.position = s.position ∧
      (fsyncRequest c s).2.currentFile = s.currentFile ∧ (fsyncRequest c s).2.reqPerformed = s.reqPerformed := by
  unfold fsyncRequest
  split <;> exact ⟨rfl, rfl, rfl, rfl⟩

theorem SeqInv.fsync (h : SeqInv c n reqs s) (hdue : FsyncDue c s) :
    SeqInv c (n + 1) (reqs ++ [(fsyncRequest c s).1]) (fsyncRequest c s).2 := by
  obtain ⟨hiff, hfile⟩ := h.due
  obtain ⟨hreq, hposition, hcurrent, hperformed⟩ := fsyncRequest_kept c s
  have htransfers : transfers (reqs ++ [(fsyncRequest c s).1]) = transfers reqs := transfers_snoc_fsync (by rw [hreq])
  refine ⟨?_, ?_, ?_, ?_, ?_, fun hfreq hwrites => ?_, fun i req hi => ?_⟩
  · rw [List.length_append, h.length, List.length_singleton]
  · rw [htransfers]
    exact h.atByte.congr hposition hcurrent
  · rw [htransfers]
    exact h.sizes
  · rw [htransfers]
    exact h.bytes
  · rw [htransfers, hperformed, h.performed]
  · rw [htransfers]
    exact (h.phase hfreq hwrites).fsync hfreq (hiff.mp hdue).2.2
  · rcases getElem?_snoc_cases hi with hi | ⟨rfl, rfl⟩
    · exact h.fsyncs i req hi
    · rw [h.length, hreq]
      exact ⟨⟨fun _ => hiff.mp hdue, fun _ => rfl⟩, fun _ => hfile hdue⟩

theorem SeqInv.transfer (h : SeqInv c n reqs s) {req : SbFileRequest} {s' : FileState} (hnum : 1 ≤ c.numFiles)
    (hnot : ¬FsyncDue c s) (ht : Transferred c s (totalSize (transfers reqs)) req s')
    (hcount : (transfers (reqs ++ [req])).length < 2 ^ 32) : SeqInv c (n + 1) (reqs ++ [req]) s' := by
  obtain ⟨hiff, -⟩ := h.due
  have hop : req.operation ≠ .fsync := by
    rw [ht.operation]
    split <;> decide
  have htransfers : transfers (reqs ++ [req]) = transfers reqs ++ [req] := transfers_snoc hop
  have htotal : totalSize (transfers reqs ++ [req]) = totalSize (transfers reqs) + req.size.toNat := by
    simp [totalSize]
  rw [htransfers, List.length_append, List.length_singleton] at hcount
  refine ⟨?_, ?_, ?_, ?_, ?_, fun hfreq hwrites => ?_, fun i req' hi => ?_⟩
  · rw [List.length_append, h.length, List.length_singleton]
  · rw [htransfers, htotal]
    exact ht.atByte
  · rw [htransfers]
    intro req' hreq'
    rcases List.mem_append.mp hreq' with hreq' | hreq'
    · exact h.sizes req' hreq'
    · rw [List.mem_singleton.mp hreq']
      exact ⟨ht.operation, ht.size_pos, ht.size_le⟩
  · rw [htransfers, List.flatMap_append, List.flatMap_singleton, h.bytes, ht.bytes, htotal, List.range_add, List.map_append,
      List.map_map]
    rfl
  · rw [htransfers, ht.performed, nextPerformed, h.performed, List.length_append, List.length_singleton, Nat.mod_eq_of_lt hcount]
  · rw [htransfers, List.length_append, List.length_singleton]
    refine (h.phase hfreq hwrites).write hnum (fun hdue => hnot (hiff.mpr ⟨hfreq, hwrites, hdue⟩)) ht.fsynced ?_
    rw [ht.dirty, decide_eq_true hwrites, Bool.or_true]
  · rcases getElem?_snoc_cases hi with hi | ⟨rfl, rfl⟩
    · exact h.fsyncs i req' hi
    · rw [h.length]
      exact ⟨⟨fun heq => absurd heq hop, fun hdue => absurd (hiff.mpr hdue) hnot⟩, fun heq => absurd heq hop⟩

theorem SeqInv.init (hfile : 1 ≤ c.fileSize) (s : FileState) : SeqInv c 0 [] (initVars s) where
  length := rfl
  atByte := ⟨le_rfl, by show (0 : ℤ) < _; omega, Nat.zero_le _, fun _ => rfl, 0, by simp [totalSize, transfers, initVars]⟩
  sizes req hreq := absurd hreq List.not_mem_nil
  bytes := rfl
  performed := rfl
  phase hfreq _ := .writing 0 0 (Nat.pos_of_ne_zero hfreq) (by simp) (by simp [transfers]) rfl rfl
  fsyncs i req hi := by simp at hi

theorem transfers_length_mono (c : FileConfig) (s : FileState) (n : ℕ) :
    (transfers (seqRequests c s n).1).length ≤ (transfers (seqRequests c s (n + 1)).1).length := by
  show _ ≤ (transfers (_ ++ [_])).length
  unfold transfers
  rw [List.filter_append, List.length_append]
  exact Nat.le_add_right ..

theorem seqRequests_inv (hfile : 1 ≤ c.fileSize) (hsize : 1 ≤ c.fileRequestSize) (hnum : 1 ≤ c.numFiles) (s : FileState) :
    ∀ n, (transfers (seqRequests c s n).1).length < 2 ^ 32 → SeqInv c n (seqRequests c s n).1 (seqRequests c s n).2
  | 0, _ => SeqInv.init hfile s
  | n + 1, hcount => by
    have ih := seqRequests_inv hfile hsize hnum s n ((transfers_length_mono c s n).trans_lt hcount)
    show SeqInv c (n + 1) (_ ++ [(fileGetSeqRequest c (seqRequests c s n).2).1]) (fileGetSeqRequest c (seqRequests c s n).2).2
    by_cases hdue : FsyncDue c (seqRequests c s n).2
    · rw [fileGetSeqRequest_fsync hdue]
      exact ih.fsync hdue
    · exact ih.transfer hnum hdue (fileGetSeqRequest_transfer hfile hsize hnum ih.atByte hdue) hcount

/-- The requests that read or write run through the bytes of the files in order, again and again, and the others are the
`fsync` requests for all files after each `file_fsync_freq` writes. -/
theorem seqRequests_tile (hfile : 1 ≤ c.fileSize) (hsize : 1 ≤ c.fileRequestSize) (hnum : 1 ≤ c.numFiles) (s : FileState)
    (n : ℕ) (hcount : (transfers (seqRequests c s n).1).length < 2 ^ 32) :
    (∀ req ∈ transfers (seqRequests c s n).1,
      req.operation = (if c.Writes then .write else .read) ∧ 1 ≤ req.size ∧ req.size ≤ c.fileRequestSize) ∧
    (transfers (seqRequests c s n).1).flatMap (·.bytes) =
      (List.range (totalSize (transfers (seqRequests c s n).1))).map (byteAt c) ∧
    (seqRequests c s n).1.length = n ∧
    ∀ i req, (seqRequests c s n).1[i]? = some req →
      (req.operation = .fsync ↔
        c.fileFsyncFreq ≠ 0 ∧ c.Writes ∧ c.fileFsyncFreq ≤ i % (c.fileFsyncFreq + c.numFiles)) ∧
      (req.operation = .fsync → req.fileId = i % (c.fileFsyncFreq + c.numFiles) - c.fileFsyncFreq) :=
  have h := seqRequests_inv hfile hsize hnum s n hcount
  ⟨h.sizes, h.bytes, h.length, h.fsyncs⟩

end run

/-- Two files of 5 bytes, written 3 bytes at a time, with a series of `fsync` requests after each second write. -/
def twoFiles : FileConfig where
  threads := 1
  validate := false
  numFiles := 2
  totalSize := 10
  fileSize := 5
  testMode := .rewrite
  fileIoMode := .sync
  fileMergedRequests := 0
  fileBlockSize := 3
  fileRequestSize := 3
  fileExtraFlags := 0
  fileFsyncFreq := 2
  fileFsyncEnd := false
  fileFsyncAll := false
  fileFsyncMode := .all
  fileRwRatio := 0
  fileAsyncBacklog := 0

/-- All zero. -/
def FileState.zero : FileState := ⟨0, 0, 0, false, 0, 0, 0, 0, fun _ => (0, 0)⟩

theorem seqRequests_tile_two : (transfers (seqRequests twoFiles .zero 9).1).flatMap (·.bytes) =
    (List.range 13).map (byteAt twoFiles) :=
  (seqRequests_tile (c := twoFiles) (by decide) (by decide) (by decide) .zero 9 (by decide)).2.1

end NuKSM.Sysbench
