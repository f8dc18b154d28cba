import NuKSM.Sysbench.FileSync
import NuKSM.Theorems.Sysbench.FileConfig

/-! # Blocks that are written and read back

A block that the newest write to its bytes has filled for its length and offset is valid when it is read. -/

namespace NuKSM.Sysbench
open Thread LittleEndian

/-! ### Buffers -/

section buffers
variable {crc32 : List UInt8 → UInt32} {len offset : ℤ}

/-- The block has its checksum and the offset. -/
def Sealed (crc32 : List UInt8 → UInt32) (block : List UInt8) (offset : ℤ) : Prop := ∃ data, block = filledBlock crc32 data offset

theorem length_filledBlock (data : List UInt8) : (filledBlock crc32 data offset).length = data.length + 12 := by
  unfold filledBlock
  rw [List.length_append, List.length_append, length_encode, length_encode]
  rfl

theorem not_outsideBuffer {buffer : List UInt8} (h : 12 ≤ len) (hle : len ≤ buffer.length) : ¬outsideBuffer len buffer := by
  rintro (hlt | hlt)
  · have hlt : len < 12 := hlt
    omega
  · omega

theorem fileValidateBuffer_sealed {block rest : List UInt8} (hblock : Sealed crc32 block offset) (hlen : (block.length : ℤ) = len) :
    fileValidateBuffer crc32 len offset (block ++ rest) = some false := by
  obtain ⟨data, rfl⟩ := hblock
  rw [length_filledBlock] at hlen
  have hcs : csOffset len = data.length := by
    unfold csOffset fileChecksumLength fileOffsetLength
    omega
  have hcrc : (crc32 data).toNat < 256 ^ fileChecksumLength := (crc32 data).toNat_lt
  have hoffset : toSizeT offset < 256 ^ fileOffsetLength := by
    unfold toSizeT fileOffsetLength
    omega
  have hin : ¬outsideBuffer len (filledBlock crc32 data offset ++ rest) := by
    refine not_outsideBuffer (by omega) ?_
    rw [List.length_append, length_filledBlock]
    omega
  -- What stands behind the data, and behind the checksum.
  have hdata : (filledBlock crc32 data offset ++ rest).drop data.length =
      encode fileChecksumLength (crc32 data).toNat ++ (encode fileOffsetLength (toSizeT offset) ++ rest) := by
    rw [filledBlock, List.append_assoc, List.drop_left, List.append_assoc]
  have hchecksum : (filledBlock crc32 data offset ++ rest).drop (data.length + fileChecksumLength) =
      encode fileOffsetLength (toSizeT offset) ++ rest := by
    rw [← List.drop_drop, hdata, List.drop_left' (length_encode ..)]
  unfold fileValidateBuffer
  rw [if_neg hin, hcs, hdata, hchecksum, List.take_left' (length_encode ..), List.take_left' (length_encode ..),
    decode_encode_of_lt hcrc, decode_encode_of_lt hoffset, filledBlock, List.append_assoc, List.take_left,
    if_neg (not_not.mpr rfl)]
  simp

end buffers

/-! ### Disks -/

/-- The last write to the bytes of a block was of the whole block, and had been filled for it. -/
def LastFilled (d : FileDisk) (fileId : ℕ) (pos size : ℤ) : Prop :=
  ∃ w, newest d.written fileId pos size.toNat = some w ∧ w.pos = pos ∧ (w.data.length : ℤ) = size ∧ w.note = some (size, pos)

/-- The buffer and the files hold what has been filled and written. -/
structure FileDisk.Sound (crc32 : List UInt8 → UInt32) (c : FileConfig) (d : FileDisk) : Prop where
  buffer : (d.buffer.length : ℤ) = c.fileRequestSize
  filled : ∀ len offset, d.filled = some (len, offset) → Sealed crc32 (d.buffer.take len.toNat) offset
  cells : d.cells = replay (fun _ _ => 0) d.written
  blocks : ∀ w ∈ d.written, ∀ offset, w.note = some ((w.data.length : ℤ), offset) → Sealed crc32 w.data offset

/-- The files are as long as the requests need them. -/
def FileDisk.Long (c : FileConfig) (d : FileDisk) : Prop := ∀ id < c.numFiles, c.fileSize ≤ d.length id

section disks
variable {crc32 : List UInt8 → UInt32} {c : FileConfig} {d : FileDisk} {fileId : ℕ} {pos size : ℤ}

theorem fileFillBuffer_sound (pos : ℤ) (hd : d.Sound crc32 c) (hsize : 12 ≤ size) (hle : size ≤ c.fileRequestSize) :
    ∃ d', fileFillBuffer crc32 size pos d = some d' ∧ d'.Sound crc32 c ∧ d'.filled = some (size, pos) ∧ d'.vars = d.vars ∧
      d'.length = d.length ∧ d'.written = d.written := by
  have hbuffer := hd.buffer
  have hcs : (csOffset size : ℤ) = size - 12 := by
    unfold csOffset fileChecksumLength fileOffsetLength
    omega
  have hlen : ∀ data : List UInt8, data.length = csOffset size → (filledBlock crc32 data pos).length = size.toNat := by
    intro data hdata
    rw [length_filledBlock, hdata]
    omega
  have hdata : ((List.range (csOffset size)).map d.random).length = csOffset size := by simp
  refine ⟨_, if_neg (not_outsideBuffer hsize (by omega)), ⟨?_, fun len offset hfilled => ?_, hd.cells, hd.blocks⟩, rfl, rfl, rfl, rfl⟩
  · rw [List.length_append, hlen _ hdata, List.length_drop]
    omega
  · cases hfilled
    rw [List.take_left' (hlen _ hdata)]
    exact ⟨_, rfl⟩

theorem FileDisk.Sound.pwrite (hd : d.Sound crc32 c) (fileId : ℕ) (hfilled : d.filled = some (size, pos)) (hsize : 0 ≤ size)
    (hle : size ≤ c.fileRequestSize) :
    ∃ d', d.pwrite fileId size pos = some (size, d') ∧ d'.Sound crc32 c ∧ d'.vars = d.vars ∧
      d'.length = Function.update d.length fileId (max (d.length fileId) (pos + size)) ∧
      ∃ w : FileWrite, d'.written = w :: d.written ∧ w.file = fileId ∧ w.pos = pos ∧ (w.data.length : ℤ) = size ∧
        w.note = some (size, pos) := by
  have hbuffer := hd.buffer
  have hlen : ((d.buffer.take size.toNat).length : ℤ) = size := by
    rw [List.length_take]
    omega
  refine ⟨_, if_neg (by omega), ⟨hbuffer, hd.filled, ?_, fun w hw offset hnote => ?_⟩, rfl, rfl, _, rfl, rfl, rfl, hlen, hfilled⟩
  · show Patch.apply _ d.cells = replay _ (_ :: d.written)
    rw [hd.cells]
    rfl
  · rcases List.mem_cons.mp hw with rfl | hw
    · have hnote : d.filled = some (((d.buffer.take size.toNat).length : ℤ), offset) := hnote
      rw [hlen] at hnote
      exact hd.filled _ _ hnote
    · exact hd.blocks w hw offset hnote

theorem FileDisk.Sound.pread (hd : d.Sound crc32 c) (hlast : LastFilled d fileId pos size) (hle : size ≤ c.fileRequestSize)
    (hlength : pos + size ≤ d.length fileId) :
    ∃ d', d.pread fileId size pos = some (size, d') ∧ d'.Sound crc32 c ∧ d'.vars = d.vars ∧ d'.length = d.length ∧
      d'.written = d.written ∧ fileValidateBuffer crc32 size pos d'.buffer = some false := by
  obtain ⟨w, hw, hpos, hlen, hnote⟩ := hlast
  have hfile : w.file = fileId := (touches_of_newest hw).1
  have hbuffer := hd.buffer
  have hcount : (min size (d.length fileId - pos)).toNat = w.data.length := by omega
  -- The newest write is still in the file.
  have hread : d.cells.read fileId pos w.data.length = w.data := by
    have hw : newest d.written w.file w.pos w.data.length = some w := by rwa [hfile, hpos, show w.data.length = size.toNat by omega]
    rw [hd.cells, ← hfile, ← hpos]
    exact read_replay hw
  refine ⟨{ d with buffer := w.data ++ d.buffer.drop w.data.length, filled := none }, ?_,
    ⟨?_, fun len offset hfilled => (by cases hfilled), hd.cells, hd.blocks⟩, rfl, rfl, rfl, ?_⟩
  · unfold FileDisk.pread
    simp only [hcount, hread]
    rw [if_neg (by omega), hlen]
  · rw [List.length_append, List.length_drop]
    omega
  · refine fileValidateBuffer_sealed (hd.blocks w (mem_of_newest hw) pos ?_) hlen
    rw [hnote, hlen]

theorem FileDisk.Sound.setVars (hd : d.Sound crc32 c) (vars : FileState) : (d.setVars vars).Sound crc32 c :=
  ⟨hd.buffer, hd.filled, hd.cells, hd.blocks⟩

end disks

/-! ### Requests -/

/-- The request is for bytes of a file, which fit into the buffer and have room for the checksum and the offset. -/
structure SbFileRequest.Fits (c : FileConfig) (req : SbFileRequest) : Prop where
  fileId_lt : req.fileId < c.numFiles
  fits : req.pos + req.size ≤ c.fileSize
  operation : req.operation ≠ .null
  room : req.operation ≠ .fsync → 12 ≤ req.size ∧ req.size ≤ c.fileRequestSize

/-- What a request leaves behind. -/
structure Executed (crc32 : List UInt8 → UInt32) (c : FileConfig) (req : SbFileRequest) (d d' : FileDisk) : Prop where
  sound : d'.Sound crc32 c
  long : ∀ id, d.length id ≤ d'.length id
  vars : d'.vars = { d.vars with
    readOps := d.vars.readOps + if req.operation = .read then 1 else 0
    writeOps := d.vars.writeOps + if req.operation = .write then 1 else 0
    otherOps := d'.vars.otherOps }
  kept : req.operation ≠ .write → d'.written = d.written
  wrote : req.operation = .write → ∃ w : FileWrite, d'.written = w :: d.written ∧ w.file = req.fileId ∧ w.pos = req.pos ∧
    (w.data.length : ℤ) = req.size ∧ w.note = some (req.size, req.pos)

section requests
variable {crc32 : List UInt8 → UInt32} {c : FileConfig} {d : FileDisk} {req : SbFileRequest}

theorem fileFsync_ends (hmode : c.fileIoMode = .sync) {id : ℕ} (hid : id < c.numFiles) :
    Ends (FileOp.syncStep crc32 c.numFiles) (fileFsync c id) d fun failed d' =>
      failed = false ∧ d' = d.setVars { d.vars with otherOps := d.vars.otherOps + 1 } := by
  refine Ends.bind (R := fun failed d' => failed = false ∧ d' = d) (Ends.perform_bind (if_pos hid) ?_) fun failed d' hd' => ?_
  · rw [hmode]
    exact Ends.perform rfl ⟨rfl, rfl⟩
  · obtain ⟨rfl, rfl⟩ := hd'
    exact Ends.perform_bind rfl (Ends.pure ⟨rfl, rfl⟩)

theorem executeWrite_ends (hmode : c.fileIoMode = .sync) (hvalidate : c.validate) (hd : d.Sound crc32 c) (hop : req.operation = .write)
    (hreq : req.Fits c) :
    Ends (FileOp.syncStep crc32 c.numFiles) (executeWrite c req) d fun failed d' => failed = false ∧ Executed crc32 c req d d' := by
  obtain ⟨hsize, hle⟩ := hreq.room (by rw [hop]; decide)
  obtain ⟨d₁, hfill, hsound₁, hfilled, hvars₁, hlength₁, hwritten₁⟩ := fileFillBuffer_sound req.pos hd hsize hle
  obtain ⟨d₂, hwrite, hsound₂, hvars₂, hlength₂, w, hwritten₂, hw⟩ :=
    hsound₁.pwrite req.fileId hfilled (by omega) hle
  -- Only the number of the `fsync` calls depends on the options.
  have hcount : ∀ otherOps, Ends (FileOp.syncStep crc32 c.numFiles)
      (do onlyIf (c.fileIoMode ≠ .async) (perform (FileOp.countWrite req.size)); return false)
      (d₂.setVars { d₂.vars with otherOps := otherOps }) fun failed d' => failed = false ∧ Executed crc32 c req d d' := by
    intro otherOps
    refine Ends.bind (R := fun _ d' => Executed crc32 c req d d')
      (Ends.onlyIf (fun _ => Ends.perform rfl ?_) fun hno => absurd (by rw [hmode]; decide) hno) fun _ d' hd' =>
        Ends.pure ⟨rfl, hd'⟩
    refine ⟨(hsound₂.setVars _).setVars _, fun id => ?_, ?_, fun hno => absurd hop hno, fun _ => ⟨w, ?_, hw⟩⟩
    · show d.length id ≤ d₂.length id
      rw [hlength₂, hlength₁]
      by_cases hid : id = req.fileId
      · rw [hid, Function.update_self]
        exact le_max_left ..
      · rw [Function.update_of_ne hid]
    · show { d₂.vars with otherOps := otherOps, writeOps := d₂.vars.writeOps + 1 } = _
      rw [hvars₂, hvars₁, hop]
      simp [FileDisk.setVars]
    · rw [← hwritten₁]
      exact hwritten₂
  have hfill : FileOp.syncStep crc32 c.numFiles (.fillBuffer req.size req.pos) d = some ((), d₁) := by
    show (fileFillBuffer crc32 req.size req.pos d).map _ = _
    rw [hfill]
    rfl
  refine Ends.bind (R := fun _ d' => d₁ = d') (Ends.onlyIf (fun _ => Ends.perform hfill rfl) fun hno => absurd hvalidate hno) ?_
  rintro _ _ rfl
  refine Ends.bind (R := fun n d' => req.size = n ∧ d₂ = d') (Ends.perform_bind (if_pos hreq.fileId_lt) ?_) ?_
  · rw [hmode]
    exact Ends.perform hwrite ⟨rfl, rfl⟩
  rintro _ _ ⟨rfl, rfl⟩
  refine Ends.ite (fun hne => absurd rfl hne) fun _ => Ends.ite (fun _ => ?_) fun _ => hcount d₂.vars.otherOps
  refine Ends.bind (fileFsync_ends hmode hreq.fileId_lt) ?_
  rintro _ _ ⟨rfl, rfl⟩
  exact hcount _

theorem executeRead_ends (hmode : c.fileIoMode = .sync) (hd : d.Sound crc32 c) (hlong : d.Long c) (hop : req.operation = .read)
    (hreq : req.Fits c) (hlast : LastFilled d req.fileId req.pos req.size) :
    Ends (FileOp.syncStep crc32 c.numFiles) (executeRead c req) d fun failed d' => failed = false ∧ Executed crc32 c req d d' := by
  obtain ⟨hsize, hle⟩ := hreq.room (by rw [hop]; decide)
  obtain ⟨d₁, hread, hsound₁, hvars₁, hlength₁, hwritten₁, hvalid⟩ :=
    hd.pread hlast hle (hreq.fits.trans (hlong _ hreq.fileId_lt))
  have hcount : Ends (FileOp.syncStep crc32 c.numFiles)
      (do onlyIf (c.fileIoMode ≠ .async) (perform (FileOp.countRead req.size)); return false) d₁
      fun failed d' => failed = false ∧ Executed crc32 c req d d' := by
    refine Ends.bind (R := fun _ d' => Executed crc32 c req d d')
      (Ends.onlyIf (fun _ => Ends.perform rfl ?_) fun hno => absurd (by rw [hmode]; decide) hno) fun _ d' hd' =>
        Ends.pure ⟨rfl, hd'⟩
    refine ⟨hsound₁.setVars _, fun id => ?_, ?_, fun _ => hwritten₁, fun hwrite => absurd (hop.symm.trans hwrite) (by decide)⟩
    · show d.length id ≤ d₁.length id
      rw [hlength₁]
    · show { d₁.vars with readOps := d₁.vars.readOps + 1 } = _
      rw [hvars₁, hop]
      simp [FileDisk.setVars]
  refine Ends.bind (R := fun n d' => req.size = n ∧ d₁ = d') (Ends.perform_bind (if_pos hreq.fileId_lt) ?_) ?_
  · rw [hmode]
    exact Ends.perform hread ⟨rfl, rfl⟩
  rintro _ _ ⟨rfl, rfl⟩
  refine Ends.ite (fun hne => absurd rfl hne) fun _ => Ends.ite (fun _ => ?_) fun _ => hcount
  have hstep : FileOp.syncStep crc32 c.numFiles (.validateBuffer req.size req.pos) d₁ = some (false, d₁) := by
    show (fileValidateBuffer crc32 req.size req.pos d₁.buffer).map _ = _
    rw [hvalid]
    rfl
  exact Ends.perform_bind hstep hcount

/-- A request succeeds if the block that it reads is the last that was filled. -/
theorem fileExecuteEvent_ends (hmode : c.fileIoMode = .sync) (hvalidate : c.validate) (hd : d.Sound crc32 c) (hlong : d.Long c)
    (hreq : req.Fits c) (hlast : req.operation = .read → LastFilled d req.fileId req.pos req.size) :
    Ends (FileOp.syncStep crc32 c.numFiles) (fileExecuteEvent c req) d fun failed d' =>
      failed = false ∧ Executed crc32 c req d d' := by
  unfold fileExecuteEvent
  rw [checkRequest_ok hreq.fileId_lt.le hreq.fits]
  refine Ends.perform_bind (if_pos hreq.fileId_lt) ?_
  have hunchanged : ∀ vars : FileState, req.operation = .fsync →
      vars = { d.vars with otherOps := vars.otherOps } → Executed crc32 c req d (d.setVars vars) := by
    intro vars hop hvars
    refine ⟨hd.setVars vars, fun _ => le_rfl, ?_, fun _ => rfl, fun hwrite => absurd (hop.symm.trans hwrite) (by decide)⟩
    rw [hop]
    show vars = _
    rw [hvars]
    simp [FileDisk.setVars]
  cases hop : req.operation with
  | null => exact absurd hop hreq.operation
  | write => exact executeWrite_ends hmode hvalidate hd hop hreq
  | read => exact executeRead_ends hmode hd hlong hop hreq (hlast hop)
  | fsync =>
    refine Ends.ite (fun _ => Ends.pure ⟨rfl, hunchanged d.vars hop rfl⟩) fun _ =>
      Ends.mono (fileFsync_ends hmode hreq.fileId_lt) ?_
    rintro failed d' ⟨rfl, rfl⟩
    exact ⟨rfl, hunchanged _ hop rfl⟩

theorem fileId_lt_of_executed {d' : FileDisk}
    (h : (fileExecuteEvent c req).solo (FileOp.syncStep crc32 c.numFiles) d = some (false, d')) : req.fileId < c.numFiles := by
  unfold fileExecuteEvent at h
  split at h
  · cases h
  · by_contra hid
    have hstep : FileOp.syncStep crc32 c.numFiles (.file req.fileId) d = none := if_neg hid
    rw [solo_bind, perform, solo, hstep] at h
    cases h

end requests

/-! ### `create_files` -/

/-- A write of `create_files`. -/
structure FileConfig.Creates (c : FileConfig) (w : FileWrite) : Prop where
  file_lt : w.file < c.numFiles
  nonneg : 0 ≤ w.pos
  lt : w.pos < c.fileSize
  dvd : c.fileBlockSize ∣ w.pos
  length : (w.data.length : ℤ) = c.fileBlockSize
  note : w.note = some (c.fileBlockSize, w.pos)

/-- All writes are of blocks that `create_files` writes, and all of these are written. -/
structure FileConfig.Tiled (c : FileConfig) (written : List FileWrite) : Prop where
  blocks : ∀ w ∈ written, c.Creates w
  covered : ∀ id < c.numFiles, ∀ pos, 0 ≤ pos → pos < c.fileSize → c.fileBlockSize ∣ pos →
    ∃ w ∈ written, w.file = id ∧ w.pos = pos

/-- What `create_files` leaves behind. -/
structure Created (crc32 : List UInt8 → UInt32) (c : FileConfig) (d : FileDisk) : Prop where
  sound : d.Sound crc32 c
  long : d.Long c
  tiled : c.Tiled d.written

/-- `create_files` is at an offset of the file `i`. -/
structure Creating (crc32 : List UInt8 → UInt32) (c : FileConfig) (i : ℕ) (offset : ℤ) (d : FileDisk) : Prop where
  sound : d.Sound crc32 c
  nonneg : 0 ≤ offset
  dvd : c.fileBlockSize ∣ offset
  long : ∀ id < i, c.fileSize ≤ d.length id
  length : d.length i = offset
  empty : ∀ id, i < id → d.length id = 0
  blocks : ∀ w ∈ d.written, c.Creates w
  covered : ∀ id pos, id < i ∨ id = i ∧ pos < offset → 0 ≤ pos → pos < c.fileSize → c.fileBlockSize ∣ pos →
    ∃ w ∈ d.written, w.file = id ∧ w.pos = pos

section create
variable {crc32 : List UInt8 → UInt32} {c : FileConfig} {d : FileDisk} {i : ℕ} {offset : ℤ}

/-- There is no multiple of the block size between one block and the next. -/
theorem eq_of_dvd_of_lt {b x y : ℤ} (hx : b ∣ x) (hy : b ∣ y) (hlt : x < y + b) (hlt' : y < x + b) : x = y :=
  sub_eq_zero.mp (Int.eq_zero_of_abs_lt_dvd (dvd_sub hx hy) (abs_lt.mpr ⟨by omega, by omega⟩))

theorem FileConfig.Tiled.cons {written : List FileWrite} {w : FileWrite} (h : c.Tiled written) (hw : c.Creates w) :
    c.Tiled (w :: written) where
  blocks w' hw' := by
    rcases List.mem_cons.mp hw' with rfl | hw'
    · exact hw
    · exact h.blocks w' hw'
  covered id hid pos h0 h1 hdvd := by
    obtain ⟨w', hw', heq⟩ := h.covered id hid pos h0 h1 hdvd
    exact ⟨w', List.mem_cons_of_mem _ hw', heq⟩

/-- Blocks of one tiling overlap only where they are the same. -/
theorem FileConfig.Tiled.lastFilled (h : c.Tiled d.written) {id : ℕ} (hid : id < c.numFiles) {pos : ℤ} (h0 : 0 ≤ pos)
    (h1 : pos < c.fileSize) (hdvd : c.fileBlockSize ∣ pos) (hblock : 0 < c.fileBlockSize) : LastFilled d id pos c.fileBlockSize := by
  obtain ⟨w, hw, hfile, hpos⟩ := h.covered id hid pos h0 h1 hdvd
  have hlen := (h.blocks w hw).length
  refine exists_newest hw ⟨hfile, by omega, by omega⟩ fun q hq htouches => ?_
  have hq := h.blocks q hq
  obtain ⟨-, hlt, hlt'⟩ := htouches
  have hqlen := hq.length
  have heq : q.pos = pos := eq_of_dvd_of_lt hq.dvd hdvd (by omega) (by omega)
  exact ⟨heq, hqlen, heq ▸ hq.note⟩

/-- The next block of the file. -/
theorem Creating.write (h : Creating crc32 c i offset d) (hi : i < c.numFiles) (hlt : offset < c.fileSize) (hroom : 12 ≤ c.fileBlockSize)
    (hle : c.fileBlockSize ≤ c.fileRequestSize) :
    ∃ d₁ d₂, fileFillBuffer crc32 c.fileBlockSize offset d = some d₁ ∧
      d₁.pwrite i c.fileBlockSize offset = some (c.fileBlockSize, d₂) ∧ Creating crc32 c i (offset + c.fileBlockSize) d₂ := by
  obtain ⟨d₁, hfill, hsound₁, hfilled, -, hlength₁, hwritten₁⟩ := fileFillBuffer_sound offset h.sound hroom hle
  obtain ⟨d₂, hwrite, hsound₂, -, hlength₂, w, hwritten₂, hfile, hpos, hlen, hnote⟩ :=
    hsound₁.pwrite i hfilled (by omega) hle
  rw [hlength₁] at hlength₂
  rw [hwritten₁] at hwritten₂
  have hnonneg := h.nonneg
  refine ⟨d₁, d₂, hfill, hwrite, ⟨hsound₂, by omega, dvd_add_self_right.mpr h.dvd, fun id hid => ?_, ?_, fun id hid => ?_, ?_, ?_⟩⟩
  · rw [hlength₂, Function.update_of_ne hid.ne]
    exact h.long id hid
  · rw [hlength₂, Function.update_self, h.length]
    omega
  · rw [hlength₂, Function.update_of_ne hid.ne']
    exact h.empty id hid
  · rw [hwritten₂]
    intro w' hw'
    rcases List.mem_cons.mp hw' with rfl | hw'
    · exact ⟨hfile ▸ hi, hpos ▸ hnonneg, hpos ▸ hlt, hpos ▸ h.dvd, hlen, hpos ▸ hnote⟩
    · exact h.blocks w' hw'
  · rw [hwritten₂]
    intro id pos hin h0 h1 hdvd
    by_cases hnew : id = i ∧ pos = offset
    · exact ⟨w, List.mem_cons_self .., hfile.trans hnew.1.symm, hpos.trans hnew.2.symm⟩
    · have hin : id < i ∨ id = i ∧ pos < offset := by
        rcases hin with hid | ⟨hid, hlt'⟩
        · exact Or.inl hid
        · refine Or.inr ⟨hid, lt_of_not_ge fun hge => hnew ⟨hid, eq_of_dvd_of_lt hdvd h.dvd hlt' (by omega)⟩⟩
      obtain ⟨w', hw', heq⟩ := h.covered id pos hin h0 h1 hdvd
      exact ⟨w', List.mem_cons_of_mem _ hw', heq⟩

theorem writeBlocks_ends (hvalidate : c.validate) (hi : i < c.numFiles)
    (hroom : 0 < c.fileSize → 12 ≤ c.fileBlockSize ∧ c.fileBlockSize ≤ c.fileRequestSize) {rounds : ℕ} :
    ∀ {offset d}, (c.fileSize - offset).toNat ≤ rounds → Creating crc32 c i offset d →
      Ends (CreateOp.step crc32) (writeBlocks c rounds offset) (d, i, offset) fun failed w =>
        failed = false ∧ ∃ offset', c.fileSize ≤ offset' ∧ Creating crc32 c i offset' w.1 := by
  induction rounds with
  | zero =>
    intro offset d hrounds h
    exact Ends.pure ⟨rfl, offset, by omega, h⟩
  | succ rounds ih =>
    intro offset d hrounds h
    refine Ends.ite (fun hdone => Ends.pure ⟨rfl, offset, hdone, h⟩) fun hlt => ?_
    have hnonneg := h.nonneg
    obtain ⟨hblock, hle⟩ := hroom (by omega)
    have hpos : ¬c.fileBlockSize < 0 := by omega
    obtain ⟨d₁, d₂, hfill, hwrite, hnext⟩ := h.write hi (by omega) hblock hle
    have hfill : CreateOp.step crc32 (.fillBuffer c.fileBlockSize offset) (d, i, offset) = some ((), d₁, i, offset) := by
      show (fileFillBuffer crc32 c.fileBlockSize offset d).map _ = _
      rw [hfill]
      rfl
    have hwrite : CreateOp.step crc32 (.write c.fileBlockSize) (d₁, i, offset) =
        some (c.fileBlockSize, d₂, i, offset + c.fileBlockSize) := by
      show (d₁.pwrite i c.fileBlockSize offset).map _ = _
      rw [hwrite]
      rfl
    refine Ends.bind (R := fun _ w => (d₁, i, offset) = w)
      (Ends.onlyIf (fun _ => Ends.perform hfill rfl) fun hno => absurd hvalidate hno) ?_
    rintro _ _ rfl
    refine Ends.perform_bind hwrite (Ends.ite (fun hneg => absurd hneg hpos) fun _ => ?_)
    exact ih (by omega) hnext

theorem createFrom_ends (hvalidate : c.validate)
    (hroom : 0 < c.fileSize → 12 ≤ c.fileBlockSize ∧ c.fileBlockSize ≤ c.fileRequestSize) {n : ℕ} :
    ∀ {i d fd}, i + n = c.numFiles → Creating crc32 c i 0 d →
      Ends (CreateOp.step crc32) (createFrom c n i) (d, fd) fun failed w => failed = false ∧ Created crc32 c w.1 := by
  induction n with
  | zero =>
    intro i d fd hi h
    exact Ends.pure ⟨rfl, h.sound, fun id hid => h.long id (by omega),
      ⟨h.blocks, fun id hid pos => h.covered id pos (Or.inl (by omega))⟩⟩
  | succ n ih =>
    intro i d fd hi h
    have hseek : CreateOp.step crc32 .seekEnd (d, i, 0) = some (0, d, i, 0) := by
      show some (d.length i, d, i, d.length i) = _
      rw [h.length]
    refine Ends.perform_bind rfl (Ends.perform_bind hseek (Ends.bind (writeBlocks_ends hvalidate (by omega) hroom (by omega) h) ?_))
    rintro failed ⟨d', fd'⟩ ⟨rfl, offset, hdone, h'⟩
    refine Ends.perform_bind rfl (Ends.perform_bind rfl (ih (by omega) ?_))
    exact {
      sound := h'.sound
      nonneg := le_rfl
      dvd := dvd_zero _
      long := fun id hid => by
        rcases Nat.lt_succ_iff_lt_or_eq.mp hid with hid | rfl
        · exact h'.long id hid
        · rw [h'.length]
          exact hdone
      length := h'.empty _ (by omega)
      empty := fun id hid => h'.empty id (by omega)
      blocks := h'.blocks
      covered := fun id pos hin h0 h1 => h'.covered id pos (by omega) h0 h1 }

theorem FileDisk.blank_sound (crc32 : List UInt8 → UInt32) (hrequest : 0 ≤ c.fileRequestSize) (s : FileState) (random : ℕ → UInt8) :
    (FileDisk.blank c s random).Sound crc32 c where
  buffer := by
    show ((List.replicate c.fileRequestSize.toNat (0 : UInt8)).length : ℤ) = _
    rw [List.length_replicate, Int.toNat_of_nonneg hrequest]
  filled len offset hfilled := by cases hfilled
  cells := rfl
  blocks w hw := absurd hw List.not_mem_nil

/-- Where a block has room for the checksum and the offset and fits into the buffer, all blocks are written. -/
theorem createFiles_ends (crc32 : List UInt8 → UInt32) (hvalidate : c.validate) (hrequest : 0 ≤ c.fileRequestSize)
    (hflags : c.fileExtraFlags ≤ 4) (hroom : 0 < c.fileSize → 12 ≤ c.fileBlockSize ∧ c.fileBlockSize ≤ c.fileRequestSize)
    (s : FileState) (random : ℕ → UInt8) (fd : ℕ × ℤ) :
    Ends (CreateOp.step crc32) (createFiles c) (.blank c s random, fd) fun failed w => failed = false ∧ Created crc32 c w.1 := by
  refine Ends.ite (fun hmore => absurd hmore (by omega)) fun _ => createFrom_ends hvalidate hroom (zero_add _) ?_
  exact {
    sound := FileDisk.blank_sound crc32 hrequest s random
    nonneg := le_rfl
    dvd := dvd_zero _
    long := fun id hid => absurd hid (Nat.not_lt_zero _)
    length := rfl
    empty := fun _ _ => rfl
    blocks := fun w hw => absurd hw List.not_mem_nil
    covered := fun id pos hin h0 => absurd hin (by omega) }

/-- Otherwise the first block is filled beyond the buffer. -/
theorem createFiles_outside (hvalidate : c.validate) (hrequest : 0 ≤ c.fileRequestSize) (hflags : c.fileExtraFlags ≤ 4)
    (hnum : 0 < c.numFiles) (hfile : 0 < c.fileSize) (hroom : ¬(12 ≤ c.fileBlockSize ∧ c.fileBlockSize ≤ c.fileRequestSize))
    (s : FileState) (random : ℕ → UInt8) (fd : ℕ × ℤ) :
    (createFiles c).solo (CreateOp.step crc32) (.blank c s random, fd) = none := by
  obtain ⟨n, hn⟩ := Nat.exists_eq_add_one.mpr hnum
  obtain ⟨rounds, hrounds⟩ : ∃ rounds, c.fileSize.toNat = rounds + 1 := Nat.exists_eq_add_one.mpr (by omega)
  have hout : outsideBuffer c.fileBlockSize (FileDisk.blank c s random).buffer := by
    have hbuffer := (FileDisk.blank_sound crc32 hrequest s random).buffer
    unfold outsideBuffer fileChecksumLength fileOffsetLength
    omega
  have hfill : ∀ fd, CreateOp.step crc32 (.fillBuffer c.fileBlockSize 0) (.blank c s random, fd) = none := by
    intro fd
    show (fileFillBuffer crc32 c.fileBlockSize 0 _).map _ = none
    rw [fileFillBuffer, if_pos hout]
    rfl
  have hfirst : (writeBlocks c (rounds + 1) 0).solo (CreateOp.step crc32) (.blank c s random, 0, 0) = none := by
    rw [writeBlocks, if_neg (by omega), solo_bind, onlyIf, if_pos hvalidate, perform, solo, hfill]
    rfl
  rw [createFiles, if_neg (by omega), hn, createFrom, solo_perform_bind rfl]
  show (perform CreateOp.seekEnd >>= _).solo (CreateOp.step crc32) (FileDisk.blank c s random, 0, 0) = none
  rw [solo_perform_bind rfl, solo_bind, hrounds]
  show ((writeBlocks c (rounds + 1) 0).solo _ (FileDisk.blank c s random, 0, 0)).bind _ = none
  rw [hfirst]
  rfl

end create

end NuKSM.Sysbench
