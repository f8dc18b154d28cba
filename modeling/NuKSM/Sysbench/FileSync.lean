import NuKSM.Lib.Journal
import NuKSM.Lib.LittleEndian
import NuKSM.Lib.Solo
import NuKSM.Sysbench.FileExec

/-! # Synchronous file I/O with validation (`sb_fileio.c`)

One thread works on the files, and the system does what it is asked for. -/

namespace NuKSM.Sysbench
open Thread LittleEndian

/-- A write to a file. The note says for which length and offset the buffer had been filled. -/
abbrev FileWrite := Patch ℕ UInt8 (Option (ℤ × ℤ))

/-- The variables of the generators, the files, and the buffer of the thread. -/
structure FileDisk where
  vars : FileState
  length : ℕ → ℤ
  cells : Store ℕ UInt8
  buffer : List UInt8
  /-- What `sb_rand_uniform_uint64() & 0xFF` will return. -/
  random : ℕ → UInt8
  /-- The length and the offset that the buffer was last filled for, unless a read has filled it. -/
  filled : Option (ℤ × ℤ)
  /-- The writes so far, the newest first. -/
  written : List FileWrite

/-- There are no files, and `parse_arguments` has cleared the buffer. -/
def FileDisk.blank (c : FileConfig) (s : FileState) (random : ℕ → UInt8) : FileDisk :=
  ⟨s, fun _ => 0, fun _ _ => 0, List.replicate c.fileRequestSize.toNat 0, random, none, []⟩

/-- The command `run` finds the files of the command `prepare`. -/
def FileDisk.prepared (c : FileConfig) (s : FileState) (random : ℕ → UInt8) (d : FileDisk) : FileDisk :=
  { FileDisk.blank c (clearStats (initVars s)) random with length := d.length, cells := d.cells, written := d.written }

/-! ### Buffers -/

/-- `FILE_CHECKSUM_LENGTH`. -/
def fileChecksumLength : ℕ := 4

/-- `FILE_OFFSET_LENGTH`. -/
def fileOffsetLength : ℕ := 8

/-- Where the checksum is. -/
def csOffset (len : ℤ) : ℕ := len.toNat - (fileChecksumLength + fileOffsetLength)

/-- A `size_t`. -/
def toSizeT (offset : ℤ) : ℕ := (offset % 2 ^ 64).toNat

/-- There is no room for the checksum and the offset, in which case the unsigned `len - 12` wraps, or the buffer is too
short. -/
def outsideBuffer (len : ℤ) (buffer : List UInt8) : Prop :=
  len < ((fileChecksumLength + fileOffsetLength : ℕ) : ℤ) ∨ (buffer.length : ℤ) < len

instance (len : ℤ) (buffer : List UInt8) : Decidable (outsideBuffer len buffer) := by
  unfold outsideBuffer
  infer_instance

section sync
-- `crc32(0, buf, len)`, for the bytes that it goes through.
variable (crc32 : List UInt8 → UInt32)

/-- A block with the data, its checksum and the offset. -/
def filledBlock (data : List UInt8) (offset : ℤ) : List UInt8 :=
  data ++ (encode fileChecksumLength (crc32 data).toNat ++ encode fileOffsetLength (toSizeT offset))

/-- `file_fill_buffer`, unless it goes outside of the buffer. -/
def fileFillBuffer (len offset : ℤ) (d : FileDisk) : Option FileDisk :=
  if outsideBuffer len d.buffer then none
  else some { d with
    buffer := filledBlock crc32 ((List.range (csOffset len)).map d.random) offset ++ d.buffer.drop len.toNat
    random := fun k => d.random (csOffset len + k)
    filled := some (len, offset) }

/-- `file_validate_buffer`, unless it goes outside of the buffer. -/
def fileValidateBuffer (len offset : ℤ) (buffer : List UInt8) : Option Bool :=
  if outsideBuffer len buffer then none
  else if (crc32 (buffer.take (csOffset len))).toNat ≠ decode ((buffer.drop (csOffset len)).take fileChecksumLength) then some true
  else some (toSizeT offset ≠ decode ((buffer.drop (csOffset len + fileChecksumLength)).take fileOffsetLength))

/-! ### Operations -/

namespace FileDisk

/-- `pread(fd, buf, count, offset)`, which stops at the end of the file. -/
def pread (fileId : ℕ) (count offset : ℤ) (d : FileDisk) : Option (ℤ × FileDisk) :=
  let n := (min count (d.length fileId - offset)).toNat
  if d.buffer.length < n then none
  else some (n, { d with buffer := d.cells.read fileId offset n ++ d.buffer.drop n, filled := none })

/-- `pwrite(fd, buf, count, offset)`. -/
def pwrite (fileId : ℕ) (count offset : ℤ) (d : FileDisk) : Option (ℤ × FileDisk) :=
  let w : FileWrite := ⟨fileId, offset, d.buffer.take count.toNat, d.filled⟩
  if (d.buffer.length : ℤ) < count then none
  else some (count, { d with
    length := Function.update d.length fileId (max (d.length fileId) (offset + count))
    cells := w.apply d.cells
    written := w :: d.written })

/-- The thread goes on with other counts. -/
def setVars (d : FileDisk) (vars : FileState) : FileDisk := { d with vars := vars }

end FileDisk

/-- An operation of a request in synchronous mode. It has no outcome where the code goes outside of `files[]` or of the
buffer. -/
def FileOp.syncStep (numFiles : ℕ) : (op : FileOp) → FileDisk → Option (op.Res × FileDisk)
  | .file fileId, d => if fileId < numFiles then some ((), d) else none
  | .fillBuffer len offset, d => (fileFillBuffer crc32 len offset d).map fun d => ((), d)
  | .validateBuffer len offset, d => (fileValidateBuffer crc32 len offset d.buffer).map fun mismatch => (mismatch, d)
  | .pread fileId count offset, d => d.pread fileId count offset
  | .pwrite fileId count offset, d => d.pwrite fileId count offset
  | .fsync _, d => some (false, d)
  | .countOther, d => some ((), d.setVars { d.vars with otherOps := d.vars.otherOps + 1 })
  | .countRead _, d => some ((), d.setVars { d.vars with readOps := d.vars.readOps + 1 })
  | .countWrite _, d => some ((), d.setVars { d.vars with writeOps := d.vars.writeOps + 1 })
  | _, _ => none

/-! ### `create_files` -/

/-- The operations of `create_files`, of which one file is open at a time. -/
inductive CreateOp
  /-- `open(file_name, O_CREAT | O_WRONLY | flags)`, and whether it fails. -/
  | openFile (fileId : ℕ)
  /-- `lseek(fd, 0, SEEK_END)`. -/
  | seekEnd
  /-- `file_fill_buffer(per_thread[0].buffer, len, offset)`. -/
  | fillBuffer (len offset : ℤ)
  /-- `write(fd, per_thread[0].buffer, count)`. -/
  | write (count : ℤ)
  | fsync
  | close
  deriving DecidableEq, Repr

namespace CreateOp

@[reducible] def Res : CreateOp → Type
  | openFile _ => Bool
  | seekEnd | write _ => ℤ
  | _ => Unit

/-- The file that is open and the position in it go with the disk. -/
def step : (op : CreateOp) → FileDisk × ℕ × ℤ → Option (op.Res × FileDisk × ℕ × ℤ)
  | openFile fileId, (d, _) => some (false, d, fileId, 0)
  | seekEnd, (d, fd, _) => some (d.length fd, d, fd, d.length fd)
  | fillBuffer len offset, (d, fd) => (fileFillBuffer crc32 len offset d).map fun d => ((), d, fd)
  | write count, (d, fd, pos) => (d.pwrite fd count pos).map fun r => (r.1, r.2, fd, pos + r.1)
  | fsync, w => some ((), w)
  | close, w => some ((), w)

end CreateOp

abbrev CreateM := Thread CreateOp CreateOp.Res

/-- The loop of `create_files` that writes a file, and whether it fails. A round writes a byte at least. -/
def writeBlocks (c : FileConfig) : (rounds : ℕ) → (offset : ℤ) → CreateM Bool
  | 0, _ => return false
  | rounds + 1, offset => do
    if c.fileSize ≤ offset then return false
    onlyIf c.validate (perform (CreateOp.fillBuffer c.fileBlockSize offset))
    if (← perform (CreateOp.write c.fileBlockSize)) < 0 then return true
    writeBlocks c rounds (offset + c.fileBlockSize)

/-- The loop of `create_files` over the files from `i` on, and whether it fails. -/
def createFrom (c : FileConfig) : (n i : ℕ) → CreateM Bool
  | 0, _ => return false
  | n + 1, i => do
    if ← perform (CreateOp.openFile i) then return true
    let offset ← perform CreateOp.seekEnd
    if ← writeBlocks c c.fileSize.toNat offset then
      perform CreateOp.close
      return true
    perform CreateOp.fsync
    perform CreateOp.close
    createFrom c n (i + 1)

/-- `create_files`, and whether it fails. `convert_extra_flags` takes no other flag together with `direct`. -/
def createFiles (c : FileConfig) : CreateM Bool := if c.fileExtraFlags > 4 then return true else createFrom c c.numFiles 0

/-! ### Runs -/

/-- The states between the requests of a thread on the files that `create_files` has made. -/
inductive FileRun (c : FileConfig) (threadId : ℕ) : FileDisk → Prop
  | created {s s' : FileState} {random random' : ℕ → UInt8} {fd fd' : ℕ × ℤ} {d : FileDisk} :
      (createFiles c).solo (CreateOp.step crc32) (.blank c s random, fd) = some (false, d, fd') →
      FileRun c threadId (d.prepared c s' random')
  | request {d d' : FileDisk} {draws : List ℚ} {req : SbFileRequest} {vars : FileState} : FileRun c threadId d →
      (∀ u ∈ draws, 0 ≤ u ∧ u < 1) → fileNextEvent c threadId draws d.vars = .ok (req, vars) →
      (fileExecuteEvent c req).solo (FileOp.syncStep crc32 c.numFiles) (d.setVars vars) = some (false, d') →
      FileRun c threadId d'

end sync

end NuKSM.Sysbench
