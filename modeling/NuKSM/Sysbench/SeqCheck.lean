import NuKSM.Sysbench.FileIo

/-! # The check that requests are sequential (`sb_fileio.c`) -/

namespace NuKSM.Sysbench

/-- `prev_req` after `init_vars`. -/
def nullRequest : SbFileRequest := ⟨0, 0, 0, .null⟩

/-- What `%d` prints. -/
def printInt (x : ℤ) : ℤ := (Int32.ofInt x).toInt

/-- A line of the warning about a switch between files. -/
def switchText (name : String) (r : SbFileRequest) : String :=
  let fileId := printInt r.fileId
  let pos := printInt r.pos
  let size := printInt r.size
  s!"{name}: file_id: {fileId}, pos: {pos}  size: {size}"

/-- `check_seq_req`, with the warnings that it logs. The difference of two files is unsigned. -/
def checkSeqReq (c : FileConfig) (prev r : SbFileRequest) : List String :=
  if r.operation = .fsync ∨ r.operation = .null then []
  else if prev.operation = .null then []
  else if ((r.fileId : ℤ) - prev.fileId) % 2 ^ 32 > 1 ∧
      ¬(r.fileId = 0 ∧ (prev.fileId : ℤ) = ((c.numFiles : ℤ) - 1) % 2 ^ 32) then
    ["Discovered too large file difference in seq requests!"]
  else if r.fileId = prev.fileId then
    if r.pos - prev.pos ≠ prev.size then ["Discovered too large position difference in seq request!"] else []
  else -- if file changed last request has to complete file and new start
    if prev.pos + prev.size ≠ c.fileSize ∨ r.pos ≠ 0 then
      ["Invalid file switch found!", switchText "Old" prev, switchText "New" r]
    else []

/-- `file_get_seq_request` where `prev_req` is `prev`: the request, the variables, `prev_req` and the warnings afterwards. -/
def fileGetCheckedRequest (c : FileConfig) (prev : SbFileRequest) (s : FileState) :
    SbFileRequest × FileState × SbFileRequest × List String :=
  let (req, s) := fileGetSeqRequest c s
  if req.operation ≠ .fsync ∧ c.validate then (req, s, req, checkSeqReq c prev req) else (req, s, prev, [])

/-- The check of a series of requests, each but the `fsync` requests against the one before. -/
def checkSeqReqs (c : FileConfig) : (prev : SbFileRequest) → List SbFileRequest → List String
  | _, [] => []
  | prev, r :: reqs =>
    if r.operation = .fsync then checkSeqReqs c prev reqs else checkSeqReq c prev r ++ checkSeqReqs c r reqs

end NuKSM.Sysbench
