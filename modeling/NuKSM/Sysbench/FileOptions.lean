import NuKSM.Sysbench.FileIo
import NuKSM.Sysbench.OptionValues

/-! # The options of the file I/O test (`sb_fileio.c`) as they are given -/

namespace NuKSM.Sysbench

def strFileNum : CString := .ofMemory "file-num".toList
def strFileTotalSize : CString := .ofMemory "file-total-size".toList
def strFileBlockSize : CString := .ofMemory "file-block-size".toList
def strFileMergedRequests : CString := .ofMemory "file-merged-requests".toList

/-- `parse_arguments` where `file-num`, `file-total-size`, `file-block-size` and `file-merged-requests` are still to be read
from the options, and `rest` has the others. A number that is malformed ends the program with its message, `file-num` at
once and `file-merged-requests` after the checks before it. -/
def parseOptions (build : FileBuild) (g : FileGlobals) (options : List SbOption) (rest : FileArgs) : Except String FileConfig := do
  let fileNum ← sbGetValueInt options strFileNum
  let fileTotalSize := sbGetValueSize options strFileTotalSize
  match sbGetValueInt options strFileMergedRequests with
  | .ok fileMergedRequests =>
    let fileBlockSize := sbGetValueSize options strFileBlockSize
    parseArguments build g { rest with fileNum, fileTotalSize, fileMergedRequests, fileBlockSize }
  | .error text =>
    let numFiles := fileNum.toUInt32.toNat
    checkArg (numFiles > 0) s!"Invalid value for file-num: {numFiles}"
    let totalSize := fileTotalSize.toInt64.toInt
    checkArg (totalSize > 0) s!"Invalid value for file-total-size: {totalSize}"
    let _ ← parseTestMode g.cmdname rest.fileTestMode
    let _ ← parseIoMode build rest.fileIoMode
    .error text

end NuKSM.Sysbench
