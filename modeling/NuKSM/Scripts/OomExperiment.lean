import Mathlib.Data.List.DropRight
import NuKSM.Lib.Array
import NuKSM.Lib.Dict

/-! # The table of the out-of-memory experiment (`parse_oom_experiment.py`)

The script reads two CSV files and prints a row for each row of the second file. A string is the list of its
characters and an exception has no other data than its type; what was printed before it stays printed. -/

namespace NuKSM.Scripts

/-- The exceptions that can end the script. -/
inductive PyError
  | indexError
  | overflowError
  | typeError
  | valueError
  deriving DecidableEq, Repr

/-- The tables of characters of a Python interpreter and its floating-point numbers. -/
structure Python (F : Type) where
  isSpace : Char → Bool
  /-- The value of a decimal digit. -/
  digit : Char → Option ℕ
  /-- `float(s)`. -/
  toFloat : List Char → Option F
  /-- The float next to a quotient. -/
  quotient : ℤ → ℤ → F
  /-- `str(x)`. -/
  str : F → List Char

/-! ### Python -/

/-- `f.readlines()` on a text whose line ends are translated. -/
def readlines : List Char → List (List Char)
  | [] => []
  | c :: text =>
    if c = '\n' then [c] :: readlines text
    else
      match readlines text with
      | [] => [[c]]
      | line :: lines => (c :: line) :: lines

/-- `curr[i]`; a negative index counts from the end. -/
def item (curr : List (List Char)) (i : ℤ) : Except PyError (List Char) :=
  match peek curr (if i < 0 then i + curr.length else i) with
  | some s => .ok s
  | none => .error .indexError

namespace Python
variable {F : Type} (py : Python F)

/-- `s.strip()`. -/
def strip (s : List Char) : List Char := (s.dropWhile py.isSpace).rdropWhile py.isSpace

/-- The digits behind the first one; an underscore may stand between two digits. -/
def digits (n : ℕ) : List Char → Option ℕ
  | [] => some n
  | '_' :: c :: s => (py.digit c).bind fun d => digits (10 * n + d) s
  | c :: s => (py.digit c).bind fun d => digits (10 * n + d) s

/-- A number without a sign. -/
def natural : List Char → Option ℕ
  | [] => none
  | c :: s => (py.digit c).bind fun d => py.digits d s

/-- `int(s)`. -/
def int (s : List Char) : Except PyError ℤ :=
  let n : Option ℤ :=
    match py.strip s with
    | '-' :: s => (py.natural s).map fun n => -(n : ℤ)
    | '+' :: s => (py.natural s).map fun n => (n : ℤ)
    | s => (py.natural s).map fun n => (n : ℤ)
  match n with
  | some n => .ok n
  | none => .error .valueError

/-- `float(s)`. -/
def float (s : List Char) : Except PyError F :=
  match py.toFloat s with
  | some x => .ok x
  | none => .error .valueError

/-- `a / b` for integers and `b` not `0`; a quotient that rounds to `2 ^ 1024` or more is too large for a float. -/
def divide (a b : ℤ) : Except PyError F :=
  if (2 ^ 1024 - 2 ^ 970) * |b| ≤ |a| then .error .overflowError else .ok (py.quotient a b)

end Python

/-! ### The script -/

/-- What both loops read from a line. -/
structure Row (F : Type) where
  time : ℤ
  cpuPercentage : F
  freeMemory : ℤ
  deduplicatedMemory : F

/-- `csv_ksm_dict_value`; the empty strings of a time that the dictionary does not have are `none`. -/
structure KsmValue (F : Type) where
  freeMemory : Option ℤ
  deduplicatedMemory : Option F
  cpuPercentage : Option F

/-- The values of `figure_type` that print rows. -/
inductive FigureType
  | freeMem
  | dedupMem
  | cpuPercentage
  deriving DecidableEq, Repr

def FigureType.name : FigureType → List Char
  | .freeMem => "FREE_MEM".toList
  | .dedupMem => "DEDUP_MEM".toList
  | .cpuPercentage => "CPU_PERCENTAGE".toList

/-- The variables that the loop over the nuKSM file keeps. -/
structure LoopState where
  freeMemComputed : Bool
  oom : Bool
  prevKsmFreeMemory : Option ℤ

/-- What a run has printed, and the exception that ended it. -/
structure Outcome where
  printed : List (List Char)
  error : Option PyError
  deriving DecidableEq

/-- `print("Time , KSM , nuKSM" )`. -/
def header : List Char := "Time , KSM , nuKSM".toList

/-- `print(time , "," , ksm , "," , nuksm)`. -/
def printLine (time : ℤ) (ksm nuksm : List Char) : List Char :=
  (toString time).toList ++ " , ".toList ++ ksm ++ " , ".toList ++ nuksm

/-- How `print` shows an integer or an empty string. -/
def showInt (value : Option ℤ) : List Char := value.elim [] fun n => (toString n).toList

/-- `a - b`; a string has no difference. -/
def subtract : Option ℤ → Option ℤ → Except PyError ℤ
  | some a, some b => .ok (a - b)
  | _, _ => .error .typeError

section script
variable {F : Type} (py : Python F)

/-- How `print` shows a float or an empty string. -/
def showFloat (value : Option F) : List Char := value.elim [] py.str

/-- The start of the body of both loops. -/
def readRow (line : List Char) : Except PyError (Row F) := do
  let curr := (py.strip line).splitOn ','
  let time ← py.int (← item curr 0)
  let cpuPercentage ← py.float (← item curr (-1))
  let freeMemory ← py.int (← item curr (-5))
  let deduplicatedMemory ← py.divide ((← py.int (← item curr (-3))) * 4) 1000000
  return ⟨time, cpuPercentage, freeMemory, deduplicatedMemory⟩

def Row.value (row : Row F) : KsmValue F :=
  ⟨some row.freeMemory, some row.deduplicatedMemory, some row.cpuPercentage⟩

/-- The loop over the KSM file. -/
def ksmLoop (csvKsmDict : Dict ℤ (KsmValue F)) : List (List Char) → Except PyError (Dict ℤ (KsmValue F))
  | [] => .ok csvKsmDict
  | line :: lines => do
    let row ← readRow py line
    ksmLoop (csvKsmDict.write (row.time, some row.value)) lines

/-- The search for the moment at which KSM runs out of memory. -/
def detect (s : LoopState) (ksmFreeMemory : Option ℤ) : Except PyError LoopState :=
  if s.freeMemComputed = false then .ok ⟨true, s.oom, ksmFreeMemory⟩
  else if s.oom = false then do
    let increase ← subtract ksmFreeMemory s.prevKsmFreeMemory
    return ⟨true, decide (10000 < increase), ksmFreeMemory⟩
  else .ok s

/-- The `print` at the end of the body. -/
def printRow (figureType : List Char) (oom : Bool) (value : KsmValue F) (row : Row F) : List (List Char) :=
  if figureType = FigureType.freeMem.name then
    [printLine row.time (if oom then "OOM".toList else showInt value.freeMemory) (showInt (some row.freeMemory))]
  else if figureType = FigureType.dedupMem.name then
    [printLine row.time (if oom then "OOM".toList else showFloat py value.deduplicatedMemory)
      (py.str row.deduplicatedMemory)]
  else if figureType = FigureType.cpuPercentage.name then
    [printLine row.time (if oom then "OOM".toList else showFloat py value.cpuPercentage) (py.str row.cpuPercentage)]
  else []

/-- The body of the loop over the nuKSM file. -/
def nuksmStep (csvKsmDict : Dict ℤ (KsmValue F)) (figureType : List Char) (s : LoopState) (line : List Char) :
    Except PyError (LoopState × List (List Char)) := do
  let row ← readRow py line
  let csvKsmDictValue := (csvKsmDict row.time).getD ⟨none, none, none⟩
  let s ← detect s csvKsmDictValue.freeMemory
  return (s, printRow py figureType s.oom csvKsmDictValue row)

/-- The loop over the nuKSM file. -/
def nuksmLoop (csvKsmDict : Dict ℤ (KsmValue F)) (figureType : List Char) (s : LoopState) : List (List Char) → Outcome
  | [] => ⟨[], none⟩
  | line :: lines =>
    match nuksmStep py csvKsmDict figureType s line with
    | .error e => ⟨[], some e⟩
    | .ok (s, printed) =>
      let rest := nuksmLoop csvKsmDict figureType s lines
      ⟨printed ++ rest.printed, rest.error⟩

/-- `parse_oom_experiment.py` on the texts of the two files. The variable `prev_ksm_free_memory` has no value at
the start, and is not read before it has one. -/
def parseOomExperiment (csvKsm csvNuksm figureType : List Char) : Outcome :=
  match ksmLoop py (fun _ => none) (readlines csvKsm).tail with
  | .error e => ⟨[], some e⟩
  | .ok csvKsmDict =>
    let rest := nuksmLoop py csvKsmDict figureType ⟨false, false, none⟩ (readlines csvNuksm).tail
    ⟨header :: rest.printed, rest.error⟩

end script

end NuKSM.Scripts
