import NuKSM.Sysbench.OptionValues
import NuKSM.XSBench.Grid

/-! # The command line of XSBench (`io.c`)

`print_CLI_error`, which prints the usage and exits, is `none`. -/

namespace NuKSM.XSBench

/-- `HISTORY_BASED` and `EVENT_BASED`. -/
inductive SimulationMethod
  | historyBased | eventBased
  deriving DecidableEq, Repr

/-- `NONE`, `READ` and `WRITE`. -/
inductive BinaryMode
  | none | read | write
  deriving DecidableEq, Repr

/-- `Inputs` with all its fields and the defaults of `read_CLI`, where `nthreads` is 1 or `omp_get_num_procs()`. -/
structure CliInputs extends Inputs where
  nthreads : ℤ
  lookups : ℤ := 34
  hm : String := "large"
  particles : ℤ := 500000
  simulationMethod : SimulationMethod := .historyBased
  binaryMode : BinaryMode := .none
  kernelId : ℤ := 0
  deriving DecidableEq, Repr

/-- The variables of `read_CLI`. -/
structure CliState where
  input : CliInputs
  userG : Bool := false
  defaultLookups : Bool := true
  defaultParticles : Bool := true
  deriving DecidableEq, Repr

/-- `atol`. -/
def atol (s : String) : ℤ := (Sysbench.strtol s.toList).1

/-- `atoi`, which converts what `strtol` reads to `int`. -/
def atoi (s : String) : ℤ := toInt (atol s)

/-- Whether `strcasecmp` is 0. -/
def sameIgnoringCase (s t : String) : Bool := s.toList.map Char.toLower == t.toList.map Char.toLower

def simulationMethod? : String → Option SimulationMethod
  | "history" => some .historyBased
  | "event" => some .eventBased
  | _ => none

def gridType? : String → Option GridType
  | "unionized" => some .unionized
  | "nuclide" => some .nuclide
  | "hash" => some .hash
  | _ => none

def binaryMode? : String → Option BinaryMode
  | "read" => some .read
  | "write" => some .write
  | _ => none

/-- A round of the loop, for an option that has a value. -/
def readOption (arg value : String) (s : CliState) : Option CliState :=
  match arg with
  | "-t" => some { s with input.nthreads := atoi value }
  | "-g" => some { s with userG := true, input.nGridpoints := atol value }
  | "-m" => (simulationMethod? value).map fun
    | .historyBased => { s with input.simulationMethod := .historyBased }
    | .eventBased =>
      let s := { s with input.simulationMethod := .eventBased }
      -- Also resets default # of lookups
      if s.defaultLookups && s.defaultParticles then
        { s with input.lookups := s.input.lookups * s.input.particles, input.particles := 0 }
      else s
  | "-l" => some { s with input.lookups := atoi value, defaultLookups := false }
  | "-h" => some { s with input.hashBins := atoi value }
  | "-p" => some { s with input.particles := atoi value, defaultParticles := false }
  | "-s" => some { s with input.hm := value }
  | "-G" => (gridType? value).map fun gridType => { s with input.gridType := gridType }
  | "-b" => (binaryMode? value).map fun binaryMode => { s with input.binaryMode := binaryMode }
  | "-k" => some { s with input.kernelId := atoi value }
  | _ => none

/-- "Collect Raw Input". -/
def readArgs : List String → CliState → Option CliState
  | [], s => some s
  | [_], _ => none
  | arg :: value :: args, s => (readOption arg value s).bind (readArgs args)

/-- "Validate Input", which fails where it prints an error. -/
def validInput (input : CliInputs) : Bool :=
  1 ≤ input.nthreads && 1 ≤ input.nIsotopes && 1 ≤ input.nGridpoints && 1 ≤ input.lookups && 1 ≤ input.hashBins &&
    ["small", "large", "XL", "XXL"].any (sameIgnoringCase input.hm)

/-- "Set HM size specific parameters". -/
def setSize (s : CliState) : CliInputs :=
  if sameIgnoringCase s.input.hm "small" then { s.input with nIsotopes := 68 }
  else if sameIgnoringCase s.input.hm "XL" && !s.userG then { s.input with nGridpoints := 238847 }
  else if sameIgnoringCase s.input.hm "XXL" && !s.userG then { s.input with nGridpoints := 238847 * 21 / 10 }
  else s.input

/-- `read_CLI`, for the arguments behind the name of the program. -/
def readCli (nthreads : ℤ) (args : List String) : Option CliInputs := do
  let s ← readArgs args { input := { nthreads } }
  if validInput s.input then some (setSize s) else none

end NuKSM.XSBench
