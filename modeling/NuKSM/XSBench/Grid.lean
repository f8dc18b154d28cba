import NuKSM.Lib.Array
import NuKSM.Lib.Bracket

/-! # The data of XSBench and its grid searches (`XSbench_header.h`, `Simulation.c`)

Energies and cross sections are `double` in the source and a linear order `E` here, with arithmetic where a
function needs it. A read outside an array, a read of memory that was never written and a failed assertion
have no value. -/

namespace NuKSM.XSBench

/-- The `grid_type` of a run: `UNIONIZED`, `NUCLIDE` or `HASH`. -/
inductive GridType
  | unionized
  | nuclide
  | hash
  deriving DecidableEq, Repr

structure NuclideGridPoint (E : Type) where
  energy : E
  totalXs : E
  elasticXs : E
  absorbtionXs : E
  fissionXs : E
  nuFissionXs : E
  deriving DecidableEq, Repr

/-- The fields of `Inputs` that shape the grids, with the defaults of `read_CLI`. -/
structure Inputs where
  nIsotopes : ℤ := 355
  nGridpoints : ℤ := 11303
  gridType : GridType := .unionized
  hashBins : ℤ := 10000
  deriving DecidableEq, Repr

/-- What the validation of `read_CLI` lets through: there are 68 isotopes for the size `small` and 355 for the others. -/
structure Inputs.Accepted (input : Inputs) : Prop where
  nIsotopes : input.nIsotopes = 68 ∨ input.nIsotopes = 355
  nGridpoints : 1 ≤ input.nGridpoints
  hashBins : 1 ≤ input.hashBins

/-- The arrays and lengths of `SimulationData`. What `malloc` leaves unwritten is `none`. -/
structure SimulationData (E : Type) where
  numNucs : List ℤ
  concs : List (Option E)
  mats : List (Option ℤ)
  unionizedEnergyArray : List E
  indexGrid : List (Option ℤ)
  nuclideGrid : List (NuclideGridPoint E)
  lengthNumNucs : ℤ
  lengthConcs : ℤ
  lengthMats : ℤ
  lengthUnionizedEnergyArray : ℤ
  lengthIndexGrid : ℤ
  lengthNuclideGrid : ℤ
  maxNumNucs : ℤ
  deriving DecidableEq, Repr

/-- The conversion of a `long` to an `int`. -/
def toInt (x : ℤ) : ℤ := x.bmod (2 ^ 32)

/-- The arithmetic on energies that only the hash grid uses. -/
class HashArith (E : Type) where
  /-- `e * du` with `du = 1.0 / hash_bins`. -/
  binEnergy : (hashBins e : ℤ) → E
  /-- `(long) (p_energy / du)` with `du = 1.0 / hash_bins`. -/
  binIndex : (hashBins : ℤ) → (pEnergy : E) → ℤ

/-- Exact arithmetic; the conversion to `long` cuts the fraction off. -/
instance : HashArith ℚ where
  binEnergy hashBins e := e * (1 / hashBins)
  binIndex hashBins pEnergy := (pEnergy / (1 / hashBins)).num.tdiv (pEnergy / (1 / hashBins)).den

section search
variable {E : Type} [LinearOrder E]

/-- `grid_search`. -/
def gridSearch (n : ℤ) (quarry : E) (A : List E) : Option ℤ :=
  bisect (fun i => (peek A i).map fun x => decide (quarry < x)) (n - 1).toNat 0 (n - 1)

/-- The places of `A` that `grid_search` reads. -/
def gridSearchReads (n : ℤ) (quarry : E) (A : List E) : List ℤ :=
  bisectReads (fun i => (peek A i).map fun x => decide (quarry < x)) (n - 1).toNat 0 (n - 1)

/-- `grid_search_nuclide` on the grid that starts at `A[base]`; its argument `n` is not used. -/
def gridSearchNuclide (A : List (NuclideGridPoint E)) (base : ℤ) (quarry : E) (low high : ℤ) : Option ℤ :=
  bisect (fun i => (peek A (base + i)).map fun x => decide (quarry < x.energy)) (high - low).toNat low high

/-- The places behind `A[base]` that `grid_search_nuclide` reads. -/
def gridSearchNuclideReads (A : List (NuclideGridPoint E)) (base : ℤ) (quarry : E) (low high : ℤ) : List ℤ :=
  bisectReads (fun i => (peek A (base + i)).map fun x => decide (quarry < x.energy)) (high - low).toNat low high

end search

end NuKSM.XSBench
