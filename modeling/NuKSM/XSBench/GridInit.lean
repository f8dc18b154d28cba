import NuKSM.XSBench.Grid
import NuKSM.XSBench.Lcg

/-! # Building the grids and the material tables of XSBench (`GridInit.c`, `Materials.c`, `XSutils.c`)

The numbers that the generator draws enter as parameters, so that what is proved about the grids holds for every
set of nuclide grids; `gridInitDoNotProfile` draws them as the source does. The progress output is left out. -/

namespace NuKSM.XSBench
variable {E : Type}

/-! ### Sorting (`XSutils.c`) -/

section compare
variable [LinearOrder E]

def doubleCompare (a b : E) : ℤ := if a > b then 1 else if a < b then -1 else 0

/-- `NGP_compare`. -/
def ngpCompare (a b : NuclideGridPoint E) : ℤ :=
  if a.energy > b.energy then 1 else if a.energy < b.energy then -1 else 0

end compare

/-- `qsort`; where elements compare as equal the order among them is one of several that it may leave. -/
def qsort {α : Type} (cmp : α → α → ℤ) (A : List α) : List α := A.insertionSort fun a b => cmp a b ≤ 0

/-- `qsort` of the `n` elements from `A[start]` on. -/
def qsortAt {α : Type} (cmp : α → α → ℤ) (A : List α) (start n : ℤ) : Option (List α) :=
  if 0 ≤ start ∧ 0 ≤ n ∧ start + n ≤ A.length then
    some (A.take start.toNat ++ qsort cmp ((A.drop start.toNat).take n.toNat) ++ A.drop (start + n).toNat)
  else none

/-! ### The grids (`GridInit.c`) -/

section grids
variable [LinearOrder E]

/-- "Initialize Nuclide Grids": the sampled points, sorted within each nuclide. -/
def initNuclideGrid (sampled : ℕ → NuclideGridPoint E) (input : Inputs) : Option (List (NuclideGridPoint E)) := do
  let nuclideGrid ← tabulate (toInt (input.nIsotopes * input.nGridpoints)) fun i => some (sampled i.toNat)
  forUp input.nIsotopes (fun grid i => qsortAt ngpCompare grid (i * input.nGridpoints) input.nGridpoints) nuclideGrid

/-- The arrays of the sweep that fills the index grid. -/
structure Sweep (E : Type) where
  idxLow : List ℤ
  energyHigh : List E
  indexGrid : List (Option ℤ)

/-- The body of the inner loop of the sweep, for the unionized point `e` and the nuclide `i`. -/
def sweepNuclide (input : Inputs) (nuclideGrid : List (NuclideGridPoint E)) (unionizedEnergy : E) (e : ℤ)
    (s : Sweep E) (i : ℤ) : Option (Sweep E) := do
  let high ← peek s.energyHigh i
  let low ← peek s.idxLow i
  if unionizedEnergy < high then
    let indexGrid ← poke s.indexGrid (e * input.nIsotopes + i) (some low)
    return { s with indexGrid }
  else if low = input.nGridpoints - 2 then
    let indexGrid ← poke s.indexGrid (e * input.nIsotopes + i) (some low)
    return { s with indexGrid }
  else
    let idxLow ← poke s.idxLow i (low + 1)
    let indexGrid ← poke s.indexGrid (e * input.nIsotopes + i) (some (low + 1))
    let next ← peek nuclideGrid (i * input.nGridpoints + (low + 1) + 1)
    let energyHigh ← poke s.energyHigh i next.energy
    return { idxLow, energyHigh, indexGrid }

/-- The body of the outer loop of the sweep. -/
def sweepPoint (input : Inputs) (nuclideGrid : List (NuclideGridPoint E)) (unionizedEnergyArray : List E)
    (s : Sweep E) (e : ℤ) : Option (Sweep E) := do
  let unionizedEnergy ← peek unionizedEnergyArray e
  forUp input.nIsotopes (sweepNuclide input nuclideGrid unionizedEnergy e) s

/-- "Generates the double indexing grid". -/
def initIndexGrid (input : Inputs) (nuclideGrid : List (NuclideGridPoint E)) (unionizedEnergyArray : List E)
    (length lengthIndexGrid : ℤ) : Option (List (Option ℤ)) := do
  let indexGrid ← allocate lengthIndexGrid none
  let idxLow ← allocate input.nIsotopes 0
  let energyHigh ← tabulate input.nIsotopes fun i => (peek nuclideGrid (i * input.nGridpoints + 1)).map (·.energy)
  let s ← forUp length (sweepPoint input nuclideGrid unionizedEnergyArray) { idxLow, energyHigh, indexGrid }
  return s.indexGrid

/-- The union of all nuclide energies, sorted. -/
def initUnionizedEnergyArray (nuclideGrid : List (NuclideGridPoint E)) (length : ℤ) : Option (List E) := do
  let energies ← tabulate length fun i => (peek nuclideGrid i).map (·.energy)
  return qsort doubleCompare energies

/-- The index grid of the hash lookup: for each bin and nuclide the search for the lower energy of the bin. -/
def initHashGrid [HashArith E] (input : Inputs) (nuclideGrid : List (NuclideGridPoint E)) (lengthIndexGrid : ℤ) :
    Option (List (Option ℤ)) := do
  let indexGrid ← allocate lengthIndexGrid none
  forUp input.hashBins (fun indexGrid e =>
    forUp input.nIsotopes (fun indexGrid i => do
      let energy := HashArith.binEnergy input.hashBins e
      let low ← gridSearchNuclide nuclideGrid (i * input.nGridpoints) energy 0 (input.nGridpoints - 1)
      poke indexGrid (e * input.nIsotopes + i) (some (toInt low))) indexGrid) indexGrid

end grids

/-! ### The material tables (`Materials.c`) -/

def loadNumNucs (nIsotopes : ℤ) : List ℤ :=
  (if nIsotopes = 68 then 34 else 321) :: [5, 4, 4, 27, 21, 21, 21, 21, 21, 9, 9]

namespace Materials

/-- The fuel of the small reactor. -/
def mats0Sml : List ℤ :=
  [58, 59, 60, 61, 40, 42, 43, 44, 45, 46, 1, 2, 3, 7, 8, 9, 10, 29, 57, 47, 48, 0, 62, 15, 33, 34, 52, 53, 54, 55,
    56, 18, 23, 41]

/-- The fuel of the large reactor. -/
def mats0Lrg : List ℤ := mats0Sml ++ (List.range (321 - 34)).map fun i => 68 + (i : ℤ)

def cladding : List ℤ := [63, 64, 65, 66, 67]

def water : List ℤ := [24, 41, 4, 5]

def vessel : List ℤ :=
  [19, 20, 21, 22, 35, 36, 37, 38, 39, 25, 27, 28, 29, 30, 31, 32, 26, 49, 50, 51, 11, 12, 13, 14, 6, 16, 17]

/-- The reflectors, plates and nozzles. -/
def reflector : List ℤ :=
  [24, 41, 4, 5, 19, 20, 21, 22, 35, 36, 37, 38, 39, 25, 49, 50, 51, 11, 12, 13, 14]

def assemblies : List ℤ := [24, 41, 4, 5, 63, 64, 65, 66, 67]

def table (nIsotopes : ℤ) : List (List ℤ) :=
  (if nIsotopes = 68 then mats0Sml else mats0Lrg) ::
    [cladding, water, water, vessel, reflector, reflector, reflector, reflector, reflector, assemblies, assemblies]

end Materials

/-- A row of a flattened table of which only the front part is written. -/
def padRow {α : Type} (width : ℤ) (row : List α) : List (Option α) :=
  row.map some ++ List.replicate (width.toNat - row.length) none

/-- `load_mats`: the table and `max_num_nucs`. -/
def loadMats (numNucs : List ℤ) (nIsotopes : ℤ) : List (Option ℤ) × ℤ :=
  let maxNumNucs := numNucs.foldl max 0
  let rows := List.zipWith (fun n row => padRow maxNumNucs (row.take n.toNat)) numNucs (Materials.table nIsotopes)
  (rows.flatten, maxNumNucs)

/-- `load_concs`, with `drawn k` for the number of its draw `k`. -/
def loadConcs (drawn : ℕ → E) (numNucs : List ℤ) (maxNumNucs : ℤ) : List (Option E) :=
  (numNucs.foldl (fun (concs, k) n =>
    (concs ++ padRow maxNumNucs ((List.range n.toNat).map fun j => drawn (k + j)), k + n.toNat))
    (([], 0) : List (Option E) × ℕ)).1

/-! ### The whole initialization -/

/-- `grid_init_do_not_profile` on given draws: `sampled i` is the point that it draws for the place `i` of the nuclide
grid, and `drawn k` the concentration of its draw `k`. -/
def gridInitFrom [LinearOrder E] [HashArith E] (sampled : ℕ → NuclideGridPoint E) (drawn : ℕ → E) (input : Inputs) :
    Option (SimulationData E) := do
  let nuclideGrid ← initNuclideGrid sampled input
  let numNucs := loadNumNucs input.nIsotopes
  let (mats, maxNumNucs) := loadMats numNucs input.nIsotopes
  let concs := loadConcs drawn numNucs maxNumNucs
  let SD : SimulationData E :=
    { numNucs, concs, mats, nuclideGrid, maxNumNucs
      unionizedEnergyArray := []
      indexGrid := []
      lengthNumNucs := 12
      lengthConcs := 12 * maxNumNucs
      lengthMats := 12 * maxNumNucs
      lengthUnionizedEnergyArray := 0
      lengthIndexGrid := 0
      lengthNuclideGrid := toInt (input.nIsotopes * input.nGridpoints) }
  match input.gridType with
  | .nuclide => return SD
  | .unionized =>
    let lengthUnionizedEnergyArray := toInt (input.nIsotopes * input.nGridpoints)
    let lengthIndexGrid := lengthUnionizedEnergyArray * input.nIsotopes
    let unionizedEnergyArray ← initUnionizedEnergyArray nuclideGrid lengthUnionizedEnergyArray
    let indexGrid ← initIndexGrid input nuclideGrid unionizedEnergyArray lengthUnionizedEnergyArray lengthIndexGrid
    return { SD with unionizedEnergyArray, indexGrid, lengthUnionizedEnergyArray, lengthIndexGrid }
  | .hash =>
    let lengthIndexGrid := input.hashBins * input.nIsotopes
    let indexGrid ← initHashGrid input nuclideGrid lengthIndexGrid
    return { SD with indexGrid, lengthIndexGrid }

def startingSeed : UInt64 := 1070

/-- `grid_init_do_not_profile`, with the draws of its generators in exact arithmetic. -/
def gridInitDoNotProfile (input : Inputs) : Option (SimulationData ℚ) :=
  let draw := lcgDraw 42
  gridInitFrom
    (fun i => ⟨draw (6 * i), draw (6 * i + 1), draw (6 * i + 2), draw (6 * i + 3), draw (6 * i + 4), draw (6 * i + 5)⟩)
    (lcgDraw (startingSeed * startingSeed)) input

end NuKSM.XSBench
