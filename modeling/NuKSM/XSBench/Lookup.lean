import NuKSM.XSBench.Grid

/-! # Cross section lookups (`Simulation.c`)

A pointer into the nuclide grid is its index there, which may lie outside the grid; the reads are checked. -/

namespace NuKSM.XSBench
variable {E : Type}

/-- The index that `calculate_macro_xs` finds once for all nuclides of a material. -/
def macroIndex [LinearOrder E] [HashArith E] (input : Inputs) (SD : SimulationData E) (pEnergy : E) : Option ℤ :=
  match input.gridType with
  | .unionized => gridSearch (input.nIsotopes * input.nGridpoints) pEnergy SD.unionizedEnergyArray
  | .hash => some (HashArith.binIndex input.hashBins pEnergy)
  | .nuclide => some (-1)

/-- The "check to ensure that we're not reading off the end of the nuclide's grid". -/
def offTheEnd (input : Inputs) (nuc index : ℤ) : ℤ :=
  if index = input.nGridpoints - 1 then nuc * input.nGridpoints + index - 1 else nuc * input.nGridpoints + index

section micro
variable [LinearOrder E] (input : Inputs) (SD : SimulationData E) (pEnergy : E) (nuc idx : ℤ)

/-- `index_data[i]`. -/
def indexData (i : ℤ) : Option ℤ := (peek SD.indexGrid i).join

/-- "Determine higher bounding index" of the hash lookup. -/
def hashHigh : Option ℤ :=
  if idx = input.hashBins - 1 then some (toInt (input.nGridpoints - 1))
  else (indexData SD ((idx + 1) * input.nIsotopes + nuc)).map (· + 1)

/-- "Check edge cases to make sure energy is actually between these" and search. -/
def hashLower (uLow uHigh : ℤ) (eLow eHigh : E) : Option ℤ :=
  if pEnergy ≤ eLow then some 0
  else if pEnergy ≥ eHigh then some (toInt (input.nGridpoints - 1))
  else (gridSearchNuclide SD.nuclideGrid (nuc * input.nGridpoints) pEnergy uLow uHigh).map toInt

/-- The part of `calculate_micro_xs` that sets the pointer `low`. -/
def microLow : Option ℤ := do
  match input.gridType with
  | .nuclide =>
    let idx ← gridSearchNuclide SD.nuclideGrid (nuc * input.nGridpoints) pEnergy 0 (input.nGridpoints - 1)
    return offTheEnd input nuc idx
  | .unionized =>
    let index ← indexData SD (idx * input.nIsotopes + nuc)
    return offTheEnd input nuc index
  | .hash =>
    let uLow ← indexData SD (idx * input.nIsotopes + nuc)
    let uHigh ← hashHigh input SD nuc idx
    let low ← peek SD.nuclideGrid (nuc * input.nGridpoints + uLow)
    let high ← peek SD.nuclideGrid (nuc * input.nGridpoints + uHigh)
    let lower ← hashLower input SD pEnergy nuc uLow uHigh low.energy high.energy
    return offTheEnd input nuc lower

end micro

/-- The `xs_vector` that `calculate_micro_xs` interpolates between the points `low` and `high`. -/
def interpolate [Field E] (pEnergy : E) (low high : NuclideGridPoint E) : List E :=
  let f := (high.energy - pEnergy) / (high.energy - low.energy)
  [high.totalXs - f * (high.totalXs - low.totalXs),
    high.elasticXs - f * (high.elasticXs - low.elasticXs),
    high.absorbtionXs - f * (high.absorbtionXs - low.absorbtionXs),
    high.fissionXs - f * (high.fissionXs - low.fissionXs),
    high.nuFissionXs - f * (high.nuFissionXs - low.nuFissionXs)]

/-- `calculate_micro_xs`. -/
def calculateMicroXs [LinearOrder E] [Field E] (input : Inputs) (SD : SimulationData E) (pEnergy : E)
    (nuc idx : ℤ) : Option (List E) := do
  let low ← microLow input SD pEnergy nuc idx
  let lowPoint ← peek SD.nuclideGrid low
  let highPoint ← peek SD.nuclideGrid (low + 1)
  return interpolate pEnergy lowPoint highPoint

/-- The pointer `low` of the nuclide `nuc` in a lookup of `calculate_macro_xs`. -/
def lookupLow [LinearOrder E] [HashArith E] (input : Inputs) (SD : SimulationData E) (pEnergy : E) (nuc : ℤ) :
    Option ℤ := do
  let idx ← macroIndex input SD pEnergy
  microLow input SD pEnergy nuc idx

/-- The cross sections of the nuclide `nuc` in a lookup of `calculate_macro_xs`. -/
def lookupXs [LinearOrder E] [Field E] [HashArith E] (input : Inputs) (SD : SimulationData E) (pEnergy : E)
    (nuc : ℤ) : Option (List E) := do
  let idx ← macroIndex input SD pEnergy
  calculateMicroXs input SD pEnergy nuc idx

/-- `calculate_macro_xs`. -/
def calculateMacroXs [LinearOrder E] [Field E] [HashArith E] (input : Inputs) (SD : SimulationData E) (pEnergy : E)
    (mat : ℤ) : Option (List E) := do
  let idx ← macroIndex input SD pEnergy
  let numNucs ← peek SD.numNucs mat
  forUp numNucs (fun macroXs j => do
    let pNuc ← (peek SD.mats (mat * SD.maxNumNucs + j)).join
    let conc ← (peek SD.concs (mat * SD.maxNumNucs + j)).join
    let xsVector ← calculateMicroXs input SD pEnergy pNuc idx
    return List.zipWith (fun total xs => total + xs * conc) macroXs xsVector) [0, 0, 0, 0, 0]

end NuKSM.XSBench
