import NuKSM.Lib.Stored
import NuKSM.XSBench.GridInit

/-! # The binary file (`io.c`)

The `double` of the source is `E` here, which is kept as bytes as well. The arrays that `grid_init_do_not_profile`
builds are in memory with a value at every place, one that nobody wrote where `SimulationData` has `none`. -/

namespace NuKSM.XSBench
open Stored
variable {E : Type} [Stored E]

instance : Stored (NuclideGridPoint E) where
  bytes p := bytes p.energy ++ bytes p.totalXs ++ bytes p.elasticXs ++ bytes p.absorbtionXs ++ bytes p.fissionXs ++
    bytes p.nuFissionXs
  take := do
    let energy ← take
    let totalXs ← take
    let elasticXs ← take
    let absorbtionXs ← take
    let fissionXs ← take
    let nuFissionXs ← take
    return { energy, totalXs, elasticXs, absorbtionXs, fissionXs, nuFissionXs }
  take_bytes p rest := by
    simp only [List.append_assoc, run_bind_eq (take_bytes _ _)]
    rfl

/-- The pointers to the arrays. -/
structure Pointers where
  numNucs : UInt64
  concs : UInt64
  mats : UInt64
  unionizedEnergyArray : UInt64
  indexGrid : UInt64
  nuclideGrid : UInt64
  deriving DecidableEq, Repr

/-- The struct `SimulationData` with all its members in the order of `XSbench_header.h`, and its padding. -/
structure Header where
  pointers : Pointers
  lengthNumNucs : Int32
  lengthConcs : Int32
  lengthMats : Int32
  lengthUnionizedEnergyArray : Int32
  lengthIndexGrid : Int64
  lengthNuclideGrid : Int32
  maxNumNucs : Int32
  pEnergySamples : UInt64
  lengthPEnergySamples : Int32
  padding : UInt32
  matSamples : UInt64
  lengthMatSamples : Int32
  tailPadding : UInt32
  deriving DecidableEq, Repr

instance : Stored Pointers where
  bytes p := bytes p.numNucs ++ bytes p.concs ++ bytes p.mats ++ bytes p.unionizedEnergyArray ++ bytes p.indexGrid ++
    bytes p.nuclideGrid
  take := do
    let numNucs ← take
    let concs ← take
    let mats ← take
    let unionizedEnergyArray ← take
    let indexGrid ← take
    let nuclideGrid ← take
    return { numNucs, concs, mats, unionizedEnergyArray, indexGrid, nuclideGrid }
  take_bytes p rest := by
    simp only [List.append_assoc, run_bind_eq (take_bytes _ _)]
    rfl

instance : Stored Header where
  bytes h := bytes h.pointers ++ bytes h.lengthNumNucs ++ bytes h.lengthConcs ++ bytes h.lengthMats ++
    bytes h.lengthUnionizedEnergyArray ++ bytes h.lengthIndexGrid ++ bytes h.lengthNuclideGrid ++ bytes h.maxNumNucs ++
    bytes h.pEnergySamples ++ bytes h.lengthPEnergySamples ++ bytes h.padding ++ bytes h.matSamples ++
    bytes h.lengthMatSamples ++ bytes h.tailPadding
  take := do
    let pointers ← take
    let lengthNumNucs ← take
    let lengthConcs ← take
    let lengthMats ← take
    let lengthUnionizedEnergyArray ← take
    let lengthIndexGrid ← take
    let lengthNuclideGrid ← take
    let maxNumNucs ← take
    let pEnergySamples ← take
    let lengthPEnergySamples ← take
    let padding ← take
    let matSamples ← take
    let lengthMatSamples ← take
    let tailPadding ← take
    return {
      pointers, lengthNumNucs, lengthConcs, lengthMats, lengthUnionizedEnergyArray, lengthIndexGrid, lengthNuclideGrid,
      maxNumNucs, pEnergySamples, lengthPEnergySamples, padding, matSamples, lengthMatSamples, tailPadding }
  take_bytes h rest := by
    simp only [List.append_assoc, run_bind_eq (take_bytes _ _)]
    rfl

/-- A `SimulationData` in memory: the struct and the arrays that its pointers lead to. -/
structure InMemory (E : Type) where
  header : Header
  numNucs : List Int32
  concs : List E
  mats : List Int32
  nuclideGrid : List (NuclideGridPoint E)
  indexGrid : List Int32
  unionizedEnergyArray : List E
  deriving DecidableEq, Repr

/-- The calls of `binary_write`. -/
def writeCalls (SD : InMemory E) : StateT (List UInt8) Option Unit := do
  fwrite [SD.header] 1
  fwrite SD.numNucs SD.header.lengthNumNucs.toInt
  fwrite SD.concs SD.header.lengthConcs.toInt
  fwrite SD.mats SD.header.lengthMats.toInt
  fwrite SD.nuclideGrid SD.header.lengthNuclideGrid.toInt
  fwrite SD.indexGrid SD.header.lengthIndexGrid.toInt
  fwrite SD.unionizedEnergyArray SD.header.lengthUnionizedEnergyArray.toInt

/-- `binary_write`: the file that it leaves. -/
def binaryWrite (SD : InMemory E) : Option (List UInt8) := (writeCalls SD []).map (·.2)

/-- The calls of `binary_read`. -/
def readCalls (pointers : Pointers) : StateT (List UInt8) Option (InMemory E) := do
  let header : Header ← take
  let numNucs ← fread Int32 header.lengthNumNucs.toInt
  let concs ← fread E header.lengthConcs.toInt
  let mats ← fread Int32 header.lengthMats.toInt
  let nuclideGrid ← fread (NuclideGridPoint E) header.lengthNuclideGrid.toInt
  let indexGrid ← fread Int32 header.lengthIndexGrid.toInt
  let unionizedEnergyArray ← fread E header.lengthUnionizedEnergyArray.toInt
  return {
    header := { header with pointers := pointers }
    numNucs, concs, mats, nuclideGrid, indexGrid, unionizedEnergyArray }

/-- `binary_read`, with the pointers that its `malloc` calls return. -/
def binaryRead (pointers : Pointers) (file : List UInt8) : Option (InMemory E) := (readCalls pointers file).map (·.1)

end NuKSM.XSBench
