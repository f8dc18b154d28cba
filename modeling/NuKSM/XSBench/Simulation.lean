import NuKSM.XSBench.GridInit
import NuKSM.XSBench.QuickSort

/-! # The simulation loops (`Simulation.c`)

A cross section lookup is a parameter of the loops: `macroXs` stands for `calculate_macro_xs` on one set of inputs and
grids. Iterations that the source runs in parallel are run in their order. -/

namespace NuKSM.XSBench

/-- The arithmetic of sampling and voting. -/
class SampleArith (E : Type) where
  /-- A constant of the source that is a whole number. -/
  const : ℤ → E
  /-- `(double) seed / (double) m`. -/
  draw : UInt64 → E
  /-- `dist[i] + … + dist[1]`, summed from the left. -/
  running : ℤ → E

/-- The `dist` of `pick_mat`, in thousandths. -/
def dist : List ℤ := [140, 52, 275, 134, 154, 64, 66, 55, 8, 15, 25, 13]

/-- Exact arithmetic. -/
instance instSampleArithRat : SampleArith ℚ where
  const x := x
  draw seed := (seed.toNat : ℚ) / (Lcg.m.toNat : ℚ)
  running i := ((dist.take (i.toNat + 1)).tail.sum : ℚ) / 1000

/-- The generator of one lookup or particle. `drawn` records the states in which a number was drawn. -/
structure Stream where
  seed : UInt64
  drawn : List UInt64
  deriving DecidableEq, Repr

/-- `seed = fast_forward_LCG(seed, n)`. -/
def Stream.fastForward (s : Stream) (n : UInt64) : Option Stream :=
  (fastForwardLcg s.seed n).map fun seed => { s with seed }

section sample
variable {E : Type} [LinearOrder E] [SampleArith E]

/-- `LCG_random_double`. -/
def Stream.randomDouble (s : Stream) : E × Stream :=
  (SampleArith.draw (lcgNext s.seed), ⟨lcgNext s.seed, s.drawn ++ [s.seed]⟩)

/-- The loop of `pick_mat`. -/
def pickMatFor (roll : E) : ℤ :=
  (([0, 1, 2, 3, 4, 5, 6, 7, 8, 9, 10, 11] : List ℤ).find? fun i => decide (roll < SampleArith.running i)).getD 0

variable (E)

/-- `pick_mat`. -/
def pickMat (s : Stream) : ℤ × Stream :=
  let (roll, s) : E × Stream := s.randomDouble
  (pickMatFor roll, s)

/-- "Randomly pick an energy and material for the particle". -/
def sample (s : Stream) : (E × ℤ) × Stream :=
  let (pEnergy, s) : E × Stream := s.randomDouble
  let (mat, s) := pickMat E s
  ((pEnergy, mat), s)

/-- The samples of lookup `i` of the event based simulations. -/
def eventSample (i : ℤ) : Option ((E × ℤ) × Stream) := do
  let n ← intArith (2 * i)
  let s ← (Stream.mk startingSeed []).fastForward (UInt64.ofInt n)
  return sample E s

variable {E}

/-- The `max_idx` of a `macro_xs_vector`. -/
def maxIndex (macroXsVector : List E) : Option ℤ :=
  (forUp 5 (fun (max, maxIdx) j => (peek macroXsVector j).map fun x => if x > max then (x, j) else (max, maxIdx))
    (SampleArith.const (-1), 0)).map Prod.snd

/-- The `n_forward` that a `macro_xs_vector` asks for. -/
def nForward (macroXsVector : List E) : Option UInt64 :=
  forUp 5 (fun n j => (peek macroXsVector j).map fun x => if x > SampleArith.const 1 then n + 1 else n) 0

variable (macroXs : E → ℤ → Option (List E))

/-- A lookup, and what it adds to `verification`. -/
def lookup (pEnergy : E) (mat : ℤ) (verification : UInt64) : Option (List E × UInt64) := do
  let macroXsVector ← macroXs pEnergy mat
  let maxIdx ← maxIndex macroXsVector
  return (macroXsVector, verification + UInt64.ofInt (maxIdx + 1))

/-! ### Event based -/

/-- `run_event_based_simulation`. -/
def runEventBasedSimulation (lookups : ℤ) : Option UInt64 :=
  forUp lookups (fun verification i => do
    let ((pEnergy, mat), _) ← eventSample E i
    (lookup macroXs pEnergy mat verification).map Prod.snd) 0

/-- "Count up number of each type of sample". -/
def numSamplesPerMat (lookups : ℤ) (matSamples : List ℤ) : Option (List ℤ) :=
  forUp lookups (fun num l => do
    let m ← peek matSamples l
    let n ← peek num m
    poke num m (n + 1)) (List.replicate 12 0)

/-- "Determine offsets". -/
def sampleOffsets (num : List ℤ) : Option (List ℤ) :=
  forUp 11 (fun offsets k => do
    let m := k + 1
    let offset ← peek offsets (m - 1)
    let n ← peek num (m - 1)
    poke offsets m (offset + n)) (List.replicate 12 0)

/-- "Perform lookups for each material separately". -/
def lookupsPerMat (num : List ℤ) (pEnergySamples : List E) (matSamples : List ℤ) : Option UInt64 :=
  (forUp 12 (fun (verification, offset) m => do
    let n ← peek num m
    let verification ← forUp n (fun verification k => do
      let pEnergy ← peek pEnergySamples (offset + k)
      let mat ← peek matSamples (offset + k)
      (lookup macroXs pEnergy mat verification).map Prod.snd) verification
    return (verification, offset + n)) ((0, 0) : UInt64 × ℤ)).map Prod.fst

/-- `run_event_based_simulation_optimization_1`. The memory around `mat_samples` and `p_energy_samples` is a
parameter. -/
def runEventBasedSimulationOptimization1 (beyondMat : ℤ → Option ℤ) (beyondEnergy : ℤ → Option E) (lookups : ℤ) :
    Option UInt64 := do
  let samples ← tabulate lookups fun i => (eventSample E i).map Prod.fst
  let byMat ← quickSortParallelID beyondMat ⟨samples.map Prod.snd, samples.map Prod.fst⟩ 0 lookups
  let num ← numSamplesPerMat lookups byMat.key
  let offsets ← sampleOffsets num
  let byEnergy ← forUp 12 (fun A m => do
    let offset ← peek offsets m
    let n ← peek num m
    quickSortParallelDI beyondEnergy A offset n) ⟨byMat.value, byMat.key⟩
  lookupsPerMat macroXs num byEnergy.key byEnergy.value

/-! ### History based -/

/-- A round of the inner loop of a particle. -/
def historyRound (v : ((E × ℤ) × Stream) × UInt64) (_i : ℤ) : Option (((E × ℤ) × Stream) × UInt64) := do
  let (((pEnergy, mat), s), verification) := v
  let (macroXsVector, verification) ← lookup macroXs pEnergy mat verification
  let n ← nForward macroXsVector
  let s ← if n > 0 then s.fastForward n else some s
  return (sample E s, verification)

/-- An iteration of the outer loop of `run_history_based_simulation`: what is left of the generator, and the new
`verification`. -/
def historyParticle (lookups p : ℤ) (verification : UInt64) : Option (Stream × UInt64) := do
  let n ← intArith (p * lookups)
  let n ← intArith (n * 2)
  let n ← intArith (n * 5)
  let s ← (Stream.mk startingSeed []).fastForward (UInt64.ofInt n)
  let ((_, s), verification) ← forUp lookups (historyRound macroXs) (sample E s, verification)
  return (s, verification)

/-- `run_history_based_simulation`. -/
def runHistoryBasedSimulation (lookups particles : ℤ) : Option UInt64 :=
  forUp particles (fun verification p => (historyParticle macroXs lookups p verification).map Prod.snd) 0

end sample

end NuKSM.XSBench
