import Mathlib.Algebra.Order.Floor.Ring
import NuKSM.Sysbench.Config

/-! # The random number distributions of sysbench (`sb_rand.c`)

A `double` is an element of an ordered field, so its arithmetic is exact. The calls of `sb_rand_uniform_double` return
`draw 0`, `draw 1` and so on. -/

namespace NuKSM.Sysbench

variable {K : Type} [Field K] [LinearOrder K] [FloorRing K]

/-- The conversion of a `double` to `uint32_t`, which is undefined out of the range of the type. -/
def toUInt32? (x : K) : Option UInt32 := if -1 < x ∧ x < 2 ^ 32 then some (UInt32.ofNat ⌊x⌋.toNat) else none

/-- The conversion of a `uint32_t` to `double`. -/
def toDouble (x : UInt32) : K := x.toNat

/-- `rand_dist_t`. -/
inductive DistType
  | uniform | gaussian | special | pareto
  deriving DecidableEq, Repr

/-- The values of the options of `rand_args` that set the distribution. -/
structure RandArgs (K : Type) where
  randType : String := "special"
  randSpecIter : Int32 := 12
  randSpecPct : Int32 := 1
  randSpecRes : Int32 := 75
  randParetoH : K

/-- The variables that `sb_rand_init` sets, without the seeds. -/
structure RandParams (K : Type) where
  randType : DistType
  randIter : UInt32
  randPct : UInt32
  randRes : UInt32
  randIterMult : K
  randPctMult : K
  randPct2Mult : K
  randResMult : K
  paretoH : K
  paretoPower : K

/-- The comparisons of `sb_rand_init` with the names of the distributions, with the message before `return 1`. -/
def randDist : String → Except String DistType
  | "uniform" => .ok .uniform
  | "gaussian" => .ok .gaussian
  | "special" => .ok .special
  | "pareto" => .ok .pareto
  | s => .error s!"Invalid random numbers distribution: {s}."

/-- `sb_rand_init`. -/
def sbRandInit (log : K → K) (args : RandArgs K) : Except String (RandParams K) := do
  let randType ← randDist args.randType
  let randIter := args.randSpecIter.toUInt32
  let randPct := args.randSpecPct.toUInt32
  let randRes := args.randSpecRes.toUInt32
  return {
    randType, randIter, randPct, randRes
    randIterMult := 1 / toDouble randIter
    randPctMult := toDouble randPct / 100
    randPct2Mult := toDouble randPct / 200
    randResMult := 100 / (100 - toDouble randRes)
    paretoH := args.randParetoH
    paretoPower := log args.randParetoH / log (1 - args.randParetoH) }

/-- `sb_rand_uniform_double`, by the 64 random bits that it makes the number of: 52 of them are the fraction of a `double` from 1
on. -/
def sbRandUniformDouble (x : UInt64) : K := (1 : K) + ((x >>> 12).toNat : K) / 2 ^ 52 - 1

/-- `sb_rand_uniform`. -/
def sbRandUniform (draw : ℕ → K) (a b : UInt32) : Option UInt32 := toUInt32? (toDouble a + draw 0 * toDouble (b - a + 1))

/-- `sb_rand_gaussian`. -/
def sbRandGaussian (p : RandParams K) (draw : ℕ → K) (a b : UInt32) : Option UInt32 := do
  let t := toDouble (b - a + 1)
  let sum := (List.range p.randIter.toNat).foldl (fun sum i => sum + draw i * t) 0
  return a + (← toUInt32? (sum * p.randIterMult))

/-- `sb_rand_special`. -/
def sbRandSpecial (p : RandParams K) (draw : ℕ → K) (a b : UInt32) : Option UInt32 := do
  let t := toDouble (b - a)
  let rangeSize := t * p.randResMult
  let rnd := draw 0
  let res := rnd * rangeSize
  if res < t then
    let sum := (List.range p.randIter.toNat).foldl (fun sum i => sum + draw (i + 1)) 0
    toUInt32? (toDouble a + sum * t * p.randIterMult)
  else
    let d := t * p.randPctMult
    let res := rnd * (d + 1)
    let res := res + (t / 2 - t * p.randPct2Mult)
    return a + (← toUInt32? res)

/-- `sb_rand_pareto`. -/
def sbRandPareto (pow : K → K → K) (p : RandParams K) (draw : ℕ → K) (a b : UInt32) : Option UInt32 := do
  return a + (← toUInt32? (toDouble (b - a + 1) * pow (draw 0) p.paretoPower))

/-- `sb_rand_default`, by way of `rand_func`. -/
def sbRandDefault (pow : K → K → K) (p : RandParams K) (draw : ℕ → K) (a b : UInt32) : Option UInt32 :=
  match p.randType with
  | .uniform => sbRandUniform draw a b
  | .gaussian => sbRandGaussian p draw a b
  | .special => sbRandSpecial p draw a b
  | .pareto => sbRandPareto pow p draw a b

end NuKSM.Sysbench
