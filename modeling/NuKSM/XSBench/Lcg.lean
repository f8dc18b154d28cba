import Mathlib.Data.Rat.Defs
import Mathlib.Logic.Function.Iterate

/-! # The random number generator of XSBench (`Simulation.c`)

Each function of the source keeps its own copy of the parameters `m`, `a` and `c`, with equal values. -/

namespace NuKSM.XSBench

namespace Lcg

/-- `2 ^ 63`. -/
def m : UInt64 := 9223372036854775808

def a : UInt64 := 2806196910506780709

def c : UInt64 := 1

end Lcg

/-- The state that `LCG_random_double` leaves: `*seed = (a * (*seed) + c) % m`. -/
def lcgNext (seed : UInt64) : UInt64 := (Lcg.a * seed + Lcg.c) % Lcg.m

/-- `LCG_random_double` in exact arithmetic: the number it returns and the state it leaves. -/
def lcgRandomDouble (seed : UInt64) : ℚ × UInt64 :=
  let seed := lcgNext seed
  ((seed.toNat : ℚ) / (Lcg.m.toNat : ℚ), seed)

/-- The number of the draw `k` of a generator that starts from `seed`. -/
def lcgDraw (seed : UInt64) (k : ℕ) : ℚ := (lcgRandomDouble (lcgNext^[k] seed)).1

/-- The loop of `fast_forward_LCG`. Every round shifts `n` to the right, so 64 rounds are enough. -/
def fastForwardLoop : (rounds : ℕ) → (n a c aNew cNew : UInt64) → Option (UInt64 × UInt64)
  | rounds, n, a, c, aNew, cNew =>
    if n = 0 then some (aNew, cNew) else
    match rounds with
    | 0 => none
    | rounds + 1 =>
      let acc := if n &&& 1 ≠ 0 then (aNew * a, cNew * a + c) else (aNew, cNew)
      fastForwardLoop rounds (n >>> 1) (a * a) (c * (a + 1)) acc.1 acc.2

/-- `fast_forward_LCG`. -/
def fastForwardLcg (seed n : UInt64) : Option UInt64 := do
  let (aNew, cNew) ← fastForwardLoop 64 (n % Lcg.m) Lcg.a Lcg.c 1 0
  return (aNew * seed + cNew) % Lcg.m

end NuKSM.XSBench
