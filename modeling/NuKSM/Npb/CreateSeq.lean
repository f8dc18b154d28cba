import NuKSM.Lib.Exact
import NuKSM.Npb.Rank

/-! # The sequence of keys (`is.c`)

Each thread jumps to its part of one sequence of random numbers. A `double` is given by its value. The factors `R23`, `T23`, `R46` and
`T46` are powers of two from the start. -/

namespace NuKSM.Npb

def r23 : ℚ := 1 / 2 ^ 23

def t23 : ℚ := 2 ^ 23

def r46 : ℚ := 1 / 2 ^ 46

def t46 : ℚ := 2 ^ 46

/-- `x = (int) y`, where `x` is a `double`. -/
def intPart (y : ℚ) : Option ℚ := (truncateTo (2 ^ 31) y).map Int.cast

/-- `randlc(&x, &a)`: the new `x`, and the number between 0 and 1. -/
def randlc (x a : ℚ) : Option (ℚ × ℚ) := do
  let a1 ← intPart (← exactly (r23 * a))
  let a2 ← exactly (a - (← exactly (t23 * a1)))
  let x1 ← intPart (← exactly (r23 * x))
  let x2 ← exactly (x - (← exactly (t23 * x1)))
  let t1 ← exactly ((← exactly (a1 * x2)) + (← exactly (a2 * x1)))
  let t2 ← intPart (← exactly (r23 * t1))
  let z ← exactly (t1 - (← exactly (t23 * t2)))
  let t3 ← exactly ((← exactly (t23 * z)) + (← exactly (a2 * x2)))
  let t4 ← intPart (← exactly (r46 * t3))
  let x ← exactly (t3 - (← exactly (t46 * t4)))
  return (x, ← exactly (r46 * x))

/-- The loop of `find_my_seed` and what follows it. -/
def skipAhead (kk : ℕ) (t1 t2 : ℚ) : Option ℚ :=
  if kk > 1 then
    if 2 * (kk / 2) = kk then do
      let (t2, _) ← randlc t2 t2
      skipAhead (kk / 2) t1 t2
    else do
      let (t1, _) ← randlc t1 t2
      skipAhead (kk - 1) t1 t2
  else
    (randlc t1 t2).map Prod.fst
termination_by kk

/-- `find_my_seed`. -/
def findMySeed (kn np nn : ℕ) (s a : ℚ) : Option ℚ :=
  if kn = 0 then some s else skipAhead ((nn / 4 + np - 1) / np * 4 * kn) s a

/-- `x = randlc(&s, &an); x += randlc(&s, &an); …`: the sum of four numbers, and the next `s`. -/
def sumOfFour (s an : ℚ) : Option (ℚ × ℚ) := do
  let (s, x₁) ← randlc s an
  let (s, x₂) ← randlc s an
  let (s, x₃) ← randlc s an
  let (s, x₄) ← randlc s an
  return (← exactly ((← exactly ((← exactly (x₁ + x₂)) + x₃)) + x₄), s)

/-- A key, and the next `s`. `INT_TYPE` has 32 bits or more. -/
def nextKey (cls : IsClass) (s an : ℚ) : Option (ℕ × ℚ) := do
  let (x, s) ← sumOfFour s an
  let key ← truncateTo (2 ^ 31) (← exactly (((cls.maxKey / 4 : ℕ) : ℚ) * x))
  return (key.toNat, s)

open Thread CellM IsCell

/-- The parallel region of `create_seq` for one thread. Where a computation has no result, the thread gets outside of the arrays. -/
def createKeys (cls : IsClass) (numThreads myid : ℕ) (seed a : ℚ) : IsM (Option ℚ) :=
  let mq := (cls.numKeys + numThreads - 1) / numThreads
  let k1 := mq * myid
  let k2 := min (k1 + mq) cls.numKeys
  loopUp (fun i s =>
    match s.bind (nextKey cls · a) with
    | some (key, s) => do
      store (keyArray i) key
      return some s
    | none => do
      let _ ← load outside
      return none) k1 (k2 - k1) (findMySeed myid numThreads (4 * cls.numKeys) seed a)

/-- `create_seq`. -/
def CreateSeq (cls : IsClass) (numThreads : ℕ) (seed a : ℚ) (s s' : IsMemory) : Prop :=
  ∃ ends : Fin numThreads → Option ℚ, TeamRuns (fun t : Fin numThreads => createKeys cls numThreads t seed a) s ends s'

/-- What `main` computes. -/
def IsProgram (cls : IsClass) (numThreads : ℕ) (s : IsMemory) (passed : ℕ) : Prop :=
  ∃ s₁, CreateSeq cls numThreads 314159265 1220703125 (fun _ => 0) s₁ ∧ IsMain cls numThreads s₁ s passed

end NuKSM.Npb
