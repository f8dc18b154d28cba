import NuKSM.Lib.Array
import Mathlib.Algebra.Group.Int.Defs

/-! # Sorting keys together with their values (`Simulation.c`)

The two sorts of the source differ in the types of their keys and values only. A pointer into an array is its index
there. What a read outside an array finds is a parameter; a write outside an array has no value. -/

namespace NuKSM.XSBench
variable {α κ ν : Type}

/-- The result of an `int` operation, which has no value where it overflows. -/
def intArith (x : ℤ) : Option ℤ := if -2147483648 ≤ x ∧ x < 2147483648 then some x else none

/-- `A[i]`, with `beyond` for the memory around the array. -/
def load (beyond : ℤ → Option α) (A : List α) (i : ℤ) : Option α := (peek A i).or (beyond i)

/-- `tmp = A[i]; A[i] = A[j]; A[j] = tmp`. -/
def exchange (A : List α) (i j : ℤ) : Option (List α) := do
  let tmp ← peek A i
  let x ← peek A j
  let A ← poke A i x
  poke A j tmp

/-- `while (test(read(i))) i += step`. -/
def scan (read : ℤ → Option κ) (test : κ → Bool) (step : ℤ) : (rounds : ℕ) → (i : ℤ) → Option ℤ
  | 0, _ => none
  | rounds + 1, i => do
    let x ← read i
    if test x then scan read test step rounds (i + step) else some i

/-- The arrays that are sorted together. -/
structure KeyValue (κ ν : Type) where
  key : List κ
  value : List ν
  deriving DecidableEq, Repr

section sort
variable [LinearOrder κ]

/-- The loop `while (i <= j)` around a pivot, on the arrays that start at the index `base`. -/
def partitionLoop (beyond : ℤ → Option κ) (base : ℤ) (pivot : κ) :
    (rounds : ℕ) → (A : KeyValue κ ν) → (i j : ℤ) → Option (KeyValue κ ν × ℤ × ℤ)
  | rounds, A, i, j =>
    if i ≤ j then
      match rounds with
      | 0 => none
      | rounds + 1 => do
        let read k := load beyond A.key (base + k)
        let i ← scan read (fun x => decide (x < pivot)) 1 (A.key.length + 1) i
        let j ← scan read (fun x => decide (pivot < x)) (-1) (A.key.length + 1) j
        if i ≤ j then
          let key ← exchange A.key (base + i) (base + j)
          let value ← exchange A.value (base + i) (base + j)
          partitionLoop beyond base pivot rounds ⟨key, value⟩ (i + 1) (j - 1)
        else
          partitionLoop beyond base pivot rounds A i j
    else some (A, i, j)

/-- `quickSort_parallel_internal_i_d` and `quickSort_parallel_internal_d_i`. -/
def quickSortInternal (beyond : ℤ → Option κ) (base cutoff : ℤ) :
    (depth : ℕ) → (A : KeyValue κ ν) → (left right : ℤ) → Option (KeyValue κ ν)
  | 0, _, _, _ => none
  | depth + 1, A, left, right => do
    let sum ← intArith (left + right)
    let pivot ← load beyond A.key (base + sum.tdiv 2)
    let (A, i, j) ← partitionLoop beyond base pivot (A.key.length + 1) A left right
    if right - left < cutoff then
      let A ← if left < j then quickSortInternal beyond base cutoff depth A left j else some A
      if i < right then quickSortInternal beyond base cutoff depth A i right else some A
    else
      -- Two tasks on disjoint parts of the arrays, one after the other.
      let A ← quickSortInternal beyond base cutoff depth A left j
      quickSortInternal beyond base cutoff depth A i right

/-- `quickSort_parallel_i_d` and `quickSort_parallel_d_i` on the `lenArray` elements from `base` on. -/
def quickSortParallel (beyond : ℤ → Option κ) (A : KeyValue κ ν) (base lenArray : ℤ) : Option (KeyValue κ ν) :=
  quickSortInternal beyond base 10000 (lenArray.toNat + 1) A 0 (lenArray - 1)

end sort

variable {E : Type}

/-- `quickSort_parallel_i_d`: materials with their energies. -/
def quickSortParallelID (beyond : ℤ → Option ℤ) (A : KeyValue ℤ E) (base lenArray : ℤ) : Option (KeyValue ℤ E) :=
  quickSortParallel beyond A base lenArray

/-- `quickSort_parallel_d_i`: energies with their materials. -/
def quickSortParallelDI [LinearOrder E] (beyond : ℤ → Option E) (A : KeyValue E ℤ) (base lenArray : ℤ) :
    Option (KeyValue E ℤ) :=
  quickSortParallel beyond A base lenArray

end NuKSM.XSBench
