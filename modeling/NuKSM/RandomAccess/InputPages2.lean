import Mathlib.Data.List.Basic

/-! # Random reads of pages (`wl-randomreads-inputpages-2.c`)

The handlers of the two signals. An access outside the array, and a division by zero, is `none`. -/

namespace NuKSM.RandomAccess

namespace InputPages2

/-- `size`. -/
def size (numOfPages : UInt64) : UInt64 := 1024 * 4 * numOfPages

/-- `total_size`. -/
def totalSize (numOfPages : UInt64) : UInt64 := size numOfPages / 4

/-- `*(addr+i) = i * multiplier`: the product in `uint64_t`, the element an `int`. -/
def element (multiplier : Int32) (i : UInt64) : Int32 := (i * multiplier.toInt64.toUInt64).toUInt32.toInt32

/-- `filldata`: the array at `addr`. -/
def filldata (multiplier : Int32) (numOfPages : UInt64) : List Int32 :=
  (List.range (size numOfPages / 4).toNat).map fun i => element multiplier (UInt64.ofNat i)

/-- `*state *= 1103515245 + 12345`. -/
def randNext (state : UInt32) : UInt32 := state * (1103515245 + 12345)

/-- `rand_num`: the number it returns and the state it leaves. -/
def randNum (max state : UInt32) : Option (UInt32 × UInt32) :=
  if max = 0 then none else some (randNext state / 65536 % max, randNext state)

/-- The variables of `random_access`, with what the loop has done: the states that `rand_num` left, and the elements
that were read. -/
structure Access where
  state : UInt32 := 0
  sum : UInt64 := 0
  states : List UInt32 := []
  reads : List UInt64 := []
  deriving DecidableEq

section loop
variable (addr : List Int32) (numOfPages startElem : UInt64)

/-- A round of the inner loop of `random_access`. -/
def access (s : Access) : Option Access := do
  let (randomNum, state) ← randNum numOfPages.toUInt32 s.state
  let (offset, state') ← randNum 1024 state
  let elem := startElem + (randomNum.toUInt64 * 1024 + offset.toUInt64)
  let x ← addr[elem.toNat]?
  return {
    state := state', sum := s.sum + x.toInt64.toUInt64
    states := s.states ++ [state, state'], reads := s.reads ++ [elem] }

/-- So many rounds of it. -/
def accesses : ℕ → Access → Option Access
  | 0, s => some s
  | n + 1, s => (access addr numOfPages startElem s).bind (accesses n)

end loop

/-- `random_access`; `total_times` is 1. -/
def randomAccess (addr : List Int32) (numOfPages : UInt64) : Option Access :=
  accesses addr numOfPages (totalSize numOfPages / 2) (totalSize numOfPages / 8).toNat {}

end InputPages2

end NuKSM.RandomAccess
