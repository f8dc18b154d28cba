import NuKSM.RandomAccess.InputPages2

/-! # Random reads of pages (`wl-randomreads-inputpages.c`)

The handlers of the two signals. `filldata` stores the same elements as that of `wl-randomreads-inputpages-2.c`. An access
outside the array, and a division by zero, is `none`. -/

namespace NuKSM.RandomAccess

namespace InputPages
open InputPages2 (element)

/-- `size`, where `num_of_pages` is an `int`. -/
def size (numOfPages : Int32) : UInt64 := 1024 * 4 * numOfPages.toInt64.toUInt64

/-- `total_size`. -/
def totalSize (numOfPages : Int32) : UInt64 := size numOfPages / 4

/-- `filldata`: the array at `addr`. -/
def filldata (multiplier numOfPages : Int32) : List Int32 :=
  (List.range (size numOfPages / 4).toNat).map fun i => element multiplier (UInt64.ofNat i)

/-- `*state = *state * 1103515258476245 + 12345`. -/
def randNext (state : UInt64) : UInt64 := state * 1103515258476245 + 12345

/-- `rand_num`: the number it returns and the state it leaves. -/
def randNum (max state : UInt64) : Option (UInt64 × UInt64) :=
  if max = 0 then none else some (randNext state / 4294967295 % max, randNext state)

/-- The variables of `random_access`, with what its loops have done: the states that `rand_num` left, and the elements that
were read. -/
structure Access where
  state : UInt64 := 1
  sum : UInt64 := 0
  states : List UInt64 := []
  reads : List UInt64 := []
  deriving DecidableEq

section loop
variable (addr : List Int32) (numOfPages : Int32)

/-- A round of the inner loop of `random_access`. -/
def access (s : Access) : Option Access := do
  let (randomNum, state) ← randNum (totalSize numOfPages) s.state
  let x ← addr[randomNum.toNat]?
  return {
    state, sum := s.sum + x.toInt64.toUInt64
    states := s.states ++ [state], reads := s.reads ++ [randomNum] }

/-- So many rounds of it. -/
def accesses : ℕ → Access → Option Access
  | 0, s => some s
  | n + 1, s => (access addr numOfPages s).bind (accesses n)

/-- So many rounds of the outer loop. -/
def loops : ℕ → Access → Option Access
  | 0, s => some s
  | n + 1, s => (accesses addr numOfPages (totalSize numOfPages / 8).toNat s).bind (loops n)

end loop

/-- `random_access`. -/
def randomAccess (addr : List Int32) (numOfPages : Int32) (numberOfLoop : UInt32) : Option Access :=
  loops addr numOfPages numberOfLoop.toNat {}

end InputPages

end NuKSM.RandomAccess
