import NuKSM.Lib.Thread

/-! # The unique random sequence generator of sysbench (`sb_rand.c`) -/

namespace NuKSM.Sysbench

/-- `rand_unique_permute`. -/
def randUniquePermute (x : UInt32) : UInt32 :=
  let prime : UInt32 := 4294967291
  if x ≥ prime then x
  else
    let residue := ((x.toUInt64 * x.toUInt64) % prime.toUInt64).toUInt32
    if x ≤ prime / 2 then residue else prime - residue

/-- `rand_unique_index` and `rand_unique_offset`. -/
structure RandUnique where
  index : UInt32
  offset : UInt32
  deriving DecidableEq, Repr

/-- `rand_unique_seed`. -/
def randUniqueSeed (index offset : UInt32) : RandUnique where
  index := randUniquePermute (randUniquePermute index + 0x682f0161)
  offset := randUniquePermute (randUniquePermute offset + 0x46790905)

/-- The accesses of `sb_rand_unique` to shared memory. -/
inductive RandOp
  /-- `ck_pr_faa_32(&rand_unique_index, delta)`. -/
  | faaIndex (delta : UInt32)
  | loadOffset
  deriving DecidableEq, Repr

/-- The operations are atomic. -/
def RandOp.exec (_t : ℕ) : RandOp → RandUnique → UInt32 → RandUnique → Prop
  | faaIndex delta, s, r, s' => r = s.index ∧ s' = { s with index := s.index + delta }
  | loadOffset, s, r, s' => r = s.offset ∧ s' = s

/-- `sb_rand_unique`. -/
def sbRandUnique : Thread RandOp (fun _ => UInt32) UInt32 := do
  let index ← Thread.perform (.faaIndex 1)
  let offset ← Thread.perform .loadOffset
  return randUniquePermute ((randUniquePermute index + offset) ^^^ 0x5bf03635)

end NuKSM.Sysbench
