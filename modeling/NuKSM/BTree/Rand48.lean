import Mathlib.Logic.Function.Iterate

/-! # The random numbers of the lookups (`btree.c`)

A 48-bit congruential generator on three 16-bit limbs, with its carries propagated by hand. -/

namespace NuKSM.BTree

/-- The static variables `x`, `a` and `c`, with their initial values. -/
structure Rand48 where
  x0 : UInt64 := 0x330E
  x1 : UInt64 := 0xABCD
  x2 : UInt64 := 0x1234
  a0 : UInt64 := 0xE66D
  a1 : UInt64 := 0xDEEC
  a2 : UInt64 := 0x5
  c : UInt64 := 0xB
  deriving DecidableEq

namespace Rand48

/-- `((1 << (N - 1)) + (1 << (N - 1)) - 1)`, with `N` 16. -/
def mask : UInt32 := 65535

/-- `LOW`; the argument is already converted to `unsigned`. -/
def low (x : UInt32) : UInt64 := (x &&& mask).toUInt64

/-- `HIGH` of an `int32_t`. -/
def high (x : Int32) : UInt64 := low (x >>> 16).toUInt32

/-- `MUL`: the product is formed in `long` and kept in an `int32_t`. -/
def mul (x y : UInt64) : UInt64 × UInt64 :=
  let l : Int32 := (x.toInt64 * y.toInt64).toInt32
  (low l.toUInt32, high l)

/-- `CARRY`: an `int32_t` and a `long`, added in `long`. -/
def carry (x y : UInt64) : UInt64 :=
  if mask.toUInt64.toInt64 < x.toInt64.toInt32.toInt64 + y.toInt64 then 1 else 0

/-- `ADDEQU`: the sum that replaces `x` and the carry. -/
def addequ (x y : UInt64) : UInt64 × UInt64 := (low (x + y).toUInt32, carry x y)

/-- `next`. -/
def next (s : Rand48) : Rand48 :=
  let p := mul s.a0 s.x0
  let (p0, carry0) := addequ p.1 s.c
  let (p1, carry1) := addequ p.2 carry0
  let q := mul s.a0 s.x1
  let (p1, carry0) := addequ p1 q.1
  let r := mul s.a1 s.x0
  { s with
    x2 := low (carry0 + carry1 + carry p1 r.1 + q.2 + r.2 + s.a0 * s.x2 + s.a1 * s.x1 + s.a2 * s.x0).toUInt32
    x1 := low (p1 + r.1).toUInt32
    x0 := low p0.toUInt32 }

/-- `redisLrand48`: the number it returns and the state it leaves. -/
def redisLrand48 (s : Rand48) : UInt64 × Rand48 :=
  let s := s.next
  ((s.x2 <<< 15) + (s.x1 >>> 1), s)

/-- `redisSrand48`. -/
def redisSrand48 (s : Rand48) (seedval : Int32) : Rand48 :=
  { s with
    x0 := 0x330E, x1 := low seedval.toUInt32, x2 := high seedval
    a0 := 0xE66D, a1 := 0xDEEC, a2 := 0x5, c := 0xB }

/-- The state after `n` calls of `redisLrand48`. -/
def afterCalls (s : Rand48) (n : ℕ) : Rand48 := (fun s => s.redisLrand48.2)^[n] s

/-- The number that the call `n` of `redisLrand48` returns, counted from zero. -/
def drawn (s : Rand48) (n : ℕ) : UInt64 := (s.afterCalls n).redisLrand48.1

end Rand48

end NuKSM.BTree
