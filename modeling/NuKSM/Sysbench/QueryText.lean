import NuKSM.Lib.Block
import NuKSM.Sysbench.DbDriver

/-! # Query texts with values for their placeholders (`drv_mysql.c`, `drv_pgsql.c`, `db_driver.c`)

`pgsql_drv_prepare`, `pgsql_drv_execute` and `mysql_drv_execute` have the same loop, which differs in what it prints for a
placeholder. What `malloc` leaves in new memory is `junk`. -/

namespace NuKSM.Sysbench

/-- `snprintf(buf + j, n, ...)`: what it returns for a text, and the buffer, if it writes within it. -/
def snprintf (buf : List Char) (j n : ℕ) (text : List Char) : Option (Int32 × List Char) :=
  (putAt buf j (if n = 0 then [] else text.take (n - 1) ++ [nul])).map fun buf =>
    (if text.length < 2 ^ 31 then Int32.ofNat text.length else -1, buf)

/-- `snprintf(..., "%d", x)`. -/
def printDecimal (x : Int32) : List Char :=
  if x < 0 then '-' :: Nat.toDigits 10 x.toInt.natAbs else Nat.toDigits 10 x.toInt.natAbs

/-- What `printPlaceholder` and the others are given: the number of the placeholder, the buffer, `j` and `buflen - j`. They have
no result where memory outside of the buffer would be used, and no number where the text has to be printed again. -/
abbrev PrintValue := UInt32 → List Char → UInt32 → UInt32 → Option (Option UInt32 × List Char)

/-- The placeholder of `pgsql_drv_prepare`. -/
def printNumber : PrintValue := fun vcnt buf j room =>
  (snprintf buf j.toNat room.toNat ('$' :: printDecimal vcnt.toInt32)).map fun (n, buf) =>
    (if n < 0 ∨ room.toInt32 ≤ n then none else some n.toUInt32, buf)

/-- `db_print_value(var, buf + j, buflen)`. The length is converted to `size_t` for `snprintf`. -/
def dbPrintValueAt (format : DbBindType → List Char → List Char) (var : DbBind) (buf : List Char) (j : ℕ) (buflen : Int32) :
    Option (Int32 × List Char) :=
  (dbPrintText format var).bind fun text =>
    (if var.type = .none ∧ ¬var.isNull then some (0, buf) else snprintf buf j buflen.toInt64.toUInt64.toNat text).map fun (n, buf) =>
      (if n < buflen then n else -1, buf)

/-- The placeholder of `mysql_drv_execute` and `pgsql_drv_execute`. -/
def printParam (format : DbBindType → List Char → List Char) (boundParam : List DbBind) : PrintValue := fun vcnt buf j room =>
  boundParam[vcnt.toNat]?.bind fun var =>
    (dbPrintValueAt format var buf j.toNat room.toInt32).map fun (n, buf) => (if n < 0 then none else some n.toUInt32, buf)

/-- The variables of the loop. -/
structure QueryLoop where
  i : UInt32 := 0
  j : UInt32 := 0
  buflen : UInt32 := 0
  vcnt : UInt32
  needRealloc : Bool := true
  buf : List Char := []

inductive LoopEnd (α : Type)
  | done (a : α)
  /-- `realloc` has no memory for a buffer of this size. -/
  | noMemory (size : UInt32)
  /-- Memory outside of the buffer is used. -/
  | fault

section loop
variable (realloc : UInt32 → Bool) (junk : ℕ → Char)

/-- `if (j+1 >= buflen || need_realloc)`. To reallocate 0 bytes is to free the buffer. -/
def growBuffer (s : QueryLoop) : Except UInt32 QueryLoop :=
  if s.buflen ≤ s.j + 1 ∨ s.needRealloc then
    let buflen := if 0 < s.buflen then s.buflen * 2 else 256
    if buflen ≠ 0 ∧ realloc buflen then
      .ok { s with buflen, needRealloc := false, buf := resize s.buf buflen.toNat junk }
    else .error buflen
  else .ok s

variable (print : PrintValue) (query : List Char)

/-- What follows the label `again` in the loop for the character `c`. -/
def placeChar (c : Char) (s : QueryLoop) : Option QueryLoop :=
  if c ≠ '?' then
    (putAt s.buf s.j.toNat [c]).map fun buf => { s with i := s.i + 1, j := s.j + 1, buf }
  else
    (print s.vcnt s.buf s.j (s.buflen - s.j)).map fun (n, buf) =>
      match n with
      | some n => { s with i := s.i + 1, j := s.j + n, vcnt := s.vcnt + 1, buf }
      | none => { s with needRealloc := true, buf }

/-- One pass through the loop, or what follows it. -/
def loopStep (s : QueryLoop) : QueryLoop ⊕ LoopEnd QueryLoop :=
  let c := query.getD s.i.toNat nul
  if c = nul then
    match putAt s.buf s.j.toNat [nul] with
    | some buf => .inr (.done { s with buf })
    | none => .inr .fault
  else
    match growBuffer realloc junk s with
    | .error size => .inr (.noMemory size)
    | .ok s =>
      match placeChar print c s with
      | some s => .inl s
      | none => .inr .fault

/-- How the loop ends, if it does so within some passes. -/
def queryLoop : ℕ → QueryLoop → Option (LoopEnd QueryLoop)
  | 0, _ => none
  | n + 1, s =>
    match loopStep realloc junk print query s with
    | .inl s => queryLoop n s
    | .inr e => some e

end loop

def LoopEnd.bind {α β : Type} (f : α → LoopEnd β) : LoopEnd α → LoopEnd β
  | done a => f a
  | noMemory size => noMemory size
  | fault => fault

section drivers
variable (realloc : UInt32 → Bool) (junk : ℕ → Char) (query : List Char) (passes : ℕ)

/-- The string that a call is given, if it ends in the buffer. -/
def stringOf (buf : List Char) : LoopEnd (List Char) :=
  match cString? buf with
  | some s => .done s
  | none => .fault

/-- The conversion of `pgsql_drv_prepare`: `stmt->query` and `pgstmt->nparams`. -/
def pgsqlPrepareQuery : Option (LoopEnd (List Char × Int32)) :=
  (queryLoop realloc junk printNumber query passes { vcnt := 1 }).map (.bind fun s =>
    (stringOf s.buf).bind fun text => .done (text, (s.vcnt - 1).toInt32))

variable (format : DbBindType → List Char → List Char) (boundParam : List DbBind)

/-- What `mysql_drv_execute` gives to `mysql_drv_query`. -/
def mysqlExecuteQuery : Option (LoopEnd (List Char)) :=
  (queryLoop realloc junk (printParam format boundParam) query passes { vcnt := 0 }).map (.bind fun s => .done (s.buf.take s.j.toNat))

/-- What `pgsql_drv_execute` gives to `pgsql_drv_query`, which does not use the length. -/
def pgsqlExecuteQuery : Option (LoopEnd (List Char)) :=
  (queryLoop realloc junk (printParam format boundParam) query passes { vcnt := 0 }).map (.bind fun s => stringOf s.buf)

end drivers

end NuKSM.Sysbench
