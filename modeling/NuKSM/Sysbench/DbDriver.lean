import NuKSM.Lib.Reach
import NuKSM.Sysbench.Counter
import NuKSM.Sysbench.Options

/-! # The database layer of sysbench (`db_driver.c`, `db_driver.h`)

A connection is the state of the layer, with a log of the operations that it invokes on the driver. A driver is any set of
operations on what it keeps itself and on the fields of the result set that it fills. -/

namespace NuKSM.Sysbench

/-! ### Data -/

/-- `db_error_t`. -/
inductive DbError
  | none | ignorable | fatal
  deriving DecidableEq, Repr

/-- `db_conn_state_t`. -/
inductive DbConnState
  | ready | resultSet | invalid
  deriving DecidableEq, Repr

/-- `drv_caps_t`, as far as the layer reads it. -/
structure DrvCaps where
  needsCommit : Bool

/-- `db_value_t`, with the bytes that `ptr` points to. -/
structure DbValue where
  len : ℕ
  ptr : Option (List Char)
  deriving DecidableEq

/-- `db_stmt_t`. The parameters are those that `bound_param` points to, `ptr` is the statement of the driver. -/
structure DbStmt where
  query : Option (List Char) := none
  boundParam : List ℕ := []
  emulated : Bool := false
  counter : SbCounterType := .other
  ptr : Option ℕ := none

/-- The error that the driver reports, `sql_errno`, `sql_state` and `sql_errmsg` of `db_conn_t`. -/
structure SqlError where
  errno : ℕ := 0
  state : Option (List Char) := none
  errmsg : Option (List Char) := none

/-- What a driver writes: its part of `db_result_t`, the error, and `own`, which it keeps behind `con->ptr`. -/
structure DrvState (σ : Type) where
  counter : SbCounterType := .other
  nrows : ℕ := 0
  nfields : ℕ := 0
  ptr : Option ℕ := none
  /-- `rs->row.ptr`. -/
  rowPtr : ℕ := 0
  sql : SqlError := {}
  own : σ

/-- `drv_ops_t`. The drivers all have the operations but `reconnect`. Most return whether they fail. A statement that has
been freed is passed on as `some none`. -/
structure Driver (σ : Type) where
  describe : DrvState σ → Option DrvCaps × DrvState σ
  connect : DrvState σ → Bool × DrvState σ
  disconnect : DrvState σ → ℤ × DrvState σ
  reconnect : Option (DrvState σ → DbError × DrvState σ)
  prepare : List Char → DbStmt → DrvState σ → (Bool × DbStmt) × DrvState σ
  bindParam : List ℕ → DbStmt → DrvState σ → (ℤ × DbStmt) × DrvState σ
  bindResult : List ℕ → DbStmt → DrvState σ → (ℤ × DbStmt) × DrvState σ
  execute : DbStmt → DrvState σ → DbError × DrvState σ
  fetchRow : List DbValue → DrvState σ → (Bool × List DbValue) × DrvState σ
  freeResults : Option (Option DbStmt) → DrvState σ → ℤ × DrvState σ
  close : DbStmt → DrvState σ → ℤ × DrvState σ
  query : List Char → DrvState σ → DbError × DrvState σ

/-- An operation of a driver in the log. -/
inductive DrvOp
  | describe | connect | disconnect | reconnect | prepare | bindParam | bindResult | execute | fetchRow | freeResults | close
  | query (text : List Char)
  deriving DecidableEq

/-- A call of the layer. The flag of `prepare` and of `bulkInsertInit` says whether the memory for it is there. -/
inductive DbCall
  | connectionClose | connectionReconnect | connectionFree
  | prepare (allocated : Bool) (query : List Char)
  | bindParam (stmt : ℕ) (params : List ℕ)
  | bindResult (stmt : ℕ) (results : List ℕ)
  | execute (stmt : ℕ)
  | fetchRow
  | query (query : List Char)
  | freeResults
  | close (stmt : ℕ)
  | bulkInsertInit (allocated : Bool) (query : CString)
  | bulkInsertNext (query : CString)
  | bulkInsertDone
  deriving DecidableEq

/-- What a call returns: a number, a statement, a result set or a row, where there is one. -/
inductive DbRet
  | void
  | int (rc : ℤ)
  | stmt (s : Option ℕ)
  | result (rs : Bool)
  | row (values : Option (List DbValue))
  deriving DecidableEq

inductive DbEvent
  /-- An operation of the driver, and whether it fails. -/
  | op (o : DrvOp) (failed : Bool)
  /-- A result set is handed out, by `db_query` or by `db_execute` of a statement. -/
  | handedOut (stmt : Option ℕ)
  /-- `n` characters of `bulk_buffer` are written from `lo` on. -/
  | write (lo n : ℕ)
  | ret (c : DbCall) (r : DbRet)
  deriving DecidableEq

/-- The fields of a bulk insert. -/
structure Bulk where
  cnt : ℕ := 0
  buflen : ℕ := 0
  /-- The memory from `bulk_buffer` on. -/
  buffer : Option (ℕ → Char) := none
  ptr : ℕ := 0
  values : ℕ := 0
  commitCnt : ℕ := 0
  commitMax : ℕ := 0

/-- `db_conn_t`, with the statements of the connection, the counters of its thread and the log. -/
structure Db (σ : Type) where
  error : DbError := .none
  state : DbConnState := .ready
  /-- `rs.statement`. -/
  statement : Option ℕ := none
  /-- `rs.row.values`. -/
  values : Option (List DbValue) := none
  drv : DrvState σ
  bulk : Bulk := {}
  stmts : ℕ → Option DbStmt := fun _ => none
  /-- The statements so far. -/
  nstmts : ℕ := 0
  counters : SbCounterType → ℕ := fun _ => 0
  freed : Bool := false
  log : List DbEvent := []

variable {σ : Type}

namespace Db

def note (e : DbEvent) (db : Db σ) : Db σ := { db with log := db.log ++ [e] }

/-- `con->driver->ops.op(...)`. -/
def invoke {α : Type} (o : DrvOp) (failed : α → Bool) (f : DrvState σ → α × DrvState σ) (db : Db σ) : α × Db σ :=
  ((f db.drv).1, { db with drv := (f db.drv).2, log := db.log ++ [.op o (failed (f db.drv).1)] })

/-- `sb_counter_inc(con->thread_id, type)`. -/
def sbCounterInc (type : SbCounterType) (db : Db σ) : Db σ :=
  { db with counters := Function.update db.counters type (db.counters type + 1) }

end Db

section calls
variable (drv : Driver σ)

/-! ### Result sets -/

/-- `db_free_results_int`. -/
def dbFreeResultsInt (db : Db σ) : ℤ × Db σ :=
  let (rc, db) := db.invoke .freeResults (· ≠ 0) (drv.freeResults (db.statement.map db.stmts))
  (rc, { db with drv := { db.drv with nrows := 0, nfields := 0 }, values := none, statement := none, state := .ready })

/-- `con->state == DB_CONN_RESULT_SET && (rc = db_free_results_int(con)) != 0`. -/
def freePending (db : Db σ) : Bool × Db σ :=
  if db.state = .resultSet then
    let (rc, db) := dbFreeResultsInt drv db
    (rc ≠ 0, db)
  else (false, db)

/-- `db_free_results`. -/
def dbFreeResults (db : Db σ) : ℤ × Db σ :=
  if db.state = .invalid then (1, db)
  else if db.state ≠ .resultSet then (1, db)
  else dbFreeResultsInt drv db

/-- The end of `db_execute` and `db_query`: whether they return the result set. -/
def settle (stmt : Option ℕ) (error : DbError) (db : Db σ) : Bool × Db σ :=
  let db := { db with error := error }.sbCounterInc db.drv.counter
  if error = .none then
    if db.drv.counter = .read then (true, { db with state := .resultSet }.note (.handedOut stmt))
    else (false, { db with state := .ready })
  else (false, db)

/-- `db_query`. -/
def dbQuery (query : List Char) (db : Db σ) : Bool × Db σ :=
  if db.state = .invalid then (false, { db with error := .fatal })
  else
    let (failed, db) := freePending drv db
    if failed then (false, { db with error := .fatal })
    else
      let (error, db) := db.invoke (.query query) (· ≠ DbError.none) (drv.query query)
      settle none error db

/-- `db_fetch_row`. The values that it allocates are all written before they are read. -/
def dbFetchRow (db : Db σ) : Option (List DbValue) × Db σ :=
  if db.state = .invalid then (none, db)
  else if db.state ≠ .resultSet then (none, db)
  else if db.drv.nrows = 0 ∨ db.drv.nfields = 0 then (none, db)
  else
    let values := db.values.getD (List.replicate db.drv.nfields ⟨0, none⟩)
    let (r, db) := db.invoke .fetchRow Prod.fst (drv.fetchRow values)
    let db := { db with values := some r.2 }
    if r.1 then (none, db) else (some r.2, db)

/-! ### Connections -/

/-- `db_connection_create`, with the counters of the thread and what the driver starts from. -/
def dbConnectionCreate (counters : SbCounterType → ℕ) (own : σ) : Option (Db σ) :=
  let (failed, db) := Db.invoke .connect id drv.connect { drv := { own := own }, counters := counters }
  if failed then none else some db

/-- `db_connection_close`. -/
def dbConnectionClose (db : Db σ) : ℤ × Db σ :=
  if db.state = .invalid then (0, db)
  else
    let (_, db) := freePending drv db
    let (rc, db) := db.invoke .disconnect (· ≠ 0) drv.disconnect
    (rc, { db with state := .invalid })

/-- `db_connection_reconnect`. -/
def dbConnectionReconnect (db : Db σ) : DbError × Db σ :=
  match drv.reconnect with
  | none => (.none, db)
  | some reconnect =>
    if db.state = .invalid then (.none, db)
    else
      let (_, db) := freePending drv db
      let (rc, db) := db.invoke .reconnect (· = DbError.fatal) reconnect
      if rc = .fatal then (rc, { db with state := .invalid }.sbCounterInc .error)
      else (.none, { db with state := .ready }.sbCounterInc .reconnect)

/-- `db_connection_free`. -/
def dbConnectionFree (db : Db σ) : Db σ :=
  let db := if db.state ≠ .invalid then (dbConnectionClose drv db).2 else db
  { db with freed := true }

/-! ### Prepared statements -/

/-- `db_prepare`. -/
def dbPrepare (allocated : Bool) (query : List Char) (db : Db σ) : Option ℕ × Db σ :=
  if db.state = .invalid then (none, db)
  else if ¬allocated then (none, db)
  else
    let (r, db) := db.invoke .prepare Prod.fst (drv.prepare query {})
    if r.1 then (none, { db with error := .fatal })
    else (some db.nstmts, { db with stmts := Function.update db.stmts db.nstmts (some r.2), nstmts := db.nstmts + 1 })

/-- `db_bind_param`. -/
def dbBindParam (s : ℕ) (params : List ℕ) (db : Db σ) : ℤ × Db σ :=
  match db.stmts s with
  | none => (1, db)
  | some stmt =>
    if db.state = .invalid then (1, db)
    else
      let (r, db) := db.invoke .bindParam (·.1 ≠ 0) (drv.bindParam params stmt)
      (r.1, { db with stmts := Function.update db.stmts s (some r.2) })

/-- `db_bind_result`. -/
def dbBindResult (s : ℕ) (results : List ℕ) (db : Db σ) : ℤ × Db σ :=
  match db.stmts s with
  | none => (1, db)
  | some stmt =>
    if db.state = .invalid then (1, db)
    else
      let (r, db) := db.invoke .bindResult (·.1 ≠ 0) (drv.bindResult results stmt)
      (r.1, { db with stmts := Function.update db.stmts s (some r.2) })

/-- `db_execute`. -/
def dbExecute (s : ℕ) (db : Db σ) : Bool × Db σ :=
  match db.stmts s with
  | none => (false, db)
  | some stmt =>
    if db.state = .invalid then (false, db)
    else
      let (failed, db) := freePending drv db
      if failed then (false, db)
      else
        let (error, db) := { db with statement := some s }.invoke .execute (· ≠ DbError.none) (drv.execute stmt)
        settle (some s) error db

/-- `db_close`. Its second test of the state never succeeds: the first has freed the result set. -/
def dbClose (s : ℕ) (db : Db σ) : ℤ × Db σ :=
  match db.stmts s with
  | none => (0, db)
  | some stmt =>
    if db.state = .invalid then (0, db)
    else
      let (failed, db) := freePending drv db
      if failed then (2, db)
      else if db.state = .invalid then (0, db)
      else
        let (failed, db) := if db.statement = some s then freePending drv db else (false, db)
        if failed then (0, db)
        else
          let (rc, db) := db.invoke .close (· ≠ 0) (drv.close stmt)
          (rc, { db with stmts := Function.update db.stmts s none })

/-! ### Values in statements -/

/-- `db_bind_type_t`. -/
inductive DbBindType
  | none | tinyint | smallint | int | bigint | float | double | time | date | datetime | timestamp | char | varchar
  deriving DecidableEq, Repr

/-- `db_bind_t`, with what its pointers point to. -/
structure DbBind where
  type : DbBindType
  buffer : List Char
  dataLen : ℕ
  maxLen : ℕ
  isNull : Bool

/-- The string at the start of a buffer, if it ends there. -/
def cString? (buffer : List Char) : Option (List Char) :=
  if nul ∈ buffer then some (buffer.takeWhile (· ≠ nul)) else none

/-- What `db_print_value` prints, where it does not read beyond the buffer. What `snprintf` makes of numbers and times is
`format`. -/
def dbPrintText (format : DbBindType → List Char → List Char) (var : DbBind) : Option (List Char) :=
  if var.isNull then some ['N', 'U', 'L', 'L']
  else match var.type with
    | .char | .varchar => (cString? var.buffer).map fun s => '\'' :: (s ++ ['\''])
    | .none => some []
    | type => some (format type var.buffer)

/-- `db_print_value`: what it prints, if it fits. -/
def dbPrintValue (format : DbBindType → List Char → List Char) (var : DbBind) (buflen : ℕ) : Option (List Char) :=
  (dbPrintText format var).filter (·.length < buflen)

/-! ### Bulk inserts -/

def bulkPacketSize : ℕ := 512 * 1024

def rowsBeforeCommit : ℕ := 1000

/-- What `bulk_buffer` holds before `bulk_ptr`. -/
def Bulk.text (b : Bulk) : List Char := b.buffer.elim [] fun buf => (List.range b.ptr).map buf

/-- `strcpy(buf + lo, s)`. -/
def strcpy (buf : ℕ → Char) (lo : ℕ) (s : List Char) : ℕ → Char := fun i =>
  if lo ≤ i ∧ i ≤ lo + s.length then s.getD (i - lo) nul else buf i

def commitText : List Char := ['C', 'O', 'M', 'M', 'I', 'T']

/-- The COMMIT of `db_bulk_do_insert`, and whether it fails. -/
def dbBulkCommit (isLast : Bool) (db : Db σ) : Bool × Db σ :=
  if db.bulk.commitMax ≠ 0 then
    let db := { db with bulk.commitCnt := (db.bulk.commitCnt + db.bulk.cnt) % 2 ^ 32 }
    if isLast ∨ db.bulk.commitMax ≤ db.bulk.commitCnt then
      let (rs, db) := dbQuery drv commitText db
      if !rs ∧ db.error ≠ .none then (true, db)
      else (false, { db with bulk.commitCnt := 0 })
    else (false, db)
  else (false, db)

/-- `db_bulk_do_insert`, and whether it fails. -/
def dbBulkDoInsert (isLast : Bool) (db : Db σ) : Bool × Db σ :=
  if db.bulk.cnt = 0 then (false, db)
  else
    let (rs, db) := dbQuery drv db.bulk.text db
    if !rs ∧ db.error ≠ .none then (true, db)
    else
      let (failed, db) := dbBulkCommit drv isLast db
      if failed then (true, db)
      else (false, { db with bulk.ptr := db.bulk.values, bulk.cnt := 0 })

/-- `db_bulk_insert_init`. -/
def dbBulkInsertInit (allocated : Bool) (query : CString) (db : Db σ) : ℤ × Db σ :=
  if db.state = .invalid then (0, db)
  else
    let (failed, db) := freePending drv db
    if failed then (0, db)
    else
      let (caps, db) := db.invoke .describe Option.isNone drv.describe
      match caps with
      | none => (1, db)
      | some caps =>
        if bulkPacketSize < query.chars.length + 1 then (1, db)
        else if ¬allocated then (1, { db with bulk.buflen := bulkPacketSize, bulk.buffer := none })
        else
          (0, { db with
            bulk := {
              cnt := 0
              buflen := bulkPacketSize
              buffer := some (strcpy (fun _ => nul) 0 query.chars)
              ptr := query.chars.length
              values := query.chars.length
              commitCnt := 0
              commitMax := if caps.needsCommit then rowsBeforeCommit else 0 } }.note (.write 0 (query.chars.length + 1)))

/-- The end of `db_bulk_insert_next`: the row goes behind the ones before it. -/
def bulkAppend (query : CString) (buf : ℕ → Char) (db : Db σ) : Db σ :=
  let b := db.bulk
  if 0 < b.cnt then
    let db := (db.note (.write b.ptr 1)).note (.write (b.ptr + 1) (query.chars.length + 1))
    { db with
      bulk.buffer := some (strcpy (Function.update buf b.ptr ',') (b.ptr + 1) query.chars)
      bulk.ptr := (b.ptr + (query.chars.length + 1)) % 2 ^ 32
      bulk.cnt := b.cnt + 1 }
  else
    { db.note (.write b.ptr (query.chars.length + 1)) with
      bulk.buffer := some (strcpy buf b.ptr query.chars)
      bulk.ptr := (b.ptr + query.chars.length) % 2 ^ 32
      bulk.cnt := b.cnt + 1 }

/-- `db_bulk_insert_next`. -/
def dbBulkInsertNext (query : CString) (db : Db σ) : ℤ × Db σ :=
  if db.state = .invalid then (0, db)
  else
    let (failed, db) := freePending drv db
    if failed then (0, db)
    else
      match db.bulk.buffer with
      | none => (1, db)
      | some buf =>
        if db.bulk.buflen < db.bulk.ptr + query.chars.length + 1 + (decide (0 < db.bulk.cnt)).toNat then
          if db.bulk.cnt = 0 then (1, db)
          else
            let (failed, db) := dbBulkDoInsert drv false db
            if failed then (1, db) else (0, bulkAppend query buf db)
        else (0, bulkAppend query buf db)

/-- `db_bulk_insert_done`. -/
def dbBulkInsertDone (db : Db σ) : ℤ × Db σ :=
  let (failed, db) := dbBulkDoInsert drv true db
  if failed then (1, db) else (0, { db with bulk.buffer := none })

/-! ### Runs -/

/-- What a call returns and leaves. -/
def DbCall.exec : DbCall → Db σ → DbRet × Db σ
  | connectionClose, db => (dbConnectionClose drv db).map .int id
  | connectionReconnect, db => (dbConnectionReconnect drv db).map (fun rc => .int (if rc = .fatal then 2 else 0)) id
  | connectionFree, db => (.void, dbConnectionFree drv db)
  | prepare allocated text, db => (dbPrepare drv allocated text db).map .stmt id
  | bindParam s params, db => (dbBindParam drv s params db).map .int id
  | bindResult s results, db => (dbBindResult drv s results db).map .int id
  | execute s, db => (dbExecute drv s db).map .result id
  | fetchRow, db => (dbFetchRow drv db).map .row id
  | .query text, db => (dbQuery drv text db).map .result id
  | freeResults, db => (dbFreeResults drv db).map .int id
  | close s, db => (dbClose drv s db).map .int id
  | bulkInsertInit allocated row, db => (dbBulkInsertInit drv allocated row db).map .int id
  | bulkInsertNext row, db => (dbBulkInsertNext drv row db).map .int id
  | bulkInsertDone, db => (dbBulkInsertDone drv db).map .int id

/-- The state after a call, with its return in the log. -/
def DbCall.next (db : Db σ) (c : DbCall) : Db σ := (c.exec drv db).2.note (.ret c (c.exec drv db).1)

end calls

/-- The statement that a call gets. -/
def DbCall.stmt? : DbCall → Option ℕ
  | bindParam s _ | bindResult s _ | execute s | close s => some s
  | _ => none

/-- A call may be made on a connection that is not yet freed, with a statement that is not yet closed. -/
def DbCall.Legal (db : Db σ) (c : DbCall) : Prop := db.freed = false ∧ ∀ s ∈ c.stmt?, (db.stmts s).isSome

end NuKSM.Sysbench
