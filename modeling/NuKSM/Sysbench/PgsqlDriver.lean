import NuKSM.Sysbench.DbDriver

/-! # The PostgreSQL driver (`drv_pgsql.c`)

Connections and queries. What the driver does with prepared statements is a parameter here. The client library answers as it
likes, by the calls so far that change something. -/

namespace NuKSM.Sysbench

/-- `ExecStatusType`, as far as the driver tells the values apart. -/
inductive ExecStatusType
  | tuplesOk | commandOk | fatalError | other
  deriving DecidableEq

/-- A call of the client library that changes something. -/
inductive PgCall
  | setdbLogin (ok : Bool)
  | finish
  | exec (query : List Char) (res : ℕ)
  | clear (res : ℕ)
  deriving DecidableEq

/-- The calls so far. -/
abbrev PgLog := List PgCall

/-- What the client library answers. The fields of a result are told by row and column. -/
structure PgLibrary where
  connects : PgLog → Bool := fun _ => true
  exec : PgLog → ℕ := List.length
  resultStatus : PgLog → ℕ → ExecStatusType := fun _ _ => .tuplesOk
  ntuples : PgLog → ℕ → ℕ := fun _ _ => 0
  nfields : PgLog → ℕ → ℕ := fun _ _ => 0
  cmdTuples : PgLog → ℕ → List Char := fun _ _ => []
  sqlstate : PgLog → ℕ → List Char := fun _ _ => []
  message : PgLog → ℕ → List Char := fun _ _ => []
  getisnull : PgLog → ℕ → ℕ → ℕ → Bool := fun _ _ _ _ => true
  getlength : PgLog → ℕ → ℕ → ℕ → ℕ := fun _ _ _ _ => 0
  getvalue : PgLog → ℕ → ℕ → ℕ → List Char := fun _ _ _ _ => []

/-- The state of the driver is its log. -/
abbrev Pgsql := DrvState PgLog

variable (lib : PgLibrary)

/-! ### Connections -/

/-- `pgsql_drv_describe`, whose `needs_commit` is not set. It looks at the server on a connection of its own. -/
def pgsqlDrvDescribe (d : Pgsql) : Option DrvCaps × Pgsql :=
  let ok := lib.connects d.own
  (if ok then some ⟨false⟩ else none, { d with own := d.own ++ [.setdbLogin ok, .finish] })

/-- `pgsql_drv_connect`. -/
def pgsqlDrvConnect (d : Pgsql) : Bool × Pgsql :=
  if lib.connects d.own then (false, { d with own := d.own ++ [.setdbLogin true] })
  else (true, { d with own := d.own ++ [.setdbLogin false, .finish] })

/-- `pgsql_drv_disconnect`. -/
def pgsqlDrvDisconnect (d : Pgsql) : ℤ × Pgsql :=
  (0, { d with sql := { d.sql with state := none, errmsg := none }, own := d.own ++ [.finish] })

/-! ### Queries -/

/-- `strtoul(s, NULL, 10)` of a string that starts with its digits. -/
def strtoul (s : List Char) : ℕ :=
  min ((s.takeWhile Char.isDigit).foldl (fun n c => 10 * n + (c.toNat - '0'.toNat)) 0) (2 ^ 64 - 1)

/-- A deadlock, a unique violation and a serialization failure. -/
def ignorableStates : List (List Char) :=
  [['4', '0', 'P', '0', '1'], ['2', '3', '5', '0', '5'], ['4', '0', '0', '0', '1']]

def rollbackText : List Char := ['R', 'O', 'L', 'L', 'B', 'A', 'C', 'K']

/-- `pgsql_check_status`. -/
def pgsqlCheckStatus (pgres : ℕ) (d : Pgsql) : DbError × Pgsql :=
  match lib.resultStatus d.own pgres with
  | .tuplesOk =>
    (.none, { d with
      nrows := lib.ntuples d.own pgres % 2 ^ 32, nfields := lib.nfields d.own pgres % 2 ^ 32, counter := .read })
  | .commandOk =>
    let nrows := strtoul (lib.cmdTuples d.own pgres) % 2 ^ 32
    (.none, { d with nrows := nrows, counter := if 0 < nrows then .write else .other, own := d.own ++ [.clear pgres] })
  | .fatalError =>
    let state := lib.sqlstate d.own pgres
    let d := { d with
      nrows := 0, counter := .error, sql := { d.sql with state := some state, errmsg := some (lib.message d.own pgres) } }
    if state ∈ ignorableStates then
      let tmp := lib.exec d.own
      (.ignorable, { d with own := d.own ++ [.exec rollbackText tmp, .clear tmp, .clear pgres] })
    else (.fatal, { d with own := d.own ++ [.clear pgres] })
  | .other => (.fatal, { d with nrows := 0, counter := .error })

/-- `pgsql_drv_query`. -/
def pgsqlDrvQuery (query : List Char) (d : Pgsql) : DbError × Pgsql :=
  let pgres := lib.exec d.own
  let (rc, d) := pgsqlCheckStatus lib pgres { d with sql := {}, own := d.own ++ [.exec query pgres] }
  (rc, { d with ptr := if d.counter = .read then some pgres else none })

/-- `(int) n` of an `uint32_t`. -/
def signedInt (n : ℕ) : ℤ := if n < 2 ^ 31 then n else n - 2 ^ 32

/-- A field of a row of a result, in the place of an old value. -/
def pgsqlField (own : PgLog) (res row i : ℕ) (old : DbValue) : DbValue :=
  if lib.getisnull own res row i then { old with ptr := none }
  else ⟨lib.getlength own res row i % 2 ^ 32, some (lib.getvalue own res row i)⟩

/-- `pgsql_drv_fetch_row`. The row pointer is the number of the row. -/
def pgsqlDrvFetchRow (values : List DbValue) (d : Pgsql) : (Bool × List DbValue) × Pgsql :=
  let rownum := d.rowPtr
  if signedInt d.nrows ≤ rownum then ((false, values), d)
  else
    ((false, (List.range (signedInt d.nfields).toNat).map fun i =>
      pgsqlField lib d.own (d.ptr.getD 0) rownum i (values.getD i ⟨0, none⟩)), { d with rowPtr := rownum + 1 })

/-- `pgsql_drv_free_results`. -/
def pgsqlDrvFreeResults (_statement : Option (Option DbStmt)) (d : Pgsql) : ℤ × Pgsql :=
  match d.ptr with
  | some res => (0, { d with ptr := none, rowPtr := 0, own := d.own ++ [.clear res] })
  | none => (1, d)

/-- `pgsql_driver`, with its operations on prepared statements as in `statements`. It has no `reconnect`. -/
def pgsqlDriver (statements : Driver PgLog) : Driver PgLog where
  describe := pgsqlDrvDescribe lib
  connect := pgsqlDrvConnect lib
  disconnect := pgsqlDrvDisconnect
  reconnect := none
  prepare := statements.prepare
  bindParam := statements.bindParam
  bindResult := statements.bindResult
  execute := statements.execute
  fetchRow := pgsqlDrvFetchRow lib
  freeResults := pgsqlDrvFreeResults
  close := statements.close
  query := pgsqlDrvQuery lib

end NuKSM.Sysbench
