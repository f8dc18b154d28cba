import NuKSM.Sysbench.DbDriver

/-! # The MySQL driver (`drv_mysql.c`)

The client library answers as it likes: each of its answers is a function of the calls so far, which the driver logs with
their answers. A connection is set up with calls that are left out of the log but for the last, `mysql_real_connect`. The
driver runs without `--mysql-dry-run`. -/

namespace NuKSM.Sysbench

/-! ### The client library -/

/-- A call of the client library with its answer, or a mark of the driver. -/
inductive MysqlCall
  | realConnect (ok : Bool)
  | close
  | errno (e : ℕ)
  | sqlstate
  | error
  | realQuery (text : List Char) (err : Bool)
  | storeResult (res : Option ℕ)
  | fieldCount (n : ℕ)
  | affectedRows (n : ℕ)
  | numRows (res n : ℕ)
  | numFields (res n : ℕ)
  | fetchRow (res : Option ℕ)
  | fetchLengths (res : Option ℕ)
  | freeResult (res : ℕ)
  | stmtInit (stmt : Option ℕ)
  | stmtPrepare (stmt : ℕ) (err : Bool)
  | stmtFieldCount (stmt n : ℕ)
  | stmtParamCount (stmt n : ℕ)
  | stmtBindParam (stmt : ℕ) (err : Bool)
  | stmtBindResult (stmt : ℕ) (err : Bool)
  | stmtExecute (stmt : ℕ) (err : Bool)
  | stmtAffectedRows (stmt n : ℕ)
  | stmtStoreResult (stmt : ℕ) (err : Bool)
  | stmtNumRows (stmt n : ℕ)
  | stmtFreeResult (stmt : Option ℕ)
  | stmtClose (stmt : ℕ)
  /-- A reconnection is given up while an error is handled. -/
  | abandoned
  /-- There is no memory for the text of a statement, or the statement has none of the library. -/
  | unable
  /-- A statement is read that has been freed. -/
  | useAfterFree
  deriving DecidableEq

/-- The calls so far. -/
abbrev MysqlLog := List MysqlCall

/-- What the client library, the memory, the script and the options answer. A reconnection fails `attempts` times before it
succeeds or is given up because of `sb_globals.error`. -/
structure MysqlClient where
  usePs : Bool := true
  ignoredErrors : List (List Char) := []
  connects : MysqlLog → Bool := fun _ => true
  attempts : MysqlLog → ℕ := fun _ => 0
  errno : MysqlLog → ℕ := fun _ => 0
  sqlstate : MysqlLog → List Char := fun _ => []
  error : MysqlLog → List Char := fun _ => []
  realQuery : MysqlLog → List Char → Bool := fun _ _ => false
  storeResult : MysqlLog → Option ℕ := fun _ => none
  fieldCount : MysqlLog → ℕ := fun _ => 0
  affectedRows : MysqlLog → ℕ := fun _ => 0
  numRows : MysqlLog → ℕ := fun _ => 0
  numFields : MysqlLog → ℕ := fun _ => 0
  fetchRow : MysqlLog → Option ℕ → Option (List (Option (List Char))) := fun _ _ => none
  stmtInit : MysqlLog → Option ℕ := fun _ => some 0
  stmtPrepare : MysqlLog → Bool := fun _ => false
  stmtFieldCount : MysqlLog → ℕ := fun _ => 0
  stmtParamCount : MysqlLog → ℕ := fun _ => 0
  stmtBindParam : MysqlLog → Bool := fun _ => false
  stmtBindResult : MysqlLog → Bool := fun _ => false
  stmtExecute : MysqlLog → Bool := fun _ => false
  stmtAffectedRows : MysqlLog → ℕ := fun _ => 0
  stmtStoreResult : MysqlLog → Bool := fun _ => false
  stmtNumRows : MysqlLog → ℕ := fun _ => 0
  stmtClose : MysqlLog → ℤ := fun _ => 0
  allocates : MysqlLog → Bool := fun _ => true
  /-- What the parameters of the script hold. -/
  param : MysqlLog → ℕ → DbBind := fun _ _ => ⟨.varchar, [nul], 0, 1, false⟩
  format : DbBindType → List Char → List Char := fun _ _ => []

/-- The state of the driver is its log. -/
abbrev Mysql := DrvState MysqlLog

/-- A call of the library. -/
def DrvState.call (d : Mysql) (e : MysqlCall) : Mysql := { d with own := d.own ++ [e] }

variable (client : MysqlClient)

/-! ### Errors -/

def crServerGoneError : ℕ := 2006
def crTcpConnection : ℕ := 2011
def crServerLost : ℕ := 2013
def crServerLostExtended : ℕ := 2055
def erUnsupportedPs : ℕ := 1295

/-- The errors after which the driver reconnects. -/
def isLoss (error : ℕ) : Bool :=
  error = crServerLost || error = crServerGoneError || error = crTcpConnection || error = crServerLostExtended

/-- `(unsigned int) atoi(s)`. -/
def atoi (s : List Char) : ℕ :=
  let s := s.dropWhile fun c => c = ' ' || ('\t' ≤ c && c ≤ '\r')
  let digits (s : List Char) : ℕ := (s.takeWhile Char.isDigit).foldl (fun n c => 10 * n + (c.toNat - '0'.toNat)) 0
  match s with
  | '-' :: s => (2 ^ 32 - digits s % 2 ^ 32) % 2 ^ 32
  | '+' :: s => digits s % 2 ^ 32
  | s => digits s % 2 ^ 32

/-- The error is in the list `--mysql-ignore-errors`. -/
def ignored (error : ℕ) : Bool := client.ignoredErrors.any fun val => error = atoi val || val = ['a', 'l', 'l']

/-- The loop of `mysql_drv_reconnect` that fails so many times before the attempt that decides. -/
def reconnectLoop : ℕ → Mysql → DbError × Mysql
  | 0, d =>
    let ok := client.connects d.own
    (if ok then .ignorable else .fatal, d.call (.realConnect ok))
  | n + 1, d => reconnectLoop n (d.call (.realConnect false))

/-- `mysql_drv_reconnect`. -/
def mysqlDrvReconnect (d : Mysql) : DbError × Mysql :=
  let d := d.call .close
  reconnectLoop client (client.attempts d.own) d

/-- The start of `check_error`, which copies the error to the connection. -/
def mysqlNoteError (d : Mysql) : Mysql :=
  let error := client.errno d.own
  let d := d.call (.errno error)
  let state := client.sqlstate d.own
  let d := d.call .sqlstate
  let errmsg := client.error d.own
  { d.call .error with sql := ⟨error, some state, some errmsg⟩ }

/-- `check_error`. -/
def mysqlCheckError (d : Mysql) : DbError × Mysql :=
  let d := mysqlNoteError client d
  if ignored client d.sql.errno then
    if isLoss d.sql.errno then
      let (rc, d) := mysqlDrvReconnect client { d with counter := .reconnect }
      (rc, if rc = .fatal then d.call .abandoned else d)
    else (.ignorable, { d with counter := .error })
  else (.fatal, { d with counter := .error })

/-! ### Queries -/

/-- `mysql_drv_query`. -/
def mysqlDrvQuery (query : List Char) (d : Mysql) : DbError × Mysql :=
  let d := { d with sql := {} }
  let err := client.realQuery d.own query
  let d := d.call (.realQuery query err)
  if err then mysqlCheckError client d
  else
    let res := client.storeResult d.own
    let d := d.call (.storeResult res)
    match res with
    | none =>
      let errno := client.errno d.own
      let d := d.call (.errno errno)
      if errno ≠ 0 then mysqlCheckError client d
      else
        let fields := client.fieldCount d.own
        let d := d.call (.fieldCount fields)
        if fields ≠ 0 then mysqlCheckError client d
        else
          let rows := client.affectedRows d.own
          let d := d.call (.affectedRows rows)
          if 0 < rows % 2 ^ 32 then (.none, { d with counter := .write, nrows := rows % 2 ^ 32 })
          else (.none, { d with counter := .other })
    | some res =>
      let rows := client.numRows d.own
      let d := d.call (.numRows res rows)
      let fields := client.numFields d.own
      let d := d.call (.numFields res fields)
      (.none, { d with counter := .read, ptr := some res, nrows := rows % 2 ^ 32, nfields := fields % 2 ^ 32 })

/-- The query string of an emulated statement. -/
def substitute : List Char → List (List Char) → List Char
  | [], _ => []
  | '?' :: query, value :: values => value ++ substitute query values
  | c :: query, values => c :: substitute query values

/-- `mysql_drv_execute`. The memory for the text of an emulated statement is there or not as a whole. -/
def mysqlDrvExecute (stmt : DbStmt) (d : Mysql) : DbError × Mysql :=
  let d := { d with sql := {} }
  if ¬stmt.emulated then
    match stmt.ptr with
    | none => (.fatal, d.call .unable)
    | some s =>
      let err := client.stmtExecute d.own
      let d := d.call (.stmtExecute s err)
      if err then mysqlCheckError client d
      else if stmt.counter ≠ .read then
        let rows := client.stmtAffectedRows d.own
        let d := d.call (.stmtAffectedRows s rows)
        (.none, { d with nrows := rows % 2 ^ 32, counter := if 0 < rows % 2 ^ 32 then .write else .other })
      else
        let err := client.stmtStoreResult d.own
        let d := d.call (.stmtStoreResult s err)
        if err then mysqlCheckError client d
        else
          let rows := client.stmtNumRows d.own
          (.none, { d.call (.stmtNumRows s rows) with counter := stmt.counter, nrows := rows % 2 ^ 32 })
  else if ¬client.allocates d.own then (.fatal, d.call .unable)
  else
    let values := stmt.boundParam.map fun i => (dbPrintText client.format (client.param d.own i)).getD []
    mysqlDrvQuery client (substitute (stmt.query.getD []) values) d

/-- `mysql_drv_fetch_row`. The library has lengths for a row until there is no further one. -/
def mysqlDrvFetchRow (values : List DbValue) (d : Mysql) : (Bool × List DbValue) × Mysql :=
  let row := client.fetchRow d.own d.ptr
  let d := (d.call (.fetchRow d.ptr)).call (.fetchLengths d.ptr)
  match row with
  | none => ((false, values), d)
  | some row =>
    ((false, (List.range d.nfields).map fun i =>
      ⟨((row.getD i none).getD []).length % 2 ^ 32, row.getD i none⟩), d)

/-- `mysql_drv_free_results`. -/
def mysqlDrvFreeResults (statement : Option (Option DbStmt)) (d : Mysql) : ℤ × Mysql :=
  match statement with
  | some none => (0, d.call .useAfterFree)
  | _ =>
    let d := match statement with
      | some (some stmt) => if stmt.emulated then d else { d.call (.stmtFreeResult stmt.ptr) with ptr := none }
      | _ => d
    match d.ptr with
    | some res => (0, { d.call (.freeResult res) with ptr := none })
    | none => (0, d)

/-! ### Parameters -/

/-- `enum_field_types`, as far as the driver uses them. -/
inductive MysqlType
  | tiny | short | long | longlong | float | double | datetime | timestamp | string | varString
  deriving DecidableEq

/-- `get_mysql_bind_type`, where none is -1. -/
def getMysqlBindType : DbBindType → Option MysqlType
  | .tinyint => some .tiny
  | .smallint => some .short
  | .int => some .long
  | .bigint => some .longlong
  | .float => some .float
  | .double => some .double
  | .datetime => some .datetime
  | .timestamp => some .timestamp
  | .char => some .string
  | .varchar => some .varString
  | _ => none

/-- `MYSQL_BIND`, with what its pointers point to. -/
structure MysqlBind where
  bufferType : Option MysqlType
  buffer : List Char
  bufferLength : ℕ
  length : ℕ
  isNull : Bool

/-- `convert_to_mysql_bind`. -/
def convertToMysqlBind (bind : DbBind) : MysqlBind :=
  ⟨getMysqlBindType bind.type, bind.buffer, bind.maxLen, bind.dataLen, bind.isNull⟩

/-! ### Connections and statements -/

/-- `mysql_drv_connect`. -/
def mysqlDrvConnect (d : Mysql) : Bool × Mysql :=
  let ok := client.connects d.own
  let d := d.call (.realConnect ok)
  if ok then (false, d)
  else
    let d := d.call (.errno (client.errno d.own))
    (true, d.call .error)

/-- `mysql_drv_disconnect`. -/
def mysqlDrvDisconnect (d : Mysql) : ℤ × Mysql := (0, d.call .close)

/-- `mysql_drv_prepare`. -/
def mysqlDrvPrepare (query : List Char) (stmt : DbStmt) (d : Mysql) : (Bool × DbStmt) × Mysql :=
  if client.usePs then
    let s := client.stmtInit d.own
    let d := d.call (.stmtInit s)
    match s with
    | none => ((true, stmt), d)
    | some s =>
      let stmt := { stmt with ptr := some s }
      let err := client.stmtPrepare d.own
      let d := d.call (.stmtPrepare s err)
      if err then
        let errno := client.errno d.own
        let d := (d.call (.errno errno)).call .error
        if errno = erUnsupportedPs then ((false, { stmt with emulated := true, query := some query }), d)
        else ((true, stmt), d.call (.stmtClose s))
      else
        let fields := client.stmtFieldCount d.own
        let d := d.call (.stmtFieldCount s fields)
        ((false, { stmt with query := some query, counter := if 0 < fields then .read else .write }), d)
  else ((false, { stmt with emulated := true, query := some query }), d)

/-- `mysql_drv_bind_param`. -/
def mysqlDrvBindParam (params : List ℕ) (stmt : DbStmt) (d : Mysql) : (ℤ × DbStmt) × Mysql :=
  if ¬stmt.emulated then
    match stmt.ptr with
    | none => ((1, stmt), d)
    | some s =>
      let count := client.stmtParamCount d.own
      let d := d.call (.stmtParamCount s count)
      if count ≠ params.length then ((1, stmt), d)
      else if ¬client.allocates d.own then ((1, stmt), d)
      else
        let err := client.stmtBindParam d.own
        let d := d.call (.stmtBindParam s err)
        if err then
          let d := d.call (.errno (client.errno d.own))
          ((1, stmt), d.call .error)
        else ((0, stmt), d)
  else if ¬client.allocates d.own then ((1, { stmt with boundParam := [] }), d)
  else ((0, { stmt with boundParam := params }), d)

/-- `mysql_drv_bind_result`. -/
def mysqlDrvBindResult (_params : List ℕ) (stmt : DbStmt) (d : Mysql) : (ℤ × DbStmt) × Mysql :=
  match stmt.ptr with
  | none => ((1, stmt), d)
  | some s =>
    if ¬client.allocates d.own then ((1, stmt), d)
    else
      let err := client.stmtBindResult d.own
      ((if err then 1 else 0, stmt), d.call (.stmtBindResult s err))

/-- `mysql_drv_close`. -/
def mysqlDrvClose (stmt : DbStmt) (d : Mysql) : ℤ × Mysql :=
  match stmt.ptr with
  | none => (1, d)
  | some s => (client.stmtClose d.own, d.call (.stmtClose s))

/-- `mysql_driver`, whose `needs_commit` is not set. -/
def mysqlDriver : Driver MysqlLog where
  describe d := (some ⟨false⟩, d)
  connect := mysqlDrvConnect client
  disconnect := mysqlDrvDisconnect
  reconnect := some (mysqlDrvReconnect client)
  prepare := mysqlDrvPrepare client
  bindParam := mysqlDrvBindParam client
  bindResult := mysqlDrvBindResult client
  execute := mysqlDrvExecute client
  fetchRow := mysqlDrvFetchRow client
  freeResults := mysqlDrvFreeResults
  close := mysqlDrvClose client
  query := mysqlDrvQuery client

end NuKSM.Sysbench
