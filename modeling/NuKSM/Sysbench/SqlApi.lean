import NuKSM.Sysbench.DbDriver

/-! # The SQL API of the scripts (`sysbench.sql.lua`) -/

namespace NuKSM.Sysbench

/-- How a method of the API ends: it returns, or it raises an error. -/
inductive ApiOutcome
  | returned | apiError | restartEvent | sqlError
  deriving DecidableEq

/-- `connection_methods.check_error`, where `ignorable` is the hook `sql_error_ignorable`. -/
def checkError (ignorable : SqlError → Bool) (rs : Bool) (error : DbError) (sql : SqlError) : ApiOutcome :=
  if rs ∨ error = .none then .returned
  else if sql.state = none ∨ sql.errmsg = none then .apiError
  else if (error = .fatal ∧ ignorable sql) ∨ error = .ignorable then .restartEvent
  else .sqlError

/-- `connection_methods.query`, `statement_methods.execute` and `connection_methods.prepare`, after the call of the layer. -/
def apiOutcome {σ : Type} (ignorable : SqlError → Bool) : DbRet → Db σ → ApiOutcome
  | .result rs, db => checkError ignorable rs db.error db.drv.sql
  | .stmt s, db => if s = none then checkError ignorable false db.error db.drv.sql else .returned
  | _, _ => .returned

/-- `result_methods.fetch_row`. The fields of a row that are NULL are missing. -/
def resultFetchRow {σ : Type} (drv : Driver σ) (db : Db σ) : Option (List (Option (List Char))) × Db σ :=
  let (row, db) := dbFetchRow drv db
  (row.map fun values => (List.range db.drv.nfields).map fun i =>
    let value := values.getD i ⟨0, none⟩
    value.ptr.map (·.take value.len), db)

/-- `statement_methods.bind_create`, where no parameter is an error. A new buffer holds zeros. -/
def bindCreate (btype : DbBindType) (maxLen : ℕ) : Option DbBind :=
  match btype with
  | .tinyint | .smallint | .int | .bigint => some ⟨.bigint, List.replicate 8 nul, 0, 8, false⟩
  | .float | .double => some ⟨.double, List.replicate 8 nul, 0, 8, false⟩
  | .char | .varchar => some ⟨.varchar, List.replicate maxLen nul, 0, maxLen, false⟩
  | _ => none

/-- `sql_param.set` of a parameter of characters, where nil is none. -/
def sqlParamSet (value : Option (List Char)) (param : DbBind) : DbBind :=
  match value with
  | none => { param with isNull := true }
  | some value =>
    let len := if param.maxLen < value.length then param.maxLen else value.length
    { param with isNull := false, buffer := value.take len ++ param.buffer.drop len, dataLen := len }

end NuKSM.Sysbench
