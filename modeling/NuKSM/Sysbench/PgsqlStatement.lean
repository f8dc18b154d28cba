import NuKSM.Sysbench.DbDriver

/-! # Prepared statements of the PostgreSQL server (`drv_pgsql.c`)

Parameters are told by their numbers. The types of the parameters, which only `PQprepare` gets, are left out, and so is what
becomes of the result of `PQexecPrepared`: it is checked like that of a query. -/

namespace NuKSM.Sysbench

/-- `MAX_PARAM_LENGTH`. -/
def maxParamLength : ℕ := 256

/-- The bytes that are allocated for the text of a parameter. -/
abbrev ParamBuffer := Fin maxParamLength → Char

/-- `pg_stmt_t`, with the parameters that are bound to the statement. -/
structure PgStmt where
  nparams : ℕ
  prepared : Bool
  boundParam : ℕ → DbBind
  pvalues : ℕ → ParamBuffer

/-- `pgsql_drv_bind_param`, where `prepares` is whether `PQprepare` succeeds and `fresh` what `malloc` leaves in the
buffers. -/
def pgsqlDrvBindParam (prepares : Bool) (fresh : ℕ → ParamBuffer) (params : ℕ → DbBind) (len : ℕ) (stmt : PgStmt) :
    ℤ × PgStmt :=
  let stmt := { stmt with boundParam := params }
  if stmt.prepared then (0, stmt)
  else if stmt.nparams ≠ len then (1, stmt)
  else if prepares then (0, { stmt with pvalues := fresh, prepared := true })
  else (1, stmt)

/-- The first `copied` bytes of `s` go to a buffer, and a zero byte to the place `terminator`: what the buffer holds then, and
the places that are written. -/
def ParamBuffer.store (pvalue : ParamBuffer) (s : List Char) (copied terminator : ℕ) : ParamBuffer × List ℕ :=
  (fun k => if k = terminator then nul else if k < copied then s.getD k nul else pvalue k, List.range copied ++ [terminator])

/-- The conversion of a parameter in `pgsql_drv_execute`. What `snprintf` prints is cut off so that it fits. -/
def convertParam (format : DbBindType → List Char → List Char) (param : DbBind) (pvalue : ParamBuffer) :
    ParamBuffer × List ℕ :=
  if param.isNull then (pvalue, [])
  else match param.type with
    | .char | .varchar => pvalue.store param.buffer (min maxParamLength param.dataLen) param.dataLen
    | .none => (pvalue, [])
    | type =>
      let text := format type param.buffer
      pvalue.store text (min (maxParamLength - 1) text.length) (min (maxParamLength - 1) text.length)

/-- The pointers that a call of `PQexecPrepared` gets, as the bytes that they lead to, and what was written before it. -/
structure ExecPrepared where
  values : ℕ → Option (List Char)
  writes : List (ℕ × ℕ)

/-- `pgsql_drv_execute` up to the call of `PQexecPrepared`. -/
def pgsqlDrvExecute (format : DbBindType → List Char → List Char) (stmt : PgStmt) : ExecPrepared × PgStmt :=
  let converted i := convertParam format (stmt.boundParam i) (stmt.pvalues i)
  let pvalues i := if i < stmt.nparams then (converted i).1 else stmt.pvalues i
  ({ values := fun i => some (List.ofFn (pvalues i))
     writes := (List.range stmt.nparams).flatMap fun i => (converted i).2.map (i, ·) },
    { stmt with pvalues })

end NuKSM.Sysbench
