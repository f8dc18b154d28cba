import NuKSM.Sysbench.SqlApi
import NuKSM.Theorems.Sysbench.DbOrder

/-! # The error of a connection

Whether `con->error` tells the calls that fail from those that succeed. -/

namespace NuKSM.Sysbench
variable {σ : Type} {drv : Driver σ} {db db' : Db σ}

/-! ### What a call adds to the log -/

/-- What has been logged since `db`. -/
def Db.since (db db' : Db σ) : List DbEvent := db'.log.drop db.log.length

theorem since_eq {seg : List DbEvent} (h : db'.log = db.log ++ seg) : db.since db' = seg := by
  rw [Db.since, h]
  exact List.drop_left

/-- What `freePending` logs. -/
def freeEvents (drv : Driver σ) (db : Db σ) : List DbEvent :=
  if db.state = .resultSet then [.op .freeResults (freePending drv db).1] else []

theorem freePending_log : (freePending drv db).2.log = db.log ++ freeEvents drv db := by
  unfold freeEvents freePending
  split
  · rfl
  · exact (List.append_nil _).symm

/-- What `settle` logs. -/
def settleEvents (stmt : Option ℕ) (error : DbError) (counter : SbCounterType) : List DbEvent :=
  if error = .none ∧ counter = .read then [.handedOut stmt] else []

theorem settle_log (stmt : Option ℕ) (error : DbError) :
    (settle stmt error db).2.log = db.log ++ settleEvents stmt error db.drv.counter := by
  unfold settle settleEvents
  dsimp only
  split
  · split
    · rw [if_pos ⟨‹_›, ‹_›⟩]
      rfl
    · rw [if_neg fun h => ‹¬_› h.2]
      exact (List.append_nil _).symm
  · rw [if_neg fun h => ‹¬_› h.1]
    exact (List.append_nil _).symm

/-- What an operation logs that may yield a result set. -/
def runEvents (o : DrvOp) (stmt : Option ℕ) (error : DbError) (counter : SbCounterType) : List DbEvent :=
  .op o (error ≠ .none) :: settleEvents stmt error counter

theorem run_log (db : Db σ) (o : DrvOp) (stmt : Option ℕ) (f : DrvState σ → DbError × DrvState σ) :
    (settle stmt (f db.drv).1 (db.invoke o (· ≠ DbError.none) f).2).2.log =
      db.log ++ runEvents o stmt (f db.drv).1 (f db.drv).2.counter := by
  rw [settle_log]
  exact List.append_assoc _ _ _

theorem mem_freeEvents (o : DrvOp) (ho : o ≠ .freeResults) {failed : Bool} : .op o failed ∉ freeEvents drv db := by
  unfold freeEvents
  split
  · exact fun h => ho (DbEvent.op.inj (List.mem_singleton.mp h)).1
  · exact List.not_mem_nil

/-- The operation is logged as it ends. -/
theorem mem_runEvents {o : DrvOp} {stmt : Option ℕ} {error : DbError} {counter : SbCounterType} :
    .op o false ∈ runEvents o stmt error counter ↔ error = .none := by
  unfold runEvents settleEvents
  split <;> cases error <;> simp

theorem dbQuery_log (text : List Char) (h : Reaches drv db) :
    (dbQuery drv text db).2.log = db.log ++ (freeEvents drv db ++ runEvents (.query text) none
      (drv.query text (freePending drv db).2.drv).1 (drv.query text (freePending drv db).2.drv).2.counter) := by
  rw [dbQuery_of_reaches text h, run_log, freePending_log, List.append_assoc]

theorem dbExecute_log {s : ℕ} {stmt : DbStmt} (hstmt : db.stmts s = some stmt) (h : Reaches drv db) :
    (dbExecute drv s db).2.log = db.log ++ (freeEvents drv db ++ runEvents .execute (some s)
      (drv.execute stmt (freePending drv db).2.drv).1 (drv.execute stmt (freePending drv db).2.drv).2.counter) := by
  rw [dbExecute_of_reaches hstmt h]
  refine (run_log { (freePending drv db).2 with statement := some s } .execute (some s) (drv.execute stmt)).trans ?_
  exact (congrArg (· ++ _) freePending_log).trans (List.append_assoc _ _ _)

/-! ### The error after a call -/

theorem dbQuery_error (text : List Char) :
    .op (.query text) false ∈ db.since (dbQuery drv text db).2 ↔ (dbQuery drv text db).2.error = .none := by
  by_cases h : Reaches drv db
  · rw [since_eq (dbQuery_log text h), List.mem_append, mem_runEvents, or_iff_right (mem_freeEvents (.query text) nofun),
      dbQuery_of_reaches text h, settle_error]
  · have hlog : (dbQuery drv text db).2.log = db.log ++ freeEvents drv db := by
      rw [dbQuery_of_not_reaches text h]
      exact freePending_log
    have herror : (dbQuery drv text db).2.error = .fatal := by rw [dbQuery_of_not_reaches text h]
    rw [since_eq hlog, herror]
    exact iff_of_false (mem_freeEvents (.query text) nofun) nofun

theorem dbExecute_error {s : ℕ} (hs : (db.stmts s).isSome) :
    .op .execute false ∈ db.since (dbExecute drv s db).2 ↔ Reaches drv db ∧ (dbExecute drv s db).2.error = .none := by
  by_cases h : Reaches drv db
  · obtain ⟨stmt, hstmt⟩ := Option.isSome_iff_exists.mp hs
    rw [since_eq (dbExecute_log hstmt h), List.mem_append, mem_runEvents, or_iff_right (mem_freeEvents .execute nofun),
      dbExecute_of_reaches hstmt h, settle_error, and_iff_right h]
  · rw [dbExecute_of_not_reaches h hs, since_eq freePending_log]
    exact iff_of_false (mem_freeEvents .execute nofun) fun hr => h hr.1

theorem dbExecute_error_kept {s : ℕ} (h : ¬Reaches drv db) (hs : (db.stmts s).isSome) :
    (dbExecute drv s db).2.error = db.error := by
  rw [dbExecute_of_not_reaches h hs, freePending_error]

/-! ### Reports -/

/-- The call has executed or prepared its statement. -/
def DbCall.Succeeded (seg : List DbEvent) : DbCall → Prop
  | .prepare .. => .op .prepare false ∈ seg
  | .execute _ => .op .execute false ∈ seg
  | .query text => .op (.query text) false ∈ seg
  | _ => True

/-- The calls that report success by the error of the connection. -/
def DbCall.Reporting : DbCall → Prop
  | .prepare .. | .execute _ | .query _ => True
  | _ => False

/-- After the call the error tells whether it has succeeded, and the scripts are told of a failure. -/
structure Reports (drv : Driver σ) (db : Db σ) (c : DbCall) : Prop where
  failure : ¬c.Succeeded (db.since (c.exec drv db).2) → (c.exec drv db).2.error ≠ .none
  raised : ¬c.Succeeded (db.since (c.exec drv db).2) → ∀ ignorable,
    apiOutcome ignorable (c.exec drv db).1 (c.exec drv db).2 ≠ .returned
  success : c.Succeeded (db.since (c.exec drv db).2) → (c.exec drv db).2.error = .none

/-- The calls that leave the error as it is find it right. -/
def ErrorFits (drv : Driver σ) (db : Db σ) : DbCall → Prop
  | .prepare allocated text =>
    if db.state ≠ .invalid ∧ allocated then (drv.prepare text {} db.drv).1.1 = false → db.error = .none
    else db.error ≠ .none
  | .execute _ => db.state = .invalid ∨
    (db.state = .resultSet ∧ (drv.freeResults (db.statement.map db.stmts) db.drv).1 ≠ 0) → db.error ≠ .none
  | _ => True

theorem checkError_none (ignorable : SqlError → Bool) {error : DbError} (sql : SqlError) (h : error ≠ .none) :
    checkError ignorable false error sql ≠ .returned := by
  unfold checkError
  rw [if_neg (by simpa using h)]
  split
  · nofun
  · split <;> nofun

/-- Where the error tells the failures from the successes, so do the scripts. -/
theorem Reports.of_iff {c : DbCall} (h : c.Succeeded (db.since (c.exec drv db).2) ↔ (c.exec drv db).2.error = .none)
    (hret : ¬c.Succeeded (db.since (c.exec drv db).2) → (c.exec drv db).1 = .result false ∨ (c.exec drv db).1 = .stmt none) :
    Reports drv db c where
  failure hfail := fun herror => hfail (h.mpr herror)
  raised hfail ignorable := by
    have hne := checkError_none ignorable (c.exec drv db).2.drv.sql fun herror => hfail (h.mpr herror)
    rcases hret hfail with hret | hret
    · rw [hret]
      exact hne
    · rw [hret]
      exact hne
  success := h.mp

theorem dbQuery_fst (drv : Driver σ) (db : Db σ) (text : List Char) (h : (dbQuery drv text db).2.error ≠ .none) :
    (dbQuery drv text db).1 = false := by
  by_cases hr : Reaches drv db
  · rw [dbQuery_of_reaches text hr] at h ⊢
    rw [settle_error] at h
    unfold settle
    dsimp only
    rw [if_neg h]
  · rw [dbQuery_of_not_reaches text hr]

theorem dbExecute_fst {s : ℕ} (hs : (db.stmts s).isSome) (h : ¬(Reaches drv db ∧ (dbExecute drv s db).2.error = .none)) :
    (dbExecute drv s db).1 = false := by
  by_cases hr : Reaches drv db
  · obtain ⟨stmt, hstmt⟩ := Option.isSome_iff_exists.mp hs
    rw [and_iff_right hr] at h
    rw [dbExecute_of_reaches hstmt hr] at h ⊢
    rw [settle_error] at h
    unfold settle
    dsimp only
    rw [if_neg h]
  · rw [dbExecute_of_not_reaches hr hs]

theorem prepare_reports_iff (allocated : Bool) (text : List Char) :
    Reports drv db (.prepare allocated text) ↔ ErrorFits drv db (.prepare allocated text) := by
  rw [ErrorFits]
  by_cases hopen : db.state ≠ .invalid ∧ allocated
  · rw [if_pos hopen]
    obtain ⟨hstate, rfl⟩ := hopen
    have hexec := dbPrepare_of_open drv text hstate
    cases hrc : (drv.prepare text {} db.drv).1.1 with
    | true =>
      rw [hrc, if_pos rfl] at hexec
      have hsince : db.since (dbPrepare drv true text db).2 = [.op .prepare true] := by
        rw [hexec]
        exact since_eq (congrArg (db.log ++ [.op .prepare ·]) hrc)
      refine iff_of_true (.of_iff (iff_of_false ?_ ?_) fun _ => .inr ?_) nofun
      · simp [DbCall.Succeeded, DbCall.exec, hsince]
      · simp [DbCall.exec, hexec]
      · simp [DbCall.exec, hexec]
    | false =>
      rw [hrc, if_neg (by decide)] at hexec
      have hsince : db.since (dbPrepare drv true text db).2 = [.op .prepare false] := by
        rw [hexec]
        exact since_eq (congrArg (db.log ++ [.op .prepare ·]) hrc)
      have hdone : (DbCall.prepare true text).Succeeded (db.since (dbPrepare drv true text db).2) := by
        simp [DbCall.Succeeded, hsince]
      have herror : (dbPrepare drv true text db).2.error = db.error := by rw [hexec]; rfl
      exact ⟨fun h _ => herror.symm.trans (h.success hdone), fun h => ⟨fun hf => absurd hdone hf, fun hf => absurd hdone hf,
        fun _ => herror.trans (h rfl)⟩⟩
  · have hexec := dbPrepare_of_not_open drv text hopen
    have hnot : ¬(DbCall.prepare allocated text).Succeeded (db.since (dbPrepare drv allocated text db).2) := by
      rw [hexec, since_eq (List.append_nil _).symm]
      exact List.not_mem_nil
    rw [if_neg hopen]
    refine ⟨fun h => ?_, fun h => .of_iff (iff_of_false hnot ?_) fun _ => .inr ?_⟩
    · simpa [DbCall.exec, hexec] using h.failure hnot
    · simpa [DbCall.exec, hexec] using h
    · simp [DbCall.exec, hexec]

theorem execute_reports_iff {s : ℕ} (hs : (db.stmts s).isSome) : Reports drv db (.execute s) ↔ ErrorFits drv db (.execute s) := by
  have hdone : _ ↔ Reaches drv db ∧ _ := dbExecute_error hs
  have hret : ¬(DbCall.execute s).Succeeded (db.since (dbExecute drv s db).2) → (dbExecute drv s db).1 = false :=
    fun hnot => dbExecute_fst hs fun h => hnot (hdone.mpr h)
  rw [ErrorFits, ← not_reaches]
  by_cases hr : Reaches drv db
  · rw [and_iff_right hr] at hdone
    exact iff_of_true (.of_iff hdone fun hnot => .inl (congrArg DbRet.result (hret hnot))) fun h => absurd hr h
  · have hnot : ¬(DbCall.execute s).Succeeded (db.since (dbExecute drv s db).2) := fun h => hr (hdone.mp h).1
    have herror := dbExecute_error_kept hr hs
    refine ⟨fun h _ => herror ▸ h.failure hnot, fun h => .of_iff (iff_of_false hnot ?_) fun hnot =>
      .inl (congrArg DbRet.result (hret hnot))⟩
    exact fun hnone => h hr (herror.symm.trans hnone)

/-- A call that may fail without its error reports exactly where the error is right beforehand. -/
theorem reports_iff {c : DbCall} (hc : c.Reporting) (hlegal : c.Legal db) : Reports drv db c ↔ ErrorFits drv db c := by
  cases c with
  | prepare allocated text => exact prepare_reports_iff allocated text
  | execute s => exact execute_reports_iff (hlegal.2 s rfl)
  | query text =>
    refine iff_of_true (.of_iff (dbQuery_error text) fun hfail => .inl ?_) trivial
    exact congrArg DbRet.result (dbQuery_fst drv db text fun herror => hfail ((dbQuery_error text).mpr herror))
  | _ => exact hc.elim

/-- A query on a connection that is closed reports. -/
theorem reports_iff_closed : ∃ db₀ db, dbConnectionCreate (scripted false) (fun _ => 0) [] = some db₀ ∧
    Reach DbCall.Legal (DbCall.next (scripted false)) db₀ db ∧ Reports (scripted false) db (.query []) :=
  have hreach := Reach.start.call .connectionClose ⟨rfl, nofun⟩
  ⟨_, _, rfl, hreach, (reports_iff (c := .query []) trivial ⟨rfl, nofun⟩).mpr trivial⟩

/-- The execution of a statement after `db_connection_close` passes for a success. -/
theorem not_reports_closed : ∃ db₀ db, dbConnectionCreate (scripted false) (fun _ => 0) [] = some db₀ ∧
    Reach DbCall.Legal (DbCall.next (scripted false)) db₀ db ∧ (DbCall.execute 0).Legal db ∧
    ¬Reports (scripted false) db (.execute 0) := by
  refine ⟨_, _, rfl, (Reach.start.call (.prepare true []) ⟨rfl, nofun⟩).call .connectionClose ⟨rfl, nofun⟩,
    ⟨rfl, fun s hs => ?_⟩, fun h => ?_⟩
  · cases hs
    rfl
  · exact (execute_reports_iff rfl).mp h (.inl rfl) rfl

end NuKSM.Sysbench
