import NuKSM.Sysbench.DbDriver
import Mathlib.Logic.Relation

/-! # What the calls of the database layer do with the driver

Each call is a path of small steps, one for each operation of the driver. What every step keeps, every run of calls keeps. -/

namespace NuKSM.Sysbench
variable {σ : Type} {drv : Driver σ}

/-! ### Steps -/

/-- What the layer does between two operations of the driver, and each operation in the states where it is invoked. A query is
sent only where it `fits`. -/
inductive LayerStep (drv : Driver σ) (fits : Db σ → List Char → Prop) : Db σ → Db σ → Prop
  | write {db} (lo n : ℕ) : LayerStep drv fits db (db.note (.write lo n))
  | own {db} (error : DbError) (bulk : Bulk) (freed : Bool) :
      LayerStep drv fits db { db with error := error, bulk := bulk, freed := freed }
  | free {db} : db.state = .resultSet → LayerStep drv fits db (dbFreeResultsInt drv db).2
  | query {db} (text : List Char) : db.state = .ready → fits db text →
      LayerStep drv fits db (settle none (drv.query text db.drv).1 (db.invoke (.query text) (· ≠ DbError.none) (drv.query text)).2).2
  | execute {db} {s : ℕ} {stmt : DbStmt} : db.state = .ready → db.stmts s = some stmt →
      LayerStep drv fits db (settle (some s) (drv.execute stmt db.drv).1
        ({ db with statement := some s }.invoke .execute (· ≠ DbError.none) (drv.execute stmt)).2).2
  | fetchRow {db} (values : List DbValue) : db.state = .resultSet → db.drv.nfields ≠ 0 →
      LayerStep drv fits db { (db.invoke .fetchRow Prod.fst (drv.fetchRow values)).2 with
        values := some (drv.fetchRow values db.drv).1.2 }
  | describe {db} : db.state = .ready → LayerStep drv fits db (db.invoke .describe Option.isNone drv.describe).2
  | prepare {db} (text : List Char) : db.state ≠ .invalid → LayerStep drv fits db (dbPrepare drv true text db).2
  | bindParam {db} {s : ℕ} (params : List ℕ) : db.state ≠ .invalid → LayerStep drv fits db (dbBindParam drv s params db).2
  | bindResult {db} {s : ℕ} (results : List ℕ) : db.state ≠ .invalid → LayerStep drv fits db (dbBindResult drv s results db).2
  | close {db} {s : ℕ} {stmt : DbStmt} : db.state = .ready → db.stmts s = some stmt →
      LayerStep drv fits db { (db.invoke .close (· ≠ 0) (drv.close stmt)).2 with stmts := Function.update db.stmts s none }
  | disconnect {db} : db.state = .ready →
      LayerStep drv fits db { (db.invoke .disconnect (· ≠ 0) drv.disconnect).2 with state := .invalid }
  | reconnect {db} {f : DrvState σ → DbError × DrvState σ} : drv.reconnect = some f → db.state = .ready → (f db.drv).1 ≠ .fatal →
      LayerStep drv fits db ({ (db.invoke .reconnect (· = DbError.fatal) f).2 with state := .ready }.sbCounterInc .reconnect)
  | lost {db} {f : DrvState σ → DbError × DrvState σ} : drv.reconnect = some f → db.state = .ready → (f db.drv).1 = .fatal →
      LayerStep drv fits db ({ (db.invoke .reconnect (· = DbError.fatal) f).2 with state := .invalid }.sbCounterInc .error)

/-- Steps one after the other. -/
abbrev LayerPath (drv : Driver σ) (fits : Db σ → List Char → Prop) : Db σ → Db σ → Prop :=
  Relation.ReflTransGen (LayerStep drv fits)

variable {fits : Db σ → List Char → Prop} {db db' : Db σ}

theorem LayerStep.path (h : LayerStep drv fits db db') : LayerPath drv fits db db' := .single h

/-- A connection that is created is what a connect of the driver that succeeds leaves. -/
theorem dbConnectionCreate_eq {counters : SbCounterType → ℕ} {own : σ}
    (h : dbConnectionCreate drv counters own = some db) : (drv.connect { own := own }).1 = false ∧
      db = (Db.invoke .connect id drv.connect { drv := { own := own }, counters := counters }).2 := by
  unfold dbConnectionCreate at h
  dsimp only at h
  split at h
  · cases h
  · exact ⟨(Bool.not_eq_true _).mp ‹_›, (Option.some.inj h).symm⟩

/-! ### The path of a call -/

theorem freePending_path : LayerPath drv fits db (freePending drv db).2 := by
  unfold freePending
  split
  · exact (LayerStep.free ‹_›).path
  · exact .refl

theorem freePending_ready (h : db.state ≠ .invalid) : (freePending drv db).2.state = .ready := by
  unfold freePending
  split
  · rfl
  · cases hs : db.state <;> simp_all

theorem freePending_stmts : (freePending drv db).2.stmts = db.stmts := by
  unfold freePending
  split <;> rfl

/-- Once nothing is pending, there is nothing to free. -/
theorem freePending_of_ready (h : db.state = .ready) : freePending drv db = (false, db) := by
  unfold freePending
  rw [if_neg (by rw [h]; decide)]

/-- A call starts with freeing what is pending. -/
theorem freePending_spec (drv : Driver σ) (fits : Db σ → List Char → Prop) (h : db.state ≠ .invalid) :
    ∃ failed db₁, freePending drv db = (failed, db₁) ∧
    LayerPath drv fits db db₁ ∧ db₁.state = .ready ∧ db₁.stmts = db.stmts :=
  ⟨_, _, rfl, freePending_path, freePending_ready h, freePending_stmts⟩

theorem LayerPath.own (hpath : LayerPath drv fits db db') (error : DbError) (bulk : Bulk) (freed : Bool) :
    LayerPath drv fits db { db' with error := error, bulk := bulk, freed := freed } :=
  hpath.tail (.own error bulk freed)

theorem dbQuery_path (text : List Char) (hfits : db.state ≠ .invalid → fits (freePending drv db).2 text) :
    LayerPath drv fits db (dbQuery drv text db).2 := by
  unfold dbQuery
  split
  · exact LayerPath.own .refl _ _ _
  · obtain ⟨failed, db₁, heq, hpath, hready, -⟩ := freePending_spec drv fits ‹_›
    have hfits' := hfits ‹_›
    rw [heq] at hfits'
    simp only [heq]
    split
    · exact hpath.own _ _ _
    · exact hpath.tail (.query text hready hfits')

theorem dbConnectionClose_path : LayerPath drv fits db (dbConnectionClose drv db).2 := by
  unfold dbConnectionClose
  split
  · exact .refl
  · exact freePending_path.tail (.disconnect (freePending_ready ‹_›))

theorem dbConnectionReconnect_path : LayerPath drv fits db (dbConnectionReconnect drv db).2 := by
  unfold dbConnectionReconnect
  split
  · exact .refl
  split
  · exact .refl
  · obtain ⟨failed, db₁, heq, hpath, hready, -⟩ := freePending_spec drv fits ‹_›
    simp only [heq, Db.invoke]
    split
    · exact hpath.tail (.lost ‹_› hready ‹_›)
    · exact hpath.tail (.reconnect ‹_› hready ‹_›)

theorem dbPrepare_path (allocated : Bool) (text : List Char) : LayerPath drv fits db (dbPrepare drv allocated text db).2 := by
  by_cases h : db.state ≠ .invalid ∧ allocated
  · obtain ⟨hstate, rfl⟩ := h
    exact (LayerStep.prepare text hstate).path
  · unfold dbPrepare
    split
    · exact .refl
    · rw [if_pos fun ha => h ⟨‹_›, ha⟩]

theorem dbBindParam_path (s : ℕ) (params : List ℕ) : LayerPath drv fits db (dbBindParam drv s params db).2 := by
  by_cases hstate : db.state = .invalid
  · unfold dbBindParam
    split
    · exact .refl
    · rw [if_pos hstate]
  · exact (LayerStep.bindParam params hstate).path

theorem dbBindResult_path (s : ℕ) (results : List ℕ) : LayerPath drv fits db (dbBindResult drv s results db).2 := by
  by_cases hstate : db.state = .invalid
  · unfold dbBindResult
    split
    · exact .refl
    · rw [if_pos hstate]
  · exact (LayerStep.bindResult results hstate).path

theorem dbExecute_path (s : ℕ) : LayerPath drv fits db (dbExecute drv s db).2 := by
  unfold dbExecute
  split
  · exact .refl
  split
  · exact .refl
  · obtain ⟨failed, db₁, heq, hpath, hready, hstmts⟩ := freePending_spec drv fits ‹_›
    simp only [heq]
    split
    · exact hpath
    · exact hpath.tail (.execute hready (hstmts ▸ ‹_›))

theorem dbFetchRow_path : LayerPath drv fits db (dbFetchRow drv db).2 := by
  unfold dbFetchRow
  split
  · exact .refl
  split
  · exact .refl
  split
  · exact .refl
  · dsimp only
    split <;> exact (LayerStep.fetchRow _ (not_not.mp ‹_›) (not_or.mp ‹_›).2).path

theorem dbFreeResults_path : LayerPath drv fits db (dbFreeResults drv db).2 := by
  unfold dbFreeResults
  split
  · exact .refl
  split
  · exact .refl
  · exact (LayerStep.free (not_not.mp ‹_›)).path

theorem dbClose_path (s : ℕ) : LayerPath drv fits db (dbClose drv s db).2 := by
  unfold dbClose
  split
  · exact .refl
  split
  · exact .refl
  · obtain ⟨failed, db₁, heq, hpath, hready, hstmts⟩ := freePending_spec drv fits ‹_›
    simp only [heq]
    split
    · exact hpath
    · simp only [hready, reduceCtorEq, if_false, freePending_of_ready hready, ite_self, Bool.false_eq_true]
      exact hpath.tail (.close hready (hstmts ▸ ‹_›))

theorem dbConnectionFree_path : LayerPath drv fits db (dbConnectionFree drv db) := by
  unfold dbConnectionFree
  split
  · exact dbConnectionClose_path.own _ _ _
  · exact LayerPath.own .refl _ _ _

theorem dbBulkCommit_path (hfits : ∀ db text, fits db text) (isLast : Bool) : LayerPath drv fits db (dbBulkCommit drv isLast db).2 := by
  have hcount : LayerPath drv fits db { db with bulk.commitCnt := (db.bulk.commitCnt + db.bulk.cnt) % 2 ^ 32 } :=
    LayerPath.own .refl _ _ _
  unfold dbBulkCommit
  split
  · dsimp only
    split
    · split
      · exact hcount.trans (dbQuery_path _ fun _ => hfits _ _)
      · exact LayerPath.own (hcount.trans (dbQuery_path _ fun _ => hfits _ _)) _ _ _
    · exact hcount
  · exact .refl

theorem dbBulkDoInsert_path (hfits : ∀ db text, fits db text) (isLast : Bool) : LayerPath drv fits db (dbBulkDoInsert drv isLast db).2 := by
  unfold dbBulkDoInsert
  split
  · exact .refl
  dsimp only
  split
  · exact dbQuery_path _ fun _ => hfits _ _
  · have hsent : LayerPath drv fits db (dbQuery drv db.bulk.text db).2 := dbQuery_path _ fun _ => hfits _ _
    have hcommit := hsent.trans (dbBulkCommit_path hfits isLast)
    split
    · exact hcommit
    · exact LayerPath.own hcommit _ _ _

theorem dbBulkInsertInit_path (allocated : Bool) (query : CString) :
    LayerPath drv fits db (dbBulkInsertInit drv allocated query db).2 := by
  unfold dbBulkInsertInit
  split
  · exact .refl
  · obtain ⟨failed, db₁, heq, hpath, hready, -⟩ := freePending_spec drv fits ‹_›
    have hdescribe := hpath.tail (.describe hready)
    simp only [heq]
    split
    · exact hpath
    split
    · exact hdescribe
    split
    · exact hdescribe
    split
    · exact LayerPath.own hdescribe _ _ _
    · exact (LayerPath.own hdescribe _ _ _).tail (.write _ _)

theorem bulkAppend_path (query : CString) (buf : ℕ → Char) : LayerPath drv fits db (bulkAppend query buf db) := by
  unfold bulkAppend
  dsimp only
  split
  · exact LayerPath.own ((LayerStep.write db.bulk.ptr 1).path.tail (.write _ _)) _ _ _
  · exact LayerPath.own (LayerStep.write _ _).path _ _ _

theorem dbBulkInsertNext_path (hfits : ∀ db text, fits db text) (query : CString) : LayerPath drv fits db (dbBulkInsertNext drv query db).2 := by
  unfold dbBulkInsertNext
  split
  · exact .refl
  · obtain ⟨failed, db₁, heq, hpath, -, -⟩ := freePending_spec drv fits ‹_›
    simp only [heq]
    split
    · exact hpath
    split
    · exact hpath
    split
    · split
      · exact hpath
      split
      · exact hpath.trans (dbBulkDoInsert_path hfits false)
      · exact (hpath.trans (dbBulkDoInsert_path hfits false)).trans (bulkAppend_path _ _)
    · exact hpath.trans (bulkAppend_path _ _)

theorem dbBulkInsertDone_path (hfits : ∀ db text, fits db text) : LayerPath drv fits db (dbBulkInsertDone drv db).2 := by
  unfold dbBulkInsertDone
  dsimp only
  split
  · exact dbBulkDoInsert_path hfits true
  · exact (dbBulkDoInsert_path hfits true).own _ _ _

/-- The queries of a call fit. -/
def DbCall.Fits (drv : Driver σ) (fits : Db σ → List Char → Prop) (db : Db σ) : DbCall → Prop
  | .query text => db.state ≠ .invalid → fits (freePending drv db).2 text
  | bulkInsertNext _ | bulkInsertDone => ∀ db text, fits db text
  | _ => True

/-- A call is a path of steps. -/
theorem DbCall.exec_path (c : DbCall) (hfits : c.Fits drv fits db) : LayerPath drv fits db (c.exec drv db).2 := by
  cases c with
  | connectionClose => exact dbConnectionClose_path
  | connectionReconnect => exact dbConnectionReconnect_path
  | connectionFree => exact dbConnectionFree_path
  | prepare allocated text => exact dbPrepare_path allocated text
  | bindParam s params => exact dbBindParam_path s params
  | bindResult s results => exact dbBindResult_path s results
  | execute s => exact dbExecute_path s
  | fetchRow => exact dbFetchRow_path
  | query text => exact dbQuery_path text hfits
  | freeResults => exact dbFreeResults_path
  | close s => exact dbClose_path s
  | bulkInsertInit allocated row => exact dbBulkInsertInit_path allocated row
  | bulkInsertNext row => exact dbBulkInsertNext_path hfits row
  | bulkInsertDone => exact dbBulkInsertDone_path hfits

/-- What every step keeps, every call keeps. -/
theorem LayerPath.invariant {I : Db σ → Prop} (hstep : ∀ db db', LayerStep drv fits db db' → I db → I db')
    (hpath : LayerPath drv fits db db') (h : I db) : I db' := by
  induction hpath with
  | refl => exact h
  | tail _ hlast ih => exact hstep _ _ hlast ih

theorem DbCall.fits_any (c : DbCall) : c.Fits drv (fun _ _ => True) db := by
  cases c <;> simp [DbCall.Fits]

/-! ### What a call consists of -/

theorem freePending_error : (freePending drv db).2.error = db.error := by
  unfold freePending
  split <;> rfl

theorem freePending_counters : (freePending drv db).2.counters = db.counters := by
  unfold freePending
  split <;> rfl

theorem freePending_fst : (freePending drv db).1 = true ↔
    db.state = .resultSet ∧ (drv.freeResults (db.statement.map db.stmts) db.drv).1 ≠ 0 := by
  unfold freePending
  split
  · simp [dbFreeResultsInt, Db.invoke, *]
  · simp [*]

theorem settle_fst (stmt : Option ℕ) (error : DbError) :
    (settle stmt error db).1 = decide (error = .none ∧ db.drv.counter = .read) := by
  unfold settle
  dsimp only
  split
  · split
    · exact (decide_eq_true ⟨‹_›, ‹_›⟩).symm
    · exact (decide_eq_false fun h => ‹¬_› h.2).symm
  · exact (decide_eq_false fun h => ‹¬_› h.1).symm

theorem settle_error (stmt : Option ℕ) (error : DbError) : (settle stmt error db).2.error = error := by
  unfold settle
  dsimp only
  split
  · split <;> rfl
  · rfl

theorem settle_drv (stmt : Option ℕ) (error : DbError) : (settle stmt error db).2.drv = db.drv := by
  unfold settle
  dsimp only
  split
  · split <;> rfl
  · rfl

theorem settle_statements (db : Db σ) (stmt : Option ℕ) (error : DbError) : (settle stmt error db).2.statement = db.statement ∧
    (settle stmt error db).2.stmts = db.stmts ∧ (settle stmt error db).2.nstmts = db.nstmts := by
  unfold settle
  dsimp only
  split
  · split <;> exact ⟨rfl, rfl, rfl⟩
  · exact ⟨rfl, rfl, rfl⟩

theorem settle_state (stmt : Option ℕ) (error : DbError) (h : db.state = .ready) :
    (settle stmt error db).2.state = if error = .none ∧ db.drv.counter = .read then .resultSet else .ready := by
  unfold settle
  dsimp only
  split
  · split
    · exact (if_pos ⟨‹_›, ‹_›⟩).symm
    · exact (if_neg fun h => ‹¬_› h.2).symm
  · rw [if_neg fun hyields => ‹¬_› hyields.1]
    exact h

theorem settle_valid (stmt : Option ℕ) (error : DbError) (h : db.state ≠ .invalid) : (settle stmt error db).2.state ≠ .invalid := by
  unfold settle
  dsimp only
  split
  · split <;> nofun
  · exact h

/-- The connection is open, and what is pending is freed. -/
def Reaches (drv : Driver σ) (db : Db σ) : Prop := db.state ≠ .invalid ∧ (freePending drv db).1 = false

theorem not_reaches : ¬Reaches drv db ↔ db.state = .invalid ∨
    (db.state = .resultSet ∧ (drv.freeResults (db.statement.map db.stmts) db.drv).1 ≠ 0) := by
  rw [Reaches, not_and_or, not_not, Bool.not_eq_false, freePending_fst]

theorem dbQuery_of_reaches (text : List Char) (h : Reaches drv db) :
    dbQuery drv text db = settle none (drv.query text (freePending drv db).2.drv).1
      ((freePending drv db).2.invoke (.query text) (· ≠ DbError.none) (drv.query text)).2 := by
  unfold dbQuery
  dsimp only
  rw [if_neg h.1, if_neg (by rw [h.2]; decide)]
  rfl

theorem dbQuery_of_not_reaches (text : List Char) (h : ¬Reaches drv db) :
    dbQuery drv text db = (false, { (freePending drv db).2 with error := .fatal }) := by
  unfold dbQuery
  dsimp only
  split
  · rw [freePending, if_neg (by simp [*])]
  · rw [if_pos ((Bool.not_eq_false _).mp fun hok => h ⟨‹_›, hok⟩)]

theorem dbExecute_of_reaches {s : ℕ} {stmt : DbStmt} (hstmt : db.stmts s = some stmt) (h : Reaches drv db) :
    dbExecute drv s db = settle (some s) (drv.execute stmt (freePending drv db).2.drv).1
      ({ (freePending drv db).2 with statement := some s }.invoke .execute (· ≠ DbError.none) (drv.execute stmt)).2 := by
  unfold dbExecute
  rw [hstmt]
  dsimp only
  rw [if_neg h.1, if_neg (by rw [h.2]; decide)]
  rfl

theorem dbExecute_of_not_reaches {s : ℕ} (h : ¬Reaches drv db) (hs : (db.stmts s).isSome) :
    dbExecute drv s db = (false, (freePending drv db).2) := by
  obtain ⟨stmt, hstmt⟩ := Option.isSome_iff_exists.mp hs
  unfold dbExecute
  rw [hstmt]
  dsimp only
  split
  · rw [freePending, if_neg (by simp [*])]
  · rw [if_pos ((Bool.not_eq_false _).mp fun hok => h ⟨‹_›, hok⟩)]

theorem dbPrepare_of_open (drv : Driver σ) (text : List Char) (h : db.state ≠ .invalid) : dbPrepare drv true text db =
    if (drv.prepare text {} db.drv).1.1 then
      (none, { (db.invoke .prepare Prod.fst (drv.prepare text {})).2 with error := .fatal })
    else (some db.nstmts, { (db.invoke .prepare Prod.fst (drv.prepare text {})).2 with
      stmts := Function.update db.stmts db.nstmts (some (drv.prepare text {} db.drv).1.2), nstmts := db.nstmts + 1 }) := by
  unfold dbPrepare
  rw [if_neg h, if_neg (by decide)]
  rfl

theorem dbPrepare_of_not_open (drv : Driver σ) {allocated : Bool} (text : List Char) (h : ¬(db.state ≠ .invalid ∧ allocated)) :
    dbPrepare drv allocated text db = (none, db) := by
  unfold dbPrepare
  split
  · rfl
  · rw [if_pos fun ha => h ⟨‹_›, ha⟩]

theorem dbBindParam_cases (drv : Driver σ) (db : Db σ) (s : ℕ) (params : List ℕ) :
    (dbBindParam drv s params db).2 = db ∨ ∃ stmt, db.stmts s = some stmt ∧
    (dbBindParam drv s params db).2 = { (db.invoke .bindParam (·.1 ≠ 0) (drv.bindParam params stmt)).2 with
      stmts := Function.update db.stmts s (some (drv.bindParam params stmt db.drv).1.2) } := by
  unfold dbBindParam
  split
  · exact .inl rfl
  split
  · exact .inl rfl
  · exact .inr ⟨_, ‹_›, rfl⟩

theorem dbBindResult_cases (drv : Driver σ) (db : Db σ) (s : ℕ) (results : List ℕ) :
    (dbBindResult drv s results db).2 = db ∨ ∃ stmt, db.stmts s = some stmt ∧
    (dbBindResult drv s results db).2 = { (db.invoke .bindResult (·.1 ≠ 0) (drv.bindResult results stmt)).2 with
      stmts := Function.update db.stmts s (some (drv.bindResult results stmt db.drv).1.2) } := by
  unfold dbBindResult
  split
  · exact .inl rfl
  split
  · exact .inl rfl
  · exact .inr ⟨_, ‹_›, rfl⟩

end NuKSM.Sysbench
