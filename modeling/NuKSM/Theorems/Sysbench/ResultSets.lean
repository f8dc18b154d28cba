import NuKSM.Theorems.Sysbench.MysqlHandle

/-! # Who owns a result set

Whether the connection knows what has produced the result set that it holds, and what the MySQL driver does with the results that
the library stores for it. -/

namespace NuKSM.Sysbench

/-! ### The producer of a result set -/

def DbEvent.producer? : DbEvent → Option (Option ℕ)
  | handedOut stmt => some stmt
  | _ => none

/-- What has produced the last result set. -/
def producer (log : List DbEvent) : Option (Option ℕ) := log.reverse.findSome? DbEvent.producer?

/-- The statement of the result set is the one that has produced it, which is not closed, or none if `db_query` has. -/
structure OwnerKnown {σ : Type} (db : Db σ) : Prop where
  producer : db.state = .resultSet → producer db.log = some db.statement
  isOpen : db.state = .resultSet → ∀ s ∈ db.statement, (db.stmts s).isSome

/-- The calls other than those of bulk inserts. -/
def DbCall.Single : DbCall → Prop
  | bulkInsertInit .. | bulkInsertNext _ | bulkInsertDone => False
  | _ => True

/-- A query that yields a result set without one to be freed first finds no statement. -/
def DbCall.FindsNoStatement {σ : Type} (drv : Driver σ) (db : Db σ) : DbCall → Prop
  | .query text =>
    let ran := drv.query text (freePending drv db).2.drv
    db.state = .ready → ran.1 = .none → ran.2.counter = .read → db.statement = none
  | _ => True

section owner
variable {σ : Type} {drv : Driver σ} {db db' : Db σ}

theorem producer_snoc (l : List DbEvent) (e : DbEvent) : producer (l ++ [e]) = (e.producer? <|> producer l) := by
  unfold producer
  rw [List.reverse_append, List.reverse_singleton, List.singleton_append, List.findSome?_cons]
  cases e.producer? <;> rfl

/-- A query that is sent without a statement if it yields a result set. -/
def Fresh (drv : Driver σ) (db : Db σ) (text : List Char) : Prop :=
  (drv.query text db.drv).1 = .none → (drv.query text db.drv).2.counter = .read → db.statement = none

theorem freePending_statement (h : db.state = .ready → db.statement = none) (hstate : db.state ≠ .invalid) :
    (freePending drv db).2.statement = none := by
  unfold freePending
  split
  · rfl
  · refine h ?_
    cases hs : db.state <;> simp_all

theorem DbCall.fits_fresh {c : DbCall} (hsingle : c.Single) (hfinds : c.FindsNoStatement drv db) : c.Fits drv (Fresh drv) db := by
  cases c with
  | query text => exact fun hstate hok hread => freePending_statement (fun hready => hfinds hready hok hread) hstate
  | bulkInsertNext | bulkInsertDone => exact hsingle.elim
  | _ => trivial

theorem OwnerKnown.of_ready (h : db.state ≠ .resultSet) : OwnerKnown db := ⟨fun hs => absurd hs h, fun hs => absurd hs h⟩

/-- An operation that hands nothing out and closes no statement keeps what is known. -/
theorem OwnerKnown.keep (h : OwnerKnown db) {e : DbEvent} (he : e.producer? = none) (hlog : db'.log = db.log ++ [e])
    (hstate : db'.state = db.state) (hstatement : db'.statement = db.statement)
    (hstmts : ∀ s, (db.stmts s).isSome → (db'.stmts s).isSome) : OwnerKnown db' where
  producer hs := by
    rw [hlog, producer_snoc, he, hstatement]
    exact h.producer (hstate ▸ hs)
  isOpen hs s hmem := hstmts s (h.isOpen (hstate ▸ hs) s (hstatement ▸ hmem))

theorem isSome_update {stmts : ℕ → Option DbStmt} (t : ℕ) (stmt : DbStmt) (s : ℕ) (h : (stmts s).isSome) :
    (Function.update stmts t (some stmt) s).isSome := by
  rcases eq_or_ne s t with rfl | hne
  · rw [Function.update_self]
    rfl
  · rwa [Function.update_of_ne hne]

/-- What `settle` hands out is known. -/
theorem ownerKnown_settle {stmt : Option ℕ} {error : DbError} (hstate : db.state = .ready)
    (hstmt : error = .none → db.drv.counter = .read → db.statement = stmt) (hopen : ∀ s ∈ stmt, (db.stmts s).isSome) :
    OwnerKnown (settle stmt error db).2 := by
  unfold settle
  dsimp only
  split
  · split
    · obtain rfl := hstmt ‹_› ‹_›
      exact ⟨fun _ => producer_snoc _ _, fun _ => hopen⟩
    · exact .of_ready nofun
  · exact .of_ready (by rw [show (Db.sbCounterInc db.drv.counter { db with error := error }).state = _ from hstate]; nofun)

theorem LayerStep.owner (hstep : LayerStep drv (Fresh drv) db db') (h : OwnerKnown db) : OwnerKnown db' := by
  have hready : ∀ {s : DbConnState}, s = .ready → s ≠ .resultSet := by rintro _ rfl; decide
  cases hstep with
  | write lo n => exact h.keep rfl rfl rfl rfl fun _ => id
  | own => exact ⟨h.producer, h.isOpen⟩
  | free => exact .of_ready nofun
  | query text hstate hfresh => exact ownerKnown_settle hstate hfresh nofun
  | execute hstate hstmt =>
    refine ownerKnown_settle hstate (fun _ _ => rfl) fun t ht => ?_
    cases ht
    exact Option.isSome_of_eq_some hstmt
  | fetchRow values => exact h.keep rfl rfl rfl rfl fun _ => id
  | describe => exact h.keep rfl rfl rfl rfl fun _ => id
  | prepare text hstate =>
    rw [dbPrepare_of_open _ text hstate]
    split
    · exact h.keep rfl rfl rfl rfl fun _ => id
    · exact h.keep rfl rfl rfl rfl (isSome_update _ _)
  | @bindParam s params hstate =>
    rcases dbBindParam_cases drv db s params with heq | ⟨stmt, -, heq⟩
    · rwa [heq]
    · rw [heq]
      exact h.keep rfl rfl rfl rfl (isSome_update _ _)
  | @bindResult s results hstate =>
    rcases dbBindResult_cases drv db s results with heq | ⟨stmt, -, heq⟩
    · rwa [heq]
    · rw [heq]
      exact h.keep rfl rfl rfl rfl (isSome_update _ _)
  | close hstate => exact .of_ready (hready hstate)
  | disconnect | reconnect | lost => exact .of_ready nofun

/-- What is known after each call of a run whose queries find no statement where they yield a result set. -/
theorem ownerKnown_reach {db₀ : Db σ} {counters : SbCounterType → ℕ} {own : σ}
    (hcreate : dbConnectionCreate drv counters own = some db₀)
    (hreach : Reach (fun db c => c.Legal db ∧ c.Single ∧ c.FindsNoStatement drv db) (DbCall.next drv) db₀ db) : OwnerKnown db := by
  refine hreach.invariant ?_ fun db c h hc => ?_
  · obtain ⟨-, rfl⟩ := dbConnectionCreate_eq hcreate
    exact .of_ready nofun
  · have hexec : OwnerKnown (c.exec drv db).2 :=
      (c.exec_path (DbCall.fits_fresh hc.2.1 hc.2.2)).invariant (fun _ _ => LayerStep.owner) h
    exact hexec.keep rfl rfl rfl rfl fun _ => id

end owner

/-! ### The results that the library stores -/

/-- A result that the library has stored: that of a query, or that of a statement. -/
inductive Stored
  | result (res : ℕ)
  | server (stmt : ℕ)
  deriving DecidableEq

/-- At most one result is stored at a time, and it is released once, by the call that matches. -/
def releases : Monitor (Option Stored) MysqlCall := fun m e =>
  match e with
  | .storeResult (some res) => if m = none then some (some (.result res)) else none
  | .stmtStoreResult s false => if m = none then some (some (.server s)) else none
  | .freeResult res => if m = some (.result res) then some none else none
  | .stmtFreeResult s => if m ≠ none ∧ m = s.map .server then some none else none
  | .useAfterFree => none
  | _ => some m

/-- Each result has been released once, by the call that matches, but for the one that the connection holds, and no statement
has been read after it was freed. -/
def Released (db : Db MysqlLog) : Prop := ∃ m, releases.reads none db.drv.own = some m ∧ (m = none ↔ db.state ≠ .resultSet)

section released
variable {client : MysqlClient} {db db' : Db MysqlLog} {state : DbConnState} {statement : Option (Option DbStmt)} {ptr : Option ℕ}
  {m : Option Stored}

/-- The result that is stored, by the state of the connection, the statement of the result set and the result of the driver. -/
inductive HoldsResult : DbConnState → Option (Option DbStmt) → Option ℕ → Option Stored → Prop
  | nothing {state : DbConnState} {statement : Option (Option DbStmt)} : state ≠ .resultSet → HoldsResult state statement none none
  | result {statement : Option (Option DbStmt)} (res : ℕ) : (∀ stmt, statement = some stmt → ∃ s, stmt = some s ∧ s.emulated) →
      HoldsResult .resultSet statement (some res) (some (.result res))
  | server {t : ℕ} {stmt : DbStmt} : stmt.emulated = false → stmt.ptr = some t →
      HoldsResult .resultSet (some (some stmt)) none (some (.server t))

structure ResultInv (db : Db MysqlLog) : Prop where
  holds : ∃ m, releases.reads none db.drv.own = some m ∧ HoldsResult db.state (db.statement.map db.stmts) db.drv.ptr m
  unprepared : ∀ s, db.nstmts ≤ s → db.stmts s = none

theorem releases_plain {e : MysqlCall} (h : e.Plain) : releases m e = some m := by
  cases e with
  | storeResult res => cases h; rfl
  | stmtStoreResult s err => cases h; rfl
  | freeResult | stmtFreeResult | useAfterFree => exact h.elim
  | _ => rfl

theorem reads_plain {l : MysqlLog} (h : ∀ e ∈ l, e.Plain) : releases.reads m l = some m := by
  induction l with
  | nil => rfl
  | cons e l ih =>
    rw [Monitor.reads_cons, releases_plain (h e List.mem_cons_self)]
    exact ih fun x hx => h x (List.mem_cons_of_mem _ hx)

theorem reads_reconnect (n : ℕ) (ok : Bool) : releases.reads m (reconnectCalls n ok) = some m := by
  have hloop : releases.reads m (List.replicate n (.realConnect false) ++ [.realConnect ok]) = some m := by
    induction n with
    | zero => rfl
    | succ n ih =>
      rw [List.replicate_succ, List.cons_append, Monitor.reads_cons]
      exact ih
  rw [reconnectCalls, List.cons_append, Monitor.reads_cons]
  exact hloop

theorem reads_errorCalls (e : ℕ) : releases.reads m (errorCalls e) = some m := reads_plain (plain_errorCalls e)

theorem HoldsResult.none_iff (h : HoldsResult state statement ptr m) : m = none ↔ state ≠ .resultSet := by
  cases h with
  | nothing hstate => exact iff_of_true rfl hstate
  | result | server => exact iff_of_false nofun fun hstate => hstate rfl

theorem HoldsResult.of_not (h : HoldsResult state statement ptr m) (hstate : state ≠ .resultSet) : m = none ∧ ptr = none := by
  cases h with
  | nothing => exact ⟨rfl, rfl⟩
  | result | server => exact absurd rfl hstate

/-- The result that is held is released by the call that matches. -/
theorem FreeCase.freed {d d' : Mysql} (hcase : FreeCase statement d d') (hholds : HoldsResult .resultSet statement d.ptr m)
    (hreads : releases.reads none d.own = some m) : releases.reads none d'.own = some none ∧ d'.ptr = none := by
  generalize hptr : d.ptr = ptr at hholds
  cases hholds with
  | nothing h => exact absurd rfl h
  | result res hs =>
    cases hcase with
    | dangling h => exact absurd (hs none h) (by simp)
    | server stmt h hemulated =>
      obtain ⟨t, ht, hserver⟩ := hs _ h
      obtain rfl := Option.some.inj ht
      exact absurd hserver (by rw [hemulated]; decide)
    | result res' _ hres =>
      obtain rfl := Option.some.inj (hres.symm.trans hptr)
      exact ⟨(Monitor.reads_snoc hreads).trans (if_pos rfl), rfl⟩
    | nothing _ hnone => exact absurd (hnone.symm.trans hptr) nofun
  | server hemulated ht =>
    cases hcase with
    | dangling h => cases h
    | server stmt h =>
      obtain rfl := Option.some.inj (Option.some.inj h)
      exact ⟨(Monitor.reads_snoc hreads).trans (if_pos ⟨nofun, by rw [ht]; rfl⟩), rfl⟩
    | result _ hs | nothing hs =>
      obtain ⟨t, ht, hserver⟩ := hs _ rfl
      obtain rfl := Option.some.inj ht
      exact absurd hserver (by rw [hemulated]; decide)

/-- A query or an execution that yields a result set stores one, and no other. -/
theorem RunCase.stores {s : Option ℕ} {d d' : Mysql} {rc : DbError} (hcase : RunCase client s d d' rc)
    (hreads : releases.reads none d.own = some none) (hptr : d.ptr = none) :
    (¬(rc = .none ∧ d'.counter = .read) ∧ releases.reads none d'.own = some none ∧ d'.ptr = none) ∨
    ((rc = .none ∧ d'.counter = .read) ∧
      ((∃ res, s = none ∧ releases.reads none d'.own = some (some (.result res)) ∧ d'.ptr = some res) ∨
        ∃ t, s = some t ∧ releases.reads none d'.own = some (some (.server t)) ∧ d'.ptr = none)) := by
  have happend : ∀ {seg : MysqlLog} {m : Option Stored}, releases.reads none seg = some m → d'.own = d.own ++ seg →
      releases.reads none d'.own = some m := fun hseg hown => by rw [hown, Monitor.reads_append, hreads, Option.bind_some, hseg]
  have hthen : ∀ {pre post : MysqlLog} {m m' : Option Stored}, releases.reads none pre = some m → releases.reads m post = some m' →
      releases.reads none (pre ++ post) = some m' := fun hpre hpost => by rw [Monitor.reads_append, hpre, Option.bind_some, hpost]
  cases hcase with
  | unable hown _ _ hp => exact .inl ⟨nofun, happend rfl hown, hp.trans hptr⟩
  | affected pre e n hpre he hown hcounter hp =>
    refine .inl ⟨fun h => ?_, happend (hthen (reads_plain hpre) ?_) hown, hp.trans hptr⟩
    · have hread := hcounter.symm.trans h.2
      split at hread <;> cases hread
    · rcases he with rfl | ⟨s, rfl⟩ <;> rfl
  | stored pre post res hs hpre hpost hown hcounter hp =>
    refine .inr ⟨⟨rfl, hcounter⟩, .inl ⟨res, hs, happend (hthen (reads_plain hpre) ?_) hown, hp⟩⟩
    exact (Monitor.reads_cons releases).trans (reads_plain hpost)
  | stmtStored pre post t hs hpre hpost hown hcounter hp =>
    refine .inr ⟨⟨rfl, hcounter⟩, .inr ⟨t, hs, happend (hthen (reads_plain hpre) ?_) hown, hp.trans hptr⟩⟩
    exact (Monitor.reads_cons releases).trans (reads_plain hpost)
  | error pre e hrc hpre hown _ _ _ hp =>
    exact .inl ⟨fun h => hrc h.1, happend (hthen (reads_plain hpre) (reads_errorCalls e)) hown, hp.trans hptr⟩
  | reconnected pre e n hpre hown _ _ _ _ hp =>
    have hpre' := hthen (reads_plain hpre) (reads_errorCalls e)
    exact .inl ⟨nofun, happend (hthen hpre' (reads_reconnect n true)) hown, hp.trans hptr⟩
  | abandoned pre e n hpre hown _ hp =>
    have hpre' := hthen (hthen (reads_plain hpre) (reads_errorCalls e)) (reads_reconnect n false)
    exact .inl ⟨nofun, happend (hthen hpre' rfl) hown, hp.trans hptr⟩

/-- A statement may change as long as the server knows it as before. -/
theorem HoldsResult.update {stmts : ℕ → Option DbStmt} {owner : Option ℕ} (h : HoldsResult state (owner.map stmts) ptr m) {t : ℕ} {stmt : DbStmt}
    (hsame : ∀ old, stmts t = some old → stmt.emulated = old.emulated ∧ stmt.ptr = old.ptr) :
    HoldsResult state (owner.map (Function.update stmts t (some stmt))) ptr m := by
  rcases owner with _ | s
  · exact h
  rcases eq_or_ne s t with rfl | hne
  · rw [Option.map_some, Function.update_self]
    rw [Option.map_some] at h
    generalize hold : stmts s = old at h
    cases h with
    | nothing hstate => exact .nothing hstate
    | result res hs =>
      obtain ⟨old, rfl, hemulated⟩ := hs _ rfl
      refine .result res fun u hu => ⟨stmt, (Option.some.inj hu).symm, (hsame old hold).1.trans hemulated⟩
    | server hemulated ht => exact .server ((hsame _ hold).1.trans hemulated) ((hsame _ hold).2.trans ht)
  · rwa [Option.map_some, Function.update_of_ne hne]

/-- Calls that keep the handle keep what is stored. -/
theorem ResultInv.plainly (h : ResultInv db) (hdrv : Plainly db.drv db'.drv) (hstate : db'.state = db.state)
    (hholds : ∀ m, HoldsResult db.state (db.statement.map db.stmts) db.drv.ptr m →
      HoldsResult db.state (db'.statement.map db'.stmts) db.drv.ptr m)
    (hunprepared : ∀ s, db'.nstmts ≤ s → db'.stmts s = none) : ResultInv db' := by
  obtain ⟨⟨m, hreads, hm⟩, -⟩ := h
  obtain ⟨⟨pre, hpre, hown⟩, hptr⟩ := hdrv
  refine ⟨⟨m, ?_, ?_⟩, hunprepared⟩
  · rw [hown, Monitor.reads_append, hreads, Option.bind_some, reads_plain hpre]
  · rw [hstate, hptr]
    exact hholds m hm

/-- A state without a result set. -/
theorem ResultInv.nothing (hreads : releases.reads none db.drv.own = some none) (hptr : db.drv.ptr = none)
    (hstate : db.state ≠ .resultSet) (hunprepared : ∀ s, db.nstmts ≤ s → db.stmts s = none) : ResultInv db :=
  ⟨⟨none, hreads, hptr ▸ .nothing hstate⟩, hunprepared⟩

/-- What a query or an execution stores is what the connection holds. -/
theorem resultInv_settle {s stmt : Option ℕ} {d : Mysql} {rc : DbError} (hcase : RunCase client s d db.drv rc)
    (hreads : releases.reads none d.own = some none) (hptr : d.ptr = none) (hstate : db.state = .ready)
    (hunprepared : ∀ s, db.nstmts ≤ s → db.stmts s = none)
    (hresult : rc = .none → db.drv.counter = .read → s = none → ∀ t, db.statement.map db.stmts = some t → ∃ s, t = some s ∧ s.emulated)
    (hserver : ∀ t, s = some t → ∃ stmt, db.statement.map db.stmts = some (some stmt) ∧ stmt.emulated = false ∧ stmt.ptr = some t) :
    ResultInv (settle stmt rc db).2 := by
  have hdrv : (settle stmt rc db).2.drv = db.drv := settle_drv stmt rc
  have hsettled := settle_state stmt rc hstate
  obtain ⟨hstatement, hstmts, hnstmts⟩ := settle_statements db stmt rc
  generalize (settle stmt rc db).2 = db' at *
  have hunprepared' : ∀ s, db'.nstmts ≤ s → db'.stmts s = none := by rwa [hnstmts, hstmts]
  rcases hcase.stores hreads hptr with ⟨hnot, hreads', hptr'⟩ | ⟨hyields, ⟨res, rfl, hreads', hptr'⟩ | ⟨t, rfl, hreads', hptr'⟩⟩
  · rw [if_neg hnot] at hsettled
    exact .nothing (hdrv ▸ hreads') (hdrv ▸ hptr') (by rw [hsettled]; decide) hunprepared'
  · rw [if_pos hyields] at hsettled
    refine ⟨⟨_, hdrv ▸ hreads', ?_⟩, hunprepared'⟩
    rw [hsettled, hstatement, hstmts, hdrv, hptr']
    exact .result res (hresult hyields.1 hyields.2 rfl)
  · rw [if_pos hyields] at hsettled
    obtain ⟨stmt, hmap, hemulated, ht⟩ := hserver t rfl
    refine ⟨⟨_, hdrv ▸ hreads', ?_⟩, hunprepared'⟩
    rw [hsettled, hstatement, hstmts, hdrv, hptr', hmap]
    exact .server hemulated ht

/-- A statement that the server does not know cannot be executed unless it is emulated. -/
theorem emulated_of_server {stmt : DbStmt} {d : Mysql} (hserver : stmt.server = none) (hok : (mysqlDrvExecute client stmt d).1 = .none) :
    stmt.emulated = true := by
  by_contra hemulated
  rw [DbStmt.server, if_neg hemulated] at hserver
  unfold mysqlDrvExecute at hok
  simp [hemulated, hserver] at hok

theorem bindParam_server (params : List ℕ) (stmt : DbStmt) (d : Mysql) :
    (mysqlDrvBindParam client params stmt d).1.2.emulated = stmt.emulated ∧
      (mysqlDrvBindParam client params stmt d).1.2.ptr = stmt.ptr := by
  unfold mysqlDrvBindParam
  dsimp only
  split
  · split
    · exact ⟨rfl, rfl⟩
    split
    · exact ⟨rfl, rfl⟩
    split
    · exact ⟨rfl, rfl⟩
    split <;> exact ⟨rfl, rfl⟩
  · split <;> exact ⟨rfl, rfl⟩

theorem bindResult_server (results : List ℕ) (stmt : DbStmt) (d : Mysql) :
    (mysqlDrvBindResult client results stmt d).1.2.emulated = stmt.emulated ∧
      (mysqlDrvBindResult client results stmt d).1.2.ptr = stmt.ptr := by
  unfold mysqlDrvBindResult
  split
  · exact ⟨rfl, rfl⟩
  · split <;> exact ⟨rfl, rfl⟩

theorem unprepared_update {stmts : ℕ → Option DbStmt} {n s : ℕ} {stmt : Option DbStmt} (h : ∀ t, n ≤ t → stmts t = none)
    (hs : ∀ t, stmt = some t → (stmts s).isSome) : ∀ t, n ≤ t → Function.update stmts s stmt t = none := by
  intro t ht
  rcases eq_or_ne t s with rfl | hne
  · cases stmt with
    | none => exact Function.update_self ..
    | some stmt => exact absurd (hs stmt rfl) (by rw [h t ht]; decide)
  · rw [Function.update_of_ne hne]
    exact h t ht

theorem LayerStep.results (hstep : LayerStep (mysqlDriver client) (Fresh (mysqlDriver client)) db db') (h : ResultInv db) :
    ResultInv db' := by
  obtain ⟨⟨m, hreads, hholds⟩, hunprepared⟩ := id h
  have hready : ∀ {s : DbConnState}, s = .ready → s ≠ .resultSet := by rintro _ rfl; decide
  cases hstep with
  | write | own => exact ⟨⟨m, hreads, hholds⟩, hunprepared⟩
  | free hstate =>
    rw [hstate] at hholds
    have hfreed := (freeCase _).freed hholds hreads
    exact .nothing hfreed.1 hfreed.2 nofun hunprepared
  | query text hstate hfresh =>
    obtain ⟨rfl, hptr⟩ := hholds.of_not (hready hstate)
    refine resultInv_settle (runCase_query text) hreads hptr hstate hunprepared (fun hok hread _ t ht => ?_) nofun
    have hnone : db.statement = none := hfresh hok hread
    cases (congrArg (Option.map db.stmts) hnone).symm.trans ht
  | @execute s stmt hstate hstmt =>
    obtain ⟨rfl, hptr⟩ := hholds.of_not (hready hstate)
    have hmap : (some s).map db.stmts = some (some stmt) := congrArg some hstmt
    refine resultInv_settle (runCase_execute stmt) hreads hptr hstate hunprepared (fun hok _ hs t ht => ?_) fun t ht => ?_
    · exact ⟨stmt, Option.some.inj (ht.symm.trans hmap), emulated_of_server hs hok⟩
    · rw [DbStmt.server] at ht
      split at ht
      · cases ht
      · exact ⟨stmt, hmap, (Bool.not_eq_true _).mp ‹_›, ht⟩
  | fetchRow values hstate => exact h.plainly (plainly_fetchRow values) rfl (fun _ => id) hunprepared
  | describe hstate => exact h.plainly (.refl _) rfl (fun _ => id) hunprepared
  | prepare text hstate =>
    rw [dbPrepare_of_open _ text hstate]
    split
    · exact h.plainly (plainly_prepare text {}) rfl (fun _ => id) hunprepared
    · have hnew := hunprepared db.nstmts le_rfl
      refine h.plainly (plainly_prepare text {}) rfl (fun _ hm => hm.update fun old hold => ?_) fun s hs => ?_
      · cases hnew.symm.trans hold
      · exact (Function.update_of_ne (Nat.ne_of_gt hs) _ _).trans (hunprepared s (Nat.le_of_lt hs))
  | @bindParam s params hstate =>
    rcases dbBindParam_cases (mysqlDriver client) db s params with heq | ⟨stmt, hstmt, heq⟩
    · rwa [heq]
    · rw [heq]
      refine h.plainly (plainly_bindParam params stmt) rfl (fun _ hm => hm.update fun old hold => ?_)
        (unprepared_update hunprepared fun _ _ => Option.isSome_of_eq_some hstmt)
      obtain rfl := Option.some.inj (hold.symm.trans hstmt)
      exact bindParam_server params old db.drv
  | @bindResult s results hstate =>
    rcases dbBindResult_cases (mysqlDriver client) db s results with heq | ⟨stmt, hstmt, heq⟩
    · rwa [heq]
    · rw [heq]
      refine h.plainly (plainly_bindResult results stmt) rfl (fun _ hm => hm.update fun old hold => ?_)
        (unprepared_update hunprepared fun _ _ => Option.isSome_of_eq_some hstmt)
      obtain rfl := Option.some.inj (hold.symm.trans hstmt)
      exact bindResult_server results old db.drv
  | @close s stmt hstate =>
    obtain ⟨rfl, hptr⟩ := hholds.of_not (hready hstate)
    obtain ⟨⟨pre, hpre, hown⟩, hptr'⟩ := plainly_close client db.drv stmt
    refine .nothing ?_ (hptr'.trans hptr) (hready hstate) (unprepared_update hunprepared nofun)
    exact (congrArg _ hown).trans ((Monitor.reads_append _).trans (by rw [hreads, Option.bind_some, reads_plain hpre]))
  | disconnect hstate =>
    obtain ⟨rfl, hptr⟩ := hholds.of_not (hready hstate)
    exact .nothing (Monitor.reads_snoc hreads) hptr nofun hunprepared
  | reconnect hf hstate | lost hf hstate =>
    obtain ⟨rfl, hptr⟩ := hholds.of_not (hready hstate)
    obtain rfl := Option.some.inj hf
    obtain ⟨n, ok, heq⟩ := mysqlDrvReconnect_spec client db.drv
    refine .nothing ?_ ((congrArg (fun r => r.2.ptr) heq).trans hptr) nofun hunprepared
    refine (congrArg (fun r => releases.reads none r.2.own) heq).trans ((Monitor.reads_append _).trans ?_)
    rw [hreads, Option.bind_some, reads_reconnect]

theorem resultInv_reach {db₀ : Db MysqlLog} {counters : SbCounterType → ℕ}
    (hcreate : dbConnectionCreate (mysqlDriver client) counters [] = some db₀)
    (hreach : Reach (fun db c => c.Legal db ∧ c.Single ∧ c.FindsNoStatement (mysqlDriver client) db) (DbCall.next (mysqlDriver client))
      db₀ db) : ResultInv db := by
  refine hreach.invariant ?_ fun db c h hc => ?_
  · have hconnect : releases.reads none (mysqlDrvConnect client { own := [] }).2.own = some none ∧
        (mysqlDrvConnect client { own := [] }).2.ptr = none := by
      unfold mysqlDrvConnect
      cases client.connects [] <;> exact ⟨rfl, rfl⟩
    obtain ⟨-, rfl⟩ := dbConnectionCreate_eq hcreate
    exact .nothing hconnect.1 hconnect.2 nofun fun _ _ => rfl
  · have hexec : ResultInv (c.exec (mysqlDriver client) db).2 :=
      (c.exec_path (DbCall.fits_fresh hc.2.1 hc.2.2)).invariant (fun _ _ => LayerStep.results) h
    exact ⟨hexec.holds, hexec.unprepared⟩

end released

/-- In a run where no query finds a statement when it yields a result set, the connection knows who has produced the result
set, and with the MySQL driver each result is released once, by the call that matches. -/
theorem resultSets_owned {σ : Type} {drv : Driver σ} {counters : SbCounterType → ℕ} {own : σ} {db₀ db : Db σ}
    (hcreate : dbConnectionCreate drv counters own = some db₀)
    (hreach : Reach (fun db c => c.Legal db ∧ c.Single ∧ c.FindsNoStatement drv db) (DbCall.next drv) db₀ db) :
    OwnerKnown db ∧ ∀ {client : MysqlClient} {counters : SbCounterType → ℕ} {db₀ db : Db MysqlLog},
      dbConnectionCreate (mysqlDriver client) counters [] = some db₀ →
      Reach (fun db c => c.Legal db ∧ c.Single ∧ c.FindsNoStatement (mysqlDriver client) db) (DbCall.next (mysqlDriver client)) db₀ db →
      Released db := by
  refine ⟨ownerKnown_reach hcreate hreach, fun hcreate hreach => ?_⟩
  obtain ⟨m, hreads, hholds⟩ := (resultInv_reach hcreate hreach).holds
  exact ⟨m, hreads, hholds.none_iff⟩

/-- Every query has a result, and no statement has one. -/
def selectClient : MysqlClient where
  storeResult _ := some 1

/-- A query on a new connection yields a result set of its own. -/
theorem resultSets_owned_select : ∃ db₀ db, dbConnectionCreate (mysqlDriver selectClient) (fun _ => 0) [] = some db₀ ∧
    Reach DbCall.Legal (DbCall.next (mysqlDriver selectClient)) db₀ db ∧ db.state = .resultSet ∧ OwnerKnown db ∧ Released db :=
  have hreach := Reach.start.call (.query []) ⟨⟨rfl, nofun⟩, trivial, fun _ _ _ => rfl⟩
  have howned := resultSets_owned rfl hreach
  ⟨_, _, rfl, hreach.mono fun _ _ h => h.1, rfl, howned.1, howned.2 rfl hreach⟩

/-- The result of a query after the execution of a statement without one passes for that of the statement, and is not released. -/
theorem not_owned_select : ∃ db₀ db db', dbConnectionCreate (mysqlDriver selectClient) (fun _ => 0) [] = some db₀ ∧
    Reach (fun db c => c.Legal db ∧ c.Single) (DbCall.next (mysqlDriver selectClient)) db₀ db ∧ ¬OwnerKnown db ∧
    Reach (fun db c => c.Legal db ∧ c.Single) (DbCall.next (mysqlDriver selectClient)) db db' ∧ ¬Released db' := by
  refine ⟨_, _, _, rfl, ((Reach.start.call (.prepare true []) ⟨⟨rfl, nofun⟩, trivial⟩).call (.execute 0)
    ⟨⟨rfl, fun s hs => ?_⟩, trivial⟩).call (.query []) ⟨⟨rfl, nofun⟩, trivial⟩, fun h => ?_,
    Reach.start.call .freeResults ⟨⟨rfl, nofun⟩, trivial⟩, ?_⟩
  · cases hs
    rfl
  · exact absurd (h.producer rfl) (by decide)
  · rintro ⟨m, hreads, -⟩
    exact absurd (Option.isSome_of_eq_some hreads) (by decide)

end NuKSM.Sysbench
