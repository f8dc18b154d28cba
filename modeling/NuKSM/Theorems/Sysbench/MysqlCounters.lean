import NuKSM.Theorems.Sysbench.DbErrors
import NuKSM.Theorems.Sysbench.MysqlCalls

/-! # The counters of the statements with the MySQL driver

Which counter a query or an execution deserves, from what the server has answered, and when it is the one that is counted. -/

namespace NuKSM.Sysbench
variable {client : MysqlClient} {d d' : Mysql} {db : Db MysqlLog}

/-- The rows that the server says are affected. -/
def MysqlCall.affects : MysqlCall → ℕ
  | affectedRows n | stmtAffectedRows _ n => n
  | _ => 0

/-- The calls of the library since `d`. -/
def DrvState.since (d d' : Mysql) : MysqlLog := d'.own.drop d.own.length

/-- The counter for a call that has returned the result set or not, with its error and the calls of the library for it. -/
def deservedCounter (client : MysqlClient) (rs : Bool) (error : DbError) (errno : ℕ) (calls : MysqlLog) : SbCounterType :=
  if rs then .read
  else if error = .none then if ∃ e ∈ calls, 0 < e.affects then .write else .other
  else if isLoss errno ∧ ignored client errno ∧ .realConnect true ∈ calls then .reconnect
  else .error

/-- One more of the counters of a type. -/
def countOne (counters : SbCounterType → ℕ) (type : SbCounterType) : SbCounterType → ℕ :=
  Function.update counters type (counters type + 1)

theorem countOne_inj {counters : SbCounterType → ℕ} {a b : SbCounterType} (h : countOne counters a = countOne counters b) : a = b := by
  by_contra hne
  have := congrFun h a
  rw [countOne, countOne, Function.update_self, Function.update_of_ne hne] at this
  exact Nat.succ_ne_self _ this

/-- What the server, the memory and the statement before it leave of the counting: no reconnection is given up, the affected
rows are not lost with the upper half of their number, and a call that the driver does not count is an error already. -/
structure CountersFit (counter : SbCounterType) (calls : MysqlLog) : Prop where
  kept : .abandoned ∉ calls
  fits : ∀ e ∈ calls, 0 < e.affects → 0 < e.affects % 2 ^ 32
  able : .unable ∈ calls → counter = .error

/-! ### Calls that do not matter for the counter -/

/-- The calls that neither decide the counter nor are marks. -/
def MysqlCall.Idle : MysqlCall → Prop
  | realConnect ok => ok = false
  | affectedRows _ | stmtAffectedRows .. | abandoned | unable => False
  | _ => True

theorem MysqlCall.Plain.idle {e : MysqlCall} (h : e.Plain) : e.Idle := by
  cases e <;> trivial

theorem MysqlCall.Idle.affects {e : MysqlCall} (h : e.Idle) : e.affects = 0 := by
  cases e <;> first | rfl | exact h.elim

theorem idle_errorCalls (e : ℕ) : ∀ x ∈ errorCalls e, x.Idle := fun x hx => (plain_errorCalls e x hx).idle

theorem idle_reconnectCalls (n : ℕ) : ∀ x ∈ reconnectCalls n false, x.Idle := by
  intro x hx
  simp only [reconnectCalls, List.cons_append, List.mem_cons, List.mem_append, List.mem_replicate, List.not_mem_nil, or_false] at hx
  rcases hx with rfl | ⟨-, rfl⟩ | rfl <;> trivial

/-- Freeing a result set does not count. -/
theorem mysqlDrvFreeResults_own (statement : Option (Option DbStmt)) : ∃ pre : MysqlLog, (∀ x ∈ pre, x.Idle) ∧
    (mysqlDrvFreeResults statement d).2.own = d.own ++ pre ∧ (mysqlDrvFreeResults statement d).2.counter = d.counter := by
  have hcase := freeCase (d := d) statement
  generalize (mysqlDrvFreeResults statement d).2 = d' at *
  cases hcase with
  | dangling => exact ⟨[_], by simp [MysqlCall.Idle], rfl, rfl⟩
  | server stmt => exact ⟨[_], by simp [MysqlCall.Idle], rfl, rfl⟩
  | result res => exact ⟨[_], by simp [MysqlCall.Idle], rfl, rfl⟩
  | nothing => exact ⟨[], by simp, (List.append_nil _).symm, rfl⟩

theorem freePending_own (client : MysqlClient) (db : Db MysqlLog) : ∃ pre : MysqlLog, (∀ x ∈ pre, x.Idle) ∧
    (freePending (mysqlDriver client) db).2.drv.own = db.drv.own ++ pre ∧
    (freePending (mysqlDriver client) db).2.drv.counter = db.drv.counter := by
  unfold freePending
  split
  · exact mysqlDrvFreeResults_own (d := db.drv) (db.statement.map db.stmts)
  · exact ⟨[], by simp, (List.append_nil _).symm, rfl⟩

/-! ### The counter of a call -/

theorem settle_counters {σ : Type} {db : Db σ} (stmt : Option ℕ) (error : DbError) :
    (settle stmt error db).2.counters = countOne db.counters db.drv.counter := by
  unfold settle
  dsimp only
  split
  · split <;> rfl
  · rfl

theorem since_own {seg : MysqlLog} (h : d'.own = d.own ++ seg) : d.since d' = seg := by
  rw [DrvState.since, h]
  exact List.drop_left

/-- Idle calls alone fit. -/
theorem countersFit_of_idle {counter : SbCounterType} {calls : MysqlLog} (h : ∀ x ∈ calls, x.Idle) : CountersFit counter calls where
  kept hmem := h _ hmem
  fits e he hpos := absurd hpos (by rw [(h e he).affects]; decide)
  able hmem := (h _ hmem).elim

theorem countersFit_append {counter : SbCounterType} {l l' : MysqlLog} :
    CountersFit counter (l ++ l') ↔ CountersFit counter l ∧ CountersFit counter l' where
  mp h := ⟨⟨fun hmem => h.kept (List.mem_append_left _ hmem), fun e he => h.fits e (List.mem_append_left _ he),
      fun hmem => h.able (List.mem_append_left _ hmem)⟩,
    ⟨fun hmem => h.kept (List.mem_append_right _ hmem), fun e he => h.fits e (List.mem_append_right _ he),
      fun hmem => h.able (List.mem_append_right _ hmem)⟩⟩
  mpr h := ⟨fun hmem => (List.mem_append.mp hmem).elim h.1.kept h.2.kept,
    fun e he => (List.mem_append.mp he).elim (h.1.fits e) (h.2.fits e),
    fun hmem => (List.mem_append.mp hmem).elim h.1.able h.2.able⟩

/-- Idle calls do not matter for whether the others fit. -/
theorem countersFit_idle_append {counter : SbCounterType} {l l' : MysqlLog} (h : ∀ x ∈ l, x.Idle) :
    CountersFit counter (l ++ l') ↔ CountersFit counter l' := by
  rw [countersFit_append, and_iff_right (countersFit_of_idle h)]

theorem countersFit_unable {counter : SbCounterType} : CountersFit counter [.unable] ↔ counter = .error where
  mp h := h.able List.mem_cons_self
  mpr h := ⟨by simp, by simp [MysqlCall.affects], fun _ => h⟩

theorem countersFit_affects {counter : SbCounterType} {e : MysqlCall} {n : ℕ}
    (he : e = .affectedRows n ∨ ∃ s, e = .stmtAffectedRows s n) : CountersFit counter [e] ↔ (0 < n → 0 < n % 2 ^ 32) := by
  have haffects : e.affects = n := by rcases he with rfl | ⟨s, rfl⟩ <;> rfl
  have hmark : e ≠ .abandoned ∧ e ≠ .unable := by rcases he with rfl | ⟨s, rfl⟩ <;> exact ⟨nofun, nofun⟩
  constructor
  · intro h
    exact haffects ▸ h.fits e List.mem_cons_self
  · intro h
    refine ⟨fun hmem => hmark.1 (List.mem_singleton.mp hmem).symm, fun x hx => ?_,
      fun hmem => absurd (List.mem_singleton.mp hmem).symm hmark.2⟩
    rwa [List.mem_singleton.mp hx, haffects]

theorem not_affects_of_idle {calls : MysqlLog} (h : ∀ x ∈ calls, x.Idle) : ¬∃ e ∈ calls, 0 < e.affects := by
  rintro ⟨e, he, hpos⟩
  rw [(h e he).affects] at hpos
  exact Nat.lt_irrefl 0 hpos

theorem deserved_affected {errno n : ℕ} {pre : MysqlLog} {e : MysqlCall} (hpre : ∀ x ∈ pre, x.Idle)
    (he : e = .affectedRows n ∨ ∃ s, e = .stmtAffectedRows s n) :
    deservedCounter client false .none errno (pre ++ [e]) = if 0 < n then .write else .other := by
  have haffects : e.affects = n := by rcases he with rfl | ⟨s, rfl⟩ <;> rfl
  have hiff : (∃ x ∈ pre ++ [e], 0 < x.affects) ↔ 0 < n := by
    refine ⟨fun ⟨x, hx, hpos⟩ => ?_, fun hpos => ⟨e, by simp, haffects ▸ hpos⟩⟩
    rcases List.mem_append.mp hx with hx | hx
    · exact absurd ⟨x, hx, hpos⟩ (not_affects_of_idle hpre)
    · rwa [List.mem_singleton.mp hx, haffects] at hpos
  simp only [deservedCounter, Bool.false_eq_true, if_false, if_true, hiff]

/-- A write is not mistaken for something else. -/
theorem writeCounter_eq_iff {p q : Prop} [Decidable p] [Decidable q] (hpq : p → q) :
    ((if p then SbCounterType.write else .other) = if q then .write else .other) ↔ (q → p) := by
  by_cases hp : p
  · rw [if_pos hp, if_pos (hpq hp)]
    exact iff_of_true rfl fun _ => hp
  · rw [if_neg hp]
    by_cases hq : q
    · rw [if_pos hq]
      exact iff_of_false (by decide) fun h => hp (h hq)
    · rw [if_neg hq]
      exact iff_of_true rfl fun h => absurd h hq

/-- A query or an execution is counted as it deserves exactly where its calls fit. -/
theorem runCase_counter {s : Option ℕ} {rc : DbError} {pre : MysqlLog} (hcase : RunCase client s d d' rc)
    (hpre : ∀ x ∈ pre, x.Idle) :
    d'.counter = deservedCounter client (decide (rc = .none ∧ d'.counter = .read)) rc d'.sql.errno (pre ++ d.since d') ↔
      CountersFit d.counter (pre ++ d.since d') := by
  have hidle : ∀ {mid : MysqlLog}, (∀ x ∈ mid, x.Plain) → ∀ x ∈ pre ++ mid, x.Idle := fun hmid x hx =>
    (List.mem_append.mp hx).elim (hpre x) fun hx => (hmid x hx).idle
  have happend : ∀ {l l' : MysqlLog}, (∀ x ∈ l, x.Idle) → (∀ x ∈ l', x.Idle) → ∀ x ∈ l ++ l', x.Idle := fun h h' x hx =>
    (List.mem_append.mp hx).elim (h x) (h' x)
  have hstored : ∀ {mid post : MysqlLog} {call : MysqlCall}, call.Idle → (∀ x ∈ mid, x.Plain) → (∀ x ∈ post, x.Plain) →
      ∀ x ∈ pre ++ (mid ++ call :: post), x.Idle := by
    intro mid post call hcall hmid hpost
    refine happend hpre (happend (fun x hx => (hmid x hx).idle) fun x hx => ?_)
    rcases List.mem_cons.mp hx with rfl | hx
    · exact hcall
    · exact (hpost x hx).idle
  cases hcase with
  | unable hown hcounter herrno =>
    rw [since_own hown, hcounter, herrno, countersFit_idle_append hpre, countersFit_unable]
    simp [deservedCounter, isLoss, crServerLost, crServerGoneError, crTcpConnection, crServerLostExtended]
  | affected mid e n hmid he hown hcounter =>
    rw [since_own hown, ← List.append_assoc, countersFit_idle_append (hidle hmid), countersFit_affects he, hcounter]
    have hread : decide (DbError.none = .none ∧ (if 0 < n % 2 ^ 32 then SbCounterType.write else .other) = .read) = false := by
      split <;> rfl
    rw [hread, deserved_affected (hidle hmid) he]
    exact writeCounter_eq_iff fun h => h.trans_le (Nat.mod_le _ _)
  | stored mid post res hs hmid hpost hown hcounter =>
    rw [since_own hown, hcounter]
    exact iff_of_true rfl (countersFit_of_idle (hstored trivial hmid hpost))
  | stmtStored mid post t hs hmid hpost hown hcounter =>
    rw [since_own hown, hcounter]
    exact iff_of_true rfl (countersFit_of_idle (hstored trivial hmid hpost))
  | error mid e hrc hmid hown hcounter herrno hnot =>
    rw [since_own hown, hcounter, herrno, decide_eq_false fun h => hrc h.1]
    refine iff_of_true ?_ (countersFit_of_idle (happend hpre (happend (fun x hx => (hmid x hx).idle) (idle_errorCalls e))))
    rw [deservedCounter, if_neg (by decide), if_neg hrc, if_neg fun h => hnot ⟨h.1, h.2.1⟩]
  | reconnected mid e n hmid hown hcounter herrno hloss hignored =>
    rw [since_own hown, hcounter, herrno]
    refine iff_of_true ?_ ?_
    · rw [deservedCounter, if_neg (by decide), if_neg (by decide), if_pos ⟨hloss, hignored, by simp [reconnectCalls]⟩]
    · rw [countersFit_idle_append hpre, countersFit_idle_append (happend (fun x hx => (hmid x hx).idle) (idle_errorCalls e))]
      refine ⟨by simp [reconnectCalls], fun x hx hpos => ?_, by simp [reconnectCalls]⟩
      simp only [reconnectCalls, List.cons_append, List.mem_cons, List.mem_append, List.mem_replicate, List.not_mem_nil,
        or_false] at hx
      rcases hx with rfl | ⟨-, rfl⟩ | rfl <;> exact absurd hpos (Nat.lt_irrefl 0)
  | abandoned mid e n hmid hown hcounter =>
    have hcalls := happend (happend hpre (happend (fun x hx => (hmid x hx).idle) (idle_errorCalls e))) (idle_reconnectCalls n)
    have hown' : d'.own = d.own ++ (mid ++ errorCalls e ++ reconnectCalls n false ++ [.abandoned]) := hown
    rw [since_own hown', hcounter]
    refine iff_of_false ?_ fun h => h.kept (by simp)
    rw [deservedCounter, if_neg (by decide), if_neg (by decide), if_neg]
    · decide
    · rintro ⟨-, -, hmem⟩
      rw [← List.append_assoc, ← List.append_assoc] at hmem
      rcases List.mem_append.mp hmem with hmem | hmem
      · cases hcalls _ hmem
      · cases List.mem_singleton.mp hmem

/-! ### Queries and executions -/

/-- The calls that run a statement. -/
def DbCall.Runs : DbCall → Prop
  | .query _ | .execute _ => True
  | _ => False

/-- The call adds one to the counter that it deserves, and to no other. -/
def CountsRight (client : MysqlClient) (db : Db MysqlLog) (c : DbCall) : Prop :=
  (c.exec (mysqlDriver client) db).2.counters = countOne db.counters (deservedCounter client
    (decide ((c.exec (mysqlDriver client) db).1 = .result true)) (c.exec (mysqlDriver client) db).2.error
    (c.exec (mysqlDriver client) db).2.drv.sql.errno (db.drv.since (c.exec (mysqlDriver client) db).2.drv))

theorem settle_counted {s stmt : Option ℕ} {rc : DbError} {db db₁ : Db MysqlLog} {pre : MysqlLog}
    (hcase : RunCase client s d db₁.drv rc) (hpre : ∀ x ∈ pre, x.Idle) (hown : d.own = db.drv.own ++ pre)
    (hcounter : d.counter = db.drv.counter) (hcounters : db₁.counters = db.counters) :
    (settle stmt rc db₁).2.counters = countOne db.counters (deservedCounter client
      (decide (DbRet.result (settle stmt rc db₁).1 = .result true)) (settle stmt rc db₁).2.error
      (settle stmt rc db₁).2.drv.sql.errno (db.drv.since (settle stmt rc db₁).2.drv)) ↔
    CountersFit db.drv.counter (db.drv.since (settle stmt rc db₁).2.drv) := by
  have hsince : db.drv.since db₁.drv = pre ++ d.since db₁.drv := by
    obtain ⟨seg, hseg⟩ : ∃ seg, db₁.drv.own = d.own ++ seg := by
      cases hcase with
      | unable h => exact ⟨_, h⟩
      | affected _ _ _ _ _ h => exact ⟨_, h⟩
      | stored _ _ _ _ _ _ h => exact ⟨_, h⟩
      | stmtStored _ _ _ _ _ _ h => exact ⟨_, h⟩
      | error _ _ _ _ h => exact ⟨_, h⟩
      | reconnected _ _ _ _ h => exact ⟨_, h⟩
      | abandoned _ _ _ _ h => exact ⟨_, h⟩
    rw [since_own hseg, since_own (by rw [hseg, hown, List.append_assoc])]
  rw [settle_counters, settle_error, settle_drv, settle_fst, hcounters, hsince, ← hcounter]
  have hret : decide (DbRet.result (decide (rc = .none ∧ db₁.drv.counter = .read)) = .result true) =
      decide (rc = .none ∧ db₁.drv.counter = .read) := by
    by_cases h : rc = .none ∧ db₁.drv.counter = .read <;> simp [h]
  rw [hret, ← runCase_counter hcase hpre]
  exact ⟨countOne_inj, congrArg _⟩

/-- A statement that reaches the driver is counted as it deserves exactly where its calls fit. -/
theorem counted_iff {client : MysqlClient} {db : Db MysqlLog} {c : DbCall} (hc : c.Runs) (hlegal : c.Legal db)
    (hreaches : Reaches (mysqlDriver client) db) :
    CountsRight client db c ↔ CountersFit db.drv.counter (db.drv.since (c.exec (mysqlDriver client) db).2.drv) := by
  obtain ⟨pre, hpre, hown, hcounter⟩ := freePending_own client db
  cases c with
  | query text =>
    unfold CountsRight
    simp only [DbCall.exec, dbQuery_of_reaches text hreaches, Prod.map_fst, Prod.map_snd, id]
    exact settle_counted (runCase_query text) hpre hown hcounter freePending_counters
  | execute s =>
    obtain ⟨stmt, hstmt⟩ := Option.isSome_iff_exists.mp (hlegal.2 s rfl)
    unfold CountsRight
    simp only [DbCall.exec, dbExecute_of_reaches hstmt hreaches, Prod.map_fst, Prod.map_snd, id]
    exact settle_counted (runCase_execute stmt) hpre hown hcounter freePending_counters
  | _ => exact hc.elim

theorem counted_iff_default : ∃ db₀, dbConnectionCreate (mysqlDriver {}) (fun _ => 0) [] = some db₀ ∧ CountsRight {} db₀ (.query []) := by
  refine ⟨_, rfl, ?_⟩
  exact (counted_iff (c := .query []) trivial ⟨rfl, nofun⟩ ⟨by decide, rfl⟩).mpr ⟨by decide, by decide, by decide⟩

/-- The server goes away, and does not come back before sysbench stops. -/
def lostClient : MysqlClient where
  ignoredErrors := [['2', '0', '0', '6']]
  connects l := l.isEmpty
  errno _ := crServerGoneError
  realQuery _ _ := true

/-- A reconnection that is given up is counted as a reconnection. -/
theorem not_counted_lost : ∃ db₀, dbConnectionCreate (mysqlDriver lostClient) (fun _ => 0) [] = some db₀ ∧
    Reaches (mysqlDriver lostClient) db₀ ∧ ¬CountsRight lostClient db₀ (.query []) := by
  refine ⟨_, rfl, ⟨nofun, rfl⟩, fun h => ?_⟩
  have hreconnect := congrFun h .reconnect
  revert hreconnect
  decide

end NuKSM.Sysbench
