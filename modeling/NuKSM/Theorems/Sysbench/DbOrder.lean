import NuKSM.Theorems.Sysbench.DbCalls

/-! # The order of the operations of a driver

A monitor reads the log of a connection: when an operation may be invoked, when a result set is handed out and when it is
freed. Every run keeps to it, and what it lets pass is in order. -/

namespace NuKSM.Sysbench

/-- What the monitor knows of a connection: that nothing is pending, that a query has just been run, that a result set is
pending, or that the connection is gone. -/
inductive ConnPhase
  | settled | ran | pending | gone
  deriving DecidableEq

/-- The state of a connection in a phase. -/
def ConnPhase.state : ConnPhase → DbConnState
  | settled | ran => .ready
  | pending => .resultSet
  | gone => .invalid

/-- The calls after whose return the connection is gone. -/
def Closes : DbCall → DbRet → Prop
  | .connectionClose, _ => True
  | .connectionReconnect, r => r = .int 2
  | _, _ => False

instance (c : DbCall) (r : DbRet) : Decidable (Closes c r) := by
  unfold Closes
  split <;> infer_instance

/-- The rules for a connection. -/
def phases : Monitor ConnPhase DbEvent
  | p, .op .freeResults _ => if p.state = .resultSet then some .settled else none
  | p, .op (.query _) _ | p, .op .execute _ => if p.state = .ready then some .ran else none
  | p, .op .close _ => if p.state = .ready then some .settled else none
  | p, .op .reconnect failed => if p.state = .ready then some (if failed then .gone else .settled) else none
  | p, .op .disconnect _ => if p.state = .ready then some .gone else none
  | p, .op _ _ => if p.state ≠ .invalid then some p else none
  | p, .handedOut _ => if p = .ran then some .pending else none
  | p, .write _ _ => some p
  | p, .ret c r => if Closes c r → p = .gone then some p else none

section rules
variable {p : ConnPhase} {failed : Bool}

theorem phases_freeResults (h : p.state = .resultSet) : phases p (.op .freeResults failed) = some .settled := if_pos h

theorem phases_query {text : List Char} (h : p.state = .ready) : phases p (.op (.query text) failed) = some .ran := if_pos h

theorem phases_execute (h : p.state = .ready) : phases p (.op .execute failed) = some .ran := if_pos h

theorem phases_close (h : p.state = .ready) : phases p (.op .close failed) = some .settled := if_pos h

theorem phases_reconnect (h : p.state = .ready) :
    phases p (.op .reconnect failed) = some (if failed then .gone else .settled) := if_pos h

theorem phases_disconnect (h : p.state = .ready) : phases p (.op .disconnect failed) = some .gone := if_pos h

theorem phases_ret {c : DbCall} {r : DbRet} (h : Closes c r → p = .gone) : phases p (.ret c r) = some p := if_pos h

end rules

/-! ### Every run follows the rules -/

section follows
variable {σ : Type} {drv : Driver σ} {db db' : Db σ} {p : ConnPhase}

/-- The monitor has read the log and agrees with the state. -/
def Follows (db : Db σ) : Prop := ∃ p, phases.reads .settled db.log = some p ∧ p.state = db.state

theorem Follows.snoc {q : ConnPhase} {e : DbEvent} (hread : phases.reads .settled db.log = some p) (hstep : phases p e = some q)
    (hlog : db'.log = db.log ++ [e]) (hstate : q.state = db'.state) : Follows db' :=
  ⟨q, by rw [hlog, Monitor.reads_snoc hread, hstep], hstate⟩

/-- A query or an execution that has just been run is settled. -/
theorem follows_settle (hread : phases.reads .settled db.log = some .ran) (hready : db.state = .ready) (stmt : Option ℕ)
    (error : DbError) : Follows (settle stmt error db).2 := by
  unfold settle
  dsimp only
  split
  · split
    · exact .snoc hread rfl rfl rfl
    · exact ⟨.ran, hread, rfl⟩
  · exact ⟨.ran, hread, hready.symm⟩

theorem Follows.step {fits : Db σ → List Char → Prop} (hstep : LayerStep drv fits db db') (h : Follows db) : Follows db' := by
  obtain ⟨p, hread, hp⟩ := h
  have hother : ∀ {o failed} {db' : Db σ}, phases p (.op o failed) = (if p.state ≠ .invalid then some p else none) →
      db.state ≠ .invalid → db'.log = db.log ++ [.op o failed] → db'.state = db.state → Follows db' :=
    fun hop hvalid hlog hstate => .snoc hread (hop.trans (if_pos (hp ▸ hvalid))) hlog (hp.trans hstate.symm)
  cases hstep with
  | write lo n => exact .snoc hread rfl rfl hp
  | own error bulk freed => exact ⟨p, hread, hp⟩
  | free hstate => exact .snoc hread (phases_freeResults (hp.trans hstate)) rfl rfl
  | query text hstate =>
    have hran : phases.reads .settled (db.invoke (.query text) (· ≠ DbError.none) (drv.query text)).2.log = some .ran :=
      (Monitor.reads_snoc hread).trans (phases_query (hp.trans hstate))
    exact follows_settle hran hstate _ _
  | @execute s stmt hstate hstmt =>
    have hran : phases.reads .settled ({ db with statement := some s }.invoke .execute (· ≠ DbError.none)
        (drv.execute stmt)).2.log = some .ran := (Monitor.reads_snoc hread).trans (phases_execute (hp.trans hstate))
    exact follows_settle hran hstate _ _
  | fetchRow values hstate hfields => exact hother rfl (by rw [hstate]; decide) rfl rfl
  | describe hstate => exact hother rfl (by rw [hstate]; decide) rfl rfl
  | prepare text hstate =>
    unfold dbPrepare
    rw [if_neg hstate, if_neg (by decide)]
    dsimp only
    split <;> exact hother rfl hstate rfl rfl
  | bindParam params hstate =>
    unfold dbBindParam
    split
    · exact ⟨p, hread, hp⟩
    · rw [if_neg hstate]
      exact hother rfl hstate rfl rfl
  | bindResult results hstate =>
    unfold dbBindResult
    split
    · exact ⟨p, hread, hp⟩
    · rw [if_neg hstate]
      exact hother rfl hstate rfl rfl
  | close hstate hstmt => exact .snoc hread (phases_close (hp.trans hstate)) rfl hstate.symm
  | disconnect hstate => exact .snoc hread (phases_disconnect (hp.trans hstate)) rfl rfl
  | reconnect hop hstate hok =>
    refine ⟨.settled, (Monitor.reads_snoc hread).trans ((phases_reconnect (hp.trans hstate)).trans ?_), rfl⟩
    exact congrArg some (if_neg (by simpa using hok))
  | lost hop hstate hlost =>
    refine ⟨.gone, (Monitor.reads_snoc hread).trans ((phases_reconnect (hp.trans hstate)).trans ?_), rfl⟩
    exact congrArg some (if_pos (by simpa using hlost))

/-- After a call that closes the connection its state says so. -/
theorem state_of_closes {c : DbCall} (h : Closes c (c.exec drv db).1) : (c.exec drv db).2.state = .invalid := by
  unfold Closes at h
  split at h
  · simp only [DbCall.exec, dbConnectionClose, Prod.map_snd, id]
    split
    · exact ‹_›
    · rfl
  · revert h
    simp only [DbCall.exec, dbConnectionReconnect, Prod.map_fst, Prod.map_snd, id]
    split
    · exact nofun
    split
    · exact nofun
    · split
      · exact fun _ => rfl
      · exact nofun
  · exact h.elim

theorem Follows.next (h : Follows db) (c : DbCall) : Follows (c.next drv db) := by
  have hpath : LayerPath drv _ db (c.exec drv db).2 := c.exec_path c.fits_any
  obtain ⟨p, hread, hp⟩ := hpath.invariant (fun _ _ => Follows.step) h
  have hgone : Closes c (c.exec drv db).1 → p = .gone := fun hcloses => by
    have hinvalid := hp.trans (state_of_closes hcloses)
    cases p <;> first | rfl | cases hinvalid
  exact .snoc hread (phases_ret hgone) rfl hp

theorem follows_create {counters : SbCounterType → ℕ} {own : σ} (h : dbConnectionCreate drv counters own = some db) :
    Follows db := by
  obtain ⟨-, rfl⟩ := dbConnectionCreate_eq h
  exact ⟨.settled, rfl, rfl⟩

theorem follows_reach {db₀ : Db σ} {counters : SbCounterType → ℕ} {own : σ}
    (hcreate : dbConnectionCreate drv counters own = some db₀) (hreach : Reach DbCall.Legal (DbCall.next drv) db₀ db) :
    Follows db :=
  hreach.invariant (follows_create hcreate) fun _ c h _ => h.next c

end follows

/-! ### What the rules mean -/

/-- The operations that want the result set before them freed. -/
def Gate : DrvOp → Prop
  | .query _ | .execute | .close | .reconnect | .disconnect => True
  | _ => False

def DbEvent.isDisconnect : DbEvent → Bool
  | op .disconnect _ => true
  | _ => false

def DbEvent.isFreeResults : DbEvent → Bool
  | op .freeResults _ => true
  | _ => false

/-- The operations of a driver on one connection are in order. -/
structure Orderly (log : List DbEvent) : Prop where
  /-- Nothing is invoked on a connection that is closed or lost. -/
  closed : ∀ pre post c r, log = pre ++ .ret c r :: post → Closes c r → ∀ o failed, .op o failed ∉ post
  disconnects : log.countP DbEvent.isDisconnect ≤ 1
  /-- A result set is freed once before the next operation that wants it freed. -/
  released : ∀ pre mid post stmt o failed, log = pre ++ .handedOut stmt :: (mid ++ .op o failed :: post) → Gate o →
    (∀ o' failed', .op o' failed' ∈ mid → ¬Gate o') → mid.countP DbEvent.isFreeResults = 1

section orderly
variable {p q : ConnPhase} {l : List DbEvent}

theorem phases_gone {e : DbEvent} (h : phases .gone e = some q) : q = .gone ∧ ∀ o failed, e ≠ .op o failed := by
  cases e with
  | op o failed => cases o <;> cases h
  | handedOut stmt => cases h
  | write lo n => exact ⟨(Option.some.inj h).symm, nofun⟩
  | ret c r =>
    rw [phases, if_pos fun _ => rfl] at h
    exact ⟨(Option.some.inj h).symm, nofun⟩

theorem reads_gone (h : phases.reads .gone l = some q) : ∀ o failed, .op o failed ∉ l := by
  induction l with
  | nil => exact fun o failed => List.not_mem_nil
  | cons e l ih =>
    rw [Monitor.reads_cons, Option.bind_eq_some_iff] at h
    obtain ⟨p, hstep, hrest⟩ := h
    obtain ⟨rfl, hne⟩ := phases_gone hstep
    intro o failed hmem
    rcases List.mem_cons.mp hmem with heq | hmem
    · exact hne o failed heq.symm
    · exact ih hrest o failed hmem

theorem countP_disconnect_cons {e : DbEvent} (hstep : phases p e = some q) (hne : q ≠ .gone) :
    (e :: l).countP DbEvent.isDisconnect = l.countP DbEvent.isDisconnect := by
  refine List.countP_cons_of_neg fun he => ?_
  unfold DbEvent.isDisconnect at he
  split at he
  · unfold phases at hstep
    dsimp only at hstep
    split at hstep
    · exact hne (Option.some.inj hstep).symm
    · cases hstep
  · cases he

theorem countP_disconnect_le (h : phases.reads p l = some q) : l.countP DbEvent.isDisconnect ≤ 1 := by
  induction l generalizing p with
  | nil => exact Nat.zero_le _
  | cons e l ih =>
    rw [Monitor.reads_cons, Option.bind_eq_some_iff] at h
    obtain ⟨p', hstep, hrest⟩ := h
    by_cases hgone : p' = .gone
    · subst hgone
      have hzero : l.countP DbEvent.isDisconnect = 0 := List.countP_eq_zero.mpr fun e he hdis => by
        unfold DbEvent.isDisconnect at hdis
        split at hdis
        · exact reads_gone hrest _ _ he
        · cases hdis
      rw [List.countP_cons, hzero]
      split <;> decide
    · rw [countP_disconnect_cons hstep hgone]
      exact ih hrest

/-- Without an operation that wants it freed, nothing is freed while nothing is pending. -/
theorem phases_settled {e : DbEvent} (h : phases .settled e = some q) (hgate : ∀ o failed, e = .op o failed → ¬Gate o) :
    q = .settled ∧ e.isFreeResults = false := by
  cases e with
  | op o failed =>
    have hgate := hgate o failed rfl
    cases o <;> simp_all [phases, ConnPhase.state, Gate, DbEvent.isFreeResults]
  | handedOut stmt => cases h
  | write lo n => exact ⟨(Option.some.inj h).symm, rfl⟩
  | ret c r =>
    simp only [phases, Option.ite_none_right_eq_some, Option.some.injEq] at h
    exact ⟨h.2.symm, rfl⟩

theorem phases_pending {e : DbEvent} (h : phases .pending e = some q) (hgate : ∀ o failed, e = .op o failed → ¬Gate o) :
    (q = .settled ∧ e.isFreeResults = true) ∨ (q = .pending ∧ e.isFreeResults = false) := by
  cases e with
  | op o failed =>
    have hgate := hgate o failed rfl
    cases o <;> simp_all [phases, ConnPhase.state, Gate, DbEvent.isFreeResults]
  | handedOut stmt => cases h
  | write lo n => exact .inr ⟨(Option.some.inj h).symm, rfl⟩
  | ret c r =>
    simp only [phases, Option.ite_none_right_eq_some, Option.some.injEq] at h
    exact .inr ⟨h.2.symm, rfl⟩

theorem reads_settled (h : phases.reads .settled l = some q) (hgate : ∀ o failed, .op o failed ∈ l → ¬Gate o) :
    q = .settled ∧ l.countP DbEvent.isFreeResults = 0 := by
  induction l with
  | nil => exact ⟨(Option.some.inj h).symm, rfl⟩
  | cons e l ih =>
    rw [Monitor.reads_cons, Option.bind_eq_some_iff] at h
    obtain ⟨p, hstep, hrest⟩ := h
    obtain ⟨rfl, hfree⟩ := phases_settled hstep fun o failed he => hgate o failed (he ▸ List.mem_cons_self)
    rw [List.countP_cons_of_neg (by rw [hfree]; decide)]
    exact ih hrest fun o failed hmem => hgate o failed (List.mem_cons_of_mem _ hmem)

/-- What is pending is freed once at most before the next operation that wants it freed. -/
theorem reads_pending (h : phases.reads .pending l = some q) (hgate : ∀ o failed, .op o failed ∈ l → ¬Gate o) :
    (q = .settled ∧ l.countP DbEvent.isFreeResults = 1) ∨ q = .pending := by
  induction l with
  | nil => exact .inr (Option.some.inj h).symm
  | cons e l ih =>
    rw [Monitor.reads_cons, Option.bind_eq_some_iff] at h
    obtain ⟨p, hstep, hrest⟩ := h
    have hrest' : ∀ o failed, .op o failed ∈ l → ¬Gate o := fun o failed hmem => hgate o failed (List.mem_cons_of_mem _ hmem)
    rcases phases_pending hstep fun o failed he => hgate o failed (he ▸ List.mem_cons_self) with ⟨rfl, hfree⟩ | ⟨rfl, hfree⟩
    · obtain ⟨rfl, hcount⟩ := reads_settled hrest hrest'
      exact .inl ⟨rfl, by rw [List.countP_cons_of_pos hfree, hcount]⟩
    · rw [List.countP_cons_of_neg (by rw [hfree]; decide)]
      exact ih hrest hrest'

theorem phases_gate {o : DrvOp} {failed : Bool} (ho : Gate o) (h : phases p (.op o failed) = some q) : p.state = .ready := by
  by_contra hp
  cases o <;> simp_all [phases, Gate]

/-- A log that the monitor reads is in order. -/
theorem orderly_of_reads (h : phases.reads .settled l = some q) : Orderly l where
  closed pre post c r hlog hcloses := by
    rw [hlog] at h
    obtain ⟨p, -, hrest⟩ := Monitor.reads_split h
    rw [Monitor.reads_cons, Option.bind_eq_some_iff] at hrest
    obtain ⟨p', hstep, hrest⟩ := hrest
    simp only [phases, Option.ite_none_right_eq_some, Option.some.injEq] at hstep
    rw [← hstep.2, hstep.1 hcloses] at hrest
    exact reads_gone hrest
  disconnects := countP_disconnect_le h
  released pre mid post stmt o failed hlog ho hmid := by
    rw [hlog] at h
    obtain ⟨p, -, hrest⟩ := Monitor.reads_split h
    rw [Monitor.reads_cons, Option.bind_eq_some_iff] at hrest
    obtain ⟨p', hstep, hrest⟩ := hrest
    simp only [phases, Option.ite_none_right_eq_some, Option.some.injEq] at hstep
    rw [← hstep.2] at hrest
    obtain ⟨p'', hmid', hrest⟩ := Monitor.reads_split hrest
    rw [Monitor.reads_cons, Option.bind_eq_some_iff] at hrest
    obtain ⟨_, hop, -⟩ := hrest
    rcases reads_pending hmid' hmid with ⟨-, hcount⟩ | rfl
    · exact hcount
    · exact nomatch phases_gate ho hop

end orderly

/-- With every driver, in every run of calls on a connection, the operations of the driver are in order. -/
theorem driverOps_orderly {σ : Type} (drv : Driver σ) {counters : SbCounterType → ℕ} {own : σ} {db₀ db : Db σ}
    (hcreate : dbConnectionCreate drv counters own = some db₀) (hreach : Reach DbCall.Legal (DbCall.next drv) db₀ db) :
    Orderly db.log := by
  obtain ⟨p, hread, -⟩ := follows_reach hcreate hreach
  exact orderly_of_reads hread

/-! ### A driver that answers from a list -/

/-- The next answer of the list, which goes on with statements that succeed and change nothing. -/
def nextAnswer (d : DrvState (List (DbError × SbCounterType))) : DbError × DrvState (List (DbError × SbCounterType)) :=
  match d.own with
  | [] => (.none, { d with counter := .other })
  | (error, counter) :: rest => (error, { d with counter := counter, own := rest })

/-- Queries and executions are answered from the list, everything else succeeds. -/
def scripted (needsCommit : Bool) : Driver (List (DbError × SbCounterType)) where
  describe d := (some ⟨needsCommit⟩, d)
  connect d := (false, d)
  disconnect d := (0, d)
  reconnect := some fun d => (.ignorable, d)
  prepare _ stmt d := ((false, stmt), d)
  bindParam params stmt d := ((0, { stmt with boundParam := params }), d)
  bindResult _ stmt d := ((0, stmt), d)
  execute _ := nextAnswer
  fetchRow values d := ((false, values), d)
  freeResults _ d := (0, d)
  close _ d := (0, d)
  query _ := nextAnswer

theorem driverOps_orderly_scripted : ∃ db₀ db,
    dbConnectionCreate (scripted false) (fun _ => 0) [(.none, .read)] = some db₀ ∧
    Reach DbCall.Legal (DbCall.next (scripted false)) db₀ db ∧ db.state = .invalid ∧ Orderly db.log :=
  have hreach := ((Reach.start.call (.query []) ⟨rfl, nofun⟩).call .connectionClose ⟨rfl, nofun⟩).call (.query []) ⟨rfl, nofun⟩
  ⟨_, _, rfl, hreach, rfl, driverOps_orderly (scripted false) rfl hreach⟩

end NuKSM.Sysbench
