import NuKSM.Sysbench.MysqlDriver

/-! # What the operations of the MySQL driver call

For queries and executions, the ways they end, each with its calls and what it leaves. -/

namespace NuKSM.Sysbench

/-- The calls on a connection or on what belongs to it, without those that set it up. -/
def MysqlCall.UsesHandle : MysqlCall → Prop
  | realConnect _ | abandoned | unable | useAfterFree => False
  | _ => True

/-- The calls on an open connection that store no result and tell of no affected rows. -/
def MysqlCall.Plain : MysqlCall → Prop
  | realConnect _ | abandoned | unable | useAfterFree | close => False
  | storeResult res => res = none
  | stmtStoreResult _ err => err = true
  | freeResult _ | stmtFreeResult _ | affectedRows _ | stmtAffectedRows .. => False
  | _ => True

/-- The calls of `check_error` before it reconnects. -/
def errorCalls (e : ℕ) : MysqlLog := [.errno e, .sqlstate, .error]

theorem plain_errorCalls (e : ℕ) : ∀ x ∈ errorCalls e, x.Plain := by
  intro x hx
  simp only [errorCalls, List.mem_cons, List.not_mem_nil, or_false] at hx
  rcases hx with rfl | rfl | rfl <;> trivial

/-- The calls of a reconnection. -/
def reconnectCalls (n : ℕ) (ok : Bool) : MysqlLog := .close :: List.replicate n (.realConnect false) ++ [.realConnect ok]

/-- How a query ends, or an execution of the statement `s` of the server. -/
inductive RunCase (client : MysqlClient) (s : Option ℕ) (d d' : Mysql) : DbError → Prop
  | unable : d'.own = d.own ++ [.unable] → d'.counter = d.counter → d'.sql.errno = 0 → d'.ptr = d.ptr → RunCase client s d d' .fatal
  | affected (pre : MysqlLog) (e : MysqlCall) (n : ℕ) : (∀ x ∈ pre, x.Plain) → (e = .affectedRows n ∨ ∃ s, e = .stmtAffectedRows s n) →
      d'.own = d.own ++ (pre ++ [e]) → d'.counter = (if 0 < n % 2 ^ 32 then .write else .other) → d'.ptr = d.ptr →
      RunCase client s d d' .none
  | stored (pre post : MysqlLog) (res : ℕ) : s = none → (∀ x ∈ pre, x.Plain) → (∀ x ∈ post, x.Plain) →
      d'.own = d.own ++ (pre ++ .storeResult (some res) :: post) → d'.counter = .read → d'.ptr = some res →
      RunCase client s d d' .none
  | stmtStored (pre post : MysqlLog) (t : ℕ) : s = some t → (∀ x ∈ pre, x.Plain) → (∀ x ∈ post, x.Plain) →
      d'.own = d.own ++ (pre ++ .stmtStoreResult t false :: post) → d'.counter = .read → d'.ptr = d.ptr →
      RunCase client s d d' .none
  | error (pre : MysqlLog) (e : ℕ) {rc : DbError} : rc ≠ .none → (∀ x ∈ pre, x.Plain) → d'.own = d.own ++ (pre ++ errorCalls e) →
      d'.counter = .error → d'.sql.errno = e → ¬(isLoss e ∧ ignored client e) → d'.ptr = d.ptr → RunCase client s d d' rc
  | reconnected (pre : MysqlLog) (e n : ℕ) : (∀ x ∈ pre, x.Plain) →
      d'.own = d.own ++ (pre ++ errorCalls e ++ reconnectCalls n true) → d'.counter = .reconnect → d'.sql.errno = e →
      isLoss e → ignored client e → d'.ptr = d.ptr → RunCase client s d d' .ignorable
  | abandoned (pre : MysqlLog) (e n : ℕ) : (∀ x ∈ pre, x.Plain) →
      d'.own = d.own ++ (pre ++ errorCalls e ++ reconnectCalls n false ++ [.abandoned]) → d'.counter = .reconnect →
      d'.ptr = d.ptr → RunCase client s d d' .fatal

section cases
variable {client : MysqlClient} {d : Mysql}

theorem reconnectLoop_spec (client : MysqlClient) (d : Mysql) (n : ℕ) : ∃ ok, reconnectLoop client n d =
    (if ok then .ignorable else .fatal, { d with own := d.own ++ (List.replicate n (.realConnect false) ++ [.realConnect ok]) }) := by
  induction n generalizing d with
  | zero => exact ⟨client.connects d.own, rfl⟩
  | succ n ih =>
    obtain ⟨ok, h⟩ := ih (d.call (.realConnect false))
    refine ⟨ok, h.trans ?_⟩
    simp [DrvState.call, List.replicate_succ]

theorem mysqlDrvReconnect_spec (client : MysqlClient) (d : Mysql) : ∃ n ok, mysqlDrvReconnect client d =
    (if ok then .ignorable else .fatal, { d with own := d.own ++ reconnectCalls n ok }) := by
  obtain ⟨ok, h⟩ := reconnectLoop_spec client (d.call .close) (client.attempts (d.call .close).own)
  refine ⟨client.attempts (d.call .close).own, ok, h.trans ?_⟩
  simp [DrvState.call, reconnectCalls]

/-- From `d₀` on there have been plain calls only. -/
structure Plainly (d₀ d : Mysql) : Prop where
  own : ∃ pre : MysqlLog, (∀ x ∈ pre, x.Plain) ∧ d.own = d₀.own ++ pre
  ptr : d.ptr = d₀.ptr

theorem Plainly.start {d₀ : Mysql} (hown : d.own = d₀.own) (hptr : d.ptr = d₀.ptr) : Plainly d₀ d :=
  ⟨⟨[], fun _ h => absurd h List.not_mem_nil, by rw [hown, List.append_nil]⟩, hptr⟩

theorem Plainly.refl (d : Mysql) : Plainly d d := .start rfl rfl

theorem Plainly.call {d₀ : Mysql} (h : Plainly d₀ d) {e : MysqlCall} (he : e.Plain) : Plainly d₀ (d.call e) := by
  obtain ⟨⟨pre, hpre, hown⟩, hptr⟩ := h
  refine ⟨⟨pre ++ [e], fun x hx => ?_, by rw [DrvState.call, hown, List.append_assoc]⟩, hptr⟩
  rcases List.mem_append.mp hx with hx | hx
  · exact hpre x hx
  · rwa [List.mem_singleton.mp hx]

theorem Plainly.noResult {d₀ : Mysql} (h : Plainly d₀ d) {res : Option ℕ} (hres : res = none) :
    Plainly d₀ (d.call (.storeResult res)) := h.call hres

theorem Plainly.storeFails {d₀ : Mysql} (h : Plainly d₀ d) {s : ℕ} {err : Bool} (herr : err = true) :
    Plainly d₀ (d.call (.stmtStoreResult s err)) := h.call herr

theorem mysqlNoteError_own (client : MysqlClient) (d : Mysql) :
    (mysqlNoteError client d).own = d.own ++ errorCalls (mysqlNoteError client d).sql.errno := by
  simp [mysqlNoteError, DrvState.call, errorCalls]

/-- After some plain calls, `check_error`. -/
theorem runCase_checkError {s : Option ℕ} {d₀ : Mysql} (h : Plainly d₀ d) :
    RunCase client s d₀ (mysqlCheckError client d).2 (mysqlCheckError client d).1 := by
  obtain ⟨⟨pre, hpre, hown⟩, hptr⟩ := h
  have hnote := mysqlNoteError_own client d
  have hptr' : (mysqlNoteError client d).ptr = d₀.ptr := hptr
  rw [hown, List.append_assoc] at hnote
  unfold mysqlCheckError
  generalize mysqlNoteError client d = d₁ at *
  dsimp only
  split
  · split
    · obtain ⟨n, ok, heq⟩ := mysqlDrvReconnect_spec client { d₁ with counter := .reconnect }
      rw [heq]
      cases ok with
      | true => exact .reconnected pre _ n hpre (by simp [hnote]) rfl rfl ‹_› ‹_› hptr'
      | false => exact .abandoned pre d₁.sql.errno n hpre (by simp [hnote, DrvState.call]) rfl hptr'
    · exact .error pre _ nofun hpre hnote rfl rfl (fun h => ‹¬_› h.1) hptr'
  · exact .error pre _ nofun hpre hnote rfl rfl (fun h => ‹¬_› h.2) hptr'

/-- After some plain calls, those that tell of affected rows. -/
theorem runCase_affected {s : Option ℕ} {d₀ d' : Mysql} {e : MysqlCall} {n : ℕ} (h : Plainly d₀ d)
    (he : e = .affectedRows n ∨ ∃ s, e = .stmtAffectedRows s n) (hown : d'.own = (d.call e).own)
    (hcounter : d'.counter = if 0 < n % 2 ^ 32 then .write else .other) (hptr : d'.ptr = d.ptr) :
    RunCase client s d₀ d' .none := by
  obtain ⟨⟨pre, hpre, hpreOwn⟩, hprePtr⟩ := h
  exact .affected pre e n hpre he (by rw [hown, DrvState.call, hpreOwn, List.append_assoc]) hcounter (hptr.trans hprePtr)

/-- After some plain calls, those that store the result of a query. -/
theorem runCase_stored {d₀ d' : Mysql} {r : Option ℕ} {res rows fields : ℕ} (h : Plainly d₀ d) (hr : r = some res)
    (hown : d'.own = (((d.call (.storeResult r)).call (.numRows res rows)).call (.numFields res fields)).own)
    (hcounter : d'.counter = .read) (hptr : d'.ptr = some res) : RunCase client none d₀ d' .none := by
  obtain ⟨⟨pre, hpre, hpreOwn⟩, -⟩ := h
  refine .stored pre [.numRows res rows, .numFields res fields] res rfl hpre ?_ ?_ hcounter hptr
  · simp [MysqlCall.Plain]
  · rw [hown, hr]
    simp [DrvState.call, hpreOwn]

/-- After some plain calls, those that store the result of a statement. -/
theorem runCase_stmtStored {d₀ d' : Mysql} {t rows : ℕ} {err : Bool} (h : Plainly d₀ d) (herr : err = false)
    (hown : d'.own = ((d.call (.stmtStoreResult t err)).call (.stmtNumRows t rows)).own) (hcounter : d'.counter = .read)
    (hptr : d'.ptr = d.ptr) : RunCase client (some t) d₀ d' .none := by
  obtain ⟨⟨pre, hpre, hpreOwn⟩, hprePtr⟩ := h
  refine .stmtStored pre [.stmtNumRows t rows] t rfl hpre ?_ ?_ hcounter (hptr.trans hprePtr)
  · simp [MysqlCall.Plain]
  · rw [hown, herr]
    simp [DrvState.call, hpreOwn]

theorem runCase_query (text : List Char) : RunCase client none d (mysqlDrvQuery client text d).2 (mysqlDrvQuery client text d).1 := by
  have hstart : Plainly d { d with sql := {} } := .start rfl rfl
  have hqueried := hstart.call (e := .realQuery text (client.realQuery d.own text)) trivial
  unfold mysqlDrvQuery
  dsimp only
  split
  · exact runCase_checkError hqueried
  · split
    · have hnone := hqueried.noResult ‹_›
      split
      · exact runCase_checkError (hnone.call trivial)
      have hdml := fun e n : ℕ => (hnone.call (e := .errno e) trivial).call (e := .fieldCount n) trivial
      split
      · exact runCase_checkError (hdml _ _)
      split
      · exact runCase_affected (hdml _ _) (.inl rfl) rfl (if_pos ‹_›).symm rfl
      · exact runCase_affected (hdml _ _) (.inl rfl) rfl (if_neg ‹_›).symm rfl
    · exact runCase_stored hqueried ‹_› rfl rfl rfl

/-- The statement of the server that an execution runs. -/
def DbStmt.server (stmt : DbStmt) : Option ℕ := if stmt.emulated then none else stmt.ptr

theorem RunCase.of_own {s : Option ℕ} {d₀ d' : Mysql} {rc : DbError} (h : RunCase client s d₀ d' rc) (hown : d₀.own = d.own)
    (hcounter : d₀.counter = d.counter) (hptr : d₀.ptr = d.ptr) : RunCase client s d d' rc := by
  cases h with
  | unable ho hc he hp => exact .unable (hown ▸ ho) (hcounter ▸ hc) he (hptr ▸ hp)
  | affected pre e n hpre he ho hc hp => exact .affected pre e n hpre he (hown ▸ ho) hc (hptr ▸ hp)
  | stored pre post res hs hpre hpost ho hc hp => exact .stored pre post res hs hpre hpost (hown ▸ ho) hc hp
  | stmtStored pre post t hs hpre hpost ho hc hp => exact .stmtStored pre post t hs hpre hpost (hown ▸ ho) hc (hptr ▸ hp)
  | error pre e hrc hpre ho hc he hnot hp => exact .error pre e hrc hpre (hown ▸ ho) hc he hnot (hptr ▸ hp)
  | reconnected pre e n hpre ho hc he hloss hig hp => exact .reconnected pre e n hpre (hown ▸ ho) hc he hloss hig (hptr ▸ hp)
  | abandoned pre e n hpre ho hc hp => exact .abandoned pre e n hpre (hown ▸ ho) hc (hptr ▸ hp)

theorem runCase_execute (stmt : DbStmt) :
    RunCase client stmt.server d (mysqlDrvExecute client stmt d).2 (mysqlDrvExecute client stmt d).1 := by
  have hstart : Plainly d { d with sql := {} } := .start rfl rfl
  unfold mysqlDrvExecute DbStmt.server
  dsimp only
  by_cases hemulated : stmt.emulated
  · rw [if_neg (not_not.mpr hemulated), if_pos hemulated]
    split
    · exact .unable rfl rfl rfl rfl
    · exact (runCase_query _).of_own rfl rfl rfl
  · rw [if_pos hemulated, if_neg hemulated]
    split
    · exact .unable rfl rfl rfl rfl
    · rename_i s hs
      have hexecuted := hstart.call (e := .stmtExecute s (client.stmtExecute d.own)) trivial
      rw [hs]
      split
      · exact runCase_checkError hexecuted
      split
      · exact runCase_affected hexecuted (.inr ⟨s, rfl⟩) rfl rfl rfl
      split
      · exact runCase_checkError (hexecuted.storeFails ‹_›)
      · exact runCase_stmtStored hexecuted ((Bool.not_eq_true _).mp ‹_›) rfl (not_not.mp ‹_›) rfl

/-- How the freeing of a result set ends. -/
inductive FreeCase (statement : Option (Option DbStmt)) (d : Mysql) : Mysql → Prop
  | dangling : statement = some none → FreeCase statement d (d.call .useAfterFree)
  | server (stmt : DbStmt) : statement = some (some stmt) → stmt.emulated = false →
      FreeCase statement d { d.call (.stmtFreeResult stmt.ptr) with ptr := none }
  | result (res : ℕ) : (∀ stmt, statement = some stmt → ∃ s, stmt = some s ∧ s.emulated) → d.ptr = some res →
      FreeCase statement d { d.call (.freeResult res) with ptr := none }
  | nothing : (∀ stmt, statement = some stmt → ∃ s, stmt = some s ∧ s.emulated) → d.ptr = none → FreeCase statement d d

theorem freeCase (statement : Option (Option DbStmt)) : FreeCase statement d (mysqlDrvFreeResults statement d).2 := by
  rcases statement with _ | _ | stmt
  · simp only [mysqlDrvFreeResults]
    split
    · exact .result _ nofun ‹_›
    · exact .nothing nofun ‹_›
  · exact .dangling rfl
  · cases hemulated : stmt.emulated with
    | true =>
      have hs : ∀ t, some (some stmt) = some t → ∃ s, t = some s ∧ s.emulated := fun t ht =>
        ⟨stmt, (Option.some.inj ht).symm, hemulated⟩
      simp only [mysqlDrvFreeResults, hemulated, if_true]
      split
      · exact .result _ hs ‹_›
      · exact .nothing hs ‹_›
    | false =>
      simp only [mysqlDrvFreeResults, hemulated, Bool.false_eq_true, if_false]
      exact .server stmt rfl hemulated

/-! ### The other operations -/

theorem plainly_prepare (text : List Char) (stmt : DbStmt) : Plainly d (mysqlDrvPrepare client text stmt d).2 := by
  have hstart := Plainly.refl d
  unfold mysqlDrvPrepare
  dsimp only
  split
  · split
    · exact hstart.call (by trivial)
    · have hinit := hstart.call (e := .stmtInit (client.stmtInit d.own)) trivial
      split
      · split
        · exact ((hinit.call (by trivial)).call (by trivial)).call (by trivial)
        · exact (((hinit.call (by trivial)).call (by trivial)).call (by trivial)).call (by trivial)
      · exact (hinit.call (by trivial)).call (by trivial)
  · exact hstart

theorem plainly_bindParam (params : List ℕ) (stmt : DbStmt) : Plainly d (mysqlDrvBindParam client params stmt d).2 := by
  have hstart := Plainly.refl d
  unfold mysqlDrvBindParam
  dsimp only
  split
  · split
    · exact hstart
    split
    · exact hstart.call (by trivial)
    split
    · exact hstart.call (by trivial)
    split
    · exact (((hstart.call (by trivial)).call (by trivial)).call (by trivial)).call (by trivial)
    · exact (hstart.call (by trivial)).call (by trivial)
  · split <;> exact hstart

theorem plainly_bindResult (results : List ℕ) (stmt : DbStmt) : Plainly d (mysqlDrvBindResult client results stmt d).2 := by
  unfold mysqlDrvBindResult
  split
  · exact .refl d
  split
  · exact .refl d
  · exact (Plainly.refl d).call (by trivial)

theorem plainly_close (client : MysqlClient) (d : Mysql) (stmt : DbStmt) : Plainly d (mysqlDrvClose client stmt d).2 := by
  unfold mysqlDrvClose
  split
  · exact .refl d
  · exact (Plainly.refl d).call (by trivial)

theorem plainly_fetchRow (values : List DbValue) : Plainly d (mysqlDrvFetchRow client values d).2 := by
  have hfetched : Plainly d ((d.call (.fetchRow d.ptr)).call (.fetchLengths d.ptr)) := ((Plainly.refl d).call (by trivial)).call (by trivial)
  unfold mysqlDrvFetchRow
  dsimp only
  split <;> exact hfetched

end cases

end NuKSM.Sysbench
