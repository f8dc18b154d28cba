import NuKSM.Theorems.Sysbench.MysqlCounters

/-! # The handle of a MySQL connection

Whether the library is called on a handle that has been closed and not connected again. -/

namespace NuKSM.Sysbench

/-- The handle has been closed, and not been connected since. -/
def HandleClosed (l : MysqlLog) : Prop := ∃ a b, l = a ++ .close :: b ∧ .realConnect true ∉ b

/-- No call is made on a handle that is closed. -/
def HandleSafe (l : MysqlLog) : Prop := ∀ pre e post, l = pre ++ e :: post → HandleClosed pre → ¬e.UsesHandle

/-- Neither closes the handle nor connects it. -/
def MysqlCall.Harmless : MysqlCall → Prop
  | close | realConnect _ | abandoned => False
  | _ => True

theorem MysqlCall.Plain.harmless {e : MysqlCall} (h : e.Plain) : e.Harmless := by
  cases e <;> trivial

section logs
variable {l seg : MysqlLog} {e : MysqlCall}

theorem handleSafe_nil : HandleSafe [] := fun _ _ _ h => by simp at h

theorem handleClosed_snoc : HandleClosed (l ++ [e]) ↔ e = .close ∨ (HandleClosed l ∧ e ≠ .realConnect true) := by
  constructor
  · rintro ⟨a, b, heq, hb⟩
    rcases List.eq_nil_or_concat' b with rfl | ⟨b, x, rfl⟩
    · obtain ⟨-, he⟩ := List.append_inj' heq rfl
      exact .inl (List.singleton_inj.mp he)
    · rw [← List.cons_append, ← List.append_assoc] at heq
      obtain ⟨rfl, hx⟩ := List.append_inj' heq rfl
      obtain rfl := List.singleton_inj.mp hx
      exact .inr ⟨⟨a, b, rfl, fun h => hb (List.mem_append_left _ h)⟩, fun h => hb (by simp [h])⟩
  · rintro (rfl | ⟨⟨a, b, rfl, hb⟩, he⟩)
    · exact ⟨l, [], rfl, List.not_mem_nil⟩
    · refine ⟨a, b ++ [e], by simp, fun h => ?_⟩
      rcases List.mem_append.mp h with h | h
      · exact hb h
      · exact he (List.mem_singleton.mp h).symm

theorem handleSafe_snoc : HandleSafe (l ++ [e]) ↔ HandleSafe l ∧ (HandleClosed l → ¬e.UsesHandle) := by
  constructor
  · exact fun h => ⟨fun pre x post heq => h pre x (post ++ [e]) (by simp [heq]), h l e [] rfl⟩
  · rintro ⟨hl, he⟩ pre x post heq hclosed
    rcases List.eq_nil_or_concat' post with rfl | ⟨post, y, rfl⟩
    · obtain ⟨rfl, hx⟩ := List.append_inj' heq rfl
      obtain rfl := List.singleton_inj.mp hx
      exact he hclosed
    · rw [← List.cons_append, ← List.append_assoc] at heq
      obtain ⟨rfl, -⟩ := List.append_inj' heq rfl
      exact hl pre x post rfl hclosed

/-- Harmless calls leave the handle as it is. -/
theorem handleClosed_harmless (hseg : ∀ x ∈ seg, x.Harmless) : HandleClosed (l ++ seg) ↔ HandleClosed l := by
  induction seg using List.reverseRecOn with
  | nil => rw [List.append_nil]
  | append_singleton seg e ih =>
    have he : e.Harmless := hseg e (by simp)
    rw [← List.append_assoc, handleClosed_snoc, ih fun x hx => hseg x (List.mem_append_left _ hx), or_iff_right, and_iff_left]
    · rintro rfl
      exact he
    · rintro rfl
      exact he

/-- They may be made on an open handle. -/
theorem handleSafe_harmless (hseg : ∀ x ∈ seg, x.Harmless) :
    HandleSafe (l ++ seg) ↔ HandleSafe l ∧ (HandleClosed l → ∀ x ∈ seg, ¬x.UsesHandle) := by
  induction seg using List.reverseRecOn with
  | nil => simp
  | append_singleton seg e ih =>
    have hseg' : ∀ x ∈ seg, x.Harmless := fun x hx => hseg x (List.mem_append_left _ hx)
    rw [← List.append_assoc, handleSafe_snoc, ih hseg', handleClosed_harmless hseg', and_assoc, ← imp_and]
    simp [or_imp, forall_and]

/-- A reconnection closes the handle and connects until it succeeds. -/
theorem append_reconnectCalls (l : MysqlLog) (n : ℕ) (ok : Bool) : l ++ reconnectCalls n ok =
    l ++ [MysqlCall.close] ++ List.replicate n (MysqlCall.realConnect false) ++ [MysqlCall.realConnect ok] := by
  simp [reconnectCalls]

/-- It leaves the handle open where it succeeds. -/
theorem handleClosed_reconnect (n : ℕ) (ok : Bool) : HandleClosed (l ++ reconnectCalls n ok) ↔ ok = false := by
  have hloop : HandleClosed (l ++ [MysqlCall.close] ++ List.replicate n (MysqlCall.realConnect false)) := by
    induction n with
    | zero => exact ⟨l, [], by simp, List.not_mem_nil⟩
    | succ n ih => exact List.replicate_succ' ▸ List.append_assoc .. ▸ handleClosed_snoc.mpr (.inr ⟨ih, nofun⟩)
  rw [append_reconnectCalls, handleClosed_snoc, and_iff_right hloop]
  simp

/-- It may be made on an open handle. -/
theorem handleSafe_reconnect (n : ℕ) (ok : Bool) : HandleSafe (l ++ reconnectCalls n ok) ↔ HandleSafe l ∧ ¬HandleClosed l := by
  have hloop : HandleSafe (l ++ [MysqlCall.close] ++ List.replicate n (MysqlCall.realConnect false)) ↔
      HandleSafe l ∧ ¬HandleClosed l := by
    induction n with
    | zero => simp [handleSafe_snoc, MysqlCall.UsesHandle]
    | succ n ih =>
      rw [List.replicate_succ', ← List.append_assoc, handleSafe_snoc, ih]
      exact and_iff_left fun _ => id
  rw [append_reconnectCalls, handleSafe_snoc, hloop]
  exact and_iff_left fun _ => id

end logs

/-! ### The calls of an operation -/

section operations
variable {client : MysqlClient} {d d₀ d' : Mysql}

/-- From `d₀` on there have been harmless calls only. -/
def Harmlessly (d₀ d : Mysql) : Prop := ∃ seg : MysqlLog, (∀ x ∈ seg, x.Harmless) ∧ d.own = d₀.own ++ seg

theorem Harmlessly.refl (d : Mysql) : Harmlessly d d := ⟨[], fun _ h => absurd h List.not_mem_nil, (List.append_nil _).symm⟩

theorem Harmlessly.call (h : Harmlessly d₀ d) {e : MysqlCall} (he : e.Harmless) : Harmlessly d₀ (d.call e) := by
  obtain ⟨seg, hseg, hown⟩ := h
  refine ⟨seg ++ [e], fun x hx => ?_, by rw [DrvState.call, hown, List.append_assoc]⟩
  rcases List.mem_append.mp hx with hx | hx
  · exact hseg x hx
  · rwa [List.mem_singleton.mp hx]

theorem Harmlessly.of_own (h : Harmlessly d₀ d) (hown : d'.own = d.own) : Harmlessly d₀ d' := by
  obtain ⟨seg, hseg, hd⟩ := h
  exact ⟨seg, hseg, hown.trans hd⟩

theorem Plainly.harmlessly (h : Plainly d₀ d) : Harmlessly d₀ d := by
  obtain ⟨⟨seg, hseg, hown⟩, -⟩ := h
  exact ⟨seg, fun x hx => (hseg x hx).harmless, hown⟩

theorem harmlessly_free (statement : Option (Option DbStmt)) : Harmlessly d (mysqlDrvFreeResults statement d).2 := by
  have hstart := Harmlessly.refl d
  have hcase := freeCase (d := d) statement
  generalize (mysqlDrvFreeResults statement d).2 = d' at *
  cases hcase with
  | dangling => exact hstart.call (by trivial)
  | server => exact (hstart.call (e := .stmtFreeResult _) trivial).of_own rfl
  | result => exact (hstart.call (e := .freeResult _) trivial).of_own rfl
  | nothing => exact hstart

end operations

/-! ### The handle along a run -/

variable {client : MysqlClient} {db db' db₀ : Db MysqlLog}

/-- What a step of the layer does with the handle. -/
inductive HandleCase (db db' : Db MysqlLog) : Prop
  | harmless : Harmlessly db.drv db'.drv → (db.state = .invalid → db'.drv.own = db.drv.own) →
      (db'.state = .invalid ↔ db.state = .invalid) → HandleCase db db'
  | reconnected (d : Mysql) (n : ℕ) : Harmlessly db.drv d → db'.drv.own = d.own ++ reconnectCalls n true → db'.state ≠ .invalid →
      db.state ≠ .invalid → HandleCase db db'
  | disconnected : db'.drv.own = db.drv.own ++ [.close] → db'.state = .invalid → db.state ≠ .invalid → HandleCase db db'
  | lost (n : ℕ) : db'.drv.own = db.drv.own ++ reconnectCalls n false → db'.state = .invalid → db.state ≠ .invalid →
      HandleCase db db'
  | abandoned (d : Mysql) (n : ℕ) : Harmlessly db.drv d → db'.drv.own = d.own ++ (reconnectCalls n false ++ [.abandoned]) →
      db'.state ≠ .invalid → db.state ≠ .invalid → HandleCase db db'

/-- A query or an execution keeps the handle, or reconnects it, or has it closed. -/
theorem RunCase.handle {s : Option ℕ} {d' : Mysql} {rc : DbError} (h : RunCase client s db.drv d' rc) (hdrv : db'.drv = d')
    (hstate : db.state = .ready) (hstate' : db'.state ≠ .invalid) : HandleCase db db' := by
  subst hdrv
  have hvalid : db.state ≠ .invalid := by rw [hstate]; decide
  have hplain : ∀ {seg : MysqlLog}, (∀ x ∈ seg, x.Plain) → ∀ x ∈ seg, x.Harmless := fun hseg x hx => (hseg x hx).harmless
  have hharmless : ∀ {seg : MysqlLog}, (∀ x ∈ seg, x.Harmless) → db'.drv.own = db.drv.own ++ seg → HandleCase db db' :=
    fun hseg hown => .harmless ⟨_, hseg, hown⟩ (fun hinvalid => absurd hinvalid hvalid) (iff_of_false hstate' hvalid)
  cases h with
  | unable hown => exact hharmless (by simp [MysqlCall.Harmless]) hown
  | affected pre e n hpre he hown =>
    refine hharmless (List.forall_mem_append.mpr ⟨hplain hpre, List.forall_mem_singleton.mpr ?_⟩) hown
    rcases he with rfl | ⟨s, rfl⟩ <;> trivial
  | stored pre post res hs hpre hpost hown =>
    exact hharmless (List.forall_mem_append.mpr ⟨hplain hpre, List.forall_mem_cons.mpr ⟨by trivial, hplain hpost⟩⟩) hown
  | stmtStored pre post t hs hpre hpost hown =>
    exact hharmless (List.forall_mem_append.mpr ⟨hplain hpre, List.forall_mem_cons.mpr ⟨by trivial, hplain hpost⟩⟩) hown
  | error pre e hrc hpre hown =>
    exact hharmless (List.forall_mem_append.mpr ⟨hplain hpre, hplain (plain_errorCalls e)⟩) hown
  | reconnected pre e n hpre hown =>
    have hseg := List.forall_mem_append.mpr ⟨hplain hpre, hplain (plain_errorCalls e)⟩
    exact .reconnected { db.drv with own := _ } n ⟨_, hseg, rfl⟩ (hown.trans (List.append_assoc ..).symm) hstate' hvalid
  | abandoned pre e n hpre hown =>
    have hseg := List.forall_mem_append.mpr ⟨hplain hpre, hplain (plain_errorCalls e)⟩
    refine .abandoned { db.drv with own := _ } n ⟨_, hseg, rfl⟩ (hown.trans ?_) hstate' hvalid
    simp only [List.append_assoc]

theorem harmlessly_step (hdrv : Harmlessly db.drv db'.drv) (hstate : db.state ≠ .invalid) (hstate' : db'.state ≠ .invalid) :
    HandleCase db db' :=
  .harmless hdrv (fun hinvalid => absurd hinvalid hstate) (iff_of_false hstate' hstate)

/-- What each step of the layer does with the handle. -/
theorem LayerStep.handle {fits : Db MysqlLog → List Char → Prop} (hstep : LayerStep (mysqlDriver client) fits db db') : HandleCase db db' := by
  have hready : ∀ {s : DbConnState}, s = .ready → s ≠ .invalid := by rintro _ rfl; decide
  cases hstep with
  | write | own => exact .harmless (.refl _) (fun _ => rfl) .rfl
  | free hstate => exact harmlessly_step ((harmlessly_free _).of_own rfl) (by rw [hstate]; decide) nofun
  | query text hstate => exact (runCase_query text).handle (settle_drv _ _) hstate (settle_valid _ _ (hready hstate))
  | execute hstate hstmt => exact (runCase_execute _).handle (settle_drv _ _) hstate (settle_valid _ _ (hready hstate))
  | fetchRow values hstate =>
    have hvalid : db.state ≠ .invalid := by rw [hstate]; decide
    exact harmlessly_step (plainly_fetchRow values).harmlessly hvalid hvalid
  | describe hstate => exact harmlessly_step (.refl _) (hready hstate) (hready hstate)
  | prepare text hstate =>
    rw [dbPrepare_of_open _ text hstate]
    split <;> exact harmlessly_step (plainly_prepare text {}).harmlessly hstate hstate
  | @bindParam s params hstate =>
    rcases dbBindParam_cases (mysqlDriver client) db s params with heq | ⟨stmt, -, heq⟩
    · rw [heq]
      exact harmlessly_step (.refl _) hstate hstate
    · rw [heq]
      exact harmlessly_step (plainly_bindParam params stmt).harmlessly hstate hstate
  | @bindResult s results hstate =>
    rcases dbBindResult_cases (mysqlDriver client) db s results with heq | ⟨stmt, -, heq⟩
    · rw [heq]
      exact harmlessly_step (.refl _) hstate hstate
    · rw [heq]
      exact harmlessly_step (plainly_bindResult results stmt).harmlessly hstate hstate
  | close hstate hstmt => exact harmlessly_step (plainly_close _ _ _).harmlessly (hready hstate) (hready hstate)
  | disconnect hstate => exact .disconnected rfl rfl (hready hstate)
  | reconnect hf hstate hok =>
    obtain rfl := Option.some.inj hf
    obtain ⟨n, ok, heq⟩ := mysqlDrvReconnect_spec client db.drv
    rw [heq] at hok
    cases ok with
    | true => exact .reconnected db.drv n (.refl _) (congrArg (fun r => r.2.own) heq) nofun (hready hstate)
    | false => exact absurd rfl hok
  | lost hf hstate hfail =>
    obtain rfl := Option.some.inj hf
    obtain ⟨n, ok, heq⟩ := mysqlDrvReconnect_spec client db.drv
    rw [heq] at hfail
    cases ok with
    | true => cases hfail
    | false => exact .lost n (congrArg (fun r => r.2.own) heq) rfl (hready hstate)

/-- Until a reconnection is given up the handle of an open connection is open. From then on it is closed, or has been used
after it was. -/
structure HandleInv (db : Db MysqlLog) : Prop where
  safe : .abandoned ∉ db.drv.own → HandleSafe db.drv.own
  isOpen : .abandoned ∉ db.drv.own → db.state ≠ .invalid → ¬HandleClosed db.drv.own
  broken : .abandoned ∈ db.drv.own → HandleSafe db.drv.own → HandleClosed db.drv.own ∧ db.state ≠ .invalid

theorem Harmlessly.abandoned {d d' : Mysql} (h : Harmlessly d d') : .abandoned ∈ d'.own ↔ .abandoned ∈ d.own := by
  obtain ⟨seg, hseg, hown⟩ := h
  rw [hown, List.mem_append, or_iff_left fun hmem : .abandoned ∈ seg => hseg .abandoned hmem]

theorem Harmlessly.closed {d d' : Mysql} (h : Harmlessly d d') : HandleClosed d'.own ↔ HandleClosed d.own := by
  obtain ⟨seg, hseg, hown⟩ := h
  rw [hown, handleClosed_harmless hseg]

theorem Harmlessly.safe_of {d d' : Mysql} (h : Harmlessly d d') (hsafe : HandleSafe d'.own) : HandleSafe d.own := by
  obtain ⟨seg, hseg, hown⟩ := h
  rw [hown, handleSafe_harmless hseg] at hsafe
  exact hsafe.1

theorem Harmlessly.safe {d d' : Mysql} (h : Harmlessly d d') (hsafe : HandleSafe d.own) (hopen : ¬HandleClosed d.own) :
    HandleSafe d'.own := by
  obtain ⟨seg, hseg, hown⟩ := h
  rw [hown, handleSafe_harmless hseg]
  exact ⟨hsafe, fun hclosed => absurd hclosed hopen⟩

theorem abandoned_reconnect {l : MysqlLog} (n : ℕ) (ok : Bool) : .abandoned ∈ l ++ reconnectCalls n ok ↔ .abandoned ∈ l := by
  simp [reconnectCalls]

/-- A reconnection begins with the handle open, unless one has been given up. -/
theorem HandleInv.reconnect (hinv : HandleInv db) {d : Mysql} (hdrv : Harmlessly db.drv d) (hstate : db.state ≠ .invalid)
    (n : ℕ) (ok : Bool) : HandleSafe (d.own ++ reconnectCalls n ok) ↔ .abandoned ∉ db.drv.own := by
  rw [handleSafe_reconnect, hdrv.closed]
  constructor
  · exact fun h hmem => h.2 (hinv.broken hmem (hdrv.safe_of h.1)).1
  · exact fun hnot => ⟨hdrv.safe (hinv.safe hnot) (hinv.isOpen hnot hstate), hinv.isOpen hnot hstate⟩

theorem HandleCase.inv (h : HandleCase db db') (hinv : HandleInv db) : HandleInv db' := by
  cases h with
  | harmless hdrv hsame hstate =>
    refine ⟨fun hnot => ?_, fun hnot hvalid => ?_, fun hmem hsafe => ?_⟩
    · rw [hdrv.abandoned] at hnot
      by_cases hinvalid : db.state = .invalid
      · exact hsame hinvalid ▸ hinv.safe hnot
      · exact hdrv.safe (hinv.safe hnot) (hinv.isOpen hnot hinvalid)
    · rw [hdrv.closed]
      exact hinv.isOpen (hdrv.abandoned.not.mp hnot) (hstate.not.mp hvalid)
    · rw [hdrv.closed, ne_eq, hstate]
      exact hinv.broken (hdrv.abandoned.mp hmem) (hdrv.safe_of hsafe)
  | reconnected d n hdrv hown hstate' hstate =>
    have hsafe := hinv.reconnect hdrv hstate n true
    refine ⟨fun hnot => ?_, fun _ _ => ?_, fun hmem hsafe' => ?_⟩
    · rw [hown, abandoned_reconnect, hdrv.abandoned] at hnot
      exact hown ▸ hsafe.mpr hnot
    · rw [hown, handleClosed_reconnect]
      decide
    · rw [hown, abandoned_reconnect, hdrv.abandoned] at hmem
      exact absurd hmem (hsafe.mp (hown ▸ hsafe'))
  | disconnected hown hinvalid hstate =>
    have hmem : .abandoned ∈ db'.drv.own ↔ .abandoned ∈ db.drv.own := by simp [hown]
    refine ⟨fun hnot => ?_, fun _ hvalid => absurd hinvalid hvalid, fun hgiven hsafe => ?_⟩
    · rw [hmem] at hnot
      rw [hown, handleSafe_snoc]
      exact ⟨hinv.safe hnot, fun hclosed => absurd hclosed (hinv.isOpen hnot hstate)⟩
    · rw [hown, handleSafe_snoc] at hsafe
      exact absurd trivial (hsafe.2 (hinv.broken (hmem.mp hgiven) hsafe.1).1)
  | lost n hown hinvalid hstate =>
    have hsafe := hinv.reconnect (.refl _) hstate n false
    refine ⟨fun hnot => ?_, fun _ hvalid => absurd hinvalid hvalid, fun hmem hsafe' => ?_⟩
    · rw [hown, abandoned_reconnect] at hnot
      exact hown ▸ hsafe.mpr hnot
    · rw [hown, abandoned_reconnect] at hmem
      exact absurd hmem (hsafe.mp (hown ▸ hsafe'))
  | abandoned d n hdrv hown hstate' hstate =>
    have hmem : .abandoned ∈ db'.drv.own := by simp [hown]
    refine ⟨fun hnot => absurd hmem hnot, fun hnot => absurd hmem hnot, fun _ _ => ⟨?_, hstate'⟩⟩
    rw [hown, ← List.append_assoc, handleClosed_snoc, handleClosed_reconnect]
    exact .inr ⟨rfl, nofun⟩

theorem handleInv_path (hpath : LayerPath (mysqlDriver client) (fun _ _ => True) db db') : HandleInv db → HandleInv db' :=
  hpath.invariant fun _ _ hstep => hstep.handle.inv

theorem handleInv_create {counters : SbCounterType → ℕ} (hcreate : dbConnectionCreate (mysqlDriver client) counters [] = some db₀) :
    HandleInv db₀ := by
  have hconnect : (mysqlDrvConnect client { own := [] }).1 = false →
      (mysqlDrvConnect client { own := [] }).2.own = [.realConnect true] := by
    unfold mysqlDrvConnect
    cases client.connects [] <;> simp [DrvState.call]
  have hown : db₀.drv.own = [.realConnect true] := by
    obtain ⟨hok, rfl⟩ := dbConnectionCreate_eq hcreate
    exact hconnect hok
  have hsafe : HandleSafe ([] ++ [.realConnect true]) := handleSafe_snoc.mpr ⟨handleSafe_nil, fun _ => id⟩
  have hopen : ¬HandleClosed ([] ++ [.realConnect true]) := fun h => by
    rcases handleClosed_snoc.mp h with h | h
    · cases h
    · exact h.2 rfl
  refine ⟨fun _ => hown ▸ hsafe, fun _ _ => hown ▸ hopen, fun hmem => ?_⟩
  simp [hown] at hmem

theorem handleInv_reach {counters : SbCounterType → ℕ} (hcreate : dbConnectionCreate (mysqlDriver client) counters [] = some db₀)
    (hreach : Reach DbCall.Legal (DbCall.next (mysqlDriver client)) db₀ db) : HandleInv db := by
  refine hreach.invariant (handleInv_create hcreate) fun db c hinv _ => ?_
  have hexec : HandleInv (c.exec (mysqlDriver client) db).2 := handleInv_path (c.exec_path c.fits_any) hinv
  exact ⟨hexec.safe, hexec.isOpen, hexec.broken⟩

/-- As long as no reconnection is given up that handles an error, no call is made on a closed handle. Once one has been, such a
call is made by the time the connection is freed. -/
theorem handleSafe_iff {counters : SbCounterType → ℕ} (hcreate : dbConnectionCreate (mysqlDriver client) counters [] = some db₀)
    (hreach : Reach DbCall.Legal (DbCall.next (mysqlDriver client)) db₀ db) :
    (.abandoned ∉ db.drv.own → HandleSafe db.drv.own) ∧
    (HandleSafe (dbConnectionFree (mysqlDriver client) db).drv.own ↔
      .abandoned ∉ (dbConnectionFree (mysqlDriver client) db).drv.own) := by
  have hinv := handleInv_reach hcreate hreach
  have hfree : HandleInv (dbConnectionFree (mysqlDriver client) db) := handleInv_path dbConnectionFree_path hinv
  have hinvalid : (dbConnectionFree (mysqlDriver client) db).state = .invalid := by
    unfold dbConnectionFree dbConnectionClose
    split <;> simp_all
  exact ⟨hinv.safe, fun hsafe hmem => (hfree.broken hmem hsafe).2 hinvalid, hfree.safe⟩

/-- A query is sent on a connection that stays open. -/
theorem handleSafe_iff_query : ∃ db₀ db, dbConnectionCreate (mysqlDriver {}) (fun _ => 0) [] = some db₀ ∧
    Reach DbCall.Legal (DbCall.next (mysqlDriver {})) db₀ db ∧ db.drv.own.length = 6 ∧ HandleSafe db.drv.own :=
  have hreach := Reach.start.call (.query []) ⟨rfl, nofun⟩
  ⟨_, _, rfl, hreach, rfl, (handleSafe_iff rfl hreach).1 (by decide)⟩

/-- After a reconnection that is given up the connection is closed once more. -/
theorem not_handleSafe_lost : ∃ db₀ db, dbConnectionCreate (mysqlDriver lostClient) (fun _ => 0) [] = some db₀ ∧
    Reach DbCall.Legal (DbCall.next (mysqlDriver lostClient)) db₀ db ∧ ¬HandleSafe db.drv.own := by
  refine ⟨_, _, rfl, (Reach.start.call (.query []) ⟨rfl, nofun⟩).call .connectionFree ⟨rfl, nofun⟩, fun h => ?_⟩
  refine h [.realConnect true, .realQuery [] true, .errno 2006, .sqlstate, .error, .close, .realConnect false, .abandoned] .close
    [] (by decide) ⟨[.realConnect true, .realQuery [] true, .errno 2006, .sqlstate, .error], [.realConnect false, .abandoned],
    rfl, by decide⟩ trivial

end NuKSM.Sysbench
