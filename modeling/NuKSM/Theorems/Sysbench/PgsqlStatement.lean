import NuKSM.Lib.Reach
import NuKSM.Sysbench.PgsqlStatement

/-! # What the server gets for the parameters

A prepared statement of the PostgreSQL server is executed with the values that its parameters have then where none of them
is null and their texts fit the buffers. A null parameter never gets a null pointer. -/

namespace NuKSM.Sysbench
variable {format : DbBindType → List Char → List Char} {param : DbBind} {pvalue : ParamBuffer}

/-- The text of a value: the data of a string, and what is printed for another type. -/
def DbBind.text (format : DbBindType → List Char → List Char) (param : DbBind) : List Char :=
  match param.type with
  | .char | .varchar => param.buffer.take param.dataLen
  | .none => []
  | type => format type param.buffer

/-- Each parameter gets a null pointer if it is null and the text of its value otherwise, and nothing is written behind the
buffers. -/
structure PassesValues (format : DbBindType → List Char → List Char) (nparams : ℕ) (params : ℕ → DbBind)
    (call : ExecPrepared) : Prop where
  null : ∀ i < nparams, (params i).isNull = true → call.values i = none
  text : ∀ i < nparams, (params i).isNull = false →
    ∃ buf, call.values i = some buf ∧ cString? buf = some ((params i).text format)
  inside : ∀ w ∈ call.writes, w.2 < maxParamLength

/-- A parameter that is not null, with a text that has no zero byte and fits the buffer with one behind it. Of a parameter
without a type nothing is printed, so that the buffer has to be empty before. -/
structure ParamFits (format : DbBindType → List Char → List Char) (param : DbBind) (pvalue : ParamBuffer) : Prop where
  notNull : param.isNull = false
  noZero : nul ∉ param.text format
  short : (param.text format).length < maxParamLength
  untyped : param.type = .none → cString? (List.ofFn pvalue) = some []

/-! ### Strings in buffers -/

theorem cString?_eq_some {buf text : List Char} (h : cString? buf = some text) :
    nul ∉ text ∧ text.length < buf.length := by
  unfold cString? at h
  split at h
  case isFalse => cases h
  case isTrue hnul =>
    obtain rfl := Option.some.inj h
    refine ⟨fun hmem => by simpa using List.mem_takeWhile_imp hmem, ?_⟩
    refine lt_of_le_of_ne (List.takeWhile_prefix _).length_le fun heq => ?_
    have hall := List.takeWhile_eq_self_iff.mp ((List.takeWhile_prefix _).eq_of_length heq)
    simpa using hall nul hnul

/-- A string in a buffer ends with the first zero byte. -/
theorem cString?_append {text rest : List Char} (h : nul ∉ text) : cString? (text ++ nul :: rest) = some text := by
  have hall : ∀ c ∈ text, decide (c ≠ nul) = true := fun c hc => decide_eq_true fun heq => h (heq ▸ hc)
  unfold cString?
  rw [if_pos (by simp), List.takeWhile_append_of_pos hall, List.takeWhile_cons_of_neg (by simp), List.append_nil]

theorem store_apply {s : List Char} {copied terminator : ℕ} (k : Fin maxParamLength) :
    (pvalue.store s copied terminator).1 k =
      if (k : ℕ) = terminator then nul else if (k : ℕ) < copied then s.getD k nul else pvalue k := rfl

/-- A text that is stored with its end can be read back, and its bytes are in the buffer. -/
theorem store_text {s text : List Char} {n : ℕ} (hn : n = text.length) (hshort : text.length < maxParamLength)
    (hsame : s.take n = text) (hzero : nul ∉ text) :
    cString? (List.ofFn (pvalue.store s n n).1) = some text ∧ ∀ k ∈ (pvalue.store s n n).2, k < maxParamLength := by
  subst hn
  constructor
  · have hsplit : List.ofFn (pvalue.store s text.length text.length).1 =
        text ++ nul :: (List.ofFn pvalue).drop (text.length + 1) := by
      have hlen : (List.ofFn (pvalue.store s text.length text.length).1).length =
          (text ++ nul :: (List.ofFn pvalue).drop (text.length + 1)).length := by
        rw [List.length_append, List.length_cons, List.length_drop, List.length_ofFn, List.length_ofFn]
        omega
      refine List.ext_getElem hlen fun k hk hk' => ?_
      rw [List.getElem_ofFn, store_apply]
      rcases lt_trichotomy k text.length with hlt | rfl | hgt
      · rw [if_neg hlt.ne, if_pos hlt, List.getElem_append_left hlt]
        have hread : (s.take text.length)[k]? = text[k]? := by rw [hsame]
        rw [List.getElem?_take_of_lt hlt, List.getElem?_eq_getElem hlt] at hread
        rw [List.getD_eq_getElem?_getD, hread]
        rfl
      · rw [if_pos rfl, List.getElem_append_right le_rfl]
        simp
      · obtain ⟨d, rfl⟩ := Nat.exists_eq_add_of_lt hgt
        rw [if_neg hgt.ne', if_neg hgt.not_gt, List.getElem_append_right (by omega)]
        simp [show text.length + d + 1 - text.length = d + 1 by omega, Nat.add_right_comm]
    rw [hsplit]
    exact cString?_append hzero
  · intro k hk
    simp only [ParamBuffer.store, List.mem_append, List.mem_range, List.mem_singleton] at hk
    omega

/-! ### One execution -/

/-- What the conversion does with a parameter that is not null. -/
theorem convertParam_cases (format : DbBindType → List Char → List Char) (pvalue : ParamBuffer) (hnull : param.isNull = false) :
    (param.text format = param.buffer.take param.dataLen ∧ param.type ≠ .none ∧ convertParam format param pvalue =
        pvalue.store param.buffer (min maxParamLength param.dataLen) param.dataLen) ∨
      (param.text format = [] ∧ param.type = .none ∧ convertParam format param pvalue = (pvalue, [])) ∨
      (param.type ≠ .none ∧ convertParam format param pvalue =
        pvalue.store (param.text format) (min (maxParamLength - 1) (param.text format).length)
          (min (maxParamLength - 1) (param.text format).length)) := by
  obtain ⟨type, buffer, dataLen, maxLen, isNull⟩ := param
  obtain rfl : isNull = false := hnull
  cases type
  case none => exact .inr (.inl ⟨rfl, rfl, rfl⟩)
  case char | varchar => exact .inl ⟨rfl, nofun, rfl⟩
  all_goals exact .inr (.inr ⟨nofun, rfl⟩)

theorem convertParam_fits (hdata : param.dataLen ≤ param.buffer.length) (h : ParamFits format param pvalue) :
    cString? (List.ofFn (convertParam format param pvalue).1) = some (param.text format) ∧
      ∀ k ∈ (convertParam format param pvalue).2, k < maxParamLength := by
  have hshort := h.short
  rcases convertParam_cases format pvalue h.notNull with
    ⟨htext, -, heq⟩ | ⟨htext, htype, heq⟩ | ⟨-, heq⟩ <;> rw [heq]
  · have hlen : (param.text format).length = param.dataLen := by rw [htext, List.length_take, min_eq_left hdata]
    rw [min_eq_right (by omega)]
    exact store_text hlen.symm hshort htext.symm h.noZero
  · rw [htext]
    exact ⟨h.untyped htype, by simp⟩
  · have hmin : min (maxParamLength - 1) (param.text format).length = (param.text format).length := by omega
    rw [hmin]
    exact store_text rfl hshort List.take_length h.noZero

/-- A parameter whose whole text is in the buffer fits. -/
theorem fits_of_convertParam (hnull : param.isNull = false)
    (htext : cString? (List.ofFn (convertParam format param pvalue).1) = some (param.text format)) :
    ParamFits format param pvalue := by
  obtain ⟨hzero, hshort⟩ := cString?_eq_some htext
  rw [List.length_ofFn] at hshort
  refine ⟨hnull, hzero, hshort, fun htype => ?_⟩
  rcases convertParam_cases format pvalue hnull with ⟨-, hne, -⟩ | ⟨hempty, -, heq⟩ | ⟨hne, -⟩
  · exact absurd htype hne
  · rw [heq, hempty] at htext
    exact htext
  · exact absurd htype hne

/-- The data of every parameter is all in its buffer. -/
def HasData (params : ℕ → DbBind) : Prop := ∀ i, (params i).dataLen ≤ (params i).buffer.length

theorem mem_writes {stmt : PgStmt} {i k : ℕ} (hi : i < stmt.nparams)
    (hk : k ∈ (convertParam format (stmt.boundParam i) (stmt.pvalues i)).2) :
    (i, k) ∈ (pgsqlDrvExecute format stmt).1.writes :=
  List.mem_flatMap.mpr ⟨i, List.mem_range.mpr hi, List.mem_map.mpr ⟨k, hk, rfl⟩⟩

/-- An execution passes the values exactly if all parameters fit. -/
theorem passesValues_execute_iff {stmt : PgStmt} (hdata : HasData stmt.boundParam) :
    PassesValues format stmt.nparams stmt.boundParam (pgsqlDrvExecute format stmt).1 ↔
      ∀ i < stmt.nparams, ParamFits format (stmt.boundParam i) (stmt.pvalues i) := by
  have hvalue : ∀ i < stmt.nparams, (pgsqlDrvExecute format stmt).1.values i =
      some (List.ofFn (convertParam format (stmt.boundParam i) (stmt.pvalues i)).1) := by
    intro i hi
    simp only [pgsqlDrvExecute, if_pos hi]
  constructor
  · intro h i hi
    have hnull : (stmt.boundParam i).isNull = false := by
      by_contra hne
      have := h.null i hi (by simpa using hne)
      rw [hvalue i hi] at this
      cases this
    obtain ⟨buf, hbuf, htext⟩ := h.text i hi hnull
    rw [hvalue i hi] at hbuf
    cases hbuf
    exact fits_of_convertParam hnull htext
  · intro h
    refine ⟨fun i hi hnull => ?_, fun i hi _ => ?_, fun w hw => ?_⟩
    · rw [(h i hi).notNull] at hnull
      cases hnull
    · exact ⟨_, hvalue i hi, (convertParam_fits (hdata i) (h i hi)).1⟩
    · obtain ⟨i, hi, hmem⟩ := List.mem_flatMap.mp hw
      obtain ⟨k, hk, rfl⟩ := List.mem_map.mp hmem
      exact (convertParam_fits (hdata i) (h i (List.mem_range.mp hi))).2 k hk

/-! ### Runs -/

/-- What a program does with a statement: it gives a parameter a value, or makes it null, or it executes the statement. The
data of a string is the front part of what its buffer holds. -/
inductive StmtStep
  | update (i : ℕ) (data rest : List Char) (isNull : Bool)
  | execute

/-- The executions so far, with the parameters as they were then. -/
structure StmtRun where
  stmt : PgStmt
  calls : List ((ℕ → DbBind) × ExecPrepared)

def StmtRun.step (format : DbBindType → List Char → List Char) (run : StmtRun) : StmtStep → StmtRun
  | .update i data rest isNull =>
    let param := { run.stmt.boundParam i with buffer := data ++ rest, dataLen := data.length, isNull }
    { run with stmt := { run.stmt with boundParam := Function.update run.stmt.boundParam i param } }
  | .execute =>
    let (call, stmt) := pgsqlDrvExecute format run.stmt
    ⟨stmt, run.calls ++ [(run.stmt.boundParam, call)]⟩

/-- The statement is executed only with parameters that fit. -/
def ExecutesFitting (format : DbBindType → List Char → List Char) (run : StmtRun) (c : StmtStep) : Prop :=
  c = .execute → ∀ i < run.stmt.nparams, ParamFits format (run.stmt.boundParam i) (run.stmt.pvalues i)

/-- A statement with data for its parameters, all of whose executions were right. -/
structure RightSoFar (format : DbBindType → List Char → List Char) (nparams : ℕ) (run : StmtRun) : Prop where
  nparams_eq : run.stmt.nparams = nparams
  hasData : HasData run.stmt.boundParam
  calls : ∀ c ∈ run.calls, PassesValues format nparams c.1 c.2

theorem HasData.update {params : ℕ → DbBind} (h : HasData params) {i : ℕ} (hparam : param.dataLen ≤ param.buffer.length) :
    HasData (Function.update params i param) := by
  intro j
  rcases eq_or_ne j i with rfl | hne
  · rw [Function.update_self]
    exact hparam
  · rw [Function.update_of_ne hne]
    exact h j

/-- A step keeps the data of the parameters. -/
theorem StmtRun.step_hasData (format : DbBindType → List Char → List Char) (run : StmtRun) (c : StmtStep) (h : HasData run.stmt.boundParam) :
    (run.step format c).stmt.nparams = run.stmt.nparams ∧ HasData (run.step format c).stmt.boundParam := by
  cases c with
  | update i data rest isNull => exact ⟨rfl, h.update (by simp)⟩
  | execute => exact ⟨rfl, h⟩

theorem RightSoFar.step {nparams : ℕ} {run : StmtRun} {c : StmtStep} (h : RightSoFar format nparams run)
    (hc : ExecutesFitting format run c) : RightSoFar format nparams (run.step format c) := by
  obtain ⟨hn, hdata⟩ := run.step_hasData format c h.hasData
  refine ⟨hn.trans h.nparams_eq, hdata, fun call hcall => ?_⟩
  cases c with
  | update i data rest isNull => exact h.calls call hcall
  | execute =>
    rcases List.mem_append.mp hcall with hmem | hmem
    · exact h.calls call hmem
    · obtain rfl := List.mem_singleton.mp hmem
      rw [← h.nparams_eq]
      exact (passesValues_execute_iff h.hasData).mpr (hc rfl)

/-- What the first binding leaves. -/
theorem bindParam_eq {prepares : Bool} {fresh : ℕ → ParamBuffer} {params : ℕ → DbBind} {len : ℕ} {stmt₀ stmt : PgStmt}
    (hnew : stmt₀.prepared = false) (hbind : pgsqlDrvBindParam prepares fresh params len stmt₀ = (0, stmt)) :
    stmt.nparams = len ∧ stmt.boundParam = params := by
  unfold pgsqlDrvBindParam at hbind
  dsimp only at hbind
  rw [if_neg (by rw [hnew]; exact Bool.false_ne_true)] at hbind
  split at hbind
  case isTrue => cases hbind
  case isFalse hlen =>
    split at hbind
    · cases hbind
      exact ⟨not_not.mp hlen, rfl⟩
    · cases hbind

/-- In a run whose executions all find parameters that fit, all of them pass the values. After any run the next execution
passes them exactly if the parameters fit. -/
theorem executions_passValues {prepares : Bool} {fresh : ℕ → ParamBuffer} {params : ℕ → DbBind} {len : ℕ}
    {stmt₀ stmt : PgStmt} (hnew : stmt₀.prepared = false)
    (hbind : pgsqlDrvBindParam prepares fresh params len stmt₀ = (0, stmt)) (hdata : HasData params) :
    (∀ run, Reach (ExecutesFitting format) (StmtRun.step format) ⟨stmt, []⟩ run →
      ∀ c ∈ run.calls, PassesValues format len c.1 c.2) ∧
    ∀ run, Reach (fun _ _ => True) (StmtRun.step format) ⟨stmt, []⟩ run →
      (PassesValues format len run.stmt.boundParam (pgsqlDrvExecute format run.stmt).1 ↔
        ∀ i < len, ParamFits format (run.stmt.boundParam i) (run.stmt.pvalues i)) := by
  obtain ⟨hn, hbound⟩ := bindParam_eq hnew hbind
  have hstart : HasData stmt.boundParam := hbound ▸ hdata
  constructor
  · intro run hreach
    exact (hreach.invariant (I := RightSoFar format len) ⟨hn, hstart, by simp⟩ fun run c h hc => h.step hc).calls
  · intro run hreach
    obtain ⟨hrun, hdata⟩ := hreach.invariant (I := fun run => run.stmt.nparams = len ∧ HasData run.stmt.boundParam)
      ⟨hn, hstart⟩ fun run c h _ => by
        obtain ⟨hkeep, hdata⟩ := run.step_hasData format c h.2
        exact ⟨hkeep.trans h.1, hdata⟩
    rw [← hrun]
    exact passesValues_execute_iff hdata

/-- A string of one letter. -/
def letterParam : DbBind := ⟨.varchar, ['a'], 1, 1, false⟩

/-- A statement with one parameter before and after it is bound. -/
def letterStmt (prepared : Bool) : PgStmt := ⟨1, prepared, fun _ => letterParam, fun _ _ => 'x'⟩

theorem letterParam_fits (format : DbBindType → List Char → List Char) (pvalue : ParamBuffer) : ParamFits format letterParam pvalue where
  notNull := rfl
  noZero := show nul ∉ ['a'] by decide
  short := show 1 < maxParamLength by decide
  untyped := nofun

theorem letter_bound : pgsqlDrvBindParam true (fun _ _ => 'x') (fun _ => letterParam) 1 (letterStmt false) = (0, letterStmt true) :=
  rfl

theorem executions_passValues_letter : ∃ run,
    Reach (ExecutesFitting (fun _ _ => [])) (StmtRun.step fun _ _ => []) ⟨letterStmt true, []⟩ run ∧ run.calls.length = 1 ∧
      ∀ c ∈ run.calls, PassesValues (fun _ _ => []) 1 c.1 c.2 := by
  have hreach : Reach (ExecutesFitting fun _ _ => []) (StmtRun.step fun _ _ => []) ⟨letterStmt true, []⟩ _ :=
    Reach.start.call .execute fun _ i _ => letterParam_fits _ _
  exact ⟨_, hreach, rfl, (executions_passValues rfl letter_bound fun _ => le_rfl).1 _ hreach⟩

/-- A parameter that is null gets the text that it had before, and of a string of 256 bytes the end is written behind the
buffer. -/
theorem not_executions_passValues :
    (∃ run, Reach (fun _ _ => True) (StmtRun.step fun _ _ => []) ⟨letterStmt true, []⟩ run ∧ ∃ c ∈ run.calls,
      (c.1 0).isNull = true ∧ (∃ buf, c.2.values 0 = some buf ∧ cString? buf = some ['a']) ∧
        ¬PassesValues (fun _ _ => []) 1 c.1 c.2) ∧
    ∃ run, Reach (fun _ _ => True) (StmtRun.step fun _ _ => []) ⟨letterStmt true, []⟩ run ∧ ∃ c ∈ run.calls,
      (c.1 0).isNull = false ∧ (c.1 0).dataLen = 256 ∧ (0, 256) ∈ c.2.writes ∧ ¬PassesValues (fun _ _ => []) 1 c.1 c.2 := by
  have hlong : (List.replicate 256 'a').length = 256 := List.length_replicate
  let stmt : PgStmt := (StmtRun.step (fun _ _ => []) ⟨letterStmt true, []⟩ (.update 0 (List.replicate 256 'a') [] false)).stmt
  have hwrite : (0, 256) ∈ (pgsqlDrvExecute (fun _ _ => []) stmt).1.writes :=
    mem_writes one_pos (List.mem_append_right _ (List.mem_singleton.mpr hlong.symm))
  refine ⟨⟨_, ((Reach.start.call .execute trivial).call (.update 0 ['a'] [] true) trivial).call .execute trivial, _,
    List.mem_append_right _ List.mem_cons_self, rfl, ⟨_, rfl, ?_⟩, fun h => ?_⟩,
    _, (Reach.start.call (.update 0 (List.replicate 256 'a') [] false) trivial).call .execute trivial,
    (stmt.boundParam, (pgsqlDrvExecute (fun _ _ => []) stmt).1), List.mem_append_right _ List.mem_cons_self, rfl, hlong,
    hwrite, fun h => ?_⟩
  · exact (convertParam_fits le_rfl (letterParam_fits (fun _ _ => []) fun _ => 'x')).1
  · cases h.null 0 one_pos rfl
  · exact absurd (h.inside _ hwrite) (lt_irrefl 256)

end NuKSM.Sysbench
