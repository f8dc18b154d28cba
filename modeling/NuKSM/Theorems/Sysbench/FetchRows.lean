import NuKSM.Sysbench.PgsqlDriver
import NuKSM.Sysbench.SqlApi
import NuKSM.Theorems.Sysbench.MysqlCalls
import NuKSM.Theorems.Sysbench.DbCalls

/-! # Fetching the rows of a query

What a script gets that fetches row after row, with the drivers of MySQL and PostgreSQL. -/

namespace NuKSM.Sysbench
variable {σ : Type} {drv : Driver σ} {db db' : Db σ}

/-- A row as the scripts see it. -/
abbrev Row := List (Option (List Char))

/-- What the `k`-th fetch returns, from zero on. -/
def fetched (drv : Driver σ) (db : Db σ) (k : ℕ) : Option Row :=
  (resultFetchRow drv ((fun db => (resultFetchRow drv db).2)^[k] db)).1

/-- The fetches return the rows in order, each once, and then nothing more. -/
def FetchesRows (drv : Driver σ) (db : Db σ) (rows : List Row) : Prop := ∀ k, fetched drv db k = rows[k]?

/-- The row that a script reads from the values. -/
def rowOf (nfields : ℕ) (values : List DbValue) : Row :=
  (List.range nfields).map fun i => (values.getD i ⟨0, none⟩).ptr.map (·.take (values.getD i ⟨0, none⟩).len)

/-! ### A fetch -/

theorem resultFetchRow_eq (hstate : db.state = .resultSet) (hrows : db.drv.nrows ≠ 0) (hfields : db.drv.nfields ≠ 0)
    {values : List DbValue} {d : DrvState σ}
    (hfetch : drv.fetchRow (db.values.getD (List.replicate db.drv.nfields ⟨0, none⟩)) db.drv = ((false, values), d)) :
    resultFetchRow drv db =
      (some (rowOf d.nfields values), { db with drv := d, values := some values, log := db.log ++ [.op .fetchRow false] }) := by
  unfold resultFetchRow dbFetchRow
  rw [if_neg (by rw [hstate]; decide), if_neg (not_not.mpr hstate), if_neg (not_or.mpr ⟨hrows, hfields⟩)]
  simp [Db.invoke, hfetch, rowOf]

/-- Where the fetches of the driver never fail and keep the size of the result set, each of them returns a row. -/
theorem fetched_isSome (hfetch : ∀ values d, (drv.fetchRow values d).1.1 = false ∧
      (drv.fetchRow values d).2.nrows = d.nrows ∧ (drv.fetchRow values d).2.nfields = d.nfields)
    (hstate : db.state = .resultSet) (hrows : db.drv.nrows ≠ 0) (hfields : db.drv.nfields ≠ 0) (k : ℕ) :
    (fetched drv db k).isSome := by
  unfold fetched
  induction k generalizing db with
  | zero =>
    rw [Function.iterate_zero, id, resultFetchRow_eq hstate hrows hfields (Prod.ext (Prod.ext (hfetch _ _).1 rfl) rfl)]
    rfl
  | succ k ih =>
    obtain ⟨hok, hnrows, hnfields⟩ := hfetch (db.values.getD (List.replicate db.drv.nfields ⟨0, none⟩)) db.drv
    rw [Function.iterate_succ_apply, resultFetchRow_eq hstate hrows hfields (Prod.ext (Prod.ext hok rfl) rfl)]
    exact ih hstate (hnrows.trans_ne hrows) (hnfields.trans_ne hfields)

/-! ### Cursors -/

/-- `At k` is where the driver stands after `k` fetches of a result set with the rows. Behind the last row it returns the values
that it is given. -/
structure Cursor (drv : Driver σ) (rows : List Row) (At : ℕ → DrvState σ → Prop) : Prop where
  nrows : ∀ {k d}, At k d → d.nrows ≠ 0
  nfields : ∀ {k d}, At k d → d.nfields ≠ 0
  fetch : ∀ {k d} values, At k d → ∃ values' d', drv.fetchRow values d = ((false, values'), d') ∧ At (k + 1) d' ∧
    (∀ row, rows[k]? = some row → rowOf d'.nfields values' = row) ∧
    (rows[k]? = none → values' = values ∧ d'.nfields = d.nfields)

section cursor
variable {rows : List Row} {At : ℕ → DrvState σ → Prop}

/-- Past the last row the values are still those of the last row. -/
def Kept (rows : List Row) (j : ℕ) (db : Db σ) : Prop :=
  rows.length ≤ j → ∃ values, db.values = some values ∧ some (rowOf db.drv.nfields values) = rows[rows.length - 1]?

theorem Cursor.step (h : Cursor drv rows At) (hstate : db.state = .resultSet) {j : ℕ} (hat : At j db.drv) (hkept : Kept rows j db) :
    ∃ db', resultFetchRow drv db = (rows[min j (rows.length - 1)]?, db') ∧ db'.state = .resultSet ∧ At (j + 1) db'.drv ∧
      Kept rows (j + 1) db' := by
  obtain ⟨values', d', hfetch, hat', hrow, hlast⟩ := h.fetch (db.values.getD (List.replicate db.drv.nfields ⟨0, none⟩)) hat
  have heq := resultFetchRow_eq hstate (h.nrows hat) (h.nfields hat) hfetch
  have hread : some (rowOf d'.nfields values') = rows[min j (rows.length - 1)]? := by
    rcases Nat.lt_or_ge j rows.length with hj | hj
    · rw [hrow _ (List.getElem?_eq_getElem hj), min_eq_left (Nat.le_sub_one_of_lt hj), List.getElem?_eq_getElem hj]
    · obtain ⟨values, hvalues, hlastRow⟩ := hkept hj
      obtain ⟨rfl, hnfields⟩ := hlast (List.getElem?_eq_none hj)
      rw [min_eq_right (Nat.sub_le_of_le_add (hj.trans (Nat.le_succ j))), ← hlastRow, hnfields, hvalues, Option.getD_some]
  refine ⟨_, heq.trans (Prod.ext hread rfl), hstate, hat', fun hj => ⟨values', rfl, ?_⟩⟩
  rwa [min_eq_right (Nat.sub_le_of_le_add hj)] at hread

/-- The rows come in order, and then the last of them again and again. -/
theorem Cursor.fetched_eq (h : Cursor drv rows At) (hne : rows ≠ []) (hstate : db.state = .resultSet) (hat : At 0 db.drv) (k : ℕ) :
    fetched drv db k = rows[min k (rows.length - 1)]? := by
  have hrun : ∀ j db, db.state = .resultSet → At j db.drv → Kept rows j db →
      fetched drv db k = rows[min (j + k) (rows.length - 1)]? := by
    unfold fetched
    induction k with
    | zero =>
      intro j db hstate hat hkept
      obtain ⟨db', heq, -⟩ := h.step hstate hat hkept
      rw [Function.iterate_zero, id, heq, Nat.add_zero]
    | succ k ih =>
      intro j db hstate hat hkept
      obtain ⟨db', heq, hstate', hat', hkept'⟩ := h.step hstate hat hkept
      rw [Function.iterate_succ_apply, heq, ih (j + 1) db' hstate' hat' hkept', Nat.add_right_comm, Nat.add_assoc]
  have hstart : Kept rows 0 db := fun h0 => absurd (List.eq_nil_of_length_eq_zero (Nat.le_zero.mp h0)) hne
  rw [hrun 0 db hstate hat hstart, Nat.zero_add]

end cursor

theorem rowOf_map {row : Row} (value : ℕ → DbValue)
    (h : ∀ i (hi : i < row.length), (value i).ptr.map (·.take (value i).len) = row[i]) :
    rowOf row.length ((List.range row.length).map value) = row := by
  refine List.ext_getElem (by simp [rowOf]) fun i _ hi => ?_
  have hvalue : ((List.range row.length).map value).getD i ⟨0, none⟩ = value i := by
    simp [List.getD_eq_getElem?_getD, List.getElem?_range hi]
  rw [← h i hi]
  simp only [rowOf, List.getElem_map, List.getElem_range, hvalue]

/-- A query that yields a result set has reached the driver, which has one. -/
theorem dbQuery_yields {text : List Char} (h : dbQuery drv text db = (true, db')) :
    ((drv.query text (freePending drv db).2.drv).1 = .none ∧ (drv.query text (freePending drv db).2.drv).2.counter = .read) ∧
    db'.drv = (drv.query text (freePending drv db).2.drv).2 ∧ db'.state = .resultSet := by
  by_cases hr : Reaches drv db
  · rw [dbQuery_of_reaches text hr] at h
    have hready : ((freePending drv db).2.invoke (.query text) (· ≠ DbError.none) (drv.query text)).2.state = .ready :=
      freePending_ready hr.1
    have hstate := settle_state none (drv.query text (freePending drv db).2.drv).1 hready
    have hyields := congrArg Prod.fst h
    rw [settle_fst, decide_eq_true_iff] at hyields
    rw [h] at hstate
    refine ⟨hyields, ?_, hstate.trans (if_pos hyields)⟩
    exact (congrArg (Db.drv ∘ Prod.snd) h).symm.trans (settle_drv _ _)
  · rw [dbQuery_of_not_reaches text hr] at h
    cases h

/-! ### MySQL -/

section mysql
variable {client : MysqlClient} {d : Mysql}

/-- What the library documents: a result that is stored after the calls `l` has the rows `rows l`, of `nfields l` fields, and the
fetches return them in order until it is freed. -/
structure MysqlClient.Enumerates (client : MysqlClient) (rows : MysqlLog → List Row) (nfields : MysqlLog → ℕ) : Prop where
  numRows : ∀ l res, client.storeResult l = some res → client.numRows (l ++ [.storeResult (some res)]) = (rows l).length
  numFields : ∀ l res n, client.storeResult l = some res →
    client.numFields (l ++ [.storeResult (some res), .numRows res n]) = nfields l
  fetchRow : ∀ l res ext, client.storeResult l = some res → .freeResult res ∉ ext →
    client.fetchRow (l ++ .storeResult (some res) :: ext) (some res) = (rows l)[ext.count (.fetchRow (some res))]?
  nfields_lt : ∀ l, nfields l < 2 ^ 32
  length_row : ∀ l, ∀ row ∈ rows l, row.length = nfields l
  length_field : ∀ l, ∀ row ∈ rows l, ∀ field, some field ∈ row → field.length < 2 ^ 32

theorem mysqlCheckError_ne : (mysqlCheckError client d).1 ≠ .none := by
  unfold mysqlCheckError
  generalize mysqlNoteError client d = d₁
  dsimp only
  split
  · split
    · obtain ⟨n, ok, heq⟩ := mysqlDrvReconnect_spec client { d₁ with counter := .reconnect }
      rw [heq]
      cases ok <;> nofun
    · nofun
  · nofun

/-- A query that yields a result set has stored it. -/
theorem mysqlDrvQuery_yields {text : List Char} {l : MysqlLog} (hl : d.own ++ [.realQuery text false] = l)
    (h : (mysqlDrvQuery client text d).1 = .none ∧ (mysqlDrvQuery client text d).2.counter = .read) :
    ∃ res n fields, client.storeResult l = some res ∧ client.numRows (l ++ [.storeResult (some res)]) = n ∧
      client.numFields (l ++ [.storeResult (some res), .numRows res n]) = fields ∧
      (mysqlDrvQuery client text d).2 = { d with
        sql := {}, counter := .read, ptr := some res, nrows := n % 2 ^ 32, nfields := fields % 2 ^ 32,
        own := l ++ [.storeResult (some res), .numRows res n, .numFields res fields] } := by
  unfold mysqlDrvQuery at h ⊢
  dsimp only at h ⊢
  split at h
  · exact absurd h.1 mysqlCheckError_ne
  · rename_i hsent
    rw [if_neg hsent]
    split at h
    · split at h
      · exact absurd h.1 mysqlCheckError_ne
      split at h
      · exact absurd h.1 mysqlCheckError_ne
      split at h <;> cases h.2
    · rename_i res hres
      rw [Bool.not_eq_true] at hsent
      simp only [DrvState.call, hsent, hl] at hres ⊢
      refine ⟨res, _, _, hres, rfl, rfl, ?_⟩
      rw [hres]
      simp

/-- The result `res` that is stored after `l` has been fetched from `k` times. -/
def MysqlAt (l : MysqlLog) (res nrows nfields k : ℕ) (d : Mysql) : Prop :=
  d.ptr = some res ∧ d.nrows = nrows ∧ d.nfields = nfields ∧
    ∃ ext, d.own = l ++ .storeResult (some res) :: ext ∧ .freeResult res ∉ ext ∧ ext.count (.fetchRow (some res)) = k

variable {rows : MysqlLog → List Row} {nfields : MysqlLog → ℕ} {l : MysqlLog} {res : ℕ}

theorem mysql_cursor (h : client.Enumerates rows nfields) (hstore : client.storeResult l = some res)
    (hrows : (rows l).length % 2 ^ 32 ≠ 0) (hfields : nfields l ≠ 0) :
    Cursor (mysqlDriver client) (rows l) (MysqlAt l res ((rows l).length % 2 ^ 32) (nfields l)) where
  nrows hat := hat.2.1.trans_ne hrows
  nfields hat := hat.2.2.1.trans_ne hfields
  fetch := by
    rintro k d values ⟨hptr, hnrows, hnfields, ext, hown, hfree, hcount⟩
    have hrow : client.fetchRow d.own d.ptr = (rows l)[k]? := by rw [hptr, hown, h.fetchRow l res ext hstore hfree, hcount]
    have hat : MysqlAt l res ((rows l).length % 2 ^ 32) (nfields l) (k + 1)
        ((d.call (.fetchRow d.ptr)).call (.fetchLengths d.ptr)) := by
      refine ⟨hptr, hnrows, hnfields, ext ++ [.fetchRow (some res), .fetchLengths (some res)], ?_, ?_, ?_⟩
      · simp [DrvState.call, hown, hptr]
      · simp [hfree]
      · simp [hcount]
    change ∃ values' d', mysqlDrvFetchRow client values d = _ ∧ _
    unfold mysqlDrvFetchRow
    dsimp only
    rw [hrow]
    cases hk : (rows l)[k]? with
    | none => exact ⟨_, _, rfl, hat, fun row' hrow' => absurd hrow'.symm (Option.some_ne_none row'), fun _ => ⟨rfl, rfl⟩⟩
    | some row =>
      refine ⟨_, _, rfl, hat, fun row' hrow' => ?_, fun hnone => absurd hnone (Option.some_ne_none row)⟩
      obtain rfl := Option.some.inj hrow'
      have hmem := List.mem_of_getElem? hk
      have hlen := h.length_row l row hmem
      have hnf : ((d.call (.fetchRow d.ptr)).call (.fetchLengths d.ptr)).nfields = row.length := hnfields.trans hlen.symm
      rw [hnf]
      refine rowOf_map _ fun i hi => ?_
      have hfield : row.getD i none = row[i] := by simp [List.getD_eq_getElem?_getD, hi]
      rw [hfield]
      cases hvalue : row[i] with
      | none => rfl
      | some field =>
        have hlt := h.length_field l row hmem field (hvalue ▸ List.getElem_mem hi)
        simp only [Option.getD_some, Nat.mod_eq_of_lt hlt, Option.map_some, List.take_length]

variable {db db' : Db MysqlLog} {text : List Char}

/-- The calls until a query is answered. -/
def mysqlSent (client : MysqlClient) (db : Db MysqlLog) (text : List Char) : MysqlLog :=
  (freePending (mysqlDriver client) db).2.drv.own ++ [.realQuery text false]

/-- The result set of a query is the result that the library has stored. -/
theorem mysql_resultSet (h : client.Enumerates rows nfields) (hquery : dbQuery (mysqlDriver client) text db = (true, db')) :
    ∃ res, client.storeResult (mysqlSent client db text) = some res ∧ db'.state = .resultSet ∧
      MysqlAt (mysqlSent client db text) res ((rows (mysqlSent client db text)).length % 2 ^ 32)
        (nfields (mysqlSent client db text)) 0 db'.drv := by
  obtain ⟨hyields, hdrv, hstate⟩ := dbQuery_yields hquery
  generalize hl : mysqlSent client db text = l
  obtain ⟨res, n, fields, hstore, hn, hfields, heq⟩ := mysqlDrvQuery_yields hl hyields
  obtain rfl := hn.symm.trans (h.numRows l res hstore)
  obtain rfl := hfields.symm.trans (h.numFields l res _ hstore)
  refine ⟨res, hstore, hstate, ?_⟩
  rw [show db'.drv = _ from hdrv.trans heq]
  exact ⟨rfl, rfl, Nat.mod_eq_of_lt (h.nfields_lt _), _, rfl, by simp, by simp⟩

/-- What a script gets that fetches from a query with the MySQL driver. -/
theorem mysql_fetched (h : client.Enumerates rows nfields) (hquery : dbQuery (mysqlDriver client) text db = (true, db'))
    (hrows : (rows (mysqlSent client db text)).length % 2 ^ 32 ≠ 0) (hfields : nfields (mysqlSent client db text) ≠ 0) (k : ℕ) :
    fetched (mysqlDriver client) db' k =
      (rows (mysqlSent client db text))[min k ((rows (mysqlSent client db text)).length - 1)]? := by
  obtain ⟨res, hstore, hstate, hat⟩ := mysql_resultSet h hquery
  exact (mysql_cursor h hstore hrows hfields).fetched_eq (by rintro hnil; simp [hnil] at hrows) hstate hat k

end mysql

/-! ### PostgreSQL -/

section pgsql
variable {lib : PgLibrary} {d : Pgsql}

/-- What the library documents: a query after the calls `l` that returns rows returns those of `rows l`, of `nfields l` fields. -/
structure PgLibrary.Enumerates (lib : PgLibrary) (rows : PgLog → List Row) (nfields : PgLog → ℕ) : Prop where
  ntuples : ∀ l query, lib.ntuples (l ++ [.exec query (lib.exec l)]) (lib.exec l) = (rows l).length
  fields : ∀ l query, lib.nfields (l ++ [.exec query (lib.exec l)]) (lib.exec l) = nfields l
  getisnull : ∀ l query r row i field, (rows l)[r]? = some row → row[i]? = some field →
    lib.getisnull (l ++ [.exec query (lib.exec l)]) (lib.exec l) r i = field.isNone
  getlength : ∀ l query r row i field, (rows l)[r]? = some row → row[i]? = some (some field) →
    lib.getlength (l ++ [.exec query (lib.exec l)]) (lib.exec l) r i = field.length
  getvalue : ∀ l query r row i field, (rows l)[r]? = some row → row[i]? = some (some field) →
    lib.getvalue (l ++ [.exec query (lib.exec l)]) (lib.exec l) r i = field
  ntuples_lt : ∀ l, (rows l).length < 2 ^ 31
  nfields_lt : ∀ l, nfields l < 2 ^ 31
  length_row : ∀ l, ∀ row ∈ rows l, row.length = nfields l
  length_field : ∀ l, ∀ row ∈ rows l, ∀ field, some field ∈ row → field.length < 2 ^ 31

theorem signedInt_of_lt {n : ℕ} (h : n < 2 ^ 31) : signedInt n = n := if_pos h

/-- A query that yields a result set has one of the library. -/
theorem pgsqlDrvQuery_yields {text : List Char}
    (h : (pgsqlDrvQuery lib text d).1 = .none ∧ (pgsqlDrvQuery lib text d).2.counter = .read) :
    ∃ n fields, lib.ntuples (d.own ++ [.exec text (lib.exec d.own)]) (lib.exec d.own) = n ∧
      lib.nfields (d.own ++ [.exec text (lib.exec d.own)]) (lib.exec d.own) = fields ∧
      (pgsqlDrvQuery lib text d).2 = { d with
        sql := {}, counter := .read, ptr := some (lib.exec d.own), nrows := n % 2 ^ 32, nfields := fields % 2 ^ 32,
        own := d.own ++ [.exec text (lib.exec d.own)] } := by
  unfold pgsqlDrvQuery pgsqlCheckStatus at h ⊢
  dsimp only at h ⊢
  split at h
  · exact ⟨_, _, rfl, rfl, rfl⟩
  · have hread := h.2
    dsimp only at hread
    split at hread <;> cases hread
  · split at h <;> cases h.1
  · cases h.1

/-- The result of the query after `l` has been fetched from `k` times. -/
def PgAt (lib : PgLibrary) (l : PgLog) (text : List Char) (nrows nfields k : ℕ) (d : Pgsql) : Prop :=
  d.own = l ++ [.exec text (lib.exec l)] ∧ d.ptr = some (lib.exec l) ∧ d.nrows = nrows ∧ d.nfields = nfields ∧
    d.rowPtr = min k nrows

variable {statements : Driver PgLog} {rows : PgLog → List Row} {nfields : PgLog → ℕ} {l : PgLog} {text : List Char}
  {db db' : Db PgLog}

theorem pgsqlField_reads (h : lib.Enumerates rows nfields) {r i : ℕ} {row : Row} (old : DbValue) (hr : (rows l)[r]? = some row)
    (hi : i < row.length) : let value := pgsqlField lib (l ++ [.exec text (lib.exec l)]) (lib.exec l) r i old
    value.ptr.map (·.take value.len) = row[i] := by
  have hfield := List.getElem?_eq_getElem hi
  unfold pgsqlField
  rw [h.getisnull l text r row i _ hr hfield]
  cases hvalue : row[i] with
  | none => rfl
  | some field =>
    rw [hvalue] at hfield
    have hlt := h.length_field l row (List.mem_of_getElem? hr) field (List.mem_of_getElem? hfield)
    rw [h.getlength l text r row i field hr hfield, h.getvalue l text r row i field hr hfield]
    dsimp only [Option.isNone_some, Bool.false_eq_true, if_false, Option.map_some]
    rw [if_neg (by decide), Nat.mod_eq_of_lt (hlt.trans (by decide)), Option.map_some, List.take_length]

theorem pgsql_cursor (h : lib.Enumerates rows nfields) (hrows : rows l ≠ []) (hfields : nfields l ≠ 0) :
    Cursor (pgsqlDriver lib statements) (rows l) (PgAt lib l text (rows l).length (nfields l)) where
  nrows hat := hat.2.2.1.trans_ne (List.length_pos_iff.mpr hrows).ne'
  nfields hat := hat.2.2.2.1.trans_ne hfields
  fetch := by
    rintro k d values ⟨hown, hptr, hnrows, hnfields, hrow⟩
    change ∃ values' d', pgsqlDrvFetchRow lib values d = _ ∧ _
    unfold pgsqlDrvFetchRow
    rw [hnrows, hnfields, signedInt_of_lt (h.ntuples_lt l), signedInt_of_lt (h.nfields_lt l), hrow, hptr, hown,
      Option.getD_some, Int.toNat_natCast]
    rcases Nat.lt_or_ge k (rows l).length with hk | hk
    · rw [min_eq_left hk.le, if_neg (by omega)]
      refine ⟨_, _, rfl, ⟨rfl, rfl, rfl, rfl, (min_eq_left hk).symm⟩, fun row hrow' => ?_, fun hnone => ?_⟩
      · have hlen := h.length_row l row (List.mem_of_getElem? hrow')
        rw [← hlen]
        exact rowOf_map _ fun i hi => pgsqlField_reads h _ hrow' hi
      · rw [List.getElem?_eq_getElem hk] at hnone
        cases hnone
    · rw [min_eq_right hk, if_pos (by omega)]
      refine ⟨_, _, rfl, ⟨hown, hptr, hnrows, hnfields, ?_⟩, fun row hrow' => ?_, fun _ => ⟨rfl, hnfields⟩⟩
      · rw [hrow, min_eq_right hk, min_eq_right (Nat.le_succ_of_le hk)]
      · rw [List.getElem?_eq_none hk] at hrow'
        cases hrow'

/-- The calls before a query is sent. -/
def pgsqlBefore (lib : PgLibrary) (statements : Driver PgLog) (db : Db PgLog) : PgLog :=
  (freePending (pgsqlDriver lib statements) db).2.drv.own

/-- The result set of a query is the one that the library returns. -/
theorem pgsql_resultSet (h : lib.Enumerates rows nfields) (hquery : dbQuery (pgsqlDriver lib statements) text db = (true, db'))
    (hl : pgsqlBefore lib statements db = l) : db'.state = .resultSet ∧ db'.drv.own = l ++ [.exec text (lib.exec l)] ∧
      db'.drv.ptr = some (lib.exec l) ∧ db'.drv.nrows = (rows l).length ∧ db'.drv.nfields = nfields l ∧
      db'.drv.rowPtr = (freePending (pgsqlDriver lib statements) db).2.drv.rowPtr := by
  obtain ⟨hyields, hdrv, hstate⟩ := dbQuery_yields hquery
  obtain ⟨n, fields, hn, hfields, heq⟩ := pgsqlDrvQuery_yields hyields
  rw [show (freePending (pgsqlDriver lib statements) db).2.drv.own = l from hl] at hn hfields heq
  obtain rfl := hn.symm.trans (h.ntuples l text)
  obtain rfl := hfields.symm.trans (h.fields l text)
  rw [show db'.drv = _ from hdrv.trans heq]
  exact ⟨hstate, rfl, rfl, Nat.mod_eq_of_lt ((h.ntuples_lt l).trans (by decide)), Nat.mod_eq_of_lt ((h.nfields_lt l).trans (by decide)), rfl⟩

/-- What a script gets that fetches from a query with the PostgreSQL driver. -/
theorem pgsql_fetched (h : lib.Enumerates rows nfields) (hquery : dbQuery (pgsqlDriver lib statements) text db = (true, db'))
    (hl : pgsqlBefore lib statements db = l) (hstart : (freePending (pgsqlDriver lib statements) db).2.drv.rowPtr = 0)
    (hrows : rows l ≠ []) (hfields : nfields l ≠ 0) (k : ℕ) :
    fetched (pgsqlDriver lib statements) db' k = (rows l)[min k ((rows l).length - 1)]? := by
  obtain ⟨hstate, hown, hptr, hnrows, hnfields, hrow⟩ := pgsql_resultSet h hquery hl
  exact (pgsql_cursor h hrows hfields).fetched_eq hrows hstate
    ⟨hown, hptr, hnrows, hnfields, (hrow.trans hstart).trans (Nat.zero_min _).symm⟩ k

end pgsql

/-! ### The end of the rows -/

theorem mysqlDrvFetchRow_keeps (client : MysqlClient) (values : List DbValue) (d : Mysql) :
    (mysqlDrvFetchRow client values d).1.1 = false ∧ (mysqlDrvFetchRow client values d).2.nrows = d.nrows ∧
      (mysqlDrvFetchRow client values d).2.nfields = d.nfields := by
  unfold mysqlDrvFetchRow
  dsimp only
  split <;> exact ⟨rfl, rfl, rfl⟩

theorem pgsqlDrvFetchRow_keeps (lib : PgLibrary) (values : List DbValue) (d : Pgsql) :
    (pgsqlDrvFetchRow lib values d).1.1 = false ∧ (pgsqlDrvFetchRow lib values d).2.nrows = d.nrows ∧
      (pgsqlDrvFetchRow lib values d).2.nfields = d.nfields := by
  unfold pgsqlDrvFetchRow
  dsimp only
  split <;> exact ⟨rfl, rfl, rfl⟩

/-- A result set whose number of rows is lost cannot be fetched from. -/
theorem fetched_of_nrows_zero (hstate : db.state = .resultSet) (hrows : db.drv.nrows = 0) : fetched drv db 0 = none := by
  unfold fetched resultFetchRow dbFetchRow
  rw [Function.iterate_zero, id, if_neg (by rw [hstate]; decide), if_neg (not_not.mpr hstate), if_pos (.inl hrows)]
  rfl

theorem not_fetchesRows_of_isSome {rows : List Row} (h : (fetched drv db rows.length).isSome) : ¬FetchesRows drv db rows := by
  intro hfetches
  rw [hfetches, List.getElem?_eq_none le_rfl] at h
  cases h

/-- The connection holds the rows that a query with one of the drivers has yielded. -/
inductive Yielded : {σ : Type} → Driver σ → Db σ → List Row → Prop
  | mysql {client : MysqlClient} {rows : MysqlLog → List Row} {nfields : MysqlLog → ℕ} {db db' : Db MysqlLog} {text : List Char} :
      client.Enumerates rows nfields → dbQuery (mysqlDriver client) text db = (true, db') → 1 ≤ nfields (mysqlSent client db text) →
      Yielded (mysqlDriver client) db' (rows (mysqlSent client db text))
  | pgsql {lib : PgLibrary} {statements : Driver PgLog} {rows : PgLog → List Row} {nfields : PgLog → ℕ} {db db' : Db PgLog}
      {text : List Char} : lib.Enumerates rows nfields → dbQuery (pgsqlDriver lib statements) text db = (true, db') →
      1 ≤ nfields (pgsqlBefore lib statements db) →
      Yielded (pgsqlDriver lib statements) db' (rows (pgsqlBefore lib statements db))

/-- With neither driver do the fetches from a query end after its rows. -/
theorem not_fetchesRows {σ : Type} {drv : Driver σ} {db : Db σ} {rows : List Row} (h : Yielded drv db rows) (hrows : 1 ≤ rows.length) :
    ¬FetchesRows drv db rows := by
  cases h with
  | @mysql client rows nfields db db' text h hquery hfields =>
    obtain ⟨res, -, hstate, -, hnrows, hnfields, -⟩ := mysql_resultSet h hquery
    by_cases hzero : (rows (mysqlSent client db text)).length % 2 ^ 32 = 0
    · intro hfetches
      have hnone := (fetched_of_nrows_zero hstate (hnrows.trans hzero)).symm.trans (hfetches 0)
      rw [List.getElem?_eq_getElem hrows] at hnone
      cases hnone
    · exact not_fetchesRows_of_isSome (fetched_isSome (mysqlDrvFetchRow_keeps client) hstate (hnrows.trans_ne hzero)
        (hnfields.trans_ne (Nat.one_le_iff_ne_zero.mp hfields)) _)
  | @pgsql lib statements rows nfields db db' text h hquery hfields =>
    obtain ⟨hstate, -, -, hnrows, hnfields, -⟩ := pgsql_resultSet h hquery rfl
    exact not_fetchesRows_of_isSome (fetched_isSome (pgsqlDrvFetchRow_keeps lib) hstate
      (hnrows.trans_ne (Nat.one_le_iff_ne_zero.mp hrows)) (hnfields.trans_ne (Nat.one_le_iff_ne_zero.mp hfields)) _)

/-- A table with one row of one field. -/
def oneRow : List Row := [[some ['x']]]

/-- Every query has the table as its result. -/
def oneRowClient : MysqlClient where
  storeResult l := some l.length
  numRows _ := 1
  numFields _ := 1
  fetchRow l res := res.bind fun res => oneRow[(l.drop (res + 1)).count (.fetchRow (some res))]?

def oneRowLibrary : PgLibrary where
  ntuples _ _ := 1
  nfields _ _ := 1
  getisnull _ _ _ _ := false
  getlength _ _ _ _ := 1
  getvalue _ _ _ _ := ['x']

theorem oneRowClient_enumerates : oneRowClient.Enumerates (fun _ => oneRow) fun _ => 1 where
  numRows _ _ _ := rfl
  numFields _ _ _ _ := rfl
  fetchRow l res ext hstore _ := by
    obtain rfl := Option.some.inj hstore
    simp [oneRowClient, List.drop_append, List.drop_eq_nil_of_le (Nat.le_succ l.length)]
  nfields_lt _ := by decide
  length_row _ := by decide
  length_field _ row hrow field hfield := by
    obtain rfl := List.mem_singleton.mp hrow
    obtain rfl := Option.some.inj (List.mem_singleton.mp hfield)
    decide

theorem oneRow_field {r i : ℕ} {row : Row} {field : Option (List Char)} (hr : oneRow[r]? = some row) (hi : row[i]? = some field) :
    field = some ['x'] := by
  obtain rfl := List.mem_singleton.mp (List.mem_of_getElem? hr)
  exact List.mem_singleton.mp (List.mem_of_getElem? hi)

theorem oneRowLibrary_enumerates : oneRowLibrary.Enumerates (fun _ => oneRow) fun _ => 1 where
  ntuples _ _ := rfl
  fields _ _ := rfl
  getisnull l query r row i field hr hi := by rw [oneRow_field hr hi]; rfl
  getlength l query r row i field hr hi := by rw [Option.some.inj (oneRow_field hr hi)]; rfl
  getvalue l query r row i field hr hi := by rw [Option.some.inj (oneRow_field hr hi)]; rfl
  ntuples_lt _ := by decide
  nfields_lt _ := by decide
  length_row _ := by decide
  length_field _ row hrow field hfield := by
    obtain rfl := List.mem_singleton.mp hrow
    obtain rfl := Option.some.inj (List.mem_singleton.mp hfield)
    decide

/-- A driver that supports no prepared statements. -/
def noStatements : Driver PgLog where
  describe d := (none, d)
  connect d := (true, d)
  disconnect d := (1, d)
  reconnect := none
  prepare _ stmt d := ((true, stmt), d)
  bindParam _ stmt d := ((1, stmt), d)
  bindResult _ stmt d := ((1, stmt), d)
  execute _ d := (.fatal, d)
  fetchRow values d := ((true, values), d)
  freeResults _ d := (1, d)
  close _ d := (1, d)
  query _ d := (.fatal, d)

/-- The row is fetched again after it has been fetched. -/
theorem not_fetchesRows_oneRow :
    (∃ db₀ db, dbConnectionCreate (mysqlDriver oneRowClient) (fun _ => 0) [] = some db₀ ∧
      dbQuery (mysqlDriver oneRowClient) [] db₀ = (true, db) ∧ ¬FetchesRows (mysqlDriver oneRowClient) db oneRow) ∧
    ∃ db₀ db, dbConnectionCreate (pgsqlDriver oneRowLibrary noStatements) (fun _ => 0) [] = some db₀ ∧
      dbQuery (pgsqlDriver oneRowLibrary noStatements) [] db₀ = (true, db) ∧
      ¬FetchesRows (pgsqlDriver oneRowLibrary noStatements) db oneRow := by
  constructor
  · obtain ⟨db₀, hcreate, db, hquery⟩ : ∃ db₀, dbConnectionCreate (mysqlDriver oneRowClient) (fun _ => 0) [] = some db₀ ∧
      ∃ db, dbQuery (mysqlDriver oneRowClient) [] db₀ = (true, db) := ⟨_, rfl, _, rfl⟩
    exact ⟨db₀, db, hcreate, hquery, not_fetchesRows (.mysql oneRowClient_enumerates hquery le_rfl) le_rfl⟩
  · obtain ⟨db₀, hcreate, db, hquery⟩ : ∃ db₀, dbConnectionCreate (pgsqlDriver oneRowLibrary noStatements) (fun _ => 0) [] = some db₀ ∧
      ∃ db, dbQuery (pgsqlDriver oneRowLibrary noStatements) [] db₀ = (true, db) := ⟨_, rfl, _, rfl⟩
    exact ⟨db₀, db, hcreate, hquery, not_fetchesRows (.pgsql oneRowLibrary_enumerates hquery le_rfl) le_rfl⟩

/-- The second fetch from a table of one row returns the row once more. -/
theorem fetched_oneRow_again : ∃ db₀ db, dbConnectionCreate (mysqlDriver oneRowClient) (fun _ => 0) [] = some db₀ ∧
    dbQuery (mysqlDriver oneRowClient) [] db₀ = (true, db) ∧ fetched (mysqlDriver oneRowClient) db 0 = some [some ['x']] ∧
    fetched (mysqlDriver oneRowClient) db 1 = some [some ['x']] ∧ ¬FetchesRows (mysqlDriver oneRowClient) db oneRow := by
  refine ⟨_, _, rfl, rfl, rfl, rfl, fun h => ?_⟩
  cases h 1

end NuKSM.Sysbench
