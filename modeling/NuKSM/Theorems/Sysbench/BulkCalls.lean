import NuKSM.Theorems.Sysbench.DbErrors

/-! # What the calls of a bulk insert do

The queries of a flush, the ways it ends, and the ways the calls end that add a row. -/

namespace NuKSM.Sysbench
variable {σ : Type} {drv : Driver σ} {db db' : Db σ}

/-! ### The log of a bulk insert -/

/-- The text of a query that the driver answers without an error. -/
def DbEvent.sent? : DbEvent → Option (List Char)
  | op (.query text) false => some text
  | _ => none

/-- A row that `db_bulk_insert_next` takes. -/
def DbEvent.accepted? : DbEvent → Option CString
  | ret (.bulkInsertNext row) (.int 0) => some row
  | _ => none

def DbEvent.IsWrite : DbEvent → Prop
  | write .. => True
  | _ => False

/-- The events of the layer between the returns, other than writes. -/
def DbEvent.Inner : DbEvent → Prop
  | write .. | ret .. => False
  | _ => True

/-- Between the states the queries `texts` succeed, nothing is written or returned, and the bulk insert becomes `b`. -/
structure Sends (texts : List (List Char)) (b : Bulk) (db db' : Db σ) : Prop where
  log : ∃ seg, db'.log = db.log ++ seg ∧ (∀ e ∈ seg, e.Inner) ∧ seg.filterMap DbEvent.sent? = texts
  bulk : db'.bulk = b
  isOpen : db'.state ≠ .invalid

theorem Sends.refl (h : db.state ≠ .invalid) : Sends [] db.bulk db db :=
  ⟨⟨[], (List.append_nil _).symm, fun _ he => absurd he List.not_mem_nil, rfl⟩, rfl, h⟩

theorem Sends.trans {texts texts' : List (List Char)} {b b' : Bulk} {db'' : Db σ} (h : Sends texts b db db')
    (h' : Sends texts' b' db' db'') : Sends (texts ++ texts') b' db db'' := by
  obtain ⟨⟨seg, hseg, hinner, htexts⟩, -, -⟩ := h
  obtain ⟨⟨seg', hseg', hinner', htexts'⟩, hbulk', hopen⟩ := h'
  refine ⟨⟨seg ++ seg', by rw [hseg', hseg, List.append_assoc], fun e he => ?_, by rw [List.filterMap_append, htexts, htexts']⟩,
    hbulk', hopen⟩
  rcases List.mem_append.mp he with he | he
  · exact hinner e he
  · exact hinner' e he

/-- The bulk insert and the error are the layer's own. -/
theorem Sends.own {texts : List (List Char)} {b : Bulk} (h : Sends texts b db db') (error : DbError) (b' : Bulk) :
    Sends texts b' db { db' with error := error, bulk := b' } :=
  ⟨h.log, rfl, h.isOpen⟩

theorem sends_freePending (drv : Driver σ) (h : db.state ≠ .invalid) : Sends [] db.bulk db (freePending drv db).2 := by
  unfold freePending
  split
  · exact ⟨⟨[.op .freeResults _], rfl, by simp [DbEvent.Inner], rfl⟩, rfl, nofun⟩
  · exact .refl h

/-- The query reaches the driver, which answers it without an error. -/
def Answers (drv : Driver σ) (text : List Char) (db : Db σ) : Prop :=
  (freePending drv db).1 = false ∧ (drv.query text (freePending drv db).2.drv).1 = .none

instance (drv : Driver σ) (text : List Char) (db : Db σ) : Decidable (Answers drv text db) := inferInstanceAs (Decidable (_ ∧ _))

theorem settle_bulk (stmt : Option ℕ) (error : DbError) : (settle stmt error db).2.bulk = db.bulk := by
  unfold settle
  dsimp only
  split
  · split <;> rfl
  · rfl

/-- A query that is sent succeeds where the driver has no error for it. -/
theorem sends_run (text : List Char) (h : db.state = .ready) :
    Sends (if (drv.query text db.drv).1 = .none then [text] else []) db.bulk db
      (settle none (drv.query text db.drv).1 (db.invoke (.query text) (· ≠ DbError.none) (drv.query text)).2).2 := by
  refine ⟨⟨_, run_log db (.query text) none (drv.query text), ?_, ?_⟩, settle_bulk _ _, settle_valid _ _ ?_⟩
  · unfold runEvents settleEvents
    split <;> simp [DbEvent.Inner]
  · unfold runEvents settleEvents
    split <;> cases herror : (drv.query text db.drv).1 <;> simp_all [DbEvent.sent?]
  · rw [show (db.invoke (.query text) (· ≠ DbError.none) (drv.query text)).2.state = .ready from h]
    decide

/-- A query on an open connection succeeds where it is answered, and else the error is set. -/
theorem dbQuery_sends (drv : Driver σ) (db : Db σ) (text : List Char) (h : db.state ≠ .invalid) :
    Sends (if Answers drv text db then [text] else []) db.bulk db (dbQuery drv text db).2 ∧
      ((!(dbQuery drv text db).1) = true ∧ (dbQuery drv text db).2.error ≠ .none ↔ ¬Answers drv text db) := by
  have hfreed := sends_freePending drv h
  by_cases hr : Reaches drv db
  · have hanswers : Answers drv text db ↔ (drv.query text (freePending drv db).2.drv).1 = .none := and_iff_right hr.2
    have herror : (dbQuery drv text db).2.error = (drv.query text (freePending drv db).2.drv).1 := by
      rw [dbQuery_of_reaches text hr, settle_error]
    have hfst := dbQuery_fst drv db text
    refine ⟨?_, ?_⟩
    · rw [dbQuery_of_reaches text hr, if_congr hanswers rfl rfl, ← hfreed.bulk]
      exact hfreed.trans (sends_run text (freePending_ready h))
    · rw [hanswers, ← herror]
      exact ⟨And.right, fun hne => ⟨by rw [hfst hne]; rfl, hne⟩⟩
  · have hanswers : ¬Answers drv text db := fun ha => hr ⟨h, ha.1⟩
    rw [dbQuery_of_not_reaches text hr, if_neg hanswers]
    exact ⟨⟨hfreed.log, hfreed.bulk, hfreed.isOpen⟩, iff_of_true ⟨rfl, nofun⟩ hanswers⟩

/-- The bulk insert plays no part in a query. -/
theorem answers_bulk (text : List Char) (b : Bulk) : Answers drv text { db with bulk := b } ↔ Answers drv text db := by
  unfold Answers freePending
  split <;> rfl

/-! ### Flushes -/

/-- The state of a bulk insert after its rows have been sent. -/
def Bulk.emptied (b : Bulk) (commitCnt : ℕ) : Bulk := { b with ptr := b.values, cnt := 0, commitCnt := commitCnt }

/-- The rows that are not committed when the rows of the buffer have been sent. -/
def Bulk.counted (b : Bulk) : ℕ := (b.commitCnt + b.cnt) % 2 ^ 32

/-- A flush commits what it sends. -/
def Bulk.Commits (b : Bulk) (isLast : Bool) : Prop := b.commitMax ≠ 0 ∧ (isLast = true ∨ b.commitMax ≤ b.counted)

instance (b : Bulk) (isLast : Bool) : Decidable (b.Commits isLast) := inferInstanceAs (Decidable (_ ∧ _))

/-- How the COMMIT of a flush ends: whether it fails, and what it leaves. -/
inductive CommitCase (drv : Driver σ) (isLast : Bool) (db : Db σ) : Bool → Db σ → Prop
  | later {db' : Db σ} : ¬db.bulk.Commits isLast →
      Sends [] { db.bulk with commitCnt := if db.bulk.commitMax = 0 then db.bulk.commitCnt else db.bulk.counted } db db' →
      CommitCase drv isLast db false db'
  | failed {db' : Db σ} : db.bulk.Commits isLast → ¬Answers drv commitText db →
      Sends [] { db.bulk with commitCnt := db.bulk.counted } db db' → CommitCase drv isLast db true db'
  | committed {db' : Db σ} : db.bulk.Commits isLast → Answers drv commitText db →
      Sends [commitText] { db.bulk with commitCnt := 0 } db db' → CommitCase drv isLast db false db'

theorem commitCase (drv : Driver σ) (isLast : Bool) (h : db.state ≠ .invalid) :
    CommitCase drv isLast db (dbBulkCommit drv isLast db).1 (dbBulkCommit drv isLast db).2 := by
  have hcounted : Sends [] { db.bulk with commitCnt := db.bulk.counted } db { db with bulk.commitCnt := db.bulk.counted } :=
    (Sends.refl h).own db.error _
  obtain ⟨hsends, hfails⟩ := dbQuery_sends drv { db with bulk.commitCnt := db.bulk.counted } commitText h
  rw [answers_bulk] at hfails
  rw [if_congr (answers_bulk _ _) rfl rfl] at hsends
  unfold dbBulkCommit
  by_cases hmax : db.bulk.commitMax = 0
  · rw [if_neg (not_not.mpr hmax)]
    refine .later (fun hc => hc.1 hmax) ?_
    rw [if_pos hmax]
    exact .refl h
  · rw [if_pos hmax]
    dsimp only
    split
    · have hcommits : db.bulk.Commits isLast := ⟨hmax, ‹_›⟩
      split
      · have hno := hfails.mp ‹_›
        rw [if_neg hno] at hsends
        exact .failed hcommits hno (hcounted.trans hsends)
      · have hyes := not_not.mp (hfails.not.mp ‹_›)
        rw [if_pos hyes] at hsends
        have hreset := congrArg (fun b : Bulk => { b with commitCnt := 0 }) hsends.bulk
        exact .committed hcommits hyes ⟨(hcounted.trans hsends).log, hreset, hsends.isOpen⟩
    · refine .later (fun hc => ‹¬_› hc.2) ?_
      rw [if_neg hmax]
      exact hcounted

/-- How a flush ends: whether it fails, and what it leaves. -/
inductive FlushCase (drv : Driver σ) (isLast : Bool) (db : Db σ) : Bool → Db σ → Prop
  | empty : db.bulk.cnt = 0 → FlushCase drv isLast db false db
  | unsent {db' : Db σ} : db.bulk.cnt ≠ 0 → ¬Answers drv db.bulk.text db → Sends [] db.bulk db db' →
      FlushCase drv isLast db true db'
  | uncommitted {db' : Db σ} : db.bulk.cnt ≠ 0 → Answers drv db.bulk.text db → db.bulk.Commits isLast →
      ¬Answers drv commitText (dbQuery drv db.bulk.text db).2 →
      Sends [db.bulk.text] { db.bulk with commitCnt := db.bulk.counted } db db' → FlushCase drv isLast db true db'
  | sent {db' : Db σ} : db.bulk.cnt ≠ 0 → Answers drv db.bulk.text db → ¬db.bulk.Commits isLast →
      Sends [db.bulk.text] (db.bulk.emptied (if db.bulk.commitMax = 0 then db.bulk.commitCnt else db.bulk.counted)) db db' →
      FlushCase drv isLast db false db'
  | committed {db' : Db σ} : db.bulk.cnt ≠ 0 → Answers drv db.bulk.text db → db.bulk.Commits isLast →
      Answers drv commitText (dbQuery drv db.bulk.text db).2 → Sends [db.bulk.text, commitText] (db.bulk.emptied 0) db db' →
      FlushCase drv isLast db false db'

theorem flushCase (drv : Driver σ) (isLast : Bool) (h : db.state ≠ .invalid) :
    FlushCase drv isLast db (dbBulkDoInsert drv isLast db).1 (dbBulkDoInsert drv isLast db).2 := by
  obtain ⟨hsends, hfails⟩ := dbQuery_sends drv db db.bulk.text h
  unfold dbBulkDoInsert
  split
  · exact .empty ‹_›
  · rename_i hcnt
    dsimp only
    by_cases hanswers : Answers drv db.bulk.text db
    · rw [if_pos hanswers] at hsends
      rw [if_neg (hfails.not.mpr (not_not.mpr hanswers))]
      have hcommit := commitCase drv isLast hsends.isOpen
      generalize dbBulkCommit drv isLast (dbQuery drv db.bulk.text db).2 = r at hcommit ⊢
      obtain ⟨failed, db'⟩ := r
      dsimp only at hcommit ⊢
      cases hcommit with
      | later hno hnext =>
        rw [hsends.bulk] at hno hnext
        have hsent := hsends.trans hnext
        rw [if_neg (by decide)]
        refine .sent hcnt hanswers hno ?_
        rw [hnext.bulk]
        exact hsent.own _ _
      | failed hdue hno hnext =>
        rw [hsends.bulk] at hdue hnext
        exact .uncommitted hcnt hanswers hdue hno (hsends.trans hnext)
      | committed hdue hyes hnext =>
        rw [hsends.bulk] at hdue hnext
        have hsent := hsends.trans hnext
        rw [if_neg (by decide)]
        refine .committed hcnt hanswers hdue hyes ?_
        rw [hnext.bulk]
        exact hsent.own _ _
    · rw [if_neg hanswers] at hsends
      rw [if_pos (hfails.mpr hanswers)]
      exact .unsent hcnt hanswers hsends

/-- A flush with rows fails where the INSERT or the COMMIT that is due is not answered. -/
def FlushFails (drv : Driver σ) (isLast : Bool) (db : Db σ) : Prop :=
  ¬Answers drv db.bulk.text db ∨ db.bulk.Commits isLast ∧ ¬Answers drv commitText (dbQuery drv db.bulk.text db).2

theorem FlushCase.failed_iff {isLast failed : Bool} (h : FlushCase drv isLast db failed db') (hcnt : db.bulk.cnt ≠ 0) :
    failed = true ↔ FlushFails drv isLast db := by
  unfold FlushFails
  cases h with
  | empty hzero => exact absurd hzero hcnt
  | unsent _ hno => exact iff_of_true rfl (.inl hno)
  | uncommitted _ _ hdue hno => exact iff_of_true rfl (.inr ⟨hdue, hno⟩)
  | sent _ hyes hlater => exact iff_of_false nofun (not_or.mpr ⟨not_not.mpr hyes, fun hc => hlater hc.1⟩)
  | committed _ hyes _ hdone => exact iff_of_false nofun (not_or.mpr ⟨not_not.mpr hyes, fun hc => hc.2 hdone⟩)

/-- What is pending can be freed before the flush. -/
theorem dbBulkDoInsert_freePending (isLast : Bool) (h : Reaches drv db) (hcnt : db.bulk.cnt ≠ 0) :
    dbBulkDoInsert drv isLast (freePending drv db).2 = dbBulkDoInsert drv isLast db := by
  have hready : (freePending drv db).2.state = .ready := freePending_ready h.1
  have hreaches : Reaches drv (freePending drv db).2 := ⟨by rw [hready]; decide, by rw [freePending_of_ready hready]⟩
  have hbulk := (sends_freePending drv h.1).bulk
  unfold dbBulkDoInsert
  rw [hbulk, if_neg hcnt, if_neg hcnt, dbQuery_of_reaches _ hreaches, dbQuery_of_reaches _ h, freePending_of_ready hready]

/-! ### Calls -/

/-- The row fits behind what the buffer holds. -/
def Bulk.Takes (b : Bulk) (row : CString) : Prop := b.ptr + row.chars.length + 1 + (decide (0 < b.cnt)).toNat ≤ b.buflen

/-- How `db_bulk_insert_next` ends on an open connection: what it returns, and what it leaves. -/
inductive NextCase (drv : Driver σ) (row : CString) (db : Db σ) : ℤ → Db σ → Prop
  | pending {db' : Db σ} : (freePending drv db).1 = true → Sends [] db.bulk db db' → NextCase drv row db 0 db'
  | refused {db' : Db σ} : (freePending drv db).1 = false → db.bulk.buffer = none ∨ db.bulk.cnt = 0 ∧ ¬db.bulk.Takes row →
      Sends [] db.bulk db db' → NextCase drv row db 1 db'
  | kept {db' : Db σ} {buf : ℕ → Char} : (freePending drv db).1 = false → db.bulk.buffer = some buf → db.bulk.Takes row →
      Sends [] db.bulk db db' → NextCase drv row db 0 (bulkAppend row buf db')
  | stuck {db' : Db σ} : (freePending drv db).1 = false → ¬db.bulk.Takes row → FlushCase drv false db true db' →
      NextCase drv row db 1 db'
  | flushed {db' : Db σ} {buf : ℕ → Char} : (freePending drv db).1 = false → db.bulk.buffer = some buf → ¬db.bulk.Takes row →
      db.bulk.cnt ≠ 0 → FlushCase drv false db false db' → NextCase drv row db 0 (bulkAppend row buf db')

theorem nextCase (drv : Driver σ) (row : CString) (h : db.state ≠ .invalid) :
    NextCase drv row db (dbBulkInsertNext drv row db).1 (dbBulkInsertNext drv row db).2 := by
  have hfreed := sends_freePending drv h
  unfold dbBulkInsertNext
  rw [if_neg h]
  dsimp only
  split
  · exact .pending ‹_› hfreed
  · have hok : (freePending drv db).1 = false := Bool.eq_false_of_not_eq_true ‹_›
    rw [hfreed.bulk]
    split
    · exact .refused hok (.inl ‹_›) hfreed
    · split
      · have hfull : ¬db.bulk.Takes row := Nat.not_le.mpr ‹_›
        split
        · exact .refused hok (.inr ⟨‹_›, hfull⟩) hfreed
        · have hflush := flushCase drv false h
          rw [dbBulkDoInsert_freePending false ⟨h, hok⟩ ‹_›]
          cases hfailed : (dbBulkDoInsert drv false db).1 with
          | true =>
            rw [hfailed] at hflush
            exact .stuck hok hfull hflush
          | false =>
            rw [hfailed] at hflush
            exact .flushed hok ‹_› hfull ‹_› hflush
      · exact .kept hok ‹_› (Nat.not_lt.mp ‹_›) hfreed

/-- What `db_bulk_insert_init` starts from. -/
def Bulk.start (query : CString) (caps : DrvCaps) : Bulk where
  buflen := bulkPacketSize
  buffer := some (strcpy (fun _ => nul) 0 query.chars)
  ptr := query.chars.length
  values := query.chars.length
  commitMax := if caps.needsCommit then rowsBeforeCommit else 0

/-- How `db_bulk_insert_init` ends on an open connection. -/
inductive InitCase (drv : Driver σ) (query : CString) (db : Db σ) : ℤ → Db σ → Prop
  | pending {db' : Db σ} : (freePending drv db).1 = true → Sends [] db.bulk db db' → InitCase drv query db 0 db'
  | refused {db' : Db σ} : Sends [] db.bulk db db' → InitCase drv query db 1 db'
  | noMemory {db' : Db σ} : Sends [] { db.bulk with buflen := bulkPacketSize, buffer := none } db db' → InitCase drv query db 1 db'
  | started {db' : Db σ} {caps : DrvCaps} : (drv.describe (freePending drv db).2.drv).1 = some caps →
      query.chars.length + 1 ≤ bulkPacketSize → Sends [] (.start query caps) db db' →
      InitCase drv query db 0 (db'.note (.write 0 (query.chars.length + 1)))

theorem initCase (drv : Driver σ) (allocated : Bool) (query : CString) (h : db.state ≠ .invalid) :
    InitCase drv query db (dbBulkInsertInit drv allocated query db).1 (dbBulkInsertInit drv allocated query db).2 := by
  have hfreed := sends_freePending drv h
  unfold dbBulkInsertInit
  rw [if_neg h]
  dsimp only
  split
  · exact .pending ‹_› hfreed
  · have hdescribed : Sends [] db.bulk db ((freePending drv db).2.invoke .describe Option.isNone drv.describe).2 := by
      refine hfreed.trans ⟨⟨_, rfl, ?_, rfl⟩, hfreed.bulk, hfreed.isOpen⟩
      simp [DbEvent.Inner]
    split
    · exact .refused hdescribed
    split
    · exact .refused hdescribed
    split
    · exact .noMemory ⟨hdescribed.log, congrArg (fun b : Bulk => { b with buflen := bulkPacketSize, buffer := none })
        hdescribed.bulk, hdescribed.isOpen⟩
    · exact .started ‹_› (Nat.not_lt.mp ‹_›) (hdescribed.own _ (.start query _))

/-- How `db_bulk_insert_done` ends on an open connection. -/
inductive DoneCase (drv : Driver σ) (db : Db σ) : ℤ → Db σ → Prop
  | stuck {db' : Db σ} : FlushCase drv true db true db' → DoneCase drv db 1 db'
  | flushed {db' : Db σ} : FlushCase drv true db false db' → DoneCase drv db 0 { db' with bulk.buffer := none }

theorem doneCase (drv : Driver σ) (h : db.state ≠ .invalid) : DoneCase drv db (dbBulkInsertDone drv db).1 (dbBulkInsertDone drv db).2 := by
  have hflush := flushCase drv true h
  unfold dbBulkInsertDone
  dsimp only
  cases hfailed : (dbBulkDoInsert drv true db).1 with
  | true =>
    rw [hfailed] at hflush
    exact .stuck hflush
  | false =>
    rw [hfailed] at hflush
    exact .flushed hflush

end NuKSM.Sysbench
