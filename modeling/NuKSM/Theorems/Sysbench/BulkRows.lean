import NuKSM.Theorems.Sysbench.BulkBuffer

/-! # The rows of a bulk insert

Each row that `db_bulk_insert_next` takes is sent in one INSERT, in order, and committed in time. -/

namespace NuKSM.Sysbench
variable {σ : Type} {drv : Driver σ} {db db' db₀ : Db σ} {b : Bulk} {isLast failed : Bool} {query row : CString}
  {rows : List CString} {buf : ℕ → Char}

/-! ### INSERTs -/

/-- The prefix, and the rows with commas between them. -/
def insertText (query : CString) (rows : List CString) : List Char := query.chars ++ [','].intercalate (rows.map CString.chars)

theorem insertText_append : insertText query (rows ++ [row]) =
    insertText query rows ++ if 0 < rows.length then ',' :: row.chars else row.chars := by
  have hjoin : ∀ l : List (List Char), [','].intercalate (l ++ [row.chars]) =
      [','].intercalate l ++ if 0 < l.length then ',' :: row.chars else row.chars := by
    intro l
    induction l with
    | nil => simp
    | cons s l ih =>
      cases l with
      | nil => simp [List.intercalate_cons_cons]
      | cons t l =>
        rw [List.cons_append, List.cons_append, List.intercalate_cons_cons, List.intercalate_cons_cons, ← List.cons_append, ih]
        simp
  unfold insertText
  rw [List.map_append, List.map_singleton, hjoin, List.length_map, List.append_assoc]

/-- Each row but the first takes a comma at least. -/
theorem length_le_insertText : rows.length ≤ (insertText query rows).length + 1 := by
  induction rows using List.reverseRecOn with
  | nil => exact Nat.zero_le _
  | append_singleton rows row ih =>
    rw [insertText_append, List.length_append, List.length_append, List.length_singleton]
    split
    · rw [List.length_cons]
      omega
    · omega

/-- An INSERT that succeeds, and whether a COMMIT that succeeds follows it. -/
structure BulkFlush where
  rows : List CString
  committed : Bool

def BulkFlush.texts (query : CString) (f : BulkFlush) : List (List Char) :=
  insertText query f.rows :: if f.committed then [commitText] else []

/-- The rows that no COMMIT follows. -/
def uncommitted (flushes : List BulkFlush) : ℕ := flushes.foldl (fun n f => if f.committed then 0 else n + f.rows.length) 0

theorem uncommitted_append (flushes : List BulkFlush) (f : BulkFlush) :
    uncommitted (flushes ++ [f]) = if f.committed then 0 else uncommitted flushes + f.rows.length :=
  List.foldl_concat ..

/-- With commits, fewer rows than a commit takes are uncommitted before each INSERT. Without, none is sent. -/
def CommitsInTime (needsCommit : Bool) (flushes : List BulkFlush) : Prop :=
  if needsCommit then ∀ l f, l ++ [f] <+: flushes → uncommitted l ≤ rowsBeforeCommit - 1
  else ∀ f ∈ flushes, f.committed = false

/-! ### The buffer -/

theorem text_strcpy (buf : ℕ → Char) (lo : ℕ) (s : List Char) :
    (List.range (lo + s.length)).map (strcpy buf lo s) = (List.range lo).map buf ++ s := by
  rw [List.range_add, List.map_append, List.map_map]
  congr 1
  · refine List.map_congr_left fun i hi => if_neg fun h => ?_
    exact absurd (List.mem_range.mp hi) (Nat.not_lt.mpr h.1)
  · refine List.ext_getElem (by simp) fun i hi hi' => ?_
    simp [strcpy, Nat.le_of_lt hi', List.getElem?_eq_getElem hi']

theorem text_comma (buf : ℕ → Char) (lo : ℕ) :
    (List.range (lo + 1)).map (Function.update buf lo ',') = (List.range lo).map buf ++ [','] := by
  rw [List.range_succ, List.map_append, List.map_singleton, Function.update_self]
  congr 1
  exact List.map_congr_left fun i hi => Function.update_of_ne (Nat.ne_of_lt (List.mem_range.mp hi)) _ _

/-- The bulk insert holds the rows behind its prefix, and has counted those that are not committed. -/
structure Bulk.Holds (query : CString) (needsCommit : Bool) (sent : ℕ) (rows : List CString) (b : Bulk) : Prop where
  sound : b.Sound
  buffer : b.buffer ≠ none
  text : b.text = insertText query rows
  values : b.values = query.chars.length
  cnt : b.cnt = rows.length
  commitMax : b.commitMax = if needsCommit then rowsBeforeCommit else 0
  commitCnt : needsCommit = true → b.commitCnt = sent ∧ sent ≤ rowsBeforeCommit - 1

variable {needsCommit : Bool} {sent n : ℕ}

theorem Bulk.length_text (h : b.buffer ≠ none) : b.text.length = b.ptr := by
  obtain ⟨buf, hbuf⟩ := Option.ne_none_iff_exists'.mp h
  simp [Bulk.text, hbuf]

theorem Bulk.holds_start (h : query.chars.length + 1 ≤ bulkPacketSize) (caps : DrvCaps) :
    (Bulk.start query caps).Holds query caps.needsCommit 0 [] where
  sound := sound_start h caps
  buffer := nofun
  text := by simpa [insertText, Bulk.text, Bulk.start] using text_strcpy (fun _ => nul) 0 query.chars
  values := rfl
  cnt := rfl
  commitMax := rfl
  commitCnt _ := ⟨rfl, Nat.zero_le _⟩

/-- Once the rows have been sent the prefix is left. -/
theorem Bulk.Holds.emptied {sent' : ℕ} (h : b.Holds query needsCommit sent rows)
    (hcommit : needsCommit = true → n = sent' ∧ sent' ≤ rowsBeforeCommit - 1) :
    (b.emptied n).Holds query needsCommit sent' [] where
  sound := h.sound.emptied n
  buffer := h.buffer
  text := by
    obtain ⟨buf, hbuf⟩ := Option.ne_none_iff_exists'.mp h.buffer
    have htext := congrArg (List.take b.values) h.text
    rw [insertText, h.values, List.take_left] at htext
    simpa [Bulk.text, Bulk.emptied, hbuf, ← List.map_take, List.take_range, insertText, ← h.values, Nat.min_eq_left h.sound.values] using htext
  values := h.values
  cnt := rfl
  commitMax := h.commitMax
  commitCnt := hcommit

/-- A row that fits joins the others. -/
theorem holds_append (h : db.bulk.Holds query needsCommit sent rows) (hbuf : db.bulk.buffer = some buf) (htakes : db.bulk.Takes row) :
    (bulkAppend row buf db).bulk.Holds query needsCommit sent (rows ++ [row]) where
  sound := bulkAppend_sound h.sound htakes
  buffer := by
    rw [bulkAppend_bulk]
    nofun
  text := by
    have htext := h.text
    rw [insertText_append, ← htext, ← h.cnt, bulkAppend_bulk, h.sound.ptr htakes]
    simp only [Bulk.text, hbuf, Option.elim, rowBuffer]
    split
    · rename_i hcnt
      rw [decide_eq_true hcnt, Bool.toNat_true, Nat.add_comm row.chars.length, ← Nat.add_assoc, text_strcpy, text_comma,
        List.append_assoc, List.singleton_append]
    · rename_i hcnt
      rw [decide_eq_false hcnt, Bool.toNat_false, Nat.add_zero, text_strcpy]
  values := by rw [bulkAppend_bulk, ← h.values]
  cnt := by rw [bulkAppend_bulk, List.length_append, ← h.cnt, List.length_singleton]
  commitMax := by rw [bulkAppend_bulk, ← h.commitMax]
  commitCnt := by
    rw [bulkAppend_bulk]
    exact h.commitCnt

/-- What a flush counts is what is not committed. -/
theorem Bulk.Holds.counted (h : b.Holds query true sent rows) : b.counted = sent + rows.length := by
  have hlen := length_text h.buffer
  have hrows : rows.length ≤ (insertText query rows).length + 1 := length_le_insertText
  have hroom := h.sound.room
  have hsent := (h.commitCnt rfl).2
  rw [← h.text, hlen] at hrows
  rw [h.sound.buflen] at hroom
  unfold bulkPacketSize at hroom
  unfold rowsBeforeCommit at hsent
  rw [Bulk.counted, (h.commitCnt rfl).1, h.cnt]
  exact Nat.mod_eq_of_lt (by omega)

/-- A flush commits what it sends if it is the last, and else where the rows are too many. -/
theorem Bulk.Holds.commits (h : b.Holds query needsCommit sent rows) (hcommits : b.Commits isLast) :
    needsCommit = true ∧ (b.emptied 0).Holds query needsCommit 0 [] := by
  have hmax := h.commitMax
  refine ⟨?_, h.emptied fun _ => ⟨rfl, Nat.zero_le _⟩⟩
  by_contra hno
  exact hcommits.1 (hmax.trans (if_neg hno))

theorem Bulk.Holds.not_commits (h : b.Holds query needsCommit sent rows) (hcommits : ¬b.Commits isLast) :
    (needsCommit = true → isLast = false) ∧
      (b.emptied (if b.commitMax = 0 then b.commitCnt else b.counted)).Holds query needsCommit (sent + rows.length) [] := by
  cases needsCommit with
  | false => exact ⟨nofun, h.emptied nofun⟩
  | true =>
    have hmax : b.commitMax = rowsBeforeCommit := h.commitMax.trans (if_pos rfl)
    have hdue : ¬(isLast = true ∨ rowsBeforeCommit ≤ b.counted) := fun hd => hcommits ⟨by rw [hmax]; decide, hmax ▸ hd⟩
    obtain ⟨hlast, hfew⟩ := not_or.mp hdue
    rw [h.counted, Nat.not_le] at hfew
    refine ⟨fun _ => Bool.eq_false_of_not_eq_true hlast, h.emptied fun _ => ⟨?_, Nat.le_sub_one_of_lt hfew⟩⟩
    rw [if_neg (by rw [hmax]; decide), h.counted]

/-! ### Logs -/

/-- The log sends the rows of the INSERTs, each once, in order, and then takes `rows`. -/
structure SentOnce (query : CString) (needsCommit : Bool) (flushes : List BulkFlush) (rows : List CString) (log : List DbEvent) : Prop where
  sent : log.filterMap DbEvent.sent? = flushes.flatMap (BulkFlush.texts query)
  accepted : log.filterMap DbEvent.accepted? = flushes.flatMap BulkFlush.rows ++ rows
  nonempty : ∀ f ∈ flushes, f.rows ≠ []
  inTime : CommitsInTime needsCommit flushes

variable {flushes : List BulkFlush} {log seg : List DbEvent}

theorem SentOnce.append (h : SentOnce query needsCommit flushes rows log) (hsent : seg.filterMap DbEvent.sent? = [])
    {rows' : List CString} (haccepted : seg.filterMap DbEvent.accepted? = rows') :
    SentOnce query needsCommit flushes (rows ++ rows') (log ++ seg) where
  sent := by rw [List.filterMap_append, hsent, List.append_nil, h.sent]
  accepted := by rw [List.filterMap_append, haccepted, h.accepted, List.append_assoc]
  nonempty := h.nonempty
  inTime := h.inTime

theorem CommitsInTime.append (h : CommitsInTime needsCommit flushes) {f : BulkFlush} (hneeds : f.committed = true → needsCommit = true)
    (hfew : needsCommit = true → uncommitted flushes ≤ rowsBeforeCommit - 1) : CommitsInTime needsCommit (flushes ++ [f]) := by
  unfold CommitsInTime at h ⊢
  split at h
  · rw [if_pos ‹_›]
    intro l f' hprefix
    rcases List.prefix_concat_iff.mp hprefix with heq | hprefix
    · rw [(List.append_inj' heq rfl).1]
      exact hfew ‹_›
    · exact h l f' hprefix
  · rw [if_neg ‹_›]
    intro f' hf'
    rcases List.mem_append.mp hf' with hf' | hf'
    · exact h f' hf'
    · rw [List.mem_singleton.mp hf']
      exact Bool.eq_false_of_not_eq_true fun hc => ‹¬_› (hneeds hc)

/-- The rows go in one INSERT. -/
theorem SentOnce.flush (h : SentOnce query needsCommit flushes rows log) (hrows : rows ≠ []) {committed : Bool}
    (hsent : seg.filterMap DbEvent.sent? = BulkFlush.texts query ⟨rows, committed⟩) (haccepted : seg.filterMap DbEvent.accepted? = [])
    (hneeds : committed = true → needsCommit = true) (hfew : needsCommit = true → uncommitted flushes ≤ rowsBeforeCommit - 1) :
    SentOnce query needsCommit (flushes ++ [⟨rows, committed⟩]) [] (log ++ seg) where
  sent := by rw [List.filterMap_append, hsent, h.sent, List.flatMap_append, List.flatMap_singleton]
  accepted := by rw [List.filterMap_append, haccepted, h.accepted, List.flatMap_append, List.flatMap_singleton]
  nonempty f hf := by
    rcases List.mem_append.mp hf with hf | hf
    · exact h.nonempty f hf
    · rw [List.mem_singleton.mp hf]
      exact hrows
  inTime := h.inTime.append hneeds hfew

/-! ### What a call keeps -/

/-- The connection has sent the rows of the INSERTs since `db₀`, and holds the others. -/
structure BulkFilled (query : CString) (needsCommit : Bool) (flushes : List BulkFlush) (rows : List CString) (db₀ db : Db σ) : Prop where
  log : ∃ log, db.log = db₀.log ++ log ∧ SentOnce query needsCommit flushes rows log
  holds : db.bulk.Holds query needsCommit (uncommitted flushes) rows
  isOpen : db.state ≠ .invalid

/-- Every row since `db₀` has been sent, and committed. -/
structure BulkDrained (query : CString) (needsCommit : Bool) (flushes : List BulkFlush) (db₀ db : Db σ) : Prop where
  log : ∃ log, db.log = db₀.log ++ log ∧ SentOnce query needsCommit flushes [] log
  buffer : db.bulk.buffer = none
  cnt : db.bulk.cnt = 0
  committed : needsCommit = true → ∀ f ∈ flushes.getLast?, f.committed = true

/-- A COMMIT is due after an INSERT that succeeds, and fails. -/
def CommitLost (drv : Driver σ) (isLast : Bool) (db : Db σ) : Prop :=
  db.bulk.cnt ≠ 0 ∧ Answers drv db.bulk.text db ∧ db.bulk.Commits isLast ∧ ¬Answers drv commitText (dbQuery drv db.bulk.text db).2

theorem accepted_inner (hinner : ∀ e ∈ seg, DbEvent.Inner e) : seg.filterMap DbEvent.accepted? = [] :=
  List.filterMap_eq_nil_iff.mpr fun e he => by
    cases e with
    | ret => exact (hinner _ he).elim
    | _ => rfl

/-- Operations without a query that succeeds change nothing. -/
theorem BulkFilled.sends (h : BulkFilled query needsCommit flushes rows db₀ db) (hsends : Sends [] db.bulk db db') :
    BulkFilled query needsCommit flushes rows db₀ db' := by
  obtain ⟨log, hlog, hsent⟩ := h.log
  obtain ⟨seg, hseg, hinner, htexts⟩ := hsends.log
  refine ⟨⟨log ++ seg, by rw [hseg, hlog, List.append_assoc], ?_⟩, hsends.bulk ▸ h.holds, hsends.isOpen⟩
  exact List.append_nil rows ▸ hsent.append htexts (accepted_inner hinner)

theorem BulkDrained.sends (h : BulkDrained query needsCommit flushes db₀ db) (hsends : Sends [] db.bulk db db') :
    BulkDrained query needsCommit flushes db₀ db' := by
  obtain ⟨log, hlog, hsent⟩ := h.log
  obtain ⟨seg, hseg, hinner, htexts⟩ := hsends.log
  refine ⟨⟨log ++ seg, by rw [hseg, hlog, List.append_assoc], ?_⟩, hsends.bulk ▸ h.buffer, hsends.bulk ▸ h.cnt, h.committed⟩
  exact hsent.append htexts (accepted_inner hinner)

/-- A flush that fails has sent nothing, unless a COMMIT is lost. -/
theorem BulkFilled.stuck (h : BulkFilled query needsCommit flushes rows db₀ db) (hflush : FlushCase drv isLast db true db')
    (hcommit : ¬CommitLost drv isLast db) : BulkFilled query needsCommit flushes rows db₀ db' := by
  cases hflush with
  | unsent _ _ hsends => exact h.sends hsends
  | uncommitted hcnt hanswers hdue hlost => exact absurd ⟨hcnt, hanswers, hdue, hlost⟩ hcommit

/-- A flush that succeeds sends the rows. -/
theorem BulkFilled.flushed (h : BulkFilled query needsCommit flushes rows db₀ db) (hflush : FlushCase drv isLast db false db')
    (hrows : rows ≠ []) : ∃ committed, (isLast = true → needsCommit = true → committed = true) ∧
      BulkFilled query needsCommit (flushes ++ [⟨rows, committed⟩]) [] db₀ db' := by
  obtain ⟨log, hlog, hsent⟩ := h.log
  have hfew := fun hneeds => (h.holds.commitCnt hneeds).2
  have htext := h.holds.text
  cases hflush with
  | empty hcnt => exact absurd (List.length_eq_zero_iff.mp (h.holds.cnt.symm.trans hcnt)) hrows
  | sent hcnt hanswers hlater hsends =>
    obtain ⟨hlast, hholds⟩ := h.holds.not_commits hlater
    obtain ⟨seg, hseg, hinner, htexts⟩ := hsends.log
    refine ⟨false, fun h hneeds => absurd h (by rw [hlast hneeds]; decide), ⟨log ++ seg, by rw [hseg, hlog, List.append_assoc], ?_⟩, ?_,
      hsends.isOpen⟩
    · exact hsent.flush hrows (by rw [htexts, htext]; rfl) (accepted_inner hinner) nofun hfew
    · rw [hsends.bulk, uncommitted_append]
      exact hholds
  | committed hcnt hanswers hdue hdone hsends =>
    obtain ⟨hneeds, hholds⟩ := h.holds.commits hdue
    obtain ⟨seg, hseg, hinner, htexts⟩ := hsends.log
    refine ⟨true, fun _ _ => rfl, ⟨log ++ seg, by rw [hseg, hlog, List.append_assoc], ?_⟩, ?_, hsends.isOpen⟩
    · exact hsent.flush hrows (by rw [htexts, htext]; rfl) (accepted_inner hinner) (fun _ => hneeds) hfew
    · rw [hsends.bulk, uncommitted_append]
      exact hholds

theorem BulkFilled.returns (h : BulkFilled query needsCommit flushes rows db₀ db) {c : DbCall} {r : DbRet}
    (hret : DbEvent.accepted? (.ret c r) = none) : BulkFilled query needsCommit flushes rows db₀ (db.note (.ret c r)) := by
  obtain ⟨log, hlog, hsent⟩ := h.log
  refine ⟨⟨log ++ [.ret c r], by rw [Db.note, hlog, List.append_assoc], ?_⟩, h.holds, h.isOpen⟩
  exact List.append_nil rows ▸ hsent.append rfl (List.filterMap_cons_none hret)

theorem BulkDrained.returns (h : BulkDrained query needsCommit flushes db₀ db) {c : DbCall} {r : DbRet}
    (hret : DbEvent.accepted? (.ret c r) = none) : BulkDrained query needsCommit flushes db₀ (db.note (.ret c r)) := by
  obtain ⟨log, hlog, hsent⟩ := h.log
  refine ⟨⟨log ++ [.ret c r], by rw [Db.note, hlog, List.append_assoc], ?_⟩, h.buffer, h.cnt, h.committed⟩
  exact hsent.append rfl (List.filterMap_cons_none hret)

/-- A row that is taken joins those that are held. -/
theorem BulkFilled.takes (h : BulkFilled query needsCommit flushes rows db₀ db) (hbuf : db.bulk.buffer = some buf) (htakes : db.bulk.Takes row) :
    BulkFilled query needsCommit flushes (rows ++ [row]) db₀ ((bulkAppend row buf db).note (.ret (.bulkInsertNext row) (.int 0))) := by
  obtain ⟨log, hlog, hsent⟩ := h.log
  refine ⟨⟨log ++ (rowWrites db.bulk row ++ [.ret (.bulkInsertNext row) (.int 0)]), ?_, ?_⟩, holds_append h.holds hbuf htakes,
    bulkAppend_state.trans_ne h.isOpen⟩
  · rw [Db.note, bulkAppend_log, hlog, List.append_assoc, List.append_assoc]
  · refine hsent.append ?_ ?_
    · unfold rowWrites
      split <;> rfl
    · unfold rowWrites
      split <;> rfl

/-! ### Calls -/

/-- The calls that load rows, each of which fits behind the prefix. -/
def DbCall.Loads (query : CString) : DbCall → Prop
  | bulkInsertNext row => query.chars.length + row.chars.length + 1 ≤ bulkPacketSize
  | bulkInsertDone => True
  | _ => False

/-- The call neither drops its row nor loses a COMMIT. -/
def KeepsRows (drv : Driver σ) (db : Db σ) : DbCall → Prop
  | .bulkInsertInit .. => db.state = .invalid ∨ (freePending drv db).1 = true → db.bulk.buffer = none ∧ db.bulk.cnt = 0
  | .bulkInsertNext row => db.state ≠ .invalid ∧ (freePending drv db).1 = false ∧ (¬db.bulk.Takes row → ¬CommitLost drv false db)
  | .bulkInsertDone => ¬CommitLost drv true db
  | _ => True

/-- What the rows of a bulk insert have come to. -/
inductive Loaded (query : CString) (needsCommit : Bool) (db₀ db : Db σ) : Prop
  | drained {flushes : List BulkFlush} : BulkDrained query needsCommit flushes db₀ db → Loaded query needsCommit db₀ db
  | filled {flushes : List BulkFlush} {rows : List CString} : BulkFilled query needsCommit flushes rows db₀ db →
      (rows = [] → flushes = []) → Loaded query needsCommit db₀ db

/-- What `describe` says of commits. -/
def needsCommit? (drv : Driver σ) (db : Db σ) : Bool := (drv.describe (freePending drv db).2.drv).1.elim false DrvCaps.needsCommit

theorem sentOnce_nil : SentOnce query needsCommit [] [] [] where
  sent := rfl
  accepted := rfl
  nonempty := nofun
  inTime := by
    unfold CommitsInTime
    split
    · exact fun l f hprefix => absurd (List.prefix_nil.mp hprefix) (List.append_ne_nil_of_right_ne_nil l nofun)
    · nofun

theorem InitCase.loaded (h : InitCase drv query db 0 db') {allocated : Bool}
    (hkeeps : KeepsRows drv db (.bulkInsertInit allocated query)) :
    Loaded query (needsCommit? drv db) db (db'.note (.ret (.bulkInsertInit allocated query) (.int 0))) := by
  cases h with
  | pending hpending hsends =>
    obtain ⟨hbuffer, hcnt⟩ := hkeeps (.inr hpending)
    have hdrained : BulkDrained query (needsCommit? drv db) [] db db :=
      ⟨⟨[], (List.append_nil _).symm, sentOnce_nil⟩, hbuffer, hcnt, fun _ => nofun⟩
    exact .drained ((hdrained.sends hsends).returns rfl)
  | @started db₁ caps hcaps hlen hsends =>
    obtain ⟨seg, hseg, hinner, htexts⟩ := hsends.log
    have hneeds : needsCommit? drv db = caps.needsCommit := by rw [needsCommit?, hcaps, Option.elim_some]
    have hfilled : BulkFilled query (needsCommit? drv db) [] [] db (db₁.note (.write 0 (query.chars.length + 1))) := by
      refine ⟨⟨seg ++ [.write 0 (query.chars.length + 1)], ?_, ?_⟩, ?_, hsends.isOpen⟩
      · rw [Db.note, hseg, List.append_assoc]
      · exact (sentOnce_nil.append htexts (accepted_inner hinner)).append rfl rfl
      · rw [hneeds]
        exact hsends.bulk ▸ Bulk.holds_start hlen caps
    exact .filled (hfilled.returns rfl) fun _ => rfl

/-- A flush that fails has rows to send. -/
theorem FlushCase.cnt_ne_zero (h : FlushCase drv isLast db true db') : db.bulk.cnt ≠ 0 := by
  cases h with
  | unsent hcnt => exact hcnt
  | uncommitted hcnt => exact hcnt

theorem NextCase.loaded {rc : ℤ} (hcase : NextCase drv row db rc db') (h : Loaded query needsCommit db₀ db)
    (hfits : DbCall.Loads query (.bulkInsertNext row)) (hkeeps : KeepsRows drv db (.bulkInsertNext row)) :
    Loaded query needsCommit db₀ (db'.note (.ret (.bulkInsertNext row) (.int rc))) := by
  obtain ⟨hopen, hfree, hcommit⟩ := hkeeps
  cases h with
  | drained hdrained =>
    have hnone := hdrained.buffer
    cases hcase with
    | pending hpending => exact absurd hpending (by rw [hfree]; decide)
    | refused _ _ hsends => exact .drained ((hdrained.sends hsends).returns rfl)
    | kept _ hbuffer => exact absurd (hnone.symm.trans hbuffer) nofun
    | stuck _ _ hflush => exact absurd hdrained.cnt hflush.cnt_ne_zero
    | flushed _ hbuffer => exact absurd (hnone.symm.trans hbuffer) nofun
  | @filled flushes rows hfilled hstart =>
    have hne : ∀ {rows : List CString} {flushes : List BulkFlush}, rows ++ [row] = [] → flushes = [] := fun hnil =>
      absurd hnil (List.append_ne_nil_of_right_ne_nil _ nofun)
    cases hcase with
    | pending hpending => exact absurd hpending (by rw [hfree]; decide)
    | refused _ _ hsends => exact .filled ((hfilled.sends hsends).returns rfl) hstart
    | kept _ hbuffer htakes hsends =>
      exact .filled ((hfilled.sends hsends).takes (hsends.bulk ▸ hbuffer) (hsends.bulk ▸ htakes)) hne
    | stuck _ hfull hflush => exact .filled ((hfilled.stuck hflush (hcommit hfull)).returns rfl) hstart
    | flushed _ hbuffer hfull hcnt hflush =>
      have hrows := List.length_pos_iff.mp (hfilled.holds.cnt ▸ Nat.pos_of_ne_zero hcnt)
      have hroom : db.bulk.values + row.chars.length + 1 ≤ db.bulk.buflen := by
        rw [hfilled.holds.values, hfilled.holds.sound.buflen]
        exact hfits
      obtain ⟨committed, -, hsent⟩ := hfilled.flushed hflush hrows
      exact .filled (hsent.takes (hflush.buffer.trans hbuffer) ((hflush.takes_iff hcnt).mpr hroom)) hne

theorem DoneCase.loaded {rc : ℤ} (hcase : DoneCase drv db rc db') {flushes : List BulkFlush}
    (h : BulkFilled query needsCommit flushes rows db₀ db) (hstart : rows = [] → flushes = []) (hkeeps : KeepsRows drv db .bulkInsertDone) :
    if rc = 0 then ∃ flushes, BulkDrained query needsCommit flushes db₀ (db'.note (.ret .bulkInsertDone (.int rc)))
    else Loaded query needsCommit db₀ (db'.note (.ret .bulkInsertDone (.int rc))) := by
  cases hcase with
  | stuck hflush => exact .filled ((h.stuck hflush hkeeps).returns rfl) hstart
  | @flushed db₁ hflush =>
    rw [if_pos rfl]
    by_cases hrows : rows = []
    · have hcnt : db.bulk.cnt = 0 := h.holds.cnt.trans (List.length_eq_zero_iff.mpr hrows)
      obtain rfl := hstart hrows
      subst hrows
      have hdrained : BulkDrained query needsCommit [] db₀ { db₁ with bulk.buffer := none } := by
        cases hflush with
        | empty => exact ⟨h.log, rfl, hcnt, fun _ => nofun⟩
        | sent hne => exact absurd hcnt hne
        | committed hne => exact absurd hcnt hne
      exact ⟨_, hdrained.returns rfl⟩
    · obtain ⟨committed, hcommitted, hsent⟩ := h.flushed hflush hrows
      have hdrained : BulkDrained query needsCommit (flushes ++ [⟨rows, committed⟩]) db₀ { db₁ with bulk.buffer := none } := by
        refine ⟨hsent.log, rfl, hsent.holds.cnt, fun hneeds f hf => ?_⟩
        rw [List.getLast?_concat, Option.mem_some_iff] at hf
        rw [← hf]
        exact hcommitted rfl hneeds
      exact ⟨_, hdrained.returns rfl⟩

/-! ### Runs -/

theorem loaded_init {allocated : Bool} (hinit : (dbBulkInsertInit drv allocated query db).1 = 0)
    (hkeeps : KeepsRows drv db (.bulkInsertInit allocated query)) :
    Loaded query (needsCommit? drv db) db (DbCall.next drv db (.bulkInsertInit allocated query)) := by
  change Loaded _ _ db ((dbBulkInsertInit drv allocated query db).2.note
    (.ret (.bulkInsertInit allocated query) (.int (dbBulkInsertInit drv allocated query db).1)))
  by_cases hopen : db.state = .invalid
  · obtain ⟨hbuffer, hcnt⟩ := hkeeps (.inl hopen)
    have hexec : dbBulkInsertInit drv allocated query db = (0, db) := if_pos hopen
    rw [hexec]
    exact .drained (.returns ⟨⟨[], (List.append_nil _).symm, sentOnce_nil⟩, hbuffer, hcnt, fun _ => nofun⟩ rfl)
  · have hcase := initCase drv allocated query hopen
    rw [hinit] at hcase ⊢
    exact hcase.loaded hkeeps

theorem loaded_done (h : Loaded query needsCommit db₀ db) (hkeeps : KeepsRows drv db .bulkInsertDone) :
    if (dbBulkInsertDone drv db).1 = 0 then ∃ flushes, BulkDrained query needsCommit flushes db₀ (DbCall.next drv db .bulkInsertDone)
    else Loaded query needsCommit db₀ (DbCall.next drv db .bulkInsertDone) := by
  cases h with
  | filled hfilled hstart => exact (doneCase drv hfilled.isOpen).loaded hfilled hstart hkeeps
  | @drained flushes hdrained =>
    have hexec : dbBulkInsertDone drv db = (0, { db with bulk.buffer := none }) := by
      unfold dbBulkInsertDone dbBulkDoInsert
      rw [if_pos hdrained.cnt]
      rfl
    change if (dbBulkInsertDone drv db).1 = 0 then ∃ flushes, BulkDrained query needsCommit flushes db₀
      ((dbBulkInsertDone drv db).2.note (.ret .bulkInsertDone (.int (dbBulkInsertDone drv db).1))) else _
    have hended : BulkDrained query needsCommit flushes db₀ { db with bulk.buffer := none } :=
      ⟨hdrained.log, rfl, hdrained.cnt, hdrained.committed⟩
    rw [hexec, if_pos rfl]
    exact ⟨_, hended.returns rfl⟩

/-- Once the bulk insert that `db₀` starts has ended, its rows have each been sent in one INSERT, in order, and committed. -/
def BulkSent (drv : Driver σ) (query : CString) (db₀ db : Db σ) : Prop :=
  ∃ flushes, SentOnce query (needsCommit? drv db₀) flushes [] (db₀.since (DbCall.next drv db .bulkInsertDone)) ∧
    (needsCommit? drv db₀ = true → ∀ f ∈ flushes.getLast?, f.committed = true)

/-- The rows of a bulk insert are sent where no call drops one and no COMMIT is lost. -/
theorem bulkInsert_sentOnce {allocated : Bool} (hinit : (dbBulkInsertInit drv allocated query db₀).1 = 0)
    (hstart : KeepsRows drv db₀ (.bulkInsertInit allocated query))
    (hreach : Reach (fun db c => c.Loads query ∧ KeepsRows drv db c) (DbCall.next drv)
      (DbCall.next drv db₀ (.bulkInsertInit allocated query)) db)
    (hkeeps : KeepsRows drv db .bulkInsertDone) (hdone : (dbBulkInsertDone drv db).1 = 0) : BulkSent drv query db₀ db := by
  have hloaded : Loaded query (needsCommit? drv db₀) db₀ db := by
    refine hreach.invariant (loaded_init hinit hstart) fun db c hloaded hallowed => ?_
    cases c with
    | bulkInsertNext row => exact (nextCase drv row hallowed.2.1).loaded hloaded hallowed.1 hallowed.2
    | bulkInsertDone =>
      have hstep := loaded_done hloaded hallowed.2
      split at hstep
      · obtain ⟨flushes, hdrained⟩ := hstep
        exact .drained hdrained
      · exact hstep
    | _ => exact hallowed.1.elim
  have hend := loaded_done hloaded hkeeps
  rw [if_pos hdone] at hend
  obtain ⟨flushes, hdrained⟩ := hend
  obtain ⟨log, hlog, hsent⟩ := hdrained.log
  exact ⟨flushes, since_eq hlog ▸ hsent, hdrained.committed⟩

theorem fits_rowA : DbCall.Loads ⟨[], nofun⟩ (.bulkInsertNext rowA) := by
  unfold DbCall.Loads
  decide

theorem bulkInsert_sentOnce_bulkRow : BulkSent (scripted true) ⟨[], nofun⟩ (connected true []) (bulkRow true []) := by
  have hkeeps : ¬CommitLost (scripted true) true (bulkRow true []) := by
    unfold CommitLost
    decide
  refine @bulkInsert_sentOnce _ _ _ _ _ true rfl (fun _ => ⟨rfl, rfl⟩) (.call _ .start ⟨fits_rowA, by decide, rfl, ?_⟩) hkeeps rfl
  exact fun hfull => absurd (by unfold Bulk.Takes; decide) hfull

/-- There is a row in each INSERT, and at most a COMMIT behind it. -/
theorem SentOnce.lengths (h : SentOnce query needsCommit flushes [] log) :
    flushes.length ≤ (log.filterMap DbEvent.accepted?).length ∧ flushes.length ≤ (log.filterMap DbEvent.sent?).length ∧
      (log.filterMap DbEvent.sent?).length ≤ 2 * flushes.length := by
  rw [h.sent, h.accepted, List.append_nil]
  have hnonempty := h.nonempty
  clear h
  induction flushes with
  | nil => exact ⟨le_rfl, le_rfl, le_rfl⟩
  | cons f flushes ih =>
    obtain ⟨hrows, hsent, htwo⟩ := ih fun f hf => hnonempty f (List.mem_cons_of_mem _ hf)
    have hrow := List.length_pos_iff.mpr (hnonempty f List.mem_cons_self)
    have htexts : (f.texts query).length ≤ 2 ∧ 1 ≤ (f.texts query).length := by
      unfold BulkFlush.texts
      split <;> simp
    simp only [List.flatMap_cons, List.length_append, List.length_cons]
    omega

/-- A row is lost on a connection that is closed, and a row is sent twice where the COMMIT after it fails. -/
theorem not_bulkSent :
    (∃ db₀ db, Reach (fun _ c => c.Loads ⟨[], nofun⟩) (DbCall.next (scripted false))
        (DbCall.next (scripted false) db₀ (.bulkInsertInit true ⟨[], nofun⟩)) db ∧
      (dbBulkInsertInit (scripted false) true ⟨[], nofun⟩ db₀).1 = 0 ∧ (dbBulkInsertDone (scripted false) db).1 = 0 ∧
      ¬BulkSent (scripted false) ⟨[], nofun⟩ db₀ db) ∧
    ∃ db₀ db, Reach (fun _ c => c.Loads ⟨[], nofun⟩) (DbCall.next (scripted true))
        (DbCall.next (scripted true) db₀ (.bulkInsertInit true ⟨[], nofun⟩)) db ∧
      db₀.state ≠ .invalid ∧
      (dbBulkInsertInit (scripted true) true ⟨[], nofun⟩ db₀).1 = 0 ∧ (dbBulkInsertDone (scripted true) db).1 = 0 ∧
      ¬BulkSent (scripted true) ⟨[], nofun⟩ db₀ db := by
  refine ⟨⟨DbCall.next (scripted false) (connected false []) .connectionClose, _, .call _ .start fits_rowA, rfl, rfl,
    fun ⟨flushes, hsent, _⟩ => ?_⟩, connected true [(.none, .write), (.fatal, .other)], _,
    .call .bulkInsertDone (.call _ .start fits_rowA) (show DbCall.Loads _ .bulkInsertDone from trivial), by decide, rfl, rfl,
    fun ⟨flushes, hsent, _⟩ => ?_⟩
  · have hnone : flushes.length ≤ 0 := hsent.lengths.2.1
    obtain rfl := List.length_eq_zero_iff.mp (Nat.le_zero.mp hnone)
    have haccepted : [rowA] = [] := hsent.accepted
    exact absurd haccepted nofun
  · have hone : flushes.length ≤ 1 := hsent.lengths.1
    have hthree : 3 ≤ 2 * flushes.length := hsent.lengths.2.2
    omega

end NuKSM.Sysbench
