import NuKSM.Theorems.Sysbench.BulkCalls

/-! # The bounds of the bulk buffer

Where the calls of a bulk insert write, and which rows they reject. -/

namespace NuKSM.Sysbench
variable {σ : Type} {drv : Driver σ} {db db' db₁ : Db σ} {b : Bulk} {isLast failed : Bool} {row : CString}
  {buf : ℕ → Char}

/-! ### The fields of a bulk insert -/

/-- The position is behind the prefix, with room for the end of the string. -/
structure Bulk.Sound (b : Bulk) : Prop where
  buflen : b.buflen = bulkPacketSize
  values : b.values ≤ b.ptr
  start : b.cnt = 0 → b.ptr = b.values
  room : b.ptr + 1 ≤ b.buflen

theorem Bulk.Sound.emptied (h : b.Sound) (n : ℕ) : (b.emptied n).Sound where
  buflen := h.buflen
  values := le_rfl
  start _ := rfl
  room := (Nat.succ_le_succ h.values).trans h.room

theorem Bulk.sound_start {query : CString} (h : query.chars.length + 1 ≤ bulkPacketSize) (caps : DrvCaps) :
    (Bulk.start query caps).Sound :=
  ⟨rfl, le_rfl, fun _ => rfl, h⟩

/-! ### Flushes -/

theorem FlushCase.sends (h : FlushCase drv isLast db failed db') (hopen : db.state ≠ .invalid) :
    ∃ texts, Sends texts db'.bulk db db' := by
  cases h with
  | empty => exact ⟨_, .refl hopen⟩
  | unsent _ _ hsends => exact ⟨_, hsends.bulk ▸ hsends⟩
  | uncommitted _ _ _ _ hsends => exact ⟨_, hsends.bulk ▸ hsends⟩
  | sent _ _ _ hsends => exact ⟨_, hsends.bulk ▸ hsends⟩
  | committed _ _ _ _ hsends => exact ⟨_, hsends.bulk ▸ hsends⟩

/-- A flush leaves the buffer, and if it succeeds no rows in it. -/
theorem FlushCase.bulk (h : FlushCase drv isLast db failed db') :
    ∃ n, db'.bulk = if failed ∨ db.bulk.cnt = 0 then { db.bulk with commitCnt := n } else db.bulk.emptied n := by
  cases h with
  | empty hcnt => exact ⟨db.bulk.commitCnt, (if_pos (.inr hcnt)).symm⟩
  | unsent _ _ hsends => exact ⟨db.bulk.commitCnt, hsends.bulk.trans (if_pos (.inl rfl)).symm⟩
  | uncommitted _ _ _ _ hsends => exact ⟨_, hsends.bulk.trans (if_pos (.inl rfl)).symm⟩
  | sent hcnt _ _ hsends => exact ⟨_, hsends.bulk.trans (if_neg (by simpa using hcnt)).symm⟩
  | committed hcnt _ _ _ hsends => exact ⟨_, hsends.bulk.trans (if_neg (by simpa using hcnt)).symm⟩

theorem FlushCase.buffer (h : FlushCase drv isLast db failed db') : db'.bulk.buffer = db.bulk.buffer := by
  obtain ⟨n, hbulk⟩ := h.bulk
  rw [hbulk]
  split <;> rfl

theorem FlushCase.sound (h : FlushCase drv isLast db failed db') (hsound : db.bulk.Sound) : db'.bulk.Sound := by
  obtain ⟨n, hbulk⟩ := h.bulk
  rw [hbulk]
  split
  · exact ⟨hsound.buflen, hsound.values, hsound.start, hsound.room⟩
  · exact hsound.emptied n

/-- After a flush that succeeds the next row is the first. -/
theorem FlushCase.takes_iff (h : FlushCase drv isLast db false db') (hcnt : db.bulk.cnt ≠ 0) :
    db'.bulk.Takes row ↔ db.bulk.values + row.chars.length + 1 ≤ db.bulk.buflen := by
  obtain ⟨n, hbulk⟩ := h.bulk
  rw [hbulk, if_neg (by simpa using hcnt)]
  rfl

/-! ### Rows -/

/-- What a row writes. -/
def rowWrites (b : Bulk) (row : CString) : List DbEvent :=
  if 0 < b.cnt then [.write b.ptr 1, .write (b.ptr + 1) (row.chars.length + 1)] else [.write b.ptr (row.chars.length + 1)]

theorem bulkAppend_log : (bulkAppend row buf db).log = db.log ++ rowWrites db.bulk row := by
  unfold bulkAppend rowWrites
  dsimp only
  split
  · exact List.append_assoc _ _ _
  · rfl

/-- A row that fits is written within the buffer. -/
theorem rowWrites_within (h : b.Takes row) {lo n : ℕ} (hmem : .write lo n ∈ rowWrites b row) : lo + n ≤ b.buflen := by
  unfold Bulk.Takes at h
  unfold rowWrites at hmem
  split at hmem
  · rename_i hcnt
    rw [decide_eq_true hcnt, Bool.toNat_true] at h
    simp only [List.mem_cons, DbEvent.write.injEq, List.not_mem_nil, or_false] at hmem
    omega
  · rename_i hcnt
    rw [decide_eq_false hcnt, Bool.toNat_false] at h
    simp only [List.mem_cons, DbEvent.write.injEq, List.not_mem_nil, or_false] at hmem
    omega

/-- The buffer with a row behind the others. -/
def rowBuffer (b : Bulk) (row : CString) (buf : ℕ → Char) : ℕ → Char :=
  if 0 < b.cnt then strcpy (Function.update buf b.ptr ',') (b.ptr + 1) row.chars else strcpy buf b.ptr row.chars

theorem bulkAppend_bulk : (bulkAppend row buf db).bulk = { db.bulk with
    buffer := some (rowBuffer db.bulk row buf)
    ptr := (db.bulk.ptr + (row.chars.length + (decide (0 < db.bulk.cnt)).toNat)) % 2 ^ 32
    cnt := db.bulk.cnt + 1 } := by
  unfold bulkAppend rowBuffer
  dsimp only
  split
  · rename_i hcnt
    rw [decide_eq_true hcnt]
    rfl
  · rename_i hcnt
    rw [decide_eq_false hcnt]
    rfl

/-- Where a row fits, the position does not wrap around. -/
theorem Bulk.Sound.ptr (hsound : b.Sound) (htakes : b.Takes row) :
    (b.ptr + (row.chars.length + (decide (0 < b.cnt)).toNat)) % 2 ^ 32 = b.ptr + (row.chars.length + (decide (0 < b.cnt)).toNat) := by
  have hlen := hsound.buflen
  unfold bulkPacketSize at hlen
  unfold Bulk.Takes at htakes
  exact Nat.mod_eq_of_lt (by omega)

theorem bulkAppend_sound (hsound : db.bulk.Sound) (htakes : db.bulk.Takes row) : (bulkAppend row buf db).bulk.Sound := by
  rw [bulkAppend_bulk, hsound.ptr htakes]
  unfold Bulk.Takes at htakes
  refine ⟨hsound.buflen, Nat.le_add_right_of_le hsound.values, nofun, ?_⟩
  dsimp only
  omega

theorem bulkAppend_state : (bulkAppend row buf db).state = db.state := by
  unfold bulkAppend
  dsimp only
  split <;> rfl

/-- The queries of a call write nothing. -/
theorem Sends.since {texts : List (List Char)} (h : Sends texts b db db₁) {ws : List DbEvent} (hlog : db'.log = db₁.log ++ ws)
    {lo n : ℕ} : .write lo n ∈ db.since db' ↔ .write lo n ∈ ws := by
  obtain ⟨seg, hseg, hinner, -⟩ := h.log
  rw [since_eq (hlog.trans ((congrArg (· ++ ws) hseg).trans (List.append_assoc _ _ _))), List.mem_append]
  exact or_iff_right fun hmem => hinner _ hmem

/-! ### Calls -/

/-- The calls of a bulk insert. -/
def DbCall.IsBulk : DbCall → Prop
  | bulkInsertInit .. | bulkInsertNext _ | bulkInsertDone => True
  | _ => False

/-- A call that ends so has written within the buffer, and rejected a row that does not fit behind the prefix. -/
structure BulkSafe (db : Db σ) (c : DbCall) (r : DbRet) (db' : Db σ) : Prop where
  within : ∀ lo n, .write lo n ∈ db.since db' → lo + n ≤ db'.bulk.buflen
  rejects : ∀ row, c = .bulkInsertNext row → db.bulk.buflen < db.bulk.values + row.chars.length + 1 →
    r ≠ .int 0 ∧ ∀ lo n, .write lo n ∉ db.since db'

/-- A row that does not fit behind the prefix comes where nothing but an error can follow. -/
def RowFits (drv : Driver σ) (db : Db σ) : DbCall → Prop
  | .bulkInsertNext row => db.bulk.buflen < db.bulk.values + row.chars.length + 1 →
      (freePending drv db).1 = false ∧ (db.bulk.buffer = none ∨ db.bulk.cnt = 0 ∨ FlushFails drv false db)
  | _ => True

/-- The connection is open, and where there is a buffer its fields are sound. -/
structure BulkInv (db : Db σ) : Prop where
  isOpen : db.state ≠ .invalid
  sound : db.bulk.buffer ≠ none → db.bulk.Sound

/-- What a call keeps that only sends queries. -/
theorem Sends.bulkInv {texts : List (List Char)} (h : Sends texts b db db') (hsound : b.buffer ≠ none → b.Sound) : BulkInv db' :=
  ⟨h.isOpen, h.bulk ▸ hsound⟩

theorem FlushCase.bulkInv (h : FlushCase drv isLast db failed db') (hinv : BulkInv db) : BulkInv db' := by
  obtain ⟨texts, hsends⟩ := h.sends hinv.isOpen
  exact hsends.bulkInv fun hbuffer => h.sound (hinv.sound (h.buffer ▸ hbuffer))

theorem bulkInv_append (hinv : BulkInv db) (hbuffer : db.bulk.buffer ≠ none) (htakes : db.bulk.Takes row) :
    BulkInv (bulkAppend row buf db) :=
  ⟨bulkAppend_state.trans_ne hinv.isOpen, fun _ => bulkAppend_sound (hinv.sound hbuffer) htakes⟩

/-- A row that does not fit behind the prefix does not fit anywhere. -/
theorem Bulk.Sound.not_takes (h : b.Sound) (hlong : b.buflen < b.values + row.chars.length + 1) : ¬b.Takes row := by
  have hvalues := h.values
  unfold Bulk.Takes
  omega

theorem Sends.no_writes {texts : List (List Char)} (h : Sends texts b db db') (lo n : ℕ) : .write lo n ∉ db.since db' := by
  rw [h.since (List.append_nil _).symm]
  exact List.not_mem_nil

theorem FlushCase.no_writes (h : FlushCase drv isLast db failed db') (hinv : BulkInv db) (lo n : ℕ) :
    .write lo n ∉ db.since db' := by
  obtain ⟨texts, hsends⟩ := h.sends hinv.isOpen
  exact hsends.no_writes lo n

/-- A call without writes is safe where it does not take a row that is too long. -/
theorem BulkSafe.of_no_writes {c : DbCall} {r : DbRet} (h : ∀ lo n, .write lo n ∉ db.since db')
    (hret : ∀ row, c = .bulkInsertNext row → db.bulk.buflen < db.bulk.values + row.chars.length + 1 → r ≠ .int 0) :
    BulkSafe db c r db' :=
  ⟨fun lo n hmem => absurd hmem (h lo n), fun row hc hlong => ⟨hret row hc hlong, h⟩⟩

theorem InitCase.safe {query : CString} {rc : ℤ} (h : InitCase drv query db rc db') (hinv : BulkInv db) (allocated : Bool) :
    BulkSafe db (.bulkInsertInit allocated query) (.int rc) db' ∧ BulkInv db' := by
  cases h with
  | pending _ hsends => exact ⟨.of_no_writes hsends.no_writes nofun, hsends.bulkInv hinv.sound⟩
  | refused hsends => exact ⟨.of_no_writes hsends.no_writes nofun, hsends.bulkInv hinv.sound⟩
  | noMemory hsends => exact ⟨.of_no_writes hsends.no_writes nofun, hsends.bulkInv fun hnone => absurd rfl hnone⟩
  | started _ hlen hsends =>
    have hinv' := hsends.bulkInv fun _ => Bulk.sound_start hlen _
    refine ⟨⟨fun lo n hmem => ?_, nofun⟩, hinv'.isOpen, hinv'.sound⟩
    rw [hsends.since rfl, List.mem_singleton] at hmem
    obtain ⟨rfl, rfl⟩ := DbEvent.write.inj hmem
    rw [Nat.zero_add]
    exact hlen.trans (congrArg Bulk.buflen hsends.bulk).ge

theorem DoneCase.safe {rc : ℤ} (h : DoneCase drv db rc db') (hinv : BulkInv db) :
    BulkSafe db .bulkInsertDone (.int rc) db' ∧ BulkInv db' := by
  cases h with
  | stuck hflush => exact ⟨.of_no_writes (hflush.no_writes hinv) nofun, hflush.bulkInv hinv⟩
  | flushed hflush =>
    exact ⟨.of_no_writes (hflush.no_writes hinv) nofun, (hflush.bulkInv hinv).isOpen, fun hnone => absurd rfl hnone⟩

/-- A row that the buffer takes is written within it. -/
theorem appended_safe {texts : List (List Char)} (hsends : Sends texts b db db₁) (hinv : BulkInv db₁)
    (hbuffer : db₁.bulk.buffer ≠ none) (htakes : db₁.bulk.Takes row)
    (hfits : db.bulk.values + row.chars.length + 1 ≤ db.bulk.buflen) (buf : ℕ → Char) :
    BulkSafe db (.bulkInsertNext row) (.int 0) (bulkAppend row buf db₁) ∧ BulkInv (bulkAppend row buf db₁) := by
  refine ⟨⟨fun lo n hmem => ?_, fun row' hrow hlong => ?_⟩, bulkInv_append hinv hbuffer htakes⟩
  · rw [hsends.since bulkAppend_log] at hmem
    rw [bulkAppend_bulk]
    exact rowWrites_within htakes hmem
  · obtain rfl := DbCall.bulkInsertNext.inj hrow
    exact absurd hlong (Nat.not_lt.mpr hfits)

/-- A call of `db_bulk_insert_next` is safe exactly where the row fits. -/
theorem NextCase.safe_iff {rc : ℤ} (h : NextCase drv row db rc db') (hinv : BulkInv db) :
    (BulkSafe db (.bulkInsertNext row) (.int rc) db' ↔ RowFits drv db (.bulkInsertNext row)) ∧
      (RowFits drv db (.bulkInsertNext row) → BulkInv db') := by
  have hone : ∀ row', DbCall.bulkInsertNext row = .bulkInsertNext row' →
      db.bulk.buflen < db.bulk.values + row'.chars.length + 1 → DbRet.int 1 ≠ .int 0 := nofun
  cases h with
  | pending hpending hsends =>
    refine ⟨⟨fun hsafe hlong => absurd rfl (hsafe.rejects row rfl hlong).1, fun hfits => ?_⟩, fun _ => hsends.bulkInv hinv.sound⟩
    refine .of_no_writes hsends.no_writes fun row' hrow hlong => ?_
    obtain rfl := DbCall.bulkInsertNext.inj hrow
    exact absurd (hfits hlong).1 (by rw [hpending]; decide)
  | refused hok hwhy hsends =>
    have hfits : RowFits drv db (.bulkInsertNext row) := fun _ => ⟨hok, hwhy.imp_right fun hfull => .inl hfull.1⟩
    exact ⟨iff_of_true (.of_no_writes hsends.no_writes hone) hfits, fun _ => hsends.bulkInv hinv.sound⟩
  | @kept _ buf hok hbuffer htakes hsends =>
    have hsome : db.bulk.buffer ≠ none := by rw [hbuffer]; nofun
    have hshort := fun hlong => (hinv.sound hsome).not_takes hlong htakes
    have hsafe := appended_safe hsends (hsends.bulkInv hinv.sound) (hsends.bulk ▸ hsome) (hsends.bulk ▸ htakes) (Nat.not_lt.mp hshort) buf
    exact ⟨iff_of_true hsafe.1 fun hlong => absurd hlong hshort, fun _ => hsafe.2⟩
  | stuck hok hfull hflush =>
    have hfits : RowFits drv db (.bulkInsertNext row) := fun _ =>
      ⟨hok, .inr ((em (db.bulk.cnt = 0)).imp_right fun hcnt => (hflush.failed_iff hcnt).mp rfl)⟩
    exact ⟨iff_of_true (.of_no_writes (hflush.no_writes hinv) hone) hfits, fun _ => hflush.bulkInv hinv⟩
  | @flushed _ buf hok hbuffer hfull hcnt hflush =>
    have hsome : db.bulk.buffer ≠ none := by rw [hbuffer]; nofun
    by_cases hlong : db.bulk.buflen < db.bulk.values + row.chars.length + 1
    · have hnot : ¬RowFits drv db (.bulkInsertNext row) := fun hfits => by
        rcases (hfits hlong).2 with hnone | hzero | hfails
        · exact hsome hnone
        · exact hcnt hzero
        · exact absurd ((hflush.failed_iff hcnt).mpr hfails) (by decide)
      exact ⟨iff_of_false (fun hsafe => absurd rfl (hsafe.rejects row rfl hlong).1) hnot, fun hfits => absurd hfits hnot⟩
    · obtain ⟨texts, hsends⟩ := hflush.sends hinv.isOpen
      have hshort := Nat.not_lt.mp hlong
      have hsafe := appended_safe hsends (hflush.bulkInv hinv) (hflush.buffer ▸ hsome) ((hflush.takes_iff hcnt).mpr hshort) hshort buf
      exact ⟨iff_of_true hsafe.1 fun h => absurd h hlong, fun _ => hsafe.2⟩

/-! ### Runs -/

theorem bulkSafe_iff (hinv : BulkInv db) {c : DbCall} (hc : c.IsBulk) :
    (BulkSafe db c (c.exec drv db).1 (c.exec drv db).2 ↔ RowFits drv db c) ∧ (RowFits drv db c → BulkInv (c.exec drv db).2) := by
  cases c with
  | bulkInsertInit allocated query =>
    have hsafe := (initCase drv allocated query hinv.isOpen).safe hinv allocated
    exact ⟨iff_of_true hsafe.1 trivial, fun _ => hsafe.2⟩
  | bulkInsertNext row => exact (nextCase drv row hinv.isOpen).safe_iff hinv
  | bulkInsertDone =>
    have hsafe := (doneCase drv hinv.isOpen).safe hinv
    exact ⟨iff_of_true hsafe.1 trivial, fun _ => hsafe.2⟩
  | _ => exact hc.elim

theorem bulkInv_reach {db₀ : Db σ} (hopen : db₀.state ≠ .invalid) (hbuffer : db₀.bulk.buffer = none)
    (hreach : Reach (fun db c => c.IsBulk ∧ RowFits drv db c) (DbCall.next drv) db₀ db) : BulkInv db := by
  refine hreach.invariant ⟨hopen, fun hsome => absurd hbuffer hsome⟩ fun db c hinv hallowed => ?_
  have hnext := (bulkSafe_iff hinv hallowed.1).2 hallowed.2
  exact ⟨hnext.isOpen, hnext.sound⟩

/-- In a run of bulk insert calls on an open connection, in which the rows so far fit, a call writes within the buffer and
rejects a row that is too long exactly where the row fits. -/
theorem bulkWrites_iff {db₀ : Db σ} (hopen : db₀.state ≠ .invalid) (hbuffer : db₀.bulk.buffer = none)
    (hreach : Reach (fun db c => c.IsBulk ∧ RowFits drv db c) (DbCall.next drv) db₀ db) {c : DbCall} (hc : c.IsBulk) :
    BulkSafe db c (c.exec drv db).1 (c.exec drv db).2 ↔ RowFits drv db c :=
  (bulkSafe_iff (bulkInv_reach hopen hbuffer hreach) hc).1

def rowA : CString := ⟨['a'], by decide⟩

/-- A new connection, with the answers that the queries on it get. -/
def connected (needsCommit : Bool) (answers : List (DbError × SbCounterType)) : Db (List (DbError × SbCounterType)) :=
  (Db.invoke .connect id (scripted needsCommit).connect { drv := { own := answers } }).2

/-- A row behind an empty prefix. -/
def bulkRow (needsCommit : Bool) (answers : List (DbError × SbCounterType)) : Db (List (DbError × SbCounterType)) :=
  DbCall.next (scripted needsCommit)
    (DbCall.next (scripted needsCommit) (connected needsCommit answers) (.bulkInsertInit true ⟨[], nofun⟩)) (.bulkInsertNext rowA)

theorem reach_bulkRow : Reach (fun db c => c.IsBulk ∧ RowFits (scripted false) db c) (DbCall.next (scripted false))
    (connected false []) (bulkRow false []) :=
  .call _ (.call _ .start ⟨trivial, trivial⟩) ⟨trivial, fun hlong => absurd hlong (by decide)⟩

/-- Behind an empty prefix there is room for a first row and a second. -/
theorem bulkWrites_iff_bulkRow : ∃ db, Reach (fun db c => c.IsBulk ∧ RowFits (scripted false) db c) (DbCall.next (scripted false))
      (connected false []) db ∧
    BulkSafe db (.bulkInsertNext rowA) (DbCall.exec (scripted false) (.bulkInsertNext rowA) db).1
      (DbCall.exec (scripted false) (.bulkInsertNext rowA) db).2 :=
  ⟨_, reach_bulkRow, (bulkWrites_iff (by decide) rfl reach_bulkRow (c := .bulkInsertNext rowA) trivial).mpr fun hlong =>
    absurd hlong (by decide)⟩

/-- After a row that is sent, a row of the size of the buffer is written beyond its end. -/
theorem not_bulkSafe_long : dbConnectionCreate (scripted false) (fun _ => 0) [] = some (connected false []) ∧
    ∃ db row, Reach (fun _ c => c.IsBulk) (DbCall.next (scripted false)) (connected false []) db ∧
      ¬BulkSafe db (.bulkInsertNext row) (DbCall.exec (scripted false) (.bulkInsertNext row) db).1
        (DbCall.exec (scripted false) (.bulkInsertNext row) db).2 := by
  obtain ⟨row, hrow⟩ : ∃ row : CString, row.chars.length = bulkPacketSize :=
    ⟨⟨List.replicate bulkPacketSize 'a', fun h => absurd (List.eq_of_mem_replicate h) (by decide)⟩, List.length_replicate⟩
  refine ⟨rfl, bulkRow false [], row, reach_bulkRow.mono fun _ _ h => h.1, fun hsafe => ?_⟩
  have hfits := (bulkSafe_iff (bulkInv_reach (by decide) rfl reach_bulkRow) (c := .bulkInsertNext row) trivial).1.mp hsafe
  have hlong := hfits (by rw [hrow]; decide)
  have hsent : ¬FlushFails (scripted false) false (bulkRow false []) := by
    unfold FlushFails
    decide
  exact hlong.2.elim nofun fun h => h.elim (by decide) hsent

end NuKSM.Sysbench
