import NuKSM.Lib.Extend
import NuKSM.Lib.Turns
import NuKSM.Sysbench.AioQueue
import NuKSM.Theorems.Sysbench.FileAio

/-! # The number of operations in the queue of a thread

`nrequests` is the number of operations that the thread has submitted and that have not been reported to it. So at its end a
thread waits for all of them. Each report is counted once. -/

namespace NuKSM.Sysbench
open Thread FileOp

abbrev AioEvt := Event ℕ AioOp AioOp.Res (fun _ => AioCall) Bool

abbrev AioWorld := World AioShared ℕ AioOp AioOp.Res (fun _ => AioCall) Bool

/-! ### What a run has done -/

/-- An operation of a thread, its type and its length. -/
structure AioEntry where
  thread : ℕ
  type : SbFileOp
  len : ℤ
  deriving DecidableEq, Repr

namespace FileOp

/-- The operation that is submitted. -/
def submits (t : ℕ) : (op : FileOp) → op.Res → Option AioEntry
  | ioSubmit type _ count _, accepted => if accepted then some ⟨t, type, count⟩ else none
  | _, _ => none

/-- The operation that is counted. -/
def counts (t : ℕ) : FileOp → Option AioEntry
  | countRead len => some ⟨t, .read, len⟩
  | countWrite len => some ⟨t, .write, len⟩
  | _ => none

/-- The thread is done with a report. -/
def handles : FileOp → Bool
  | decRequests => true
  | _ => false

end FileOp

def submission : AioEvt → Option AioEntry
  | .act t (.inl op) r => op.submits t r
  | _ => none

def counting : AioEvt → Option AioEntry
  | .act t (.inl op) _ => op.counts t
  | _ => none

/-- What a call returns with. -/
def returned : AioEvt → Option (AioCall × Bool)
  | .ret _ call failed => some (call, failed)
  | _ => none

/-- The operations that have been submitted. -/
def submissions (h : List AioEvt) : List AioEntry := h.filterMap submission

/-- The operations that have been counted. -/
def countings (h : List AioEvt) : List AioEntry := h.filterMap counting

/-- The number of reports that have been dealt with. -/
def handlings (h : List AioEvt) : ℕ := h.countP fun
  | .act _ (.inl op) _ => op.handles
  | _ => false

/-- 1 between `io_submit` and the `nrequests++` behind it. -/
def submitting (h : List AioEvt) : ℕ := (h.getLast?.bind submission).toList.length

/-- The call that the turns end with a return from, and with what. -/
def lastReturn (h : List AioEvt) : Option (AioCall × Bool) := h.getLast?.bind returned

/-- The number of operations of a type that have been counted. -/
def opsCounted (type : SbFileOp) (h : List AioEvt) : ℕ := ((countings h).filter (·.type = type)).length

/-- The length of all of them. -/
def bytesCounted (type : SbFileOp) (h : List AioEvt) : ℤ := (((countings h).filter (·.type = type)).map (·.len)).sum

/-- The statistics are about the operations that have been counted, in the numbers of their types. -/
structure Statistics (w : AioWorld) : Prop where
  readOps : w.2.readOps = Int32.ofNat (opsCounted .read w.1)
  writeOps : w.2.writeOps = Int32.ofNat (opsCounted .write w.1)
  bytesRead : w.2.bytesRead = UInt64.ofInt (bytesCounted .read w.1)
  bytesWritten : w.2.bytesWritten = UInt64.ofInt (bytesCounted .write w.1)

/-- `nrequests` is the number of operations that the thread has submitted and whose reports it has not dealt with. Right behind
`io_submit` it is about to be. -/
def QueueTally (t : ℕ) (w : AioWorld) : Prop :=
  (w.2.aioCtxts t).nrequests + submitting (turnsOf t w.1) + handlings (turnsOf t w.1) = (submissions (turnsOf t w.1)).length

def AioOper.entry (t : ℕ) (o : AioOper) : AioEntry := ⟨t, o.type, o.len⟩

/-- The queue of a thread, where some reports have been taken out of it but not counted: each operation that was submitted has
been counted, or is one of these, or is pending. -/
structure QueueLedger (t : ℕ) (q : AioQueue) (unread : List AioEntry) (due : ℕ) (w : AioWorld) : Prop where
  ctxt : w.2.aioCtxts t = q
  transfers : ∀ o ∈ q.pending, o.type = .read ∨ o.type = .write
  balance : (submissions (turnsOf t w.1)).Perm (countings (turnsOf t w.1) ++ (unread ++ q.pending.map (AioOper.entry t)))
  due_eq : submitting (turnsOf t w.1) = due
  tally : q.nrequests + due + handlings (turnsOf t w.1) = (submissions (turnsOf t w.1)).length

/-- All reports have been dealt with, so that `nrequests` is the number of the operations that are pending. -/
def AllHandled (t : ℕ) (pending : List AioOper) : AioWorld → Prop := QueueLedger t ⟨pending.length, pending⟩ [] 0

/-- Between two calls there is room for another operation. -/
def QueueSettled (c : FileConfig) (t : ℕ) (w : AioWorld) : Prop :=
  ∃ pending, AllHandled t pending w ∧ pending.length < c.fileAsyncBacklog

/-- What the turns of other threads leave as it is. -/
structure SameQueue (t : ℕ) (w w' : AioWorld) : Prop where
  ctxt : w'.2.aioCtxts t = w.2.aioCtxts t
  turns : turnsOf t w'.1 = turnsOf t w.1

theorem QueueTally.rely {t : ℕ} {w w' : AioWorld} (h : QueueTally t w) (hsame : SameQueue t w w') : QueueTally t w' := by
  unfold QueueTally
  rw [hsame.ctxt, hsame.turns]
  exact h

theorem QueueLedger.rely {t due : ℕ} {q : AioQueue} {unread : List AioEntry} {w w' : AioWorld} (h : QueueLedger t q unread due w)
    (hsame : SameQueue t w w') : QueueLedger t q unread due w' := by
  obtain ⟨hctxt, htransfers, hbalance, hdue, htally⟩ := h
  rw [← hsame.turns] at hbalance hdue htally
  exact ⟨hsame.ctxt.trans hctxt, htransfers, hbalance, hdue, htally⟩

theorem QueueLedger.to_tally {t due : ℕ} {q : AioQueue} {unread : List AioEntry} {w : AioWorld} (h : QueueLedger t q unread due w) :
    QueueTally t w := by
  unfold QueueTally
  rw [h.ctxt, h.due_eq]
  exact h.tally

theorem QueueSettled.rely {c : FileConfig} {t : ℕ} {w w' : AioWorld} (h : QueueSettled c t w) (hsame : SameQueue t w w') :
    QueueSettled c t w' := by
  obtain ⟨pending, hhandled, hroom⟩ := h
  exact ⟨pending, hhandled.rely hsame, hroom⟩

/-- A wait for more operations than are pending never ends. Here it may end in any way, so that what is kept shows that there is
none. -/
def AioExecOrStuck (c : FileConfig) (t : ℕ) (op : AioOp) (s : AioShared) (r : op.Res) (s' : AioShared) : Prop :=
  AioExec c t op s r s' ∨ ∃ nreq, op = .inl (ioGetevents nreq) ∧ (s.aioCtxts t).pending.length < nreq

/-- After a `file_thread_done` that returns 0 the queue is empty. -/
def aioQueueProtocol (c : FileConfig) : Protocol AioShared ℕ AioOp AioOp.Res (fun _ => AioCall) Bool where
  exec := AioExecOrStuck c
  inv w := Statistics w ∧ ∀ t, QueueTally t w
  idle t w := QueueSettled c t w ∧ (lastReturn (turnsOf t w.1) = some (.threadDone, false) → AllHandled t [] w)
  rely := SameQueue
  rely_refl _ _ := ⟨rfl, rfl⟩
  rely_trans h₁ h₂ := ⟨h₂.ctxt.trans h₁.ctxt, h₂.turns.trans h₁.turns⟩
  idle_rely h hsame := ⟨h.1.rely hsame, fun hlast => (h.2 (hsame.turns ▸ hlast)).rely hsame⟩

/-! ### One turn -/

section turns
variable {c : FileConfig} {t u due : ℕ} {h : List AioEvt} {s s' : AioShared} {w w' : AioWorld} {e : AioEvt} {q : AioQueue}
  {pending : List AioOper} {unread : List AioEntry}

@[simp] theorem submissions_snoc (h : List AioEvt) (e : AioEvt) : submissions (h ++ [e]) = submissions h ++ (submission e).toList := by
  unfold submissions
  rw [List.filterMap_append]
  cases he : submission e <;> simp [he]

@[simp] theorem countings_snoc (h : List AioEvt) (e : AioEvt) : countings (h ++ [e]) = countings h ++ (counting e).toList := by
  unfold countings
  rw [List.filterMap_append]
  cases he : counting e <;> simp [he]

@[simp] theorem submitting_snoc (h : List AioEvt) (e : AioEvt) : submitting (h ++ [e]) = (submission e).toList.length := by
  unfold submitting
  rw [List.getLast?_concat]
  rfl

theorem lastReturn_snoc (h : List AioEvt) (e : AioEvt) : lastReturn (h ++ [e]) = returned e := by
  unfold lastReturn
  rw [List.getLast?_concat]
  rfl

theorem handlings_append (h h' : List AioEvt) : handlings (h ++ h') = handlings h + handlings h' := List.countP_append

@[simp] theorem handlings_act (op : FileOp) (r : op.Res) : handlings [.act t (.inl op) r] = if op.handles then 1 else 0 :=
  List.countP_singleton

theorem aioExec_other {op : AioOp} {r : op.Res} (hexec : AioExec c t op s r s') (hne : u ≠ t) : s'.aioCtxts u = s.aioCtxts u := by
  cases op with
  | inr load =>
    obtain ⟨-, rfl⟩ := hexec
    rfl
  | inl op =>
    cases op with
    | ioSubmit type fileId count offset =>
      cases r with
      | true =>
        obtain rfl : s' = s.setCtxt t _ := hexec
        exact Function.update_of_ne hne ..
      | false =>
        obtain rfl : s' = s := hexec
        rfl
    | incRequests =>
      obtain ⟨-, rfl⟩ := hexec
      exact Function.update_of_ne hne ..
    | decRequests =>
      obtain rfl : s' = s.setCtxt t _ := hexec
      exact Function.update_of_ne hne ..
    | ioGetevents nreq =>
      obtain ⟨_, _, -, -, -, -, rfl⟩ := hexec
      exact Function.update_of_ne hne ..
    | _ =>
      cases hexec
      rfl

theorem setCtxt_self : (s.setCtxt t q).aioCtxts t = q := Function.update_self ..

/-- A turn of a thread is noted for it only. -/
theorem sameQueue_of_turn (hturn : e.thread = t) (hne : u ≠ t) (hctxt : s'.aioCtxts u = s.aioCtxts u) :
    SameQueue u (h, s) (h ++ [e], s') :=
  ⟨hctxt, turnsOf_snoc_other (hturn ▸ hne.symm)⟩

/-! ### The statistics -/

theorem opsCounted_snoc (type : SbFileOp) (h : List AioEvt) (e : AioEvt) :
    opsCounted type (h ++ [e]) = opsCounted type h + ((counting e).toList.filter (·.type = type)).length := by
  unfold opsCounted
  rw [countings_snoc, List.filter_append, List.length_append]

theorem bytesCounted_snoc (type : SbFileOp) (h : List AioEvt) (e : AioEvt) :
    bytesCounted type (h ++ [e]) = bytesCounted type h + (((counting e).toList.filter (·.type = type)).map (·.len)).sum := by
  unfold bytesCounted
  rw [countings_snoc, List.filter_append, List.map_append, List.sum_append]

theorem Statistics.same (hstat : Statistics (h, s)) (hnone : counting e = none)
    (hops : s'.readOps = s.readOps ∧ s'.writeOps = s.writeOps)
    (hbytes : s'.bytesRead = s.bytesRead ∧ s'.bytesWritten = s.bytesWritten) : Statistics (h ++ [e], s') := by
  obtain ⟨hreadOps, hwriteOps, hbytesRead, hbytesWritten⟩ := hstat
  have hcountings : countings (h ++ [e]) = countings h := by simp [hnone]
  refine ⟨?_, ?_, ?_, ?_⟩ <;> simp only [opsCounted, bytesCounted, hcountings]
  · exact hops.1.trans hreadOps
  · exact hops.2.trans hwriteOps
  · exact hbytes.1.trans hbytesRead
  · exact hbytes.2.trans hbytesWritten

/-- A number that is kept modulo a power of two, and what is added to it. -/
theorem bytes_add {n : UInt64} {sum len : ℤ} (hn : n = UInt64.ofInt sum) :
    n + UInt64.ofInt len = UInt64.ofInt (sum + [len].sum) := by
  rw [hn, List.sum_singleton, UInt64.ofInt_add]

theorem Statistics.act {op : AioOp} {r : op.Res} (hstat : Statistics (h, s)) (hexec : AioExec c t op s r s') :
    Statistics (h ++ [.act t op r], s') := by
  cases op with
  | inr load =>
    obtain ⟨-, rfl⟩ := hexec
    exact hstat.same rfl ⟨rfl, rfl⟩ ⟨rfl, rfl⟩
  | inl op =>
    cases op with
    | countRead size =>
      obtain ⟨hreadOps, hwriteOps, hbytesRead, hbytesWritten⟩ := hstat
      cases hexec
      refine ⟨?_, ?_, ?_, ?_⟩ <;> simp only [opsCounted_snoc, bytesCounted_snoc]
      · exact (congrArg (· + 1) hreadOps).trans (Int32.ofNat_add _ 1).symm
      · exact hwriteOps
      · exact bytes_add hbytesRead
      · exact hbytesWritten.trans (congrArg UInt64.ofInt (add_zero _).symm)
    | countWrite size =>
      obtain ⟨hreadOps, hwriteOps, hbytesRead, hbytesWritten⟩ := hstat
      cases hexec
      refine ⟨?_, ?_, ?_, ?_⟩ <;> simp only [opsCounted_snoc, bytesCounted_snoc]
      · exact hreadOps
      · exact (congrArg (· + 1) hwriteOps).trans (Int32.ofNat_add _ 1).symm
      · exact hbytesRead.trans (congrArg UInt64.ofInt (add_zero _).symm)
      · exact bytes_add hbytesWritten
    | ioSubmit type fileId count offset =>
      refine hstat.same rfl ?_ ?_ <;> cases r <;> cases hexec <;> exact ⟨rfl, rfl⟩
    | incRequests =>
      obtain ⟨-, rfl⟩ := hexec
      exact hstat.same rfl ⟨rfl, rfl⟩ ⟨rfl, rfl⟩
    | ioGetevents nreq =>
      obtain ⟨_, _, -, -, -, -, rfl⟩ := hexec
      exact hstat.same rfl ⟨rfl, rfl⟩ ⟨rfl, rfl⟩
    | _ =>
      cases hexec
      exact hstat.same rfl ⟨rfl, rfl⟩ ⟨rfl, rfl⟩

/-! ### The queue of the thread -/

/-- The new entry of `aio_ctxts`, and what has become of the operations. -/
theorem QueueLedger.act (op : FileOp) (r : op.Res) (unread' : List AioEntry) {q' : AioQueue} (hledger : QueueLedger t q unread due (h, s))
    (hctxt : s'.aioCtxts t = q') (htransfers : ∀ o ∈ q'.pending, o.type = .read ∨ o.type = .write)
    (hbalance : ((unread ++ q.pending.map (AioOper.entry t)) ++ (op.submits t r).toList).Perm
      ((op.counts t).toList ++ (unread' ++ q'.pending.map (AioOper.entry t))))
    (htally : q'.nrequests + (if op.handles then 1 else 0) = q.nrequests + due) :
    QueueLedger t q' unread' (op.submits t r).toList.length (h ++ [.act t (.inl op) r], s') := by
  have hturns : turnsOf t (h ++ [.act t (.inl op) r]) = turnsOf t h ++ [.act t (.inl op) r] := turnsOf_snoc_self rfl
  have hbefore : q.nrequests + due + handlings (turnsOf t h) = (submissions (turnsOf t h)).length := hledger.tally
  refine ⟨hctxt, htransfers, ?_, ?_, ?_⟩
  · simp only [hturns, submissions_snoc, countings_snoc]
    calc submissions (turnsOf t h) ++ (op.submits t r).toList
        _ |>.Perm <| (countings (turnsOf t h) ++ (unread ++ q.pending.map (AioOper.entry t))) ++ (op.submits t r).toList :=
          hledger.balance.append_right _
        _ = countings (turnsOf t h) ++ ((unread ++ q.pending.map (AioOper.entry t)) ++ (op.submits t r).toList) :=
          List.append_assoc ..
        _ |>.Perm <| countings (turnsOf t h) ++ ((op.counts t).toList ++ (unread' ++ q'.pending.map (AioOper.entry t))) :=
          hbalance.append_left _
        _ = _ := (List.append_assoc ..).symm
  · simp only [hturns, submitting_snoc]
    rfl
  · simp only [hturns, submissions_snoc, handlings_append, handlings_act, List.length_append]
    show _ = _ + (op.submits t r).toList.length
    omega

theorem QueueLedger.unnoted (hledger : QueueLedger t q unread 0 (h, s)) (hturn : e.thread = t) (hsubmission : submission e = none)
    (hcounting : counting e = none) (hhandlings : handlings [e] = 0) : QueueLedger t q unread 0 (h ++ [e], s) := by
  obtain ⟨hctxt, htransfers, hbalance, -, htally⟩ := hledger
  refine ⟨hctxt, htransfers, ?_, ?_, ?_⟩
  · simpa [turnsOf_snoc_self hturn, hsubmission, hcounting] using hbalance
  · simp [turnsOf_snoc_self hturn, hsubmission]
  · simpa [turnsOf_snoc_self hturn, hsubmission, handlings_append, hhandlings] using htally

/-- A turn of a thread that leaves a ledger of its own keeps to the protocol. -/
theorem QueueLedger.guards (hledger : QueueLedger t q unread due (h ++ [e], s')) (hinv : (aioQueueProtocol c).inv (h, s))
    (hturn : e.thread = t) (hstat : Statistics (h ++ [e], s')) (hothers : ∀ u, u ≠ t → s'.aioCtxts u = s.aioCtxts u) :
    (aioQueueProtocol c).Guards t (h, s) (h ++ [e], s') := by
  have hsame : ∀ u, u ≠ t → SameQueue u (h, s) (h ++ [e], s') := fun u hne => sameQueue_of_turn hturn hne (hothers u hne)
  refine ⟨⟨hstat, fun u => ?_⟩, hsame⟩
  rcases eq_or_ne u t with rfl | hne
  · exact hledger.to_tally
  · exact (hinv.2 u).rely (hsame u hne)

theorem QueueLedger.act_guards {op : AioOp} {r : op.Res} (hledger : QueueLedger t q unread due (h ++ [.act t op r], s'))
    (hinv : (aioQueueProtocol c).inv (h, s)) (hexec : AioExec c t op s r s') :
    (aioQueueProtocol c).Guards t (h, s) (h ++ [.act t op r], s') :=
  hledger.guards hinv rfl (hinv.1.act hexec) fun _ => aioExec_other hexec

variable {β : Type} {Q : β → AioWorld → Prop}

theorem wp_inl_bind {γ : Type} {p : FileM γ} {f : γ → FileM β} :
    (aioQueueProtocol c).wp t (p >>= f).inl Q w ↔
      (aioQueueProtocol c).wp t p.inl (fun a w => (aioQueueProtocol c).wp t (f a).inl Q w) w := by
  rw [inl_bind]
  exact Protocol.wp_bind

theorem QueueLedger.wp_perform {op : FileOp} {f : op.Res → FileM β} (hledger : QueueLedger t q unread due w)
    (hready : ∀ nreq, op = ioGetevents nreq → nreq ≤ q.pending.length)
    (hstep : ∀ h s r s', QueueLedger t q unread due (h, s) → QueueStep c t op s r s' →
      ∃ q' unread' due', QueueLedger t q' unread' due' (h ++ [.act t (.inl op) r], s') ∧
        (aioQueueProtocol c).wp t (f r).inl Q (h ++ [.act t (.inl op) r], s')) :
    (aioQueueProtocol c).wp t (perform op >>= f).inl Q w := by
  refine Protocol.wp_perform fun h s r s' hrely hinv hexec => ?_
  have hledger := hledger.rely hrely
  rcases hexec with hexec | ⟨nreq, hop, hlt⟩
  swap
  · rw [show s.aioCtxts t = q from hledger.ctxt] at hlt
    exact absurd (hready nreq (Sum.inl.inj hop)) (not_le.mpr hlt)
  obtain ⟨q', unread', due', hledger', hwp⟩ := hstep h s r s' hledger hexec
  exact ⟨hledger'.act_guards hinv hexec, hwp⟩

/-- An operation that is accepted is pending. -/
theorem QueueLedger.wp_ioSubmit {type : SbFileOp} {fileId : ℕ} {count offset : ℤ} {f : Bool → FileM β}
    (hledger : QueueLedger t q [] 0 w) (htype : type = .read ∨ type = .write)
    (haccepted : ∀ w, QueueLedger t ⟨q.nrequests, q.pending ++ [⟨type, fileId, count, offset⟩]⟩ [] 1 w →
      (aioQueueProtocol c).wp t (f true).inl Q w)
    (hrefused : ∀ w, QueueLedger t q [] 0 w → (aioQueueProtocol c).wp t (f false).inl Q w) :
    (aioQueueProtocol c).wp t (perform (ioSubmit type fileId count offset) >>= f).inl Q w := by
  refine hledger.wp_perform nofun fun h s accepted s' hledger hexec => ?_
  have hctxt : s.aioCtxts t = q := hledger.ctxt
  cases accepted with
  | true =>
    obtain rfl : s' = s.setCtxt t _ := hexec
    have hset : (s.setCtxt t { s.aioCtxts t with pending := (s.aioCtxts t).pending ++ [⟨type, fileId, count, offset⟩] }).aioCtxts t =
        ⟨q.nrequests, q.pending ++ [⟨type, fileId, count, offset⟩]⟩ := by rw [setCtxt_self, hctxt]
    have hledger' := hledger.act (ioSubmit type fileId count offset) true [] hset
      (fun o ho => (List.mem_append.mp ho).elim (hledger.transfers o) fun ho => by rw [List.mem_singleton.mp ho]; exact htype)
      (by simp [submits, FileOp.counts, AioOper.entry]) rfl
    exact ⟨_, _, _, hledger', haccepted _ hledger'⟩
  | false =>
    obtain rfl : s' = s := hexec
    have hledger' := hledger.act (ioSubmit type fileId count offset) false [] hctxt hledger.transfers
      (by simp [submits, FileOp.counts]) rfl
    exact ⟨_, _, _, hledger', hrefused _ hledger'⟩

theorem QueueLedger.wp_incRequests {f : ℕ → FileM β} (hledger : QueueLedger t q unread 1 w) (hlt : q.nrequests + 1 < 2 ^ 32)
    (hnext : ∀ w, QueueLedger t ⟨q.nrequests + 1, q.pending⟩ unread 0 w → (aioQueueProtocol c).wp t (f (q.nrequests + 1)).inl Q w) :
    (aioQueueProtocol c).wp t (perform incRequests >>= f).inl Q w := by
  refine hledger.wp_perform nofun fun h s nrequests s' hledger hexec => ?_
  have hctxt : s.aioCtxts t = q := hledger.ctxt
  obtain ⟨hnrequests, rfl⟩ := hexec
  have hsucc : nrequests = q.nrequests + 1 := by
    rw [hnrequests, hctxt]
    exact Nat.mod_eq_of_lt hlt
  subst hsucc
  have hset : (s.setCtxt t { s.aioCtxts t with nrequests := q.nrequests + 1 }).aioCtxts t = ⟨q.nrequests + 1, q.pending⟩ := by
    rw [setCtxt_self, hctxt]
  have hledger' := hledger.act incRequests (q.nrequests + 1) unread hset hledger.transfers (by simp [submits, FileOp.counts]) rfl
  exact ⟨_, _, _, hledger', hnext _ hledger'⟩

theorem QueueLedger.wp_decRequests {n : ℕ} {f : Unit → FileM β} (hledger : QueueLedger t ⟨n + 1, pending⟩ unread 0 w)
    (hlt : n + 1 < 2 ^ 32) (hnext : ∀ w, QueueLedger t ⟨n, pending⟩ unread 0 w → (aioQueueProtocol c).wp t (f ()).inl Q w) :
    (aioQueueProtocol c).wp t (perform decRequests >>= f).inl Q w := by
  refine hledger.wp_perform nofun fun h s _ s' hledger hexec => ?_
  have hctxt : s.aioCtxts t = ⟨n + 1, pending⟩ := hledger.ctxt
  obtain rfl : s' = s.setCtxt t _ := hexec
  have hset : (s.setCtxt t { s.aioCtxts t with nrequests := ((s.aioCtxts t).nrequests + 2 ^ 32 - 1) % 2 ^ 32 }).aioCtxts t =
      ⟨n, pending⟩ := by
    rw [setCtxt_self, hctxt]
    have hpred : (n + 1 + 2 ^ 32 - 1) % 2 ^ 32 = n := by omega
    exact congrArg (AioQueue.mk · pending) hpred
  have hledger' := hledger.act decRequests () unread hset hledger.transfers
    (by simp [submits, FileOp.counts]) rfl
  exact ⟨_, _, _, hledger', hnext _ hledger'⟩

/-- The operation of a report is counted. -/
theorem QueueLedger.wp_count (op : FileOp) {entry : AioEntry} {f : op.Res → FileM β} (hledger : QueueLedger t q (entry :: unread) 0 w)
    (hcounts : op.counts t = some entry)
    (hnext : ∀ r w, QueueLedger t q unread 0 w → (aioQueueProtocol c).wp t (f r).inl Q w) :
    (aioQueueProtocol c).wp t (perform op >>= f).inl Q w := by
  refine hledger.wp_perform (fun nreq hop => by subst hop; cases hcounts) fun h s r s' hledger hexec => ?_
  have hledger' : QueueLedger t q unread 0 (h ++ [.act t (.inl op) r], s') := by
    cases op with
    | countRead len =>
      cases hexec
      cases hcounts
      exact hledger.act (countRead len) r unread hledger.ctxt hledger.transfers (by simp [submits, FileOp.counts]) rfl
    | countWrite len =>
      cases hexec
      cases hcounts
      exact hledger.act (countWrite len) r unread hledger.ctxt hledger.transfers (by simp [submits, FileOp.counts]) rfl
    | _ => cases hcounts
  exact ⟨_, _, _, hledger', hnext r _ hledger'⟩

/-- Reports on operations of the thread, which are not pending any more. -/
theorem QueueLedger.wp_ioGetevents {nreq : ℕ} {f : List AioEvent → FileM β} (hledger : QueueLedger t q [] 0 w)
    (hready : nreq ≤ q.pending.length)
    (hnext : ∀ done rest w, q.pending.Perm (done ++ rest) → nreq ≤ done.length →
      QueueLedger t ⟨q.nrequests, rest⟩ (done.map (AioOper.entry t)) 0 w →
      (aioQueueProtocol c).wp t (f (done.map AioOper.report)).inl Q w) :
    (aioQueueProtocol c).wp t (perform (ioGetevents nreq) >>= f).inl Q w := by
  refine hledger.wp_perform (fun _ hop => ioGetevents.inj hop ▸ hready) fun h s events s' hledger hexec => ?_
  have hctxt : s.aioCtxts t = q := hledger.ctxt
  obtain ⟨done, rest, hperm, hnreq, -, rfl, rfl⟩ := hexec
  rw [hctxt] at hperm
  have hset : (s.setCtxt t { s.aioCtxts t with pending := rest }).aioCtxts t = ⟨q.nrequests, rest⟩ := by rw [setCtxt_self, hctxt]
  have hentries : (q.pending.map (AioOper.entry t)).Perm (done.map (AioOper.entry t) ++ rest.map (AioOper.entry t)) := by
    rw [← List.map_append]
    exact hperm.map _
  have hledger' := hledger.act (ioGetevents nreq) (done.map AioOper.report) (done.map (AioOper.entry t)) hset
    (fun o ho => hledger.transfers o (hperm.symm.subset (List.mem_append_right _ ho)))
    (by simpa [submits, FileOp.counts] using hentries) rfl
  exact ⟨_, _, _, hledger', hnext done rest _ hperm hnreq hledger'⟩

/-- The loop over the reports counts each of their operations and takes it from `nrequests`. -/
theorem wp_verifyReports {rest : List AioOper} : ∀ {done : List AioOper} {w : AioWorld},
    QueueLedger t ⟨done.length + rest.length, rest⟩ (done.map (AioOper.entry t)) 0 w →
    (∀ o ∈ done, o.type = .read ∨ o.type = .write) → done.length + rest.length < 2 ^ 32 →
    (aioQueueProtocol c).wp t (verifyEvents (done.map AioOper.report)).inl (fun failed w => failed = false ∧ AllHandled t rest w) w := by
  intro done
  induction done with
  | nil =>
    intro w hledger _ _
    rw [List.length_nil, zero_add] at hledger
    exact ⟨rfl, hledger⟩
  | cons o done ih =>
    intro w hledger htransfers hlt
    have hlen : (o :: done).length + rest.length = done.length + rest.length + 1 := by
      rw [List.length_cons]
      omega
    rw [hlen] at hledger hlt
    have hrest : ∀ w, QueueLedger t ⟨done.length + rest.length + 1, rest⟩ (done.map (AioOper.entry t)) 0 w →
        (aioQueueProtocol c).wp t (perform decRequests >>= fun _ => verifyEvents (done.map AioOper.report)).inl
          (fun failed w => failed = false ∧ AllHandled t rest w) w := fun w hledger =>
      hledger.wp_decRequests hlt fun w hledger => ih hledger (fun o ho => htransfers o (List.mem_cons_of_mem _ ho)) (by omega)
    obtain ⟨type, fileId, len, offset⟩ := o
    obtain rfl | rfl : type = .read ∨ type = .write := htransfers _ List.mem_cons_self
    · show (aioQueueProtocol c).wp t (Thread.inl (if len ≠ len then _ else _)) _ w
      rw [if_neg (not_not.mpr rfl)]
      exact hledger.wp_count (countRead len) rfl fun _ => hrest
    · show (aioQueueProtocol c).wp t (Thread.inl (if len ≠ len then _ else _)) _ w
      rw [if_neg (not_not.mpr rfl)]
      exact hledger.wp_count (countWrite len) rfl fun _ => hrest

/-- After a wait for one operation at least, so many are not pending any more. -/
theorem AllHandled.wp_fileWait {nreq : ℕ} (hhandled : AllHandled t pending w) (hnreq : 0 < nreq)
    (hready : nreq ≤ pending.length) (hlt : pending.length < 2 ^ 32) :
    (aioQueueProtocol c).wp t (fileWait nreq).inl
      (fun failed w => failed = false ∧ ∃ rest, rest.length + nreq ≤ pending.length ∧ AllHandled t rest w) w := by
  have hpending : ∀ o ∈ pending, o.type = .read ∨ o.type = .write := hhandled.transfers
  refine QueueLedger.wp_ioGetevents hhandled hready fun done rest w hperm hdone hledger => ?_
  have hlength : pending.length = done.length + rest.length := by
    rw [hperm.length_eq, List.length_append]
  show (aioQueueProtocol c).wp t (Thread.inl (if (done.map AioOper.report).length < 1 then _ else _)) _ w
  rw [if_neg (by rw [List.length_map]; omega)]
  rw [hlength] at hledger hlt
  refine Protocol.wp_mono (fun failed w hw => ⟨hw.1, rest, by omega, hw.2⟩) (wp_verifyReports hledger (fun o ho => ?_) hlt)
  exact hpending o (hperm.symm.subset (List.mem_append_left _ ho))

/-- Where the backlog is reached, an operation at least is waited for. -/
theorem QueueSettled.wp_fileSubmitOrWait {type : SbFileOp} {fileId : ℕ} {count offset : ℤ} (hsettled : QueueSettled c t w)
    (htype : type = .read ∨ type = .write) (hlt : c.fileAsyncBacklog < 2 ^ 32) :
    (aioQueueProtocol c).wp t (fileSubmitOrWait c type fileId count offset).inl (fun _ => QueueSettled c t) w := by
  obtain ⟨pending, hhandled, hroom⟩ := hsettled
  refine QueueLedger.wp_ioSubmit hhandled htype (fun w hledger => ?_) fun w hhandled => ⟨pending, hhandled, hroom⟩
  refine hledger.wp_incRequests (by show pending.length + 1 < _; omega) fun w hledger => ?_
  have hhandled : AllHandled t (pending ++ [⟨type, fileId, count, offset⟩]) w := by
    unfold AllHandled
    rwa [List.length_append]
  have hlength : (pending ++ [(⟨type, fileId, count, offset⟩ : AioOper)]).length = pending.length + 1 := List.length_append
  show (aioQueueProtocol c).wp t (Thread.inl (if pending.length + 1 < c.fileAsyncBacklog then _ else _)) _ w
  split
  · exact ⟨_, hhandled, by omega⟩
  · refine Protocol.wp_mono (fun failed w hw => ?_) (hhandled.wp_fileWait one_pos (by omega) (by omega))
    obtain ⟨-, rest, hrest, hhandled⟩ := hw
    exact ⟨rest, hhandled, by omega⟩

/-- Leaves the queue and the statistics of reads and writes. -/
def FileOp.Quiet : FileOp → Prop
  | ioSubmit .. | incRequests | decRequests | ioGetevents _ | countRead _ | countWrite _ => False
  | _ => True

theorem QueueLedger.quiet {op : FileOp} {r : op.Res} (hledger : QueueLedger t q unread 0 (h, s)) (hquiet : op.Quiet)
    (hexec : QueueStep c t op s r s') : QueueLedger t q unread 0 (h ++ [.act t (.inl op) r], s') := by
  cases op with
  | ioSubmit | incRequests | decRequests | ioGetevents | countRead | countWrite => exact absurd hquiet not_false
  | countOther =>
    obtain rfl : s' = _ := hexec
    obtain ⟨hctxt, htransfers, hbalance, hdue, htally⟩ := hledger
    have hcounted : QueueLedger t q unread 0 (h, { s with otherOps := s.otherOps + 1 }) := ⟨hctxt, htransfers, hbalance, hdue, htally⟩
    exact hcounted.unnoted rfl rfl rfl rfl
  | _ =>
    obtain rfl : s' = s := hexec
    exact hledger.unnoted rfl rfl rfl rfl

theorem QueueLedger.wp_quiet {p : FileM β} (hledger : QueueLedger t q unread 0 w) (hp : p.Performs Quiet) :
    (aioQueueProtocol c).wp t p.inl (fun _ => QueueLedger t q unread 0) w := by
  refine Protocol.wp_of_performs (P := aioQueueProtocol c) (A := Sum.elim Quiet fun _ => False)
    (fun op h s r s' hop hledger hinv hexec => ?_) (fun hledger hsame => hledger.rely hsame) (Performs.inl hp) hledger
  cases op with
  | inr => exact absurd hop not_false
  | inl op =>
    rcases hexec with hexec | ⟨nreq, hget, -⟩
    swap
    · obtain rfl : op = ioGetevents nreq := Sum.inl.inj hget
      exact absurd hop not_false
    have hledger' := hledger.quiet hop hexec
    exact ⟨hledger'.act_guards hinv hexec, hledger'⟩

theorem QueueSettled.wp_quiet {p : FileM β} (hsettled : QueueSettled c t w) (hp : p.Performs Quiet) :
    (aioQueueProtocol c).wp t p.inl (fun _ => QueueSettled c t) w := by
  obtain ⟨pending, hhandled, hroom⟩ := hsettled
  exact Protocol.wp_mono (fun _ w hhandled => ⟨pending, hhandled, hroom⟩) (hhandled.wp_quiet hp)

theorem fileFsync_quiet (id : ℕ) : (fileFsync c id).Performs Quiet := by
  refine Performs.bind (Performs.bind (performs_perform.mpr trivial) fun _ => ?_) fun _ =>
    Performs.ite (fun _ => trivial) fun _ => Performs.bind (performs_perform.mpr trivial) fun _ => trivial
  cases c.fileIoMode <;> exact performs_perform.mpr trivial

/-- What `file_pread` and `file_pwrite` do in asynchronous mode. -/
theorem QueueSettled.wp_transfer {type : SbFileOp} {fileId : ℕ} {count offset : ℤ} (hsettled : QueueSettled c t w)
    (htype : type = .read ∨ type = .write) (hlt : c.fileAsyncBacklog < 2 ^ 32) :
    (aioQueueProtocol c).wp t (do
      perform (file fileId)
      if ← fileSubmitOrWait c type fileId count offset then return 0
      return count : FileM ℤ).inl (fun _ => QueueSettled c t) w := by
  refine wp_inl_bind.mpr (Protocol.wp_mono (fun _ w hsettled => ?_)
    (hsettled.wp_quiet (p := perform (file fileId)) (performs_perform.mpr trivial)))
  refine wp_inl_bind.mpr (Protocol.wp_mono (fun failed w hsettled => ?_) (hsettled.wp_fileSubmitOrWait htype hlt))
  cases failed <;> exact hsettled

theorem QueueSettled.wp_filePread {fileId : ℕ} {count offset : ℤ} (hsettled : QueueSettled c t w) (hasync : c.fileIoMode = .async)
    (hlt : c.fileAsyncBacklog < 2 ^ 32) :
    (aioQueueProtocol c).wp t (filePread c fileId count offset).inl (fun _ => QueueSettled c t) w := by
  unfold filePread
  rw [hasync]
  exact hsettled.wp_transfer (Or.inl rfl) hlt

theorem QueueSettled.wp_filePwrite {fileId : ℕ} {count offset : ℤ} (hsettled : QueueSettled c t w) (hasync : c.fileIoMode = .async)
    (hlt : c.fileAsyncBacklog < 2 ^ 32) :
    (aioQueueProtocol c).wp t (filePwrite c fileId count offset).inl (fun _ => QueueSettled c t) w := by
  unfold filePwrite
  rw [hasync]
  exact hsettled.wp_transfer (Or.inr rfl) hlt

/-- In asynchronous mode `file_execute_event` leaves it to `file_wait` to count. -/
theorem uncounted_quiet (hasync : c.fileIoMode = .async) (p : Thread FileOp FileOp.Res Unit) :
    (do onlyIf (c.fileIoMode ≠ .async) p; return false : FileM Bool).Performs Quiet :=
  Performs.bind (Performs.onlyIf fun hmode => absurd hasync hmode) fun _ => trivial

theorem QueueSettled.wp_executeWrite {req : SbFileRequest} (hsettled : QueueSettled c t w) (hasync : c.fileIoMode = .async)
    (hlt : c.fileAsyncBacklog < 2 ^ 32) : (aioQueueProtocol c).wp t (executeWrite c req).inl (fun _ => QueueSettled c t) w := by
  refine wp_inl_bind.mpr (Protocol.wp_mono (fun _ w hsettled => ?_)
    (hsettled.wp_quiet (Performs.onlyIf fun _ => performs_perform.mpr trivial)))
  refine wp_inl_bind.mpr (Protocol.wp_mono (fun r w hsettled => ?_) (hsettled.wp_filePwrite hasync hlt))
  refine hsettled.wp_quiet (Performs.ite (fun _ => trivial) fun _ => Performs.ite (fun _ => Performs.bind (fileFsync_quiet _)
    fun _ => Performs.ite (fun _ => trivial) fun _ => ?_) fun _ => ?_) <;>
  exact uncounted_quiet hasync _

theorem QueueSettled.wp_executeRead {req : SbFileRequest} (hsettled : QueueSettled c t w) (hasync : c.fileIoMode = .async)
    (hlt : c.fileAsyncBacklog < 2 ^ 32) : (aioQueueProtocol c).wp t (executeRead c req).inl (fun _ => QueueSettled c t) w := by
  refine wp_inl_bind.mpr (Protocol.wp_mono (fun r w hsettled => ?_) (hsettled.wp_filePread hasync hlt))
  refine hsettled.wp_quiet (Performs.ite (fun _ => trivial) fun _ => Performs.ite (fun _ => Performs.bind
    (performs_perform.mpr trivial) fun _ => Performs.ite (fun _ => trivial) fun _ => ?_) fun _ => ?_) <;>
  exact uncounted_quiet hasync _

theorem QueueSettled.wp_fileExecuteEvent {req : SbFileRequest} (hsettled : QueueSettled c t w) (hasync : c.fileIoMode = .async)
    (hlt : c.fileAsyncBacklog < 2 ^ 32) : (aioQueueProtocol c).wp t (fileExecuteEvent c req).inl (fun _ => QueueSettled c t) w := by
  unfold fileExecuteEvent
  split
  · exact hsettled
  · refine wp_inl_bind.mpr (Protocol.wp_mono (fun _ w hsettled => ?_)
      (hsettled.wp_quiet (p := perform (file req.fileId)) (performs_perform.mpr trivial)))
    cases req.operation with
    | null => exact hsettled
    | write => exact hsettled.wp_executeWrite hasync hlt
    | read => exact hsettled.wp_executeRead hasync hlt
    | fsync => exact hsettled.wp_quiet (Performs.ite (fun _ => trivial) fun _ => fileFsync_quiet _)

theorem QueueLedger.wp_loadRequests {f : ℕ → AioM β} (hledger : QueueLedger t q unread 0 w)
    (hnext : ∀ w, QueueLedger t q unread 0 w → (aioQueueProtocol c).wp t (f q.nrequests) Q w) :
    (aioQueueProtocol c).wp t (loadRequests >>= f) Q w := by
  refine Protocol.wp_perform fun h s nrequests s' hrely hinv hexec => ?_
  have hledger := hledger.rely hrely
  rcases hexec with hexec | ⟨nreq, hop, -⟩
  · have hledger' : QueueLedger t q unread 0 (h ++ [.act t (.inr .nrequests) nrequests], s') := by
      rw [hexec.2]
      exact hledger.unnoted rfl rfl rfl rfl
    refine ⟨hledger'.act_guards hinv hexec, ?_⟩
    have hnrequests : nrequests = q.nrequests := by
      rw [hexec.1, show s.aioCtxts t = q from hledger.ctxt]
    rw [hnrequests] at hledger' ⊢
    exact hnext _ hledger'
  · cases hop

/-- `nrequests` operations are waited for, and these are all. -/
theorem AllHandled.wp_drainQueue (hhandled : AllHandled t pending w) (hasync : c.fileIoMode = .async) (hlt : pending.length < 2 ^ 32) :
    (aioQueueProtocol c).wp t (drainQueue c) (fun failed w => failed = false ∧ AllHandled t [] w) w := by
  unfold drainQueue
  rw [if_pos hasync]
  refine QueueLedger.wp_loadRequests hhandled fun w hhandled => ?_
  show (aioQueueProtocol c).wp t (if pending.length > 0 then _ else _) _ w
  split
  · rename_i hpos
    refine QueueLedger.wp_loadRequests hhandled fun w hhandled => ?_
    refine Protocol.wp_mono (fun failed w hw => ?_) (AllHandled.wp_fileWait hhandled hpos le_rfl hlt)
    obtain ⟨hok, rest, hrest, hhandled⟩ := hw
    have hall : rest.length + pending.length ≤ pending.length := hrest
    obtain rfl : rest = [] := List.eq_nil_of_length_eq_zero (by omega)
    exact ⟨hok, hhandled⟩
  · rename_i hnone
    obtain rfl : pending = [] := List.eq_nil_of_length_eq_zero (by omega)
    exact ⟨rfl, hhandled⟩

theorem fsyncFiles_quiet (ids : List ℕ) : (fsyncFiles c ids).Performs Quiet := by
  induction ids with
  | nil => trivial
  | cons id ids ih => exact Performs.bind (fileFsync_quiet id) fun _ => Performs.ite (fun _ => trivial) fun _ => ih

theorem QueueSettled.wp_fileThreadDone (hsettled : QueueSettled c t w) (hasync : c.fileIoMode = .async)
    (hlt : c.fileAsyncBacklog < 2 ^ 32) :
    (aioQueueProtocol c).wp t (fileThreadDone c) (fun failed w => QueueSettled c t w ∧ (failed = false → AllHandled t [] w)) w := by
  have hquiet : (fsyncAtEnd c).Performs Quiet := Performs.ite (fun _ => fsyncFiles_quiet _) fun _ => trivial
  refine Protocol.wp_bind.mpr (Protocol.wp_mono (fun failed w hsettled => ?_) (hsettled.wp_quiet hquiet))
  cases failed with
  | true => exact ⟨hsettled, nofun⟩
  | false =>
    obtain ⟨pending, hhandled, hroom⟩ := hsettled
    refine Protocol.wp_mono (fun failed w hw => ?_) (AllHandled.wp_drainQueue hhandled hasync (by omega))
    exact ⟨⟨[], hw.2, by show 0 < _; omega⟩, fun _ => hw.2⟩

/-! ### Whole runs -/

theorem aioQueue_kept (hasync : c.fileIoMode = .async) (hlt : c.fileAsyncBacklog < 2 ^ 32) :
    (aioQueueProtocol c).Kept (aioQueueBody c) := by
  intro t call h s hinv hidle
  obtain ⟨pending, hhandled, hroom⟩ := hidle.1
  have hhandled' : AllHandled t pending (h ++ [.call t call], s) := QueueLedger.unnoted hhandled rfl rfl rfl rfl
  refine ⟨QueueLedger.guards hhandled' hinv rfl (hinv.1.same rfl ⟨rfl, rfl⟩ ⟨rfl, rfl⟩) fun _ _ => rfl, ?_⟩
  have hsettled : QueueSettled c t (h ++ [.call t call], s) := ⟨pending, hhandled', hroom⟩
  -- What holds at the end of the call is still so when it has been returned from.
  have hreturns : ∀ failed w, QueueSettled c t w → (call = .threadDone → failed = false → AllHandled t [] w) →
      (aioQueueProtocol c).Returns t call failed w := by
    intro failed w hsettled hdone h s hrely hinv
    obtain ⟨pending, hhandled, hroom⟩ := hsettled.rely hrely
    have hhandled' : AllHandled t pending (h ++ [.ret t call failed], s) := QueueLedger.unnoted hhandled rfl rfl rfl rfl
    refine ⟨QueueLedger.guards hhandled' hinv rfl (hinv.1.same rfl ⟨rfl, rfl⟩ ⟨rfl, rfl⟩) fun _ _ => rfl,
      ⟨pending, hhandled', hroom⟩, fun hlast => ?_⟩
    have hsnoc : lastReturn (turnsOf t (h ++ [.ret t call failed])) = some (call, failed) := by
      have hturns : turnsOf t (h ++ [.ret t call failed]) = turnsOf t h ++ [.ret t call failed] := turnsOf_snoc_self rfl
      rw [hturns, lastReturn_snoc]
      rfl
    obtain ⟨rfl, rfl⟩ : call = .threadDone ∧ failed = false := Prod.mk.inj (Option.some.inj (hsnoc.symm.trans hlast))
    exact QueueLedger.unnoted (QueueLedger.rely (hdone rfl rfl) hrely) rfl rfl rfl rfl
  cases call with
  | execute req =>
    exact Protocol.wp_mono (fun failed w hsettled => hreturns failed w hsettled nofun) (hsettled.wp_fileExecuteEvent hasync hlt)
  | submit write fileId count offset =>
    refine Protocol.wp_mono (fun failed w hsettled => hreturns failed w hsettled nofun) (hsettled.wp_fileSubmitOrWait ?_ hlt)
    cases write with
    | true => exact Or.inr rfl
    | false => exact Or.inl rfl
  | threadDone =>
    exact Protocol.wp_mono (fun failed w hw => hreturns failed w hw.1 fun _ => hw.2) (hsettled.wp_fileThreadDone hasync hlt)

theorem aioQueue_start (hpos : 0 < c.fileAsyncBacklog) :
    (aioQueueProtocol c).inv ([], .zeroed) ∧ ∀ t, (aioQueueProtocol c).idle t ([], .zeroed) :=
  ⟨⟨⟨rfl, rfl, rfl, rfl⟩, fun _ => rfl⟩, fun _ => ⟨⟨[], ⟨rfl, nofun, .refl _, rfl, rfl⟩, hpos⟩, nofun⟩⟩

end turns

/-- What holds of the queues and of the statistics in a state of a run. -/
structure QueuesRight (c : FileConfig) (h : List AioEvt) (k : Config AioShared ℕ AioOp AioOp.Res (fun _ => AioCall) Bool) : Prop where
  /-- `nrequests` is the number of operations that the thread has submitted and whose reports it has not dealt with. -/
  tally : ∀ t, (k.shared.aioCtxts t).nrequests + submitting (turnsOf t h) + handlings (turnsOf t h) = (submissions (turnsOf t h)).length
  /-- Between two calls it is the number of operations that the kernel has not reported. -/
  pending : ∀ t, k.running t = none → (k.shared.aioCtxts t).nrequests = (k.shared.aioCtxts t).pending.length
  /-- There is room for another one then. -/
  room : ∀ t, k.running t = none → (k.shared.aioCtxts t).nrequests < c.fileAsyncBacklog
  /-- A thread does not wait for more operations than there are. -/
  waits : ∀ t call nreq next, k.running t = some (call, .act (.inl (ioGetevents nreq)) next) →
    nreq ≤ (k.shared.aioCtxts t).pending.length
  /-- At its end it has waited for all operations. -/
  drained : ∀ t, lastReturn (turnsOf t h) = some (.threadDone, false) → (k.shared.aioCtxts t).nrequests = 0
  /-- Each of them has been counted once. -/
  counted : ∀ t, lastReturn (turnsOf t h) = some (.threadDone, false) → (countings (turnsOf t h)).Perm (submissions (turnsOf t h))
  /-- The statistics are about the operations that have been counted. -/
  statistics : Statistics (h, k.shared)
  /-- These are all operations when all threads are at their ends. -/
  finished : (∀ t, turnsOf t h = [] ∨ lastReturn (turnsOf t h) = some (.threadDone, false)) → (countings h).Perm (submissions h)

section runs
variable {c : FileConfig} {h : List AioEvt} {k : Config AioShared ℕ AioOp AioOp.Res (fun _ => AioCall) Bool}

theorem submission_thread (e : AioEvt) (entry : AioEntry) (hnote : submission e = some entry) : entry.thread = e.thread := by
  rcases e with ⟨t, call⟩ | ⟨t, op | load, r⟩ | ⟨t, call, failed⟩
  · cases hnote
  · cases op with
    | ioSubmit type fileId count offset =>
      cases r with
      | true =>
        cases hnote
        rfl
      | false => cases hnote
    | _ => cases hnote
  · cases hnote
  · cases hnote

theorem counting_thread (e : AioEvt) (entry : AioEntry) (hnote : counting e = some entry) : entry.thread = e.thread := by
  rcases e with ⟨t, call⟩ | ⟨t, op | load, r⟩ | ⟨t, call, failed⟩
  · cases hnote
  · cases op with
    | countRead len | countWrite len =>
      cases hnote
      rfl
    | _ => cases hnote
  · cases hnote
  · cases hnote

theorem running_of_lastReturn {t : ℕ} {r : AioCall × Bool} (hrun : Interleaving (AioExec c) (aioQueueBody c) .zeroed h k)
    (hlast : lastReturn (turnsOf t h) = some r) : k.running t = none := by
  obtain ⟨e, he, hreturned⟩ := Option.bind_eq_some_iff.mp hlast
  have hturn : e.thread = t := thread_of_mem_turnsOf (List.mem_of_getLast? he)
  cases e with
  | ret u call failed =>
    obtain rfl : u = t := hturn
    exact hrun.running_eq_none he
  | _ => cases hreturned

/-- In every run the queues and the statistics are right. -/
theorem queuesRight (hasync : c.fileIoMode = .async) (hpos : 0 < c.fileAsyncBacklog) (hlt : c.fileAsyncBacklog < 2 ^ 31)
    (hrun : Interleaving (AioExec c) (aioQueueBody c) .zeroed h k) : QueuesRight c h k := by
  obtain ⟨hinv, hready⟩ := (aioQueue_kept hasync (by omega)).interleaving (P := aioQueueProtocol c) (aioQueue_start hpos).1
    (aioQueue_start hpos).2 (hrun.mono Or.inl)
  have hidle : ∀ t, k.running t = none → (aioQueueProtocol c).idle t (h, k.shared) := fun t hnone => by
    have hthread : (aioQueueProtocol c).Ready (h, k.shared) t (k.running t) := hready t
    rwa [hnone] at hthread
  have hdone : ∀ t, lastReturn (turnsOf t h) = some (.threadDone, false) → AllHandled t [] (h, k.shared) := fun t hlast =>
    (hidle t (running_of_lastReturn hrun hlast)).2 hlast
  have hcounted : ∀ t, lastReturn (turnsOf t h) = some (.threadDone, false) →
      (countings (turnsOf t h)).Perm (submissions (turnsOf t h)) := fun t hlast => by
    simpa using (hdone t hlast).balance.symm
  refine ⟨hinv.2, fun t hnone => ?_, fun t hnone => ?_, fun t call nreq next hrunning => ?_, fun t hlast => ?_, hcounted, hinv.1,
    fun hall => perm_of_turnsOf counting_thread submission_thread fun t => ?_⟩
  · obtain ⟨pending, hhandled, -⟩ := (hidle t hnone).1
    rw [show k.shared.aioCtxts t = _ from hhandled.ctxt]
  · obtain ⟨pending, hhandled, hroom⟩ := (hidle t hnone).1
    rwa [show k.shared.aioCtxts t = _ from hhandled.ctxt]
  · have hthread : (aioQueueProtocol c).Ready (h, k.shared) t (k.running t) := hready t
    rw [hrunning] at hthread
    by_contra hstuck
    -- If the thread were stuck, the queue of another could change.
    obtain ⟨⟨-, hothers⟩, -⟩ := hthread h k.shared [] (k.shared.setCtxt (t + 1) ⟨(k.shared.aioCtxts (t + 1)).nrequests + 1, []⟩)
      ⟨rfl, rfl⟩ hinv (Or.inr ⟨nreq, rfl, not_le.mp hstuck⟩)
    have hctxt := congrArg AioQueue.nrequests (hothers (t + 1) (Nat.succ_ne_self t)).ctxt
    rw [setCtxt_self] at hctxt
    exact absurd hctxt (Nat.succ_ne_self _)
  · rw [show k.shared.aioCtxts t = _ from (hdone t hlast).ctxt]
    rfl
  · rcases hall t with hnil | hlast
    · rw [hnil]
      rfl
    · exact hcounted t hlast

end runs

/-- `--file-async-backlog=2`. -/
def shortQueue : FileConfig := { asyncFiles with fileAsyncBacklog := 2 }

/-- Where two operations may be pending, the write is reported before the read, which is left to the end. -/
theorem queuesRight_short : ∃ h k, Interleaving (AioExec shortQueue) (aioQueueBody shortQueue) .zeroed h k ∧
    lastReturn (turnsOf 0 h) = some (.threadDone, false) ∧ submissions h = [⟨0, .read, 16384⟩, ⟨0, .write, 4096⟩] ∧
    countings h = [⟨0, .write, 4096⟩, ⟨0, .read, 16384⟩] ∧ QueuesRight shortQueue h k := by
  have hrun : Interleaving (AioExec shortQueue) (aioQueueBody shortQueue) .zeroed [] _ := .nil
  have hrun := (hrun.thenCall 0 (.submit false 0 16384 0) rfl).thenAdvance
    (show Advances _ (aioQueueBody shortQueue 0 _) _ [⟨.inl (ioSubmit .read 0 16384 0), true⟩, ⟨.inl incRequests, (1 : ℕ)⟩]
      (.done false) _ by exact .act rfl (.act ⟨rfl, rfl⟩ .refl)) (Function.update_self ..)
  have hrun := hrun.thenRet 0 (Function.update_self ..)
  have hrun := (hrun.thenCall 0 (.submit true 0 4096 0) (Function.update_self ..)).thenAdvance
    (show Advances _ (aioQueueBody shortQueue 0 _) _ [⟨.inl (ioSubmit .write 0 4096 0), true⟩, ⟨.inl incRequests, (2 : ℕ)⟩,
        ⟨.inl (ioGetevents 1), [⟨.write, 4096, 4096⟩]⟩, ⟨.inl (countWrite 4096), ()⟩, ⟨.inl decRequests, ()⟩]
        (.done false) _ by
      exact .act rfl (.act ⟨rfl, rfl⟩ (.act ⟨[⟨.write, 0, 4096, 0⟩], [⟨.read, 0, 16384, 0⟩], .swap .., le_rfl, by decide,
        rfl, rfl⟩ (.act rfl (.act rfl .refl))))) (Function.update_self ..)
  have hrun := hrun.thenRet 0 (Function.update_self ..)
  have hrun := (hrun.thenCall 0 .threadDone (Function.update_self ..)).thenAdvance
    (show Advances _ (aioQueueBody shortQueue 0 _) _ [⟨.inr .nrequests, (1 : ℕ)⟩, ⟨.inr .nrequests, (1 : ℕ)⟩,
        ⟨.inl (ioGetevents 1), [⟨.read, 16384, 16384⟩]⟩, ⟨.inl (countRead 16384), ()⟩, ⟨.inl decRequests, ()⟩]
        (.done false) _ by
      exact .act ⟨rfl, rfl⟩ (.act ⟨rfl, rfl⟩ (.act ⟨[⟨.read, 0, 16384, 0⟩], [], .refl _, le_rfl, by decide, rfl, rfl⟩
        (.act rfl (.act rfl .refl))))) (Function.update_self ..)
  have hrun := hrun.thenRet 0 (Function.update_self ..)
  exact ⟨_, _, hrun, rfl, rfl, rfl, queuesRight rfl (by decide) (by decide) hrun⟩

end NuKSM.Sysbench
