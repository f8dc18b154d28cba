import NuKSM.Lib.Advance
import NuKSM.Sysbench.FileAio
import NuKSM.Theorems.Sysbench.FileConfig

/-! # The buffer of asynchronous operations

Where a thread waits for each operation that it submits, it has the buffer for itself between two requests. -/

namespace NuKSM.Sysbench
open Thread FileOp

abbrev FileEvent := Event AioThread FileOp FileOp.Res AioThread.Call Bool

abbrev FileWorld := World AioContext AioThread FileOp FileOp.Res AioThread.Call Bool

abbrev FileAioConfig := Config AioContext AioThread FileOp FileOp.Res AioThread.Call Bool

/-! ### What a run has done -/

/-- What the bytes in the buffer are. Operations are numbered as they are submitted. -/
inductive BufferSource
  | unset
  | filled
  | delivered (number : ℕ) (count : ℤ)
  deriving DecidableEq, Repr

/-- The operations in flight with their numbers, the buffer, whether it was modified while a write of it was in flight, and
whether bytes of it were validated that the last read has not delivered. -/
structure AioAudit where
  submitted : ℕ
  inFlight : List (ℕ × AioOper)
  buffer : BufferSource
  overwritten : Prop
  undelivered : Prop

def AioAudit.zero : AioAudit := ⟨0, [], .unset, False, False⟩

/-- A write is in flight. -/
def AioAudit.Writing (a : AioAudit) : Prop := ∃ o ∈ a.inFlight, o.2.type = .write ∧ 0 < o.2.len

/-- The kernel performs an operation. -/
def AioAudit.perform (a : AioAudit) (number : ℕ) (o : AioOper) (i : ℕ) (res : ℤ) : AioAudit :=
  { a with
    inFlight := a.inFlight.eraseIdx i
    buffer := if o.type = .read then .delivered number res else a.buffer
    overwritten := a.overwritten ∨ o.type = .read ∧ a.Writing }

def AioAudit.record (a : AioAudit) : FileEvent → AioAudit
  | .act _ (.ioSubmit type fileId count offset) accepted =>
    if accepted then
      { a with submitted := a.submitted + 1, inFlight := a.inFlight ++ [(a.submitted, ⟨type, fileId, count, offset⟩)] }
    else a
  | .act _ (.fillBuffer _ _) _ => { a with buffer := .filled, overwritten := a.overwritten ∨ a.Writing }
  | .act _ (.validateBuffer len _) _ =>
    { a with undelivered := a.undelivered ∨ 0 < len ∧ a.buffer ≠ .delivered (a.submitted - 1) len }
  | .act _ (.performAio i) res =>
    match a.inFlight[i]? with
    | some (number, o) => a.perform number o i res
    | none => a
  | _ => a

def aioAudit (h : List FileEvent) : AioAudit := h.foldl AioAudit.record .zero

theorem aioAudit_snoc (h : List FileEvent) (e : FileEvent) : aioAudit (h ++ [e]) = (aioAudit h).record e := by
  simp only [aioAudit, List.foldl_append, List.foldl_cons, List.foldl_nil]

/-- No write in flight had its buffer modified, and validation was of bytes that the read had delivered. -/
structure AioAudit.Right (a : AioAudit) : Prop where
  kept : ¬a.overwritten
  delivered : ¬a.undelivered

/-! ### One operation at a time -/

/-- Nothing is in flight, and nothing is left to report. -/
def NoneInFlight (w : FileWorld) : Prop := (aioAudit w.1).inFlight = [] ∧ w.2.completed = []

/-- The operation that was submitted last is in flight, or is left to report. -/
def Waiting (o : AioOper) (w : FileWorld) : Prop :=
  ∃ k, (aioAudit w.1).submitted = k + 1 ∧ ((aioAudit w.1).inFlight = [(k, o)] ∧ w.2.completed = [] ∨
    (aioAudit w.1).inFlight = [] ∧ ∃ res, w.2.completed = [⟨o.type, o.len, res⟩] ∧
      (o.type = .read → (aioAudit w.1).buffer = .delivered k res))

structure AioInv (w : FileWorld) : Prop where
  inFlight : (aioAudit w.1).inFlight.map (·.2) = w.2.inFlight
  phase : NoneInFlight w ∨ ∃ o, Waiting o w
  right : (aioAudit w.1).Right

/-- What the thread finds again after the turns of the kernel. -/
structure SameAio (w w' : FileWorld) : Prop where
  submitted : (aioAudit w'.1).submitted = (aioAudit w.1).submitted
  quiet : NoneInFlight w → NoneInFlight w' ∧ (aioAudit w'.1).buffer = (aioAudit w.1).buffer
  waiting : ∀ o, Waiting o w → Waiting o w'

def aioProtocol (c : FileConfig) : Protocol AioContext AioThread FileOp FileOp.Res AioThread.Call Bool where
  exec := AioStep c
  inv := AioInv
  idle t w := t = .worker → NoneInFlight w
  rely t w w' := t = .worker → SameAio w w'
  rely_refl _ _ _ := ⟨rfl, fun h => ⟨h, rfl⟩, fun _ h => h⟩
  rely_trans h₁ h₂ ht := by
    obtain ⟨hsubmitted₁, hnone₁, hwaiting₁⟩ := h₁ ht
    obtain ⟨hsubmitted₂, hnone₂, hwaiting₂⟩ := h₂ ht
    refine ⟨hsubmitted₂.trans hsubmitted₁, fun hq => ?_, fun o ho => hwaiting₂ o (hwaiting₁ o ho)⟩
    obtain ⟨hq', hbuffer₁⟩ := hnone₁ hq
    obtain ⟨hq'', hbuffer₂⟩ := hnone₂ hq'
    exact ⟨hq'', hbuffer₂.trans hbuffer₁⟩
  idle_rely hidle hsame ht := ((hsame ht).quiet (hidle ht)).1

section turns
variable {c : FileConfig} {h : List FileEvent} {s s' : AioContext} {w w' : FileWorld} {e : FileEvent} {o : AioOper} {α : Type}
  {p : FileM α} {Q : α → FileWorld → Prop}

/-- The last read has delivered so many bytes to the buffer. -/
structure Delivered (len : ℤ) (w : FileWorld) : Prop where
  quiet : NoneInFlight w
  buffer : 0 < len → (aioAudit w.1).buffer = .delivered ((aioAudit w.1).submitted - 1) len

theorem Delivered.rely {len : ℤ} (hd : Delivered len w) (hsame : SameAio w w') : Delivered len w' := by
  obtain ⟨hnone, hbuffer⟩ := hsame.quiet hd.quiet
  refine ⟨hnone, fun hlen => ?_⟩
  rw [hbuffer, hsame.submitted]
  exact hd.buffer hlen

/-! ### Turns of the worker -/

/-- Only the worker relies on anything. -/
theorem worker_guards_aio (hinv : AioInv w') : (aioProtocol c).Guards .worker w w' :=
  ⟨hinv, fun _ hne hworker => absurd hworker hne⟩

/-- Operations on neither the buffer nor the queue. -/
def FileOp.Harmless : FileOp → Prop
  | fillBuffer .. | validateBuffer .. | ioSubmit .. | ioGetevents _ | performAio _ => False
  | _ => True

theorem FileOp.Harmless.same {t : AioThread} {op : FileOp} {r : op.Res} (hop : op.Harmless) (hinv : AioInv (h, s))
    (hexec : AioStep c t op s r s') :
    AioInv (h ++ [.act t op r], s') ∧ SameAio (h, s) (h ++ [.act t op r], s') := by
  have hsnoc : aioAudit (h ++ [.act t op r]) = aioAudit h := by
    rw [aioAudit_snoc]
    cases op <;> first | rfl | exact hop.elim
  have hcontext : s'.inFlight = s.inFlight ∧ s'.completed = s.completed := by
    cases op <;> first | exact hop.elim | (cases hexec; exact ⟨rfl, rfl⟩) | (obtain ⟨-, rfl⟩ := hexec; exact ⟨rfl, rfl⟩)
  have hnone : NoneInFlight (h ++ [.act t op r], s') ↔ NoneInFlight (h, s) := by
    unfold NoneInFlight
    rw [hsnoc, hcontext.2]
  have hwaiting : ∀ o, Waiting o (h ++ [.act t op r], s') ↔ Waiting o (h, s) := by
    intro o
    unfold Waiting
    rw [hsnoc, hcontext.2]
  refine ⟨⟨?_, ?_, hsnoc ▸ hinv.right⟩, hsnoc ▸ rfl, fun hq => ⟨hnone.mpr hq, hsnoc ▸ rfl⟩, fun o ho => (hwaiting o).mpr ho⟩
  · show (aioAudit (h ++ [_])).inFlight.map _ = s'.inFlight
    rw [hsnoc, hcontext.1]
    exact hinv.inFlight
  · exact hinv.phase.imp hnone.mpr fun ⟨o, ho⟩ => ⟨o, (hwaiting o).mpr ho⟩

theorem wp_harmless {β : Type} {p : FileM β} {q : β → FileM α} {I : FileWorld → Prop} (hp : p.Performs Harmless) (hI : I w)
    (hsame : ∀ {w w'}, I w → SameAio w w' → I w') (hnext : ∀ b w, I w → (aioProtocol c).wp .worker (q b) Q w) :
    (aioProtocol c).wp .worker (p >>= q) Q w := by
  refine Protocol.wp_bind.mpr (Protocol.wp_mono (fun b w hw => hnext b w hw) (Protocol.wp_of_performs (P := aioProtocol c)
    (t := .worker) (A := Harmless) (fun op h s r s' hop hw hinv hexec => ?_) (fun hw hrely => hsame hw (hrely rfl)) hp hI))
  obtain ⟨hinv', hstep⟩ := hop.same hinv hexec
  exact ⟨worker_guards_aio hinv', hsame hw hstep⟩

/-- The worker fills the buffer while nothing is in flight. -/
theorem wp_fillBuffer {len offset : ℤ} (hq : NoneInFlight w) :
    (aioProtocol c).wp .worker (perform (fillBuffer len offset)) (fun _ => NoneInFlight) w := by
  intro h s r s' hrely hinv hexec
  cases hexec
  have hq : NoneInFlight (h, s) := ((hrely rfl).quiet hq).1
  have hsnoc := aioAudit_snoc h (.act .worker (.fillBuffer len offset) r)
  have hnone : NoneInFlight (h ++ [.act .worker (.fillBuffer len offset) r], s) := by
    unfold NoneInFlight
    rw [hsnoc]
    exact hq
  refine ⟨worker_guards_aio ⟨?_, Or.inl hnone, ?_⟩, hnone⟩
  · rw [hsnoc]
    exact hinv.inFlight
  · rw [hsnoc]
    refine ⟨?_, hinv.right.delivered⟩
    rintro (hover | ⟨o, ho, -⟩)
    · exact hinv.right.kept hover
    · rw [hq.1] at ho
      cases ho

/-- The worker validates what the read has delivered. -/
theorem wp_validateBuffer {len offset : ℤ} {q : Bool → FileM α} (hd : Delivered len w)
    (hnext : ∀ bad w, NoneInFlight w → (aioProtocol c).wp .worker (q bad) Q w) :
    (aioProtocol c).wp .worker (perform (validateBuffer len offset) >>= q) Q w := by
  refine Protocol.wp_perform fun h s r s' hrely hinv hexec => ?_
  cases hexec
  obtain ⟨hq, hbuffer⟩ := hd.rely (hrely rfl)
  have hsnoc := aioAudit_snoc h (.act .worker (.validateBuffer len offset) r)
  have hnone : NoneInFlight (h ++ [.act .worker (.validateBuffer len offset) r], s) := by
    unfold NoneInFlight
    rw [hsnoc]
    exact hq
  refine ⟨worker_guards_aio ⟨?_, Or.inl hnone, ?_⟩, hnext r _ hnone⟩
  · rw [hsnoc]
    exact hinv.inFlight
  · rw [hsnoc]
    refine ⟨hinv.right.kept, ?_⟩
    rintro (hunread | ⟨hlen, hne⟩)
    · exact hinv.right.delivered hunread
    · exact hne (hbuffer hlen)

theorem wp_ioSubmit {type : SbFileOp} {fileId : ℕ} {count offset : ℤ} {q : Bool → FileM α} (hq : NoneInFlight w)
    (hnext : ∀ w, Waiting ⟨type, fileId, count, offset⟩ w → (aioProtocol c).wp .worker (q true) Q w)
    (hrefused : ∀ w, NoneInFlight w → (aioProtocol c).wp .worker (q false) Q w) :
    (aioProtocol c).wp .worker (perform (ioSubmit type fileId count offset) >>= q) Q w := by
  refine Protocol.wp_perform fun h s accepted s' hrely hinv hexec => ?_
  cases hexec
  have hq : NoneInFlight (h, s) := ((hrely rfl).quiet hq).1
  have hsnoc := aioAudit_snoc h (.act .worker (.ioSubmit type fileId count offset) accepted)
  cases accepted with
  | false =>
    have hsnoc : aioAudit (h ++ [.act .worker (.ioSubmit type fileId count offset) false]) = aioAudit h := hsnoc
    have hnone : NoneInFlight (h ++ [.act .worker (.ioSubmit type fileId count offset) false], s) := by
      unfold NoneInFlight
      rw [hsnoc]
      exact hq
    refine ⟨worker_guards_aio ⟨?_, Or.inl hnone, hsnoc ▸ hinv.right⟩, hrefused _ hnone⟩
    rw [hsnoc]
    exact hinv.inFlight
  | true =>
    have hsnoc : aioAudit (h ++ [.act .worker (.ioSubmit type fileId count offset) true]) =
      { aioAudit h with
        submitted := (aioAudit h).submitted + 1
        inFlight := (aioAudit h).inFlight ++ [((aioAudit h).submitted, ⟨type, fileId, count, offset⟩)] } := hsnoc
    set s' : AioContext := { s with inFlight := s.inFlight ++ [⟨type, fileId, count, offset⟩] }
    have hwaiting : Waiting ⟨type, fileId, count, offset⟩ (h ++ [.act .worker (.ioSubmit type fileId count offset) true], s') := by
      refine ⟨(aioAudit h).submitted, by rw [hsnoc], Or.inl ⟨?_, hq.2⟩⟩
      rw [hsnoc]
      show (aioAudit h).inFlight ++ _ = _
      rw [hq.1]
      rfl
    refine ⟨worker_guards_aio ⟨?_, Or.inr ⟨_, hwaiting⟩, ?_⟩, hnext _ hwaiting⟩
    · rw [hsnoc]
      show List.map _ (_ ++ _) = s.inFlight ++ _
      rw [List.map_append, hinv.inFlight]
      rfl
    · rw [hsnoc]
      exact ⟨hinv.right.kept, hinv.right.delivered⟩

/-- With room for one operation, the one that was submitted is reported. -/
theorem wp_ioGetevents {q : List AioEvent → FileM α} (hbacklog : c.fileAsyncBacklog = 1) (hw : Waiting o w)
    (hnext : ∀ res w, NoneInFlight w → (o.type = .read → (aioAudit w.1).buffer = .delivered ((aioAudit w.1).submitted - 1) res) →
      (aioProtocol c).wp .worker (q [⟨o.type, o.len, res⟩]) Q w) :
    (aioProtocol c).wp .worker (perform (ioGetevents 1) >>= q) Q w := by
  refine Protocol.wp_perform fun h s events s' hrely hinv hexec => ?_
  obtain ⟨hleast, hmost, rest, hperm, rfl⟩ := hexec
  obtain ⟨k, hsubmitted, hphase⟩ := (hrely rfl).waiting o hw
  have hsnoc : aioAudit (h ++ [.act .worker (.ioGetevents 1) events]) = aioAudit h := aioAudit_snoc h _
  rcases hphase with ⟨-, hnone⟩ | ⟨hdone, res, hcompleted, hbuffer⟩
  · -- Nothing has been performed yet: the thread is still waiting.
    have hperm := hperm.length_eq
    rw [show s.completed = [] from hnone, List.length_append] at hperm
    simp only [List.length_nil] at hperm
    omega
  · have hlength := hperm.length_eq
    rw [show s.completed = [⟨o.type, o.len, res⟩] from hcompleted] at hlength hperm
    rw [List.length_append, List.length_singleton] at hlength
    obtain rfl : rest = [] := List.length_eq_zero_iff.mp (by omega)
    rw [List.append_nil] at hperm
    obtain rfl : events = [⟨o.type, o.len, res⟩] := List.perm_singleton.mp hperm.symm
    have hnone : NoneInFlight (h ++ [.act .worker (.ioGetevents 1) [⟨o.type, o.len, res⟩]], { s with completed := [] }) := by
      refine ⟨?_, rfl⟩
      rw [hsnoc]
      exact hdone
    refine ⟨worker_guards_aio ⟨?_, Or.inl hnone, hsnoc ▸ hinv.right⟩, hnext res _ hnone fun hread => ?_⟩
    · rw [hsnoc]
      exact hinv.inFlight
    · rw [hsnoc, show (aioAudit h).submitted = k + 1 from hsubmitted]
      exact hbuffer hread

/-! ### What the worker does -/

/-- A reported operation, and nothing in flight. -/
structure Reported (type : SbFileOp) (res : ℤ) (w : FileWorld) : Prop where
  quiet : NoneInFlight w
  buffer : type = .read → (aioAudit w.1).buffer = .delivered ((aioAudit w.1).submitted - 1) res

theorem Reported.rely {type : SbFileOp} {res : ℤ} (hr : Reported type res w) (hsame : SameAio w w') : Reported type res w' := by
  obtain ⟨hnone, hbuffer⟩ := hsame.quiet hr.quiet
  refine ⟨hnone, fun hread => ?_⟩
  rw [hbuffer, hsame.submitted]
  exact hr.buffer hread

/-- What the call for an operation comes to. -/
def Submitted (type : SbFileOp) (count : ℤ) (failed : Bool) (w : FileWorld) : Prop :=
  NoneInFlight w ∧ (failed = false → type = .read → Delivered count w)

theorem wp_verifyEvents {type : SbFileOp} {len res : ℤ} (hr : Reported type res w) :
    (aioProtocol c).wp .worker (verifyEvents [⟨type, len, res⟩]) (Submitted type len) w := by
  have hrest : ∀ w, Reported type res w → (type = .read → res = len) →
      (aioProtocol c).wp .worker (do perform decRequests; verifyEvents []) (Submitted type len) w := fun w hr hres =>
    wp_harmless (p := perform decRequests) ⟨trivial, fun _ => trivial⟩ hr Reported.rely fun _ w hr =>
      ⟨hr.quiet, fun _ hread => ⟨hr.quiet, fun _ => hres hread ▸ hr.buffer hread⟩⟩
  have hfailed : Submitted type len true w := ⟨hr.quiet, nofun⟩
  cases type with
  | null => exact hrest w hr nofun
  | fsync =>
    show (aioProtocol c).wp .worker (if res ≠ 0 then _ else _) _ w
    split
    · exact hfailed
    · exact wp_harmless (p := perform countOther) ⟨trivial, fun _ => trivial⟩ hr Reported.rely fun _ w hr => hrest w hr nofun
  | read =>
    show (aioProtocol c).wp .worker (if res ≠ len then _ else _) _ w
    split
    · exact hfailed
    · rename_i hres
      exact wp_harmless (p := perform (countRead len)) ⟨trivial, fun _ => trivial⟩ hr Reported.rely fun _ w hr =>
        hrest w hr fun _ => not_not.mp hres
  | write =>
    show (aioProtocol c).wp .worker (if res ≠ len then _ else _) _ w
    split
    · exact hfailed
    · exact wp_harmless (p := perform (countWrite len)) ⟨trivial, fun _ => trivial⟩ hr Reported.rely fun _ w hr => hrest w hr nofun

/-- The worker waits for what it submits. -/
theorem wp_fileSubmitOrWait {type : SbFileOp} {fileId : ℕ} {count offset : ℤ} (hbacklog : c.fileAsyncBacklog = 1) (hq : NoneInFlight w) :
    (aioProtocol c).wp .worker (fileSubmitOrWait c type fileId count offset) (Submitted type count) w := by
  refine wp_ioSubmit hq (fun w hw => ?_) fun w hq => ⟨hq, nofun⟩
  refine Protocol.wp_perform fun h s nrequests s' hrely hinv hexec => ?_
  have hw := (hrely rfl).waiting _ hw
  obtain ⟨hinv', hsame⟩ := FileOp.Harmless.same (c := c) (show FileOp.incRequests.Harmless from trivial) hinv hexec
  refine ⟨worker_guards_aio hinv', ?_⟩
  obtain ⟨rfl, -⟩ := hexec
  show (aioProtocol c).wp .worker (if s.nrequests + 1 < c.fileAsyncBacklog then _ else _) _ _
  rw [if_neg (by omega)]
  exact wp_ioGetevents hbacklog (hsame.waiting _ hw) fun res w hq hread => wp_verifyEvents ⟨hq, hread⟩

theorem wp_filePread {fileId : ℕ} {count offset : ℤ} (hasync : c.fileIoMode = .async) (hbacklog : c.fileAsyncBacklog = 1)
    (hq : NoneInFlight w) : (aioProtocol c).wp .worker (filePread c fileId count offset) Delivered w := by
  unfold filePread
  rw [hasync]
  refine wp_harmless (p := perform (file fileId)) ⟨trivial, fun _ => trivial⟩ hq (fun hq hsame => (hsame.quiet hq).1) fun _ w hq => ?_
  refine Protocol.wp_bind.mpr (Protocol.wp_mono (fun failed w hdone => ?_) (wp_fileSubmitOrWait hbacklog hq))
  obtain ⟨hq, hdone⟩ := hdone
  cases failed with
  | true => exact ⟨hq, fun h0 => absurd h0 (lt_irrefl 0)⟩
  | false => exact hdone rfl rfl

theorem wp_filePwrite {fileId : ℕ} {count offset : ℤ} (hasync : c.fileIoMode = .async) (hbacklog : c.fileAsyncBacklog = 1)
    (hq : NoneInFlight w) : (aioProtocol c).wp .worker (filePwrite c fileId count offset) (fun _ => NoneInFlight) w := by
  unfold filePwrite
  rw [hasync]
  refine wp_harmless (p := perform (file fileId)) ⟨trivial, fun _ => trivial⟩ hq (fun hq hsame => (hsame.quiet hq).1) fun _ w hq => ?_
  refine Protocol.wp_bind.mpr (Protocol.wp_mono (fun failed w hdone => ?_) (wp_fileSubmitOrWait hbacklog hq))
  cases failed with
  | true => exact hdone.1
  | false => exact hdone.1

theorem fileFsync_harmless (id : ℕ) : (fileFsync c id).Performs Harmless := by
  refine Performs.bind (Performs.bind (performs_perform.mpr trivial) fun _ => ?_) fun _ =>
    Performs.ite (fun _ => trivial) fun _ => Performs.bind (performs_perform.mpr trivial) fun _ => trivial
  cases c.fileIoMode <;> exact performs_perform.mpr trivial

/-- What the thread ends with where only harmless operations are left. -/
theorem wp_noneInFlight {p : FileM α} (hp : p.Performs Harmless) (hq : NoneInFlight w) :
    (aioProtocol c).wp .worker p (fun _ => NoneInFlight) w := by
  refine Protocol.wp_of_performs (P := aioProtocol c) (t := .worker) (A := Harmless) (fun op h s r s' hop hq hinv hexec => ?_)
    (fun hq hrely => ((hrely rfl).quiet hq).1) hp hq
  obtain ⟨hinv', hsame⟩ := hop.same hinv hexec
  exact ⟨worker_guards_aio hinv', (hsame.quiet hq).1⟩

theorem wp_executeWrite {req : SbFileRequest} (hasync : c.fileIoMode = .async) (hbacklog : c.fileAsyncBacklog = 1)
    (hq : NoneInFlight w) : (aioProtocol c).wp .worker (executeWrite c req) (fun _ => NoneInFlight) w := by
  refine Protocol.wp_bind.mpr (Protocol.wp_mono (fun _ w hq => ?_)
    (Protocol.wp_onlyIf (Q := fun _ => NoneInFlight) (fun _ => wp_fillBuffer hq) fun _ => hq))
  refine Protocol.wp_bind.mpr (Protocol.wp_mono (fun r w hq => ?_) (wp_filePwrite hasync hbacklog hq))
  refine wp_noneInFlight (Performs.ite (fun _ => trivial) fun _ => Performs.ite (fun _ => Performs.bind
    (fileFsync_harmless _) fun _ => Performs.ite (fun _ => trivial) fun _ => ?_) fun _ => ?_) hq <;>
  exact Performs.bind (Performs.onlyIf fun _ => performs_perform.mpr trivial) fun _ => trivial

theorem wp_executeRead {req : SbFileRequest} (hasync : c.fileIoMode = .async) (hbacklog : c.fileAsyncBacklog = 1)
    (hq : NoneInFlight w) : (aioProtocol c).wp .worker (executeRead c req) (fun _ => NoneInFlight) w := by
  refine Protocol.wp_bind.mpr (Protocol.wp_mono (fun r w hd => ?_) (wp_filePread hasync hbacklog hq))
  have hcount : ∀ w, NoneInFlight w → (aioProtocol c).wp .worker
      (do onlyIf (c.fileIoMode ≠ .async) (perform (countRead req.size)); return false) (fun _ => NoneInFlight) w := fun w hq =>
    wp_noneInFlight (Performs.bind (Performs.onlyIf fun _ => performs_perform.mpr trivial) fun _ => trivial) hq
  show (aioProtocol c).wp .worker (if r ≠ req.size then _ else _) _ w
  split
  · exact hd.quiet
  · rename_i hr
    rw [not_not.mp hr] at hd
    show (aioProtocol c).wp .worker (if c.validate = true then _ else _) _ w
    split
    · refine wp_validateBuffer hd fun bad w hq => ?_
      cases bad with
      | true => exact hq
      | false => exact hcount w hq
    · exact hcount w hd.quiet

theorem wp_fileExecuteEvent (req : SbFileRequest) (hasync : c.fileIoMode = .async) (hbacklog : c.fileAsyncBacklog = 1)
    (hq : NoneInFlight w) : (aioProtocol c).wp .worker (fileExecuteEvent c req) (fun _ => NoneInFlight) w := by
  unfold fileExecuteEvent
  split
  · exact hq
  · refine wp_harmless (p := perform (file req.fileId)) ⟨trivial, fun _ => trivial⟩ hq (fun hq hsame => (hsame.quiet hq).1)
      fun _ w hq => ?_
    cases req.operation with
    | null => exact hq
    | write => exact wp_executeWrite hasync hbacklog hq
    | read => exact wp_executeRead hasync hbacklog hq
    | fsync => exact wp_noneInFlight (Performs.ite (fun _ => trivial) fun _ => fileFsync_harmless _) hq

/-! ### The kernel -/

/-- The kernel performs the one operation that is in flight. -/
theorem kernel_guards {i : ℕ} {res : ℤ} (hinv : AioInv (h, s)) (hexec : AioStep c .kernel (.performAio i) s res s') :
    (aioProtocol c).Guards .kernel (h, s) (h ++ [.act .kernel (.performAio i) res], s') := by
  obtain ⟨o, hat, rfl⟩ := hexec
  have hlist : (aioAudit h).inFlight.map (·.2) = s.inFlight := hinv.inFlight
  have hnone : (aioAudit h).inFlight ≠ [] := fun hnil => by
    rw [← hlist, hnil] at hat
    cases hat
  rcases hinv.phase with hq | ⟨o', k, hsubmitted, ⟨hflight, hcompleted⟩ | ⟨hflight, -⟩⟩
  · exact absurd hq.1 hnone
  · have hflight : (aioAudit h).inFlight = [(k, o')] := hflight
    have hcompleted : s.completed = [] := hcompleted
    rw [hflight] at hlist
    rw [← hlist] at hat
    obtain ⟨rfl, rfl⟩ : i = 0 ∧ o' = o := by
      cases i with
      | zero => exact ⟨rfl, Option.some.inj hat⟩
      | succ i => cases hat
    have hsnoc : aioAudit (h ++ [.act .kernel (.performAio 0) res]) = (aioAudit h).perform k o' 0 res := by
      rw [aioAudit_snoc]
      show (match (aioAudit h).inFlight[0]? with | some (number, o) => _ | none => _) = _
      rw [hflight]
      rfl
    set s' : AioContext := { s with inFlight := s.inFlight.eraseIdx 0, completed := s.completed ++ [⟨o'.type, o'.len, res⟩] }
    have hwaiting : Waiting o' (h ++ [.act .kernel (.performAio 0) res], s') := by
      refine ⟨k, ?_, Or.inr ⟨?_, res, ?_, fun hread => ?_⟩⟩
      · rw [hsnoc]
        exact hsubmitted
      · rw [hsnoc]
        show (aioAudit h).inFlight.eraseIdx 0 = []
        rw [hflight]
        rfl
      · show s.completed ++ _ = _
        rw [hcompleted]
        rfl
      · rw [hsnoc]
        exact if_pos hread
    refine ⟨⟨?_, Or.inr ⟨o', hwaiting⟩, ?_⟩, fun u _ hworker => ⟨?_, fun hq => absurd hq.1 hnone, fun o₁ ho₁ => ?_⟩⟩
    · rw [hsnoc]
      show ((aioAudit h).inFlight.eraseIdx 0).map _ = s.inFlight.eraseIdx 0
      rw [hflight, ← hlist]
      rfl
    · rw [hsnoc]
      refine ⟨?_, hinv.right.delivered⟩
      rintro (hover | ⟨hread, o₁, ho₁, hwrite, -⟩)
      · exact hinv.right.kept hover
      · rw [hflight, List.mem_singleton] at ho₁
        rw [ho₁, hread] at hwrite
        cases hwrite
    · rw [hsnoc]
      rfl
    · obtain ⟨k₁, -, ⟨hflight₁, -⟩ | ⟨hflight₁, -⟩⟩ := ho₁
      · rw [show (aioAudit h).inFlight = _ from hflight₁] at hflight
        cases hflight
        exact hwaiting
      · exact absurd hflight₁ hnone
  · exact absurd hflight hnone

/-- A turn that the audit does not note, and that leaves the context. -/
theorem aio_unnoted (hinv : AioInv (h, s)) (hnote : (aioAudit h).record e = aioAudit h) :
    AioInv (h ++ [e], s) ∧ SameAio (h, s) (h ++ [e], s) := by
  have hsnoc : aioAudit (h ++ [e]) = aioAudit h := (aioAudit_snoc h e).trans hnote
  have hnone : NoneInFlight (h ++ [e], s) ↔ NoneInFlight (h, s) := by
    unfold NoneInFlight
    rw [hsnoc]
  have hwaiting : ∀ o, Waiting o (h ++ [e], s) ↔ Waiting o (h, s) := by
    intro o
    unfold Waiting
    rw [hsnoc]
  refine ⟨⟨?_, hinv.phase.imp hnone.mpr fun ⟨o, ho⟩ => ⟨o, (hwaiting o).mpr ho⟩, hsnoc ▸ hinv.right⟩, hsnoc ▸ rfl,
    fun hq => ⟨hnone.mpr hq, hsnoc ▸ rfl⟩, fun o ho => (hwaiting o).mpr ho⟩
  rw [hsnoc]
  exact hinv.inFlight

theorem aio_kept (hasync : c.fileIoMode = .async) (hbacklog : c.fileAsyncBacklog = 1) : (aioProtocol c).Kept (aioBody c) := by
  intro t call h s hinv hidle
  obtain ⟨hinv', hsame⟩ := aio_unnoted (e := .call t call) hinv rfl
  refine ⟨⟨hinv', fun _ _ _ => hsame⟩, ?_⟩
  have hreturns : ∀ b w, (t = .worker → NoneInFlight w) → (aioProtocol c).Returns t call b w := by
    intro b w hq h s hrely hinv
    obtain ⟨hinv', hsame'⟩ := aio_unnoted (e := .ret t call b) hinv rfl
    refine ⟨⟨hinv', fun _ _ _ => hsame'⟩, fun ht => ?_⟩
    exact (hsame'.quiet ((hrely ht).quiet (hq ht)).1).1
  cases t with
  | worker =>
    have hq := (hsame.quiet (hidle rfl)).1
    exact Protocol.wp_mono (fun b w hq => hreturns b w fun _ => hq) (wp_fileExecuteEvent call.1 hasync hbacklog hq)
  | kernel =>
    exact Protocol.wp_perform fun h s res s' _ hinv hexec => ⟨kernel_guards hinv hexec, hreturns false _ nofun⟩

end turns

theorem aioInv_empty : AioInv ([], .empty) := ⟨rfl, Or.inl ⟨rfl, rfl⟩, not_false, not_false⟩

/-! ### Empty files -/

/-- What is submitted or validated has no bytes. -/
def FileOp.Short : FileOp → Prop
  | ioSubmit _ _ count _ => count ≤ 0
  | validateBuffer len _ => len ≤ 0
  | _ => True

/-- Everything in flight has no bytes. -/
structure ShortInv (w : FileWorld) : Prop where
  short : ∀ o ∈ (aioAudit w.1).inFlight, o.2.len ≤ 0
  right : (aioAudit w.1).Right

def shortProtocol (c : FileConfig) : Protocol AioContext AioThread FileOp FileOp.Res AioThread.Call Bool where
  exec := AioStep c
  inv := ShortInv
  idle _ _ := True
  rely _ _ _ := True
  rely_refl _ _ := trivial
  rely_trans _ _ := trivial
  idle_rely _ _ := trivial

theorem ShortInv.act {h : List FileEvent} {s s' : AioContext} (hinv : ShortInv (h, s)) {t : AioThread} {op : FileOp} {r : op.Res}
    (hop : op.Short) : ShortInv (h ++ [.act t op r], s') := by
  have hwriting : ¬(aioAudit h).Writing := fun ⟨o, ho, _, hlen⟩ => absurd (hinv.short o ho) (not_le.mpr hlen)
  obtain ⟨hshort, hkept, hdelivered⟩ := hinv
  suffices hnew : (∀ o ∈ ((aioAudit h).record (.act t op r)).inFlight, o.2.len ≤ 0) ∧ ((aioAudit h).record (.act t op r)).Right by
    rw [← aioAudit_snoc] at hnew
    exact ⟨hnew.1, hnew.2⟩
  cases op with
  | ioSubmit type fileId count offset =>
    cases r with
    | false => exact ⟨hshort, hkept, hdelivered⟩
    | true =>
      refine ⟨fun o ho => ?_, hkept, hdelivered⟩
      rcases List.mem_append.mp ho with ho | ho
      · exact hshort o ho
      · rw [List.mem_singleton.mp ho]
        exact hop
  | fillBuffer => exact ⟨hshort, fun hover => hover.elim hkept hwriting, hdelivered⟩
  | validateBuffer => exact ⟨hshort, hkept, fun hunread => hunread.elim hdelivered fun hlen => absurd hlen.1 (not_lt.mpr hop)⟩
  | performAio i =>
    show (∀ o ∈ (match (aioAudit h).inFlight[i]? with | some (number, o) => _ | none => _ : AioAudit).inFlight, _) ∧
      (match (aioAudit h).inFlight[i]? with | some (number, o) => _ | none => _ : AioAudit).Right
    cases (aioAudit h).inFlight[i]? with
    | none => exact ⟨hshort, hkept, hdelivered⟩
    | some o => exact ⟨fun o' ho' => hshort o' (List.mem_of_mem_eraseIdx ho'), fun hover => hover.elim hkept fun hand =>
        hwriting hand.2, hdelivered⟩
  | _ => exact ⟨hshort, hkept, hdelivered⟩

section configs
variable {c : FileConfig}

/-- Where files are empty, requests with bytes are rejected. -/
theorem fileExecuteEvent_short {req : SbFileRequest} (hpos : 0 ≤ req.pos) (hfile : c.fileSize ≤ 0) :
    (fileExecuteEvent c req).Performs FileOp.Short := by
  refine Performs.mono (fun op hop => ?_) (fileExecuteEvent_serves c req)
  obtain ⟨hserves, hcheck⟩ := hop
  have hfits := fits_of_checkRequest hcheck
  cases op with
  | ioSubmit type id count offset =>
    have hcount : count = req.size := hserves.2.1
    show count ≤ 0
    omega
  | validateBuffer len offset =>
    have hlen : len = req.size := hserves.1
    show len ≤ 0
    omega
  | _ => trivial

theorem short_kept (hfile : c.fileSize ≤ 0) : (shortProtocol c).Kept (aioBody c) := by
  have hunnoted : ∀ {h : List FileEvent} {s : AioContext} {e : FileEvent}, ShortInv (h, s) → (aioAudit h).record e = aioAudit h →
      ShortInv (h ++ [e], s) := fun {h s e} hinv hnote => by
    have hsnoc : aioAudit (h ++ [e]) = aioAudit h := (aioAudit_snoc h e).trans hnote
    exact ⟨hsnoc ▸ hinv.short, hsnoc ▸ hinv.right⟩
  intro t call h s hinv _
  refine ⟨⟨hunnoted hinv rfl, fun _ _ => trivial⟩, ?_⟩
  have hreturns : ∀ b w, (shortProtocol c).Returns t call b w := fun b w h s _ hinv =>
    ⟨⟨hunnoted hinv rfl, fun _ _ => trivial⟩, trivial⟩
  have hshort : (aioBody c t call).Performs FileOp.Short := by
    cases t with
    | worker => exact fileExecuteEvent_short call.2 hfile
    | kernel => exact ⟨trivial, fun _ => trivial⟩
  refine Protocol.wp_mono (fun b w _ => hreturns b w) (Protocol.wp_of_performs (P := shortProtocol c) (I := fun _ => True)
    (fun op h s r s' hop _ hinv _ => ⟨⟨hinv.act hop, fun _ _ => trivial⟩, trivial⟩) (fun _ _ => trivial) hshort trivial)

/-! ### Whole runs -/

/-- With room for another operation, a read goes on before it has been performed. -/
theorem filePread_advances {id : ℕ} {count offset : ℤ} (hasync : c.fileIoMode = .async) (hbacklog : 1 < c.fileAsyncBacklog) :
    (filePread c id count offset).Advances (AioStep c .worker) .empty
      [⟨.file id, ()⟩, ⟨.ioSubmit .read id count offset, true⟩, ⟨.incRequests, (1 : ℕ)⟩] (.done count)
      ⟨1, [⟨.read, id, count, offset⟩], []⟩ := by
  unfold filePread
  rw [hasync]
  have hwait : (fileSubmitOrWait c .read id count offset).Advances (AioStep c .worker) .empty
      [⟨.ioSubmit .read id count offset, true⟩, ⟨.incRequests, (1 : ℕ)⟩] (.done false) ⟨1, [⟨.read, id, count, offset⟩], []⟩ := by
    refine .act rfl (.act ⟨rfl, rfl⟩ ?_)
    show Advances _ (if 1 < c.fileAsyncBacklog then _ else _) _ _ _ _
    rw [if_pos hbacklog]
    exact .refl
  exact .act rfl (hwait.bind .refl)

/-- A read is validated although nothing of it has been delivered. -/
theorem exists_undelivered {id : ℕ} {pos size : ℤ} (hasync : c.fileIoMode = .async) (hvalidate : c.validate = true)
    (hbacklog : 1 < c.fileAsyncBacklog) (hid : id ≤ c.numFiles) (hpos : 0 ≤ pos) (hsize : 0 < size) (hfits : pos + size ≤ c.fileSize) :
    ∃ h k, Interleaving (AioStep c) (aioBody c) .empty h k ∧ (aioAudit h).undelivered := by
  have hcheck : checkRequest c ⟨id, pos, size, .read⟩ = .ok () := checkRequest_ok hid hfits
  have hbody : (fileExecuteEvent c ⟨id, pos, size, .read⟩).Advances (AioStep c .worker) .empty
      [⟨.file id, ()⟩, ⟨.file id, ()⟩, ⟨.ioSubmit .read id size pos, true⟩, ⟨.incRequests, (1 : ℕ)⟩,
        ⟨.validateBuffer size pos, true⟩] (.done true) ⟨1, [⟨.read, id, size, pos⟩], []⟩ := by
    unfold fileExecuteEvent
    rw [hcheck]
    refine .act rfl ((filePread_advances hasync hbacklog).bind ?_)
    show Advances _ (if size ≠ size then _ else if c.validate = true then _ else _) _ _ _ _
    rw [if_neg (not_not.mpr rfl), if_pos hvalidate]
    exact .act rfl .refl
  have hcall : Interleaving (AioStep c) (aioBody c) .empty _ _ := .thenCall .nil .worker ⟨⟨id, pos, size, .read⟩, hpos⟩ rfl
  exact ⟨_, _, hcall.thenAdvance hbody (Function.update_self ..), Or.inr ⟨hsize, nofun⟩⟩

/-- The buffer is used rightly in every run if and only if there is no room for a second operation, or no byte to operate on. -/
theorem aioRight_iff {build : FileBuild} {g : FileGlobals} {args : FileArgs} (hinit : fileInit build g args = .ok c)
    (hasync : c.fileIoMode = .async) (hvalidate : c.validate = true) :
    (∀ h k, Interleaving (AioStep c) (aioBody c) .empty h k → (aioAudit h).Right) ↔
      c.fileAsyncBacklog = 1 ∨ c.fileSize ≤ 0 := by
  have hpos := backlog_pos hinit hasync
  refine ⟨fun hright => ?_, fun hcond h k hrun => ?_⟩
  · by_contra hnot
    rw [not_or, not_le] at hnot
    obtain ⟨h, k, hrun, hunread⟩ := exists_undelivered hasync hvalidate (by omega) (Nat.zero_le _) le_rfl Int.one_pos
      (show (0 : ℤ) + 1 ≤ _ by omega)
    exact (hright h k hrun).delivered hunread
  · rcases hcond with hbacklog | hfile
    · exact ((aio_kept hasync hbacklog).interleaving (P := aioProtocol c) aioInv_empty (fun _ _ => ⟨rfl, rfl⟩) hrun).1.right
    · exact ((short_kept hfile).interleaving (P := shortProtocol c) ⟨nofun, not_false, not_false⟩ (fun _ => trivial) hrun).1.right

end configs

/-- `--validate --file-io-mode=async --file-test-mode=rndrd`, and the defaults. -/
def asyncArgs : FileArgs where
  fileNum := 128
  fileBlockSize := 16384
  fileTotalSize := 2147483648
  fileTestMode := some "rndrd"
  fileIoMode := some "async"
  fileAsyncBacklog := 128
  fileExtraFlags := []
  fileFsyncFreq := 100
  fileFsyncAll := false
  fileFsyncEnd := true
  fileFsyncMode := "fsync"
  fileMergedRequests := 0
  fileRwRatio := 3 / 2

def asyncFiles : FileConfig :=
  ⟨1, true, 128, 2147483648, 16777216, .rndRead, .async, 0, 16384, 16384, 0, 100, true, false, .all, 3 / 2, 128⟩

/-- The first read of a block is validated before it has been performed. -/
theorem not_aioRight : fileInit ⟨true, true, true⟩ ⟨"run", 1, true⟩ asyncArgs = .ok asyncFiles ∧
    ∃ h k, Interleaving (AioStep asyncFiles) (aioBody asyncFiles) .empty h k ∧ ¬(aioAudit h).Right := by
  obtain ⟨h, k, hrun, hunread⟩ := @exists_undelivered asyncFiles 0 0 16384 rfl rfl (by decide)
    (by decide) le_rfl (by decide) (by decide)
  exact ⟨by decide +kernel, h, k, hrun, fun hright => hright.delivered hunread⟩

theorem aioRight_one : fileInit ⟨true, true, true⟩ ⟨"run", 1, true⟩ { asyncArgs with fileAsyncBacklog := 1 } =
      .ok { asyncFiles with fileAsyncBacklog := 1 } ∧
    ∀ h k, Interleaving (AioStep { asyncFiles with fileAsyncBacklog := 1 }) (aioBody { asyncFiles with fileAsyncBacklog := 1 })
      .empty h k → (aioAudit h).Right := by
  have hinit : fileInit ⟨true, true, true⟩ ⟨"run", 1, true⟩ { asyncArgs with fileAsyncBacklog := 1 } =
      .ok { asyncFiles with fileAsyncBacklog := 1 } := by decide +kernel
  exact ⟨hinit, (aioRight_iff hinit rfl rfl).mpr (Or.inl rfl)⟩

end NuKSM.Sysbench
