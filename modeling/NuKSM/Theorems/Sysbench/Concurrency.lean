import NuKSM.Lib.Performs
import NuKSM.Lib.Schedule
import NuKSM.Sysbench.Timer

/-! # The number of events in progress

`sb_more_events` counts an event of the queue in, and `sb_event_stop` counts it out. Between them `thread_run` has two ways
out of its loop. -/

namespace NuKSM.Sysbench
open Thread TimerOp

variable {n : ℕ} {g : SbGlobals}

abbrev WorkerEvent (n : ℕ) := Event (Fin n) TimerOp TimerOp.Res (fun _ => ℕ) Int32

abbrev WorkerWorld (n : ℕ) := World (Shared (Fin n)) (Fin n) TimerOp TimerOp.Res (fun _ => ℕ) Int32

abbrev WorkerConfig (n : ℕ) := Config (Shared (Fin n)) (Fin n) TimerOp TimerOp.Res (fun _ => ℕ) Int32

/-! ### What a run has done -/

structure ConcurrencyAudit (n : ℕ) where
  /-- The worker has counted an event in and not out. -/
  counted : Fin n → Bool
  /-- The last event of the worker in this call of `thread_run` had an error. -/
  failed : Fin n → Bool
  /-- A worker has taken an event after an error, or has been given no event for one that it had taken. -/
  lost : Prop

def ConcurrencyAudit.zero : ConcurrencyAudit n := ⟨fun _ => false, fun _ => false, False⟩

def ConcurrencyAudit.record (a : ConcurrencyAudit n) : WorkerEvent n → ConcurrencyAudit n
  | .call t _ => { a with failed := Function.update a.failed t false }
  | .act t (.addConcurrency delta) _ =>
    { a with
      counted := Function.update a.counted t (delta = 1)
      lost := a.lost ∨ (delta = 1 ∧ a.failed t) }
  | .act t .nextEvent false => { a with lost := a.lost ∨ a.counted t }
  | .act t .executeEvent rc => { a with failed := Function.update a.failed t (rc ≠ 0) }
  | _ => a

def concurrencyAudit (h : List (WorkerEvent n)) : ConcurrencyAudit n := h.foldl ConcurrencyAudit.record .zero

theorem concurrencyAudit_snoc (h : List (WorkerEvent n)) (e : WorkerEvent n) :
    concurrencyAudit (h ++ [e]) = (concurrencyAudit h).record e := by
  simp only [concurrencyAudit, List.foldl_append, List.foldl_cons, List.foldl_nil]

/-- The worker is in `thread_run`: in its loop or in the test of the loop. -/
def Inside : Option (ℕ × TimerM Int32) → Prop
  | some (_, .act _ _) => True
  | _ => False

instance : DecidablePred Inside
  | some (_, .act _ _) => .isTrue trivial
  | some (_, .done _) => .isFalse not_false
  | none => .isFalse not_false

/-- What is counted is no more than there are workers inside, and nothing once all have left. -/
structure ConcurrencyRight (c : WorkerConfig n) : Prop where
  nonneg : 0 ≤ c.shared.concurrency.toInt
  le : c.shared.concurrency.toInt ≤ (Finset.univ.filter fun t => Inside (c.running t)).card
  zero : (∀ t, c.running t = none) → c.shared.concurrency = 0

/-! ### The protocol -/

def ConcurrencyAudit.count (a : ConcurrencyAudit n) : ℕ := (Finset.univ.filter fun t => a.counted t = true).card

theorem ConcurrencyAudit.count_le (a : ConcurrencyAudit n) : a.count ≤ n :=
  (Finset.card_filter_le _ _).trans (by rw [Finset.card_univ, Fintype.card_fin])

/-- What a worker finds again after the turns of the others. -/
structure SameCount (t : Fin n) (w w' : WorkerWorld n) : Prop where
  counted : (concurrencyAudit w'.1).counted t = (concurrencyAudit w.1).counted t
  failed : (concurrencyAudit w'.1).failed t = (concurrencyAudit w.1).failed t
  lost : (concurrencyAudit w.1).lost → (concurrencyAudit w'.1).lost

/-- The counter counts the workers that have counted an event in, as long as none was lost. -/
def concurrencyProtocol (n : ℕ) : Protocol (Shared (Fin n)) (Fin n) TimerOp TimerOp.Res (fun _ => ℕ) Int32 where
  exec := Outcome TimerOp.step
  inv w := ¬(concurrencyAudit w.1).lost → w.2.concurrency.toInt = (concurrencyAudit w.1).count
  idle t w := ¬(concurrencyAudit w.1).lost → (concurrencyAudit w.1).counted t = false
  rely := SameCount
  rely_refl _ _ := ⟨rfl, rfl, id⟩
  rely_trans h₁ h₂ := ⟨h₂.counted.trans h₁.counted, h₂.failed.trans h₁.failed, fun h => h₂.lost (h₁.lost h)⟩
  idle_rely hidle h hlost := h.counted.trans (hidle fun hnot => hlost (h.lost hnot))

/-- What a worker knows of its own counting. -/
structure Counting (t : Fin n) (failed counted : Bool) (w : WorkerWorld n) : Prop where
  failed : (concurrencyAudit w.1).failed t = failed
  counted : ¬(concurrencyAudit w.1).lost → (concurrencyAudit w.1).counted t = counted

section turns
variable {t : Fin n} {h : List (WorkerEvent n)} {s s' : Shared (Fin n)} {failed counted : Bool} {w w' : WorkerWorld n}

theorem Counting.rely (hc : Counting t failed counted w) (hsame : SameCount t w w') : Counting t failed counted w' :=
  ⟨hsame.failed.trans hc.failed, fun hlost => hsame.counted.trans (hc.counted fun hnot => hlost (hsame.lost hnot))⟩

/-- A turn that the audit does not note, and that leaves the counter. -/
theorem concurrencyGuards_unnoted {e : WorkerEvent n} (hinv : (concurrencyProtocol n).inv (h, s))
    (he : (concurrencyAudit h).record e = concurrencyAudit h) (hs : s'.concurrency = s.concurrency) :
    (concurrencyProtocol n).Guards t (h, s) (h ++ [e], s') := by
  have ha : concurrencyAudit (h ++ [e]) = concurrencyAudit h := (concurrencyAudit_snoc h e).trans he
  refine ⟨fun hlost => ?_, fun u _ => ⟨congrArg (·.counted u) ha, congrArg (·.failed u) ha, fun hlost => ?_⟩⟩
  · show s'.concurrency.toInt = (concurrencyAudit (h ++ [e])).count
    rw [ha, hs]
    exact hinv (ha ▸ hlost)
  · show (concurrencyAudit (h ++ [e])).lost
    rwa [ha]

theorem Counting.unnoted {e : WorkerEvent n} (hc : Counting t failed counted (h, s))
    (he : (concurrencyAudit h).record e = concurrencyAudit h) : Counting t failed counted (h ++ [e], s') := by
  have ha : concurrencyAudit (h ++ [e]) = concurrencyAudit h := (concurrencyAudit_snoc h e).trans he
  exact ⟨(congrArg (·.failed t) ha).trans hc.failed, fun hlost => (congrArg (·.counted t) ha).trans (hc.counted (ha ▸ hlost))⟩

/-- A turn that the audit notes for its own worker only. -/
theorem sameCount_of_ne {a : ConcurrencyAudit n} {e : WorkerEvent n} (ha : (concurrencyAudit h).record e = a) {u : Fin n}
    (hcounted : a.counted u = (concurrencyAudit h).counted u) (hfailed : a.failed u = (concurrencyAudit h).failed u)
    (hlost : (concurrencyAudit h).lost → a.lost) : SameCount u (h, s) (h ++ [e], s') := by
  have hsnoc : concurrencyAudit (h ++ [e]) = a := (concurrencyAudit_snoc h e).trans ha
  refine ⟨?_, ?_, fun hnot => ?_⟩
  · exact (congrArg (·.counted u) hsnoc).trans hcounted
  · exact (congrArg (·.failed u) hsnoc).trans hfailed
  · show (concurrencyAudit (h ++ [e])).lost
    rw [hsnoc]
    exact hlost hnot

/-! ### Counting in and out -/

theorem count_true {a : ConcurrencyAudit n} (hcounted : a.counted t = false) {f : Fin n → Bool} {l : Prop} :
    (⟨Function.update a.counted t true, f, l⟩ : ConcurrencyAudit n).count = a.count + 1 := by
  have hset : (Finset.univ.filter fun u => Function.update a.counted t true u = true) =
      insert t (Finset.univ.filter fun u => a.counted u = true) := by
    ext u
    rcases eq_or_ne u t with rfl | hne
    · simp
    · simp [hne]
  refine (congrArg Finset.card hset).trans (Finset.card_insert_of_notMem ?_)
  simp [hcounted]

theorem count_false {a : ConcurrencyAudit n} (hcounted : a.counted t = true) {f : Fin n → Bool} {l : Prop} :
    (⟨Function.update a.counted t false, f, l⟩ : ConcurrencyAudit n).count + 1 = a.count := by
  have h := count_true (a := ⟨Function.update a.counted t false, f, l⟩) (t := t) (f := f) (l := l) (Function.update_self ..)
  rw [Function.update_idem, ← hcounted, Function.update_eq_self] at h
  exact h.symm

theorem toInt_add_of_lt {c d : Int32} {k : ℤ} (hk : c.toInt + d.toInt = k) (h0 : 0 ≤ k) (hlt : k < 2 ^ 31) :
    (c + d).toInt = k := by
  rw [Int32.toInt_add, hk]
  exact Int.bmod_eq_of_le (by norm_num; omega) (by norm_num; omega)

/-- An event is counted in. -/
theorem countIn_guards (hn : n < 2 ^ 31) (hinv : (concurrencyProtocol n).inv (h, s)) (hc : Counting t failed false (h, s)) :
    let w' : WorkerWorld n := (h ++ [.act t (.addConcurrency 1) ()], { s with concurrency := s.concurrency + 1 })
    (concurrencyProtocol n).Guards t (h, s) w' ∧
      Counting t failed true w' ∧ (¬(concurrencyAudit w'.1).lost → failed = false) := by
  set a := concurrencyAudit h with ha
  have hrecord : a.record (.act t (.addConcurrency 1) ()) =
      ⟨Function.update a.counted t true, a.failed, a.lost ∨ ((1 : Int32) = 1 ∧ a.failed t)⟩ := rfl
  have hsnoc : concurrencyAudit (h ++ [.act t (.addConcurrency 1) ()]) = _ := (concurrencyAudit_snoc _ _).trans hrecord
  refine ⟨⟨fun hlost => ?_, fun u hu => ?_⟩, ⟨?_, fun _ => ?_⟩, fun hlost => ?_⟩
  · rw [hsnoc] at hlost ⊢
    have hnot : ¬a.lost := fun hnot => hlost (Or.inl hnot)
    have hcounted : a.counted t = false := hc.counted hnot
    have hcount := count_true hcounted (f := a.failed) (l := a.lost ∨ ((1 : Int32) = 1 ∧ a.failed t))
    have hle := ConcurrencyAudit.count_le ⟨Function.update a.counted t true, a.failed, a.lost ∨ ((1 : Int32) = 1 ∧ a.failed t)⟩
    have hinv : s.concurrency.toInt = a.count := hinv hnot
    exact toInt_add_of_lt (by rw [hinv, hcount]; rfl) (by omega) (by omega)
  · exact sameCount_of_ne hrecord (Function.update_of_ne hu _ _) rfl Or.inl
  · rw [hsnoc]
    exact hc.failed
  · rw [hsnoc]
    exact Function.update_self ..
  · rw [hsnoc] at hlost
    have hfailed : a.failed t = failed := hc.failed
    exact Bool.eq_false_iff.mpr fun hf => hlost (Or.inr ⟨rfl, hfailed.trans hf⟩)

/-- An event is counted out. -/
theorem countOut_guards (hn : n < 2 ^ 31) (hinv : (concurrencyProtocol n).inv (h, s)) (hc : Counting t failed true (h, s)) :
    let w' : WorkerWorld n := (h ++ [.act t (.addConcurrency (-1)) ()], { s with concurrency := s.concurrency + -1 })
    (concurrencyProtocol n).Guards t (h, s) w' ∧ Counting t failed false w' := by
  set a := concurrencyAudit h with ha
  have hrecord : a.record (.act t (.addConcurrency (-1)) ()) =
      ⟨Function.update a.counted t false, a.failed, a.lost ∨ ((-1 : Int32) = 1 ∧ a.failed t)⟩ := rfl
  have hsnoc : concurrencyAudit (h ++ [.act t (.addConcurrency (-1)) ()]) = _ := (concurrencyAudit_snoc _ _).trans hrecord
  refine ⟨⟨fun hlost => ?_, fun u hu => ?_⟩, ⟨?_, fun _ => ?_⟩⟩
  · rw [hsnoc] at hlost ⊢
    have hnot : ¬a.lost := fun hnot => hlost (Or.inl hnot)
    have hcounted : a.counted t = true := hc.counted hnot
    have hcount := count_false hcounted (f := a.failed) (l := a.lost ∨ ((-1 : Int32) = 1 ∧ a.failed t))
    have hle := a.count_le
    have hinv : s.concurrency.toInt = a.count := hinv hnot
    refine toInt_add_of_lt ?_ (by omega) (by omega)
    rw [hinv, ← hcount]
    show ((_ + 1 : ℕ) : ℤ) + -1 = _
    omega
  · exact sameCount_of_ne hrecord (Function.update_of_ne hu _ _) rfl Or.inl
  · rw [hsnoc]
    exact hc.failed
  · rw [hsnoc]
    exact Function.update_self ..

/-! ### Operations that do not count -/

def TimerOp.Plain : TimerOp → Prop
  | addConcurrency _ | nextEvent | executeEvent => False
  | _ => True

theorem TimerOp.Plain.step {op : TimerOp} (hop : op.Plain) {r : op.Res} (hstep : op.step t s = some (r, s')) :
    s'.concurrency = s.concurrency := by
  cases op with
  | addConcurrency | nextEvent | executeEvent => exact hop.elim
  | halt => cases hstep
  | lock m =>
    have hstep : (if (s.timers m).lock = none then some ((), s.setTimer m { s.timers m with lock := some t }) else none) =
      some (r, s') := hstep
    split at hstep
    · cases hstep
      rfl
    · cases hstep
  | _ =>
    cases hstep
    rfl

theorem TimerOp.Plain.record {op : TimerOp} (hop : op.Plain) {r : op.Res} (a : ConcurrencyAudit n) :
    a.record (.act t op r) = a := by
  cases op with
  | addConcurrency | nextEvent | executeEvent => exact hop.elim
  | _ => rfl

/-- A part of a thread that does not count. -/
theorem wp_plain {α β : Type} {p : TimerM α} {next : α → TimerM β} {Q : β → WorkerWorld n → Prop} (hp : p.Performs Plain)
    (hc : Counting t failed counted w)
    (hnext : ∀ a w, Counting t failed counted w → (concurrencyProtocol n).wp t (next a) Q w) :
    (concurrencyProtocol n).wp t (p >>= next) Q w := by
  refine Protocol.wp_bind.mpr (Protocol.wp_mono hnext (Protocol.wp_of_performs (A := Plain) ?_ Counting.rely hp hc))
  intro op h s r s' hop hc hinv hexec
  exact ⟨concurrencyGuards_unnoted hinv (hop.record _) (hop.step hexec), hc.unnoted (hop.record _)⟩

theorem sbTimerValue_plain (m : TimerName) : (sbTimerValue m).Performs Plain :=
  ⟨trivial, fun _ => ⟨trivial, fun _ => ⟨trivial, fun _ => trivial⟩⟩⟩

theorem sbTimerStart_plain (m : TimerName) : (sbTimerStart m).Performs Plain :=
  ⟨trivial, fun _ => ⟨trivial, fun _ => ⟨trivial, fun _ => ⟨trivial, fun _ => trivial⟩⟩⟩⟩

theorem lowerMinTime_plain (m : TimerName) (elapsed : UInt64) : (lowerMinTime m elapsed).Performs Plain :=
  ⟨trivial, fun _ => Performs.onlyIf fun _ => ⟨trivial, fun _ => trivial⟩⟩

theorem raiseMaxTime_plain (m : TimerName) (elapsed : UInt64) : (raiseMaxTime m elapsed).Performs Plain :=
  ⟨trivial, fun _ => Performs.onlyIf fun _ => ⟨trivial, fun _ => trivial⟩⟩

theorem sbTimerStop_plain (m : TimerName) : (sbTimerStop m).Performs Plain := by
  refine ⟨trivial, fun _ => ⟨trivial, fun _ => ⟨trivial, fun _ => ⟨trivial, fun _ => ⟨trivial, fun _ => ⟨trivial, fun _ =>
    ⟨trivial, fun _ => ⟨trivial, fun _ => ⟨trivial, fun _ => ⟨trivial, fun _ => ?_⟩⟩⟩⟩⟩⟩⟩⟩⟩⟩
  exact (lowerMinTime_plain m _).bind fun _ => (raiseMaxTime_plain m _).bind fun _ => ⟨trivial, fun _ => trivial⟩

/-! ### `thread_run` -/

/-- After `sb_more_events` an event of the queue is counted in, and none after an error. -/
structure MoreEvents (g : SbGlobals) (t : Fin n) (failed more : Bool) (w : WorkerWorld n) : Prop where
  counting : Counting t failed (more && g.txRate > 0) w
  ok : ¬(concurrencyAudit w.1).lost → more && g.txRate > 0 → failed = false

theorem MoreEvents.none (hc : Counting t failed false w) : MoreEvents g t failed false w := ⟨hc, fun _ h => by cases h⟩

theorem wp_takeEvent (hn : n < 2 ^ 31) (hrate : g.txRate > 0) (hc : Counting t failed false w) :
    (concurrencyProtocol n).wp t (takeEvent t) (MoreEvents g t failed) w := by
  refine wp_plain (p := perform dequeue) ⟨trivial, fun _ => trivial⟩ hc fun ptr w hc => ?_
  refine wp_plain (p := perform loadQueueIsFull) ⟨trivial, fun _ => trivial⟩ hc fun full w hc => ?_
  cases full with
  | true => exact .none hc
  | false =>
    refine Protocol.wp_perform fun h s r s' hsame hinv hexec => ?_
    cases hexec
    obtain ⟨hguards, hc, hok⟩ := countIn_guards hn hinv (hc.rely hsame)
    refine ⟨hguards, ?_⟩
    -- The rest does not count.
    have hrest : ∀ op h s r s', op.Plain → MoreEvents g t failed true (h, s) → (concurrencyProtocol n).inv (h, s) →
        op.step t s = some (r, s') → (concurrencyProtocol n).Guards t (h, s) (h ++ [.act t op r], s') ∧
          MoreEvents g t failed true (h ++ [.act t op r], s') := fun op h s r s' hop hm hinv hexec =>
      ⟨concurrencyGuards_unnoted hinv (hop.record _) (hop.step hexec), hm.counting.unnoted (hop.record _), by
        show ¬(concurrencyAudit (h ++ [_])).lost → _
        rw [concurrencyAudit_snoc, hop.record]
        exact hm.ok⟩
    have hrely : ∀ {w w'}, MoreEvents g t failed true w → SameCount t w w' → MoreEvents g t failed true w' :=
      fun hm hsame => ⟨hm.counting.rely hsame, fun hlost => hm.ok fun hnot => hlost (hsame.lost hnot)⟩
    have htrue : (true && decide (g.txRate > 0)) = true := by simpa using hrate
    have hstart : MoreEvents g t failed true (h ++ [.act t (.addConcurrency 1) ()], { s with concurrency := s.concurrency + 1 }) :=
      ⟨by
        rw [htrue]
        exact hc, fun hlost _ => hok hlost⟩
    refine Protocol.wp_bind.mpr (Protocol.wp_mono (fun _ w hm => ?_)
      (Protocol.wp_of_performs (A := Plain) hrest hrely (sbTimerValue_plain _) hstart))
    exact Protocol.wp_bind.mpr (Protocol.wp_mono (fun _ w hm => hm)
      (Protocol.wp_of_performs (A := Plain) hrest hrely (p := perform (store (.thread t) .queueTime _))
        (performs_perform.mpr trivial) hm))

theorem wp_countEvent (hn : n < 2 ^ 31) (hc : Counting t failed false w) :
    (concurrencyProtocol n).wp t (countEvent g t) (MoreEvents g t failed) w := by
  have htake : ∀ {w}, Counting t failed false w →
      (concurrencyProtocol n).wp t (if g.txRate > 0 then takeEvent t else return true) (MoreEvents g t failed) w := by
    intro w hc
    split
    · exact wp_takeEvent hn ‹_› hc
    · have hfalse : (true && decide (g.txRate > 0)) = false := by simpa using ‹¬g.txRate > 0›
      exact ⟨hfalse ▸ hc, fun _ h => absurd (hfalse ▸ h) Bool.false_ne_true⟩
  show (concurrencyProtocol n).wp t (if g.maxEvents > 0 then
      perform (faaNevents 1) >>= fun v => if v ≥ g.maxEvents then return false else
        if g.txRate > 0 then takeEvent t else return true
    else if g.txRate > 0 then takeEvent t else return true) _ w
  split
  · refine wp_plain (p := perform (faaNevents 1)) ⟨trivial, fun _ => trivial⟩ hc fun v w hc => ?_
    split
    · exact .none hc
    · exact htake hc
  · exact htake hc

theorem wp_sbMoreEvents (hn : n < 2 ^ 31) (hc : Counting t failed false w) :
    (concurrencyProtocol n).wp t (sbMoreEvents g t) (MoreEvents g t failed) w := by
  refine wp_plain (p := perform loadError) ⟨trivial, fun _ => trivial⟩ hc fun error w hc => ?_
  cases error with
  | true => exact .none hc
  | false =>
    show (concurrencyProtocol n).wp t (if g.maxTimeNs > 0 then _ else _) _ w
    split
    · refine wp_plain (sbTimerValue_plain _) hc fun v w hc => ?_
      split
      · exact .none hc
      · exact wp_countEvent hn hc
    · exact wp_countEvent hn hc

/-- Only in rate mode the end of an event counts it out. -/
theorem wp_sbEventStop (hn : n < 2 ^ 31) (hc : Counting t failed (g.txRate > 0) w) :
    (concurrencyProtocol n).wp t (sbEventStop g t) (fun _ => Counting t failed false) w := by
  refine wp_plain (sbTimerStop_plain _) hc fun value w hc => ?_
  refine wp_plain (p := onlyIf (g.percentile > 0) (perform (updateHistogram value)))
    (Performs.onlyIf fun _ => ⟨trivial, fun _ => trivial⟩) hc fun _ w hc => ?_
  refine wp_plain (p := perform incCounter) ⟨trivial, fun _ => trivial⟩ hc fun _ w hc => ?_
  refine Protocol.wp_bind.mpr (Protocol.wp_onlyIf (fun hrate => ?_) fun hrate => ?_)
  · intro h s r s' hsame hinv hexec
    cases hexec
    have hc := hc.rely hsame
    rw [decide_eq_true hrate] at hc
    exact countOut_guards hn hinv hc
  · rw [decide_eq_false hrate] at hc
    exact hc

/-- Between two rounds the worker has counted nothing in. -/
theorem wp_threadRunRound (hn : n < 2 ^ 31) {rc : Int32} (hc : Counting t (rc ≠ 0) false w) :
    (concurrencyProtocol n).wp t (threadRunRound g t rc)
      (Sum.elim (fun rc => Counting t (rc ≠ 0) false) fun _ w => ∃ failed, Counting t failed false w) w := by
  refine Protocol.wp_bind.mpr (Protocol.wp_mono (fun more w hmore => ?_) (wp_sbMoreEvents (g := g) hn hc))
  cases more with
  | false => exact ⟨_, hmore.counting⟩
  | true =>
    obtain ⟨hc, hok⟩ := hmore
    rw [Bool.true_and] at hc hok
    show (concurrencyProtocol n).wp t (if rc ≠ 0 then _ else _) _ w
    split
    · -- After an error an event that is taken is lost.
      rename_i hrc
      refine ⟨_, hc.failed, fun hlost => (hc.counted hlost).trans (Bool.eq_false_iff.mpr fun hrate => ?_)⟩
      exact absurd (hok hlost hrate) (by simpa using hrc)
    · refine Protocol.wp_perform fun h s r s' hsame hinv hexec => ?_
      cases hexec
      have hc := hc.rely hsame
      cases hevent : s.hasEvent 0 with
      | false =>
        -- So is one for which there is no event.
        have hrecord : (concurrencyAudit h).record (.act t .nextEvent false) =
          { concurrencyAudit h with lost := (concurrencyAudit h).lost ∨ (concurrencyAudit h).counted t } := rfl
        have hsnoc : concurrencyAudit (h ++ [.act t .nextEvent false]) = _ := (concurrencyAudit_snoc _ _).trans hrecord
        refine ⟨⟨fun hlost => ?_, fun u _ => sameCount_of_ne hrecord rfl rfl Or.inl⟩, rc ≠ 0, ?_, fun hlost => ?_⟩
        · rw [hsnoc] at hlost ⊢
          exact hinv fun hnot => hlost (Or.inl hnot)
        · rw [hsnoc]
          exact hc.failed
        · rw [hsnoc] at hlost ⊢
          exact Bool.eq_false_iff.mpr fun hcounted => hlost (Or.inr hcounted)
      | true =>
        have hnote : (concurrencyAudit h).record (.act t .nextEvent true) = concurrencyAudit h := rfl
        refine ⟨concurrencyGuards_unnoted hinv hnote rfl, ?_⟩
        refine wp_plain (sbTimerStart_plain _) (hc.unnoted hnote) fun _ w hc => ?_
        refine Protocol.wp_perform fun h s rc s' hsame hinv hexec => ?_
        cases hexec
        have hc := hc.rely hsame
        set e : WorkerEvent n := .act t .executeEvent (s.rc 0)
        have hrecord : (concurrencyAudit h).record e =
          { concurrencyAudit h with failed := Function.update (concurrencyAudit h).failed t (s.rc 0 ≠ 0) } := rfl
        have hsnoc : concurrencyAudit (h ++ [e]) = _ := (concurrencyAudit_snoc _ _).trans hrecord
        refine ⟨⟨fun hlost => ?_, fun u hu => sameCount_of_ne hrecord rfl (Function.update_of_ne hu _ _) id⟩, ?_⟩
        · rw [hsnoc] at hlost ⊢
          exact hinv hlost
        · refine Protocol.wp_bind.mpr (Protocol.wp_mono (fun _ w hc => hc) (wp_sbEventStop hn ⟨?_, fun hlost => ?_⟩))
          · rw [hsnoc]
            exact Function.update_self ..
          · rw [hsnoc] at hlost ⊢
            exact hc.counted hlost

theorem wp_waitForever {α : Type} {Q : α → WorkerWorld n → Prop} : (concurrencyProtocol n).wp t waitForever Q w :=
  Protocol.wp_never fun _ (r : Empty) => r.elim

theorem concurrency_kept (hn : n < 2 ^ 31) : (concurrencyProtocol n).Kept (workerBody g) := by
  intro t k h s hinv hidle
  have hrecord : (concurrencyAudit h).record (.call t k) =
    { concurrencyAudit h with failed := Function.update (concurrencyAudit h).failed t false } := rfl
  have hsnoc : concurrencyAudit (h ++ [.call t k]) = _ := (concurrencyAudit_snoc _ _).trans hrecord
  refine ⟨⟨fun hlost => ?_, fun u hu => sameCount_of_ne hrecord rfl (Function.update_of_ne hu _ _) id⟩, ?_⟩
  · rw [hsnoc] at hlost ⊢
    exact hinv hlost
  · have hc : Counting t ((0 : Int32) ≠ 0) false (h ++ [.call t k], s) := by
      refine ⟨?_, fun hlost => ?_⟩
      · rw [hsnoc]
        exact Function.update_self ..
      · rw [hsnoc] at hlost ⊢
        exact hidle hlost
    refine Protocol.wp_mono (fun rc w hw => ?_) (Protocol.wp_rounds (I := fun rc => Counting t (rc ≠ 0) false)
      (Q := fun _ w => ∃ failed, Counting t failed false w)
      (fun _ _ _ => wp_waitForever) (fun rc w hc => wp_threadRunRound hn hc) hc)
    obtain ⟨failed, hc⟩ := hw
    intro h s hsame hinv
    have hnote : (concurrencyAudit h).record (.ret t k rc) = concurrencyAudit h := rfl
    exact ⟨concurrencyGuards_unnoted hinv hnote rfl, ((hc.rely hsame).unnoted hnote).counted⟩

end turns

/-! ### Whole runs -/

/-- No worker has taken an event after an error of `execute_event`, or got no event from `next_event` for one that it had
taken. -/
def NoneLost (h : List (WorkerEvent n)) : Prop := ¬(concurrencyAudit h).lost

/-- In a run in which no event is lost, `concurrency` counts no more than the workers inside `thread_run`. -/
theorem concurrencyRight_of_noneLost (hn : n < 2 ^ 31) {s : Shared (Fin n)} (hzero : s.concurrency = 0)
    {h : List (WorkerEvent n)} {c : WorkerConfig n}
    (hrun : Interleaving (Outcome TimerOp.step) (workerBody g) s h c) (hlost : NoneLost h) : ConcurrencyRight c := by
  have hstart : (concurrencyProtocol n).inv ([], s) := by
    intro _
    show s.concurrency.toInt = ((Finset.univ.filter fun _ => false = true).card : ℕ)
    rw [hzero, Finset.filter_false_of_mem fun _ _ => Bool.false_ne_true]
    rfl
  obtain ⟨hinv, hready⟩ := (concurrency_kept hn).interleaving hstart (fun _ _ => rfl) hrun
  have hcount : c.shared.concurrency.toInt = (concurrencyAudit h).count := hinv hlost
  -- A worker that has counted an event in has operations left.
  have hinside : ∀ t, (concurrencyAudit h).counted t = true → Inside (c.running t) := by
    intro t hcounted
    have ht := hready t
    rcases hrunning : c.running t with _ | ⟨k, p⟩
    · rw [hrunning] at ht
      exact absurd hcounted (Bool.eq_false_iff.mp (ht hlost))
    · cases p with
      | act op next => trivial
      | done rc =>
        rw [hrunning] at ht
        obtain ⟨-, hidle⟩ := ht h c.shared ((concurrencyProtocol n).rely_refl t _) hinv
        have hnote : concurrencyAudit (h ++ [.ret t k rc]) = concurrencyAudit h := concurrencyAudit_snoc _ _
        have hfalse : (concurrencyAudit (h ++ [.ret t k rc])).counted t = false := hidle (by
          rw [hnote]
          exact hlost)
        rw [hnote, hcounted] at hfalse
        cases hfalse
  have hle : (concurrencyAudit h).count ≤ (Finset.univ.filter fun t => Inside (c.running t)).card :=
    Finset.card_le_card fun t ht => Finset.mem_filter.mpr ⟨Finset.mem_univ t, hinside t (Finset.mem_filter.mp ht).2⟩
  refine ⟨by omega, by omega, fun hleft => ?_⟩
  have hnone : (Finset.univ.filter fun t => Inside (c.running t)).card = 0 := by
    rw [Finset.card_eq_zero, Finset.filter_eq_empty_iff]
    intro t _
    rw [hleft t]
    exact not_false
  exact Int32.toInt_inj.mp (hcount.trans (by rw [show (concurrencyAudit h).count = 0 by omega]; rfl))

/-- Rate mode, without limits. -/
def rateOne : SbGlobals := ⟨1, 1, 0, 0, 0⟩

/-- Events without errors, until the queue is full. -/
def oneQueued : Shared (Fin 1) := { (Shared.zeroed : Shared (Fin 1)) with hasEvent := fun _ => true, queueIsFull := fun k => k = 1 }

/-- A worker takes an event and executes it, and leaves at the next. -/
theorem concurrencyRight_one : ∃ h c, Interleaving (Outcome TimerOp.step) (workerBody rateOne) oneQueued h c ∧
    c.running 0 = none ∧ ConcurrencyRight c := by
  obtain ⟨w, hplay, hleft, hlost⟩ : ∃ w, play TimerOp.step (workerBody rateOne) (.call 0 3 :: List.replicate 33 (.next 0))
      ([], ⟨oneQueued, fun _ => none⟩) = some w ∧ w.2.running 0 = none ∧
      NoneLost w.1 := by
    refine ⟨_, rfl, rfl, ?_⟩
    rintro ((hnot | ⟨-, hfailed⟩) | ⟨hdelta, -⟩)
    · exact hnot
    · cases hfailed
    · cases hdelta
  have hrun := play_interleaving .nil hplay
  exact ⟨_, _, hrun, hleft, concurrencyRight_of_noneLost (by decide) rfl hrun hlost⟩

/-- A worker takes an event from the queue and gets none from `next_event`, and leaves. -/
theorem not_concurrencyRight : ∃ h c, Interleaving (Outcome TimerOp.step) (workerBody rateOne) (Shared.zeroed : Shared (Fin 1)) h c ∧
    c.running 0 = none ∧ c.shared.concurrency = 1 ∧ ¬ConcurrencyRight c := by
  obtain ⟨w, hplay, hleft, hone⟩ : ∃ w, play TimerOp.step (workerBody rateOne) (.call 0 3 :: List.replicate 10 (.next 0))
      ([], ⟨(Shared.zeroed : Shared (Fin 1)), fun _ => none⟩) = some w ∧ w.2.running 0 = none ∧ w.2.shared.concurrency = 1 :=
    ⟨_, rfl, rfl, rfl⟩
  refine ⟨_, _, play_interleaving .nil hplay, hleft, hone, fun hright => ?_⟩
  have hzero := hright.zero fun t => by rwa [Fin.fin_one_eq_zero t]
  rw [hone] at hzero
  cases hzero

end NuKSM.Sysbench
