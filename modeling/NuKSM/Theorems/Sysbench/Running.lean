import NuKSM.Lib.Solo
import NuKSM.Sysbench.Timer

/-! # Which timers are running

`TIMESPEC_DIFF` is unsigned, so a timer that was stopped after its start has a difference above zero as well, and
`sb_timer_running` takes it for running. -/

namespace NuKSM.Sysbench
open Thread TimerOp

/-! ### Times -/

/-- The nanoseconds of a time. -/
def Timespec.ns (a : Timespec) : ℤ := a.sec.toInt * 1000000000 + a.nsec.toInt

theorem Timespec.ns_zero : (⟨0, 0⟩ : Timespec).ns = 0 := by decide

theorem toBitVec_timespecDiff (a b : Timespec) : (timespecDiff a b).toBitVec = BitVec.ofInt 64 (a.ns - b.ns) := by
  have hsub : ∀ x y : Int64, (x - y).toUInt64.toBitVec = BitVec.ofInt 64 x.toInt - BitVec.ofInt 64 y.toInt := fun x y => by
    rw [Int64.toBitVec_toUInt64, Int64.toBitVec_sub, ← Int64.toInt_toBitVec x, ← Int64.toInt_toBitVec y,
      BitVec.ofInt_toInt, BitVec.ofInt_toInt]
  have hofInt : ∀ x y : ℤ, BitVec.ofInt 64 (x - y) = BitVec.ofInt 64 x - BitVec.ofInt 64 y := fun x y => by
    rw [sub_eq_add_neg, BitVec.ofInt_add, BitVec.ofInt_neg, ← sub_eq_add_neg]
  have hns : a.ns - b.ns = (a.sec.toInt - b.sec.toInt) * 1000000000 + (a.nsec.toInt - b.nsec.toInt) := by
    rw [Timespec.ns, Timespec.ns]
    ring
  rw [timespecDiff, UInt64.toBitVec_add, UInt64.toBitVec_mul, hsub, hsub, hns, BitVec.ofInt_add, BitVec.ofInt_mul,
    hofInt, hofInt]
  rfl

/-- The difference is zero only if the times are a multiple of `2 ^ 64` nanoseconds apart. -/
theorem timespecDiff_pos_iff (a b : Timespec) : timespecDiff a b > 0 ↔ ¬(2 ^ 64 : ℤ) ∣ a.ns - b.ns := by
  rw [gt_iff_lt, UInt64.pos_iff_ne_zero, Ne, ← UInt64.toBitVec_inj, toBitVec_timespecDiff, ← BitVec.toNat_inj,
    BitVec.toNat_ofInt]
  refine not_congr ?_
  show ((a.ns - b.ns) % (2 ^ 64 : ℤ)).toNat = 0 ↔ _
  have hnonneg := Int.emod_nonneg (a.ns - b.ns) (show (2 ^ 64 : ℤ) ≠ 0 by norm_num)
  rw [Int.toNat_eq_zero, Int.dvd_iff_emod_eq_zero]
  omega

/-! ### The functions of a timer -/

section functions
variable {ι : Type} {t : ι} {s s' : Shared ι} {n m old : TimerName}

@[simp] theorem setTimer_self (a : Timer ι) : (s.setTimer n a).timers n = a := Function.update_self _ _ _

theorem setTimer_of_ne (a : Timer ι) (h : m ≠ n) : (s.setTimer n a).timers m = s.timers m := Function.update_of_ne h _ _

@[simp] theorem setTimer_setTimer (a b : Timer ι) : (s.setTimer n a).setTimer n b = s.setTimer n b := by
  simp only [Shared.setTimer, Function.update_idem]

theorem sbTimerReset_ends : Ends (step t) (sbTimerReset n) s fun _ s' =>
    s' = s.setTimer n { s.timers n with count := initCounts } := by
  refine Ends.perform_bind rfl (Ends.perform_bind rfl (Ends.perform_bind rfl (Ends.perform_bind rfl
    (Ends.perform rfl ?_))))
  simp only [setTimer_self, setTimer_setTimer]
  refine congrArg (fun count => s.setTimer n { s.timers n with count := count }) (funext fun f => ?_)
  cases f <;> rfl

theorem sbTimerInit_ends : Ends (step t) (sbTimerInit n) s fun _ s' =>
    s' = s.setTimer n ⟨⟨0, 0⟩, ⟨0, 0⟩, initCounts, none⟩ := by
  refine Ends.perform_bind rfl (Ends.perform_bind rfl (Ends.perform_bind rfl (sbTimerReset_ends.mono fun _ s' hs' => ?_)))
  rw [hs']
  simp only [setTimer_self, setTimer_setTimer]

theorem sbTimerRunning_ends : Ends (step t) (sbTimerRunning n) s fun r s' =>
    r = decide (timespecDiff (s.timers n).timeStart (s.timers n).timeEnd > 0) ∧ s' = s :=
  Ends.perform_bind rfl (Ends.perform_bind rfl (Ends.pure ⟨rfl, rfl⟩))

theorem sbTimerStart_ends (hlock : (s.timers n).lock = none) : Ends (step t) (sbTimerStart n) s fun _ s' =>
    s'.timers n = { s.timers n with timeStart := s.clock 0 } ∧ ∀ m, m ≠ n → s'.timers m = s.timers m := by
  refine Ends.perform_bind (if_pos hlock) (Ends.perform_bind rfl (Ends.perform_bind rfl (Ends.perform rfl ⟨?_, fun m hm => ?_⟩)))
  · rw [setTimer_self, setTimer_self, ← hlock]
    exact congrArg (fun a : Timer ι => { a with timeStart := s.clock 0, lock := (s.timers n).lock }) (setTimer_self _)
  · rw [setTimer_of_ne _ hm, setTimer_of_ne _ hm]
    exact setTimer_of_ne _ hm

/-- Only the least time of the timer may change. -/
theorem lowerMinTime_ends {elapsed : UInt64} : Ends (step t) (lowerMinTime n elapsed) s fun _ s' =>
    ∃ v, s' = s.setTimer n { s.timers n with count := Function.update (s.timers n).count .minTime v } := by
  refine Ends.perform_bind rfl (Ends.onlyIf (fun _ => Ends.perform rfl ⟨elapsed, rfl⟩) fun _ =>
    ⟨(s.timers n).count .minTime, ?_⟩)
  rw [Function.update_eq_self, Shared.setTimer, Function.update_eq_self]

theorem raiseMaxTime_ends {elapsed : UInt64} : Ends (step t) (raiseMaxTime n elapsed) s fun _ s' =>
    ∃ v, s' = s.setTimer n { s.timers n with count := Function.update (s.timers n).count .maxTime v } := by
  refine Ends.perform_bind rfl (Ends.onlyIf (fun _ => Ends.perform rfl ⟨elapsed, rfl⟩) fun _ =>
    ⟨(s.timers n).count .maxTime, ?_⟩)
  rw [Function.update_eq_self, Shared.setTimer, Function.update_eq_self]

theorem sbTimerStop_ends (hlock : (s.timers n).lock = none) : Ends (step t) (sbTimerStop n) s fun _ s' =>
    (∃ count, count .events = (s.timers n).count .events + 1 ∧
      s'.timers n = { s.timers n with timeEnd := s.clock 0, count := count }) ∧ ∀ m, m ≠ n → s'.timers m = s.timers m := by
  refine Ends.perform_bind (if_pos hlock) (Ends.perform_bind rfl (Ends.perform_bind rfl (Ends.perform_bind rfl
    (Ends.perform_bind rfl (Ends.perform_bind rfl (Ends.perform_bind rfl (Ends.perform_bind rfl (Ends.perform_bind rfl
    (Ends.perform_bind rfl ?_)))))))))
  refine lowerMinTime_ends.bind fun _ s₁ hs₁ => raiseMaxTime_ends.bind fun _ s₂ hs₂ =>
    Ends.perform_bind rfl (Ends.pure ?_)
  obtain ⟨v, rfl⟩ := hs₁
  obtain ⟨v', rfl⟩ := hs₂
  simp only [setTimer_self, setTimer_setTimer]
  rw [hlock]
  refine ⟨⟨_, ?_, rfl⟩, fun m hm => ?_⟩
  · rw [Function.update_of_ne (by decide), Function.update_of_ne (by decide), Function.update_of_ne (by decide),
      Function.update_self]
  · exact (setTimer_of_ne _ hm).trans (setTimer_of_ne _ hm)

theorem copyField_ends {f : TimerField} : Ends (step t) (copyField n old f) s fun _ s' =>
    s' = s.setTimer old { s.timers old with count := Function.update (s.timers old).count f ((s.timers n).count f) } :=
  Ends.perform_bind rfl (Ends.perform rfl rfl)

theorem copyTimer_ends (hne : old ≠ n) : Ends (step t) (copyTimer n old) s fun _ s' =>
    s' = s.setTimer old { s.timers n with lock := (s.timers old).lock } := by
  refine Ends.perform_bind rfl (Ends.perform_bind rfl (Ends.perform_bind rfl (Ends.perform_bind rfl
    (copyField_ends.bind fun _ s₁ hs₁ => copyField_ends.bind fun _ s₂ hs₂ => copyField_ends.bind fun _ s₃ hs₃ =>
      copyField_ends.bind fun _ s₄ hs₄ => copyField_ends.mono fun _ s₅ hs₅ => ?_))))
  subst hs₁ hs₂ hs₃ hs₄ hs₅
  simp only [setTimer_self, setTimer_setTimer, setTimer_of_ne _ hne.symm]
  refine congrArg (fun count => s.setTimer old ⟨_, _, count, _⟩) (funext fun f => ?_)
  cases f <;> simp [Function.update]

/-- The copy has the times and counts of the timer, and the timer keeps its times. -/
theorem sbTimerCheckpoint_ends (hlock : (s.timers n).lock = none) (hne : old ≠ n) :
    Ends (step t) (sbTimerCheckpoint n old) s fun _ s' =>
      (∃ count, s'.timers n = { s.timers n with count := count }) ∧ s'.timers old = s.timers n ∧
      ∀ m, m ≠ n → m ≠ old → s'.timers m = s.timers m := by
  refine Ends.perform_bind (if_pos hlock) ((copyTimer_ends hne).bind fun _ s₁ hs₁ => Ends.perform_bind rfl
    (sbTimerReset_ends.bind fun _ s₂ hs₂ => Ends.perform rfl ?_))
  subst hs₁ hs₂
  simp only [setTimer_self, setTimer_setTimer, setTimer_of_ne _ hne.symm, setTimer_of_ne _ hne]
  refine ⟨⟨initCounts, by rw [hlock]⟩, by rw [← hlock], fun m hm hm' => ?_⟩
  rw [setTimer_of_ne _ hm, setTimer_of_ne _ hm', setTimer_of_ne _ hm]

end functions

/-! ### Histories -/

/-- A call on a timer, with the time that it reads. -/
inductive TimerCall
  | init
  | start (now : Timespec)
  | stop (now : Timespec)
  | checkpoint
  deriving DecidableEq, Repr

def TimerCall.body (id : ℕ) : TimerCall → TimerM Unit
  | init => sbTimerInit (.thread id)
  | start _ => sbTimerStart (.thread id)
  | stop _ => do
    let _ ← sbTimerStop (.thread id)
    return ()
  | checkpoint => sbTimerCheckpoint (.thread id) (.copy id)

/-- The clock as the call finds it. -/
def TimerCall.clock {ι : Type} (s : Shared ι) : TimerCall → Shared ι
  | start now | stop now => { s with clock := fun _ => now }
  | _ => s

/-- The calls of a history, one after the other. -/
def runTimers {ι : Type} {n : ℕ} (t : ι) (s : Shared ι) : List (Fin n × TimerCall) → Option (Shared ι)
  | [] => some s
  | c :: h => ((c.2.body c.1).solo (step t) (c.2.clock s)).bind fun r => runTimers t r.2 h

/-- What the last start or stop was. -/
inductive Phase
  | fresh | started | stopped
  deriving DecidableEq, Repr

/-- The last start or stop of a timer, and the times of its last start and its last stop. -/
structure Span where
  phase : Phase
  start : ℤ
  stop : ℤ
  deriving DecidableEq, Repr

def Span.after (p : Span) : TimerCall → Span
  | .init => ⟨.fresh, 0, 0⟩
  | .start now => { p with phase := .started, start := now.ns }
  | .stop now => { p with phase := .stopped, stop := now.ns }
  | .checkpoint => p

def spans {n : ℕ} (h : List (Fin n × TimerCall)) : ℕ → Span :=
  h.foldl (fun p c => Function.update p c.1 ((p c.1).after c.2)) fun _ => ⟨.fresh, 0, 0⟩

/-- The times of a timer. -/
def Timer.Spans {ι : Type} (a : Timer ι) (p : Span) : Prop :=
  a.lock = none ∧ a.timeStart.ns = p.start ∧ a.timeEnd.ns = p.stop

section histories
variable {ι : Type} {t : ι} {s s' : Shared ι} {n : ℕ}

theorem timerCall_ends {c : TimerCall} {id : ℕ} {p : Span} (hs : (s.timers (.thread id)).Spans p) :
    Ends (step t) (c.body id) (c.clock s) fun _ s' => (s'.timers (.thread id)).Spans (p.after c) ∧
      ∀ j, j ≠ id → s'.timers (.thread j) = s.timers (.thread j) := by
  have hne : ∀ {j}, j ≠ id → TimerName.thread j ≠ .thread id := fun hj heq => hj (TimerName.thread.inj heq)
  obtain ⟨hlock, hstart, hstop⟩ := hs
  cases c with
  | init =>
    refine sbTimerInit_ends.mono fun _ s' hs' => ?_
    subst hs'
    rw [setTimer_self]
    exact ⟨⟨rfl, Timespec.ns_zero, Timespec.ns_zero⟩, fun j hj => setTimer_of_ne _ (hne hj)⟩
  | start now =>
    refine (sbTimerStart_ends (s := { s with clock := fun _ => now }) (n := .thread id) hlock).mono fun _ s' hs' => ?_
    rw [hs'.1]
    exact ⟨⟨hlock, rfl, hstop⟩, fun j hj => hs'.2 _ (hne hj)⟩
  | stop now =>
    refine (sbTimerStop_ends (s := { s with clock := fun _ => now }) (n := .thread id) hlock).bind fun _ s' hs' => Ends.pure ?_
    obtain ⟨⟨count, -, hs'⟩, hothers⟩ := hs'
    rw [hs']
    exact ⟨⟨hlock, hstart, rfl⟩, fun j hj => hothers _ (hne hj)⟩
  | checkpoint =>
    refine (sbTimerCheckpoint_ends (n := .thread id) hlock (show TimerName.copy id ≠ .thread id by simp)).mono fun _ s' hs' => ?_
    obtain ⟨⟨count, hs'⟩, -, hothers⟩ := hs'
    rw [hs']
    exact ⟨⟨hlock, hstart, hstop⟩, fun j hj => hothers _ (hne hj) (by simp)⟩

theorem runTimers_ends (h : List (Fin n × TimerCall)) (p : ℕ → Span) (hs : ∀ i < n, (s.timers (.thread i)).Spans (p i)) :
    ∃ s', runTimers t s h = some s' ∧ ∀ i < n, (s'.timers (.thread i)).Spans
      (h.foldl (fun p c => Function.update p c.1 ((p c.1).after c.2)) p i) := by
  induction h generalizing s p with
  | nil => exact ⟨s, rfl, hs⟩
  | cons c h ih =>
    obtain ⟨_, s₁, hcall, hself, hothers⟩ := timerCall_ends (t := t) (c := c.2) (hs c.1 c.1.isLt)
    obtain ⟨s', hrun, hs'⟩ := ih (s := s₁) (Function.update p c.1 ((p c.1).after c.2)) fun i hi => by
      rcases eq_or_ne i c.1 with rfl | hne
      · rwa [Function.update_self]
      · rw [hothers i hne, Function.update_of_ne hne]
        exact hs i hi
    exact ⟨s', by rw [runTimers, hcall]; exact hrun, hs'⟩

theorem initTimers_ends (n : ℕ) : Ends (step t) (initTimers n) s fun _ s' =>
    ∀ i < n, s'.timers (.thread i) = ⟨⟨0, 0⟩, ⟨0, 0⟩, initCounts, none⟩ := by
  have hloop : Ends (step t) (initTimers n) s fun _ s' =>
      ∀ i < 0 + n, s'.timers (.thread i) = ⟨⟨0, 0⟩, ⟨0, 0⟩, initCounts, none⟩ :=
    Ends.loopUp (n := n) (I := fun k (_ : Unit) (s' : Shared ι) =>
      ∀ i < k, s'.timers (.thread i) = ⟨⟨0, 0⟩, ⟨0, 0⟩, initCounts, none⟩) (fun i hi => absurd hi (Nat.not_lt_zero i))
    fun k _ s' _ _ hs' => sbTimerInit_ends.mono fun _ s'' hs'' => fun i hi => by
      subst hs''
      rcases eq_or_ne i k with rfl | hne
      · rw [setTimer_self]
      · rw [setTimer_of_ne _ fun heq => hne (TimerName.thread.inj heq)]
        exact hs' i (by omega)
  rwa [Nat.zero_add] at hloop

/-! ### The report on a forced shutdown -/

theorem checkpointTimers_ends (hlock : ∀ i < n, (s.timers (.thread i)).lock = none) :
    Ends (step t) (checkpointTimers n) s fun _ s' => ∀ i < n, s'.timers (.copy i) = s.timers (.thread i) := by
  have hloop : Ends (step t) (checkpointTimers n) s fun _ s' => (∀ i < 0 + n, s'.timers (.copy i) = s.timers (.thread i)) ∧
      ∀ i, 0 + n ≤ i → s'.timers (.thread i) = s.timers (.thread i) :=
    Ends.loopUp (n := n) (I := fun k (_ : Unit) (s' : Shared ι) => (∀ i < k, s'.timers (.copy i) = s.timers (.thread i)) ∧
      ∀ i, k ≤ i → s'.timers (.thread i) = s.timers (.thread i))
    ⟨fun i hi => absurd hi (Nat.not_lt_zero i), fun _ _ => rfl⟩ fun k _ s₁ _ hk hs₁ => by
      have hsame := hs₁.2 k le_rfl
      refine (sbTimerCheckpoint_ends (n := .thread k) (hsame ▸ hlock k (by omega))
        (show TimerName.copy k ≠ .thread k by simp)).mono
        fun _ s' hs' => ⟨fun i hi => ?_, fun i hi => ?_⟩
      · rcases eq_or_ne i k with rfl | hne
        · rw [hs'.2.1, hsame]
        · rw [hs'.2.2 _ (by simp) (by simpa using hne)]
          exact hs₁.1 i (by omega)
      · rw [hs'.2.2 _ (by simp; omega) (by simp)]
        exact hs₁.2 i (by omega)
  rw [Nat.zero_add] at hloop
  exact hloop.mono fun _ s' hs' => hs'.1

/-- The timer counts as running. -/
def Timer.running (a : Timer ι) : Bool := decide (timespecDiff a.timeStart a.timeEnd > 0)

/-- The report counts the timers that it takes for running, and stops them. -/
theorem stopUnfinished_ends (hlock : ∀ i < n, (s.timers (.copy i)).lock = none) :
    Ends (step t) (stopUnfinished n) s fun unfinished s' =>
      unfinished = ((Finset.range n).filter fun i => (s.timers (.copy i)).running = true).card ∧
      ∀ i < n, s'.timers (.copy i) = s.timers (.copy i) ↔ (s.timers (.copy i)).running = false := by
  have hloop : Ends (step t) (stopUnfinished n) s fun unfinished s' =>
      unfinished = ((Finset.range (0 + n)).filter fun i => (s.timers (.copy i)).running = true).card ∧
      (∀ i < 0 + n, s'.timers (.copy i) = s.timers (.copy i) ↔ (s.timers (.copy i)).running = false) ∧
      ∀ i, 0 + n ≤ i → s'.timers (.copy i) = s.timers (.copy i) := Ends.loopUp (n := n)
    (I := fun k (unfinished : ℕ) (s' : Shared ι) =>
      unfinished = ((Finset.range k).filter fun i => (s.timers (.copy i)).running = true).card ∧
      (∀ i < k, s'.timers (.copy i) = s.timers (.copy i) ↔ (s.timers (.copy i)).running = false) ∧
      ∀ i, k ≤ i → s'.timers (.copy i) = s.timers (.copy i))
    ⟨rfl, fun i hi => absurd hi (Nat.not_lt_zero i), fun _ _ => rfl⟩ fun k unfinished s₁ _ hk hs₁ => by
      obtain ⟨hcount, hdone, htodo⟩ := hs₁
      have hsame := htodo k le_rfl
      refine sbTimerRunning_ends.bind fun r s₂ hr => ?_
      obtain ⟨hr, rfl⟩ := hr
      rw [hsame] at hr
      have hr : r = (s.timers (.copy k)).running := hr
      have hcard : ((Finset.range (k + 1)).filter fun i => (s.timers (.copy i)).running = true).card =
          unfinished + if r = true then 1 else 0 := by
        rw [Finset.range_add_one, Finset.filter_insert, hcount, hr]
        by_cases hrunning : (s.timers (.copy k)).running = true
        · rw [if_pos hrunning, if_pos hrunning]
          exact Finset.card_insert_of_notMem (by simp)
        · rw [if_neg hrunning, if_neg hrunning, add_zero]
      split
      · rename_i htrue
        refine (sbTimerStop_ends (n := .copy k) (hsame ▸ hlock k (by omega))).bind fun _ s₃ hs₃ => Ends.pure
          ⟨by rw [hcard, if_pos htrue], fun i hi => ?_, fun i hi => ?_⟩
        · obtain ⟨⟨count, hevents, hself⟩, hothers⟩ := hs₃
          rcases eq_or_ne i k with rfl | hne
          · -- A timer that was stopped has one more event.
            have hrunning : (s.timers (.copy i)).running = true := hr ▸ htrue
            rw [hrunning]
            refine ⟨fun heq => ?_, fun h => by cases h⟩
            rw [hself, hsame] at heq
            have hsucc := congrArg (fun a : Timer ι => a.count .events) heq
            dsimp only at hsucc
            rw [hevents, hsame] at hsucc
            exact absurd hsucc (by simp)
          · rw [hothers _ (by simpa using hne)]
            exact hdone i (by omega)
        · rw [hs₃.2 _ (by simp; omega)]
          exact htodo i (by omega)
      · rename_i hfalse
        refine Ends.pure ⟨by rw [hcard, if_neg hfalse, add_zero], fun i hi => ?_, fun i hi => htodo i (by omega)⟩
        rcases eq_or_ne i k with rfl | hne
        · have hrunning : (s.timers (.copy i)).running = false := hr ▸ Bool.eq_false_iff.mpr hfalse
          exact ⟨fun _ => hrunning, fun _ => hsame⟩
        · exact hdone i (by omega)
  rw [Nat.zero_add] at hloop
  exact hloop.mono fun _ s' hs' => ⟨hs'.1, hs'.2.1⟩

/-- After the calls of a history each timer is taken for running if and only if it is between a start and a stop, and a
report on a forced shutdown counts these timers and leaves the others as they were. -/
def ShutdownRight (t : ι) (n : ℕ) (memory : Shared ι) (h : List (Fin n × TimerCall)) (clock : ℕ → Timespec) : Prop :=
  ∃ s₀ s₁ s₂ s₃ unfinished, (initTimers n).solo (step t) memory = some ((), s₀) ∧ runTimers t s₀ h = some s₁ ∧
    (checkpointTimers n).solo (step t) s₁ = some ((), s₂) ∧
    (stopUnfinished n).solo (step t) { s₂ with clock := clock } = some (unfinished, s₃) ∧
    (∀ i < n, (sbTimerRunning (.thread i)).solo (step t) s₁ = some (decide ((spans h i).phase = .started), s₁)) ∧
    unfinished = ((Finset.range n).filter fun i => (spans h i).phase = .started).card ∧
    ∀ i < n, (spans h i).phase ≠ .started → s₃.timers (.copy i) = s₂.timers (.copy i)

/-- The times of the last start and stop tell whether the timer is running. -/
def Span.Judged (p : Span) : Prop := p.phase = .started ↔ ¬(2 ^ 64 : ℤ) ∣ p.start - p.stop

theorem Timer.Spans.running {a : Timer ι} {p : Span} (ha : a.Spans p) :
    a.running = true ↔ ¬(2 ^ 64 : ℤ) ∣ p.start - p.stop := by
  rw [Timer.running, decide_eq_true_iff, timespecDiff_pos_iff, ha.2.1, ha.2.2]

/-- The runs that a report on a forced shutdown comes after. -/
theorem shutdown_ends (t : ι) (n : ℕ) (memory : Shared ι) (h : List (Fin n × TimerCall)) (clock : ℕ → Timespec) :
    ∃ s₀ s₁ s₂ s₃ unfinished, (initTimers n).solo (step t) memory = some ((), s₀) ∧ runTimers t s₀ h = some s₁ ∧
      (checkpointTimers n).solo (step t) s₁ = some ((), s₂) ∧
      (stopUnfinished n).solo (step t) { s₂ with clock := clock } = some (unfinished, s₃) ∧
      (∀ i < n, (s₁.timers (.thread i)).Spans (spans h i)) ∧
      unfinished = ((Finset.range n).filter fun i => (s₁.timers (.thread i)).running = true).card ∧
      ∀ i < n, s₃.timers (.copy i) = s₂.timers (.copy i) ↔ (s₁.timers (.thread i)).running = false := by
  obtain ⟨_, s₀, hinit, hs₀⟩ := initTimers_ends (t := t) (s := memory) n
  have hfresh : ∀ i < n, (s₀.timers (.thread i)).Spans ⟨.fresh, 0, 0⟩ := fun i hi => by
    rw [hs₀ i hi]
    exact ⟨rfl, Timespec.ns_zero, Timespec.ns_zero⟩
  obtain ⟨s₁, hrun, hs₁⟩ := runTimers_ends (t := t) h _ hfresh
  obtain ⟨_, s₂, hcheckpoint, hs₂⟩ := checkpointTimers_ends (t := t) fun i hi => (hs₁ i hi).1
  obtain ⟨unfinished, s₃, hstop, hcount, hs₃⟩ := stopUnfinished_ends (t := t) (s := { s₂ with clock := clock }) (n := n)
    fun i hi => (congrArg Timer.lock (hs₂ i hi)).trans (hs₁ i hi).1
  refine ⟨s₀, s₁, s₂, s₃, unfinished, hinit, hrun, hcheckpoint, hstop, hs₁, ?_, fun i hi => ?_⟩
  · rw [hcount]
    refine congrArg Finset.card (Finset.filter_congr fun i hi => ?_)
    rw [← hs₂ i (Finset.mem_range.mp hi)]
  · rw [← hs₂ i hi]
    exact hs₃ i hi

theorem ShutdownRight.judged {memory : Shared ι} {h : List (Fin n × TimerCall)} {clock : ℕ → Timespec}
    (hright : ShutdownRight t n memory h clock) : ∀ i < n, (spans h i).Judged := by
  intro i hi
  obtain ⟨s₀, s₁, -, -, -, hinit, hrun, -, -, hverdict, -, -⟩ := hright
  obtain ⟨s₀', s₁', -, -, -, hinit', hrun', -, -, hs₁, -, -⟩ := shutdown_ends t n memory h clock
  obtain rfl : s₀ = s₀' := (Prod.mk.inj (Option.some.inj (hinit.symm.trans hinit'))).2
  obtain rfl : s₁ = s₁' := Option.some.inj (hrun.symm.trans hrun')
  obtain ⟨r, s', hsolo, rfl, -⟩ := sbTimerRunning_ends (t := t) (s := s₁) (n := .thread i)
  have hsame : decide ((spans h i).phase = .started) = (s₁.timers (.thread i)).running :=
    (Prod.mk.inj (Option.some.inj ((hverdict i hi).symm.trans hsolo))).1
  rw [Span.Judged, ← (hs₁ i hi).running, ← hsame, decide_eq_true_iff]

/-! ### Readings of the clock -/

def TimerCall.reading : TimerCall → Option ℤ
  | start now | stop now => some now.ns
  | _ => none

/-- The times that a history reads. -/
def readings (h : List (Fin n × TimerCall)) : List ℤ := h.filterMap fun c => c.2.reading

/-- The times of a span lie up to `b`, in the order of its phase. -/
structure Span.Ordered (p : Span) (b : ℤ) : Prop where
  start_nonneg : 0 ≤ p.start
  stop_nonneg : 0 ≤ p.stop
  start_le : p.start ≤ b
  stop_le : p.stop ≤ b
  fresh : p.phase = .fresh → p.start = 0 ∧ p.stop = 0
  started : p.phase = .started → p.stop < p.start
  stopped : p.phase = .stopped → p.start < p.stop

theorem Span.Ordered.mono {p : Span} {b b' : ℤ} (hp : p.Ordered b) (hb : b ≤ b') : p.Ordered b' :=
  ⟨hp.1, hp.2, hp.3.trans hb, hp.4.trans hb, hp.5, hp.6, hp.7⟩

theorem Span.Ordered.zero {b : ℤ} (hb : 0 ≤ b) : Span.Ordered ⟨.fresh, 0, 0⟩ b where
  start_nonneg := le_rfl
  stop_nonneg := le_rfl
  start_le := hb
  stop_le := hb
  fresh _ := ⟨rfl, rfl⟩
  started hphase := by cases hphase
  stopped hphase := by cases hphase

theorem Span.Ordered.start_after {p : Span} {b : ℤ} {now : Timespec} (hp : p.Ordered b) (h0 : 0 ≤ now.ns) (hnow : b < now.ns) :
    (p.after (.start now)).Ordered now.ns where
  start_nonneg := h0
  stop_nonneg := hp.stop_nonneg
  start_le := le_rfl
  stop_le := hp.stop_le.trans hnow.le
  fresh hphase := by cases hphase
  started _ := hp.stop_le.trans_lt hnow
  stopped hphase := by cases hphase

theorem Span.Ordered.stop_after {p : Span} {b : ℤ} {now : Timespec} (hp : p.Ordered b) (h0 : 0 ≤ now.ns) (hnow : b < now.ns) :
    (p.after (.stop now)).Ordered now.ns where
  start_nonneg := hp.start_nonneg
  stop_nonneg := h0
  start_le := hp.start_le.trans hnow.le
  stop_le := le_rfl
  fresh hphase := by cases hphase
  started hphase := by cases hphase
  stopped _ := hp.start_le.trans_lt hnow

theorem ordered_spans (h : List (Fin n × TimerCall)) : ∀ (p : ℕ → Span) (b : ℤ), 0 ≤ b → b < 2 ^ 64 →
    (∀ i, (p i).Ordered b) → (b :: readings h).Pairwise (· < ·) → (∀ x ∈ readings h, x < 2 ^ 64) →
    ∃ b' < 2 ^ 64, ∀ i, (h.foldl (fun p c => Function.update p c.1 ((p c.1).after c.2)) p i).Ordered b' := by
  induction h with
  | nil => exact fun p b _ hb hp _ _ => ⟨b, hb, hp⟩
  | cons c h ih =>
    intro p b h0 hb hp hincreasing hlt
    have hupdate : ∀ {b' : ℤ}, b ≤ b' → ((p c.1).after c.2).Ordered b' →
        ∀ i, (Function.update p c.1 ((p c.1).after c.2) i).Ordered b' := fun hle hc i => by
      rcases eq_or_ne i c.1 with rfl | hne
      · rwa [Function.update_self]
      · rw [Function.update_of_ne hne]
        exact (hp i).mono hle
    have hc := hp c.1
    -- A call that reads no clock, and one that reads a later time.
    have hquiet : readings (c :: h) = readings h → ((p c.1).after c.2).Ordered b →
        ∃ b' < 2 ^ 64, ∀ i, ((c :: h).foldl (fun p c => Function.update p c.1 ((p c.1).after c.2)) p i).Ordered b' := by
      intro hread hordered
      rw [hread] at hincreasing hlt
      exact ih _ b h0 hb (hupdate le_rfl hordered) hincreasing hlt
    have hlater : ∀ now : Timespec, readings (c :: h) = now.ns :: readings h → (b < now.ns → ((p c.1).after c.2).Ordered now.ns) →
        ∃ b' < 2 ^ 64, ∀ i, ((c :: h).foldl (fun p c => Function.update p c.1 ((p c.1).after c.2)) p i).Ordered b' := by
      intro now hread hordered
      rw [hread] at hincreasing hlt
      have hnow : b < now.ns := (List.pairwise_cons.mp hincreasing).1 _ (List.mem_cons_self ..)
      exact ih _ now.ns (by omega) (hlt _ (List.mem_cons_self ..)) (hupdate hnow.le (hordered hnow))
        (List.pairwise_cons.mp hincreasing).2 fun x hx => hlt x (List.mem_cons_of_mem _ hx)
    cases hcall : c.2 with
    | init =>
      refine hquiet (by simp only [readings, List.filterMap_cons, hcall, TimerCall.reading]) ?_
      rw [hcall]
      exact Span.Ordered.zero h0
    | checkpoint =>
      refine hquiet (by simp only [readings, List.filterMap_cons, hcall, TimerCall.reading]) ?_
      rw [hcall]
      exact hc
    | start now =>
      refine hlater now (by simp only [readings, List.filterMap_cons, hcall, TimerCall.reading]) fun hnow => ?_
      rw [hcall]
      exact hc.start_after (h0.trans hnow.le) hnow
    | stop now =>
      refine hlater now (by simp only [readings, List.filterMap_cons, hcall, TimerCall.reading]) fun hnow => ?_
      rw [hcall]
      exact hc.stop_after (h0.trans hnow.le) hnow

/-- Where the clock never goes back and has run for less than `2 ^ 64` nanoseconds, a timer is misjudged if and only if it
has been stopped. -/
theorem judged_iff {h : List (Fin n × TimerCall)} (hincreasing : (0 :: readings h).Pairwise (· < ·))
    (hlt : ∀ x ∈ readings h, x < 2 ^ 64) (i : ℕ) : (spans h i).Judged ↔ (spans h i).phase ≠ .stopped := by
  obtain ⟨b, hb, hordered⟩ := ordered_spans h (fun _ => ⟨.fresh, 0, 0⟩) 0 le_rfl (by norm_num)
    (fun _ => Span.Ordered.zero le_rfl) hincreasing hlt
  obtain ⟨hstart0, hstop0, hstart, hstop, hfresh, hstarted, hstopped⟩ := hordered i
  unfold Span.Judged
  change (spans h i).phase = .fresh → _ at hfresh
  change (spans h i).phase = .started → (spans h i).stop < (spans h i).start at hstarted
  change (spans h i).phase = .stopped → (spans h i).start < (spans h i).stop at hstopped
  change 0 ≤ (spans h i).start at hstart0
  change 0 ≤ (spans h i).stop at hstop0
  change (spans h i).start ≤ b at hstart
  change (spans h i).stop ≤ b at hstop
  cases hphase : (spans h i).phase with
  | fresh =>
    have hzero := hfresh hphase
    rw [show (spans h i).start = 0 from hzero.1, show (spans h i).stop = 0 from hzero.2]
    simp
  | started =>
    have hpos := hstarted hphase
    refine ⟨fun _ => by simp, fun _ => ⟨fun _ hdvd => ?_, fun _ => rfl⟩⟩
    have := Int.le_of_dvd (by omega) hdvd
    omega
  | stopped =>
    have hneg := hstopped hphase
    refine ⟨fun hiff => ?_, fun hne => absurd rfl hne⟩
    have hdvd : (2 ^ 64 : ℤ) ∣ (spans h i).stop - (spans h i).start := by
      have := not_not.mp (mt hiff.mpr (by simp))
      rwa [← Int.dvd_neg, neg_sub] at this
    have := Int.le_of_dvd (by omega) hdvd
    omega

/-- The one event of a thread, from 1 s to 2 s. -/
def stoppedOnce : List (Fin 1 × TimerCall) := [(0, .start ⟨1, 0⟩), (0, .stop ⟨2, 0⟩)]

/-- The report counts a thread that has no event, and stops its timer again. -/
theorem not_shutdownRight : ¬ShutdownRight () 1 Shared.zeroed stoppedOnce fun _ => ⟨3, 0⟩ := fun hright =>
  absurd (hright.judged 0 Nat.one_pos) (by unfold Span.Judged; decide)

/-- A report on a forced shutdown is right if and only if the times of each timer tell whether it is running; for a clock
that never goes back, and has run for less than `2 ^ 64` nanoseconds, if and only if no timer has been stopped since its
last start. -/
theorem shutdownRight_iff (t : ι) (n : ℕ) (memory : Shared ι) (h : List (Fin n × TimerCall)) (clock : ℕ → Timespec) :
    (ShutdownRight t n memory h clock ↔ ∀ i < n, (spans h i).Judged) ∧
    ((0 :: readings h).Pairwise (· < ·) → (∀ x ∈ readings h, x < 2 ^ 64) →
      (ShutdownRight t n memory h clock ↔ ∀ i < n, (spans h i).phase ≠ .stopped)) := by
  have hiff : ShutdownRight t n memory h clock ↔ ∀ i < n, (spans h i).Judged := by
    refine ⟨ShutdownRight.judged, fun hjudged => ?_⟩
    obtain ⟨s₀, s₁, s₂, s₃, unfinished, hinit, hrun, hcheckpoint, hstop, hs₁, hcount, hs₃⟩ :=
      shutdown_ends t n memory h clock
    have hrunning : ∀ i < n, (s₁.timers (.thread i)).running = true ↔ (spans h i).phase = .started := fun i hi =>
      (hs₁ i hi).running.trans (hjudged i hi).symm
    refine ⟨s₀, s₁, s₂, s₃, unfinished, hinit, hrun, hcheckpoint, hstop, fun i hi => ?_, ?_, fun i hi hphase => ?_⟩
    · obtain ⟨r, s', hsolo, hr, rfl⟩ := sbTimerRunning_ends (t := t) (s := s₁) (n := .thread i)
      rw [hsolo, hr]
      exact congrArg (fun r => some (r, s')) (Bool.eq_iff_iff.mpr ((hrunning i hi).trans decide_eq_true_iff.symm))
    · rw [hcount]
      exact congrArg Finset.card (Finset.filter_congr fun i hi => hrunning i (Finset.mem_range.mp hi))
    · exact (hs₃ i hi).mpr (Bool.eq_false_iff.mpr fun h => hphase ((hrunning i hi).mp h))
  exact ⟨hiff, fun hincreasing hlt => hiff.trans (forall₂_congr fun i _ => judged_iff hincreasing hlt i)⟩

theorem shutdownRight_started : ShutdownRight () 1 Shared.zeroed (stoppedOnce ++ [(0, .start ⟨3, 0⟩)]) fun _ => ⟨4, 0⟩ :=
  ((shutdownRight_iff () 1 Shared.zeroed (stoppedOnce ++ [(0, .start ⟨3, 0⟩)]) fun _ => ⟨4, 0⟩).2 (by decide) (by decide)).mpr
    (by decide)

end histories

end NuKSM.Sysbench
