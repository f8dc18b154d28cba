import NuKSM.Lib.Performs
import NuKSM.Lib.Schedule
import NuKSM.Theorems.Sysbench.Latencies

/-! # Timers of workers and reports

A worker records latencies in its timer while it has locked it, and a report copies and resets the timer while it has. Only
the queue time of the q event is written without the lock. -/

namespace NuKSM.Sysbench
open Thread TimerOp

variable {n : ℕ}

abbrev LatencyEvent (n : ℕ) := Event (TimerThread n) TimerOp TimerOp.Res TimerThread.Call (Option LatencyStat)

abbrev LatencyWorld (n : ℕ) :=
  World (Shared (TimerThread n)) (TimerThread n) TimerOp TimerOp.Res TimerThread.Call (Option LatencyStat)

/-! ### What a run has done -/

/-- A recorded latency, with the times of the start and the stop and the queue time that was measured last, and whether a
report has reset it since. -/
structure LatencyRecord where
  start : Timespec
  stop : Timespec
  queueTime : UInt64
  wiped : Bool
  elapsed : UInt64

/-- What a worker has done: the times that it stored last, the sum that it read last, and its latencies, with those that no
report has taken yet. -/
structure WorkerAudit where
  start : Timespec
  stop : Timespec
  queueTime : UInt64
  wiped : Bool
  sumTime : UInt64
  records : List LatencyRecord
  pending : List UInt64

/-- A report, with the latencies that it took of each worker. -/
structure LatencyReport where
  taken : ℕ → List UInt64
  stat : LatencyStat

/-- The workers, the latencies that the report in progress has taken, the reports before it, and whether a histogram update
had another value than that of the last latency. -/
structure LatencyAudit where
  worker : ℕ → WorkerAudit
  taken : ℕ → List UInt64
  reports : List LatencyReport
  misused : Prop

def LatencyAudit.zero : LatencyAudit :=
  ⟨fun _ => ⟨⟨0, 0⟩, ⟨0, 0⟩, 0, false, 0, [], []⟩, fun _ => [], [], False⟩

def LatencyAudit.setWorker (a : LatencyAudit) (id : ℕ) (W : WorkerAudit) : LatencyAudit :=
  { a with worker := Function.update a.worker id W }

/-- The latency is what the worker adds to the sum. -/
def WorkerAudit.addLatency (W : WorkerAudit) (elapsed : UInt64) : WorkerAudit :=
  { W with
    records := W.records ++ [⟨W.start, W.stop, W.queueTime, W.wiped, elapsed⟩]
    pending := W.pending ++ [elapsed] }

def LatencyAudit.record (a : LatencyAudit) : LatencyEvent n → LatencyAudit
  | .act (.worker id) (.storeStart _ v) _ => a.setWorker id { a.worker id with start := v }
  | .act (.worker id) (.storeEnd _ v) _ => a.setWorker id { a.worker id with stop := v }
  | .act (.worker id) (.store _ .queueTime v) _ => a.setWorker id { a.worker id with queueTime := v, wiped := false }
  | .act (.worker id) (.load _ .sumTime) v => a.setWorker id { a.worker id with sumTime := v }
  | .act (.worker id) (.store _ .sumTime v) _ => a.setWorker id ((a.worker id).addLatency (v - (a.worker id).sumTime))
  | .act (.worker id) (.updateHistogram v) _ =>
    { a with misused := a.misused ∨ (a.worker id).records.getLast?.map (·.elapsed) ≠ some v }
  | .act .reporter (.lock (.thread j)) _ =>
    { a.setWorker j { a.worker j with pending := [] } with taken := Function.update a.taken j (a.worker j).pending }
  | .act .reporter (.store (.thread j) .queueTime _) _ => a.setWorker j { a.worker j with wiped := true }
  | .ret .reporter _ (some stat) =>
    { a with
      taken := fun _ => []
      reports := a.reports ++ [⟨a.taken, stat⟩] }
  | _ => a

def latencyAudit (h : List (LatencyEvent n)) : LatencyAudit := h.foldl LatencyAudit.record .zero

theorem latencyAudit_snoc (h : List (LatencyEvent n)) (e : LatencyEvent n) :
    latencyAudit (h ++ [e]) = (latencyAudit h).record e := by
  simp only [latencyAudit, List.foldl_append, List.foldl_cons, List.foldl_nil]

/-! ### The protocol -/

/-- The latency of an event whose queue time is the one in the timer. -/
def WorkerAudit.latency (W : WorkerAudit) : UInt64 := timespecDiff W.stop W.start + if W.wiped then 0 else W.queueTime

def LatencyRecord.Lawful (r : LatencyRecord) : Prop :=
  r.elapsed = timespecDiff r.stop r.start + if r.wiped then 0 else r.queueTime

/-- What the reports have taken of a worker. -/
def LatencyAudit.reported (a : LatencyAudit) (id : ℕ) : List UInt64 := (a.reports.flatMap fun r => r.taken id) ++ a.taken id

/-- A timer agrees with what its worker has done, of which the latencies `reported` are no longer in the timer. -/
structure TimerOk {ι : Type} (t : Timer ι) (reported : List UInt64) (W : WorkerAudit) : Prop where
  start : t.timeStart = W.start
  stop : t.timeEnd = W.stop
  queueTime : t.count .queueTime = if W.wiped then 0 else W.queueTime
  counts : t.lock = none → Summarizes t.count W.pending
  lawful : ∀ r ∈ W.records, r.Lawful
  parts : W.records.map (·.elapsed) = reported ++ W.pending

/-- The report merges the latencies that it has taken of all workers. -/
def LatencyReport.Ok (n : ℕ) (r : LatencyReport) : Prop :=
  ∃ t, Summarizes t ((List.range n).flatMap r.taken) ∧ r.stat = .of t

structure LatencyInv (w : LatencyWorld n) : Prop where
  timers : ∀ id < n, TimerOk (w.2.timers (.thread id)) ((latencyAudit w.1).reported id) ((latencyAudit w.1).worker id)
  reports : ∀ r ∈ (latencyAudit w.1).reports, r.Ok n
  used : ¬(latencyAudit w.1).misused

/-- What a worker finds again after the turns of the others. While it has locked its timer, that is everything. -/
structure SameWorker (id : Fin n) (w w' : LatencyWorld n) : Prop where
  records : ((latencyAudit w'.1).worker id).records = ((latencyAudit w.1).worker id).records
  held : (w.2.timers (.thread id)).lock = some (.worker id) →
    w'.2.timers (.thread id) = w.2.timers (.thread id) ∧ (latencyAudit w'.1).worker id = (latencyAudit w.1).worker id

/-- What the thread of the reports finds again. -/
structure SameReporter (w w' : LatencyWorld n) : Prop where
  reports : (latencyAudit w'.1).reports = (latencyAudit w.1).reports
  copy : ∀ j, w'.2.timers (.copy j) = w.2.timers (.copy j)
  taken : (latencyAudit w'.1).taken = (latencyAudit w.1).taken
  held : ∀ j, (w.2.timers (.thread j)).lock = some .reporter → (w'.2.timers (.thread j)).lock = some .reporter ∧
    (∀ f, f ≠ .queueTime → (w'.2.timers (.thread j)).count f = (w.2.timers (.thread j)).count f) ∧
    ((latencyAudit w'.1).worker j).pending = ((latencyAudit w.1).worker j).pending

def TimerThread.Same : TimerThread n → LatencyWorld n → LatencyWorld n → Prop
  | worker id => SameWorker id
  | reporter => SameReporter

def latencyProtocol (n : ℕ) :
    Protocol (Shared (TimerThread n)) (TimerThread n) TimerOp TimerOp.Res TimerThread.Call (Option LatencyStat) where
  exec := Outcome TimerOp.step
  inv := LatencyInv
  idle t w := t = .reporter → (latencyAudit w.1).taken = fun _ => []
  rely := TimerThread.Same
  rely_refl t w := by
    cases t with
    | worker id => exact ⟨rfl, fun _ => ⟨rfl, rfl⟩⟩
    | reporter => exact ⟨rfl, fun _ => rfl, rfl, fun _ h => ⟨h, fun _ _ => rfl, rfl⟩⟩
  rely_trans {t} w₁ w₂ w₃ h₁ h₂ := by
    cases t with
    | worker id =>
      refine ⟨h₂.records.trans h₁.records, fun hlock => ?_⟩
      obtain ⟨htimer, hworker⟩ := h₁.held hlock
      obtain ⟨htimer', hworker'⟩ := h₂.held (htimer ▸ hlock)
      exact ⟨htimer'.trans htimer, hworker'.trans hworker⟩
    | reporter =>
      refine ⟨h₂.reports.trans h₁.reports, fun j => (h₂.copy j).trans (h₁.copy j), h₂.taken.trans h₁.taken, fun j hlock => ?_⟩
      obtain ⟨hlock', hcount, hpending⟩ := h₁.held j hlock
      obtain ⟨hlock'', hcount', hpending'⟩ := h₂.held j hlock'
      exact ⟨hlock'', fun f hf => (hcount' f hf).trans (hcount f hf), hpending'.trans hpending⟩
  idle_rely hidle hsame hreporter := by
    subst hreporter
    exact hsame.taken.trans (hidle rfl)

/-! ### Turns of a worker -/

section worker
variable {id : Fin n} {h : List (LatencyEvent n)} {s s' : Shared (TimerThread n)} {w w' : LatencyWorld n}
  {e : LatencyEvent n} {f : TimerField → UInt64} {W V : WorkerAudit} {α : Type} {p : TimerM α} {Q : α → LatencyWorld n → Prop}

theorem setWorker_self (a : LatencyAudit) (id : ℕ) : a.setWorker id (a.worker id) = a := by
  unfold LatencyAudit.setWorker
  rw [Function.update_eq_self]

/-- The invariant is kept when the turn changes one timer and what its worker has done, and these still fit. -/
theorem LatencyInv.turn {a' : LatencyAudit} {k : ℕ} (hinv : LatencyInv (h, s)) (hsnoc : latencyAudit (h ++ [e]) = a')
    (hworker : ∀ j, j ≠ k → a'.worker j = (latencyAudit h).worker j) (hreports : a'.reports = (latencyAudit h).reports)
    (htaken : ∀ j, j ≠ k → a'.taken j = (latencyAudit h).taken j) (hused : a'.misused → (latencyAudit h).misused)
    (htimers : ∀ j, j ≠ k → s'.timers (.thread j) = s.timers (.thread j))
    (hok : TimerOk (s.timers (.thread k)) ((latencyAudit h).reported k) ((latencyAudit h).worker k) →
      TimerOk (s'.timers (.thread k)) (a'.reported k) (a'.worker k)) : LatencyInv (h ++ [e], s') := by
  refine ⟨fun j hj => ?_, ?_, ?_⟩
  · show TimerOk (s'.timers _) ((latencyAudit (h ++ [e])).reported j) ((latencyAudit (h ++ [e])).worker j)
    rw [hsnoc]
    rcases eq_or_ne j k with rfl | hne
    · exact hok (hinv.timers j hj)
    · rw [hworker j hne, htimers j hne, LatencyAudit.reported, hreports, htaken j hne]
      exact hinv.timers j hj
  · rw [hsnoc, hreports]
    exact hinv.reports
  · rw [hsnoc]
    exact fun hmis => hinv.used (hused hmis)

/-- A turn of a worker that changes at most its own timer and what it has done. -/
theorem worker_guards {a' : LatencyAudit} {T : Timer (TimerThread n)} (hinv : LatencyInv (h, s))
    (ha : (latencyAudit h).record e = a') (hworker : a'.worker = Function.update (latencyAudit h).worker id V)
    (htaken : a'.taken = (latencyAudit h).taken) (hreports : a'.reports = (latencyAudit h).reports)
    (hused : a'.misused → (latencyAudit h).misused)
    (htimers : s'.timers = Function.update s.timers (.thread id) T) (hok : TimerOk T ((latencyAudit h).reported id) V)
    (hheld : (s.timers (.thread id)).lock = some .reporter → T.lock = some .reporter ∧
      (∀ f, f ≠ .queueTime → T.count f = (s.timers (.thread id)).count f) ∧
      V.pending = ((latencyAudit h).worker id).pending) :
    (latencyProtocol n).Guards (.worker id) (h, s) (h ++ [e], s') := by
  have hsnoc : latencyAudit (h ++ [e]) = a' := (latencyAudit_snoc h e).trans ha
  have hreported : a'.reported = (latencyAudit h).reported := by
    funext j
    rw [LatencyAudit.reported, hreports, htaken]
    rfl
  have hself : a'.worker id = V := by rw [hworker, Function.update_self]
  have hother : ∀ j, j ≠ (id : ℕ) → a'.worker j = (latencyAudit h).worker j := fun j hj => by
    rw [hworker, Function.update_of_ne hj]
  have hthread : s'.timers (.thread id) = T := by rw [htimers, Function.update_self]
  have hname : ∀ m, m ≠ TimerName.thread id → s'.timers m = s.timers m := fun m hm => by
    rw [htimers, Function.update_of_ne hm]
  have hne : ∀ {j : ℕ}, j ≠ id → TimerName.thread j ≠ .thread id := fun hj heq => hj (TimerName.thread.inj heq)
  refine ⟨hinv.turn hsnoc hother hreports (fun j _ => congrFun htaken j) hused (fun j hj => hname _ (hne hj)) ?_,
    fun u hu => ?_⟩
  · rw [hself, hthread, hreported]
    exact fun _ => hok
  · cases u with
    | worker j =>
      have hj : (j : ℕ) ≠ id := fun heq => hu (congrArg _ (Fin.ext heq))
      refine ⟨?_, fun _ => ⟨hname _ (hne hj), ?_⟩⟩
      · rw [hsnoc, hother j hj]
      · rw [hsnoc, hother j hj]
    | reporter =>
      refine ⟨?_, fun j => hname _ nofun, ?_, fun j hlock => ?_⟩
      · rw [hsnoc, hreports]
      · rw [hsnoc, htaken]
      · show (s'.timers _).lock = _ ∧ (∀ f, f ≠ .queueTime → (s'.timers _).count f = _) ∧ ((latencyAudit (h ++ [e])).worker j).pending = _
        rw [hsnoc]
        rcases eq_or_ne j id with rfl | hj
        · rw [hthread, hself]
          exact hheld hlock
        · rw [hname _ (hne hj), hother j hj]
          exact ⟨hlock, fun _ _ => rfl, rfl⟩

/-- A turn of a worker that the audit does not note, and that leaves the timers. -/
theorem worker_guards_unnoted (hinv : LatencyInv (h, s)) (he : (latencyAudit h).record e = latencyAudit h)
    (htimers : s'.timers = s.timers) : (latencyProtocol n).Guards (.worker id) (h, s) (h ++ [e], s') :=
  worker_guards (T := s.timers (.thread id)) hinv he (Function.update_eq_self _ _).symm rfl rfl (fun h => h)
    (htimers.trans (Function.update_eq_self _ _).symm) (hinv.timers id id.isLt) fun hlock => ⟨hlock, fun _ _ => rfl, rfl⟩

/-- The worker has locked its timer. -/
structure Holding (id : Fin n) (f : TimerField → UInt64) (W : WorkerAudit) (w : LatencyWorld n) : Prop where
  lock : (w.2.timers (.thread id)).lock = some (.worker id)
  count : (w.2.timers (.thread id)).count = f
  worker : (latencyAudit w.1).worker id = W

theorem Holding.rely (hH : Holding id f W w) (hsame : SameWorker id w w') : Holding id f W w' := by
  obtain ⟨htimer, hworker⟩ := hsame.held hH.lock
  exact ⟨htimer ▸ hH.lock, htimer ▸ hH.count, hworker.trans hH.worker⟩

/-- A turn of a worker on its timer while it has locked it. -/
theorem Holding.turn {T : Timer (TimerThread n)} (hH : Holding id f W (h, s)) (hinv : LatencyInv (h, s))
    (hnote : (latencyAudit h).record e = (latencyAudit h).setWorker id V)
    (htimers : s'.timers = Function.update s.timers (.thread id) T) (hlock : T.lock = some (.worker id))
    (hok : TimerOk (s.timers (.thread id)) ((latencyAudit h).reported id) W → TimerOk T ((latencyAudit h).reported id) V)
    (hnext : Holding id T.count V (h ++ [e], s') → (latencyProtocol n).wp (.worker id) p Q (h ++ [e], s')) :
    (latencyProtocol n).Guards (.worker id) (h, s) (h ++ [e], s') ∧ (latencyProtocol n).wp (.worker id) p Q (h ++ [e], s') := by
  have hW : (latencyAudit h).worker id = W := hH.worker
  refine ⟨worker_guards hinv hnote rfl rfl rfl (fun h => h) htimers (hok (hW ▸ hinv.timers id id.isLt)) fun hlock' => ?_,
    hnext ⟨?_, ?_, ?_⟩⟩
  · have hlock : (s.timers (.thread id)).lock = _ := hH.lock
    rw [hlock] at hlock'
    cases hlock'
  · show (s'.timers _).lock = _
    rw [htimers, Function.update_self]
    exact hlock
  · show (s'.timers _).count = _
    rw [htimers, Function.update_self]
  · show (latencyAudit (h ++ [e])).worker id = _
    rw [latencyAudit_snoc, hnote]
    exact Function.update_self ..

theorem Holding.unnoted (hH : Holding id f W (h, s)) (hinv : LatencyInv (h, s))
    (he : (latencyAudit h).record e = latencyAudit h) (htimers : s'.timers = s.timers)
    (hnext : Holding id f W (h ++ [e], s') → (latencyProtocol n).wp (.worker id) p Q (h ++ [e], s')) :
    (latencyProtocol n).Guards (.worker id) (h, s) (h ++ [e], s') ∧ (latencyProtocol n).wp (.worker id) p Q (h ++ [e], s') := by
  obtain ⟨hlock, hcount, hworker⟩ := hH
  refine ⟨worker_guards_unnoted hinv he htimers, hnext ⟨?_, ?_, ?_⟩⟩
  · show (s'.timers _).lock = _
    rwa [htimers]
  · show (s'.timers _).count = _
    rwa [htimers]
  · show (latencyAudit (h ++ [e])).worker id = _
    rwa [latencyAudit_snoc, he]

theorem wp_worker_lock {q : Unit → TimerM α}
    (hnext : ∀ f W w', Holding id f W w' → Summarizes f W.pending → (latencyProtocol n).wp (.worker id) (q ()) Q w') :
    (latencyProtocol n).wp (.worker id) (perform (lock (.thread id)) >>= q) Q w := by
  refine Protocol.wp_perform fun h s r s' hsame hinv hexec => ?_
  have hexec : (if (s.timers (.thread id)).lock = none then
    some ((), s.setTimer (.thread id) { s.timers (.thread id) with lock := some (.worker id) }) else none) = some (r, s') := hexec
  split at hexec
  · rename_i hfree
    cases hexec
    have hok := hinv.timers id id.isLt
    have hnote : (latencyAudit h).record (.act (.worker id) (.lock (.thread id)) () : LatencyEvent n) = latencyAudit h := rfl
    refine ⟨worker_guards hinv hnote (Function.update_eq_self _ _).symm rfl rfl (fun h => h) rfl
      ⟨hok.start, hok.stop, hok.queueTime, nofun, hok.lawful, hok.parts⟩ fun hlock => ?_, ?_⟩
    · rw [hfree] at hlock
      cases hlock
    · refine hnext (s.timers (.thread id)).count ((latencyAudit h).worker id) _ ⟨?_, ?_, ?_⟩ (hok.counts hfree)
      · show (Function.update s.timers (.thread id) _ (.thread id)).lock = _
        rw [Function.update_self]
      · show (Function.update s.timers (.thread id) _ (.thread id)).count = _
        rw [Function.update_self]
      · rw [latencyAudit_snoc, hnote]
  · cases hexec

/-- An operation of the worker while it has locked its timer. -/
theorem wp_holding_perform {op : TimerOp} {q : op.Res → TimerM α} (hH : Holding id f W w)
    (hturn : ∀ {h : List (LatencyEvent n)} {s : Shared (TimerThread n)} {r s'}, Holding id f W (h, s) → LatencyInv (h, s) →
      (latencyAudit h).worker id = W → (s.timers (.thread id)).count = f → op.step (.worker id) s = some (r, s') →
      (latencyProtocol n).Guards (.worker id) (h, s) (h ++ [.act (.worker id) op r], s') ∧
        (latencyProtocol n).wp (.worker id) (q r) Q (h ++ [.act (.worker id) op r], s')) :
    (latencyProtocol n).wp (.worker id) (perform op >>= q) Q w :=
  Protocol.wp_perform fun _ _ _ _ hsame hinv hexec =>
    have hH := hH.rely hsame
    hturn hH hinv hH.worker hH.count hexec

theorem wp_worker_unlock {q : Unit → TimerM α} (hH : Holding id f W w) (hsum : Summarizes f W.pending)
    (hnext : ∀ w', ((latencyAudit w'.1).worker id).records = W.records → (latencyProtocol n).wp (.worker id) (q ()) Q w') :
    (latencyProtocol n).wp (.worker id) (perform (unlock (.thread id)) >>= q) Q w := by
  refine wp_holding_perform hH fun {h _ _ _} hH hinv hworker hcount hexec => ?_
  cases hexec
  have hok := hinv.timers id id.isLt
  have hnote : (latencyAudit h).record (.act (.worker id) (.unlock (.thread id)) () : LatencyEvent n) = latencyAudit h := rfl
  refine ⟨worker_guards hinv hnote (Function.update_eq_self _ _).symm rfl rfl (fun h => h) rfl
    ⟨hok.start, hok.stop, hok.queueTime, fun _ => ?_, hok.lawful, hok.parts⟩ fun hlock' => ?_, hnext _ ?_⟩
  · rw [hworker]
    exact hsum.congr fun f _ => congrFun hcount f
  · rw [hH.lock] at hlock'
    cases hlock'
  · show ((latencyAudit (h ++ [_])).worker id).records = _
    rw [latencyAudit_snoc, hnote, hworker]

/-- An operation that changes nothing while the worker has locked its timer. -/
theorem wp_holding_read {op : TimerOp} {q : op.Res → TimerM α} {P : op.Res → Prop} (hH : Holding id f W w)
    (hread : ∀ {h : List (LatencyEvent n)} {s : Shared (TimerThread n)} {r s'}, (s.timers (.thread id)).count = f →
      TimerOk (s.timers (.thread id)) ((latencyAudit h).reported id) W → op.step (.worker id) s = some (r, s') →
      (latencyAudit h).record (.act (.worker id) op r : LatencyEvent n) = latencyAudit h ∧ s'.timers = s.timers ∧ P r)
    (hnext : ∀ r w', P r → Holding id f W w' → (latencyProtocol n).wp (.worker id) (q r) Q w') :
    (latencyProtocol n).wp (.worker id) (perform op >>= q) Q w := by
  refine wp_holding_perform hH fun {_ _ r _} hH hinv hW hcount hexec => ?_
  obtain ⟨hnote, htimers, hr⟩ := hread hcount (hW ▸ hinv.timers id id.isLt) hexec
  exact hH.unnoted hinv hnote htimers fun hH => hnext r _ hr hH

theorem wp_holding_getTime {q : Timespec → TimerM α} (hH : Holding id f W w)
    (hnext : ∀ now w', Holding id f W w' → (latencyProtocol n).wp (.worker id) (q now) Q w') :
    (latencyProtocol n).wp (.worker id) (perform getTime >>= q) Q w := by
  refine wp_holding_read (P := fun _ => True) hH (fun _ _ hstep => ?_) fun now w' _ hH => hnext now w' hH
  cases hstep
  exact ⟨rfl, rfl, trivial⟩

theorem wp_holding_storeStart {v : Timespec} {q : Unit → TimerM α} (hH : Holding id f W w)
    (hnext : ∀ w', Holding id f { W with start := v } w' → (latencyProtocol n).wp (.worker id) (q ()) Q w') :
    (latencyProtocol n).wp (.worker id) (perform (storeStart (.thread id) v) >>= q) Q w := by
  refine wp_holding_perform hH fun {h s _ _} hH hinv hW hcount hexec => ?_
  cases hexec
  exact hH.turn (V := { W with start := v }) hinv (hW ▸ rfl) rfl hH.lock (fun hok => ⟨rfl, hok.stop, hok.queueTime,
    fun hfree => absurd (hH.lock.symm.trans hfree) nofun, hok.lawful, hok.parts⟩) fun hH => hnext _ (hcount ▸ hH)

theorem wp_holding_storeEnd {v : Timespec} {q : Unit → TimerM α} (hH : Holding id f W w)
    (hnext : ∀ w', Holding id f { W with stop := v } w' → (latencyProtocol n).wp (.worker id) (q ()) Q w') :
    (latencyProtocol n).wp (.worker id) (perform (storeEnd (.thread id) v) >>= q) Q w := by
  refine wp_holding_perform hH fun {h s _ _} hH hinv hW hcount hexec => ?_
  cases hexec
  exact hH.turn (V := { W with stop := v }) hinv (hW ▸ rfl) rfl hH.lock (fun hok => ⟨hok.start, rfl, hok.queueTime,
    fun hfree => absurd (hH.lock.symm.trans hfree) nofun, hok.lawful, hok.parts⟩) fun hH => hnext _ (hcount ▸ hH)

/-- The worker reads the time that it has stored. -/
theorem wp_holding_loadStart {q : Timespec → TimerM α} (hH : Holding id f W w)
    (hnext : ∀ w', Holding id f W w' → (latencyProtocol n).wp (.worker id) (q W.start) Q w') :
    (latencyProtocol n).wp (.worker id) (perform (loadStart (.thread id)) >>= q) Q w := by
  refine wp_holding_read (P := fun v => W.start = v) hH (fun _ hok hstep => ?_) fun v w' hv hH => hv ▸ hnext w' hH
  cases hstep
  exact ⟨rfl, rfl, hok.start.symm⟩

theorem wp_holding_loadEnd {q : Timespec → TimerM α} (hH : Holding id f W w)
    (hnext : ∀ w', Holding id f W w' → (latencyProtocol n).wp (.worker id) (q W.stop) Q w') :
    (latencyProtocol n).wp (.worker id) (perform (loadEnd (.thread id)) >>= q) Q w := by
  refine wp_holding_read (P := fun v => W.stop = v) hH (fun _ hok hstep => ?_) fun v w' hv hH => hv ▸ hnext w' hH
  cases hstep
  exact ⟨rfl, rfl, hok.stop.symm⟩

theorem wp_holding_load {field : TimerField} {q : UInt64 → TimerM α} (hfield : field ≠ .sumTime) (hH : Holding id f W w)
    (hnext : ∀ w', Holding id f W w' → (field = .queueTime → f field = if W.wiped then 0 else W.queueTime) →
      (latencyProtocol n).wp (.worker id) (q (f field)) Q w') :
    (latencyProtocol n).wp (.worker id) (perform (load (.thread id) field) >>= q) Q w := by
  refine wp_holding_read (P := fun v => f field = v ∧ (field = .queueTime → v = if W.wiped then 0 else W.queueTime)) hH
    (fun {h s _ _} hcount hok hstep => ?_) fun v w' hv hH => hv.1 ▸ hnext w' hH fun heq => hv.1.trans (hv.2 heq)
  cases hstep
  have hnote : (latencyAudit h).record (.act (.worker id) (.load (.thread id) field) ((s.timers (.thread id)).count field) :
      LatencyEvent n) = latencyAudit h := by
    cases field with
    | sumTime => exact absurd rfl hfield
    | _ => rfl
  refine ⟨hnote, rfl, (congrFun hcount field).symm, fun heq => ?_⟩
  subst heq
  exact hok.queueTime

theorem wp_holding_loadSum {q : UInt64 → TimerM α} (hH : Holding id f W w)
    (hnext : ∀ w', Holding id f { W with sumTime := f .sumTime } w' →
      (latencyProtocol n).wp (.worker id) (q (f .sumTime)) Q w') :
    (latencyProtocol n).wp (.worker id) (perform (load (.thread id) .sumTime) >>= q) Q w := by
  refine wp_holding_perform hH fun {h s _ _} hH hinv hW hcount hexec => ?_
  cases hexec
  subst hcount
  exact hH.turn (V := { W with sumTime := (s.timers (.thread id)).count .sumTime }) hinv (hW ▸ rfl)
    (Function.update_eq_self _ _).symm hH.lock
    (fun hok => ⟨hok.start, hok.stop, hok.queueTime, hok.counts, hok.lawful, hok.parts⟩) fun hH => hnext _ hH

theorem wp_holding_store {field : TimerField} {v : UInt64} {q : Unit → TimerM α} (hfield : field ≠ .sumTime)
    (hqueue : field ≠ .queueTime) (hH : Holding id f W w)
    (hnext : ∀ w', Holding id (Function.update f field v) W w' → (latencyProtocol n).wp (.worker id) (q ()) Q w') :
    (latencyProtocol n).wp (.worker id) (perform (store (.thread id) field v) >>= q) Q w := by
  refine wp_holding_perform hH fun {h s _ _} hH hinv hW hcount hexec => ?_
  cases hexec
  have hnote : (latencyAudit h).record (.act (.worker id) (.store (.thread id) field v) () : LatencyEvent n) =
      (latencyAudit h).setWorker id W := by
    rw [← hW, setWorker_self]
    cases field with
    | sumTime => exact absurd rfl hfield
    | queueTime => exact absurd rfl hqueue
    | _ => rfl
  exact hH.turn hinv hnote rfl hH.lock (fun hok => ⟨hok.start, hok.stop,
    (Function.update_of_ne hqueue.symm _ _).trans hok.queueTime, fun hfree => absurd (hH.lock.symm.trans hfree) nofun,
    hok.lawful, hok.parts⟩) fun hH => hnext _ (hcount ▸ hH)

/-- The latency is added to the sum. -/
theorem wp_holding_storeSum {v : UInt64} {q : Unit → TimerM α} (hH : Holding id f W w) (hv : v - W.sumTime = W.latency)
    (hnext : ∀ w', Holding id (Function.update f .sumTime v) (W.addLatency W.latency) w' →
      (latencyProtocol n).wp (.worker id) (q ()) Q w') :
    (latencyProtocol n).wp (.worker id) (perform (store (.thread id) .sumTime v) >>= q) Q w := by
  refine wp_holding_perform hH fun {h s _ _} hH hinv hW hcount hexec => ?_
  cases hexec
  have hnote : (latencyAudit h).record (.act (.worker id) (.store (.thread id) .sumTime v) () : LatencyEvent n) =
      (latencyAudit h).setWorker id (W.addLatency W.latency) := by
    rw [← hv, ← hW]
    rfl
  have hqueue : Function.update (s.timers (.thread id)).count .sumTime v .queueTime = (s.timers (.thread id)).count .queueTime :=
    Function.update_of_ne (by decide) _ _
  refine hH.turn hinv hnote rfl hH.lock (fun hok => ⟨hok.start, hok.stop, ?_,
    fun hfree => absurd (hH.lock.symm.trans hfree) nofun, fun r hr => ?_, ?_⟩) fun hH => hnext _ (hcount ▸ hH)
  · exact hqueue.trans hok.queueTime
  · rcases List.mem_append.mp hr with hr | hr
    · exact hok.lawful r hr
    · rw [List.mem_singleton.mp hr]
      exact rfl
  · show (W.records ++ [_]).map _ = _ ++ (W.pending ++ [W.latency])
    rw [List.map_append, hok.parts, List.append_assoc]
    rfl

/-! ### What workers do -/

/-- The worker locks its timer, and stores the time of its start. -/
theorem sbEventStart_keeps : (latencyProtocol n).wp (.worker id) (sbEventStart id) (fun _ _ => True) w :=
  wp_worker_lock fun _ _ _ hH hsum => wp_holding_getTime hH fun _ _ hH => wp_holding_storeStart hH fun _ hH =>
    wp_worker_unlock (q := pure) hH hsum fun _ _ => trivial

theorem wp_lowerMinTime {x : UInt64} {q : Unit → TimerM α} (hH : Holding id f W w)
    (hnext : ∀ w', Holding id (Function.update f .minTime (if x < f .minTime then x else f .minTime)) W w' →
      (latencyProtocol n).wp (.worker id) (q ()) Q w') :
    (latencyProtocol n).wp (.worker id) (lowerMinTime (.thread id) x >>= q) Q w := by
  refine wp_holding_load nofun hH fun w hH _ => ?_
  show (latencyProtocol n).wp (.worker id) (onlyIf (x < f .minTime) (perform (store (.thread id) .minTime x)) >>= q) Q w
  unfold onlyIf
  split
  · rename_i hlt
    rw [if_pos hlt] at hnext
    exact wp_holding_store nofun nofun hH hnext
  · rename_i hge
    rw [if_neg hge, Function.update_eq_self] at hnext
    exact hnext w hH

theorem wp_raiseMaxTime {x : UInt64} {q : Unit → TimerM α} (hH : Holding id f W w)
    (hnext : ∀ w', Holding id (Function.update f .maxTime (if x > f .maxTime then x else f .maxTime)) W w' →
      (latencyProtocol n).wp (.worker id) (q ()) Q w') :
    (latencyProtocol n).wp (.worker id) (raiseMaxTime (.thread id) x >>= q) Q w := by
  refine wp_holding_load nofun hH fun w hH _ => ?_
  show (latencyProtocol n).wp (.worker id) (onlyIf (x > f .maxTime) (perform (store (.thread id) .maxTime x)) >>= q) Q w
  unfold onlyIf
  split
  · rename_i hgt
    rw [if_pos hgt] at hnext
    exact wp_holding_store nofun nofun hH hnext
  · rename_i hle
    rw [if_neg hle, Function.update_eq_self] at hnext
    exact hnext w hH

/-- The last latency of the worker. -/
def LastLatency (id : Fin n) (x : UInt64) (w : LatencyWorld n) : Prop :=
  ((latencyAudit w.1).worker id).records.getLast?.map (·.elapsed) = some x

/-- The worker records one latency, the one that it returns. -/
theorem wp_sbTimerStop : (latencyProtocol n).wp (.worker id) (sbTimerStop (.thread id)) (LastLatency id) w := by
  refine wp_worker_lock fun f W w hH hsum => wp_holding_getTime hH fun now w hH => wp_holding_storeEnd hH fun w hH =>
    wp_holding_loadEnd hH fun w hH => wp_holding_loadStart hH fun w hH => wp_holding_load nofun hH fun w hH hqueue => ?_
  refine wp_holding_load nofun hH fun w hH _ => wp_holding_store nofun nofun hH fun w hH => wp_holding_loadSum hH fun w hH =>
    wp_holding_storeSum hH ?_ fun w hH => wp_lowerMinTime hH fun w hH => wp_raiseMaxTime hH fun w hH =>
      wp_worker_unlock (q := fun _ => pure _) hH ?_ fun w hrecords => ?_
  · rw [hqueue rfl]
    exact add_sub_cancel_left _ _
  · show Summarizes _ (W.pending ++ [timespecDiff now W.start + if W.wiped then 0 else W.queueTime])
    rw [← hqueue rfl]
    refine hsum.snoc ?_ ?_ ?_ ?_ <;> simp [Function.update]
  · show Option.map _ (List.getLast? _) = _
    rw [hrecords, hqueue rfl]
    exact congrArg (Option.map _) List.getLast?_concat

theorem LastLatency.rely {x : UInt64} (h : LastLatency id x w) (hsame : SameWorker id w w') : LastLatency id x w' := by
  unfold LastLatency
  rwa [hsame.records]

/-- Operations that neither record nor change timers. -/
def TimerOp.Quiet : TimerOp → Prop
  | getTime | loadStart _ | load _ .queueTime | loadError | faaNevents _ | dequeue | loadQueueIsFull | addConcurrency _
  | incCounter | nextEvent | executeEvent => True
  | _ => False

theorem TimerOp.Quiet.guards {op : TimerOp} (hop : op.Quiet) {r : op.Res} (hinv : LatencyInv (h, s))
    (hstep : op.step (.worker id) s = some (r, s')) :
    (latencyProtocol n).Guards (.worker id) (h, s) (h ++ [.act (.worker id) op r], s') := by
  cases op with
  | load m field =>
    cases field with
    | queueTime =>
      cases hstep
      exact worker_guards_unnoted hinv rfl rfl
    | _ => exact hop.elim
  | getTime | loadStart | loadError | faaNevents | dequeue | loadQueueIsFull | addConcurrency | incCounter | nextEvent
  | executeEvent =>
    cases hstep
    exact worker_guards_unnoted hinv rfl rfl
  | _ => exact hop.elim

theorem wp_quiet {β : Type} {p : TimerM β} {q : β → TimerM α} (hp : p.Performs Quiet)
    (hnext : ∀ b w', (latencyProtocol n).wp (.worker id) (q b) Q w') :
    (latencyProtocol n).wp (.worker id) (p >>= q) Q w :=
  Protocol.wp_bind.mpr (Protocol.wp_mono (fun b w' _ => hnext b w') (Protocol.wp_of_performs (A := Quiet) (I := fun _ => True)
    (fun _ _ _ _ _ hop _ hinv hexec => ⟨hop.guards hinv hexec, trivial⟩) (fun _ _ => trivial) hp trivial))

theorem sbTimerValue_quiet (m : TimerName) : (sbTimerValue m).Performs Quiet :=
  ⟨trivial, fun _ => ⟨trivial, fun _ => ⟨trivial, fun _ => trivial⟩⟩⟩

/-- The queue time is stored, whether or not a report has locked the timer. -/
theorem wp_storeQueueTime {v : UInt64} {q : Unit → TimerM α} (hnext : ∀ w', (latencyProtocol n).wp (.worker id) (q ()) Q w') :
    (latencyProtocol n).wp (.worker id) (perform (store (.thread id) .queueTime v) >>= q) Q w := by
  refine Protocol.wp_perform fun h s r s' hsame hinv hexec => ⟨?_, hnext _⟩
  cases hexec
  have hok := hinv.timers id id.isLt
  have hself : Function.update (s.timers (.thread id)).count .queueTime v .queueTime = v := Function.update_self ..
  have hother : ∀ {f : TimerField}, f ≠ .queueTime →
      Function.update (s.timers (.thread id)).count .queueTime v f = (s.timers (.thread id)).count f := fun hf =>
    Function.update_of_ne hf _ _
  have hnote : (latencyAudit h).record (.act (.worker id) (.store (.thread id) .queueTime v) () : LatencyEvent n) =
    (latencyAudit h).setWorker id { (latencyAudit h).worker id with queueTime := v, wiped := false } := rfl
  refine worker_guards hinv hnote rfl rfl rfl (fun h => h) rfl
    ⟨hok.start, hok.stop, hself, fun hfree => ?_, hok.lawful, hok.parts⟩ fun hlock => ⟨hlock, fun f hf => hother hf, rfl⟩
  exact (hok.counts hfree).congr fun f hf => hother hf

theorem takeEvent_keeps : (latencyProtocol n).wp (.worker id) (takeEvent id) (fun _ _ => True) w := by
  refine wp_quiet (p := perform dequeue) ⟨trivial, fun _ => trivial⟩ fun ptr w => ?_
  refine wp_quiet (p := perform loadQueueIsFull) ⟨trivial, fun _ => trivial⟩ fun full w => ?_
  cases full with
  | true => trivial
  | false =>
    refine wp_quiet (p := perform (addConcurrency 1)) ⟨trivial, fun _ => trivial⟩ fun _ w => ?_
    exact wp_quiet (sbTimerValue_quiet _) fun value w => wp_storeQueueTime fun _ => trivial

theorem countEvent_keeps {g : SbGlobals} : (latencyProtocol n).wp (.worker id) (countEvent g id) (fun _ _ => True) w := by
  have htake : ∀ w, (latencyProtocol n).wp (.worker id) (if g.txRate > 0 then takeEvent id else return true) (fun _ _ => True) w := by
    intro w
    split
    · exact takeEvent_keeps
    · trivial
  show (latencyProtocol n).wp (.worker id) (if g.maxEvents > 0 then
      perform (faaNevents 1) >>= fun v => if v ≥ g.maxEvents then return false else
        if g.txRate > 0 then takeEvent id else return true
    else if g.txRate > 0 then takeEvent id else return true) _ w
  split
  · refine wp_quiet (p := perform (faaNevents 1)) ⟨trivial, fun _ => trivial⟩ fun v w => ?_
    split
    · trivial
    · exact htake w
  · exact htake w

theorem sbMoreEvents_keeps {g : SbGlobals} : (latencyProtocol n).wp (.worker id) (sbMoreEvents g id) (fun _ _ => True) w := by
  refine wp_quiet (p := perform loadError) ⟨trivial, fun _ => trivial⟩ fun error w => ?_
  cases error with
  | true => trivial
  | false =>
    show (latencyProtocol n).wp (.worker id) (if g.maxTimeNs > 0 then _ else _) _ w
    split
    · refine wp_quiet (sbTimerValue_quiet _) fun v w => ?_
      split
      · trivial
      · exact countEvent_keeps
    · exact countEvent_keeps

/-- The histogram is updated with the latency that was recorded. -/
theorem wp_updateHistogram {x : UInt64} (hx : LastLatency id x w) :
    (latencyProtocol n).wp (.worker id) (perform (updateHistogram x)) (fun _ _ => True) w := by
  refine fun h s r s' hsame hinv hexec => ⟨?_, trivial⟩
  cases hexec
  have hlast : ((latencyAudit h).worker id).records.getLast?.map (·.elapsed) = some x := hx.rely hsame
  have hnote : (latencyAudit h).record (.act (.worker id) (.updateHistogram x) () : LatencyEvent n) =
    { latencyAudit h with
      misused := (latencyAudit h).misused ∨ ((latencyAudit h).worker id).records.getLast?.map (·.elapsed) ≠ some x } := rfl
  exact worker_guards hinv hnote (Function.update_eq_self _ _).symm rfl rfl (fun hmis => hmis.resolve_right fun hne => hne hlast)
    (Function.update_eq_self _ _).symm (hinv.timers id id.isLt) fun hlock => ⟨hlock, fun _ _ => rfl, rfl⟩

theorem sbEventStop_keeps {g : SbGlobals} : (latencyProtocol n).wp (.worker id) (sbEventStop g id) (fun _ _ => True) w := by
  refine Protocol.wp_bind.mpr (Protocol.wp_mono (fun x w hx => ?_) wp_sbTimerStop)
  refine Protocol.wp_bind.mpr (Protocol.wp_mono (fun _ w _ => ?_)
    (Protocol.wp_onlyIf (Q := fun _ _ => True) (fun _ => wp_updateHistogram hx) fun _ => trivial))
  refine wp_quiet (p := perform incCounter) ⟨trivial, fun _ => trivial⟩ fun _ w => ?_
  exact wp_quiet (p := onlyIf (g.txRate > 0) (perform (addConcurrency (-1)))) (Performs.onlyIf fun _ => ⟨trivial, fun _ => trivial⟩)
    fun _ w => trivial

theorem threadRunRound_keeps {g : SbGlobals} {rc : Int32} :
    (latencyProtocol n).wp (.worker id) (threadRunRound g id rc) (fun _ _ => True) w := by
  refine Protocol.wp_bind.mpr (Protocol.wp_mono (fun more w _ => ?_) sbMoreEvents_keeps)
  cases more with
  | false => trivial
  | true =>
    show (latencyProtocol n).wp (.worker id) (if rc ≠ 0 then _ else _) _ w
    split
    · trivial
    · refine wp_quiet (p := perform nextEvent) ⟨trivial, fun _ => trivial⟩ fun event w => ?_
      cases event with
      | false => trivial
      | true =>
        refine Protocol.wp_bind.mpr (Protocol.wp_mono (fun _ w _ => ?_) sbEventStart_keeps)
        refine wp_quiet (p := perform executeEvent) ⟨trivial, fun _ => trivial⟩ fun rc w => ?_
        exact Protocol.wp_bind.mpr (Protocol.wp_mono (fun _ _ _ => trivial) sbEventStop_keeps)

/-- Whatever a worker is called to do, it keeps to the protocol. -/
theorem workerCall_keeps {g : SbGlobals} (c : WorkerCall) : (latencyProtocol n).wp (.worker id) (c.body g id) (fun _ _ => True) w := by
  cases c with
  | moreEvents => exact Protocol.wp_bind.mpr (Protocol.wp_mono (fun _ _ _ => trivial) sbMoreEvents_keeps)
  | eventStart => exact sbEventStart_keeps
  | eventStop => exact Protocol.wp_bind.mpr (Protocol.wp_mono (fun _ _ _ => trivial) sbEventStop_keeps)
  | run k =>
    refine Protocol.wp_bind.mpr (Protocol.wp_mono (fun _ _ _ => trivial) (Protocol.wp_rounds (I := fun _ _ => True)
      (Q := fun _ _ => True) (fun _ _ _ => Protocol.wp_never fun _ (r : Empty) => r.elim) (fun rc w _ => ?_) trivial))
    exact Protocol.wp_mono (fun r _ _ => by cases r <;> trivial) threadRunRound_keeps

end worker

end NuKSM.Sysbench
