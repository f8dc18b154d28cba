import NuKSM.Theorems.Sysbench.LatencyReports
import NuKSM.Theorems.Sysbench.Running

/-! # Latencies over whole runs

Every latency is taken by one report at most, and a report says what it has taken. A latency lacks the time in the queue where
a report has reset the timer between the two. -/

namespace NuKSM.Sysbench
open Thread TimerOp

variable {n : ℕ} {g : SbGlobals} {h : List (LatencyEvent n)} {s : Shared (TimerThread n)} {w : LatencyWorld n}

abbrev LatencyConfig (n : ℕ) :=
  Config (Shared (TimerThread n)) (TimerThread n) TimerOp TimerOp.Res TimerThread.Call (Option LatencyStat)

/-! ### The protocol is kept -/

/-- The end of a report leaves what has been reported of a worker. -/
theorem reported_of_ret (a : LatencyAudit) (order : { order : List ℕ // order.Perm (List.range n) }) (stat : LatencyStat) :
    (a.record (.ret .reporter order (some stat) : LatencyEvent n)).reported = a.reported := by
  funext id
  show ((a.reports ++ [⟨a.taken, stat⟩] : List LatencyReport).flatMap fun r => r.taken id) ++ [] = _
  rw [List.append_nil, List.flatMap_append, List.flatMap_singleton]
  rfl

theorem reporter_returns {order : { order : List ℕ // order.Perm (List.range n) }} {t : TimerField → UInt64}
    (ht : Summarizes t ((List.range n).flatMap (latencyAudit w.1).taken)) :
    (latencyProtocol n).Returns .reporter order (some (.of t)) w := by
  intro h s hsame hinv
  have htaken : (latencyAudit h).taken = (latencyAudit w.1).taken := hsame.taken
  have hsnoc := latencyAudit_snoc h (.ret .reporter order (some (.of t)) : LatencyEvent n)
  refine ⟨⟨⟨fun j hj => ?_, fun r hr => ?_, ?_⟩, fun u hu => ?_⟩, fun _ => ?_⟩
  · show TimerOk _ ((latencyAudit (h ++ [_])).reported j) ((latencyAudit (h ++ [_])).worker j)
    rw [hsnoc, reported_of_ret]
    exact hinv.timers j hj
  · have hr : r ∈ (latencyAudit (h ++ [_])).reports := hr
    rw [hsnoc] at hr
    rcases List.mem_append.mp hr with hr | hr
    · exact hinv.reports r hr
    · rw [List.mem_singleton.mp hr, htaken]
      exact ⟨t, ht, rfl⟩
  · rw [hsnoc]
    exact hinv.used
  · cases u with
    | worker id => exact ⟨by rw [hsnoc]; rfl, fun _ => ⟨rfl, by rw [hsnoc]; rfl⟩⟩
    | reporter => exact absurd rfl hu
  · rw [hsnoc]
    rfl

theorem latency_kept (g : SbGlobals) : (latencyProtocol n).Kept (timerBody g) := by
  intro t c h s hinv hidle
  cases t with
  | worker id =>
    refine ⟨worker_guards_unnoted hinv rfl rfl, Protocol.wp_bind.mpr (Protocol.wp_mono (fun _ w _ => ?_) (workerCall_keeps c))⟩
    exact fun h s _ hinv => ⟨worker_guards_unnoted hinv rfl rfl, nofun⟩
  | reporter =>
    have hsnoc : latencyAudit (h ++ [.call .reporter c]) = latencyAudit h := latencyAudit_snoc h _
    have hcopied : Copied (latencyAudit h).reports 0 (h ++ [.call .reporter c], s) := by
      refine ⟨?_, fun j hj => absurd hj (Nat.not_lt_zero j), fun j _ => ?_⟩
      · rw [hsnoc]
      · rw [hsnoc, hidle rfl]
    refine ⟨reporter_guards_unnoted hinv rfl fun _ => rfl, Protocol.wp_bind.mpr (Protocol.wp_mono (fun stat w hstat => ?_)
      (wp_reportCumulative c.2 hcopied))⟩
    obtain ⟨t, rfl, ht, -⟩ := hstat
    exact reporter_returns ht

variable {memory : Shared (TimerThread n)}

/-- The invariant holds once the timers have been initialized. -/
theorem latencyInv_init {t : TimerThread n} (hinit : (initTimers n).solo (step t) memory = some ((), s)) :
    LatencyInv (([], s) : LatencyWorld n) := by
  obtain ⟨_, s', hsolo, hs'⟩ := initTimers_ends (t := t) (s := memory) n
  cases hinit.symm.trans hsolo
  refine ⟨fun id hid => ?_, nofun, id⟩
  rw [hs' id hid]
  exact ⟨rfl, rfl, rfl, fun _ => Summarizes.init, nofun, rfl⟩

theorem latencyInv_run {t : TimerThread n} (hinit : (initTimers n).solo (step t) memory = some ((), s)) {c : LatencyConfig n}
    (hrun : Interleaving (Outcome step) (timerBody g) s h c) : LatencyInv (h, c.shared) :=
  ((latency_kept g).interleaving (P := latencyProtocol n) (latencyInv_init hinit) (fun _ _ => rfl) hrun).1

/-! ### Reports -/

/-- The latencies of each worker are what the reports have taken one after the other, what the report in progress has taken,
and what is left, and each report says what the latencies add up to that it has taken. -/
structure ReportsRight (n : ℕ) (a : LatencyAudit) : Prop where
  once : ∀ id < n, (a.worker id).records.map (·.elapsed) =
    (a.reports.flatMap fun r => r.taken id) ++ a.taken id ++ (a.worker id).pending
  stat : ∀ r ∈ a.reports, ((List.range n).flatMap r.taken).length < 2 ^ 64 →
    (((List.range n).flatMap r.taken).map UInt64.toNat).sum < 2 ^ 64 → r.stat.Of ((List.range n).flatMap r.taken)

/-- Rate mode with one worker, without limits. -/
def oneWorker : SbGlobals := ⟨1, 1, 0, 0, 0⟩

/-- The clock goes on by a second with each reading, and there is always an event. -/
def ticking : Shared (TimerThread 1) :=
  { (Shared.zeroed : Shared (TimerThread 1)) with clock := fun k => ⟨Int64.ofNat (k + 1), 0⟩, hasEvent := fun _ => true }

/-- What `init` makes of it. -/
def ticking₀ : Shared (TimerThread 1) := ticking.setTimer (.thread 0) ⟨⟨0, 0⟩, ⟨0, 0⟩, initCounts, none⟩

theorem initTimers_ticking : (initTimers 1).solo (step TimerThread.reporter) ticking = some ((), ticking₀) := by
  obtain ⟨_, s', hsolo, hs'⟩ := sbTimerInit_ends (t := (TimerThread.reporter : TimerThread 1)) (s := ticking) (n := .thread 0)
  show (sbTimerInit (.thread 0) >>= fun _ => pure ()).solo (step TimerThread.reporter) ticking = _
  rw [solo_bind, hsolo, hs']
  rfl

/-- The turns of one event and of a report on it. -/
def reportTurns : List (Turn (TimerThread 1) TimerThread.Call) :=
  .call (.worker ⟨0, Nat.one_pos⟩) .eventStart :: List.replicate 5 (.next (.worker ⟨0, Nat.one_pos⟩)) ++
    .call (.worker ⟨0, Nat.one_pos⟩) .eventStop :: List.replicate 18 (.next (.worker ⟨0, Nat.one_pos⟩)) ++
    .call .reporter ⟨[0], .rfl⟩ :: List.replicate 27 (.next .reporter)

/-- Each latency is the time from start to stop and that in the queue, the timers count the latencies that no report has taken,
and the histogram gets no others. -/
structure LatencyRight (n : ℕ) (w : LatencyWorld n) : Prop where
  elapsed : ∀ id < n, ∀ r ∈ ((latencyAudit w.1).worker id).records, r.elapsed = timespecDiff r.stop r.start + r.queueTime
  counts : ∀ id < n, (w.2.timers (.thread id)).lock = none →
    Summarizes (w.2.timers (.thread id)).count ((latencyAudit w.1).worker id).pending
  histogram : ¬(latencyAudit w.1).misused

/-- A report resets a timer between the queue time and the stop of an event only where the event has not been in the queue. -/
def NoneWiped (n : ℕ) (a : LatencyAudit) : Prop :=
  ∀ id < n, ∀ r ∈ (a.worker id).records, r.wiped = true → r.queueTime = 0

theorem LatencyRecord.Lawful.elapsed_iff {r : LatencyRecord} (hr : r.Lawful) :
    r.elapsed = timespecDiff r.stop r.start + r.queueTime ↔ (r.wiped = true → r.queueTime = 0) := by
  rw [hr, UInt64.add_right_inj]
  cases r.wiped with
  | false => exact ⟨fun _ => nofun, fun _ => rfl⟩
  | true => exact ⟨fun heq _ => heq.symm, fun heq => (heq rfl).symm⟩

/-- The latencies of a run are right if and only if no report wipes a queue time. -/
theorem latencyRight_iff {t : TimerThread n} (hinit : (initTimers n).solo (step t) memory = some ((), s)) {c : LatencyConfig n}
    (hrun : Interleaving (Outcome step) (timerBody g) s h c) :
    LatencyRight n (h, c.shared) ↔ NoneWiped n (latencyAudit h) := by
  have hinv := latencyInv_run hinit hrun
  have hiff : ∀ id < n, ∀ r ∈ ((latencyAudit h).worker id).records,
      (r.elapsed = timespecDiff r.stop r.start + r.queueTime ↔ (r.wiped = true → r.queueTime = 0)) := fun id hid r hr =>
    ((hinv.timers id hid).lawful r hr).elapsed_iff
  refine ⟨fun hright id hid r hr => (hiff id hid r hr).mp (hright.elapsed id hid r hr), fun hnone => ?_⟩
  exact ⟨fun id hid r hr => (hiff id hid r hr).mpr (hnone id hid r hr), fun id hid => (hinv.timers id hid).counts, hinv.used⟩

/-- An event that has been in the queue for a second, and no report. -/
theorem latencyRight_one : ∃ h c, Interleaving (Outcome step) (timerBody oneWorker) ticking₀ h c ∧
    ((latencyAudit h).worker 0).records = [⟨⟨2, 0⟩, ⟨3, 0⟩, 1000000000, false, 2000000000⟩] ∧ LatencyRight 1 (h, c.shared) := by
  obtain ⟨w, hplay, hrecords⟩ : ∃ w, play step (timerBody oneWorker)
      (.call (.worker 0) (.run 2) :: List.replicate 29 (.next (.worker 0))) ([], ⟨ticking₀, fun _ => none⟩) = some w ∧
      ((latencyAudit w.1).worker 0).records = [⟨⟨2, 0⟩, ⟨3, 0⟩, 1000000000, false, 2000000000⟩] := ⟨_, rfl, rfl⟩
  have hrun := play_interleaving .nil hplay
  refine ⟨_, _, hrun, hrecords, (latencyRight_iff initTimers_ticking hrun).mpr fun id hid r hr => ?_⟩
  rw [Nat.lt_one_iff.mp hid, hrecords] at hr
  rw [List.mem_singleton.mp hr]
  exact nofun

/-- A whole report, after the queue time of an event is stored and before the event starts. -/
def wipingTurns : List (Turn (TimerThread 1) TimerThread.Call) :=
  .call (.worker ⟨0, Nat.one_pos⟩) (.run 2) :: List.replicate 8 (.next (.worker ⟨0, Nat.one_pos⟩)) ++
    .call .reporter ⟨[0], .rfl⟩ :: List.replicate 27 (.next .reporter) ++ List.replicate 21 (.next (.worker ⟨0, Nat.one_pos⟩))

/-- The second that the event has been in the queue is lost. -/
theorem not_latencyRight : ∃ h c, Interleaving (Outcome step) (timerBody oneWorker) ticking₀ h c ∧
    ((latencyAudit h).worker 0).records = [⟨⟨2, 0⟩, ⟨3, 0⟩, 1000000000, true, 1000000000⟩] ∧ ¬LatencyRight 1 (h, c.shared) := by
  obtain ⟨w, hplay, hrecords⟩ : ∃ w, play step (timerBody oneWorker) wipingTurns ([], ⟨ticking₀, fun _ => none⟩) = some w ∧
      ((latencyAudit w.1).worker 0).records = [⟨⟨2, 0⟩, ⟨3, 0⟩, 1000000000, true, 1000000000⟩] := ⟨_, rfl, rfl⟩
  refine ⟨_, _, play_interleaving .nil hplay, hrecords, fun hright => ?_⟩
  have helapsed := hright.elapsed 0 Nat.one_pos
  rw [hrecords] at helapsed
  exact absurd (helapsed _ (List.mem_singleton_self _)) (by decide)

end NuKSM.Sysbench
