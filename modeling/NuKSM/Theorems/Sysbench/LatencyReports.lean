import NuKSM.Theorems.Sysbench.LatencyProtocol

/-! # Latencies in cumulative reports

A report takes from each timer what was recorded since the report before, under the timer's lock, and merges that. -/

namespace NuKSM.Sysbench
open Thread TimerOp

variable {n : ℕ}

/-! ### Turns of the reports -/

section reporter
variable {h : List (LatencyEvent n)} {s s' : Shared (TimerThread n)} {w w' : LatencyWorld n} {e : LatencyEvent n}
  {f g : TimerField → UInt64} {V : WorkerAudit} {T : Timer (TimerThread n)} {k : ℕ} {l : List UInt64}
  {R : List LatencyReport} {α : Type} {p : TimerM α} {Q : α → LatencyWorld n → Prop}

theorem thread_ne_copy (j k : ℕ) : TimerName.thread j ≠ .copy k := nofun

/-- A turn of a report that leaves the timers of the workers and what they have done. -/
theorem reporter_guards_unnoted (hinv : LatencyInv (h, s)) (hnote : (latencyAudit h).record e = latencyAudit h)
    (htimers : ∀ j, s'.timers (.thread j) = s.timers (.thread j)) :
    (latencyProtocol n).Guards .reporter (h, s) (h ++ [e], s') := by
  have hsnoc : latencyAudit (h ++ [e]) = latencyAudit h := (latencyAudit_snoc h e).trans hnote
  refine ⟨⟨fun j hj => ?_, hsnoc ▸ hinv.reports, hsnoc ▸ hinv.used⟩, fun u hu => ?_⟩
  · show TimerOk (s'.timers _) ((latencyAudit (h ++ [e])).reported j) ((latencyAudit (h ++ [e])).worker j)
    rw [hsnoc, htimers]
    exact hinv.timers j hj
  · cases u with
    | worker id => exact ⟨by rw [hsnoc], fun _ => ⟨htimers id, by rw [hsnoc]⟩⟩
    | reporter => exact absurd rfl hu

/-- A turn of a report on the timer of a worker that has not locked it. -/
theorem reporter_guards {a' : LatencyAudit} (hinv : LatencyInv (h, s)) (ha : (latencyAudit h).record e = a')
    (hworker : a'.worker = Function.update (latencyAudit h).worker k V) (hreports : a'.reports = (latencyAudit h).reports)
    (htaken : ∀ j, j ≠ k → a'.taken j = (latencyAudit h).taken j) (hused : a'.misused → (latencyAudit h).misused)
    (htimers : s'.timers = Function.update s.timers (.thread k) T)
    (hok : TimerOk (s.timers (.thread k)) ((latencyAudit h).reported k) ((latencyAudit h).worker k) →
      TimerOk T (a'.reported k) V)
    (hrecords : V.records = ((latencyAudit h).worker k).records)
    (hlock : ∀ id, (s.timers (.thread k)).lock ≠ some (.worker id)) :
    (latencyProtocol n).Guards .reporter (h, s) (h ++ [e], s') := by
  have hsnoc : latencyAudit (h ++ [e]) = a' := (latencyAudit_snoc h e).trans ha
  have hself : a'.worker k = V := by rw [hworker, Function.update_self]
  have hother : ∀ j, j ≠ k → a'.worker j = (latencyAudit h).worker j := fun j hj => by rw [hworker, Function.update_of_ne hj]
  have hthread : s'.timers (.thread k) = T := by rw [htimers, Function.update_self]
  have hname : ∀ j, j ≠ k → s'.timers (.thread j) = s.timers (.thread j) := fun j hj => by
    rw [htimers, Function.update_of_ne fun heq => hj (TimerName.thread.inj heq)]
  refine ⟨hinv.turn hsnoc hother hreports htaken hused hname ?_, fun u hu => ?_⟩
  · rw [hself, hthread]
    exact hok
  · cases u with
    | worker id =>
      refine ⟨?_, fun hheld => ?_⟩
      · rw [hsnoc]
        rcases eq_or_ne (id : ℕ) k with rfl | hne
        · rw [hself, hrecords]
        · rw [hother _ hne]
      · rcases eq_or_ne (id : ℕ) k with rfl | hne
        · exact absurd hheld (hlock id)
        · exact ⟨hname _ hne, by rw [hsnoc, hother _ hne]⟩
    | reporter => exact absurd rfl hu

/-- The report has copied the timers below `k`. -/
structure Copied (R : List LatencyReport) (k : ℕ) (w : LatencyWorld n) : Prop where
  reports : (latencyAudit w.1).reports = R
  copied : ∀ j < k, Summarizes (w.2.timers (.copy j)).count ((latencyAudit w.1).taken j)
  ahead : ∀ j, k ≤ j → (latencyAudit w.1).taken j = []

/-- The report has locked timer `k` and has taken `l` of it. -/
structure Checking (R : List LatencyReport) (k : ℕ) (l : List UInt64) (f g : TimerField → UInt64)
    (w : LatencyWorld n) : Prop where
  reports : (latencyAudit w.1).reports = R
  copied : ∀ j < k, Summarizes (w.2.timers (.copy j)).count ((latencyAudit w.1).taken j)
  ahead : ∀ j, k < j → (latencyAudit w.1).taken j = []
  taken : (latencyAudit w.1).taken k = l
  pending : ((latencyAudit w.1).worker k).pending = []
  lock : (w.2.timers (.thread k)).lock = some .reporter
  count : ∀ field, field ≠ .queueTime → (w.2.timers (.thread k)).count field = f field
  copy : ∀ field, field ≠ .queueTime → (w.2.timers (.copy k)).count field = g field

theorem Copied.rely (hC : Copied R k w) (hsame : SameReporter w w') : Copied R k w' := by
  refine ⟨hsame.reports.trans hC.reports, fun j hj => ?_, fun j hj => (congrFun hsame.taken j).trans (hC.ahead j hj)⟩
  rw [hsame.copy, hsame.taken]
  exact hC.copied j hj

theorem Checking.rely (hC : Checking R k l f g w) (hsame : SameReporter w w') : Checking R k l f g w' := by
  obtain ⟨hlock, hcount, hpending⟩ := hsame.held k hC.lock
  refine ⟨hsame.reports.trans hC.reports, fun j hj => ?_, fun j hj => (congrFun hsame.taken j).trans (hC.ahead j hj),
    (congrFun hsame.taken k).trans hC.taken, hpending.trans hC.pending, hlock, fun field hf => (hcount field hf).trans (hC.count field hf),
    fun field hf => ?_⟩
  · rw [hsame.copy, hsame.taken]
    exact hC.copied j hj
  · rw [hsame.copy]
    exact hC.copy field hf

/-- A turn of the report on the copy of timer `k`. -/
theorem Checking.turn_copy (hC : Checking R k l f g (h, s)) (hinv : LatencyInv (h, s))
    (hnote : (latencyAudit h).record e = latencyAudit h) (htimers : s'.timers = Function.update s.timers (.copy k) T)
    {g' : TimerField → UInt64} (hcopy : (∀ field, field ≠ .queueTime → (s.timers (.copy k)).count field = g field) →
      ∀ field, field ≠ .queueTime → T.count field = g' field)
    (hnext : Checking R k l f g' (h ++ [e], s') → (latencyProtocol n).wp .reporter p Q (h ++ [e], s')) :
    (latencyProtocol n).Guards .reporter (h, s) (h ++ [e], s') ∧ (latencyProtocol n).wp .reporter p Q (h ++ [e], s') := by
  have hsnoc : latencyAudit (h ++ [e]) = latencyAudit h := (latencyAudit_snoc h e).trans hnote
  have hthread : ∀ j, s'.timers (.thread j) = s.timers (.thread j) := fun j => by
    rw [htimers, Function.update_of_ne (thread_ne_copy j k)]
  refine ⟨reporter_guards_unnoted hinv hnote hthread, hnext ⟨hsnoc ▸ hC.reports, fun j hj => ?_, hsnoc ▸ hC.ahead,
    hsnoc ▸ hC.taken, hsnoc ▸ hC.pending, ?_, ?_, ?_⟩⟩
  · rw [hsnoc]
    show Summarizes (s'.timers _).count _
    rw [htimers, Function.update_of_ne fun heq => hj.ne (TimerName.copy.inj heq)]
    exact hC.copied j hj
  · show (s'.timers _).lock = _
    rw [hthread]
    exact hC.lock
  · show ∀ field, _ → (s'.timers _).count field = _
    rw [hthread]
    exact hC.count
  · show ∀ field, _ → (s'.timers _).count field = _
    rw [htimers, Function.update_self]
    exact hcopy hC.copy

/-- A turn of the report on timer `k` itself. -/
theorem Checking.turn_thread (hC : Checking R k l f g (h, s)) (hinv : LatencyInv (h, s))
    (hnote : (latencyAudit h).record e = (latencyAudit h).setWorker k V)
    (htimers : s'.timers = Function.update s.timers (.thread k) T)
    (hok : TimerOk (s.timers (.thread k)) ((latencyAudit h).reported k) ((latencyAudit h).worker k) →
      TimerOk T ((latencyAudit h).reported k) V)
    (hrecords : V.records = ((latencyAudit h).worker k).records)
    (hpending : V.pending = ((latencyAudit h).worker k).pending) (hlock : T.lock = some .reporter)
    {f' : TimerField → UInt64} (hcount : (∀ field, field ≠ .queueTime → (s.timers (.thread k)).count field = f field) →
      ∀ field, field ≠ .queueTime → T.count field = f' field)
    (hnext : Checking R k l f' g (h ++ [e], s') → (latencyProtocol n).wp .reporter p Q (h ++ [e], s')) :
    (latencyProtocol n).Guards .reporter (h, s) (h ++ [e], s') ∧ (latencyProtocol n).wp .reporter p Q (h ++ [e], s') := by
  have hsnoc : latencyAudit (h ++ [e]) = (latencyAudit h).setWorker k V := (latencyAudit_snoc h e).trans hnote
  have hself : ((latencyAudit h).setWorker k V).worker k = V := Function.update_self ..
  have hheld : (s.timers (.thread k)).lock = some .reporter := hC.lock
  refine ⟨reporter_guards hinv hnote rfl rfl (fun _ _ => rfl) (fun h => h) htimers hok hrecords fun id heq => ?_,
    hnext ⟨hsnoc ▸ hC.reports, fun j hj => ?_, hsnoc ▸ hC.ahead, hsnoc ▸ hC.taken, ?_, ?_, ?_, ?_⟩⟩
  · rw [hheld] at heq
    cases heq
  · rw [hsnoc]
    show Summarizes (s'.timers _).count _
    rw [htimers, Function.update_of_ne (thread_ne_copy k j).symm]
    exact hC.copied j hj
  · rw [hsnoc, hself, hpending]
    exact hC.pending
  · show (s'.timers _).lock = _
    rw [htimers, Function.update_self]
    exact hlock
  · show ∀ field, _ → (s'.timers _).count field = _
    rw [htimers, Function.update_self]
    exact hcount hC.count
  · show ∀ field, _ → (s'.timers _).count field = _
    rw [htimers, Function.update_of_ne (thread_ne_copy k k).symm]
    exact hC.copy

/-! ### Checkpoints -/

theorem wp_checkpoint_lock {q : Unit → TimerM α} (hC : Copied R k w)
    (hk : k < n) (hnext : ∀ l f w', Summarizes f l → Checking R k l f (w'.2.timers (.copy k)).count w' →
      (latencyProtocol n).wp .reporter (q ()) Q w') :
    (latencyProtocol n).wp .reporter (perform (lock (.thread k)) >>= q) Q w := by
  refine Protocol.wp_perform fun h s r s' hsame hinv hexec => ?_
  have hC := hC.rely hsame
  have hexec : (if (s.timers (.thread k)).lock = none then
    some ((), s.setTimer (.thread k) { s.timers (.thread k) with lock := some .reporter }) else none) = some (r, s') := hexec
  split at hexec
  · rename_i hfree
    cases hexec
    set a' : LatencyAudit := { (latencyAudit h).setWorker k { (latencyAudit h).worker k with pending := [] } with
      taken := Function.update (latencyAudit h).taken k ((latencyAudit h).worker k).pending }
    have ha : (latencyAudit h).record (.act .reporter (.lock (.thread k)) () : LatencyEvent n) = a' := rfl
    have hsnoc : latencyAudit (h ++ [.act .reporter (.lock (.thread k)) ()]) = a' := (latencyAudit_snoc h _).trans ha
    have hother : ∀ j, j ≠ k → a'.taken j = (latencyAudit h).taken j := fun j hj => Function.update_of_ne hj _ _
    have htaken : a'.taken k = ((latencyAudit h).worker k).pending := Function.update_self ..
    have hworker : a'.worker k = { (latencyAudit h).worker k with pending := [] } := Function.update_self ..
    have hempty : (latencyAudit h).taken k = [] := hC.ahead k le_rfl
    have hok := hinv.timers k hk
    refine ⟨reporter_guards hinv ha rfl rfl hother (fun h => h) rfl (fun hok => ⟨hok.start, hok.stop, hok.queueTime, nofun,
      hok.lawful, ?_⟩) rfl fun id heq => ?_, hnext ((latencyAudit h).worker k).pending (s.timers (.thread k)).count _
      (hok.counts hfree) ⟨?_, fun j hj => ?_, fun j hj => ?_, ?_, ?_, ?_, fun field _ => ?_, fun _ _ => rfl⟩⟩
    · rw [hok.parts, LatencyAudit.reported, LatencyAudit.reported, htaken, hempty, List.append_nil, List.append_nil]
      rfl
    · rw [hfree] at heq
      cases heq
    · rw [hsnoc]
      exact hC.reports
    · rw [hsnoc, hother j hj.ne]
      show Summarizes (Function.update s.timers _ _ (.copy j)).count _
      rw [Function.update_of_ne (thread_ne_copy k j).symm]
      exact hC.copied j hj
    · rw [hsnoc, hother j hj.ne']
      exact hC.ahead j hj.le
    · rw [hsnoc, htaken]
    · rw [hsnoc, hworker]
    · show (Function.update s.timers _ _ (.thread k)).lock = _
      rw [Function.update_self]
    · show (Function.update s.timers _ _ (.thread k)).count field = _
      rw [Function.update_self]
  · cases hexec

/-- Reading a field of timer `k`. -/
theorem wp_checkpoint_load {field : TimerField} {q : UInt64 → TimerM α} (hC : Checking R k l f g w)
    (hnext : ∀ v w', (field ≠ .queueTime → v = f field) → Checking R k l f g w' →
      (latencyProtocol n).wp .reporter (q v) Q w') :
    (latencyProtocol n).wp .reporter (perform (load (.thread k) field) >>= q) Q w := by
  refine Protocol.wp_perform fun h s r s' hsame hinv hexec => ?_
  cases hexec
  have hC := hC.rely hsame
  exact hC.turn_copy hinv rfl (Function.update_eq_self _ _).symm (fun hcopy => hcopy) fun hC' => hnext _ _ (hC.count field) hC'

/-- Reading a time of timer `k`. -/
theorem wp_checkpoint_loadTime {op : TimerOp} {q : op.Res → TimerM α}
    (hop : op = .loadStart (.thread k) ∨ op = .loadEnd (.thread k)) (hC : Checking R k l f g w)
    (hnext : ∀ r w', Checking R k l f g w' → (latencyProtocol n).wp .reporter (q r) Q w') :
    (latencyProtocol n).wp .reporter (perform op >>= q) Q w := by
  refine Protocol.wp_perform fun h s r s' hsame hinv hexec => ?_
  have hC := hC.rely hsame
  obtain rfl | rfl := hop
  all_goals
    cases hexec
    exact hC.turn_copy hinv rfl (Function.update_eq_self _ _).symm (fun hcopy => hcopy) fun hC => hnext _ _ hC

/-- Writing the copy, except its counters. -/
theorem wp_checkpoint_copyTimes {op : TimerOp} {q : op.Res → TimerM α}
    (hop : (∃ v, op = .storeStart (.copy k) v) ∨ (∃ v, op = .storeEnd (.copy k) v) ∨ op = .initLock (.copy k))
    (hC : Checking R k l f g w)
    (hnext : ∀ r w', Checking R k l f g w' → (latencyProtocol n).wp .reporter (q r) Q w') :
    (latencyProtocol n).wp .reporter (perform op >>= q) Q w := by
  refine Protocol.wp_perform fun h s r s' hsame hinv hexec => ?_
  have hC := hC.rely hsame
  obtain ⟨v, rfl⟩ | ⟨v, rfl⟩ | rfl := hop
  all_goals
    cases hexec
    exact hC.turn_copy hinv rfl rfl (fun hcopy => hcopy) fun hC => hnext _ _ hC

theorem update_congr {f g : TimerField → UInt64} {field : TimerField} {v : UInt64}
    (h : ∀ field, field ≠ .queueTime → f field = g field) :
    ∀ field', field' ≠ .queueTime → Function.update f field v field' = Function.update g field v field' := by
  intro field' hf
  rcases eq_or_ne field' field with rfl | hne
  · rw [Function.update_self, Function.update_self]
  · rw [Function.update_of_ne hne, Function.update_of_ne hne]
    exact h field' hf

theorem wp_checkpoint_storeCopy {field : TimerField} {v : UInt64} {q : Unit → TimerM α} (hC : Checking R k l f g w)
    (hnext : ∀ w', Checking R k l f (Function.update g field v) w' → (latencyProtocol n).wp .reporter (q ()) Q w') :
    (latencyProtocol n).wp .reporter (perform (store (.copy k) field v) >>= q) Q w := by
  refine Protocol.wp_perform fun h s r s' hsame hinv hexec => ?_
  cases hexec
  have hnote : (latencyAudit h).record (.act .reporter (.store (.copy k) field v) () : LatencyEvent n) = latencyAudit h := by
    cases field <;> rfl
  exact (hC.rely hsame).turn_copy hinv hnote rfl (fun hcopy => update_congr hcopy) fun hC => hnext _ hC

theorem wp_copyField {field : TimerField} {q : Unit → TimerM α} (hC : Checking R k l f g w)
    (hnext : ∀ v w', (field ≠ .queueTime → v = f field) → Checking R k l f (Function.update g field v) w' →
      (latencyProtocol n).wp .reporter (q ()) Q w') :
    (latencyProtocol n).wp .reporter (copyField (.thread k) (.copy k) field >>= q) Q w :=
  wp_checkpoint_load hC fun v _ hv hC => wp_checkpoint_storeCopy hC fun w hC => hnext v w hv hC

/-- Resetting a field of timer `k`. -/
theorem wp_checkpoint_reset {field : TimerField} {v : UInt64} {q : Unit → TimerM α} (hC : Checking R k l f g w)
    (hqueue : field = .queueTime → v = 0)
    (hnext : ∀ w', Checking R k l (Function.update f field v) g w' → (latencyProtocol n).wp .reporter (q ()) Q w') :
    (latencyProtocol n).wp .reporter (perform (store (.thread k) field v) >>= q) Q w := by
  refine Protocol.wp_perform fun h s r s' hsame hinv hexec => ?_
  cases hexec
  have hC := hC.rely hsame
  have hheld : (s.timers (.thread k)).lock = some .reporter := hC.lock
  have hfree : ∀ {P : Prop}, (s.timers (.thread k)).lock = none → P := fun hnone => absurd (hheld.symm.trans hnone) nofun
  rcases eq_or_ne field .queueTime with rfl | hfield
  · obtain rfl := hqueue rfl
    have hself : Function.update (s.timers (.thread k)).count .queueTime 0 .queueTime = 0 := Function.update_self ..
    exact hC.turn_thread (V := { (latencyAudit h).worker k with wiped := true }) hinv rfl rfl
      (fun hok => ⟨hok.start, hok.stop, hself, hfree, hok.lawful, hok.parts⟩) rfl rfl hheld
      (fun hcount => update_congr hcount) fun hC => hnext _ hC
  · have hnote : (latencyAudit h).record (.act .reporter (.store (.thread k) field v) () : LatencyEvent n) =
        (latencyAudit h).setWorker k ((latencyAudit h).worker k) := by
      rw [setWorker_self]
      cases field with
      | queueTime => exact absurd rfl hfield
      | _ => rfl
    have hother : Function.update (s.timers (.thread k)).count field v .queueTime = (s.timers (.thread k)).count .queueTime :=
      Function.update_of_ne hfield.symm _ _
    exact hC.turn_thread hinv hnote rfl (fun hok => ⟨hok.start, hok.stop, hother.trans hok.queueTime, hfree, hok.lawful,
      hok.parts⟩) rfl rfl hheld (fun hcount => update_congr hcount) fun hC => hnext _ hC

theorem wp_checkpoint_unlock (hC : Checking R k l f g w) (hf : Summarizes f []) (hg : Summarizes g l) :
    (latencyProtocol n).wp .reporter (perform (unlock (.thread k))) (fun _ => Copied R (k + 1)) w := by
  intro h s r s' hsame hinv hexec
  cases hexec
  have hC := hC.rely hsame
  have hheld : (s.timers (.thread k)).lock = some .reporter := hC.lock
  have hnote : (latencyAudit h).record (.act .reporter (.unlock (.thread k)) () : LatencyEvent n) = latencyAudit h := rfl
  have hsnoc : latencyAudit (h ++ [.act .reporter (.unlock (.thread k)) ()]) = latencyAudit h :=
    (latencyAudit_snoc h _).trans hnote
  refine ⟨reporter_guards hinv hnote (Function.update_eq_self _ _).symm rfl (fun _ _ => rfl) (fun h => h) rfl
    (fun hok => ⟨hok.start, hok.stop, hok.queueTime, fun _ => ?_, hok.lawful, hok.parts⟩) rfl fun id heq => ?_,
    hsnoc ▸ hC.reports, fun j hj => ?_, fun j hj => ?_⟩
  · have hpending : ((latencyAudit h).worker k).pending = [] := hC.pending
    rw [hpending]
    exact hf.congr hC.count
  · rw [hheld] at heq
    cases heq
  · rw [hsnoc]
    show Summarizes (Function.update s.timers _ _ (.copy j)).count _
    rw [Function.update_of_ne (thread_ne_copy k j).symm]
    rcases Nat.lt_succ_iff_lt_or_eq.mp hj with hj | rfl
    · exact hC.copied j hj
    · have htaken : (latencyAudit h).taken j = l := hC.taken
      rw [htaken]
      exact hg.congr hC.copy
  · rw [hsnoc]
    exact hC.ahead j hj

theorem wp_copyTimer (hC : Checking R k l f g w) :
    (latencyProtocol n).wp .reporter (copyTimer (.thread k) (.copy k))
      (fun _ w => ∃ g, (∀ field, field ≠ .queueTime → g field = f field) ∧ Checking R k l f g w) w := by
  refine wp_checkpoint_loadTime (Or.inl rfl) hC fun _ w hC => ?_
  refine wp_checkpoint_copyTimes (Or.inl ⟨_, rfl⟩) hC fun _ w hC => ?_
  refine wp_checkpoint_loadTime (Or.inr rfl) hC fun _ w hC => ?_
  refine wp_checkpoint_copyTimes (Or.inr (Or.inl ⟨_, rfl⟩)) hC fun _ w hC => ?_
  refine wp_copyField hC fun events w hevents hC => ?_
  refine wp_copyField hC fun queueTime w _ hC => ?_
  refine wp_copyField hC fun minTime w hmin hC => ?_
  refine wp_copyField hC fun maxTime w hmax hC => ?_
  refine wp_copyField (q := pure) hC fun sumTime w hsum hC => ⟨_, fun field hfield => ?_, hC⟩
  cases field <;> simp_all [Function.update]

theorem wp_sbTimerReset (hC : Checking R k l f g w) :
    (latencyProtocol n).wp .reporter (sbTimerReset (.thread k)) (fun _ w => ∃ f, Summarizes f [] ∧ Checking R k l f g w) w := by
  refine wp_checkpoint_reset hC nofun fun w hC => ?_
  refine wp_checkpoint_reset hC nofun fun w hC => ?_
  refine wp_checkpoint_reset hC nofun fun w hC => ?_
  refine wp_checkpoint_reset hC nofun fun w hC => ?_
  refine wp_checkpoint_reset (q := pure) hC (fun _ => rfl) fun w hC => ⟨_, Summarizes.init.congr fun field hfield => ?_, hC⟩
  cases field <;> simp_all [Function.update, initCounts]

/-- The timer is copied and reset. -/
theorem wp_sbTimerCheckpoint (hC : Copied R k w) (hk : k < n) :
    (latencyProtocol n).wp .reporter (sbTimerCheckpoint (.thread k) (.copy k)) (fun _ => Copied R (k + 1)) w := by
  refine wp_checkpoint_lock hC hk fun l f w hf hC => ?_
  refine Protocol.wp_bind.mpr (Protocol.wp_mono (fun _ w hcopy => ?_) (wp_copyTimer hC))
  obtain ⟨g, hg, hC⟩ := hcopy
  refine wp_checkpoint_copyTimes (Or.inr (Or.inr rfl)) hC fun _ w hC => ?_
  refine Protocol.wp_bind.mpr (Protocol.wp_mono (fun _ w hreset => ?_) (wp_sbTimerReset hC))
  obtain ⟨f', hf', hC⟩ := hreset
  exact wp_checkpoint_unlock hC hf' (hf.congr hg)

theorem wp_checkpointTimers (hC : Copied R 0 w) :
    (latencyProtocol n).wp .reporter (checkpointTimers n) (fun _ => Copied R n) w := by
  have hloop : (latencyProtocol n).wp .reporter (checkpointTimers n) (fun _ => Copied R (0 + n)) w :=
    Protocol.wp_loopUp (I := fun k _ => Copied R k) hC fun i _ w _ hi hC => wp_sbTimerCheckpoint hC (by omega)
  rwa [Nat.zero_add] at hloop

/-! ### Merging the copies -/

/-- The report has copied all timers. -/
structure MergesCopies (R : List LatencyReport) (taken : ℕ → List UInt64) (copy : ℕ → TimerField → UInt64) (w : LatencyWorld n) :
    Prop where
  reports : (latencyAudit w.1).reports = R
  taken : (latencyAudit w.1).taken = taken
  copy : ∀ j, (w.2.timers (.copy j)).count = copy j

variable {taken : ℕ → List UInt64} {copy : ℕ → TimerField → UInt64}

theorem MergesCopies.rely (hM : MergesCopies R taken copy w) (hsame : SameReporter w w') : MergesCopies R taken copy w' :=
  ⟨hsame.reports.trans hM.reports, hsame.taken.trans hM.taken, fun j => (congrArg Timer.count (hsame.copy j)).trans (hM.copy j)⟩

theorem wp_loadCopy {j : ℕ} {field : TimerField} {q : UInt64 → TimerM α} (hM : MergesCopies R taken copy w)
    (hnext : ∀ w', MergesCopies R taken copy w' → (latencyProtocol n).wp .reporter (q (copy j field)) Q w') :
    (latencyProtocol n).wp .reporter (perform (load (.copy j) field) >>= q) Q w := by
  refine Protocol.wp_perform fun h s r s' hsame hinv hexec => ?_
  cases hexec
  obtain ⟨hreports, htaken, hcopy⟩ := hM.rely hsame
  have hcount : (s.timers (.copy j)).count = copy j := hcopy j
  have hsnoc : latencyAudit (h ++ [.act .reporter (.load (.copy j) field) ((s.timers (.copy j)).count field)]) =
    latencyAudit h := latencyAudit_snoc h _
  refine ⟨reporter_guards_unnoted hinv rfl fun _ => rfl, ?_⟩
  rw [hcount] at hsnoc ⊢
  exact hnext _ ⟨hsnoc ▸ hreports, hsnoc ▸ htaken, hcopy⟩

theorem wp_loadCounts {j : ℕ} (hM : MergesCopies R taken copy w) (hsum : Summarizes (copy j) (taken j)) :
    (latencyProtocol n).wp .reporter (loadCounts (.copy j))
      (fun t w => Summarizes t (taken j) ∧ MergesCopies R taken copy w) w := by
  refine wp_loadCopy hM fun w hM => wp_loadCopy hM fun w hM => wp_loadCopy hM fun w hM => wp_loadCopy hM fun w hM => ?_
  refine ⟨hsum.congr fun field hfield => ?_, hM⟩
  cases field with
  | queueTime => exact absurd rfl hfield
  | _ => rfl

/-- The merged timer summarises what was taken of the merged copies. -/
theorem wp_mergeTimers (hsum : ∀ j < n, Summarizes (copy j) (taken j)) {order : List ℕ} :
    (∀ j ∈ order, j < n) → ∀ {t l w}, Summarizes t l → MergesCopies R taken copy w →
      (latencyProtocol n).wp .reporter (mergeTimers order t)
        (fun t w => Summarizes t (l ++ order.flatMap taken) ∧ MergesCopies R taken copy w) w := by
  induction order with
  | nil =>
    intro _ t l w ht hM
    refine ⟨?_, hM⟩
    rwa [List.flatMap_nil, List.append_nil]
  | cons j order ih =>
    intro hlt t l w ht hM
    refine Protocol.wp_bind.mpr (Protocol.wp_mono (fun c w hc => ?_)
      (wp_loadCounts hM (hsum j (hlt j (List.mem_cons_self ..)))))
    obtain ⟨hc, hM⟩ := hc
    rw [List.flatMap_cons, ← List.append_assoc]
    exact ih (fun i hi => hlt i (List.mem_cons_of_mem _ hi)) (ht.merge hc) hM

/-- A report gives what the timers that it has taken add up to. -/
theorem wp_reportCumulative {order : List ℕ} (horder : order.Perm (List.range n)) (hC : Copied R 0 w) :
    (latencyProtocol n).wp .reporter (reportCumulative n order) (fun stat w => ∃ t, stat = .of t ∧
      Summarizes t ((List.range n).flatMap (latencyAudit w.1).taken) ∧ (latencyAudit w.1).reports = R) w := by
  refine Protocol.wp_bind.mpr (Protocol.wp_mono (fun _ w hC => ?_) (wp_checkpointTimers hC))
  have hM : MergesCopies R (latencyAudit w.1).taken (fun j => (w.2.timers (.copy j)).count) w := ⟨hC.reports, rfl, fun _ => rfl⟩
  refine Protocol.wp_bind.mpr (Protocol.wp_mono (fun t w ht => ?_)
    (wp_mergeTimers hC.copied (fun j hj => List.mem_range.mp (horder.mem_iff.mp hj)) Summarizes.init hM))
  obtain ⟨ht, hM⟩ := ht
  refine ⟨t, rfl, ?_, hM.reports⟩
  rw [hM.taken]
  exact ht.perm (horder.flatMap_right _)

end reporter

end NuKSM.Sysbench
