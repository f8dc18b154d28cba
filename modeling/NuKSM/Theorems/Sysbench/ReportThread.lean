import Mathlib.Tactic.Linarith
import Mathlib.Tactic.Ring
import NuKSM.Sysbench.ReportThread

/-! # The schedule of the intermediate reports

Each wake-up is due a whole number of intervals after the start, however long reports and sleeps take. What carries this
over a round is that the thread never wakes up before it is due, so the next target is at most one interval away. -/

namespace NuKSM.Sysbench

variable {intervalNs currNs prevNs nextNs : UInt64} {rounds rounds' : ℕ}

theorem sec2ns_pos {sec : UInt32} (h : 1 ≤ sec) : 0 < (sec2ns sec).toNat := by
  have hsec := UInt32.le_iff_toNat_le.mp h
  have hlt := sec.toNat_lt
  have hnat : (sec2ns sec).toNat = sec.toNat * 1000000000 := by
    unfold sec2ns
    rw [UInt64.toNat_mul, UInt32.toNat_toUInt64]
    exact Nat.mod_eq_of_lt (by simp; omega)
  rw [UInt32.toNat_one] at hsec
  omega

/-! ### The inner loop -/

theorem toNat_next (h : prevNs.toNat ≤ currNs.toNat) (hfar : currNs.toNat + intervalNs.toNat < 2 ^ 64) :
    (prevNs + intervalNs).toNat = prevNs.toNat + intervalNs.toNat := by
  rw [UInt64.toNat_add, Nat.mod_eq_of_lt (by omega)]

/-- More rounds change nothing once the loop has ended. -/
theorem nextReport_mono (hrounds : rounds ≤ rounds') (h : nextReport intervalNs currNs rounds prevNs = some nextNs) :
    nextReport intervalNs currNs rounds' prevNs = some nextNs := by
  induction rounds generalizing prevNs rounds' with
  | zero => simp [nextReport] at h
  | succ rounds ih =>
    obtain ⟨rounds', rfl⟩ : ∃ n, rounds' = n + 1 := ⟨rounds' - 1, by omega⟩
    simp only [nextReport] at h ⊢
    split at h
    · rename_i hagain
      rw [if_pos hagain]
      exact ih (by omega) h
    · rename_i hleave
      rw [if_neg hleave]
      exact h

/-- The loop ends, at most one interval after the current time. -/
theorem nextReport_ends (hpos : 0 < intervalNs.toNat) (hdue : prevNs.toNat ≤ currNs.toNat)
    (hfar : currNs.toNat + intervalNs.toNat < 2 ^ 64) :
    ∃ rounds nextNs steps, nextReport intervalNs currNs rounds prevNs = some nextNs ∧ 0 < steps ∧
      nextNs.toNat = prevNs.toNat + steps * intervalNs.toNat ∧ currNs.toNat < nextNs.toNat ∧
      nextNs.toNat ≤ currNs.toNat + intervalNs.toNat := by
  -- Each round comes closer to the current time.
  induction hgap : currNs.toNat - prevNs.toNat using Nat.strong_induction_on generalizing prevNs with
  | _ gap ih =>
    have hnext := toNat_next hdue hfar
    by_cases hagain : currNs ≥ prevNs + intervalNs
    · have hagain' := UInt64.le_iff_toNat_le.mp hagain
      obtain ⟨rounds, nextNs, steps, hend, -, hsteps, hlate, hsoon⟩ := ih _ (by omega) hagain' rfl
      refine ⟨rounds + 1, nextNs, steps + 1, ?_, by omega, ?_, hlate, hsoon⟩
      · simp only [nextReport, if_pos hagain, hend]
      · rw [hsteps, hnext]
        ring
    · have hlate : currNs.toNat < (prevNs + intervalNs).toNat := by
        rw [← UInt64.lt_iff_toNat_lt]
        exact UInt64.not_le.mp hagain
      refine ⟨1, prevNs + intervalNs, 1, ?_, one_pos, by omega, hlate, by omega⟩
      simp only [nextReport, if_neg hagain]

/-! ### Runs -/

/-- The thread has made `n` rounds. `sb_timer_value` returned `curr 0` before the loop and `curr (i + 1)` in round `i`, after
a sleep of at least `pause_ns` and a report. -/
structure ReportRun (intervalNs : UInt64) (n : ℕ) (curr : ℕ → UInt64) (s : ℕ → ReportThread) : Prop where
  start : s 0 = reportStart intervalNs (curr 0)
  sleep : ∀ i < n, (curr i).toNat + (s i).pauseNs.toNat ≤ (curr (i + 1)).toNat
  round : ∀ i < n, ∃ rounds, reportRound intervalNs (curr (i + 1)) rounds (s i) = some (s (i + 1))
  far : ∀ i ≤ n, (curr i).toNat + intervalNs.toNat < 2 ^ 64

/-- The target is `k` intervals after the start. The pause ends there, and it is not longer than an interval. -/
structure OnSchedule (intervalNs start now : UInt64) (s : ReportThread) (k : ℕ) : Prop where
  target : s.prevNs.toNat = start.toNat + k * intervalNs.toNat
  later : now.toNat < s.prevNs.toNat
  pause : s.pauseNs.toNat = s.prevNs.toNat - now.toNat
  short : 0 < s.pauseNs.toNat ∧ s.pauseNs.toNat ≤ intervalNs.toNat

theorem OnSchedule.start {start : UInt64} (hpos : 0 < intervalNs.toNat) (hfar : start.toNat + intervalNs.toNat < 2 ^ 64) :
    OnSchedule intervalNs start start (reportStart intervalNs start) 1 := by
  have hnext := toNat_next le_rfl hfar
  refine ⟨?_, ?_, ?_, hpos, le_rfl⟩
  · simp only [reportStart, hnext, one_mul]
  · simp only [reportStart, hnext]
    omega
  · simp only [reportStart, hnext]
    omega

/-- A round after a sleep that is long enough ends, on the first target later than the current time. -/
theorem OnSchedule.round {start now : UInt64} {s : ReportThread} {k : ℕ} (hpos : 0 < intervalNs.toNat)
    (h : OnSchedule intervalNs start now s k) (hsleep : now.toNat + s.pauseNs.toNat ≤ currNs.toNat)
    (hfar : currNs.toNat + intervalNs.toNat < 2 ^ 64) :
    ∃ rounds s' k', reportRound intervalNs currNs rounds s = some s' ∧ k < k' ∧ OnSchedule intervalNs start currNs s' k' ∧
      ∀ m, currNs.toNat < start.toNat + m * intervalNs.toNat → k' ≤ m := by
  have hdue : s.prevNs.toNat ≤ currNs.toNat := by
    have := h.later
    have := h.pause
    omega
  obtain ⟨rounds, nextNs, steps, hend, hsteps, hnext, hlate, hsoon⟩ := nextReport_ends hpos hdue hfar
  have htarget : nextNs.toNat = start.toNat + (k + steps) * intervalNs.toNat := by
    rw [hnext, h.target]
    ring
  have hpause : (nextNs - currNs).toNat = nextNs.toNat - currNs.toNat :=
    UInt64.toNat_sub_of_le _ _ (UInt64.le_iff_toNat_le.mpr hlate.le)
  refine ⟨rounds, ⟨nextNs, nextNs - currNs⟩, k + steps, by simp [reportRound, hend], by omega,
    ⟨htarget, hlate, hpause, by dsimp only; omega, by dsimp only; omega⟩,
    fun m hm => ?_⟩
  -- One interval before the target is not later than the current time.
  by_contra hless
  have hmul : (m + 1) * intervalNs.toNat ≤ (k + steps) * intervalNs.toNat := Nat.mul_le_mul_right _ (by omega)
  rw [Nat.succ_mul] at hmul
  omega

/-- The rounds of the inner loop that are allowed make no difference. -/
theorem reportRound_unique {s s₁ s₂ : ReportThread} (h₁ : reportRound intervalNs currNs rounds s = some s₁)
    (h₂ : reportRound intervalNs currNs rounds' s = some s₂) : s₁ = s₂ := by
  unfold reportRound at h₁ h₂
  obtain ⟨next₁, hnext₁, hs₁⟩ := Option.bind_eq_some_iff.mp h₁
  obtain ⟨next₂, hnext₂, hs₂⟩ := Option.bind_eq_some_iff.mp h₂
  have hsame : next₁ = next₂ := by
    have hmore₁ := nextReport_mono (le_max_left rounds rounds') hnext₁
    have hmore₂ := nextReport_mono (le_max_right rounds rounds') hnext₂
    exact Option.some.inj (hmore₁.symm.trans hmore₂)
  subst hsame
  exact Option.some.inj (hs₁.symm.trans hs₂)

theorem OnSchedule.unique {start now : UInt64} {s : ReportThread} {k k' : ℕ} (hpos : 0 < intervalNs.toNat)
    (h : OnSchedule intervalNs start now s k) (h' : OnSchedule intervalNs start now s k') : k = k' := by
  have hmul : k * intervalNs.toNat = k' * intervalNs.toNat := by
    have := h.target
    have := h'.target
    omega
  exact Nat.eq_of_mul_eq_mul_right hpos hmul

namespace ReportRun
variable {n : ℕ} {curr : ℕ → UInt64} {s : ℕ → ReportThread}

/-- What a round of a run does to the schedule. -/
theorem next (hrun : ReportRun intervalNs n curr s) (hpos : 0 < intervalNs.toNat) {i k : ℕ} (hi : i < n)
    (h : OnSchedule intervalNs (curr 0) (curr i) (s i) k) :
    ∃ k', k < k' ∧ OnSchedule intervalNs (curr 0) (curr (i + 1)) (s (i + 1)) k' ∧
      ∀ m, (curr (i + 1)).toNat < (curr 0).toNat + m * intervalNs.toNat → k' ≤ m := by
  obtain ⟨rounds, s', k', hround, hless, hs', hfirst⟩ := h.round hpos (hrun.sleep i hi) (hrun.far (i + 1) hi)
  obtain ⟨rounds', hround'⟩ := hrun.round i hi
  rw [reportRound_unique hround hround'] at hs'
  exact ⟨k', hless, hs', hfirst⟩

theorem onSchedule (hrun : ReportRun intervalNs n curr s) (hpos : 0 < intervalNs.toNat) {i : ℕ} (hi : i ≤ n) :
    ∃ k, OnSchedule intervalNs (curr 0) (curr i) (s i) k := by
  induction i with
  | zero =>
    rw [hrun.start]
    exact ⟨1, .start hpos (hrun.far 0 hi)⟩
  | succ i ih =>
    obtain ⟨k, hk⟩ := ih (by omega)
    obtain ⟨k', -, hk', -⟩ := hrun.next hpos hi hk
    exact ⟨k', hk'⟩

/-- The targets are whole numbers `k` of intervals after the start, later and later. Each is the first one later than the
current time, hence one interval after the one before unless that interval has passed already. The next round ends too. -/
theorem schedule {interval : UInt32} (hinterval : 1 ≤ interval) (hrun : ReportRun (sec2ns interval) n curr s) :
    ∃ k : ℕ → ℕ, k 0 = 1 ∧ (∀ i ≤ n, OnSchedule (sec2ns interval) (curr 0) (curr i) (s i) (k i)) ∧
      (∀ i j, i < j → j ≤ n → k i < k j) ∧
      (∀ i < n, ∀ m, (curr (i + 1)).toNat < (curr 0).toNat + m * (sec2ns interval).toNat → k (i + 1) ≤ m) ∧
      (∀ i < n, (curr (i + 1)).toNat < (s i).prevNs.toNat + (sec2ns interval).toNat →
        (s (i + 1)).prevNs.toNat = (s i).prevNs.toNat + (sec2ns interval).toNat) ∧
      ∀ now : UInt64, (curr n).toNat + (s n).pauseNs.toNat ≤ now.toNat → now.toNat + (sec2ns interval).toNat < 2 ^ 64 →
        ∃ rounds s', reportRound (sec2ns interval) now rounds (s n) = some s' := by
  have hpos := sec2ns_pos hinterval
  choose! k hk using fun i (hi : i ≤ n) => hrun.onSchedule hpos hi
  have hstep : ∀ i < n, k i < k (i + 1) ∧
      ∀ m, (curr (i + 1)).toNat < (curr 0).toNat + m * (sec2ns interval).toNat → k (i + 1) ≤ m := by
    intro i hi
    obtain ⟨k', hless, hk', hfirst⟩ := hrun.next hpos hi (hk i hi.le)
    rw [OnSchedule.unique hpos (hk (i + 1) hi) hk']
    exact ⟨hless, hfirst⟩
  refine ⟨k, ?_, hk, ?_, fun i hi => (hstep i hi).2, ?_, fun now hsleep hfar => ?_⟩
  · have hstart := OnSchedule.start hpos (hrun.far 0 (Nat.zero_le n))
    rw [← hrun.start] at hstart
    exact OnSchedule.unique hpos (hk 0 (Nat.zero_le n)) hstart
  · intro i j hij
    induction j, hij using Nat.le_induction with
    | base => exact fun hj => (hstep i hj).1
    | succ j _ ih => exact fun hj => (ih (by omega)).trans (hstep j hj).1
  · intro i hi hsoon
    rw [(hk i hi.le).target, add_assoc, ← Nat.succ_mul] at hsoon
    have hnext : k (i + 1) = k i + 1 := le_antisymm ((hstep i hi).2 _ hsoon) (hstep i hi).1
    rw [(hk i hi.le).target, (hk (i + 1) hi).target, hnext]
    ring
  · obtain ⟨rounds, s', -, hround, -⟩ := (hk n le_rfl).round hpos hsleep hfar
    exact ⟨rounds, s', hround⟩

end ReportRun

/-- The first report takes more than two intervals of a second. -/
def slowReadings : ℕ → UInt64
  | 0 => 0
  | 1 => 3500000000
  | _ => 4100000000

def slowThread : ℕ → ReportThread
  | 0 => ⟨1000000000, 1000000000⟩
  | 1 => ⟨4000000000, 500000000⟩
  | _ => ⟨5000000000, 900000000⟩

theorem slowRun : ReportRun (sec2ns 1) 2 slowReadings slowThread where
  start := by decide
  sleep := by decide
  round := by
    intro i hi
    refine ⟨3, ?_⟩
    revert i
    decide
  far := by decide

theorem ReportRun.schedule_slow :
    ∃ k : ℕ → ℕ, k 0 = 1 ∧ (∀ i ≤ 2, OnSchedule (sec2ns 1) 0 (slowReadings i) (slowThread i) (k i)) ∧
      (∀ i j, i < j → j ≤ 2 → k i < k j) ∧
      (∀ i < 2, ∀ m, (slowReadings (i + 1)).toNat < 0 + m * (sec2ns 1).toNat → k (i + 1) ≤ m) ∧
      (∀ i < 2, (slowReadings (i + 1)).toNat < (slowThread i).prevNs.toNat + (sec2ns 1).toNat →
        (slowThread (i + 1)).prevNs.toNat = (slowThread i).prevNs.toNat + (sec2ns 1).toNat) ∧
      ∀ now : UInt64, 4100000000 + 900000000 ≤ now.toNat → now.toNat + (sec2ns 1).toNat < 2 ^ 64 →
        ∃ rounds s', reportRound (sec2ns 1) now rounds (slowThread 2) = some s' :=
  ReportRun.schedule (by decide) slowRun

end NuKSM.Sysbench
