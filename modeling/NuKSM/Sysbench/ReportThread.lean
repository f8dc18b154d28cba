import Mathlib.Data.Nat.Notation

/-! # The thread of the intermediate reports (`report_thread_proc` in `sysbench.c`) -/

namespace NuKSM.Sysbench

/-- `SEC2NS`. -/
def sec2ns (sec : UInt32) : UInt64 := sec.toUInt64 * 1000000000

/-- The variables of `report_thread_proc` that a round of its loop leaves to the next one. -/
structure ReportThread where
  prevNs : UInt64
  pauseNs : UInt64
  deriving DecidableEq, Repr

/-- Before the loop, where `sb_timer_value` has returned `now`. -/
def reportStart (intervalNs now : UInt64) : ReportThread := ⟨now + intervalNs, intervalNs⟩

/-- The `do`-`while` loop, for some rounds at most: the last `next_ns`. -/
def nextReport (intervalNs currNs : UInt64) : (rounds : ℕ) → (prevNs : UInt64) → Option UInt64
  | 0, _ => none
  | rounds + 1, prevNs =>
    let nextNs := prevNs + intervalNs
    if currNs ≥ nextNs then nextReport intervalNs currNs rounds nextNs else some nextNs

/-- A round of the loop of `report_thread_proc` after the report, where `sb_timer_value` has returned `currNs`. -/
def reportRound (intervalNs currNs : UInt64) (rounds : ℕ) (s : ReportThread) : Option ReportThread := do
  let nextNs ← nextReport intervalNs currNs rounds s.prevNs
  return ⟨nextNs, nextNs - currNs⟩

end NuKSM.Sysbench
