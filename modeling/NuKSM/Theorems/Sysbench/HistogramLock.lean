import NuKSM.Theorems.Sysbench.Percentile

/-! # The lock of a histogram

Each function releases the lock that it takes, except that `sb_histogram_print` returns from a histogram without counts
while it holds the lock. The next function that wants the lock then waits for a thread that has returned. -/

namespace NuKSM.Sysbench
open Thread HistogramOp

variable {ι : Type} [DecidableEq ι] {t : ι} {h : Histogram ι}

/-- Each call of the sequence ends, so none has to wait, and leaves the lock free. -/
def LockFree (t : ι) (h : Histogram ι) (cs : List HistogramCall) : Prop :=
  ∀ before c after, cs = before ++ c :: after → ∃ s b s', runCalls t h before = some s ∧
    c.body.solo (step t) s = some (b, s') ∧ s'.lock = none

/-- There is a bin to update, and a count to print. -/
def Fine (h : Histogram ι) : HistogramCall → Prop
  | .update _ _ => 0 < h.arraySize.toNat
  | .print => Recorded h
  | _ => True

theorem call_ends (hlock : h.lock = none) {c : HistogramCall} (hfine : Fine h c) :
    Ends (step t) c.body h fun _ h' => h'.lock = none := by
  cases c with
  | update random i =>
    exact (sbHistogramUpdate_ends (clampBin_lt hfine i)).bind fun _ h' hh' => Ends.pure (hh' ▸ hlock)
  | getPctIntermediate percentile =>
    exact (sbHistogramGetPctIntermediate_ends hlock percentile).bind fun _ h' hh' => Ends.pure hh'.2.2
  | getPctCumulative percentile =>
    exact (sbHistogramGetPctCumulative_ends hlock percentile).bind fun _ h' hh' => Ends.pure hh'.2.2
  | getPctCheckpoint percentile =>
    exact (sbHistogramGetPctCheckpoint_ends hlock percentile).bind fun _ h' hh' => Ends.pure hh'.2.2
  | print => exact (sbHistogramPrint_ends hlock).bind fun _ h' hh' => Ends.pure (hh'.2.1 hfine)

/-- A call without a bin to update or a count to print leaves the array or keeps the lock. -/
theorem fine_of_call (hlock : h.lock = none) {c : HistogramCall} {b : Option ℕ} {h' : Histogram ι}
    (hcall : c.body.solo (step t) h = some (b, h')) (hlock' : h'.lock = none) : Fine h c := by
  cases c with
  | update random i =>
    by_contra hzero
    have hstep : ∀ slot bin, (incSlot slot bin).step t h = none := fun slot bin => if_neg fun hin => hzero (by
      have := hin.2
      show 0 < h.arraySize.toNat
      omega)
    have hnone : (HistogramCall.update random i).body.solo (step t) h = none := by
      show ((sbHistogramUpdate random i) >>= fun _ => pure none).solo (step t) h = none
      rw [solo_bind]
      show (((incSlot _ _).step t h).bind _).bind _ = none
      rw [hstep]
      rfl
    rw [hnone] at hcall
    cases hcall
  | print =>
    by_contra hempty
    obtain ⟨b', h₁, hprint, hheld⟩ := (sbHistogramPrint_ends (t := t) hlock).bind (Q := fun _ h' => h'.lock = some t)
      (f := fun _ => pure (none : Option ℕ)) fun _ h' hh' => Ends.pure (hh'.2.2 hempty)
    have hsame := Option.some.inj (hcall.symm.trans hprint)
    rw [(Prod.mk.inj hsame).2, hheld] at hlock'
    cases hlock'
  | getPctIntermediate percentile | getPctCumulative percentile | getPctCheckpoint percentile => exact trivial

/-- The lock is free after each call, and no call waits for it, if and only if every call finds a bin to update or a
count to print. -/
theorem lockFree_iff (hlock : h.lock = none) (cs : List HistogramCall) :
    LockFree t h cs ↔
      ∀ before c after, cs = before ++ c :: after → ∀ s, runCalls t h before = some s → Fine s c := by
  -- Before each call the lock is free.
  have hfree : LockFree t h cs → ∀ before c after, cs = before ++ c :: after → ∀ s, runCalls t h before = some s →
      s.lock = none := by
    intro hcs before
    induction before using List.reverseRecOn with
    | nil => exact fun c after _ s hs => Option.some.inj hs ▸ hlock
    | append_singleton before d _ =>
      intro c after hsplit s hs
      obtain ⟨s₁, b, s₂, hs₁, hcall, hlock₂⟩ := hcs before d (c :: after) (by rw [hsplit, List.append_assoc]; rfl)
      rw [runCalls_snoc hs₁ hcall] at hs
      exact Option.some.inj hs ▸ hlock₂
  constructor
  · intro hcs before c after hsplit s hs
    obtain ⟨s', b, s₂, hs', hcall, hlock₂⟩ := hcs before c after hsplit
    obtain rfl := Option.some.inj (hs.symm.trans hs')
    exact fine_of_call (hfree hcs before c after hsplit s hs) hcall hlock₂
  · intro hfine before
    -- The calls so far have ended and left the lock free.
    have hrun : ∀ c after, cs = before ++ c :: after → ∃ s, runCalls t h before = some s ∧ s.lock = none := by
      induction before using List.reverseRecOn with
      | nil => exact fun _ _ _ => ⟨h, rfl, hlock⟩
      | append_singleton before d ih =>
        intro c after hsplit
        have hsplit' : cs = before ++ d :: c :: after := by
          rw [hsplit, List.append_assoc]
          rfl
        obtain ⟨s, hs, hlock₁⟩ := ih d (c :: after) hsplit'
        obtain ⟨b, s', hcall, hlock'⟩ := call_ends (t := t) hlock₁ (hfine before d (c :: after) hsplit' s hs)
        exact ⟨s', runCalls_snoc hs hcall, hlock'⟩
    intro c after hsplit
    obtain ⟨s, hs, hlock₁⟩ := hrun c after hsplit
    obtain ⟨b, s', hcall, hlock'⟩ := call_ends (t := t) hlock₁ (hfine before c after hsplit s hs)
    exact ⟨s, b, s', hs, hcall, hlock'⟩

/-- A histogram with a count in bin 0 is printed. -/
theorem lockFree_iff_print :
    LockFree () ⟨fun _ _ => 0, Function.update (fun _ => 0) 0 1, fun _ => 0, 1, 3, none⟩ [.print] := by
  refine (lockFree_iff rfl _).mpr fun before c after hsplit s hs => ?_
  obtain ⟨rfl, rfl, rfl⟩ : before = [] ∧ c = .print ∧ after = [] := by
    cases before with
    | nil => simpa [eq_comm] using hsplit
    | cons d before => simp at hsplit
  obtain rfl := Option.some.inj hs
  refine ⟨0, by decide, ?_⟩
  show ∑ s ∈ Finset.range sbHistogramNslots, (0 : UInt64) + 1 ≠ 0
  rw [Finset.sum_const_zero]
  decide

/-- An empty histogram is printed. -/
theorem not_lockFree : ¬LockFree () { (Histogram.zeroed : Histogram Unit) with arraySize := 3 } [.print] := by
  intro hfree
  obtain ⟨s, b, s', hs, hcall, hlock'⟩ := hfree [] .print [] rfl
  obtain rfl := Option.some.inj hs
  obtain ⟨i, -, hi⟩ := fine_of_call rfl hcall hlock'
  exact hi ((add_zero _).trans Finset.sum_const_zero)

end NuKSM.Sysbench
