import NuKSM.Theorems.XSBench.History

/-! # The generator in the event based simulation

Lookup `i` starts `2 * i` draws behind the first one and takes two, "we need 2 samples per lookup". The offset is
computed in `int`. -/

namespace NuKSM.XSBench
variable {E : Type} [LinearOrder E] [SampleArith E]

/-- The sample `k` of the stream that starts at `STARTING_SEED`; the first one is sample 1. -/
def streamSample (E : Type) [LinearOrder E] [SampleArith E] (k : ℤ) : E :=
  SampleArith.draw (lcgNext^[k.toNat] startingSeed)

/-- What lookup `i` draws: the energy and the material of its own two samples. -/
structure OwnSamples (i : ℤ) (r : (E × ℤ) × Stream) : Prop where
  energy : r.1.1 = streamSample E (2 * i + 1)
  mat : r.1.2 = pickMatFor (streamSample E (2 * i + 2))
  drawn : r.2.drawn = [lcgNext^[(2 * i).toNat] startingSeed, lcgNext^[(2 * i + 1).toNat] startingSeed]

variable (E) in
/-- Every lookup draws its own samples, and no two lookups draw the same. -/
def SamplesApart (lookups : ℤ) : Prop :=
  ∃ samples : ℤ → (E × ℤ) × Stream,
    (∀ i, 0 ≤ i → i < lookups → eventSample E i = some (samples i) ∧ OwnSamples i (samples i)) ∧
    ∀ i j, 0 ≤ i → i < lookups → 0 ≤ j → j < lookups → i ≠ j → (samples i).2.drawn.Disjoint (samples j).2.drawn

theorem ownSamples_sample {i : ℤ} (h0 : 0 ≤ i) :
    OwnSamples i (sample E ⟨lcgNext^[(2 * i).toNat] startingSeed, []⟩) := by
  have hnext : (2 * i + 1).toNat = (2 * i).toNat + 1 := by omega
  have hnext' : (2 * i + 2).toNat = (2 * i).toNat + 1 + 1 := by omega
  refine ⟨?_, ?_, ?_⟩
  · rw [streamSample, hnext, Function.iterate_succ_apply']
    rfl
  · rw [streamSample, hnext', Function.iterate_succ_apply', Function.iterate_succ_apply']
    rfl
  · rw [hnext, Function.iterate_succ_apply']
    rfl

/-- Samples of the period belong to one lookup each. -/
theorem OwnSamples.disjoint {i j : ℤ} {r s : (E × ℤ) × Stream} (hr : OwnSamples i r) (hs : OwnSamples j s)
    (hi : 0 ≤ i) (hj : 0 ≤ j) (hi' : 2 * i + 1 < 2 ^ 63) (hj' : 2 * j + 1 < 2 ^ 63) (hne : i ≠ j) :
    r.2.drawn.Disjoint s.2.drawn := by
  rw [hr.drawn, hs.drawn]
  intro x hx hx'
  simp only [List.mem_cons, List.not_mem_nil, or_false] at hx hx'
  rcases hx with rfl | rfl <;> rcases hx' with heq | heq
  all_goals
    have := lcgNext_iterate_inj (by omega) (by omega) heq
    omega

/-- The offset of a lookup that draws fits an `int`. -/
theorem eventSample_fits {i : ℤ} {r : (E × ℤ) × Stream} (h : eventSample E i = some r) : 2 * i < 2147483648 := by
  obtain ⟨n, hn, -⟩ := Option.bind_eq_some_iff.mp h
  exact (intArith_eq_some hn).2

/-- The lookups draw their own samples exactly if there are at most `2 ^ 30` of them: the offset of the last one has to
fit an `int`. -/
theorem samplesApart_iff (lookups : ℤ) : SamplesApart E lookups ↔ lookups ≤ 1073741824 := by
  constructor
  · rintro ⟨samples, hown, -⟩
    by_contra hlarge
    have := eventSample_fits (hown (lookups - 1) (by omega) (by omega)).1
    omega
  · intro hle
    refine ⟨fun i => sample E ⟨lcgNext^[(2 * i).toNat] startingSeed, []⟩, fun i h0 hi => ?_,
      fun i j hi hi' hj hj' hne => ?_⟩
    · exact ⟨eventSample_eq h0 (by omega), ownSamples_sample h0⟩
    · exact (ownSamples_sample hi).disjoint (ownSamples_sample hj) hi hj (by omega) (by omega) hne

/-- One lookup more than that: the offset of the last one is `2 ^ 31`. -/
theorem not_samplesApart : ¬ SamplesApart ℚ 1073741825 := by
  rintro ⟨samples, hown, -⟩
  have := eventSample_fits (hown 1073741824 (by simp) (by simp)).1
  omega

end NuKSM.XSBench
