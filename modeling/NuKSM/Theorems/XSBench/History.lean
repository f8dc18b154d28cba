import NuKSM.Theorems.XSBench.Event

/-! # The generator in the history based simulation

Each particle starts `10 * lookups` draws behind the one before it. A lookup takes two draws and skips at most five, so
a particle that starts at its offset stays inside its stride. The offset is computed in `int`. -/

namespace NuKSM.XSBench

/-! ### Positions of the stream -/

/-- The states of the generator are different for `2 ^ 63` draws. -/
theorem lcgNext_iterate_inj {seed : UInt64} {m n : ℕ} (hm : m < 2 ^ 63) (hn : n < 2 ^ 63)
    (h : lcgNext^[m] seed = lcgNext^[n] seed) : m = n := by
  wlog hmn : m ≤ n generalizing m n
  · exact (this hn hm h.symm (by omega)).symm
  have hslope : 4 ∣ drawMap.slope - 1 := by
    refine ⟨((701549227626695177 : ℕ) : ZMod (2 ^ 63)), ?_⟩
    have ha : drawMap.slope = ((4 * 701549227626695177 + 1 : ℕ) : ZMod (2 ^ 63)) := rfl
    rw [ha]
    push_cast
    ring
  have hoffset : 2 ∣ drawMap.offset - 1 := by
    have hc : drawMap.offset = 1 := residue_one
    rw [hc, sub_self]
    exact dvd_zero 2
  have h2 : IsNilpotent (2 : ZMod (2 ^ 63)) := ⟨63, by exact_mod_cast ZMod.natCast_self (2 ^ 63)⟩
  have hres : drawMap.apply^[m] (residue seed) = drawMap.apply^[n] (residue seed) := by
    rw [← residue_lcgNext_iterate, ← residue_lcgNext_iterate, h]
  have hzero := (ZMod.natCast_eq_zero_iff _ _).mp (Affine.iterate_inj hslope hoffset h2 hmn hres)
  have := Nat.eq_zero_of_dvd_of_lt hzero (by omega)
  omega

/-- The stream stands at the position `k`, and has drawn at positions from `lo` on and before `k` only. -/
structure Drawn (lo k : ℕ) (s : Stream) : Prop where
  seed : s.seed = lcgNext^[k] startingSeed
  drawn : ∀ x ∈ s.drawn, ∃ j, lo ≤ j ∧ j < k ∧ x = lcgNext^[j] startingSeed

namespace Drawn
variable {lo k : ℕ} {s : Stream}

theorem sample (E : Type) [LinearOrder E] [SampleArith E] (h : Drawn lo k s) (hlo : lo ≤ k) :
    Drawn lo (k + 2) (XSBench.sample E s).2 := by
  refine ⟨?_, fun x hx => ?_⟩
  · rw [Function.iterate_succ_apply', Function.iterate_succ_apply', ← h.seed]
    rfl
  · have hmem : x ∈ s.drawn ++ [s.seed] ++ [lcgNext s.seed] := hx
    rw [List.append_assoc, List.mem_append] at hmem
    rcases hmem with hmem | hmem
    · obtain ⟨j, hj, hjk, hxj⟩ := h.drawn x hmem
      exact ⟨j, hj, by omega, hxj⟩
    · simp only [List.cons_append, List.nil_append, List.mem_cons, List.not_mem_nil, or_false] at hmem
      rcases hmem with rfl | rfl
      · exact ⟨k, hlo, by omega, h.seed⟩
      · exact ⟨k + 1, by omega, by omega, by rw [Function.iterate_succ_apply', h.seed]⟩

theorem fastForward (h : Drawn lo k s) (n : UInt64) :
    ∃ s', s.fastForward n = some s' ∧ Drawn lo (k + n.toNat) s' := by
  have hlt : s.seed.toNat < 2 ^ 63 := h.seed ▸ lcgNext_iterate_lt startingSeed_lt k
  refine ⟨_, by rw [Stream.fastForward, fastForwardLcg_eq_iterate hlt]; rfl, ?_, fun x hx => ?_⟩
  · simp only [h.seed, ← Function.iterate_add_apply, Nat.add_comm]
  · obtain ⟨j, hj, hjk, hxj⟩ := h.drawn x hx
    exact ⟨j, hj, by omega, hxj⟩

end Drawn

section particle
variable {E : Type} [LinearOrder E] [SampleArith E] {macroXs : E → ℤ → Option (List E)}

/-- At most one skip for each of the five cross sections. -/
theorem nForward_le {macroXsVector : List E} (hlen : macroXsVector.length = 5) :
    ∃ n, nForward macroXsVector = some n ∧ n.toNat ≤ 5 := by
  obtain ⟨n, hn, hle⟩ : ∃ n, nForward macroXsVector = some n ∧ (n.toNat : ℤ) ≤ 5 :=
    forUp_total (P := fun k (n : UInt64) => (n.toNat : ℤ) ≤ k) (by decide) le_rfl fun k n h0 hk hn => by
      obtain ⟨x, hx⟩ := exists_peek (A := macroXsVector) h0 (by omega)
      refine ⟨_, by rw [hx]; rfl, ?_⟩
      have hnext : (n + 1).toNat = n.toNat + 1 := by
        rw [UInt64.toNat_add]
        exact Nat.mod_eq_of_lt (by change n.toNat + 1 < 2 ^ 64; omega)
      dsimp only
      split
      · rw [hnext]
        omega
      · omega
  exact ⟨n, hn, by omega⟩

/-- A round of a particle moves its stream on by two draws and at most five skips. -/
theorem historyRound_drawn (hxs : ∀ e m, ∃ xs, macroXs e m = some xs ∧ xs.length = 5) {lo k : ℕ} (hlo : lo ≤ k)
    {y : (E × ℤ) × Stream} (h : Drawn lo k y.2) (i : ℤ) :
    ∃ y' k', (∀ v, ∃ v', historyRound macroXs (y, v) i = some (y', v')) ∧ Drawn lo k' y'.2 ∧ k ≤ k' ∧ k' ≤ k + 7 := by
  obtain ⟨⟨pEnergy, mat⟩, s⟩ := y
  obtain ⟨xs, hx, hlen⟩ := hxs pEnergy mat
  obtain ⟨m, hm⟩ := maxIndex_isSome hlen
  obtain ⟨n, hn, hn5⟩ := nForward_le hlen
  have hlookup : ∀ v, lookup macroXs pEnergy mat v = some (xs, v + UInt64.ofInt (m + 1)) := fun v => by
    rw [lookup, hx]
    simp only [Option.bind_eq_bind, Option.bind_some, hm]
    rfl
  by_cases hpos : n > 0
  · obtain ⟨s', hs', hdrawn⟩ := h.fastForward n
    refine ⟨sample E s', k + n.toNat + 2, fun v => ⟨v + UInt64.ofInt (m + 1), ?_⟩, hdrawn.sample E (by omega), by omega,
      by omega⟩
    rw [historyRound]
    simp only [Option.bind_eq_bind, hlookup, Option.bind_some, hn]
    rw [if_pos hpos, hs']
    rfl
  · refine ⟨sample E s, k + 2, fun v => ⟨v + UInt64.ofInt (m + 1), ?_⟩, Drawn.sample E h hlo, by omega, by omega⟩
    rw [historyRound]
    simp only [Option.bind_eq_bind, hlookup, Option.bind_some, hn]
    rw [if_neg hpos]
    rfl

/-- The rounds of a particle. What it adds up does not change what it draws. -/
theorem historyRounds_drawn (hxs : ∀ e m, ∃ xs, macroXs e m = some xs ∧ xs.length = 5) {lo k : ℕ} (hlo : lo ≤ k)
    {y : (E × ℤ) × Stream} (h : Drawn lo k y.2) (n : ℕ) :
    ∃ y' k', (∀ v, ∃ v', forUp n (historyRound macroXs) (y, v) = some (y', v')) ∧ Drawn lo k' y'.2 ∧ k ≤ k' ∧
      k' ≤ k + 7 * n := by
  induction n with
  | zero => exact ⟨y, k, fun v => ⟨v, rfl⟩, h, le_rfl, by omega⟩
  | succ n ih =>
    obtain ⟨y₁, k₁, hrun, hdrawn, hk, hk'⟩ := ih
    obtain ⟨y', k', hround, hdrawn', hk₁, hk₁'⟩ := historyRound_drawn hxs (hlo.trans hk) hdrawn n
    refine ⟨y', k', fun v => ?_, hdrawn', by omega, by omega⟩
    obtain ⟨v₁, hv₁⟩ := hrun v
    obtain ⟨v', hv'⟩ := hround v₁
    refine ⟨v', ?_⟩
    rw [Nat.cast_succ, forUp_succ (by omega), hv₁]
    exact hv'

/-- Where the stride of particle `p` starts. -/
def stride (lookups p : ℤ) : ℕ := (10 * lookups * p).toNat

/-- The particle `p` does not fault, and `s` is what it leaves of the generator: it draws within its stride, and ends
there. -/
def StaysInStride (macroXs : E → ℤ → Option (List E)) (lookups p : ℤ) (s : Stream) : Prop :=
  (∀ verification, ∃ verification', historyParticle macroXs lookups p verification = some (s, verification')) ∧
  (∀ x ∈ s.drawn, ∃ k, stride lookups p ≤ k ∧ k < stride lookups (p + 1) ∧ x = lcgNext^[k] startingSeed) ∧
  ∃ k, k ≤ stride lookups (p + 1) ∧ s.seed = lcgNext^[k] startingSeed

/-- Every particle draws within its stride, and no two particles draw the same. -/
def DrawsApart (macroXs : E → ℤ → Option (List E)) (lookups particles : ℤ) : Prop :=
  ∃ streams : ℤ → Stream,
    (∀ p, 0 ≤ p → p < particles → StaysInStride macroXs lookups p (streams p)) ∧
    ∀ p q, 0 ≤ p → p < particles → 0 ≤ q → q < particles → p ≠ q → (streams p).drawn.Disjoint (streams q).drawn

theorem intArith_eq_some {x y : ℤ} (h : intArith x = some y) : y = x ∧ x < 2147483648 := by
  unfold intArith at h
  split at h
  case isTrue hx =>
    cases h
    exact ⟨rfl, hx.2⟩
  case isFalse => cases h

/-- The offset of a particle fits an `int`. -/
theorem historyParticle_fits {lookups p : ℤ} {v : UInt64} {r : Stream × UInt64}
    (h : historyParticle macroXs lookups p v = some r) : 10 * (p * lookups) < 2147483648 := by
  obtain ⟨n, hn, h⟩ := Option.bind_eq_some_iff.mp h
  obtain ⟨n', hn', h⟩ := Option.bind_eq_some_iff.mp h
  obtain ⟨n'', hn'', -⟩ := Option.bind_eq_some_iff.mp h
  obtain ⟨rfl, -⟩ := intArith_eq_some hn
  obtain ⟨rfl, -⟩ := intArith_eq_some hn'
  have := (intArith_eq_some hn'').2
  omega

theorem historyParticle_stays (hxs : ∀ e m, ∃ xs, macroXs e m = some xs ∧ xs.length = 5) {lookups p : ℤ}
    (hl : 1 ≤ lookups) (hp : 0 ≤ p) (hfits : 10 * (p * lookups) < 2147483648) :
    ∃ s, StaysInStride macroXs lookups p s := by
  have hpos : 0 ≤ p * lookups := mul_nonneg hp (by omega)
  have hstart : stride lookups p = (p * lookups * 2 * 5).toNat := by
    unfold stride
    congr 1
    ring
  have hnext : stride lookups (p + 1) = stride lookups p + 10 * lookups.toNat := by
    unfold stride
    rw [show 10 * lookups * (p + 1) = 10 * (p * lookups) + 10 * lookups by ring,
      show 10 * lookups * p = 10 * (p * lookups) by ring]
    omega
  have hinit : Drawn (stride lookups p) (stride lookups p) ⟨lcgNext^[stride lookups p] startingSeed, []⟩ :=
    ⟨rfl, fun x hx => absurd hx List.not_mem_nil⟩
  obtain ⟨y, k, hrun, hdrawn, hk, hk'⟩ :=
    historyRounds_drawn hxs (by omega) (hinit.sample E le_rfl) lookups.toNat
  rw [Int.toNat_of_nonneg (by omega)] at hrun
  refine ⟨y.2, fun v => ?_, fun x hx => ?_, k, by omega, hdrawn.seed⟩
  · obtain ⟨v', hv'⟩ := hrun v
    refine ⟨v', ?_⟩
    rw [historyParticle, intArith_eq (by omega) (by omega)]
    simp only [Option.bind_eq_bind, Option.bind_some]
    rw [intArith_eq (by omega) (by omega), Option.bind_some, intArith_eq (by omega) (by omega), Option.bind_some,
      fastForward_start (by omega) (by omega), Option.bind_some, ← hstart, hv']
    rfl
  · obtain ⟨j, hj, hjk, hxj⟩ := hdrawn.drawn x hx
    exact ⟨j, hj, by omega, hxj⟩

theorem stride_mono {lookups p q : ℤ} (hl : 0 ≤ lookups) (hpq : p ≤ q) : stride lookups p ≤ stride lookups q :=
  Int.toNat_le_toNat (mul_le_mul_of_nonneg_left hpq (by omega))

/-- Strides that start in the period of the generator have no state in common. -/
theorem StaysInStride.disjoint {lookups p q : ℤ} {s s' : Stream} (h : StaysInStride macroXs lookups p s)
    (h' : StaysInStride macroXs lookups q s') (hl : 0 ≤ lookups) (hpq : p < q) (hperiod : stride lookups (q + 1) ≤ 2 ^ 63) :
    s.drawn.Disjoint s'.drawn := by
  intro x hx hx'
  obtain ⟨j, -, hj, rfl⟩ := h.2.1 x hx
  obtain ⟨k, hk, hk', heq⟩ := h'.2.1 _ hx'
  have hle : stride lookups (p + 1) ≤ stride lookups q := stride_mono hl (by omega)
  have := lcgNext_iterate_inj (by omega) (by omega) heq
  omega

/-- The particles draw apart from each other exactly if the offset of the last one fits an `int`. -/
theorem drawsApart_iff (hxs : ∀ e m, ∃ xs, macroXs e m = some xs ∧ xs.length = 5) {lookups particles : ℤ}
    (hl : 1 ≤ lookups) (hl' : lookups < 2147483648) (hp : 1 ≤ particles) :
    DrawsApart macroXs lookups particles ↔ 10 * lookups * (particles - 1) < 2147483648 := by
  constructor
  · rintro ⟨streams, hstays, -⟩
    obtain ⟨v', hv'⟩ := (hstays (particles - 1) (by omega) (by omega)).1 0
    have := historyParticle_fits hv'
    rw [show 10 * lookups * (particles - 1) = 10 * ((particles - 1) * lookups) by ring]
    exact this
  · intro hfits
    have hsmall : ∀ p, 0 ≤ p → p < particles → 10 * (p * lookups) < 2147483648 := fun p h0 hlt => by
      have hle : p * lookups ≤ (particles - 1) * lookups := mul_le_mul_of_nonneg_right (by omega) (by omega)
      have hmul : 10 * lookups * (particles - 1) = 10 * ((particles - 1) * lookups) := by ring
      omega
    have hperiod : ∀ p, 0 ≤ p → p < particles → stride lookups (p + 1) ≤ 2 ^ 63 := fun p h0 hlt => by
      have := hsmall p h0 hlt
      have hmul : 10 * lookups * (p + 1) = 10 * (p * lookups) + 10 * lookups := by ring
      unfold stride
      omega
    have hex : ∀ p, ∃ s, 0 ≤ p → p < particles → StaysInStride macroXs lookups p s := fun p => by
      by_cases hrange : 0 ≤ p ∧ p < particles
      · obtain ⟨s, hs⟩ := historyParticle_stays hxs hl hrange.1 (hsmall p hrange.1 hrange.2)
        exact ⟨s, fun _ _ => hs⟩
      · exact ⟨⟨0, []⟩, fun h0 hlt => absurd ⟨h0, hlt⟩ hrange⟩
    choose streams hstreams using hex
    refine ⟨streams, hstreams, fun p q hp0 hp1 hq0 hq1 hne => ?_⟩
    rcases lt_or_gt_of_ne hne with hlt | hlt
    · exact (hstreams p hp0 hp1).disjoint (hstreams q hq0 hq1) (by omega) hlt (hperiod q hq0 hq1)
    · exact ((hstreams q hq0 hq1).disjoint (hstreams p hp0 hp1) (by omega) hlt (hperiod p hp0 hp1)).symm

end particle

theorem drawsApart_iff_ten :
    (∀ (e : ℚ) (m : ℤ), ∃ xs, (fun (e : ℚ) (m : ℤ) => some [e, m, 0, 1, 2]) e m = some xs ∧ xs.length = 5) ∧
      (DrawsApart (fun (e : ℚ) (m : ℤ) => some [e, m, 0, 1, 2]) 34 10 ↔ 10 * (34 : ℤ) * (10 - 1) < 2147483648) :=
  ⟨fun _ _ => ⟨_, rfl, rfl⟩, drawsApart_iff (fun _ _ => ⟨_, rfl, rfl⟩) (by decide) (by decide) (by decide)⟩

/-- 500 lookups for each of the 500000 particles that are the default. -/
theorem not_drawsApart : ¬ DrawsApart (fun (e : ℚ) (m : ℤ) => some [e, m, 0, 1, 2]) 500 500000 := by
  rintro ⟨streams, hstays, -⟩
  obtain ⟨v', hv'⟩ := (hstays 499999 (by decide) (by decide)).1 0
  exact absurd (historyParticle_fits hv') (by decide)

end NuKSM.XSBench
