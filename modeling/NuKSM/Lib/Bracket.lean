import Mathlib

/-! # The cell of a point in a sorted grid

A query lies in the cell `r` of a grid when the grid points `r` and `r + 1` bracket it, where the first cell also
takes what lies in front of the grid and the last cell what lies behind it. Bisection finds this cell, and so
does a sweep that runs through a finer grid and moves forward at most one cell for each of its points. -/

namespace NuKSM
variable {α : Type} [LinearOrder α]

/-- `r` is the cell of `q` among the grid points `lo, …, hi`. -/
structure Brackets (E : ℤ → α) (lo hi : ℤ) (q : α) (r : ℤ) : Prop where
  lo_le : lo ≤ r
  lt_hi : r < hi
  below : r = lo ∨ E r ≤ q
  above : r + 1 = hi ∨ q < E (r + 1)

namespace Brackets
variable {E : ℤ → α} {lo hi lo' hi' r r' : ℤ} {q q' : α}

/-- A larger query has no smaller cell. -/
theorem mono (hE : MonotoneOn E (Set.Icc lo hi)) (h : Brackets E lo hi q r) (h' : Brackets E lo hi q' r')
    (hq : q ≤ q') : r ≤ r' := by
  by_contra hlt
  have hlo := h'.lo_le
  have hhi := h.lt_hi
  have hbelow : E r ≤ q := h.below.resolve_left (by omega)
  have habove : q' < E (r' + 1) := h'.above.resolve_left (by omega)
  have hle : E (r' + 1) ≤ E r := hE ⟨by omega, by omega⟩ ⟨by omega, by omega⟩ (by omega)
  exact absurd (lt_of_lt_of_le habove (hle.trans (hbelow.trans hq))) (lt_irrefl q')

theorem unique (hE : MonotoneOn E (Set.Icc lo hi)) (h : Brackets E lo hi q r) (h' : Brackets E lo hi q r') :
    r = r' :=
  le_antisymm (mono hE h h' le_rfl) (mono hE h' h le_rfl)

/-- The cell of a query in a grid is its cell in each part of the grid that has this cell. -/
theorem narrow (h : Brackets E lo hi q r) (hlo : lo ≤ lo') (hlo' : lo' ≤ r) (hhi : hi' ≤ hi) (hhi' : r < hi') :
    Brackets E lo' hi' q r where
  lo_le := hlo'
  lt_hi := hhi'
  below := by
    rcases h.below with h | h
    · exact Or.inl (by omega)
    · exact Or.inr h
  above := by
    rcases h.above with h | h
    · exact Or.inl (by omega)
    · exact Or.inr h

end Brackets

/-! ### Bisection -/

/-- Bisection of the cells from `lo` to `hi` by the test whether a grid point lies above the query. -/
def bisect (above : ℤ → Option Bool) : (fuel : ℕ) → (lo hi : ℤ) → Option ℤ
  | fuel, lo, hi =>
    if hi - lo > 1 then
      match fuel with
      | 0 => none
      | fuel + 1 => do
        if ← above (lo + (hi - lo) / 2) then bisect above fuel lo (lo + (hi - lo) / 2)
        else bisect above fuel (lo + (hi - lo) / 2) hi
    else some lo

/-- Without a grid point between the bounds nothing is read. -/
theorem bisect_empty {above : ℤ → Option Bool} {fuel : ℕ} {lo hi : ℤ} (h : hi - lo ≤ 1) :
    bisect above fuel lo hi = some lo := by
  unfold bisect
  rw [if_neg (by omega)]

/-- Bisection reads strictly between its bounds and ends in the cell of the query; the grid need not be sorted
for that. -/
theorem bisect_brackets {E : ℤ → α} {q : α} {above : ℤ → Option Bool} {fuel : ℕ} :
    ∀ lo hi : ℤ, (∀ i, lo < i → i < hi → above i = some (decide (q < E i))) → lo < hi → hi - lo ≤ fuel →
      ∃ r, bisect above fuel lo hi = some r ∧ Brackets E lo hi q r := by
  induction fuel with
  | zero => exact fun _ _ _ hlt hfuel => by omega
  | succ fuel ih =>
    intro lo hi hread hlt hfuel
    unfold bisect
    by_cases hlen : hi - lo > 1
    · rw [if_pos hlen]
      have hmid : lo < lo + (hi - lo) / 2 ∧ lo + (hi - lo) / 2 < hi := by omega
      generalize lo + (hi - lo) / 2 = mid at hmid
      by_cases hq : q < E mid
      · obtain ⟨r, hrun, hr⟩ := ih lo mid (fun i h h' => hread i h (by omega)) hmid.1 (by omega)
        refine ⟨r, by simpa [hread mid hmid.1 hmid.2, hq] using hrun, hr.lo_le, by have := hr.lt_hi; omega, hr.below, ?_⟩
        rcases hr.above with h | h
        · exact Or.inr (h ▸ hq)
        · exact Or.inr h
      · obtain ⟨r, hrun, hr⟩ := ih mid hi (fun i h h' => hread i (by omega) h') hmid.2 (by omega)
        refine ⟨r, by simpa [hread mid hmid.1 hmid.2, hq] using hrun, by have := hr.lo_le; omega, hr.lt_hi, ?_, hr.above⟩
        rcases hr.below with h | h
        · exact Or.inr (h ▸ not_lt.mp hq)
        · exact Or.inr h
    · rw [if_neg hlen]
      exact ⟨lo, rfl, le_rfl, hlt, Or.inl rfl, Or.inl (by omega)⟩

/-- The places that bisection examines, in this order. -/
def bisectReads (above : ℤ → Option Bool) : (fuel : ℕ) → (lo hi : ℤ) → List ℤ
  | fuel, lo, hi =>
    if hi - lo > 1 then
      match fuel with
      | 0 => []
      | fuel + 1 =>
        (lo + (hi - lo) / 2) ::
          match above (lo + (hi - lo) / 2) with
          | none => []
          | some true => bisectReads above fuel lo (lo + (hi - lo) / 2)
          | some false => bisectReads above fuel (lo + (hi - lo) / 2) hi
    else []

theorem bisectReads_empty {above : ℤ → Option Bool} {fuel : ℕ} {lo hi : ℤ} (h : hi - lo ≤ 1) :
    bisectReads above fuel lo hi = [] := by
  unfold bisectReads
  rw [if_neg (by omega)]

theorem bisectReads_between {above : ℤ → Option Bool} {fuel : ℕ} {i : ℤ} :
    ∀ {lo hi : ℤ}, i ∈ bisectReads above fuel lo hi → lo < i ∧ i < hi := by
  induction fuel with
  | zero =>
    intro lo hi h
    unfold bisectReads at h
    split at h <;> simp at h
  | succ fuel ih =>
    intro lo hi h
    unfold bisectReads at h
    split at h
    case isFalse => simp at h
    case isTrue hlen =>
      have hmid : lo < lo + (hi - lo) / 2 ∧ lo + (hi - lo) / 2 < hi := by omega
      generalize lo + (hi - lo) / 2 = mid at h hmid
      rcases List.mem_cons.mp h with rfl | h
      · exact hmid
      · split at h
        · simp at h
        · have := ih h
          omega
        · have := ih h
          omega

/-- Bisection depends on no other place. -/
theorem bisect_congr {above above' : ℤ → Option Bool} {fuel : ℕ} :
    ∀ {lo hi : ℤ}, (∀ i ∈ bisectReads above fuel lo hi, above' i = above i) →
      bisect above' fuel lo hi = bisect above fuel lo hi := by
  induction fuel with
  | zero =>
    intro lo hi _
    unfold bisect
    rfl
  | succ fuel ih =>
    intro lo hi hread
    unfold bisectReads at hread
    unfold bisect
    by_cases hlen : hi - lo > 1
    · rw [if_pos hlen] at hread ⊢
      rw [if_pos hlen]
      have hmid := hread _ List.mem_cons_self
      have hrest := fun i h => hread i (List.mem_cons_of_mem _ h)
      rw [hmid]
      cases hab : above (lo + (hi - lo) / 2) with
      | none => rfl
      | some b =>
        rw [hab] at hrest
        cases b with
        | true => exact ih hrest
        | false => exact ih hrest
    · rw [if_neg hlen, if_neg hlen]

/-! ### A sweep through a finer grid -/

/-- The points of `U` before `len` are sorted and contain the grid points `0, …, top` of `E`. -/
structure Covers (U : ℤ → α) (len : ℤ) (E : ℤ → α) (top : ℤ) : Prop where
  mono : MonotoneOn U (Set.Ico 0 len)
  strict : StrictMonoOn E (Set.Icc 0 top)
  hits : ∀ j, 0 ≤ j → j ≤ top → ∃ k, 0 ≤ k ∧ k < len ∧ U k = E j

/-- The sweep stands at the cell `m` of `E` after the first `k` points of `U`. -/
structure Swept (U E : ℤ → α) (top k m : ℤ) : Prop where
  nonneg : 0 ≤ m
  lt_top : m < top
  reached : m = 0 ∨ ∃ j, 0 ≤ j ∧ j < k ∧ E m ≤ U j
  ahead : m + 1 = top ∨ ∀ j, 0 ≤ j → j < k → U j < E (m + 1)

section sweep
variable {U E : ℤ → α} {len top k m u : ℤ} {q : α}

theorem Swept.zero (h : 0 < top) : Swept U E top 0 0 :=
  ⟨le_rfl, h, Or.inl rfl, Or.inr fun _ _ _ => by omega⟩

theorem Swept.reached_succ (h : Swept U E top k m) : m = 0 ∨ ∃ j, 0 ≤ j ∧ j < k + 1 ∧ E m ≤ U j :=
  h.reached.imp_right fun ⟨j, h0, hj, hle⟩ => ⟨j, h0, by omega, hle⟩

/-- The next point lies in front of the next grid point. -/
theorem Swept.stay (h : Swept U E top k m) (hU : U k < E (m + 1)) : Swept U E top (k + 1) m where
  nonneg := h.nonneg
  lt_top := h.lt_top
  reached := h.reached_succ
  ahead := h.ahead.imp_right fun hall j h0 hj => by
    rcases eq_or_ne j k with rfl | hne
    · exact hU
    · exact hall j h0 (by omega)

/-- The last cell is never left. -/
theorem Swept.stay_top (h : Swept U E top k m) (hm : m + 1 = top) : Swept U E top (k + 1) m :=
  ⟨h.nonneg, h.lt_top, h.reached_succ, Or.inl hm⟩

/-- One step forward is enough: the grid point that is passed is itself a point of `U`, so no point before this one
reaches it. -/
theorem Swept.advance (hc : Covers U len E top) (h : Swept U E top k m) (h0 : 0 ≤ k) (hk : k < len)
    (hm : m + 1 ≠ top) (hU : E (m + 1) ≤ U k) : Swept U E top (k + 1) (m + 1) where
  nonneg := by have := h.nonneg; omega
  lt_top := by have := h.lt_top; omega
  reached := Or.inr ⟨k, h0, by omega, hU⟩
  ahead := by
    have hnonneg := h.nonneg
    have hlt := h.lt_top
    obtain ⟨v, hv0, hvl, hv⟩ := hc.hits (m + 1) (by omega) (by omega)
    have hkv : k ≤ v := by
      by_contra hlt
      exact absurd (h.ahead.resolve_left hm v hv0 (by omega)) (by rw [hv]; exact lt_irrefl _)
    refine Or.inr fun j hj0 hj => ?_
    calc U j ≤ U v := hc.mono ⟨hj0, by omega⟩ ⟨hv0, hvl⟩ (by omega)
      _ = E (m + 1) := hv
      _ < E (m + 1 + 1) := hc.strict ⟨by omega, by omega⟩ ⟨by omega, by omega⟩ (by omega)

/-- The sweep stands at the cell of the last point that it has seen. -/
theorem Swept.brackets (hc : Covers U len E top) (h : Swept U E top (k + 1) m) (h0 : 0 ≤ k) (hk : k < len) :
    Brackets E 0 top (U k) m where
  lo_le := h.nonneg
  lt_hi := h.lt_top
  below := h.reached.imp_right fun ⟨j, hj0, hj, hle⟩ =>
    hle.trans (hc.mono ⟨hj0, by omega⟩ ⟨h0, hk⟩ (by omega))
  above := h.ahead.imp_right fun hall => hall k h0 (by omega)

/-- A query has the cell of the last point of the finer grid that it reaches. -/
theorem Brackets.through (hc : Covers U len E top) (hu : Brackets U 0 (len - 1) q u)
    (hm : Brackets E 0 top (U u) m) : Brackets E 0 top q m where
  lo_le := hm.lo_le
  lt_hi := hm.lt_hi
  below := by
    have hu0 := hu.lo_le
    have hul := hu.lt_hi
    have hm0 := hm.lo_le
    have hmt := hm.lt_hi
    rcases hm.below with h | h
    · exact Or.inl h
    rcases hu.below with rfl | hq
    · -- The first point of the finer grid is the first grid point, so only the first cell reaches it.
      refine Or.inl (by_contra fun hne => ?_)
      obtain ⟨v, hv0, hvl, hv⟩ := hc.hits 0 le_rfl (by omega)
      have hfirst : U 0 ≤ U v := hc.mono ⟨le_rfl, by omega⟩ ⟨hv0, hvl⟩ hv0
      have hlt : E 0 < E m := hc.strict ⟨le_rfl, by omega⟩ ⟨hm0, by omega⟩ (by omega)
      exact absurd (hlt.trans_le (h.trans (hfirst.trans_eq hv))) (lt_irrefl _)
    · exact Or.inr (h.trans hq)
  above := by
    have hu0 := hu.lo_le
    have hul := hu.lt_hi
    have hm0 := hm.lo_le
    have hmt := hm.lt_hi
    by_cases htop : m + 1 = top
    · exact Or.inl htop
    have h := hm.above.resolve_left htop
    obtain ⟨v, hv0, hvl, hv⟩ := hc.hits (m + 1) (by omega) (by omega)
    have huv : u < v := by
      by_contra hle
      have : U v ≤ U u := hc.mono ⟨hv0, hvl⟩ ⟨hu0, by omega⟩ (by omega)
      exact absurd (h.trans_le (hv.symm.trans_le this)) (lt_irrefl _)
    rcases hu.above with hlast | hq
    · -- The last point of the finer grid is the last grid point, which lies behind the grid point `m + 1`.
      obtain ⟨w, hw0, hwl, hw⟩ := hc.hits top (by omega) le_rfl
      have hlt : E (m + 1) < E top := hc.strict ⟨by omega, by omega⟩ ⟨by omega, le_rfl⟩ (by omega)
      have : U w ≤ U v := hc.mono ⟨hw0, hwl⟩ ⟨hv0, hvl⟩ (by omega)
      rw [hw, hv] at this
      exact absurd (hlt.trans_le this) (lt_irrefl _)
    · exact Or.inr (hq.trans_le ((hc.mono ⟨by omega, by omega⟩ ⟨hv0, hvl⟩ (by omega)).trans_eq hv))

end sweep

end NuKSM
