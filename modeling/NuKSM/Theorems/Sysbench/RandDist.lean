import Mathlib.Algebra.Order.BigOperators.Ring.Finset
import Mathlib.Analysis.SpecialFunctions.Pow.Real
import Mathlib.Tactic.Linarith
import Mathlib.Tactic.Positivity
import NuKSM.Sysbench.RandDist
import NuKSM.Theorems.Sysbench.OptionInts

/-! # The range of the random numbers

Each distribution stays between its bounds: what is converted to `uint32_t` is never negative, and it is less than one
above the largest offset. On the full range `b - a + 1` wraps to zero, which only makes the numbers smaller. -/

namespace NuKSM.Sysbench

variable {K : Type} [Field K]

/-! ### Conversions -/

theorem toDouble_sub {a b : UInt32} (h : a ≤ b) : (toDouble (b - a) : K) = toDouble b - toDouble a := by
  unfold toDouble
  rw [UInt32.toNat_sub_of_le _ _ h, Nat.cast_sub (UInt32.le_iff_toNat_le.mp h)]

theorem foldl_add_eq_sum (f : ℕ → K) (n : ℕ) :
    (List.range n).foldl (fun sum i => sum + f i) 0 = ∑ i ∈ Finset.range n, f i := by
  induction n with
  | zero => rfl
  | succ n ih => rw [List.range_succ, List.foldl_append, ih, Finset.sum_range_succ, List.foldl_cons, List.foldl_nil]

variable [LinearOrder K] [IsStrictOrderedRing K]

theorem toDouble_nonneg (x : UInt32) : (0 : K) ≤ toDouble x := Nat.cast_nonneg _

/-- The successor wraps to zero. -/
theorem toDouble_succ_le (x : UInt32) : (toDouble (x + 1) : K) ≤ toDouble x + 1 := by
  have hnat : (x + 1).toNat ≤ x.toNat + 1 := by
    rw [UInt32.toNat_add]
    exact Nat.mod_le _ _
  unfold toDouble
  exact_mod_cast hnat

section Floor
variable [FloorRing K]

theorem toUInt32?_mem {x : K} {a b : UInt32} (ha : toDouble a ≤ x) (hb : x < toDouble b + 1) :
    ∃ v, toUInt32? x = some v ∧ a ≤ v ∧ v ≤ b := by
  have hx : 0 ≤ x := (toDouble_nonneg a).trans ha
  have hfloor : 0 ≤ ⌊x⌋ := Int.floor_nonneg.mpr hx
  have hlow : (a.toNat : ℤ) ≤ ⌊x⌋ := Int.le_floor.mpr (by exact_mod_cast ha)
  have hhigh : ⌊x⌋ < (b.toNat : ℤ) + 1 := by
    have : (⌊x⌋ : K) < ((b.toNat + 1 : ℤ) : K) := by
      push_cast
      exact (Int.floor_le x).trans_lt hb
    exact_mod_cast this
  have hsize := b.toNat_lt
  have hrange : -1 < x ∧ x < 2 ^ 32 := by
    refine ⟨by linarith, hb.trans_le ?_⟩
    have : (b.toNat : K) + 1 ≤ 2 ^ 32 := by exact_mod_cast hsize
    exact this
  have hnat : (UInt32.ofNat ⌊x⌋.toNat).toNat = ⌊x⌋.toNat := by
    rw [UInt32.toNat_ofNat', Nat.mod_eq_of_lt (by omega)]
  refine ⟨UInt32.ofNat ⌊x⌋.toNat, if_pos hrange, ?_, ?_⟩
  · rw [UInt32.le_iff_toNat_le, hnat]
    omega
  · rw [UInt32.le_iff_toNat_le, hnat]
    omega

/-- The sum of the lower bound and an offset does not wrap. -/
theorem add_toUInt32?_mem {x : K} {a b : UInt32} (hab : a ≤ b) (hx : 0 ≤ x) (hlt : x < toDouble (b - a) + 1) :
    ∃ v, (do return a + (← toUInt32? x)) = some v ∧ a ≤ v ∧ v ≤ b := by
  obtain ⟨v, hv, -, hle⟩ : ∃ v, toUInt32? x = some v ∧ 0 ≤ v ∧ v ≤ b - a := toUInt32?_mem (by simpa [toDouble] using hx) hlt
  have hsub : (b - a).toNat = b.toNat - a.toNat := UInt32.toNat_sub_of_le _ _ hab
  rw [UInt32.le_iff_toNat_le] at hab hle
  have hb := b.toNat_lt
  have hadd : (a + v).toNat = a.toNat + v.toNat := by
    rw [UInt32.toNat_add, Nat.mod_eq_of_lt (by omega)]
  refine ⟨a + v, by simp [hv], ?_, ?_⟩
  · rw [UInt32.le_iff_toNat_le]
    omega
  · rw [UInt32.le_iff_toNat_le]
    omega

end Floor

/-! ### Sums of draws -/

/-- The mean of the draws is a draw. -/
theorem mean_mem {draw : ℕ → K} (hdraw : ∀ i, 0 ≤ draw i ∧ draw i < 1) {n : ℕ} (hn : 1 ≤ n) :
    0 ≤ (∑ i ∈ Finset.range n, draw i) * (1 / n) ∧ (∑ i ∈ Finset.range n, draw i) * (1 / n) < 1 := by
  have hpos : (0 : K) < n := by exact_mod_cast hn
  have hsum : ∑ i ∈ Finset.range n, draw i < n := by
    calc ∑ i ∈ Finset.range n, draw i < ∑ i ∈ Finset.range n, (1 : K) :=
          Finset.sum_lt_sum_of_nonempty ⟨0, Finset.mem_range.mpr hn⟩ fun i _ => (hdraw i).2
      _ = n := by simp
  refine ⟨mul_nonneg (Finset.sum_nonneg fun i _ => (hdraw i).1) (by positivity), ?_⟩
  rwa [mul_one_div, div_lt_one hpos]

/-- A fraction of a range that may have wrapped is an offset into it. -/
theorem mul_succ_mem {u : K} (hu : 0 ≤ u ∧ u < 1) (x : UInt32) :
    0 ≤ u * toDouble (x + 1) ∧ u * toDouble (x + 1) < toDouble x + 1 := by
  have hx : (0 : K) ≤ toDouble x := toDouble_nonneg x
  refine ⟨mul_nonneg hu.1 (toDouble_nonneg _), ?_⟩
  calc u * toDouble (x + 1) ≤ u * (toDouble x + 1) := mul_le_mul_of_nonneg_left (toDouble_succ_le x) hu.1
    _ < 1 * (toDouble x + 1) := mul_lt_mul_of_pos_right hu.2 (by linarith)
    _ = toDouble x + 1 := one_mul _

/-! ### The options -/

/-- Percentages and a number of iterations. A `rand-spec-res` of 100 would divide by zero. -/
structure RandArgs.Valid (args : RandArgs K) : Prop where
  pct : 0 ≤ args.randSpecPct.toInt ∧ args.randSpecPct.toInt ≤ 100
  res : 0 ≤ args.randSpecRes.toInt ∧ args.randSpecRes.toInt ≤ 99
  iter : 1 ≤ args.randSpecIter.toInt

/-- What the distributions need of the precomputed constants. -/
structure RandParams.Valid (p : RandParams K) : Prop where
  iter : 1 ≤ p.randIter.toNat
  iterMult : p.randIterMult = 1 / p.randIter.toNat
  pct : 0 ≤ p.randPctMult ∧ p.randPctMult ≤ 1
  pct2 : p.randPct2Mult = p.randPctMult / 2

theorem sbRandInit_valid {log : K → K} {args : RandArgs K} {p : RandParams K} (hargs : args.Valid)
    (hinit : sbRandInit log args = .ok p) : p.Valid := by
  have hiter : (args.randSpecIter.toUInt32.toNat : ℤ) = _ := toNat_toUInt32 (by linarith [hargs.iter])
  have hpct : (args.randSpecPct.toUInt32.toNat : ℤ) ≤ 100 := (toNat_toUInt32 hargs.pct.1).trans_le hargs.pct.2
  have hpct' : (toDouble args.randSpecPct.toUInt32 : K) ≤ 100 := by
    unfold toDouble
    exact_mod_cast hpct
  have hnonneg : (0 : K) ≤ toDouble args.randSpecPct.toUInt32 := toDouble_nonneg _
  unfold sbRandInit at hinit
  cases hdist : randDist args.randType with
  | error => simp [hdist, bind, Except.bind] at hinit
  | ok dist =>
    simp only [hdist, bind, Except.bind, pure, Except.pure, Except.ok.injEq] at hinit
    subst hinit
    refine ⟨?_, rfl, ⟨by positivity, ?_⟩, ?_⟩
    · have := hargs.iter
      dsimp only
      omega
    · exact (div_le_one (by norm_num)).mpr hpct'
    · dsimp only
      ring

/-! ### The distributions -/

section Range
variable [FloorRing K] {draw : ℕ → K} {a b : UInt32}

theorem sbRandUniform_mem (hdraw : ∀ i, 0 ≤ draw i ∧ draw i < 1) (hab : a ≤ b) :
    ∃ v, sbRandUniform draw a b = some v ∧ a ≤ v ∧ v ≤ b := by
  obtain ⟨hlow, hhigh⟩ := mul_succ_mem (hdraw 0) (b - a)
  rw [toDouble_sub hab] at hhigh
  exact toUInt32?_mem (by linarith) (by linarith)

theorem sbRandGaussian_mem {p : RandParams K} (hp : p.Valid) (hdraw : ∀ i, 0 ≤ draw i ∧ draw i < 1) (hab : a ≤ b) :
    ∃ v, sbRandGaussian p draw a b = some v ∧ a ≤ v ∧ v ≤ b := by
  have hmean : (List.range p.randIter.toNat).foldl (fun sum i => sum + draw i * toDouble (b - a + 1)) 0 * p.randIterMult =
      (∑ i ∈ Finset.range p.randIter.toNat, draw i) * (1 / p.randIter.toNat) * toDouble (b - a + 1) := by
    rw [foldl_add_eq_sum fun i => draw i * toDouble (b - a + 1), ← Finset.sum_mul, hp.iterMult]
    ring
  obtain ⟨hlow, hhigh⟩ := mul_succ_mem (mean_mem hdraw hp.iter) (b - a)
  rw [← hmean] at hlow hhigh
  exact add_toUInt32?_mem hab hlow hhigh

theorem sbRandSpecial_mem {p : RandParams K} (hp : p.Valid) (hdraw : ∀ i, 0 ≤ draw i ∧ draw i < 1) (hab : a ≤ b) :
    ∃ v, sbRandSpecial p draw a b = some v ∧ a ≤ v ∧ v ≤ b := by
  have ht : (0 : K) ≤ toDouble (b - a) := toDouble_nonneg _
  unfold sbRandSpecial
  dsimp only
  split
  · -- The mean of the draws, times the size of the range.
    have hmean := mean_mem (fun i => hdraw (i + 1)) hp.iter
    rw [foldl_add_eq_sum fun i => draw (i + 1), hp.iterMult, mul_right_comm]
    have hlow := mul_nonneg hmean.1 ht
    have hhigh := mul_le_mul_of_nonneg_right hmean.2.le ht
    rw [toDouble_sub hab] at hlow hhigh ⊢
    exact toUInt32?_mem (by linarith) (by linarith)
  · -- A part of the range, in the middle of it.
    rw [hp.pct2]
    have hd := mul_nonneg ht hp.pct.1
    have hd' := mul_le_mul_of_nonneg_left hp.pct.2 ht
    have hres : 0 ≤ draw 0 * (toDouble (b - a) * p.randPctMult + 1) := mul_nonneg (hdraw 0).1 (by linarith)
    have hres' : draw 0 * (toDouble (b - a) * p.randPctMult + 1) < 1 * (toDouble (b - a) * p.randPctMult + 1) :=
      mul_lt_mul_of_pos_right (hdraw 0).2 (by linarith)
    exact add_toUInt32?_mem hab (by linarith) (by linarith)

theorem sbRandPareto_mem {pow : K → K → K} {p : RandParams K}
    (hpow : 0 ≤ pow (draw 0) p.paretoPower ∧ pow (draw 0) p.paretoPower < 1) (hab : a ≤ b) :
    ∃ v, sbRandPareto pow p draw a b = some v ∧ a ≤ v ∧ v ≤ b := by
  obtain ⟨hlow, hhigh⟩ := mul_succ_mem hpow (b - a)
  rw [mul_comm] at hlow hhigh
  exact add_toUInt32?_mem hab hlow hhigh

theorem sbRandDefault_mem {pow : K → K → K} {p : RandParams K} (hp : p.Valid) (hdraw : ∀ i, 0 ≤ draw i ∧ draw i < 1)
    (hpow : 0 ≤ pow (draw 0) p.paretoPower ∧ pow (draw 0) p.paretoPower < 1) (hab : a ≤ b) :
    ∃ v, sbRandDefault pow p draw a b = some v ∧ a ≤ v ∧ v ≤ b := by
  unfold sbRandDefault
  cases p.randType with
  | uniform => exact sbRandUniform_mem hdraw hab
  | gaussian => exact sbRandGaussian_mem hp hdraw hab
  | special => exact sbRandSpecial_mem hp hdraw hab
  | pareto => exact sbRandPareto_mem hpow hab

/-- With valid options every distribution returns a number between the bounds, and no conversion is out of range. -/
theorem sbRand_mem {log : K → K} {pow : K → K → K} {args : RandArgs K} {p : RandParams K} (hargs : args.Valid)
    (hinit : sbRandInit log args = .ok p) (hdraw : ∀ i, 0 ≤ draw i ∧ draw i < 1)
    (hpow : 0 ≤ pow (draw 0) p.paretoPower ∧ pow (draw 0) p.paretoPower < 1) (hab : a ≤ b) :
    (∃ v, sbRandUniform draw a b = some v ∧ a ≤ v ∧ v ≤ b) ∧
    (∃ v, sbRandGaussian p draw a b = some v ∧ a ≤ v ∧ v ≤ b) ∧
    (∃ v, sbRandSpecial p draw a b = some v ∧ a ≤ v ∧ v ≤ b) ∧
    ∃ v, sbRandPareto pow p draw a b = some v ∧ a ≤ v ∧ v ≤ b := by
  have hp : p.Valid := sbRandInit_valid hargs hinit
  exact ⟨sbRandUniform_mem hdraw hab, sbRandGaussian_mem hp hdraw hab, sbRandSpecial_mem hp hdraw hab,
    sbRandPareto_mem hpow hab⟩

end Range

/-- The default options, over the real numbers. -/
noncomputable def defaultRandParams : RandParams ℝ := (sbRandInit Real.log { randParetoH := 0.2 }).toOption.get rfl

theorem sbRand_mem_default :
    (∃ v, sbRandUniform (fun _ => (1 / 2 : ℝ)) 0 4294967295 = some v ∧ 0 ≤ v ∧ v ≤ 4294967295) ∧
    (∃ v, sbRandGaussian defaultRandParams (fun _ => 1 / 2) 0 4294967295 = some v ∧ 0 ≤ v ∧ v ≤ 4294967295) ∧
    (∃ v, sbRandSpecial defaultRandParams (fun _ => 1 / 2) 0 4294967295 = some v ∧ 0 ≤ v ∧ v ≤ 4294967295) ∧
    ∃ v, sbRandPareto (· ^ ·) defaultRandParams (fun _ => 1 / 2) 0 4294967295 = some v ∧ 0 ≤ v ∧ v ≤ 4294967295 := by
  have hpower : 0 < defaultRandParams.paretoPower :=
    div_pos_of_neg_of_neg (Real.log_neg (by norm_num) (by norm_num)) (Real.log_neg (by norm_num) (by norm_num))
  have hargs : RandArgs.Valid ({ randParetoH := 0.2 } : RandArgs ℝ) := ⟨by decide, by decide, by decide⟩
  have hinit : sbRandInit Real.log { randParetoH := 0.2 } = .ok defaultRandParams := rfl
  refine sbRand_mem hargs hinit (fun _ => by norm_num) ⟨by positivity, ?_⟩ (by decide)
  exact Real.rpow_lt_one (by norm_num) (by norm_num) hpower

end NuKSM.Sysbench
