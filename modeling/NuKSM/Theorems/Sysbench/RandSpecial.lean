import NuKSM.Theorems.Sysbench.RandDist

/-! # The central part of the special distribution

The draw that selects the uniform branch of `sb_rand_special` is not small, and the branch maps it to the central part of the
range. So it reaches the low end of the part only where the part is narrow. -/

namespace NuKSM.Sysbench

variable {K : Type} [Field K] [LinearOrder K] [IsStrictOrderedRing K]

/-! ### Draws -/

omit [LinearOrder K] [IsStrictOrderedRing K] in
theorem sbRandUniformDouble_eq (x : UInt64) : (sbRandUniformDouble x : K) = ((x >>> 12).toNat : K) / 2 ^ 52 := by
  rw [sbRandUniformDouble, add_sub_cancel_left]

theorem toNat_fraction (x : UInt64) : (x >>> 12).toNat = x.toNat / 2 ^ 12 := by
  have hshift : (12 : UInt64).toNat % 64 = 12 := rfl
  rw [UInt64.toNat_shiftRight, hshift, Nat.shiftRight_eq_div_pow]

theorem sbRandUniformDouble_mem (x : UInt64) : (0 : K) ≤ sbRandUniformDouble x ∧ (sbRandUniformDouble x : K) < 1 := by
  have hshift : (x >>> 12).toNat < 2 ^ 52 := by
    have hlt := x.toNat_lt
    rw [toNat_fraction]
    omega
  rw [sbRandUniformDouble_eq]
  refine ⟨by positivity, (div_lt_one (by positivity)).mpr ?_⟩
  exact_mod_cast hshift

section Floor
variable [FloorRing K]

/-- Above each number that is not too large there is a draw, less than `2 ^ -52` away. -/
theorem exists_sbRandUniformDouble {l : K} (h0 : 0 ≤ l) (h1 : l ≤ 1 - 1 / 2 ^ 52) :
    ∃ x, l ≤ sbRandUniformDouble x ∧ sbRandUniformDouble x < l + 1 / 2 ^ 52 := by
  have hscale : (0 : K) < 2 ^ 52 := by positivity
  have hnonneg : 0 ≤ ⌈l * 2 ^ 52⌉ := Int.ceil_nonneg (by positivity)
  have hceil : ⌈l * 2 ^ 52⌉ ≤ 2 ^ 52 - 1 := by
    refine Int.ceil_le.mpr ?_
    rw [Int.cast_sub, Int.cast_pow, Int.cast_ofNat, Int.cast_one]
    calc l * 2 ^ 52 ≤ (1 - 1 / 2 ^ 52) * 2 ^ 52 := mul_le_mul_of_nonneg_right h1 hscale.le
      _ = 2 ^ 52 - 1 := by field_simp
  have hbits : (UInt64.ofNat (⌈l * 2 ^ 52⌉.toNat * 2 ^ 12) >>> 12).toNat = ⌈l * 2 ^ 52⌉.toNat := by
    rw [toNat_fraction, UInt64.toNat_ofNat']
    omega
  have hcast : ((⌈l * 2 ^ 52⌉.toNat : ℕ) : K) = (⌈l * 2 ^ 52⌉ : K) := by exact_mod_cast Int.toNat_of_nonneg hnonneg
  refine ⟨UInt64.ofNat (⌈l * 2 ^ 52⌉.toNat * 2 ^ 12), ?_, ?_⟩
  · rw [sbRandUniformDouble_eq, hbits, hcast, le_div_iff₀ hscale]
    exact Int.le_ceil _
  · rw [sbRandUniformDouble_eq, hbits, hcast, div_lt_iff₀ hscale, add_mul, one_div_mul_cancel hscale.ne']
    exact Int.ceil_lt_add_one _

/-- Where draws are mapped to an interval that is not too large, one that is not below `least` is mapped to `n`, if `least` is
mapped below the end of `n` and the interval does not end in `n`: the values of two draws are less than an integer apart. -/
theorem exists_draw_floor {least size base : K} {n : ℤ} (hleast : 0 ≤ least ∧ least ≤ 99 / 100) (hsize : 1 ≤ size ∧ size ≤ 2 ^ 32)
    (hend : n - base ≤ size - 1) (hstart : least * size + base ≤ n + 9999 / 10000) :
    ∃ x, least ≤ sbRandUniformDouble x ∧ ⌊(sbRandUniformDouble x : K) * size + base⌋ = n := by
  have hpos : 0 < size := zero_lt_one.trans_le hsize.1
  have hroom : (n - base) / size ≤ 1 - 1 / 2 ^ 52 := by
    rw [div_le_iff₀ hpos]
    linarith only [hend, hsize.2]
  obtain ⟨x, hx, hx'⟩ := exists_sbRandUniformDouble (le_max_of_le_left hleast.1) (max_le (by linarith only [hleast.2]) hroom)
  have hstep := mul_lt_mul_of_pos_right hx' hpos
  have hlow : n - base ≤ (sbRandUniformDouble x : K) * size := (div_le_iff₀ hpos).mp ((le_max_right _ _).trans hx)
  refine ⟨x, (le_max_left _ _).trans hx, Int.floor_eq_iff.mpr ⟨by linarith only [hlow], ?_⟩⟩
  rcases max_choice least ((n - base) / size) with hmax | hmax <;> rw [hmax] at hstep
  · linarith only [hstep, hstart, hsize.2]
  · rw [add_mul, div_mul_cancel₀ _ hpos.ne'] at hstep
    linarith only [hstep, hsize.2]

/-! ### The uniform branch -/

/-- What the branch makes of a draw, where the range has the length `t`: it is added to the lower bound. -/
def centerOffset (t pct : ℤ) (rnd : K) : K := rnd * (t * pct / (100 : ℕ) + 1) + t * ((100 : ℕ) - pct) / (200 : ℕ)

omit [LinearOrder K] [IsStrictOrderedRing K] [FloorRing K] in
theorem centerOffset_eq (t pct : ℤ) (rnd : K) : centerOffset t pct rnd = rnd * (t * pct / 100 + 1) + t * (100 - pct) / 200 := by
  simp only [centerOffset, Nat.cast_ofNat]

theorem add_toUInt32?_floor {x : K} {a b : UInt32} (hab : a ≤ b) (hx : 0 ≤ x) (hlt : x < toDouble (b - a) + 1) :
    ∃ v, (do return a + (← toUInt32? x)) = some v ∧ (v.toNat : ℤ) = a.toNat + ⌊x⌋ := by
  have hsub : (b - a).toNat = b.toNat - a.toNat := UInt32.toNat_sub_of_le _ _ hab
  have hfloor : 0 ≤ ⌊x⌋ := Int.floor_nonneg.mpr hx
  have hhigh : ⌊x⌋ < ((b - a).toNat : ℤ) + 1 := by
    refine Int.floor_lt.mpr ?_
    push_cast
    exact hlt
  rw [UInt32.le_iff_toNat_le] at hab
  have hb := b.toNat_lt
  have hrange : -1 < x ∧ x < 2 ^ 32 := by
    refine ⟨by linarith, (Int.lt_floor_add_one x).trans_le ?_⟩
    exact_mod_cast (by omega : ⌊x⌋ + 1 ≤ 2 ^ 32)
  refine ⟨a + UInt32.ofNat ⌊x⌋.toNat, by rw [toUInt32?, if_pos hrange]; rfl, ?_⟩
  rw [UInt32.toNat_add, UInt32.toNat_ofNat', Nat.mod_eq_of_lt (by omega : ⌊x⌋.toNat < 2 ^ 32), Nat.mod_eq_of_lt (by omega)]
  omega

/-- The percentages of the options. -/
structure RandArgs.Special (args : RandArgs K) (pct res : ℤ) : Prop where
  pct_eq : args.randSpecPct.toInt = pct
  res_eq : args.randSpecRes.toInt = res
  pct_mem : 1 ≤ pct ∧ pct ≤ 100
  res_mem : 1 ≤ res ∧ res ≤ 99

section special
variable {log : K → K} {args : RandArgs K} {p : RandParams K} {pct res : ℤ} {a b : UInt32}

omit [IsStrictOrderedRing K] in
theorem sbRandInit_special (hargs : args.Special pct res) (hinit : sbRandInit log args = .ok p) :
    p.randPctMult = pct / 100 ∧ p.randPct2Mult = pct / 200 ∧ p.randResMult = 100 / (100 - res) := by
  have hpct : (toDouble args.randSpecPct.toUInt32 : K) = pct := by
    have hnat := toNat_toUInt32 (x := args.randSpecPct) (by linarith [hargs.pct_eq, hargs.pct_mem.1])
    rw [hargs.pct_eq] at hnat
    unfold toDouble
    exact_mod_cast congrArg (Int.cast (R := K)) hnat
  have hres : (toDouble args.randSpecRes.toUInt32 : K) = res := by
    have hnat := toNat_toUInt32 (x := args.randSpecRes) (by linarith [hargs.res_eq, hargs.res_mem.1])
    rw [hargs.res_eq] at hnat
    unfold toDouble
    exact_mod_cast congrArg (Int.cast (R := K)) hnat
  unfold sbRandInit at hinit
  cases hdist : randDist args.randType with
  | error => simp [hdist, bind, Except.bind] at hinit
  | ok dist =>
    simp only [hdist, bind, Except.bind, pure, Except.pure, Except.ok.injEq] at hinit
    subst hinit
    exact ⟨by rw [← hpct], by rw [← hpct], by rw [← hres]⟩

/-- The draws of the branch are the largest ones. -/
theorem takesUniform_iff (hargs : args.Special pct res) (hinit : sbRandInit log args = .ok p) (hab : a < b) (rnd : K) :
    toDouble (b - a) ≤ rnd * (toDouble (b - a) * p.randResMult) ↔ (100 - res) / 100 ≤ rnd := by
  have hpos : (0 : K) < toDouble (b - a) := by
    have hsub := UInt32.toNat_sub_of_le _ _ (UInt32.le_of_lt hab)
    rw [UInt32.lt_iff_toNat_lt] at hab
    unfold toDouble
    exact_mod_cast (by omega : 0 < (b - a).toNat)
  have hres : (0 : K) < 100 - res := by
    have hle := hargs.res_mem.2
    have hcast : ((res : ℤ) : K) ≤ 99 := by exact_mod_cast hle
    linarith
  obtain ⟨-, -, hmult⟩ := sbRandInit_special hargs hinit
  have hswap : rnd * (toDouble (b - a) * (100 / (100 - res))) = rnd * 100 / (100 - res) * toDouble (b - a) := by ring
  rw [hmult, hswap, le_mul_iff_one_le_left hpos, one_le_div hres, div_le_iff₀ (by norm_num)]

theorem sbRandSpecial_uniform (hargs : args.Special pct res) (hinit : sbRandInit log args = .ok p) (hab : a < b) {rnd : K}
    (hrnd : 0 ≤ rnd ∧ rnd < 1) (htakes : toDouble (b - a) ≤ rnd * (toDouble (b - a) * p.randResMult)) :
    ∃ v, sbRandSpecial p (fun _ => rnd) a b = some v ∧
      (v.toNat : ℤ) = a.toNat + ⌊centerOffset ((b - a).toNat : ℤ) pct rnd⌋ := by
  obtain ⟨hpct, hpct2, -⟩ := sbRandInit_special hargs hinit
  have hoffset : rnd * (toDouble (b - a) * p.randPctMult + 1) + (toDouble (b - a) / 2 - toDouble (b - a) * p.randPct2Mult) =
      centerOffset ((b - a).toNat : ℤ) pct rnd := by
    rw [hpct, hpct2, centerOffset_eq, toDouble]
    push_cast
    ring
  have hlow : (1 : K) ≤ pct := by exact_mod_cast hargs.pct_mem.1
  have hhigh : (pct : K) ≤ 100 := by exact_mod_cast hargs.pct_mem.2
  have ht : (0 : K) ≤ toDouble (b - a) := toDouble_nonneg _
  have hd : 0 ≤ toDouble (b - a) * (pct / 100 : K) := by positivity
  have hd' : toDouble (b - a) * (pct / 100 : K) ≤ toDouble (b - a) := by
    exact mul_le_of_le_one_right ht ((div_le_one (by norm_num)).mpr hhigh)
  have hmap : 0 ≤ rnd * (toDouble (b - a) * (pct / 100) + 1) := mul_nonneg hrnd.1 (by linarith)
  have hmap' : rnd * (toDouble (b - a) * (pct / 100) + 1) < 1 * (toDouble (b - a) * (pct / 100) + 1) :=
    mul_lt_mul_of_pos_right hrnd.2 (by linarith)
  unfold sbRandSpecial
  dsimp only
  rw [if_neg (not_lt.mpr htakes), hoffset]
  refine add_toUInt32?_floor (UInt32.le_of_lt hab) ?_ ?_ <;> rw [← hoffset, hpct, hpct2]
  · linarith
  · linarith

/-! ### The central part -/

/-- Every integer of the central part, of which `d` is the size, is what the branch adds to the lower bound for one of its
draws. -/
def ReachesCenter (p : RandParams K) (a b : UInt32) : Prop :=
  let t : K := toDouble (b - a)
  let d := t * p.randPctMult
  ∀ n : ℤ, ⌊t / (2 : ℕ) - d / (2 : ℕ)⌋ ≤ n → n ≤ ⌊t / (2 : ℕ) + d / (2 : ℕ)⌋ → ∃ (x : UInt64) (v : UInt32),
    t ≤ sbRandUniformDouble x * (t * p.randResMult) ∧ sbRandSpecial p (fun _ => sbRandUniformDouble x) a b = some v ∧
      (v.toNat : ℤ) = a.toNat + n

/-- The branch gets to the offsets that its draws make. -/
theorem reachesCenter_iff_offset (hargs : args.Special pct res) (hinit : sbRandInit log args = .ok p) (hab : a < b) :
    ReachesCenter p a b ↔ ∀ n : ℤ, ⌊(((b - a).toNat * (100 - pct) : ℤ) : K) / 200⌋ ≤ n →
      n ≤ ⌊(((b - a).toNat * (100 + pct) : ℤ) : K) / 200⌋ →
      ∃ x, (100 - res) / 100 ≤ (sbRandUniformDouble x : K) ∧
        ⌊centerOffset ((b - a).toNat : ℤ) pct (sbRandUniformDouble x : K)⌋ = n := by
  obtain ⟨hpct, -, -⟩ := sbRandInit_special hargs hinit
  have hlow : toDouble (b - a) / 2 - toDouble (b - a) * p.randPctMult / 2 = (((b - a).toNat * (100 - pct) : ℤ) : K) / 200 := by
    rw [hpct, toDouble]
    push_cast
    ring
  have hhigh : toDouble (b - a) / 2 + toDouble (b - a) * p.randPctMult / 2 = (((b - a).toNat * (100 + pct) : ℤ) : K) / 200 := by
    rw [hpct, toDouble]
    push_cast
    ring
  simp only [ReachesCenter, Nat.cast_ofNat]
  rw [hlow, hhigh]
  refine forall_congr' fun n => imp_congr Iff.rfl (imp_congr Iff.rfl (exists_congr fun x => ?_))
  constructor
  · rintro ⟨v, htakes, hspecial, hv⟩
    obtain ⟨v', hspecial', hv'⟩ := sbRandSpecial_uniform hargs hinit hab (sbRandUniformDouble_mem x) htakes
    obtain rfl := Option.some.inj (hspecial.symm.trans hspecial')
    exact ⟨(takesUniform_iff hargs hinit hab _).mp htakes, by omega⟩
  · rintro ⟨htakes, hfloor⟩
    have htakes := (takesUniform_iff hargs hinit hab _).mpr htakes
    obtain ⟨v, hspecial, hv⟩ := sbRandSpecial_uniform hargs hinit hab (sbRandUniformDouble_mem x) htakes
    exact ⟨v, htakes, hspecial, hfloor ▸ hv⟩

theorem floor_div_200 (c : ℤ) : ⌊(c : K) / 200⌋ = c / 200 ∧ (c : K) / 200 = (c / 200 : ℤ) + ((c % 200 : ℤ) : K) / 200 := by
  have hsplit : (c : K) = 200 * (c / 200 : ℤ) + (c % 200 : ℤ) := by exact_mod_cast (Int.mul_ediv_add_emod c 200).symm
  have hvalue : (c : K) / 200 = (c / 200 : ℤ) + ((c % 200 : ℤ) : K) / 200 := by
    rw [hsplit]
    ring
  have hnonneg : (0 : K) ≤ ((c % 200 : ℤ) : K) := by exact_mod_cast Int.emod_nonneg c (by norm_num)
  have hlt : ((c % 200 : ℤ) : K) < 200 := by exact_mod_cast Int.emod_lt_of_pos c (by norm_num)
  refine ⟨Int.floor_eq_iff.mpr ⟨?_, ?_⟩, hvalue⟩ <;> rw [hvalue]
  · linarith [div_nonneg hnonneg (by norm_num : (0 : K) ≤ 200)]
  · linarith [(div_lt_one (by norm_num : (0 : K) < 200)).mpr hlt]

/-- The least draw of the branch has to be mapped to the first integer of the part. In percent of percent, these are the fraction
that the part begins with and what the draw adds to it. -/
theorem ReachesCenter.narrow (hargs : args.Special pct res) (hinit : sbRandInit log args = .ok p) (hab : a < b)
    (h : ReachesCenter p a b) : 50 * ((b - a).toNat * (100 - pct) % 200) + (100 - res) * ((b - a).toNat * pct + 100) < 10000 := by
  obtain ⟨hfloor, hsplit⟩ := floor_div_200 (K := K) ((b - a).toNat * (100 - pct))
  have hpart : ((b - a).toNat * (100 - pct) : ℤ) ≤ (b - a).toNat * (100 + pct) :=
    mul_le_mul_of_nonneg_left (by linarith [hargs.pct_mem.1]) (Int.natCast_nonneg _)
  have hpart' : (((b - a).toNat * (100 - pct) : ℤ) : K) / 200 ≤ (((b - a).toNat * (100 + pct) : ℤ) : K) / 200 := by
    gcongr
  obtain ⟨x, htakes, hx⟩ := (reachesCenter_iff_offset hargs hinit hab).mp h _ le_rfl (Int.floor_le_floor hpart')
  have hlt := (Int.floor_eq_iff.mp hx).2
  rw [hfloor] at hlt
  have hsize : (0 : K) ≤ ((b - a).toNat : ℤ) * pct / 100 + 1 := by
    have hpct : (0 : K) ≤ pct := by exact_mod_cast (zero_le_one.trans hargs.pct_mem.1)
    positivity
  have hleast := mul_le_mul_of_nonneg_right htakes hsize
  have hvalue : (((b - a).toNat : ℤ) : K) * (100 - pct) / 200 = (((b - a).toNat * (100 - pct) : ℤ) : K) / 200 := by
    push_cast
    ring
  rw [centerOffset_eq, hvalue, hsplit] at hlt
  have hreal : ((50 * ((b - a).toNat * (100 - pct) % 200) + (100 - res) * ((b - a).toNat * pct + 100) : ℤ) : K) < (10000 : ℤ) := by
    push_cast at hlt hleast ⊢
    linarith
  exact_mod_cast hreal

/-- Where the least draw is mapped so, each integer has a draw that is mapped to it: between the values of two draws there is
not a whole integer. -/
theorem reachesCenter_of_narrow (hargs : args.Special pct res) (hinit : sbRandInit log args = .ok p) (hab : a < b)
    (h : 50 * ((b - a).toNat * (100 - pct) % 200) + (100 - res) * ((b - a).toNat * pct + 100) < 10000) : ReachesCenter p a b := by
  obtain ⟨hfloor, hsplit⟩ := floor_div_200 (K := K) ((b - a).toNat * (100 - pct))
  refine (reachesCenter_iff_offset hargs hinit hab).mpr fun n hlow hhigh => ?_
  rw [hfloor] at hlow
  have hpct : (1 : K) ≤ pct ∧ (pct : K) ≤ 100 := ⟨by exact_mod_cast hargs.pct_mem.1, by exact_mod_cast hargs.pct_mem.2⟩
  have hres : (1 : K) ≤ res ∧ (res : K) ≤ 99 := ⟨by exact_mod_cast hargs.res_mem.1, by exact_mod_cast hargs.res_mem.2⟩
  have hlength : (0 : K) ≤ ((b - a).toNat : ℤ) ∧ (((b - a).toNat : ℤ) : K) ≤ 2 ^ 32 - 1 := by
    have hlt := (b - a).toNat_lt
    exact ⟨by positivity, by exact_mod_cast (by omega : ((b - a).toNat : ℤ) ≤ 2 ^ 32 - 1)⟩
  have hpart : 0 ≤ (((b - a).toNat : ℤ) : K) * pct ∧ (((b - a).toNat : ℤ) : K) * pct ≤ ((b - a).toNat : ℤ) * 100 :=
    ⟨mul_nonneg hlength.1 (by linarith), mul_le_mul_of_nonneg_left hpct.2 hlength.1⟩
  have hend : (n : K) - (((b - a).toNat * (100 - pct) : ℤ) : K) / 200 ≤ ((b - a).toNat : ℤ) * pct / 100 + 1 - 1 := by
    have hle := Int.le_floor.mp hhigh
    push_cast at hle ⊢
    linarith
  have hstart : (100 - res : K) / 100 * (((b - a).toNat : ℤ) * pct / 100 + 1) + (((b - a).toNat * (100 - pct) : ℤ) : K) / 200 ≤
      n + 9999 / 10000 := by
    have hfirst : (((b - a).toNat * (100 - pct) / 200 : ℤ) : K) ≤ n := by exact_mod_cast hlow
    have hreal : ((50 * ((b - a).toNat * (100 - pct) % 200) + (100 - res) * ((b - a).toNat * pct + 100) : ℤ) : K) ≤
        (9999 : ℤ) := by exact_mod_cast Int.le_sub_one_of_lt h
    rw [hsplit]
    push_cast at hreal hfirst ⊢
    linarith
  obtain ⟨x, hx, hfloor⟩ := exists_draw_floor ⟨by linarith, by linarith⟩ ⟨by linarith, by linarith [hlength.2]⟩ hend hstart
  refine ⟨x, hx, ?_⟩
  rw [← hfloor, centerOffset_eq]
  push_cast
  rfl

/-- The branch reaches the whole part exactly if the part and the range are so small that its least draw is mapped to the first
integer. -/
theorem reachesCenter_iff (hargs : args.Special pct res) (hinit : sbRandInit log args = .ok p) (hab : a < b) :
    ReachesCenter p a b ↔
      50 * ((b - a).toNat * (100 - pct) % 200) + (100 - res) * ((b - a).toNat * pct + 100) < 10000 :=
  ⟨ReachesCenter.narrow hargs hinit hab, reachesCenter_of_narrow hargs hinit hab⟩

end special

end Floor

/-- The default percentages, over the real numbers. -/
theorem defaultRandParams_special : RandArgs.Special ({ randParetoH := 0.2 } : RandArgs ℝ) 1 75 ∧
    sbRandInit Real.log { randParetoH := 0.2 } = .ok defaultRandParams :=
  ⟨⟨by decide, by decide, by decide, by decide⟩, rfl⟩

/-- With them a range of two numbers has its whole central part, of which nothing is left out. -/
theorem reachesCenter_iff_two : ReachesCenter defaultRandParams 1 2 ↔
    50 * (((2 - 1 : UInt32).toNat : ℤ) * (100 - 1) % 200) + (100 - 75) * ((2 - 1 : UInt32).toNat * 1 + 100) < 10000 :=
  reachesCenter_iff defaultRandParams_special.1 defaultRandParams_special.2 (by decide)

/-- Of the numbers from 1 to 10000 the central part begins with 4950, which is not reached. -/
theorem not_reachesCenter : ¬ReachesCenter defaultRandParams 1 10000 := fun h =>
  absurd (h.narrow defaultRandParams_special.1 defaultRandParams_special.2 (by decide)) (by decide)

end NuKSM.Sysbench
