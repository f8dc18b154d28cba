import NuKSM.Theorems.XSBench.Unionized

/-! # The hash lookup

The window that the hash lookup takes from two neighbouring bins always contains the cell of the query. The search
in the window therefore agrees with the search in the whole grid, but the test `p_energy <= e_low` in front of it
gives the first cell to a query that meets the lower end of its window. -/

namespace NuKSM.XSBench
variable {input : Inputs} {nuc : ℤ}

/-! ### The index grid of the bins -/

section build
variable {E : Type} [LinearOrder E] {grid : List (NuclideGridPoint E)} {A : ℤ → ℤ → E}
  {sampled : ℕ → NuclideGridPoint E} {drawn : ℕ → E} {SD : SimulationData E}

theorem gridInitFrom_hash [HashArith E] (h : gridInitFrom sampled drawn { input with gridType := .hash } = some SD) :
    initHashGrid input SD.nuclideGrid (input.hashBins * input.nIsotopes) = some SD.indexGrid := by
  obtain ⟨-, -, hlen, hI⟩ := (gridInitFrom_built h).indexGrids
  exact hlen ▸ hI

theorem nGridpoints_lt (hN : 1 ≤ input.nIsotopes) (hn : 1 ≤ input.nGridpoints)
    (hfit : input.nIsotopes * input.nGridpoints < 2 ^ 31) : input.nGridpoints < 2 ^ 31 :=
  lt_of_le_of_lt (le_mul_of_one_le_left (by omega) hN) hfit

/-- Each entry is the cell of the lower energy of its bin. -/
theorem initHashGrid_total [HashArith E] (hN : 1 ≤ input.nIsotopes) (hn : 2 ≤ input.nGridpoints)
    (hfit : input.nIsotopes * input.nGridpoints < 2 ^ 31) (hb : 0 ≤ input.hashBins) (hA : HasEnergies input grid A) :
    ∃ indexGrid, initHashGrid input grid (input.hashBins * input.nIsotopes) = some indexGrid ∧
      ∀ e i, 0 ≤ e → e < input.hashBins → 0 ≤ i → i < input.nIsotopes →
        ∃ x, peek indexGrid (e * input.nIsotopes + i) = some x ∧ ∃ m, x = some m ∧
          Brackets (A i) 0 (input.nGridpoints - 1) (HashArith.binEnergy input.hashBins e) m := by
  have hn31 := nGridpoints_lt hN (by omega) hfit
  obtain ⟨fresh, hfresh, hlen, -⟩ := allocate_eq_some (none : Option ℤ) (mul_nonneg hb (show 0 ≤ input.nIsotopes by omega))
  simp only [initHashGrid, hfresh, Option.bind_eq_bind, Option.bind_some]
  refine fill_total hb (by omega) hlen fun e i he0 he hi0 hi => ?_
  obtain ⟨m, hm, hcell⟩ := gridSearchNuclide_brackets hA hi0 hi (HashArith.binEnergy input.hashBins e) le_rfl
    (show 0 < input.nGridpoints - 1 by omega) (by omega)
  refine ⟨some m, ⟨m, rfl, hcell⟩, fun B => ?_⟩
  rw [hm, Option.bind_some, toInt_eq hcell.lo_le (by have := hcell.lt_hi; omega)]

/-! ### A window of the search -/

/-- Where the window of the hash lookup contains the cell of the query, the lookup ends in this cell, or in the first
one if the query does not lie above the window's lower end. -/
theorem microLow_hash {q : E} {idx uLow uHigh r : ℤ} (hN : 1 ≤ input.nIsotopes) (hn : 2 ≤ input.nGridpoints)
    (hfit : input.nIsotopes * input.nGridpoints < 2 ^ 31) (hA : HasEnergies input SD.nuclideGrid A)
    (hmono : MonotoneOn (A nuc) (Set.Icc 0 (input.nGridpoints - 1)))
    (h0 : 0 ≤ nuc) (h : nuc < input.nIsotopes)
    (hlow : peek SD.indexGrid (idx * input.nIsotopes + nuc) = some (some uLow))
    (hhigh : idx = input.hashBins - 1 ∧ uHigh = input.nGridpoints - 1 ∨
      idx ≠ input.hashBins - 1 ∧ peek SD.indexGrid ((idx + 1) * input.nIsotopes + nuc) = some (some (uHigh - 1)))
    (hlow0 : 0 ≤ uLow) (hlowr : uLow ≤ r) (hrhigh : r < uHigh) (hhigh1 : uHigh ≤ input.nGridpoints - 1)
    (hcell : Brackets (A nuc) 0 (input.nGridpoints - 1) q r) :
    microLow { input with gridType := .hash } SD q nuc idx =
      some (nuc * input.nGridpoints + if q ≤ A nuc uLow then 0 else r) := by
  have hn31 := nGridpoints_lt hN (by omega) hfit
  have hread : hashHigh input SD nuc idx = some uHigh := by
    unfold hashHigh indexData
    rcases hhigh with ⟨hlast, rfl⟩ | ⟨hlast, hentry⟩
    · rw [if_pos hlast, toInt_eq (by omega) (by omega)]
    · rw [if_neg hlast, hentry]
      simp
  obtain ⟨x, hx, hxE⟩ := Option.map_eq_some_iff.mp (hA nuc uLow h0 h hlow0 (by omega))
  obtain ⟨y, hy, hyE⟩ := Option.map_eq_some_iff.mp (hA nuc uHigh h0 h (by omega) (by omega))
  suffices hlower : ∃ m, hashLower input SD q nuc uLow uHigh x.energy y.energy = some m ∧
      offTheEnd input nuc m = nuc * input.nGridpoints + if q ≤ A nuc uLow then 0 else r by
    obtain ⟨m, hm, hmend⟩ := hlower
    have hindex : indexData SD (idx * input.nIsotopes + nuc) = some uLow := by
      rw [indexData, hlow, Option.join_some]
    change (indexData SD (idx * input.nIsotopes + nuc)).bind _ = _
    rw [hindex, Option.bind_some]
    change (hashHigh input SD nuc idx).bind _ = _
    rw [hread, Option.bind_some, hx]
    change (peek SD.nuclideGrid (nuc * input.nGridpoints + uHigh)).bind _ = _
    rw [hy, Option.bind_some]
    change (hashLower input SD q nuc uLow uHigh x.energy y.energy).bind _ = _
    rw [hm]
    exact congrArg some hmend
  unfold hashLower
  rw [hxE, hyE]
  by_cases hle : q ≤ A nuc uLow
  · rw [if_pos hle, if_pos hle]
    exact ⟨0, rfl, offTheEnd_of_lt (by omega)⟩
  rw [if_neg hle, if_neg hle]
  by_cases hge : q ≥ A nuc uHigh
  · -- Behind the window's upper end the query can only be in the last cell.
    have hlast : r + 1 = input.nGridpoints - 1 := by
      by_contra hne
      have hlt := hcell.above.resolve_left hne
      have := hmono ⟨by omega, by omega⟩ ⟨by omega, hhigh1⟩ (show r + 1 ≤ uHigh by omega)
      exact absurd (hlt.trans_le (this.trans hge)) (lt_irrefl _)
    rw [if_pos hge, toInt_eq (by omega) (by omega)]
    refine ⟨_, rfl, (if_pos rfl).trans ?_⟩
    omega
  · obtain ⟨m, hm, hmcell⟩ := gridSearchNuclide_brackets hA h0 h q hlow0 (show uLow < uHigh by omega) (by omega)
    have hwindow : MonotoneOn (A nuc) (Set.Icc uLow uHigh) := hmono.mono (Set.Icc_subset_Icc hlow0 hhigh1)
    obtain rfl : m = r := hmcell.unique hwindow (hcell.narrow hlow0 hlowr hhigh1 hrhigh)
    rw [if_neg hge, hm, Option.map_some, toInt_eq (by omega) (by have := hcell.lt_hi; omega)]
    exact ⟨m, rfl, offTheEnd_of_lt hcell.lt_hi⟩

/-- The grids are built for exactly those sizes whose number of points fits an `int`. -/
theorem gridInitFrom_isSome_iff [HashArith E] (hN : 1 ≤ input.nIsotopes) (hn : 2 ≤ input.nGridpoints)
    (hb : 0 ≤ input.hashBins) (g : GridType) :
    (gridInitFrom sampled drawn { input with gridType := g }).isSome ↔
      input.nIsotopes * input.nGridpoints < 2 ^ 31 := by
  constructor
  · intro h
    obtain ⟨SD, hSD⟩ := Option.isSome_iff_exists.mp h
    exact (initNuclideGrid_length hN (by omega) (gridInitFrom_nuclideGrid hSD)).1
  · intro hfit
    obtain ⟨grid, hgrid⟩ : ∃ grid, initNuclideGrid sampled input = some grid :=
      initNuclideGrid_isSome hN (by omega) hfit
    have hlen := (initNuclideGrid_length hN (by omega) hgrid).2
    have hpos : 1 ≤ input.nIsotopes * input.nGridpoints := by nlinarith
    obtain ⟨p, -⟩ := exists_peek (A := grid) le_rfl (by omega)
    obtain ⟨A, hA⟩ := exists_hasEnergies hlen p.energy
    have hint := toInt_eq (show 0 ≤ input.nIsotopes * input.nGridpoints by omega) hfit
    change ((initNuclideGrid sampled input).bind _).isSome = true
    rw [hgrid, Option.bind_some]
    cases g with
    | nuclide => rfl
    | unionized =>
      obtain ⟨I, hI⟩ := initIndexGrid_isSome hA (by omega) hn (qsort doubleCompare (grid.map (·.energy)))
      rw [(qsort_perm doubleCompare _).length_eq, List.length_map, hlen] at hI
      have hU : initUnionizedEnergyArray grid grid.length = _ := initUnionizedEnergyArray_eq
      rw [hlen] at hU
      change ((initUnionizedEnergyArray grid (toInt (input.nIsotopes * input.nGridpoints))).bind _).isSome = true
      rw [hint, hU, Option.bind_some]
      change ((initIndexGrid input grid _ _ (_ * input.nIsotopes)).bind _).isSome = true
      rw [hI]
      rfl
    | hash =>
      obtain ⟨I, hI, -⟩ := initHashGrid_total hN hn hfit hb hA
      change ((initHashGrid input grid (input.hashBins * input.nIsotopes)).bind _).isSome = true
      rw [hI]
      rfl

end build

/-! ### Bins in exact arithmetic -/

/-- The bin of an energy. -/
theorem binIndex_eq_floor {bins : ℤ} {q : ℚ} (hq : 0 ≤ q) (hb : 1 ≤ bins) :
    HashArith.binIndex bins q = ⌊q * bins⌋ := by
  have hdiv : q / (1 / bins) = q * bins := by rw [div_div_eq_mul_div, div_one]
  have hnonneg : 0 ≤ q * bins := mul_nonneg hq (by exact_mod_cast (by omega : (0 : ℤ) ≤ bins))
  change (q / (1 / bins)).num.tdiv (q / (1 / bins)).den = _
  rw [hdiv, Int.tdiv_eq_ediv_of_nonneg (Rat.num_nonneg.mpr hnonneg), Rat.floor_def']

theorem binEnergy_eq {bins e : ℤ} : HashArith.binEnergy bins e = (e : ℚ) / bins := by
  change (e : ℚ) * (1 / bins) = _
  rw [mul_one_div]

/-- The bin of an energy in `[0, 1)` and the energies at its ends. -/
theorem bin_bounds {bins : ℤ} {q : ℚ} (hq0 : 0 ≤ q) (hq1 : q < 1) (hb : 1 ≤ bins) :
    0 ≤ ⌊q * bins⌋ ∧ ⌊q * bins⌋ < bins ∧ (⌊q * bins⌋ : ℚ) / bins ≤ q ∧ q < ((⌊q * bins⌋ + 1 : ℤ) : ℚ) / bins := by
  have hpos : (0 : ℚ) < bins := by exact_mod_cast (by omega : (0 : ℤ) < bins)
  refine ⟨Int.floor_nonneg.mpr (by positivity), Int.floor_lt.mpr ?_, ?_, ?_⟩
  · exact mul_lt_of_lt_one_left hpos hq1
  · rw [div_le_iff₀ hpos]
    exact Int.floor_le _
  · rw [lt_div_iff₀ hpos]
    push_cast
    exact Int.lt_floor_add_one _

/-! ### The lookup -/

section lookup
variable {sampled : ℕ → NuclideGridPoint ℚ} {drawn : ℕ → ℚ} {SD : SimulationData ℚ} {A : ℤ → ℤ → ℚ} {q : ℚ}

/-- The hash lookup ends in the cell `r` of the query unless the query is the energy of the point `r ≥ 1` and the
lower end of its bin; then it ends in the first cell. -/
theorem lookupLow_hash (hN : 1 ≤ input.nIsotopes) (hn : 2 ≤ input.nGridpoints) (hb : 1 ≤ input.hashBins)
    (hSD : gridInitFrom sampled drawn { input with gridType := .hash } = some SD)
    (hs : StrictlyIncreasing input SD.nuclideGrid) (hA : HasEnergies input SD.nuclideGrid A)
    (h0 : 0 ≤ nuc) (h : nuc < input.nIsotopes) (hq0 : 0 ≤ q) (hq1 : q < 1) :
    ∃ r, Brackets (A nuc) 0 (input.nGridpoints - 1) q r ∧
      lookupLow { input with gridType := .hash } SD q nuc = some (nuc * input.nGridpoints +
        if 1 ≤ r ∧ A nuc r = q ∧ q * input.hashBins = ⌊q * input.hashBins⌋ then 0 else r) := by
  have hfit := (initNuclideGrid_length hN (by omega) (gridInitFrom_nuclideGrid hSD)).1
  have hstrict := hs.strictMonoOn hA h0 h
  obtain ⟨hb0, hb1, hble, hblt⟩ := bin_bounds hq0 hq1 hb
  have hbpos : (0 : ℚ) < input.hashBins := by exact_mod_cast (by omega : (0 : ℤ) < input.hashBins)
  -- The entries of the bin and of its right neighbour, if it has one.
  obtain ⟨indexGrid, hindex, hentries⟩ := initHashGrid_total hN hn hfit (by omega) hA
  obtain rfl : indexGrid = SD.indexGrid := Option.some.inj (hindex.symm.trans (gridInitFrom_hash hSD))
  obtain ⟨_, hlow, uLow, rfl, hlowcell⟩ := hentries _ nuc hb0 hb1 h0 h
  rw [binEnergy_eq] at hlowcell
  obtain ⟨r, -, hcell⟩ := gridSearchNuclide_brackets hA h0 h q le_rfl (show 0 < input.nGridpoints - 1 by omega) (by omega)
  have hlowr := hlowcell.mono hstrict.monotoneOn hcell hble
  have hwindow : ∃ uHigh, (⌊q * input.hashBins⌋ = input.hashBins - 1 ∧ uHigh = input.nGridpoints - 1 ∨
      ⌊q * input.hashBins⌋ ≠ input.hashBins - 1 ∧
        peek SD.indexGrid ((⌊q * input.hashBins⌋ + 1) * input.nIsotopes + nuc) = some (some (uHigh - 1))) ∧
      r < uHigh ∧ uHigh ≤ input.nGridpoints - 1 := by
    by_cases hlast : ⌊q * input.hashBins⌋ = input.hashBins - 1
    · exact ⟨input.nGridpoints - 1, Or.inl ⟨hlast, rfl⟩, hcell.lt_hi, le_rfl⟩
    · obtain ⟨_, hhigh, m, rfl, hhighcell⟩ := hentries (⌊q * input.hashBins⌋ + 1) nuc (by omega) (by omega) h0 h
      rw [binEnergy_eq] at hhighcell
      have hle := hcell.mono hstrict.monotoneOn hhighcell hblt.le
      have hlt := hhighcell.lt_hi
      exact ⟨m + 1, Or.inr ⟨hlast, by rwa [add_sub_cancel_right]⟩, by omega, by omega⟩
  obtain ⟨uHigh, hhigh, hrhigh, hhigh1⟩ := hwindow
  refine ⟨r, hcell, ?_⟩
  have hrun : lookupLow { input with gridType := .hash } SD q nuc =
      microLow { input with gridType := .hash } SD q nuc (HashArith.binIndex input.hashBins q) := rfl
  rw [hrun, binIndex_eq_floor hq0 hb, microLow_hash hN hn hfit hA hstrict.monotoneOn h0 h hlow hhigh hlowcell.lo_le
    hlowr hrhigh hhigh1 hcell]
  have hr0 := hcell.lo_le
  have hrlt := hcell.lt_hi
  have hlow0 := hlowcell.lo_le
  by_cases hle : q ≤ A nuc uLow
  · rw [if_pos hle]
    by_cases hr : r = 0
    · rw [hr, ite_self]
    -- The window starts at the cell of the query, and its lower end is the bin's lower energy.
    have hrq : A nuc r ≤ q := hcell.below.resolve_left hr
    have hsame : uLow = r := le_antisymm hlowr ((hstrict.le_iff_le ⟨hr0, by omega⟩ ⟨hlow0, by omega⟩).mp (hrq.trans hle))
    subst hsame
    have hq : A nuc uLow = q := le_antisymm hrq hle
    have hbin : (⌊q * input.hashBins⌋ : ℚ) / input.hashBins = q :=
      le_antisymm hble (hq ▸ hlowcell.below.resolve_left hr)
    rw [if_pos ⟨by omega, hq, (div_eq_iff hbpos.ne').mp hbin |>.symm⟩]
  · rw [if_neg hle, if_neg]
    rintro ⟨-, hrq, hbin⟩
    rw [← hbin, mul_div_cancel_right₀ _ hbpos.ne'] at hlowcell
    obtain rfl : uLow = r := hlowcell.unique hstrict.monotoneOn hcell
    exact hle hrq.ge

/-- The interpolation uses the point `low` and its successor. -/
theorem lookupXs_eq (input : Inputs) (SD : SimulationData ℚ) (q : ℚ) (nuc : ℤ) :
    lookupXs input SD q nuc = (lookupLow input SD q nuc).bind fun low => (peek SD.nuclideGrid low).bind fun x =>
      (peek SD.nuclideGrid (low + 1)).bind fun y => some (interpolate q x y) := by
  simp only [lookupXs, lookupLow, calculateMicroXs, Option.bind_eq_bind, Option.bind_assoc]
  rfl

/-- Both grid types find the same point and the same cross sections for the nuclide `nuc`. -/
def LookupsAgree (input : Inputs) (SDh SDn : SimulationData ℚ) (q : ℚ) (nuc : ℤ) : Prop :=
  ∃ low xs, lookupLow { input with gridType := .hash } SDh q nuc = some low ∧
    lookupLow { input with gridType := .nuclide } SDn q nuc = some low ∧
    lookupXs { input with gridType := .hash } SDh q nuc = some xs ∧
    lookupXs { input with gridType := .nuclide } SDn q nuc = some xs

variable {SDh SDn : SimulationData ℚ}

theorem lookupsAgree_of_low {r : ℤ} (hgrid : SDh.nuclideGrid = SDn.nuclideGrid)
    (hA : HasEnergies input SDn.nuclideGrid A) (h0 : 0 ≤ nuc) (h : nuc < input.nIsotopes) (hr0 : 0 ≤ r)
    (hr : r < input.nGridpoints - 1)
    (hh : lookupLow { input with gridType := .hash } SDh q nuc = some (nuc * input.nGridpoints + r))
    (hd : lookupLow { input with gridType := .nuclide } SDn q nuc = some (nuc * input.nGridpoints + r)) :
    LookupsAgree input SDh SDn q nuc := by
  obtain ⟨x, hx, -⟩ := Option.map_eq_some_iff.mp (hA nuc r h0 h hr0 (by omega))
  obtain ⟨y, hy, -⟩ := Option.map_eq_some_iff.mp (hA nuc (r + 1) h0 h (by omega) (by omega))
  rw [← Int.add_assoc] at hy
  refine ⟨_, interpolate q x y, hh, hd, ?_, ?_⟩
  · rw [lookupXs_eq, hh, Option.bind_some, hgrid, hx, Option.bind_some, hy, Option.bind_some]
  · rw [lookupXs_eq, hd, Option.bind_some, hx, Option.bind_some, hy, Option.bind_some]

/-- The hash lookup agrees with the nuclide lookup on all nuclides exactly when the query is not both the lower end
of a bin and an inner point of a nuclide's grid. -/
theorem hash_eq_nuclide_iff (hN : 1 ≤ input.nIsotopes) (hn : 2 ≤ input.nGridpoints) (hb : 1 ≤ input.hashBins)
    (hh : gridInitFrom sampled drawn { input with gridType := .hash } = some SDh)
    (hd : gridInitFrom sampled drawn { input with gridType := .nuclide } = some SDn)
    (hs : StrictlyIncreasing input SDn.nuclideGrid) (hq0 : 0 ≤ q) (hq1 : q < 1) :
    (∀ nuc, 0 ≤ nuc → nuc < input.nIsotopes → LookupsAgree input SDh SDn q nuc) ↔
      ∀ nuc j, 0 ≤ nuc → nuc < input.nIsotopes → 1 ≤ j → j ≤ input.nGridpoints - 2 →
        (peek SDn.nuclideGrid (nuc * input.nGridpoints + j)).map (·.energy) = some q →
        ∀ k : ℤ, q * input.hashBins ≠ k := by
  have hgh := gridInitFrom_nuclideGrid hh
  have hgd := gridInitFrom_nuclideGrid hd
  have hgrid : SDh.nuclideGrid = SDn.nuclideGrid := Option.some.inj (hgh.symm.trans hgd)
  obtain ⟨A, hA⟩ := exists_hasEnergies (initNuclideGrid_length hN (by omega) hgd).2 q
  constructor
  · intro hagree nuc j h0 h hj1 hj hjq k hk
    have hmono := (hs.strictMonoOn hA h0 h).monotoneOn
    rw [hA nuc j h0 h (by omega) (by omega)] at hjq
    have hAj := Option.some.inj hjq
    -- The query is the point `j`, so `j` is its cell, and the hash lookup misses it.
    have hjcell : Brackets (A nuc) 0 (input.nGridpoints - 1) q j :=
      ⟨by omega, by omega, Or.inr hAj.le, Or.inr (hAj ▸ hs.strictMonoOn hA h0 h ⟨by omega, by omega⟩
        ⟨by omega, by omega⟩ (by omega))⟩
    obtain ⟨low, xs, hlow, hlow', -⟩ := hagree nuc h0 h
    obtain ⟨r, hcell, hr⟩ := lookupLow_hash hN hn hb hh (hgrid ▸ hs) (hgrid ▸ hA) h0 h hq0 hq1
    obtain ⟨m, hm, hcell'⟩ := lookupLow_nuclide hn hA h0 h q
    obtain rfl := hcell.unique hmono hjcell
    obtain rfl := hcell'.unique hmono hjcell
    have hfloor : q * input.hashBins = ⌊q * input.hashBins⌋ := by rw [hk, Int.floor_intCast]
    rw [if_pos ⟨hj1, hAj, hfloor⟩, hlow] at hr
    rw [hlow'] at hm
    have := Option.some.inj (hr.symm.trans hm)
    omega
  · intro hcond nuc h0 h
    have hmono := (hs.strictMonoOn hA h0 h).monotoneOn
    obtain ⟨r, hcell, hr⟩ := lookupLow_hash hN hn hb hh (hgrid ▸ hs) (hgrid ▸ hA) h0 h hq0 hq1
    obtain ⟨m, hm, hcell'⟩ := lookupLow_nuclide hn hA h0 h q
    obtain rfl := hcell'.unique hmono hcell
    have hr0 := hcell.lo_le
    have hrlt := hcell.lt_hi
    rw [if_neg] at hr
    · exact lookupsAgree_of_low hgrid hA h0 h hr0 hrlt hr hm
    · rintro ⟨hm1, hAm, hfloor⟩
      exact hcond nuc m h0 h hm1 (by omega) (by rw [hA nuc m h0 h hr0 (by omega), hAm]) _ hfloor

/-- One nuclide whose middle point lies on the border between two bins. -/
def borderPoints (i : ℕ) : NuclideGridPoint ℚ := ⟨[0, 1 / 2, 3 / 4].getD i 0, 0, 0, 0, 0, 0⟩

def borderInputs : Inputs := { nIsotopes := 1, nGridpoints := 3, hashBins := 2 }

theorem border_strictlyIncreasing :
    ∀ grid ∈ initNuclideGrid borderPoints borderInputs, StrictlyIncreasing borderInputs grid := by
  decide +kernel

theorem hash_eq_nuclide_iff_border :
    ∃ SDh SDn, gridInitFrom borderPoints (fun _ => 0) { borderInputs with gridType := .hash } = some SDh ∧
      gridInitFrom borderPoints (fun _ => 0) { borderInputs with gridType := .nuclide } = some SDn ∧
      LookupsAgree borderInputs SDh SDn (3 / 8) 0 := by
  have hsome : ∀ g, (gridInitFrom borderPoints (fun _ => 0) { borderInputs with gridType := g }).isSome = true :=
    fun g => (gridInitFrom_isSome_iff (by decide) (by decide) (by decide) g).mpr (by decide)
  obtain ⟨SDh, hh⟩ := Option.isSome_iff_exists.mp (hsome .hash)
  obtain ⟨SDn, hd⟩ := Option.isSome_iff_exists.mp (hsome .nuclide)
  refine ⟨SDh, SDn, hh, hd, (hash_eq_nuclide_iff (by decide) (by decide) (by decide) hh hd
    (border_strictlyIncreasing _ (gridInitFrom_nuclideGrid hd)) (by norm_num) (by norm_num)).mpr ?_ 0 le_rfl (by decide)⟩
  intro _ _ _ _ _ _ _ k hk
  have hmul : (3 : ℚ) = 4 * k := by
    rw [← hk]
    norm_num [borderInputs]
  have : (3 : ℤ) = 4 * k := by exact_mod_cast hmul
  omega

/-- At the border the hash lookup ends in the first cell, the nuclide lookup in the second. -/
theorem hash_ne_nuclide :
    ∃ SDh SDn, gridInitFrom borderPoints (fun _ => 0) { borderInputs with gridType := .hash } = some SDh ∧
      gridInitFrom borderPoints (fun _ => 0) { borderInputs with gridType := .nuclide } = some SDn ∧
      StrictlyIncreasing borderInputs SDn.nuclideGrid ∧
      lookupLow { borderInputs with gridType := .hash } SDh (1 / 2) 0 = some 0 ∧
      lookupLow { borderInputs with gridType := .nuclide } SDn (1 / 2) 0 = some 1 := by
  have hhash : (gridInitFrom borderPoints (fun _ => 0) { borderInputs with gridType := .hash }).bind
      (fun SD => lookupLow { borderInputs with gridType := .hash } SD (1 / 2) 0) = some 0 := by decide +kernel
  have hnuclide : (gridInitFrom borderPoints (fun _ => 0) { borderInputs with gridType := .nuclide }).bind
      (fun SD => lookupLow { borderInputs with gridType := .nuclide } SD (1 / 2) 0) = some 1 := by decide +kernel
  obtain ⟨SDh, hh, hlow⟩ := Option.bind_eq_some_iff.mp hhash
  obtain ⟨SDn, hd, hlow'⟩ := Option.bind_eq_some_iff.mp hnuclide
  exact ⟨SDh, SDn, hh, hd, border_strictlyIncreasing _ (gridInitFrom_nuclideGrid hd), hlow, hlow'⟩

end lookup

end NuKSM.XSBench
