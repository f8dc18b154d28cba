import NuKSM.Theorems.XSBench.Hash

/-! # Lookups stay in the grid of their nuclide

With two points per nuclide or more, the construction and the lookups read the points of one nuclide inside the part of
the nuclide grid that belongs to it, whether or not its energies are sorted. A nuclide with one point has no room for
`low` and `low + 1`. -/

namespace NuKSM.XSBench

/-- The index `k` of the nuclide grid belongs to the nuclide `nuc`. -/
def InRow (input : Inputs) (nuc k : ℤ) : Prop := nuc * input.nGridpoints ≤ k ∧ k < (nuc + 1) * input.nGridpoints

theorem inRow_iff {input : Inputs} {nuc j : ℤ} :
    InRow input nuc (nuc * input.nGridpoints + j) ↔ 0 ≤ j ∧ j < input.nGridpoints := by
  unfold InRow
  rw [add_one_mul]
  omega

/-! ### The material tables -/

theorem mats_bounds {nIsotopes nuc : ℤ} (hN : nIsotopes = 68 ∨ nIsotopes = 355)
    (h : some nuc ∈ (loadMats (loadNumNucs nIsotopes) nIsotopes).1) : 0 ≤ nuc ∧ nuc < nIsotopes := by
  have hall : ∀ n ∈ [(68 : ℤ), 355], ∀ x ∈ (loadMats (loadNumNucs n) n).1, ∀ nuc ∈ x, 0 ≤ nuc ∧ nuc < n := by
    decide +kernel
  refine hall nIsotopes ?_ _ h nuc rfl
  rcases hN with rfl | rfl <;> decide

/-! ### What a lookup and the construction read -/

section build
variable {E : Type} [LinearOrder E]

/-- `low` and `high` of a lookup. -/
def LowHighInRow [HashArith E] (input : Inputs) (SD : SimulationData E) (q : E) (nuc : ℤ) : Prop :=
  ∃ low, lookupLow input SD q nuc = some low ∧ InRow input nuc low ∧ InRow input nuc (low + 1)

/-- The points of which the hash lookup reads `e_low` and `e_high`. -/
def WindowInRow [HashArith E] (input : Inputs) (SD : SimulationData E) (q : E) (nuc : ℤ) : Prop :=
  ∃ idx uLow uHigh, macroIndex input SD q = some idx ∧ indexData SD (idx * input.nIsotopes + nuc) = some uLow ∧
    hashHigh input SD nuc idx = some uHigh ∧ InRow input nuc (nuc * input.nGridpoints + uLow) ∧
    InRow input nuc (nuc * input.nGridpoints + uHigh)

/-- The points from which the sweep takes `energy_high`: first of all, and where it moves a nuclide on. -/
def EnergyHighInRow (input : Inputs) (SD : SimulationData E) : Prop :=
  (∀ i, 0 ≤ i → i < input.nIsotopes → InRow input i (i * input.nGridpoints + 1)) ∧
  ∃ s₀, sweepInit input SD.nuclideGrid SD.lengthIndexGrid = some s₀ ∧
    ∀ e i, 0 ≤ e → e < SD.lengthUnionizedEnergyArray → 0 ≤ i → i < input.nIsotopes →
      ∃ s low high u, sweepBefore input SD.nuclideGrid SD.unionizedEnergyArray s₀ e i = some s ∧
        peek s.idxLow i = some low ∧ peek s.energyHigh i = some high ∧ peek SD.unionizedEnergyArray e = some u ∧
        (¬ u < high → low ≠ input.nGridpoints - 2 → InRow input i (i * input.nGridpoints + (low + 1) + 1))

variable {input : Inputs} {A : ℤ → ℤ → E} {sampled : ℕ → NuclideGridPoint E} {drawn : ℕ → E} {SD : SimulationData E}
  {nuc : ℤ}

/-- A first point in the row that is not the last one. -/
theorem inRow_pair {r : ℤ} (h0 : 0 ≤ r) (h : r < input.nGridpoints - 1) :
    InRow input nuc (nuc * input.nGridpoints + r) ∧ InRow input nuc (nuc * input.nGridpoints + r + 1) := by
  refine ⟨inRow_iff.mpr ⟨h0, by omega⟩, ?_⟩
  rw [add_assoc]
  exact inRow_iff.mpr ⟨by omega, by omega⟩

section unionized
variable [HashArith E]

theorem gridInitFrom_lengths (hSD : gridInitFrom sampled drawn { input with gridType := .unionized } = some SD) :
    SD.lengthUnionizedEnergyArray = toInt (input.nIsotopes * input.nGridpoints) ∧
      SD.lengthIndexGrid = SD.lengthUnionizedEnergyArray * input.nIsotopes := by
  obtain ⟨hlenU, hlenI, -, -⟩ := (gridInitFrom_built hSD).indexGrids
  exact ⟨hlenU, hlenI⟩

/-- The sizes and the points of the unionized arrays. -/
theorem gridInitFrom_points (hN : 1 ≤ input.nIsotopes) (hn : 2 ≤ input.nGridpoints)
    (hSD : gridInitFrom sampled drawn { input with gridType := .unionized } = some SD) (q : E) :
    SD.lengthUnionizedEnergyArray = input.nIsotopes * input.nGridpoints ∧ 2 ≤ SD.lengthUnionizedEnergyArray ∧
      ∀ k, 0 ≤ k → k < SD.lengthUnionizedEnergyArray →
        peek SD.unionizedEnergyArray k = some ((peek SD.unionizedEnergyArray k).getD q) := by
  obtain ⟨hfit, hlen⟩ := initNuclideGrid_length hN (by omega) (gridInitFrom_nuclideGrid hSD)
  have hsize : 2 ≤ input.nIsotopes * input.nGridpoints := by
    have := mul_le_mul hN hn (by omega) (by omega)
    omega
  obtain ⟨hU, -⟩ := gridInitFrom_unionized hSD
  have hlength := (gridInitFrom_lengths hSD).1
  rw [toInt_eq (by omega) hfit] at hU hlength
  rw [← hlen, initUnionizedEnergyArray_eq] at hU
  refine ⟨hlength, by omega, fun k hk0 hk => ?_⟩
  have hlenU : SD.unionizedEnergyArray.length = SD.nuclideGrid.length := by
    rw [← Option.some.inj hU, (qsort_perm doubleCompare _).length_eq, List.length_map]
  obtain ⟨x, hx⟩ := exists_peek (A := SD.unionizedEnergyArray) hk0 (by omega)
  rw [hx]
  rfl

/-- The sweep reads `energy_high` in the row of its nuclide. -/
theorem energyHighInRow (hN : 1 ≤ input.nIsotopes) (hn : 2 ≤ input.nGridpoints)
    (hSD : gridInitFrom sampled drawn { input with gridType := .unionized } = some SD)
    (hA : HasEnergies input SD.nuclideGrid A) : EnergyHighInRow input SD := by
  obtain ⟨-, hsize, hV⟩ := gridInitFrom_points hN hn hSD (A 0 0)
  obtain ⟨s₀, hs₀, hinit⟩ := RowInv.init (V := fun k => (peek SD.unionizedEnergyArray k).getD (A 0 0))
    (columnRule_bounds hn) hA (by omega) hn (show 0 ≤ SD.lengthUnionizedEnergyArray by omega)
  rw [← (gridInitFrom_lengths hSD).2] at hs₀
  refine ⟨fun i _ _ => inRow_iff.mpr ⟨by omega, by omega⟩, s₀, hs₀, fun e i h0 he hi0 hi => ?_⟩
  obtain ⟨s, hs, hinv⟩ := sweepBefore_total (columnRule_bounds hn) hA hV (by omega) hinit h0 he hi0 hi.le
  obtain ⟨m, hlow, hhigh, hm0, hm1⟩ := hinv.ahead i le_rfl hi
  refine ⟨s, m, _, _, hs, hlow, hhigh, hV e h0 he, fun _ hne => ?_⟩
  rw [add_assoc]
  exact inRow_iff.mpr ⟨by omega, by omega⟩

theorem lookupLow_unionized_inRow (hN : 1 ≤ input.nIsotopes) (hn : 2 ≤ input.nGridpoints)
    (hSD : gridInitFrom sampled drawn { input with gridType := .unionized } = some SD)
    (hA : HasEnergies input SD.nuclideGrid A) (h0 : 0 ≤ nuc) (h : nuc < input.nIsotopes) (q : E) :
    LowHighInRow { input with gridType := .unionized } SD q nuc := by
  obtain ⟨hlength, hsize, hV⟩ := gridInitFrom_points hN hn hSD q
  have hI := (gridInitFrom_unionized hSD).2
  rw [← (gridInitFrom_lengths hSD).1] at hI
  obtain ⟨indexGrid, hindex, hentries⟩ := initIndexGrid_total (columnRule_bounds hn) hA hV (by omega) hn (by omega)
  obtain rfl : indexGrid = SD.indexGrid := by
    rw [hindex] at hI
    exact Option.some.inj hI
  obtain ⟨u, hu, hucell⟩ := gridSearch_brackets hV hsize q
  obtain ⟨m, hm, hm0, hm1⟩ := hentries u nuc hucell.lo_le (by have := hucell.lt_hi; omega) h0 h
  have hlt : m < input.nGridpoints - 1 := by omega
  refine ⟨_, ?_, inRow_pair hm0 hlt⟩
  rw [hlength] at hu
  simp only [lookupLow, macroIndex, microLow, indexData, Option.bind_eq_bind, Option.bind_some, hu, hm, Option.join_some,
    ← offTheEnd_of_lt hlt]
  rfl

end unionized

theorem lookupLow_nuclide_inRow [HashArith E] (hn : 2 ≤ input.nGridpoints) (hA : HasEnergies input SD.nuclideGrid A)
    (h0 : 0 ≤ nuc) (h : nuc < input.nIsotopes) (q : E) :
    LowHighInRow { input with gridType := .nuclide } SD q nuc := by
  obtain ⟨r, hr, hcell⟩ := lookupLow_nuclide hn hA h0 h q
  exact ⟨_, hr, inRow_pair hcell.lo_le hcell.lt_hi⟩

/-- The check at the end of the grid moves the last point of a row to the one before it. -/
theorem offTheEnd_inRow {r : ℤ} (hn : 2 ≤ input.nGridpoints) (h0 : 0 ≤ r) (h : r ≤ input.nGridpoints - 1) :
    InRow input nuc (offTheEnd input nuc r) ∧ InRow input nuc (offTheEnd input nuc r + 1) := by
  by_cases hlast : r = input.nGridpoints - 1
  · rw [offTheEnd, if_pos hlast, show nuc * input.nGridpoints + r - 1 = nuc * input.nGridpoints + (r - 1) by ring]
    exact inRow_pair (by omega) (by omega)
  · rw [offTheEnd_of_lt (by omega)]
    exact inRow_pair h0 (by omega)

/-- The search of the hash lookup ends in the row for every window in the row, also for one that is empty. -/
theorem hashLower_bounds (hn31 : input.nGridpoints < 2 ^ 31) (hn : 2 ≤ input.nGridpoints)
    (hA : HasEnergies input SD.nuclideGrid A) (h0 : 0 ≤ nuc) (h : nuc < input.nIsotopes) (q eLow eHigh : E) {uLow uHigh : ℤ}
    (hlow0 : 0 ≤ uLow) (hlow : uLow ≤ input.nGridpoints - 2) (hhigh : uHigh ≤ input.nGridpoints - 1) :
    ∃ r, hashLower input SD q nuc uLow uHigh eLow eHigh = some r ∧ 0 ≤ r ∧ r ≤ input.nGridpoints - 1 := by
  unfold hashLower
  by_cases hle : q ≤ eLow
  · exact ⟨0, by rw [if_pos hle], le_rfl, by omega⟩
  by_cases hge : q ≥ eHigh
  · exact ⟨input.nGridpoints - 1, by rw [if_neg hle, if_pos hge, toInt_eq (by omega) (by omega)], by omega, le_rfl⟩
  rw [if_neg hle, if_neg hge]
  by_cases hwindow : uLow < uHigh
  · obtain ⟨r, hr, hcell⟩ := gridSearchNuclide_brackets hA h0 h q hlow0 hwindow (by omega)
    have hr0 := hcell.lo_le
    have hr1 := hcell.lt_hi
    exact ⟨r, by rw [hr, Option.map_some, toInt_eq (by omega) (by omega)], by omega, by omega⟩
  · refine ⟨uLow, ?_, hlow0, by omega⟩
    rw [gridSearchNuclide, bisect_empty (by omega), Option.map_some, toInt_eq hlow0 (by omega)]

end build

/-! ### The hash lookup in exact arithmetic -/

section hash
variable {input : Inputs} {A : ℤ → ℤ → ℚ} {sampled : ℕ → NuclideGridPoint ℚ} {drawn : ℕ → ℚ} {SD : SimulationData ℚ}
  {nuc : ℤ} {q : ℚ}

theorem lookupLow_hash_inRow (hN : 1 ≤ input.nIsotopes) (hn : 2 ≤ input.nGridpoints) (hb : 1 ≤ input.hashBins)
    (hSD : gridInitFrom sampled drawn { input with gridType := .hash } = some SD)
    (hA : HasEnergies input SD.nuclideGrid A) (h0 : 0 ≤ nuc) (h : nuc < input.nIsotopes) (hq0 : 0 ≤ q) (hq1 : q < 1) :
    LowHighInRow { input with gridType := .hash } SD q nuc ∧ WindowInRow { input with gridType := .hash } SD q nuc := by
  have hfit := (initNuclideGrid_length hN (by omega) (gridInitFrom_nuclideGrid hSD)).1
  have hn31 := nGridpoints_lt hN (by omega) hfit
  obtain ⟨hb0, hb1, -, -⟩ := bin_bounds hq0 hq1 hb
  obtain ⟨indexGrid, hindex, hentries⟩ := initHashGrid_total hN hn hfit (by omega) hA
  obtain rfl : indexGrid = SD.indexGrid := Option.some.inj (hindex.symm.trans (gridInitFrom_hash hSD))
  generalize hidx : ⌊q * input.hashBins⌋ = idx at hb0 hb1
  have hmacro : macroIndex { input with gridType := .hash } SD q = some idx := by
    rw [← hidx, ← binIndex_eq_floor hq0 hb]
    rfl
  obtain ⟨_, hlow, uLow, rfl, hlowcell⟩ := hentries idx nuc hb0 hb1 h0 h
  have hlow0 := hlowcell.lo_le
  have hlow1 := hlowcell.lt_hi
  have hlowread : indexData SD (idx * input.nIsotopes + nuc) = some uLow := by
    rw [indexData, hlow, Option.join_some]
  obtain ⟨uHigh, hhighread, hhigh0, hhigh1⟩ : ∃ uHigh, hashHigh { input with gridType := .hash } SD nuc idx = some uHigh ∧
      1 ≤ uHigh ∧ uHigh ≤ input.nGridpoints - 1 := by
    unfold hashHigh
    by_cases hlast : idx = input.hashBins - 1
    · have htop : toInt (input.nGridpoints - 1) = input.nGridpoints - 1 := toInt_eq (by omega) (by omega)
      exact ⟨input.nGridpoints - 1, by rw [if_pos hlast]; exact congrArg some htop, by omega, le_rfl⟩
    · obtain ⟨_, hhigh, m, rfl, hcell⟩ := hentries (idx + 1) nuc (by omega) (by omega) h0 h
      have hm0 := hcell.lo_le
      have hm1 := hcell.lt_hi
      exact ⟨m + 1, by rw [if_neg hlast, indexData, hhigh]; rfl, by omega, by omega⟩
  obtain ⟨x, hx, -⟩ := Option.map_eq_some_iff.mp (hA nuc uLow h0 h hlow0 (by omega))
  obtain ⟨y, hy, -⟩ := Option.map_eq_some_iff.mp (hA nuc uHigh h0 h (by omega) (by omega))
  obtain ⟨r, hr, hr0, hr1⟩ := hashLower_bounds hn31 hn hA h0 h q x.energy y.energy hlow0 (by omega) hhigh1
  have hrowlow : InRow input nuc (nuc * input.nGridpoints + uLow) := inRow_iff.mpr ⟨hlow0, by omega⟩
  have hrowhigh : InRow input nuc (nuc * input.nGridpoints + uHigh) := inRow_iff.mpr ⟨by omega, by omega⟩
  refine ⟨⟨offTheEnd input nuc r, ?_, offTheEnd_inRow hn hr0 hr1⟩, idx, uLow, uHigh, hmacro, hlowread, hhighread,
    hrowlow, hrowhigh⟩
  simp only [lookupLow, hmacro, microLow, Option.bind_eq_bind, Option.bind_some, hlowread, hhighread, hx, hy]
  change (hashLower input SD q nuc uLow uHigh x.energy y.energy).bind _ = _
  rw [hr]
  rfl

/-! ### The construction and all lookups -/

/-- The construction does not fault, and it and the lookups of all nuclides of the materials read the points of a
nuclide in the nuclide's own row. -/
def StaysInNuclide (sampled : ℕ → NuclideGridPoint ℚ) (drawn : ℕ → ℚ) (input : Inputs) : Prop :=
  ∃ SD, gridInitFrom sampled drawn input = some SD ∧
    (∀ nuc, some nuc ∈ SD.mats → ∀ q, 0 ≤ q → q < 1 →
      LowHighInRow input SD q nuc ∧ (input.gridType = .hash → WindowInRow input SD q nuc)) ∧
    (input.gridType = .unionized → EnergyHighInRow input SD)

theorem gridInitFrom_mats (h : gridInitFrom sampled drawn input = some SD) :
    SD.mats = (loadMats (loadNumNucs input.nIsotopes) input.nIsotopes).1 := by
  have hbuilt := gridInitFrom_built h
  rw [← hbuilt.numNucs, ← hbuilt.mats]

end hash

end NuKSM.XSBench
