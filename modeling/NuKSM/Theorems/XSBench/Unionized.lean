import NuKSM.Theorems.XSBench.Sweep

/-! # The unionized lookup

The lookup through the unionized energy grid selects for every nuclide the point that a search in the nuclide's own
grid selects: the index grid holds the cell of each unionized point, and a query has the cell of the last
unionized point that it reaches. -/

namespace NuKSM.XSBench
variable {E : Type} [LinearOrder E] {input : Inputs} {grid : List (NuclideGridPoint E)} {A : ℤ → ℤ → E} {nuc : ℤ}

/-! ### What the initialization leaves -/

section init
variable [HashArith E] {sampled : ℕ → NuclideGridPoint E} {drawn : ℕ → E} {SD : SimulationData E}

theorem gridInitFrom_nuclideGrid {g : GridType}
    (h : gridInitFrom sampled drawn { input with gridType := g } = some SD) :
    initNuclideGrid sampled input = some SD.nuclideGrid := (gridInitFrom_built h).nuclideGrid

theorem gridInitFrom_unionized (h : gridInitFrom sampled drawn { input with gridType := .unionized } = some SD) :
    initUnionizedEnergyArray SD.nuclideGrid (toInt (input.nIsotopes * input.nGridpoints)) =
        some SD.unionizedEnergyArray ∧
      initIndexGrid input SD.nuclideGrid SD.unionizedEnergyArray (toInt (input.nIsotopes * input.nGridpoints))
        (toInt (input.nIsotopes * input.nGridpoints) * input.nIsotopes) = some SD.indexGrid := by
  obtain ⟨hlenU, hlenI, hU, hI⟩ := (gridInitFrom_built h).indexGrids
  rw [hlenU] at hlenI hU hI
  rw [hlenI] at hI
  exact ⟨hU, hI⟩

end init

/-! ### The unionized points -/

/-- The unionized array is the sorted union of the nuclide energies. -/
theorem initUnionizedEnergyArray_eq :
    initUnionizedEnergyArray grid grid.length = some (qsort doubleCompare (grid.map (·.energy))) := by
  have hread : ∃ B, tabulate grid.length (fun i => (peek grid i).map (·.energy)) = some B ∧
      B = grid.map (·.energy) := by
    cases grid with
    | nil => exact ⟨[], rfl, rfl⟩
    | cons p rest =>
      obtain ⟨B, hB, hlen, hpeek⟩ := tabulate_eq_some (f := fun i => (peek (p :: rest) i).map (·.energy))
        (g := fun i => ((peek (p :: rest) i).map (·.energy)).getD p.energy)
        (Int.natCast_nonneg (p :: rest).length) fun i h0 h => by
          obtain ⟨x, hx⟩ := exists_peek h0 h
          simp [hx]
      have hlen' : B.length = (p :: rest).length := by exact_mod_cast hlen
      refine ⟨B, hB, peek_ext (by rw [hlen', List.length_map]) fun i h0 h => ?_⟩
      rw [hlen'] at h
      obtain ⟨x, hx⟩ := exists_peek h0 h
      rw [hpeek i h0 h, peek_map, hx]
      rfl
  obtain ⟨B, hB, rfl⟩ := hread
  rw [initUnionizedEnergyArray, hB]
  rfl

/-- The sorted union covers the grid of each nuclide. -/
theorem covers_qsort {V : ℤ → E} (hA : HasEnergies input grid A) (hs : StrictlyIncreasing input grid)
    (hV : ∀ k : ℤ, 0 ≤ k → k < grid.length → peek (qsort doubleCompare (grid.map (·.energy))) k = some (V k))
    (h0 : 0 ≤ nuc) (h : nuc < input.nIsotopes) : Covers V grid.length (A nuc) (input.nGridpoints - 1) where
  mono := by
    rintro j ⟨hj0, hj⟩ k ⟨hk0, hk⟩ hjk
    rcases hjk.eq_or_lt with rfl | hlt
    · exact le_rfl
    · exact pairwise_iff_peek.mp (pairwise_qsort _) j k _ _ hlt (hV j hj0 hj) (hV k hk0 hk)
  strict := hs.strictMonoOn hA h0 h
  hits j hj0 hj := by
    have hplace := hA nuc j h0 h hj0 (by omega)
    rw [← peek_map] at hplace
    obtain ⟨k, hk⟩ := exists_peek_of_mem ((qsort_perm doubleCompare _).mem_iff.mpr (mem_of_peek hplace))
    obtain ⟨hk0, hkl⟩ := peek_bounds hk
    rw [(qsort_perm doubleCompare _).length_eq, List.length_map] at hkl
    refine ⟨k, hk0, hkl, ?_⟩
    rw [hV k hk0 hkl] at hk
    exact Option.some.inj hk

/-! ### The index grid -/

/-- The sweep keeps every nuclide at its cell. -/
theorem columnRule_swept {V : ℤ → E} {len : ℤ} (hn : 2 ≤ input.nGridpoints)
    (hc : ∀ i, 0 ≤ i → i < input.nIsotopes → Covers V len (A i) (input.nGridpoints - 1)) :
    ColumnRule input A V len fun i k m => Swept V (A i) (input.nGridpoints - 1) k m where
  bounds h := ⟨h.nonneg, by have := h.lt_top; omega⟩
  zero _ _ := Swept.zero (by omega)
  stay h hlt := h.stay hlt
  top h htop := h.stay_top (by omega)
  advance hi0 hi h0 hk h htop hle := h.advance (hc _ hi0 hi) h0 hk (by omega) hle

/-! ### The lookups -/

section lookup
variable [HashArith E] {SD : SimulationData E}

/-- The search in the nuclide's own grid never ends at its last point. -/
theorem offTheEnd_of_lt {r : ℤ} (h : r < input.nGridpoints - 1) :
    offTheEnd input nuc r = nuc * input.nGridpoints + r := if_neg (by omega)

/-- The nuclide lookup ends in the cell of the query. -/
theorem lookupLow_nuclide (hn : 2 ≤ input.nGridpoints)
    (hA : HasEnergies input SD.nuclideGrid A) (h0 : 0 ≤ nuc) (h : nuc < input.nIsotopes) (q : E) :
    ∃ r, lookupLow { input with gridType := .nuclide } SD q nuc = some (nuc * input.nGridpoints + r) ∧
      Brackets (A nuc) 0 (input.nGridpoints - 1) q r := by
  obtain ⟨r, hr, hcell⟩ := gridSearchNuclide_brackets hA h0 h q le_rfl
    (show 0 < input.nGridpoints - 1 by omega) (by omega)
  refine ⟨r, ?_, hcell⟩
  simp only [lookupLow, macroIndex, microLow, Option.bind_eq_bind, Option.bind_some, hr, ← offTheEnd_of_lt hcell.lt_hi]
  rfl

/-- The unionized lookup ends in the cell of the query. -/
theorem lookupLow_unionized {sampled : ℕ → NuclideGridPoint E} {drawn : ℕ → E} (hN : 1 ≤ input.nIsotopes)
    (hn : 2 ≤ input.nGridpoints) (hSD : gridInitFrom sampled drawn { input with gridType := .unionized } = some SD)
    (hs : StrictlyIncreasing input SD.nuclideGrid)
    (hA : HasEnergies input SD.nuclideGrid A) (h0 : 0 ≤ nuc) (h : nuc < input.nIsotopes) (q : E) :
    ∃ r, lookupLow { input with gridType := .unionized } SD q nuc = some (nuc * input.nGridpoints + r) ∧
      Brackets (A nuc) 0 (input.nGridpoints - 1) q r := by
  obtain ⟨hfit, hlen⟩ := initNuclideGrid_length hN (by omega) (gridInitFrom_nuclideGrid hSD)
  obtain ⟨hU, hI⟩ := gridInitFrom_unionized hSD
  have hsize : 2 ≤ input.nIsotopes * input.nGridpoints := by
    have := mul_le_mul hN hn (by omega) (by omega)
    omega
  rw [toInt_eq (by omega) hfit, ← hlen] at hU hI
  rw [initUnionizedEnergyArray_eq] at hU
  have hUeq := Option.some.inj hU
  -- The unionized points as a function of the place.
  have hV : ∀ k : ℤ, 0 ≤ k → k < SD.nuclideGrid.length →
      peek SD.unionizedEnergyArray k = some ((peek SD.unionizedEnergyArray k).getD q) := by
    intro k hk0 hk
    rw [← hUeq]
    obtain ⟨x, hx⟩ := exists_peek (A := qsort doubleCompare (SD.nuclideGrid.map (·.energy))) hk0
      (by rw [(qsort_perm doubleCompare _).length_eq, List.length_map]; exact hk)
    rw [hx]
    rfl
  have hcov : ∀ i, 0 ≤ i → i < input.nIsotopes → Covers (fun k => (peek SD.unionizedEnergyArray k).getD q)
      SD.nuclideGrid.length (A i) (input.nGridpoints - 1) :=
    fun i hi0 hi => covers_qsort hA hs (fun k hk0 hk => by rw [hUeq]; exact hV k hk0 hk) hi0 hi
  -- The entry of the index grid that the lookup reads.
  obtain ⟨indexGrid, hindex, hentries⟩ := initIndexGrid_total (columnRule_swept hn hcov) hA hV (by omega) hn (by omega)
  obtain rfl : indexGrid = SD.indexGrid := by
    rw [hindex] at hI
    exact Option.some.inj hI
  obtain ⟨u, hu, hucell⟩ := gridSearch_brackets hV (by omega) q
  obtain ⟨m, hm, hswept⟩ := hentries u nuc hucell.lo_le (by have := hucell.lt_hi; omega) h0 h
  have hcell := hswept.brackets (hcov nuc h0 h) hucell.lo_le (by have := hucell.lt_hi; omega)
  refine ⟨m, ?_, hucell.through (hcov nuc h0 h) hcell⟩
  rw [hlen] at hu
  simp only [lookupLow, macroIndex, microLow, indexData, Option.bind_eq_bind, Option.bind_some, hu, hm, Option.join_some,
    ← offTheEnd_of_lt hcell.lt_hi]
  rfl

/-- The unionized lookup and the nuclide lookup select the same point for every nuclide and every query. -/
theorem unionized_eq_nuclide {sampled : ℕ → NuclideGridPoint E} {drawn : ℕ → E} {SDu SDn : SimulationData E}
    (hN : 1 ≤ input.nIsotopes) (hn : 2 ≤ input.nGridpoints)
    (hu : gridInitFrom sampled drawn { input with gridType := .unionized } = some SDu)
    (hd : gridInitFrom sampled drawn { input with gridType := .nuclide } = some SDn)
    (hs : StrictlyIncreasing input SDn.nuclideGrid) (h0 : 0 ≤ nuc) (h : nuc < input.nIsotopes) (q : E) :
    ∃ low, lookupLow { input with gridType := .unionized } SDu q nuc = some low ∧
      lookupLow { input with gridType := .nuclide } SDn q nuc = some low := by
  have hgu := gridInitFrom_nuclideGrid hu
  have hgd := gridInitFrom_nuclideGrid hd
  have hgrid : SDu.nuclideGrid = SDn.nuclideGrid := Option.some.inj (hgu.symm.trans hgd)
  obtain ⟨A, hA⟩ := exists_hasEnergies (initNuclideGrid_length hN (by omega) hgd).2 q
  obtain ⟨r, hr, hcell⟩ := lookupLow_nuclide hn hA h0 h q
  obtain ⟨m, hm, hcell'⟩ := lookupLow_unionized hN hn hu (hgrid ▸ hs) (hgrid ▸ hA) h0 h q
  have hmono := (hs.strictMonoOn hA h0 h).monotoneOn
  exact ⟨_, hm, hcell.unique hmono hcell' ▸ hr⟩

/-- Two nuclides with three points each, one energy of which they share. -/
def tiedPoints (i : ℕ) : NuclideGridPoint ℚ := ⟨[3 / 4, 1 / 4, 1 / 2, 1, 0, 1 / 2].getD i 0, 0, 0, 0, 0, 0⟩

def tiedInputs : Inputs := { nIsotopes := 2, nGridpoints := 3 }

theorem unionized_eq_nuclide_tied :
    ∃ SDu SDn low, gridInitFrom tiedPoints (fun _ => 0) { tiedInputs with gridType := .unionized } = some SDu ∧
      gridInitFrom tiedPoints (fun _ => 0) { tiedInputs with gridType := .nuclide } = some SDn ∧
      lookupLow { tiedInputs with gridType := .unionized } SDu (1 / 2) 1 = some low ∧
      lookupLow { tiedInputs with gridType := .nuclide } SDn (1 / 2) 1 = some low := by
  obtain ⟨SDu, hu⟩ := Option.isSome_iff_exists.mp
    (show (gridInitFrom tiedPoints (fun _ => 0) { tiedInputs with gridType := .unionized }).isSome = true by
      decide +kernel)
  obtain ⟨SDn, hd⟩ := Option.isSome_iff_exists.mp
    (show (gridInitFrom tiedPoints (fun _ => 0) { tiedInputs with gridType := .nuclide }).isSome = true by
      decide +kernel)
  have hs : ∀ grid ∈ initNuclideGrid tiedPoints tiedInputs, StrictlyIncreasing tiedInputs grid := by
    decide +kernel
  obtain ⟨low, hlow⟩ := unionized_eq_nuclide (by decide) (by decide) hu hd (hs _ (gridInitFrom_nuclideGrid hd))
    (show (0 : ℤ) ≤ 1 by decide) (by decide) (1 / 2)
  exact ⟨SDu, SDn, low, hu, hd, hlow⟩

end lookup

end NuKSM.XSBench
