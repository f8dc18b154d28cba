import NuKSM.Theorems.XSBench.Hash

/-! # The lengths that the initialization records

The products are formed in `long`, but `length_nuclide_grid` and `length_unionized_energy_array` are `int` fields, while
the searches go over `n_isotopes * n_gridpoints` points. -/

namespace NuKSM.XSBench
variable {E : Type} [LinearOrder E] {input : Inputs}

/-- The lengths of the two grids and of the index grid. -/
structure GridLengths where
  nuclideGrid : ℤ
  unionizedEnergyArray : ℤ
  indexGrid : ℤ
  deriving DecidableEq, Repr

/-- The lengths as `grid_init_do_not_profile` assigns them and as its loops read them back. -/
def recordedLengths (input : Inputs) : GridLengths :=
  let points := toInt (input.nIsotopes * input.nGridpoints)
  match input.gridType with
  | .nuclide => ⟨points, 0, 0⟩
  | .unionized => ⟨points, points, points * input.nIsotopes⟩
  | .hash => ⟨points, 0, input.hashBins * input.nIsotopes⟩

def SimulationData.gridLengths (SD : SimulationData E) : GridLengths :=
  ⟨SD.lengthNuclideGrid, SD.lengthUnionizedEnergyArray, SD.lengthIndexGrid⟩

/-- The true products. -/
structure GridLengths.Exact (l : GridLengths) (input : Inputs) : Prop where
  nuclideGrid : l.nuclideGrid = input.nIsotopes * input.nGridpoints
  unionizedEnergyArray : input.gridType = .unionized → l.unionizedEnergyArray = input.nIsotopes * input.nGridpoints
  indexGrid : input.gridType = .unionized → l.indexGrid = input.nIsotopes ^ 2 * input.nGridpoints

/-- All the places that the searches go over hold a value. -/
def Searchable {α : Type} (input : Inputs) (A : List α) : Prop :=
  ∀ k, 0 ≤ k → k < input.nIsotopes * input.nGridpoints → ∃ x, peek A k = some x

variable (E) in
/-- The recorded lengths are the true products, also in every result, and every point that is searched is there. -/
structure LengthsExact [HashArith E] (input : Inputs) : Prop where
  recorded : (recordedLengths input).Exact input
  nuclideGrid (sampled : ℕ → NuclideGridPoint E) :
    ∃ grid, initNuclideGrid sampled input = some grid ∧ Searchable input grid ∧
      (input.gridType = .unionized →
        ∃ U, initUnionizedEnergyArray grid (recordedLengths input).unionizedEnergyArray = some U ∧ Searchable input U)
  result {sampled : ℕ → NuclideGridPoint E} {drawn : ℕ → E} {SD : SimulationData E}
    (h : gridInitFrom sampled drawn input = some SD) :
    SD.gridLengths.Exact input ∧ Searchable input SD.nuclideGrid ∧
      (input.gridType = .unionized → Searchable input SD.unionizedEnergyArray)
  /-- With one point per nuclide there is no second point from which the sweep could start. -/
  built (sampled : ℕ → NuclideGridPoint E) (drawn : ℕ → E) (h : 2 ≤ input.nGridpoints) :
    (gridInitFrom sampled drawn input).isSome

theorem searchable_of_length {α : Type} {A : List α} (h : (A.length : ℤ) = input.nIsotopes * input.nGridpoints) :
    Searchable input A := fun _ h0 hk => exists_peek h0 (by rw [h]; exact hk)

/-- The fields of the result are the recorded lengths. -/
theorem gridInitFrom_gridLengths [HashArith E] {sampled : ℕ → NuclideGridPoint E} {drawn : ℕ → E}
    {SD : SimulationData E} (h : gridInitFrom sampled drawn input = some SD) : SD.gridLengths = recordedLengths input := by
  have hbuilt := gridInitFrom_built h
  have hindex := hbuilt.indexGrids
  unfold SimulationData.gridLengths recordedLengths
  rw [hbuilt.lengthNuclideGrid]
  rcases hg : input.gridType with _ | _ | _ <;> simp only [hg] at hindex
  · obtain ⟨hlenU, hlenI, -, -⟩ := hindex
    rw [hlenI, hlenU]
  · obtain ⟨-, -, hlenU, hlenI⟩ := hindex
    rw [hlenI, hlenU]
  · obtain ⟨-, hlenU, hlenI, -⟩ := hindex
    rw [hlenI, hlenU]

theorem recordedLengths_exact (hpos : 0 ≤ input.nIsotopes * input.nGridpoints)
    (hfit : input.nIsotopes * input.nGridpoints < 2 ^ 31) : (recordedLengths input).Exact input := by
  unfold recordedLengths
  rw [toInt_eq hpos hfit]
  rcases hg : input.gridType with _ | _ | _
  · exact ⟨rfl, fun _ => rfl, fun _ => by ring⟩
  · exact ⟨rfl, fun h => (by simp [hg] at h), fun h => (by simp [hg] at h)⟩
  · exact ⟨rfl, fun h => (by simp [hg] at h), fun h => (by simp [hg] at h)⟩

/-- A recorded length fits an `int`. -/
theorem recordedLengths_nuclideGrid_lt (input : Inputs) : (recordedLengths input).nuclideGrid < 2 ^ 31 := by
  unfold recordedLengths
  rcases input.gridType with _ | _ | _ <;> exact toInt_lt _

/-- The union of a complete nuclide grid is complete. -/
theorem searchable_unionized {grid : List (NuclideGridPoint E)} {U : List E}
    (hlen : (grid.length : ℤ) = input.nIsotopes * input.nGridpoints)
    (hU : initUnionizedEnergyArray grid (input.nIsotopes * input.nGridpoints) = some U) : Searchable input U := by
  rw [← hlen, initUnionizedEnergyArray_eq] at hU
  cases hU
  refine searchable_of_length ?_
  rw [(qsort_perm doubleCompare _).length_eq, List.length_map]
  exact hlen

/-- The lengths are exact if and only if the number of gridpoints fits an `int`. -/
theorem lengthsExact_iff [HashArith E] (h : input.Accepted) :
    LengthsExact E input ↔ input.nIsotopes * input.nGridpoints < 2 ^ 31 := by
  have hN : 1 ≤ input.nIsotopes := by
    rcases h.nIsotopes with heq | heq <;> omega
  have hpos : 0 ≤ input.nIsotopes * input.nGridpoints := mul_nonneg (by omega) (by have := h.nGridpoints; omega)
  constructor
  · intro hexact
    rw [← hexact.recorded.nuclideGrid]
    exact recordedLengths_nuclideGrid_lt input
  · intro hfit
    have hrec := recordedLengths_exact hpos hfit
    refine ⟨hrec, fun sampled => ?_, fun {sampled drawn SD} hSD => ?_, fun sampled drawn hn => ?_⟩
    · obtain ⟨grid, hgrid⟩ : ∃ grid, initNuclideGrid sampled input = some grid :=
        initNuclideGrid_isSome hN h.nGridpoints hfit
      have hlen := (initNuclideGrid_length hN h.nGridpoints hgrid).2
      refine ⟨grid, hgrid, searchable_of_length hlen, fun hg => ?_⟩
      rw [hrec.unionizedEnergyArray hg]
      have hU : initUnionizedEnergyArray grid grid.length = _ := initUnionizedEnergyArray_eq
      rw [hlen] at hU
      exact ⟨_, hU, searchable_unionized hlen hU⟩
    · have hbuilt := gridInitFrom_built hSD
      have hlen := (initNuclideGrid_length hN h.nGridpoints hbuilt.nuclideGrid).2
      refine ⟨gridInitFrom_gridLengths hSD ▸ hrec, searchable_of_length hlen, fun hg => ?_⟩
      have hgrids := hbuilt.indexGrids
      rw [hg] at hgrids
      obtain ⟨hlenU, -, hU, -⟩ := hgrids
      rw [hlenU, toInt_eq hpos hfit] at hU
      exact searchable_unionized hlen hU
    · exact (gridInitFrom_isSome_iff hN hn (by have := h.hashBins; omega) input.gridType).mpr hfit

theorem lengthsExact_iff_default : ({} : Inputs).Accepted ∧ LengthsExact ℚ {} := by
  have haccepted : ({} : Inputs).Accepted := ⟨.inr rfl, by decide, by decide⟩
  exact ⟨haccepted, (lengthsExact_iff haccepted).mpr (by decide)⟩

/-- With `-g 12098502` the recorded length is `355 * 12098502 - 2 ^ 32 = 914`. -/
theorem not_lengthsExact : ({ nGridpoints := 12098502 } : Inputs).Accepted ∧
    (recordedLengths { nGridpoints := 12098502 }).nuclideGrid = 914 ∧
    ¬ LengthsExact ℚ { nGridpoints := 12098502 } := by
  have hshort : (recordedLengths { nGridpoints := 12098502 }).nuclideGrid = 914 := by decide
  refine ⟨⟨.inr rfl, by decide, by decide⟩, hshort, fun hexact => ?_⟩
  have := hexact.recorded.nuclideGrid
  rw [hshort] at this
  simp at this

end NuKSM.XSBench
