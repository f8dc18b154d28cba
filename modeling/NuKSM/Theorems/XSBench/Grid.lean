import NuKSM.XSBench.GridInit
import NuKSM.XSBench.Lookup

/-! # The nuclide grids and the searches in them

The grid search on a nuclide ends in the cell of the query. The nuclide grid is built exactly when the product of
`n_isotopes` and `n_gridpoints` fits the `int` that keeps its length, and then it has that many points. -/

namespace NuKSM.XSBench
variable {E : Type} {input : Inputs} {grid : List (NuclideGridPoint E)} {A : ℤ → ℤ → E} {nuc : ℤ}

/-! ### The conversion to `int` -/

theorem toInt_eq {x : ℤ} (h0 : 0 ≤ x) (h : x < 2 ^ 31) : toInt x = x :=
  Int.bmod_eq_of_le (by omega) (by omega)

theorem toInt_lt (x : ℤ) : toInt x < 2 ^ 31 := Int.bmod_lt (by decide)

/-! ### Energies as a function of the place -/

/-- The point `j` of the nuclide `i` has the energy `A i j`. -/
def HasEnergies (input : Inputs) (grid : List (NuclideGridPoint E)) (A : ℤ → ℤ → E) : Prop :=
  ∀ i j, 0 ≤ i → i < input.nIsotopes → 0 ≤ j → j < input.nGridpoints →
    (peek grid (i * input.nGridpoints + j)).map (·.energy) = some (A i j)

theorem exists_hasEnergies (hlen : grid.length = input.nIsotopes * input.nGridpoints) (q : E) :
    ∃ A, HasEnergies input grid A := by
  refine ⟨fun i j => ((peek grid (i * input.nGridpoints + j)).map (·.energy)).getD q, fun i j hi0 hi hj0 hj => ?_⟩
  obtain ⟨h0, hlt⟩ := flat_lt hi0 hi hj0 hj
  obtain ⟨x, hx⟩ := exists_peek h0 (hlen ▸ hlt)
  simp [hx]

/-- The energies of each nuclide are strictly increasing. -/
def StrictlyIncreasing [LT E] (input : Inputs) (grid : List (NuclideGridPoint E)) : Prop :=
  ∀ i, i < input.nIsotopes.toNat →
    (((grid.map (·.energy)).drop (i * input.nGridpoints.toNat)).take input.nGridpoints.toNat).Pairwise (· < ·)

instance [LT E] [DecidableRel (α := E) (· < ·)] : Decidable (StrictlyIncreasing input grid) :=
  inferInstanceAs (Decidable (∀ i, i < _ → _))

section order
variable [LinearOrder E]

theorem StrictlyIncreasing.strictMonoOn (hs : StrictlyIncreasing input grid) (hA : HasEnergies input grid A)
    (h0 : 0 ≤ nuc) (h : nuc < input.nIsotopes) : StrictMonoOn (A nuc) (Set.Icc 0 (input.nGridpoints - 1)) := by
  rintro j ⟨hj0, hj⟩ k ⟨hk0, hk⟩ hjk
  have hread : ∀ l, 0 ≤ l → l ≤ input.nGridpoints - 1 →
      peek (((grid.map (·.energy)).drop (nuc.toNat * input.nGridpoints.toNat)).take input.nGridpoints.toNat) l =
        some (A nuc l) := by
    intro l hl0 hl
    have hplace := hA nuc l h0 h hl0 (by omega)
    rw [← peek_map] at hplace
    lift nuc to ℕ using h0
    lift l to ℕ using hl0
    obtain ⟨n, hn⟩ := Int.eq_ofNat_of_zero_le (show 0 ≤ input.nGridpoints by omega)
    rw [hn] at hplace hl ⊢
    rw [peek_natCast, List.getElem?_take_of_lt (by omega), List.getElem?_drop, ← hplace]
    exact (peek_natCast _).symm
  exact pairwise_iff_peek.mp (hs nuc.toNat (by omega)) j k _ _ hjk (hread j hj0 hj) (hread k hk0 hk)

/-! ### The searches -/

theorem gridSearchNuclide_brackets (hA : HasEnergies input grid A) (h0 : 0 ≤ nuc) (h : nuc < input.nIsotopes) (q : E)
    {low high : ℤ} (hlow : 0 ≤ low) (hlt : low < high) (hhigh : high ≤ input.nGridpoints) :
    ∃ r, gridSearchNuclide grid (nuc * input.nGridpoints) q low high = some r ∧
      Brackets (A nuc) low high q r := by
  refine bisect_brackets low high (fun j hj hj' => ?_) hlt (by omega)
  obtain ⟨x, hx, hxE⟩ := Option.map_eq_some_iff.mp (hA nuc j h0 h (by omega) (by omega))
  rw [hx, ← hxE]
  rfl

theorem gridSearch_brackets {U : List E} {V : ℤ → E} {n : ℤ} (hV : ∀ k, 0 ≤ k → k < n → peek U k = some (V k))
    (hn : 2 ≤ n) (q : E) : ∃ r, gridSearch n q U = some r ∧ Brackets V 0 (n - 1) q r := by
  refine bisect_brackets 0 (n - 1) (fun k hk hk' => ?_) (by omega) (by omega)
  rw [hV k (by omega) (by omega)]
  rfl

/-- What a search for `q` between two bounds promises about its result and its reads. -/
structure Searched (V : ℤ → E) (q : E) (low high : ℤ) (result : Option ℤ) (reads : List ℤ) : Prop where
  between : ∀ i ∈ reads, low < i ∧ i < high
  found : low < high → ∃ r, result = some r ∧ low ≤ r ∧ r ≤ high - 1 ∧
    (V r ≤ q ∨ r = low) ∧ (q < V (r + 1) ∨ r = high - 1)
  empty : high ≤ low → result = some low ∧ reads = []

theorem bisect_searched {V : ℤ → E} {q : E} {above : ℤ → Option Bool} {fuel : ℕ} {low high : ℤ}
    (habove : ∀ i, low < i → i < high → above i = some (decide (q < V i))) (hfuel : high - low ≤ fuel) :
    Searched V q low high (bisect above fuel low high) (bisectReads above fuel low high) where
  between _ := bisectReads_between
  found hlt := by
    obtain ⟨r, hrun, hr⟩ : ∃ r, bisect above fuel low high = some r ∧ Brackets V low high q r :=
      bisect_brackets low high habove hlt hfuel
    have hhi := hr.lt_hi
    exact ⟨r, hrun, hr.lo_le, by omega, hr.below.symm, hr.above.symm.imp_right fun h => by omega⟩
  empty hle := ⟨bisect_empty (by omega), bisectReads_empty (by omega)⟩

/-- Both searches end in the cell of the query. Only the points strictly between the bounds have to be there, and
they need not be sorted. -/
theorem gridSearch_searched {U : List E} {V W : ℤ → E} {n base low high : ℤ} {q : E}
    (hV : ∀ i, 0 < i → i < n - 1 → peek U i = some (V i))
    (hW : ∀ i, low < i → i < high → (peek grid (base + i)).map (·.energy) = some (W i)) :
    Searched V q 0 (n - 1) (gridSearch n q U) (gridSearchReads n q U) ∧
      Searched W q low high (gridSearchNuclide grid base q low high)
        (gridSearchNuclideReads grid base q low high) := by
  constructor
  · refine bisect_searched (fun i h h' => ?_) (by omega)
    rw [hV i h h']
    rfl
  · refine bisect_searched (fun i h h' => ?_) (by omega)
    obtain ⟨x, hx, hxW⟩ := Option.map_eq_some_iff.mp (hW i h h')
    rw [hx, ← hxW]
    rfl

/-- A grid of four points, and the same four points behind another one. -/
theorem gridSearch_searched_four :
    Searched (fun i : ℤ => 2 * i + 1) 3 0 (4 - 1) (gridSearch 4 (3 : ℤ) [1, 3, 5, 7])
        (gridSearchReads 4 (3 : ℤ) [1, 3, 5, 7]) ∧
      Searched (fun i : ℤ => 2 * i + 1) 3 0 3
        (gridSearchNuclide ([9, 1, 3, 5, 7].map fun e => ⟨e, 0, 0, 0, 0, 0⟩) 1 (3 : ℤ) 0 3)
        (gridSearchNuclideReads ([9, 1, 3, 5, 7].map fun e => ⟨e, 0, 0, 0, 0, 0⟩) 1 (3 : ℤ) 0 3) := by
  refine gridSearch_searched (fun i h h' => ?_) fun i h h' => ?_ <;>
    obtain rfl | rfl : i = 1 ∨ i = 2 := by omega
  all_goals rfl

/-- The searches depend on nothing but their reads. -/
theorem gridSearch_congr {U U' : List E} {n : ℤ} {q : E} (h : ∀ i ∈ gridSearchReads n q U, peek U' i = peek U i) :
    gridSearch n q U' = gridSearch n q U :=
  bisect_congr fun i hi => by rw [h i hi]

theorem gridSearchNuclide_congr {grid' : List (NuclideGridPoint E)} {base low high : ℤ} {q : E}
    (h : ∀ i ∈ gridSearchNuclideReads grid base q low high, peek grid' (base + i) = peek grid (base + i)) :
    gridSearchNuclide grid' base q low high = gridSearchNuclide grid base q low high :=
  bisect_congr fun i hi => by rw [h i hi]

/-! ### Sorting -/

theorem doubleCompare_le_zero {a b : E} : doubleCompare a b ≤ 0 ↔ a ≤ b := by
  unfold doubleCompare
  split
  case isTrue h => exact ⟨fun h' => by omega, fun h' => absurd h (not_lt.mpr h')⟩
  case isFalse h =>
    refine ⟨fun _ => not_lt.mp h, fun _ => ?_⟩
    split <;> omega

theorem qsort_perm {α : Type} (cmp : α → α → ℤ) (B : List α) : (qsort cmp B).Perm B :=
  List.perm_insertionSort _ B

theorem pairwise_qsort (B : List E) : (qsort doubleCompare B).Pairwise (· ≤ ·) := by
  have hle : (fun a b : E => doubleCompare a b ≤ 0) = fun a b => a ≤ b := by
    funext a b
    exact propext doubleCompare_le_zero
  simpa only [qsort, hle] using List.pairwise_insertionSort (· ≤ ·) B

theorem length_qsortAt {α : Type} {cmp : α → α → ℤ} {B C : List α} {start n : ℤ} (h : qsortAt cmp B start n = some C) :
    C.length = B.length ∧ start + n ≤ B.length := by
  unfold qsortAt at h
  split at h
  case isFalse => cases h
  case isTrue hin =>
    cases h
    have := (qsort_perm cmp ((B.drop start.toNat).take n.toNat)).length_eq
    simp only [List.length_append, List.length_take, List.length_drop] at this ⊢
    omega

theorem qsortAt_isSome {α : Type} (cmp : α → α → ℤ) {B : List α} {start n : ℤ} (h0 : 0 ≤ start) (hn : 0 ≤ n)
    (h : start + n ≤ B.length) : ∃ C, qsortAt cmp B start n = some C :=
  ⟨_, if_pos ⟨h0, hn, h⟩⟩

/-! ### The nuclide grid -/

variable {sampled : ℕ → NuclideGridPoint E}

/-- A nuclide grid that is built has all its points, and their number fits an `int`. -/
theorem initNuclideGrid_length (hN : 1 ≤ input.nIsotopes) (hn : 1 ≤ input.nGridpoints)
    (h : initNuclideGrid sampled input = some grid) :
    input.nIsotopes * input.nGridpoints < 2 ^ 31 ∧ grid.length = input.nIsotopes * input.nGridpoints := by
  obtain ⟨fresh, hfresh, hsort⟩ := Option.bind_eq_some_iff.mp h
  have hlen := length_tabulate hfresh
  have hinv := forUp_inv (P := fun k (B : List (NuclideGridPoint E)) =>
      B.length = fresh.length ∧ k * input.nGridpoints ≤ fresh.length) (by omega) hsort ⟨rfl, by omega⟩
    fun k B C _ _ hB hC => by
      obtain ⟨hkeep, hfit⟩ := length_qsortAt hC
      exact ⟨by omega, by rw [add_one_mul]; omega⟩
  have hpos : 0 ≤ input.nIsotopes * input.nGridpoints := mul_nonneg (by omega) (by omega)
  have hint := toInt_lt (input.nIsotopes * input.nGridpoints)
  have hall : input.nIsotopes * input.nGridpoints < 2 ^ 31 := by omega
  rw [toInt_eq hpos hall] at hlen
  exact ⟨hall, by omega⟩

theorem initNuclideGrid_isSome (hN : 1 ≤ input.nIsotopes) (hn : 1 ≤ input.nGridpoints)
    (h : input.nIsotopes * input.nGridpoints < 2 ^ 31) : ∃ grid, initNuclideGrid sampled input = some grid := by
  have hpos : 0 ≤ input.nIsotopes * input.nGridpoints := mul_nonneg (by omega) (by omega)
  obtain ⟨fresh, hfresh, hlen, -⟩ := tabulate_eq_some (f := fun i => some (sampled i.toNat))
    (g := fun i => sampled i.toNat) hpos fun _ _ _ => rfl
  have hsort : ∀ k (B : List (NuclideGridPoint E)), 0 ≤ k → k < input.nIsotopes → B.length = fresh.length →
      ∃ C, qsortAt ngpCompare B (k * input.nGridpoints) input.nGridpoints = some C ∧ C.length = fresh.length := by
    intro k B h0 hk hB
    have hrow : (k + 1) * input.nGridpoints ≤ input.nIsotopes * input.nGridpoints :=
      mul_le_mul_of_nonneg_right hk (by omega)
    rw [add_one_mul] at hrow
    obtain ⟨C, hC⟩ := qsortAt_isSome ngpCompare (mul_nonneg h0 (show 0 ≤ input.nGridpoints by omega))
      (show 0 ≤ input.nGridpoints by omega) (show _ ≤ (B.length : ℤ) by omega)
    exact ⟨C, hC, (length_qsortAt hC).1.trans hB⟩
  obtain ⟨grid, hgrid, -⟩ := forUp_total (P := fun _ (B : List (NuclideGridPoint E)) => B.length = fresh.length)
    (show 0 ≤ input.nIsotopes by omega) rfl hsort
  exact ⟨grid, by rw [initNuclideGrid, toInt_eq hpos h, hfresh]; exact hgrid⟩

end order

/-! ### The whole initialization -/

/-- The two grids that speed the lookups up, as each type of run builds them. -/
def IndexGridsBuilt [LinearOrder E] [HashArith E] (input : Inputs) (SD : SimulationData E) : GridType → Prop
  | .nuclide =>
    SD.unionizedEnergyArray = [] ∧ SD.indexGrid = [] ∧ SD.lengthUnionizedEnergyArray = 0 ∧ SD.lengthIndexGrid = 0
  | .unionized =>
    SD.lengthUnionizedEnergyArray = toInt (input.nIsotopes * input.nGridpoints) ∧
      SD.lengthIndexGrid = SD.lengthUnionizedEnergyArray * input.nIsotopes ∧
      initUnionizedEnergyArray SD.nuclideGrid SD.lengthUnionizedEnergyArray = some SD.unionizedEnergyArray ∧
      initIndexGrid input SD.nuclideGrid SD.unionizedEnergyArray SD.lengthUnionizedEnergyArray SD.lengthIndexGrid =
        some SD.indexGrid
  | .hash =>
    SD.unionizedEnergyArray = [] ∧ SD.lengthUnionizedEnergyArray = 0 ∧
      SD.lengthIndexGrid = input.hashBins * input.nIsotopes ∧
      initHashGrid input SD.nuclideGrid SD.lengthIndexGrid = some SD.indexGrid

/-- What the initialization leaves, member by member. -/
structure Built [LinearOrder E] [HashArith E] (sampled : ℕ → NuclideGridPoint E) (drawn : ℕ → E) (input : Inputs)
    (SD : SimulationData E) : Prop where
  numNucs : SD.numNucs = loadNumNucs input.nIsotopes
  mats : (SD.mats, SD.maxNumNucs) = loadMats SD.numNucs input.nIsotopes
  concs : SD.concs = loadConcs drawn SD.numNucs SD.maxNumNucs
  nuclideGrid : initNuclideGrid sampled input = some SD.nuclideGrid
  lengthNumNucs : SD.lengthNumNucs = 12
  lengthConcs : SD.lengthConcs = 12 * SD.maxNumNucs
  lengthMats : SD.lengthMats = 12 * SD.maxNumNucs
  lengthNuclideGrid : SD.lengthNuclideGrid = toInt (input.nIsotopes * input.nGridpoints)
  indexGrids : IndexGridsBuilt input SD input.gridType

theorem gridInitFrom_built [LinearOrder E] [HashArith E] {drawn : ℕ → E} {SD : SimulationData E}
    (h : gridInitFrom sampled drawn input = some SD) : Built sampled drawn input SD := by
  obtain ⟨grid, hgrid, h⟩ := Option.bind_eq_some_iff.mp h
  obtain ⟨nIsotopes, nGridpoints, g, hashBins⟩ := input
  cases g with
  | unionized =>
    obtain ⟨U, hU, h⟩ := Option.bind_eq_some_iff.mp h
    obtain ⟨I, hI, h⟩ := Option.bind_eq_some_iff.mp h
    cases h
    exact ⟨rfl, rfl, rfl, hgrid, rfl, rfl, rfl, rfl, rfl, rfl, hU, hI⟩
  | nuclide =>
    cases h
    exact ⟨rfl, rfl, rfl, hgrid, rfl, rfl, rfl, rfl, rfl, rfl, rfl, rfl⟩
  | hash =>
    obtain ⟨I, hI, h⟩ := Option.bind_eq_some_iff.mp h
    cases h
    exact ⟨rfl, rfl, rfl, hgrid, rfl, rfl, rfl, rfl, rfl, rfl, rfl, hI⟩

end NuKSM.XSBench
