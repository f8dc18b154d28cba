import NuKSM.Theorems.XSBench.GridLengths
import NuKSM.XSBench.BinaryFile

/-! # The binary file restores the data

Whatever type of grid was built, its arrays are as long as their length fields say, and `binary_read` makes of the file
of `binary_write` what was written, at new places in memory. -/

namespace NuKSM.XSBench
open Stored
variable {E : Type} {input : Inputs}

/-! ### Memory that holds the data -/

def FitsInt (x : ℤ) : Prop := -2 ^ 31 ≤ x ∧ x < 2 ^ 31

/-- The values of an array, where it was written. -/
def Fills {α β : Type} (value : β → α) (A : List (Option α)) (B : List β) : Prop :=
  List.Forall₂ (fun x y => ∀ v ∈ x, value y = v) A B

structure InMemory.Holds (m : InMemory E) (SD : SimulationData E) : Prop where
  lengthNumNucs : m.header.lengthNumNucs.toInt = SD.lengthNumNucs
  lengthConcs : m.header.lengthConcs.toInt = SD.lengthConcs
  lengthMats : m.header.lengthMats.toInt = SD.lengthMats
  lengthUnionizedEnergyArray : m.header.lengthUnionizedEnergyArray.toInt = SD.lengthUnionizedEnergyArray
  lengthIndexGrid : m.header.lengthIndexGrid.toInt = SD.lengthIndexGrid
  lengthNuclideGrid : m.header.lengthNuclideGrid.toInt = SD.lengthNuclideGrid
  maxNumNucs : m.header.maxNumNucs.toInt = SD.maxNumNucs
  numNucs : m.numNucs.map Int32.toInt = SD.numNucs
  concs : Fills id SD.concs m.concs
  mats : Fills Int32.toInt SD.mats m.mats
  nuclideGrid : m.nuclideGrid = SD.nuclideGrid
  indexGrid : Fills Int32.toInt SD.indexGrid m.indexGrid
  unionizedEnergyArray : m.unionizedEnergyArray = SD.unionizedEnergyArray

/-- The arrays are as long as the length fields say. -/
structure SimulationData.Sized (SD : SimulationData E) : Prop where
  numNucs : SD.numNucs.length = SD.lengthNumNucs
  concs : SD.concs.length = SD.lengthConcs
  mats : SD.mats.length = SD.lengthMats
  nuclideGrid : SD.nuclideGrid.length = SD.lengthNuclideGrid
  indexGrid : SD.indexGrid.length = SD.lengthIndexGrid
  unionizedEnergyArray : SD.unionizedEnergyArray.length = SD.lengthUnionizedEnergyArray

/-- The numbers of the `int` arrays fit an `int`. -/
structure SimulationData.IntsFit (SD : SimulationData E) : Prop where
  numNucs : ∀ x ∈ SD.numNucs, FitsInt x
  mats : ∀ x, some x ∈ SD.mats → FitsInt x
  indexGrid : ∀ x, some x ∈ SD.indexGrid → FitsInt x

theorem fitsInt_of_nonneg {x : ℤ} (h0 : 0 ≤ x) (h : x < 2 ^ 31) : FitsInt x := ⟨by omega, h⟩

theorem fitsInt_toInt (x : ℤ) : FitsInt (toInt x) := ⟨Int.le_bmod (by decide), toInt_lt x⟩

theorem toInt_ofInt {x : ℤ} (h : FitsInt x) : (Int32.ofInt x).toInt = x := Int32.toInt_ofInt_of_le h.1 h.2

theorem fills_ofInt {A : List (Option ℤ)} (h : ∀ x, some x ∈ A → FitsInt x) :
    Fills Int32.toInt A (A.map fun x => Int32.ofInt (x.getD 0)) := by
  refine List.forall₂_map_right_iff.mpr (List.forall₂_same.mpr fun x hx v hv => ?_)
  rw [Option.mem_def] at hv
  subst hv
  exact toInt_ofInt (h v hx)

theorem fills_getD (A : List (Option E)) (e : E) : Fills id A (A.map fun x => x.getD e) := by
  refine List.forall₂_map_right_iff.mpr (List.forall₂_same.mpr fun x _ v hv => ?_)
  rw [Option.mem_def] at hv
  subst hv
  rfl

/-! ### The material tables -/

theorem length_padRow {α : Type} {width : ℤ} {row : List α} (h : row.length ≤ width.toNat) :
    (padRow width row).length = width.toNat := by
  rw [padRow, List.length_append, List.length_map, List.length_replicate]
  omega

/-- Every material has a row of the same width. -/
theorem length_loadConcs (drawn : ℕ → E) {numNucs : List ℤ} {width : ℤ} (h : ∀ n ∈ numNucs, n ≤ width) :
    (loadConcs drawn numNucs width).length = numNucs.length * width.toNat := by
  have hfold : ∀ (rows : List ℤ) (concs : List (Option E)) (k : ℕ), (∀ n ∈ rows, n ≤ width) →
      (rows.foldl (fun (s : List (Option E) × ℕ) n =>
        (s.1 ++ padRow width ((List.range n.toNat).map fun j => drawn (s.2 + j)), s.2 + n.toNat))
        (concs, k)).1.length = concs.length + rows.length * width.toNat := by
    intro rows
    induction rows with
    | nil => simp
    | cons n rows ih =>
      intro concs k hrows
      have hn := hrows n (List.mem_cons_self ..)
      refine (ih _ _ fun m hm => hrows m (List.mem_cons_of_mem n hm)).trans ?_
      dsimp only
      rw [List.length_append, length_padRow (by rw [List.length_map, List.length_range]; omega), List.length_cons, add_one_mul]
      omega
  exact (hfold numNucs [] 0 h).trans (by rw [List.length_nil, zero_add])

/-- There are two sets of tables. -/
theorem materials_cases {P : List ℤ → List (Option ℤ) × ℤ → Prop} (nIsotopes : ℤ)
    (h : ∀ n ∈ [(68 : ℤ), 355], P (loadNumNucs n) (loadMats (loadNumNucs n) n)) :
    P (loadNumNucs nIsotopes) (loadMats (loadNumNucs nIsotopes) nIsotopes) := by
  rcases eq_or_ne nIsotopes 68 with rfl | hne
  · exact h 68 (by simp)
  · have hnum : loadNumNucs nIsotopes = loadNumNucs 355 := by simp [loadNumNucs, hne]
    have hmats : loadMats (loadNumNucs 355) nIsotopes = loadMats (loadNumNucs 355) 355 := by
      simp [loadMats, Materials.table, hne]
    rw [hnum, hmats]
    exact h 355 (by simp)

theorem maxNumNucs_bounds (nIsotopes : ℤ) :
    0 ≤ (loadMats (loadNumNucs nIsotopes) nIsotopes).2 ∧ (loadMats (loadNumNucs nIsotopes) nIsotopes).2 ≤ 321 :=
  materials_cases (P := fun _ mats => 0 ≤ mats.2 ∧ mats.2 ≤ 321) nIsotopes (by decide +kernel)

theorem loadNumNucs_bounds (nIsotopes : ℤ) :
    ∀ x ∈ loadNumNucs nIsotopes, 0 ≤ x ∧ x ≤ (loadMats (loadNumNucs nIsotopes) nIsotopes).2 :=
  materials_cases (P := fun numNucs mats => ∀ x ∈ numNucs, 0 ≤ x ∧ x ≤ mats.2) nIsotopes (by decide +kernel)

theorem length_loadMats (nIsotopes : ℤ) :
    (loadMats (loadNumNucs nIsotopes) nIsotopes).1.length = 12 * (loadMats (loadNumNucs nIsotopes) nIsotopes).2 :=
  materials_cases (P := fun _ mats => mats.1.length = 12 * mats.2) nIsotopes (by decide +kernel)

theorem loadMats_fits (nIsotopes : ℤ) :
    ∀ x ∈ (loadMats (loadNumNucs nIsotopes) nIsotopes).1, ∀ nuc ∈ x, 0 ≤ nuc ∧ nuc < 355 :=
  materials_cases (P := fun _ mats => ∀ x ∈ mats.1, ∀ nuc ∈ x, 0 ≤ nuc ∧ nuc < 355) nIsotopes (by decide +kernel)

/-! ### The grids -/

section grids
variable [LinearOrder E] {sampled : ℕ → NuclideGridPoint E} {grid : List (NuclideGridPoint E)} {U : List E}
  {I : List (Option ℤ)} {len lenI : ℤ}

/-- The sorting keeps the length, and it does not accept a negative number of points. -/
theorem initNuclideGrid_sorted (h : initNuclideGrid sampled input = some grid) :
    grid.length = toInt (input.nIsotopes * input.nGridpoints) ∧ (1 ≤ input.nIsotopes → 0 ≤ input.nGridpoints) := by
  obtain ⟨fresh, hfresh, hsort⟩ := Option.bind_eq_some_iff.mp h
  rw [← length_tabulate hfresh]
  constructor
  · exact forUp_keeps (P := fun B => (B.length : ℤ) = fresh.length) hsort rfl fun k B C _ _ hB hC => by
      rw [(length_qsortAt hC).1, hB]
  · intro hN
    refine forUp_inv (P := fun k _ => 1 ≤ k → 0 ≤ input.nGridpoints) (by omega) hsort (by omega)
      (fun k B C _ _ _ hC _ => ?_) hN
    unfold qsortAt at hC
    split at hC
    case isTrue hin => exact hin.2.1
    case isFalse => cases hC

theorem length_initUnionizedEnergyArray (h : initUnionizedEnergyArray grid len = some U) : U.length = len := by
  obtain ⟨energies, henergies, hU⟩ := Option.bind_eq_some_iff.mp h
  cases hU
  rw [(qsort_perm doubleCompare _).length_eq, length_tabulate henergies]

/-- The index grid has its length, and the numbers in it fit an `int`. -/
structure IndexInv (len : ℤ) (I : List (Option ℤ)) : Prop where
  length : I.length = len
  fits : ∀ x, some x ∈ I → FitsInt x

theorem IndexInv.init (h : allocate lenI none = some I) : IndexInv lenI I where
  length := (mem_allocate h).1
  fits x hx := by
    have := (mem_allocate h).2 _ hx
    cases this

theorem IndexInv.poke {J : List (Option ℤ)} {p x : ℤ} (hinv : IndexInv lenI I) (hx : FitsInt x)
    (h : poke I p (some x) = some J) : IndexInv lenI J where
  length := by rw [(poke_eq_some h).1]; exact hinv.length
  fits y hy := by
    rcases (poke_eq_some h).2 _ hy with heq | hmem
    · exact Option.some.inj heq ▸ hx
    · exact hinv.fits y hmem

theorem initHashGrid_inv [HashArith E] (h : initHashGrid input grid lenI = some I) : IndexInv lenI I := by
  obtain ⟨fresh, hfresh, hrun⟩ := Option.bind_eq_some_iff.mp h
  refine forUp_keeps hrun (IndexInv.init hfresh) fun e B C _ _ hB hC => ?_
  refine forUp_keeps hC hB fun i B C _ _ hB hC => ?_
  obtain ⟨low, -, hpoke⟩ := Option.bind_eq_some_iff.mp hC
  exact hB.poke (fitsInt_toInt low) hpoke

/-- The sweep keeps the numbers of all nuclides in the `int`s. -/
structure SweepInv (lenI : ℤ) (s : Sweep E) : Prop where
  index : IndexInv lenI s.indexGrid
  low : ∀ x ∈ s.idxLow, 0 ≤ x ∧ x < 2 ^ 31

theorem sweepNuclide_inv {s s' : Sweep E} {u : E} {e i : ℤ} (hlen : (grid.length : ℤ) < 2 ^ 31)
    (hn : 0 ≤ i * input.nGridpoints) (hinv : SweepInv lenI s) (h : sweepNuclide input grid u e s i = some s') :
    SweepInv lenI s' := by
  obtain ⟨high, -, h⟩ := Option.bind_eq_some_iff.mp h
  obtain ⟨low, hlow, h⟩ := Option.bind_eq_some_iff.mp h
  obtain ⟨hlow0, hlow1⟩ := hinv.low low (mem_of_peek hlow)
  split at h
  · obtain ⟨I, hI, h⟩ := Option.bind_eq_some_iff.mp h
    cases h
    exact ⟨hinv.index.poke (fitsInt_of_nonneg hlow0 hlow1) hI, hinv.low⟩
  · split at h
    · obtain ⟨I, hI, h⟩ := Option.bind_eq_some_iff.mp h
      cases h
      exact ⟨hinv.index.poke (fitsInt_of_nonneg hlow0 hlow1) hI, hinv.low⟩
    · obtain ⟨idxLow, hidx, h⟩ := Option.bind_eq_some_iff.mp h
      obtain ⟨I, hI, h⟩ := Option.bind_eq_some_iff.mp h
      obtain ⟨next, hnext, h⟩ := Option.bind_eq_some_iff.mp h
      obtain ⟨energyHigh, -, h⟩ := Option.bind_eq_some_iff.mp h
      cases h
      -- The read of the next point bounds the new number.
      have hread := (peek_bounds hnext).2
      refine ⟨hinv.index.poke (fitsInt_of_nonneg (by omega) (by omega)) hI, fun x hx => ?_⟩
      rcases (poke_eq_some hidx).2 x hx with rfl | hmem
      · omega
      · exact hinv.low x hmem

theorem initIndexGrid_inv (hlen : (grid.length : ℤ) < 2 ^ 31) (hn : 1 ≤ input.nIsotopes → 0 ≤ input.nGridpoints)
    (h : initIndexGrid input grid U len lenI = some I) : IndexInv lenI I := by
  obtain ⟨fresh, hfresh, h⟩ := Option.bind_eq_some_iff.mp h
  obtain ⟨idxLow, hidx, h⟩ := Option.bind_eq_some_iff.mp h
  obtain ⟨energyHigh, -, h⟩ := Option.bind_eq_some_iff.mp h
  obtain ⟨s, hrun, h⟩ := Option.bind_eq_some_iff.mp h
  cases h
  have hinit : SweepInv lenI ⟨idxLow, energyHigh, fresh⟩ :=
    ⟨.init hfresh, fun x hx => by rw [(mem_allocate hidx).2 x hx]; omega⟩
  have hinv : SweepInv lenI s := forUp_keeps hrun hinit fun e s s' _ _ hs hs' => by
    obtain ⟨u, -, hrow⟩ := Option.bind_eq_some_iff.mp hs'
    exact forUp_keeps hrow hs fun i s s' hi0 hi hs hs' =>
      sweepNuclide_inv hlen (mul_nonneg hi0 (hn (by omega))) hs hs'
  exact hinv.index

end grids

/-! ### What the initialization leaves -/

section built
variable [LinearOrder E] [HashArith E] {sampled : ℕ → NuclideGridPoint E} {drawn : ℕ → E} {SD : SimulationData E}

theorem Built.maxNumNucs_bounds (h : Built sampled drawn input SD) : 0 ≤ SD.maxNumNucs ∧ SD.maxNumNucs ≤ 321 := by
  have hmax := congrArg Prod.snd h.mats
  rw [h.numNucs] at hmax
  change SD.maxNumNucs = _ at hmax
  rw [hmax]
  exact XSBench.maxNumNucs_bounds input.nIsotopes

theorem Built.index (h : Built sampled drawn input SD) : IndexInv SD.lengthIndexGrid SD.indexGrid := by
  obtain ⟨hlen, hn⟩ := initNuclideGrid_sorted h.nuclideGrid
  have hgrids := h.indexGrids
  rcases hg : input.gridType with _ | _ | _ <;> rw [hg] at hgrids
  · obtain ⟨-, -, -, hI⟩ := hgrids
    exact initIndexGrid_inv (hlen ▸ toInt_lt _) hn hI
  · obtain ⟨-, hI, -, hlenI⟩ := hgrids
    rw [hI, hlenI]
    exact ⟨rfl, fun x hx => by cases hx⟩
  · obtain ⟨-, -, -, hI⟩ := hgrids
    exact initHashGrid_inv hI

theorem Built.sized (h : Built sampled drawn input SD) : SD.Sized where
  numNucs := by
    rw [h.numNucs, h.lengthNumNucs]
    rfl
  concs := by
    obtain ⟨hmax, -⟩ := h.maxNumNucs_bounds
    have hrows : ∀ n ∈ SD.numNucs, n ≤ SD.maxNumNucs := by
      have hmats := congrArg Prod.snd h.mats
      rw [h.numNucs] at hmats ⊢
      change SD.maxNumNucs = _ at hmats
      rw [hmats]
      exact fun n hn => (loadNumNucs_bounds input.nIsotopes n hn).2
    have hnum : SD.numNucs.length = 12 := by rw [h.numNucs]; rfl
    rw [h.concs, length_loadConcs drawn hrows, hnum, h.lengthConcs]
    push_cast
    omega
  mats := by
    have hlen := length_loadMats input.nIsotopes
    rw [← h.numNucs, ← h.mats] at hlen
    rw [h.lengthMats, hlen]
  nuclideGrid := by
    rw [h.lengthNuclideGrid]
    exact (initNuclideGrid_sorted h.nuclideGrid).1
  indexGrid := h.index.length
  unionizedEnergyArray := by
    have hgrids := h.indexGrids
    rcases hg : input.gridType with _ | _ | _ <;> rw [hg] at hgrids
    · obtain ⟨-, -, hU, -⟩ := hgrids
      exact length_initUnionizedEnergyArray hU
    · obtain ⟨hU, -, hlenU, -⟩ := hgrids
      rw [hU, hlenU]
      rfl
    · obtain ⟨hU, hlenU, -, -⟩ := hgrids
      rw [hU, hlenU]
      rfl

theorem Built.intsFit (h : Built sampled drawn input SD) : SD.IntsFit where
  numNucs x hx := by
    rw [h.numNucs] at hx
    obtain ⟨h0, h1⟩ := loadNumNucs_bounds input.nIsotopes x hx
    have := (XSBench.maxNumNucs_bounds input.nIsotopes).2
    exact fitsInt_of_nonneg h0 (by omega)
  mats x hx := by
    have hmats := loadMats_fits input.nIsotopes
    rw [← h.numNucs, ← h.mats] at hmats
    obtain ⟨h0, h1⟩ := hmats _ hx x rfl
    exact fitsInt_of_nonneg h0 (by omega)
  indexGrid := h.index.fits

/-- The length of the unionized array is one of an `int` in every mode. -/
theorem Built.lengthUnionizedEnergyArray_fits (h : Built sampled drawn input SD) :
    FitsInt SD.lengthUnionizedEnergyArray := by
  have hgrids := h.indexGrids
  rcases hg : input.gridType with _ | _ | _ <;> rw [hg] at hgrids
  · rw [hgrids.1]
    exact fitsInt_toInt _
  · rw [hgrids.2.2.1]
    exact fitsInt_of_nonneg le_rfl (by omega)
  · rw [hgrids.2.1]
    exact fitsInt_of_nonneg le_rfl (by omega)

/-- The data has a place in memory if the one `long` among the lengths fits. -/
theorem Built.exists_holds (h : Built sampled drawn input SD) (hfit : SD.lengthIndexGrid < 2 ^ 63) :
    ∃ m : InMemory E, m.Holds SD := by
  obtain ⟨hmax0, hmax⟩ := h.maxNumNucs_bounds
  have hindex := h.index.length
  have hints := h.intsFit
  refine ⟨{
    header := {
      pointers := ⟨0, 0, 0, 0, 0, 0⟩
      lengthNumNucs := .ofInt SD.lengthNumNucs
      lengthConcs := .ofInt SD.lengthConcs
      lengthMats := .ofInt SD.lengthMats
      lengthUnionizedEnergyArray := .ofInt SD.lengthUnionizedEnergyArray
      lengthIndexGrid := .ofInt SD.lengthIndexGrid
      lengthNuclideGrid := .ofInt SD.lengthNuclideGrid
      maxNumNucs := .ofInt SD.maxNumNucs
      pEnergySamples := 0
      lengthPEnergySamples := 0
      padding := 0
      matSamples := 0
      lengthMatSamples := 0
      tailPadding := 0 }
    numNucs := SD.numNucs.map .ofInt
    concs := SD.concs.map fun x => x.getD (sampled 0).energy
    mats := SD.mats.map fun x => .ofInt (x.getD 0)
    nuclideGrid := SD.nuclideGrid
    indexGrid := SD.indexGrid.map fun x => .ofInt (x.getD 0)
    unionizedEnergyArray := SD.unionizedEnergyArray }, ?_⟩
  refine ⟨toInt_ofInt ?_, toInt_ofInt ?_, toInt_ofInt ?_, toInt_ofInt h.lengthUnionizedEnergyArray_fits,
    Int64.toInt_ofInt_of_le (by omega) hfit, toInt_ofInt ?_, toInt_ofInt (fitsInt_of_nonneg hmax0 (by omega)), ?_,
    fills_getD SD.concs _, fills_ofInt hints.mats, rfl, fills_ofInt hints.indexGrid, rfl⟩
  · rw [h.lengthNumNucs]
    exact fitsInt_of_nonneg (by omega) (by omega)
  · rw [h.lengthConcs]
    exact fitsInt_of_nonneg (by omega) (by omega)
  · rw [h.lengthMats]
    exact fitsInt_of_nonneg (by omega) (by omega)
  · rw [h.lengthNuclideGrid]
    exact fitsInt_toInt _
  · rw [List.map_map]
    exact (List.map_congr_left fun x hx => toInt_ofInt (hints.numNucs x hx)).trans (List.map_id _)

end built

/-! ### Writing and reading -/

/-- The arrays in memory are as long as the header says. -/
structure InMemory.Whole (m : InMemory E) : Prop where
  numNucs : m.numNucs.length = m.header.lengthNumNucs.toInt
  concs : m.concs.length = m.header.lengthConcs.toInt
  mats : m.mats.length = m.header.lengthMats.toInt
  nuclideGrid : m.nuclideGrid.length = m.header.lengthNuclideGrid.toInt
  indexGrid : m.indexGrid.length = m.header.lengthIndexGrid.toInt
  unionizedEnergyArray : m.unionizedEnergyArray.length = m.header.lengthUnionizedEnergyArray.toInt

theorem InMemory.Holds.whole {m : InMemory E} {SD : SimulationData E} (hm : m.Holds SD) (hs : SD.Sized) : m.Whole where
  numNucs := by rw [hm.lengthNumNucs, ← hs.numNucs, ← hm.numNucs, List.length_map]
  concs := by rw [hm.lengthConcs, ← hs.concs, hm.concs.length_eq]
  mats := by rw [hm.lengthMats, ← hs.mats, hm.mats.length_eq]
  nuclideGrid := by rw [hm.lengthNuclideGrid, ← hs.nuclideGrid, hm.nuclideGrid]
  indexGrid := by rw [hm.lengthIndexGrid, ← hs.indexGrid, hm.indexGrid.length_eq]
  unionizedEnergyArray := by
    rw [hm.lengthUnionizedEnergyArray, ← hs.unionizedEnergyArray, hm.unionizedEnergyArray]

/-- What the pointers are does not matter for the data. -/
theorem InMemory.Holds.at {m : InMemory E} {SD : SimulationData E} (hm : m.Holds SD) (pointers : Pointers) :
    InMemory.Holds { m with header := { m.header with pointers } } SD :=
  ⟨hm.lengthNumNucs, hm.lengthConcs, hm.lengthMats, hm.lengthUnionizedEnergyArray, hm.lengthIndexGrid,
    hm.lengthNuclideGrid, hm.maxNumNucs, hm.numNucs, hm.concs, hm.mats, hm.nuclideGrid, hm.indexGrid,
    hm.unionizedEnergyArray⟩

section file
variable [Stored E]

def InMemory.file (m : InMemory E) : List UInt8 :=
  bytes m.header ++ (m.numNucs.flatMap bytes ++ (m.concs.flatMap bytes ++ (m.mats.flatMap bytes ++
    (m.nuclideGrid.flatMap bytes ++ (m.indexGrid.flatMap bytes ++ (m.unionizedEnergyArray.flatMap bytes ++ []))))))

/-- The file as the calls append to it, and as they read it. -/
theorem append_parts (a b c d e f g : List UInt8) :
    [] ++ a ++ b ++ c ++ d ++ e ++ f ++ g = a ++ (b ++ (c ++ (d ++ (e ++ (f ++ (g ++ [])))))) := by
  simp

theorem binaryWrite_whole {m : InMemory E} (h : m.Whole) : binaryWrite m = some m.file := by
  have hheader : (([m.header].length : ℕ) : ℤ) = 1 := by simp
  unfold binaryWrite writeCalls
  rw [run_bind_eq (fwrite_whole hheader _), run_bind_eq (fwrite_whole h.numNucs _),
    run_bind_eq (fwrite_whole h.concs _), run_bind_eq (fwrite_whole h.mats _),
    run_bind_eq (fwrite_whole h.nuclideGrid _), run_bind_eq (fwrite_whole h.indexGrid _),
    fwrite_whole h.unionizedEnergyArray, Option.map_some, append_parts, List.flatMap_singleton]
  rfl

theorem binaryRead_file {m : InMemory E} (h : m.Whole) (pointers : Pointers) :
    binaryRead pointers m.file = some { m with header := { m.header with pointers } } := by
  unfold binaryRead readCalls InMemory.file
  rw [run_bind_eq (take_bytes m.header _), run_bind_eq (fread_whole h.numNucs _),
    run_bind_eq (fread_whole h.concs _), run_bind_eq (fread_whole h.mats _),
    run_bind_eq (fread_whole h.nuclideGrid _), run_bind_eq (fread_whole h.indexGrid _),
    run_bind_eq (fread_whole h.unionizedEnergyArray _)]
  rfl

end file

/-- Whatever was built has a place in memory, and from there it comes back through the file: the same header but for the
pointers, and the same arrays. -/
theorem binaryRead_binaryWrite [Stored E] [LinearOrder E] [HashArith E] {sampled : ℕ → NuclideGridPoint E}
    {drawn : ℕ → E} {SD : SimulationData E} (h : gridInitFrom sampled drawn input = some SD)
    (hfit : SD.lengthIndexGrid < 2 ^ 63) :
    (∃ m : InMemory E, m.Holds SD) ∧ ∀ (m : InMemory E) (pointers : Pointers), m.Holds SD →
      ∃ file m', binaryWrite m = some file ∧ binaryRead pointers file = some m' ∧ m'.Holds SD ∧
        m' = { m with header := { m.header with pointers } } := by
  have hbuilt := gridInitFrom_built h
  refine ⟨hbuilt.exists_holds hfit, fun m pointers hm => ?_⟩
  have hwhole := hm.whole hbuilt.sized
  exact ⟨m.file, _, binaryWrite_whole hwhole, binaryRead_file hwhole pointers, hm.at pointers, rfl⟩

/-- A number that the generator draws, as a multiple of `2 ^ -63`. -/
abbrev DrawnNumber := Fin (2 ^ 63)

instance : Stored DrawnNumber where
  bytes x := LittleEndian.encode 8 x
  take := Fin.ofNat (2 ^ 63) <$> takeWord 8
  take_bytes x rest := by
    rw [map_takeWord_encode _ (by omega)]
    simp

instance : HashArith DrawnNumber where
  binEnergy hashBins e := Fin.ofNat _ (e * 2 ^ 63 / hashBins).toNat
  binIndex hashBins pEnergy := pEnergy * hashBins / 2 ^ 63

def drawnPoint (i : ℕ) : NuclideGridPoint DrawnNumber :=
  let draw k : DrawnNumber := Fin.ofNat _ (lcgNext^[k + 1] 42).toNat
  ⟨draw (6 * i), draw (6 * i + 1), draw (6 * i + 2), draw (6 * i + 3), draw (6 * i + 4), draw (6 * i + 5)⟩

theorem binaryRead_binaryWrite_drawn :
    ∃ SD, gridInitFrom drawnPoint (fun _ => 0) { tiedInputs with gridType := .unionized } = some SD ∧
      ∃ (m m' : InMemory DrawnNumber) (file : List UInt8), m.Holds SD ∧ binaryWrite m = some file ∧
        binaryRead m.header.pointers file = some m' ∧ m'.Holds SD := by
  have hsome : (gridInitFrom drawnPoint (fun _ => 0) { tiedInputs with gridType := .unionized }).isSome = true :=
    (gridInitFrom_isSome_iff (by decide) (by decide) (by decide) .unionized).mpr (by decide)
  obtain ⟨SD, hSD⟩ := Option.isSome_iff_exists.mp hsome
  have hlen : SD.lengthIndexGrid = 12 := congrArg GridLengths.indexGrid (gridInitFrom_gridLengths hSD)
  obtain ⟨⟨m, hm⟩, hread⟩ := binaryRead_binaryWrite hSD (by omega)
  obtain ⟨file, m', hw, hr, hm', -⟩ := hread m m.header.pointers hm
  exact ⟨SD, hSD, m, m', file, hm, hw, hr, hm'⟩

end NuKSM.XSBench
