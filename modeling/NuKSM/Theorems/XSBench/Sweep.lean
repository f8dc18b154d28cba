import NuKSM.Theorems.XSBench.Grid

/-! # The sweep that fills the index grid

The sweep handles the nuclides independently: what it does to one of them is a `ColumnRule` on the number of
unionized points seen and the index reached. Such a rule then holds of every entry of the index grid. -/

namespace NuKSM.XSBench
variable {E : Type}

/-- A relation between the nuclide, the number of unionized points it has seen and its `idx_low` that every branch of
the sweep keeps. The nuclides have the energies `A`, and the unionized points are `V 0, …, V (len - 1)`. -/
structure ColumnRule [LinearOrder E] (input : Inputs) (A : ℤ → ℤ → E) (V : ℤ → E) (len : ℤ) (P : ℤ → ℤ → ℤ → Prop) : Prop where
  bounds : ∀ {i k m}, P i k m → 0 ≤ m ∧ m ≤ input.nGridpoints - 2
  zero : ∀ {i}, 0 ≤ i → i < input.nIsotopes → P i 0 0
  stay : ∀ {i k m}, P i k m → V k < A i (m + 1) → P i (k + 1) m
  top : ∀ {i k m}, P i k m → m = input.nGridpoints - 2 → P i (k + 1) m
  advance : ∀ {i k m}, 0 ≤ i → i < input.nIsotopes → 0 ≤ k → k < len → P i k m → m ≠ input.nGridpoints - 2 →
    A i (m + 1) ≤ V k → P i (k + 1) (m + 1)

/-- The arrays hold for the nuclide `i` what it needs to go on from the point `k`. -/
def Column (A : ℤ → ℤ → E) (P : ℤ → ℤ → ℤ → Prop) (k i : ℤ) (s : Sweep E) : Prop :=
  ∃ m, peek s.idxLow i = some m ∧ peek s.energyHigh i = some (A i (m + 1)) ∧ P i k m

/-- The entry of the index grid for the point `k` and the nuclide `i` is written. -/
def Entry (input : Inputs) (P : ℤ → ℤ → ℤ → Prop) (k i : ℤ) (indexGrid : List (Option ℤ)) : Prop :=
  ∃ m, peek indexGrid (k * input.nIsotopes + i) = some (some m) ∧ P i (k + 1) m

/-- The sweep state between two nuclides: the first `i` have seen the point `e`, the others not yet. -/
structure RowInv (input : Inputs) (A : ℤ → ℤ → E) (P : ℤ → ℤ → ℤ → Prop) (len e i : ℤ) (s : Sweep E) : Prop where
  length_low : s.idxLow.length = input.nIsotopes
  length_high : s.energyHigh.length = input.nIsotopes
  length_index : s.indexGrid.length = len * input.nIsotopes
  seen : ∀ c, 0 ≤ c → c < i → Column A P (e + 1) c s
  ahead : ∀ c, i ≤ c → c < input.nIsotopes → Column A P e c s
  rows : ∀ k c, 0 ≤ k → k < e → 0 ≤ c → c < input.nIsotopes → Entry input P k c s.indexGrid
  row : ∀ c, 0 ≤ c → c < i → Entry input P e c s.indexGrid

/-- What one body of the inner loop does: it updates the nuclide `i` and writes its entry for the point `e`. -/
structure Updates (input : Inputs) (A : ℤ → ℤ → E) (P : ℤ → ℤ → ℤ → Prop) (e i : ℤ) (s s' : Sweep E) : Prop where
  length_low : s'.idxLow.length = s.idxLow.length
  length_high : s'.energyHigh.length = s.energyHigh.length
  length_index : s'.indexGrid.length = s.indexGrid.length
  column : Column A P (e + 1) i s'
  entry : Entry input P e i s'.indexGrid
  low_ne : ∀ c, c ≠ i → peek s'.idxLow c = peek s.idxLow c
  high_ne : ∀ c, c ≠ i → peek s'.energyHigh c = peek s.energyHigh c
  index_ne : ∀ p, p ≠ e * input.nIsotopes + i → peek s'.indexGrid p = peek s.indexGrid p

/-- The arrays of the sweep as `initIndexGrid` allocates them. -/
def sweepInit (input : Inputs) (nuclideGrid : List (NuclideGridPoint E)) (lengthIndexGrid : ℤ) : Option (Sweep E) := do
  let indexGrid ← allocate lengthIndexGrid none
  let idxLow ← allocate input.nIsotopes 0
  let energyHigh ← tabulate input.nIsotopes fun i => (peek nuclideGrid (i * input.nGridpoints + 1)).map (·.energy)
  return { idxLow, energyHigh, indexGrid }

/-- The state of a sweep from `s` when it comes to the nuclide `i` of the unionized point `e`. -/
def sweepBefore [LinearOrder E] (input : Inputs) (nuclideGrid : List (NuclideGridPoint E))
    (unionizedEnergyArray : List E) (s : Sweep E) (e i : ℤ) : Option (Sweep E) := do
  let s ← forUp e (sweepPoint input nuclideGrid unionizedEnergyArray) s
  let unionizedEnergy ← peek unionizedEnergyArray e
  forUp i (sweepNuclide input nuclideGrid unionizedEnergy e) s

section rule
variable {input : Inputs} {grid : List (NuclideGridPoint E)} {A : ℤ → ℤ → E} {V : ℤ → E} {len : ℤ}
  {P : ℤ → ℤ → ℤ → Prop} {e i : ℤ} {s s' : Sweep E}

theorem Column.of_updates (h : Updates input A P e i s s') {k c : ℤ} (hc : c ≠ i) (hs : Column A P k c s) :
    Column A P k c s' := by
  obtain ⟨m, hlow, hhigh, hP⟩ := hs
  exact ⟨m, by rw [h.low_ne c hc, hlow], by rw [h.high_ne c hc, hhigh], hP⟩

theorem Entry.of_updates (h : Updates input A P e i s s') {k c : ℤ} (hi0 : 0 ≤ i) (hi : i < input.nIsotopes)
    (hc0 : 0 ≤ c) (hc : c < input.nIsotopes) (hne : k ≠ e ∨ c ≠ i) (hs : Entry input P k c s.indexGrid) :
    Entry input P k c s'.indexGrid := by
  obtain ⟨m, hm, hP⟩ := hs
  refine ⟨m, ?_, hP⟩
  rw [h.index_ne _ fun heq => ?_, hm]
  obtain ⟨rfl, rfl⟩ := flat_inj hc0 hc hi0 hi heq
  rcases hne with hne | hne <;> exact hne rfl

/-- A branch that leaves `idx_low[i]` as it is. -/
theorem updates_keep {m : ℤ} (h0 : 0 ≤ e) (he : e < len) (hi0 : 0 ≤ i) (hi : i < input.nIsotopes)
    (hinv : RowInv input A P len e i s) (hlow : peek s.idxLow i = some m)
    (hhigh : peek s.energyHigh i = some (A i (m + 1))) (hP : P i (e + 1) m) :
    ∃ indexGrid, poke s.indexGrid (e * input.nIsotopes + i) (some m) = some indexGrid ∧
      Updates input A P e i s { s with indexGrid } := by
  obtain ⟨hp0, hp⟩ := flat_lt h0 he hi0 hi
  obtain ⟨indexGrid, hpoke, hlen, hsame, hother⟩ := poke_spec (some m) hp0 (hinv.length_index ▸ hp)
  exact ⟨indexGrid, hpoke, rfl, rfl, hlen, ⟨m, hlow, hhigh, hP⟩, ⟨m, hsame, hP⟩, fun _ _ => rfl, fun _ _ => rfl, hother⟩

/-- The body of the inner loop. -/
theorem sweepNuclide_updates [LinearOrder E] (hrule : ColumnRule input A V len P) (hA : HasEnergies input grid A)
    (h0 : 0 ≤ e) (he : e < len) (hi0 : 0 ≤ i) (hi : i < input.nIsotopes) (hinv : RowInv input A P len e i s) :
    ∃ s', sweepNuclide input grid (V e) e s i = some s' ∧ Updates input A P e i s s' := by
  obtain ⟨m, hlow, hhigh, hP⟩ := hinv.ahead i le_rfl hi
  unfold sweepNuclide
  simp only [hlow, hhigh, Option.bind_eq_bind, Option.bind_some]
  by_cases hlt : V e < A i (m + 1)
  · obtain ⟨indexGrid, hpoke, hup⟩ := updates_keep h0 he hi0 hi hinv hlow hhigh (hrule.stay hP hlt)
    exact ⟨_, by rw [if_pos hlt, hpoke]; rfl, hup⟩
  by_cases htop : m = input.nGridpoints - 2
  · obtain ⟨indexGrid, hpoke, hup⟩ := updates_keep h0 he hi0 hi hinv hlow hhigh (hrule.top hP htop)
    exact ⟨_, by rw [if_neg hlt, if_pos htop, hpoke]; rfl, hup⟩
  -- The pointer of the nuclide moves on, and the next energy is read from its own grid.
  have hnext := hrule.advance hi0 hi h0 he hP htop (not_lt.mp hlt)
  have hm := hrule.bounds hP
  obtain ⟨hp0, hp⟩ := flat_lt h0 he hi0 hi
  obtain ⟨idxLow, hpokeL, hlenL, hsameL, hotherL⟩ := poke_spec (m + 1) hi0 (hinv.length_low ▸ hi)
  obtain ⟨indexGrid, hpokeG, hlenG, hsameG, hotherG⟩ := poke_spec (some (m + 1)) hp0 (hinv.length_index ▸ hp)
  obtain ⟨x, hx, hxE⟩ := Option.map_eq_some_iff.mp (hA i (m + 1 + 1) hi0 hi (by omega) (by omega))
  obtain ⟨energyHigh, hpokeH, hlenH, hsameH, hotherH⟩ := poke_spec x.energy hi0 (hinv.length_high ▸ hi)
  refine ⟨⟨idxLow, energyHigh, indexGrid⟩, ?_, hlenL, hlenH, hlenG, ⟨m + 1, hsameL, hxE ▸ hsameH, hnext⟩,
    ⟨m + 1, hsameG, hnext⟩, hotherL, hotherH, hotherG⟩
  rw [if_neg hlt, if_neg htop, hpokeL, hpokeG]
  simp only [Option.bind_some]
  rw [Int.add_assoc (i * _), hx]
  simp only [Option.bind_some, hpokeH]
  rfl

theorem RowInv.step (hi0 : 0 ≤ i) (hi : i < input.nIsotopes) (hinv : RowInv input A P len e i s)
    (h : Updates input A P e i s s') : RowInv input A P len e (i + 1) s' where
  length_low := h.length_low ▸ hinv.length_low
  length_high := h.length_high ▸ hinv.length_high
  length_index := h.length_index ▸ hinv.length_index
  seen c hc0 hc := by
    rcases eq_or_ne c i with rfl | hne
    · exact h.column
    · exact (hinv.seen c hc0 (by omega)).of_updates h hne
  ahead c hc hcN := (hinv.ahead c (by omega) hcN).of_updates h (by omega)
  rows k c hk0 hk hc0 hc := (hinv.rows k c hk0 hk hc0 hc).of_updates h hi0 hi hc0 hc (Or.inl (by omega))
  row c hc0 hc := by
    rcases eq_or_ne c i with rfl | hne
    · exact h.entry
    · exact (hinv.row c hc0 (by omega)).of_updates h hi0 hi hc0 (by omega) (Or.inr hne)

/-- After the last nuclide of a point comes the first of the next. -/
theorem RowInv.next (hinv : RowInv input A P len e input.nIsotopes s) : RowInv input A P len (e + 1) 0 s where
  length_low := hinv.length_low
  length_high := hinv.length_high
  length_index := hinv.length_index
  seen _ hc0 hc := by omega
  ahead c hc0 hc := hinv.seen c hc0 hc
  rows k c hk0 hk hc0 hc := by
    rcases eq_or_ne k e with rfl | hne
    · exact hinv.row c hc0 hc
    · exact hinv.rows k c hk0 (by omega) hc0 hc
  row _ hc0 hc := by omega

theorem sweepPoint_total [LinearOrder E] (hrule : ColumnRule input A V len P) (hA : HasEnergies input grid A) {U : List E}
    (hV : peek U e = some (V e)) (hN : 0 ≤ input.nIsotopes) (h0 : 0 ≤ e) (he : e < len)
    (hinv : RowInv input A P len e 0 s) :
    ∃ s', sweepPoint input grid U s e = some s' ∧ RowInv input A P len (e + 1) 0 s' := by
  obtain ⟨s', hrun, hlast⟩ := forUp_total (P := fun i s => RowInv input A P len e i s) hN hinv
    fun i s hi0 hi hinv => by
      obtain ⟨s', hbody, hup⟩ := sweepNuclide_updates hrule hA h0 he hi0 hi hinv
      exact ⟨s', hbody, hinv.step hi0 hi hup⟩
  refine ⟨s', ?_, hlast.next⟩
  rw [sweepPoint, hV]
  exact hrun

theorem initIndexGrid_eq [LinearOrder E] {U : List E} {lengthIndexGrid : ℤ} :
    initIndexGrid input grid U len lengthIndexGrid =
      (sweepInit input grid lengthIndexGrid).bind fun s => (forUp len (sweepPoint input grid U) s).map (·.indexGrid) := by
  unfold initIndexGrid sweepInit
  simp only [Option.bind_eq_bind, Option.bind_assoc, Option.map_eq_bind]
  rfl

/-- The arrays that the sweep starts from. -/
theorem RowInv.init [LinearOrder E] (hrule : ColumnRule input A V len P) (hA : HasEnergies input grid A)
    (hN : 0 ≤ input.nIsotopes) (hn : 2 ≤ input.nGridpoints) (hlen : 0 ≤ len) :
    ∃ s, sweepInit input grid (len * input.nIsotopes) = some s ∧ RowInv input A P len 0 0 s := by
  obtain ⟨indexGrid, hindex, hlenI, -⟩ := allocate_eq_some (none : Option ℤ) (mul_nonneg hlen hN)
  obtain ⟨idxLow, hidx, hlenL, hlow⟩ := allocate_eq_some (0 : ℤ) hN
  obtain ⟨energyHigh, henergy, hlenH, hhigh⟩ := tabulate_eq_some
    (f := fun i => (peek grid (i * input.nGridpoints + 1)).map (·.energy)) (g := fun i => A i 1) hN
    fun i hi0 hi => hA i 1 hi0 hi (by omega) (by omega)
  refine ⟨⟨idxLow, energyHigh, indexGrid⟩, ?_, hlenL, hlenH, hlenI, fun _ hc0 hc => by omega,
    fun c hc0 hc => ⟨0, hlow c hc0 hc, hhigh c hc0 hc, hrule.zero hc0 hc⟩, fun _ _ hk0 hk => by omega,
    fun _ hc0 hc => by omega⟩
  rw [sweepInit, hindex, hidx, henergy]
  rfl

/-- The sweep before the nuclide `i` of the point `e`. -/
theorem sweepBefore_total [LinearOrder E] (hrule : ColumnRule input A V len P) (hA : HasEnergies input grid A) {U : List E}
    (hV : ∀ k, 0 ≤ k → k < len → peek U k = some (V k)) (hN : 0 ≤ input.nIsotopes) (hinit : RowInv input A P len 0 0 s)
    (h0 : 0 ≤ e) (he : e < len) (hi0 : 0 ≤ i) (hi : i ≤ input.nIsotopes) :
    ∃ s', sweepBefore input grid U s e i = some s' ∧ RowInv input A P len e i s' := by
  obtain ⟨s₁, hrun, hinv⟩ := forUp_total (P := fun e s => RowInv input A P len e 0 s) h0 hinit
    fun e s h0 hlt hinv => sweepPoint_total hrule hA (hV e h0 (by omega)) hN h0 (by omega) hinv
  obtain ⟨s', hrow, hinv'⟩ := forUp_total (P := fun i s => RowInv input A P len e i s) hi0 hinv
    fun i s hi0 hi hinv => by
      obtain ⟨s', hbody, hup⟩ := sweepNuclide_updates hrule hA h0 he hi0 (by omega) hinv
      exact ⟨s', hbody, hinv.step hi0 (by omega) hup⟩
  refine ⟨s', ?_, hinv'⟩
  rw [sweepBefore, hrun, hV e h0 he]
  exact hrow

/-- The sweep fills the index grid, and its rule holds of every entry. -/
theorem initIndexGrid_total [LinearOrder E] (hrule : ColumnRule input A V len P) (hA : HasEnergies input grid A) {U : List E}
    (hV : ∀ k, 0 ≤ k → k < len → peek U k = some (V k)) (hN : 0 ≤ input.nIsotopes) (hn : 2 ≤ input.nGridpoints)
    (hlen : 0 ≤ len) :
    ∃ indexGrid, initIndexGrid input grid U len (len * input.nIsotopes) = some indexGrid ∧
      ∀ k i, 0 ≤ k → k < len → 0 ≤ i → i < input.nIsotopes → Entry input P k i indexGrid := by
  obtain ⟨s₀, hs₀, hinit⟩ := RowInv.init hrule hA hN hn hlen
  obtain ⟨s', hrun, hlast⟩ := forUp_total (P := fun e s => RowInv input A P len e 0 s) hlen hinit
    fun e s h0 he hinv => sweepPoint_total hrule hA (hV e h0 he) hN h0 he hinv
  refine ⟨s'.indexGrid, ?_, fun k i hk0 hk hi0 hi => hlast.rows k i hk0 hk hi0 hi⟩
  rw [initIndexGrid_eq, hs₀, Option.bind_some, hrun]
  rfl

/-- Every entry of the index grid leaves room for the next point. -/
theorem columnRule_bounds [LinearOrder E] (hn : 2 ≤ input.nGridpoints) :
    ColumnRule input A V len fun _ _ m => 0 ≤ m ∧ m ≤ input.nGridpoints - 2 :=
  ⟨id, fun _ _ => ⟨le_rfl, by omega⟩, fun h _ => h, fun h _ => h, fun _ _ _ _ h hne _ => by omega⟩

/-- The sweep never faults, whatever the order of the energies. -/
theorem initIndexGrid_isSome [LinearOrder E] (hA : HasEnergies input grid A) (hN : 0 ≤ input.nIsotopes)
    (hn : 2 ≤ input.nGridpoints) (U : List E) :
    ∃ indexGrid, initIndexGrid input grid U U.length (U.length * input.nIsotopes) = some indexGrid := by
  obtain ⟨indexGrid, hindex, -⟩ := initIndexGrid_total (V := fun k => (peek U k).getD (A 0 0))
    (columnRule_bounds hn) hA (U := U) (fun k hk0 hk => by
      obtain ⟨x, hx⟩ := exists_peek hk0 hk
      rw [hx]
      rfl) hN hn (Int.natCast_nonneg _)
  exact ⟨indexGrid, hindex⟩

end rule

end NuKSM.XSBench
