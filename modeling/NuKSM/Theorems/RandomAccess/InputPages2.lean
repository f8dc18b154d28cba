import Mathlib
import NuKSM.RandomAccess.InputPages2

/-! # The generator of the random reads does not move

`*state *= 1103515245 + 12345` multiplies by the sum. The multiplier is even, so every state becomes zero within 32
draws, and `random_access` starts from zero: it reads one element over and over. -/

namespace NuKSM.RandomAccess

namespace InputPages2
variable {addr : List Int32} {numOfPages startElem : UInt64}

/-! ### The generator -/

/-- The generator only multiplies. -/
theorem randNext_iterate (n : ℕ) (s : UInt32) : (randNext^[n] s).toBitVec = 1103527590 ^ n * s.toBitVec := by
  induction n with
  | zero => simp
  | succ n ih =>
    rw [Function.iterate_succ_apply', randNext, UInt32.toBitVec_mul, ih, pow_succ']
    have hsum : (1103515245 + 12345 : UInt32).toBitVec = 1103527590 := rfl
    rw [hsum, mul_comm, mul_assoc]

/-- From any state, the generator has come to zero after 32 draws. -/
theorem randNext_iterate_eq_zero {n : ℕ} (hn : 32 ≤ n) (s : UInt32) : randNext^[n] s = 0 := by
  have hpow : (1103527590 : BitVec 32) ^ n = 0 := by
    rw [← Nat.sub_add_cancel hn, pow_add]
    have hzero : (1103527590 : BitVec 32) ^ 32 = 0 := by decide +kernel
    rw [hzero, mul_zero]
  refine UInt32.eq_of_toBitVec_eq ?_
  rw [randNext_iterate, hpow, zero_mul]
  rfl

theorem randNum_zero {max : UInt32} (hmax : max ≠ 0) : randNum max 0 = some (0, 0) := by
  have hzero : randNext 0 = 0 := rfl
  rw [randNum, if_neg hmax, hzero]
  simp

/-! ### The loop -/

/-- In state zero, a round reads the first element of its half and stays there. -/
theorem access_zero (hmax : numOfPages.toUInt32 ≠ 0) {x : Int32} (hx : addr[startElem.toNat]? = some x) {s : Access}
    (hs : s.state = 0) :
    access addr numOfPages startElem s = some {
      state := 0, sum := s.sum + x.toInt64.toUInt64
      states := s.states ++ [0, 0], reads := s.reads ++ [startElem] } := by
  have hpage : randNum 1024 0 = some (0, 0) := randNum_zero (by simp)
  have helem : startElem + ((0 : UInt32).toUInt64 * 1024 + (0 : UInt32).toUInt64) = startElem := by
    have hzero : (0 : UInt32).toUInt64 = 0 := rfl
    rw [hzero, zero_mul, add_zero, add_zero]
  rw [access, hs]
  refine Option.bind_eq_some_iff.mpr ⟨(0, 0), randNum_zero hmax, ?_⟩
  refine Option.bind_eq_some_iff.mpr ⟨(0, 0), hpage, ?_⟩
  refine Option.bind_eq_some_iff.mpr ⟨x, ?_, ?_⟩
  · rw [helem]
    exact hx
  · rw [helem]
    rfl

theorem accesses_zero (hmax : numOfPages.toUInt32 ≠ 0) (hstart : startElem.toNat < addr.length) (n : ℕ) {s : Access}
    (hs : s.state = 0) :
    ∃ t, accesses addr numOfPages startElem n s = some t ∧ t.states = s.states ++ List.replicate (2 * n) 0 ∧
      t.reads = s.reads ++ List.replicate n startElem := by
  induction n generalizing s with
  | zero => exact ⟨s, rfl, by simp, by simp⟩
  | succ n ih =>
    obtain ⟨t, ht, hstates, hreads⟩ := ih (s := { s with
      sum := s.sum + addr[startElem.toNat].toInt64.toUInt64
      states := s.states ++ [0, 0], reads := s.reads ++ [startElem] }) hs
    refine ⟨t, ?_, ?_, ?_⟩
    · rw [accesses, access_zero hmax (List.getElem?_eq_getElem hstart) hs, Option.bind_some]
      rw [← ht, hs]
    · rw [hstates, List.append_assoc, mul_add, mul_one, add_comm, List.replicate_add]
      rfl
    · rw [hreads, List.append_assoc, add_comm, List.replicate_add]
      rfl

/-! ### The run -/

theorem totalSize_toNat (h : numOfPages.toNat < 2 ^ 52) : (totalSize numOfPages).toNat = 1024 * numOfPages.toNat := by
  have hsize : (size numOfPages).toNat = 4096 * numOfPages.toNat := by
    have hfactor : (1024 * 4 : UInt64).toNat = 4096 := rfl
    rw [size, UInt64.toNat_mul, hfactor]
    exact Nat.mod_eq_of_lt (by omega)
  simp only [totalSize, UInt64.toNat_div, hsize, UInt64.reduceToNat]
  omega

theorem filldata_length (multiplier : Int32) (numOfPages : UInt64) :
    (filldata multiplier numOfPages).length = (totalSize numOfPages).toNat := by
  simp [filldata, totalSize]

/-- Every draw of a run leaves the state zero, and every read is of the element in the middle. -/
theorem randomAccess_stuck (multiplier : Int32) (hpos : 1 ≤ numOfPages.toNat) (hdraws : 256 * numOfPages.toNat < 2 ^ 32) :
    ∃ t, randomAccess (filldata multiplier numOfPages) numOfPages = some t ∧
      t.states = List.replicate (256 * numOfPages.toNat) 0 ∧
      t.reads = List.replicate (128 * numOfPages.toNat) (totalSize numOfPages / 2) := by
  have hsize : (totalSize numOfPages).toNat = 1024 * numOfPages.toNat := totalSize_toNat (by omega)
  have hmax : numOfPages.toUInt32 ≠ 0 := fun hzero => by
    have hmod : numOfPages.toUInt32.toNat = 0 := by rw [hzero]; rfl
    rw [UInt64.toNat_toUInt32] at hmod
    omega
  have hstart : (totalSize numOfPages / 2).toNat < (filldata multiplier numOfPages).length := by
    simp only [filldata_length, UInt64.toNat_div, hsize, UInt64.reduceToNat]
    omega
  have hrounds : (totalSize numOfPages / 8).toNat = 128 * numOfPages.toNat := by
    simp only [UInt64.toNat_div, hsize, UInt64.reduceToNat]
    omega
  have hdrawn : 2 * (128 * numOfPages.toNat) = 256 * numOfPages.toNat := by omega
  obtain ⟨t, ht, hstates, hreads⟩ := accesses_zero hmax hstart (totalSize numOfPages / 8).toNat (s := ({} : Access)) rfl
  rw [hrounds, hdrawn, List.nil_append] at hstates
  rw [hrounds, List.nil_append] at hreads
  exact ⟨t, ht, hstates, hreads⟩

/-- What a ranged random number function is for: the states follow the recurrence of the generator, so they are
different, and the reads are not all of one element. -/
structure Spread (t : Access) : Prop where
  follows : List.IsChain (fun s s' => s' = s * 1103515245 + 12345) (0 :: t.states)
  distinct : (0 :: t.states).Nodup
  spread : ∀ e, ∃ e' ∈ t.reads, e' ≠ e

/-- The run ends, with its reads spread. -/
def SpreadsReads (multiplier : Int32) (numOfPages : UInt64) : Prop :=
  ∃ t, randomAccess (filldata multiplier numOfPages) numOfPages = some t ∧ Spread t

/-- No number of pages gives a run that spreads its reads. -/
theorem not_spreadsReads (multiplier : Int32) (numOfPages : UInt64) (hpos : 1 ≤ numOfPages.toNat)
    (hdraws : 256 * numOfPages.toNat < 2 ^ 32) : ¬ SpreadsReads multiplier numOfPages := by
  rintro ⟨t, ht, hspread⟩
  obtain ⟨t', ht', -, hreads⟩ := randomAccess_stuck multiplier hpos hdraws
  obtain rfl := Option.some.inj (ht.symm.trans ht')
  obtain ⟨e, hmem, hne⟩ := hspread.spread (totalSize numOfPages / 2)
  rw [hreads] at hmem
  exact hne (List.eq_of_mem_replicate hmem)

theorem not_spreadsReads_one : ¬ SpreadsReads 1 1 := not_spreadsReads 1 1 (by simp) (by simp)

/-- The default multiplier and two pages: 512 draws that leave the state zero, where the recurrence goes on with
12345. -/
theorem not_spreadsReads_two : ¬ SpreadsReads 1 2 := by
  rintro ⟨t, ht, hspread⟩
  obtain ⟨t', ht', hstates, -⟩ := @randomAccess_stuck 2 1 (by simp) (by simp)
  obtain rfl := Option.some.inj (ht.symm.trans ht')
  have hfollows := hspread.follows
  have hmany : 256 * (2 : UInt64).toNat = 511 + 1 := rfl
  rw [hstates, hmany, List.replicate_succ, List.isChain_cons_cons] at hfollows
  exact absurd hfollows.1 (by simp)

/-! ### Reads from any state

The element that a round reads is half the array behind the page and the offset that it draws. -/

/-- The page of a round. -/
def drawnPage (numOfPages state : ℕ) : ℕ := state * 1103527590 % 2 ^ 32 / 2 ^ 16 % numOfPages

/-- Its offset in the page. -/
def drawnOffset (state : ℕ) : ℕ := state * 1103527590 % 2 ^ 32 * 1103527590 % 2 ^ 32 / 2 ^ 16 % 1024

theorem drawnPage_lt (numOfPages state : ℕ) : drawnPage numOfPages state < 2 ^ 16 :=
  (Nat.mod_le _ _).trans_lt (Nat.div_lt_of_lt_mul (Nat.mod_lt _ (by norm_num)))

theorem drawnOffset_lt (state : ℕ) : drawnOffset state < 1024 := Nat.mod_lt _ (by norm_num)

theorem toNat_randNext (s : UInt32) : (randNext s).toNat = s.toNat * 1103527590 % 2 ^ 32 := by
  have hsum : (1103515245 + 12345 : UInt32).toNat = 1103527590 := rfl
  rw [randNext, UInt32.toNat_mul, hsum]

theorem toNat_draw (max s : UInt32) : (randNext s / 65536 % max).toNat = s.toNat * 1103527590 % 2 ^ 32 / 2 ^ 16 % max.toNat := by
  have hdiv : (65536 : UInt32).toNat = 2 ^ 16 := rfl
  rw [UInt32.toNat_mod, UInt32.toNat_div, toNat_randNext, hdiv]

/-- A round stays inside the array where what it draws is less than half of it. -/
theorem access_isSome_iff (multiplier : Int32) (hpos : 1 ≤ numOfPages.toNat) (hint : numOfPages.toNat < 2 ^ 31) (s : Access) :
    (access (filldata multiplier numOfPages) numOfPages (totalSize numOfPages / 2) s).isSome ↔
      2 * drawnPage numOfPages.toNat s.state.toNat + drawnOffset s.state.toNat / 512 < numOfPages.toNat := by
  have hsize : (totalSize numOfPages).toNat = 1024 * numOfPages.toNat := totalSize_toNat (by omega)
  have hmax : numOfPages.toUInt32.toNat = numOfPages.toNat := by
    rw [UInt64.toNat_toUInt32, Nat.mod_eq_of_lt (by omega)]
  have hne : numOfPages.toUInt32 ≠ 0 := fun hzero => by
    rw [hzero, UInt32.toNat_zero] at hmax
    omega
  have hpage := toNat_draw numOfPages.toUInt32 s.state
  have hoffset := toNat_draw 1024 (randNext s.state)
  rw [toNat_randNext] at hoffset
  rw [hmax] at hpage
  have hpage' := drawnPage_lt numOfPages.toNat s.state.toNat
  have hoffset' := drawnOffset_lt s.state.toNat
  have helem : (totalSize numOfPages / 2 + ((randNext s.state / 65536 % numOfPages.toUInt32).toUInt64 * 1024 +
      (randNext (randNext s.state) / 65536 % 1024).toUInt64)).toNat =
      512 * numOfPages.toNat + (drawnPage numOfPages.toNat s.state.toNat * 1024 + drawnOffset s.state.toNat) := by
    simp only [UInt64.toNat_add, UInt64.toNat_mul, UInt64.toNat_div, UInt32.toNat_toUInt64, hpage, hoffset, hsize,
      UInt64.reduceToNat, UInt32.reduceToNat]
    simp only [drawnPage, drawnOffset] at hpage' hoffset' ⊢
    omega
  have hread : (access (filldata multiplier numOfPages) numOfPages (totalSize numOfPages / 2) s).isSome ↔
      512 * numOfPages.toNat + (drawnPage numOfPages.toNat s.state.toNat * 1024 + drawnOffset s.state.toNat) <
        1024 * numOfPages.toNat := by
    have hlength := filldata_length multiplier numOfPages
    rw [access, randNum, if_neg hne, Option.bind_eq_bind, Option.bind_some]
    dsimp only
    rw [randNum, if_neg (by decide), Option.bind_eq_bind, Option.bind_some]
    dsimp only
    rw [helem, Option.isSome_bind]
    simp [hlength, hsize]
  rw [hread]
  omega

/-- Where the odd factor of the multiplier cancels, a draw has any high half. -/
theorem exists_drawn (h : ℕ) (hh : h < 2 ^ 16) : ∃ state : UInt32, state.toNat * 1103527590 % 2 ^ 32 / 2 ^ 16 = h := by
  refine ⟨UInt32.ofNat (h * 2 ^ 15 * 3253558491), ?_⟩
  rw [UInt32.toNat_ofNat']
  omega

/-- There is no state from which a round leaves the array exactly if there are 131072 pages at least: what is drawn is at most
65535 pages and 1023 elements. -/
theorem forall_inside_iff {numOfPages : ℕ} (hpos : 1 ≤ numOfPages) :
    (∀ state : UInt32, 2 * drawnPage numOfPages state.toNat + drawnOffset state.toNat / 512 < numOfPages) ↔
      131072 ≤ numOfPages := by
  constructor
  · intro hall
    by_contra hfew
    rcases (by omega : numOfPages = 1 ∨ numOfPages = 131071 ∨ (2 ≤ numOfPages ∧ numOfPages ≤ 131070)) with rfl | rfl | hrange
    · exact absurd (hall 2894069760) (by decide)
    · exact absurd (hall 3645371244) (by decide)
    · obtain ⟨state, hdrawn⟩ := exists_drawn (min (numOfPages - 1) 65535) (by omega)
      have hinside := hall state
      rw [drawnPage, hdrawn, Nat.mod_eq_of_lt (by omega)] at hinside
      omega
  · intro hmany state
    have hpage := drawnPage_lt numOfPages state.toNat
    have hoffset := drawnOffset_lt state.toNat
    omega

/-- A round reads inside the array exactly if the page that it draws is in the lower half, and it does so from every state
exactly if there are 131072 pages at least. -/
theorem access_inside_iff (multiplier : Int32) (hpos : 1 ≤ numOfPages.toNat) (hint : numOfPages.toNat < 2 ^ 31) :
    (∀ s, (access (filldata multiplier numOfPages) numOfPages (totalSize numOfPages / 2) s).isSome ↔
      2 * drawnPage numOfPages.toNat s.state.toNat + drawnOffset s.state.toNat / 512 < numOfPages.toNat) ∧
    ((∀ s, (access (filldata multiplier numOfPages) numOfPages (totalSize numOfPages / 2) s).isSome) ↔
      131072 ≤ numOfPages.toNat) := by
  have hinside := access_isSome_iff multiplier hpos hint
  refine ⟨hinside, (forall_congr' hinside).trans (Iff.trans ?_ (forall_inside_iff hpos))⟩
  exact ⟨fun h state => h { state }, fun h s => h s.state⟩

theorem access_inside_iff_most :
    (access (filldata 1 2147483647) 2147483647 (totalSize 2147483647 / 2) { state := 4294967295 }).isSome :=
  (access_inside_iff 1 (by decide) (by decide)).2.mpr (by decide) { state := 4294967295 }

/-- Two pages, and a state from which the second page is drawn. -/
theorem not_access_inside : ¬∀ numOfPages : UInt64, 1 ≤ numOfPages.toNat → numOfPages.toNat < 2 ^ 31 →
    ∀ s, (access (filldata 1 numOfPages) numOfPages (totalSize numOfPages / 2) s).isSome := by
  intro hall
  have hinside := hall 2 (by decide) (by decide) { state := 2926411776 }
  exact absurd ((access_isSome_iff 1 (by decide) (by decide) _).mp hinside) (by decide)

end InputPages2

end NuKSM.RandomAccess
