import Mathlib
import NuKSM.Lib.Affine
import NuKSM.Lib.Words
import NuKSM.RandomAccess.InputPages
import NuKSM.Theorems.RandomAccess.InputPages2

/-! # Pages, draws and reads of `wl-randomreads-inputpages.c`

The generator is an affine map modulo `2 ^ 64` with the slope `1 + 4 * s` and an odd offset, so it passes through all states. Its
number is the state divided by `2 ^ 32 - 1`, which is at most `2 ^ 32 + 1`. -/

namespace NuKSM.RandomAccess

namespace InputPages
open InputPages2 (element)

/-! ### The generator -/

/-- The map of one draw. -/
def drawMap : Affine (BitVec 64) := ⟨1103515258476245, 12345⟩

theorem toBitVec_randNext (s : UInt64) : (randNext s).toBitVec = drawMap.apply s.toBitVec := by
  rw [randNext, UInt64.toBitVec_add, UInt64.toBitVec_mul, mul_comm]
  rfl

theorem toBitVec_randNext_iterate (n : ℕ) (s : UInt64) : (randNext^[n] s).toBitVec = drawMap.apply^[n] s.toBitVec :=
  (Function.Semiconj.iterate_right toBitVec_randNext n) s

/-- Fewer than `2 ^ 64` draws leave different states. -/
theorem randNext_iterate_inj {s : UInt64} {m n : ℕ} (hm : m < 2 ^ 64) (hn : n < 2 ^ 64) (h : randNext^[m] s = randNext^[n] s) :
    m = n := by
  wlog hmn : m ≤ n generalizing m n
  · exact (this hn hm h.symm (Nat.le_of_not_le hmn)).symm
  have hiterate := congrArg UInt64.toBitVec h
  rw [toBitVec_randNext_iterate, toBitVec_randNext_iterate] at hiterate
  have hslope : (4 : BitVec 64) ∣ drawMap.slope - 1 := ⟨275878814619061, by decide⟩
  have hoffset : (2 : BitVec 64) ∣ drawMap.offset - 1 := ⟨6172, by decide⟩
  have hzero : ((n - m : ℕ) : BitVec 64) = 0 := Affine.iterate_inj hslope hoffset ⟨64, by decide +kernel⟩ hmn hiterate
  have hmod : (n - m) % 2 ^ 64 = 0 := by
    have hnat := congrArg BitVec.toNat hzero
    rwa [BitVec.natCast_eq_ofNat, BitVec.toNat_ofNat, BitVec.ofNat_eq_ofNat, BitVec.toNat_ofNat, Nat.zero_mod] at hnat
  omega

/-- From each state the generator comes to every other. -/
theorem exists_randNext_iterate (s t : UInt64) : ∃ n < 2 ^ 64, randNext^[n] s = t := by
  have hinj : Function.Injective fun n : Fin (2 ^ 64) => (randNext^[n] s).toBitVec.toFin := by
    intro m n h
    exact Fin.ext (randNext_iterate_inj m.isLt n.isLt (UInt64.toNat_inj.mp (congrArg Fin.val h)))
  obtain ⟨n, hn⟩ := Finite.injective_iff_surjective.mp hinj t.toBitVec.toFin
  exact ⟨n, n.isLt, UInt64.toNat_inj.mp (congrArg Fin.val hn)⟩

/-- Every state is left by a draw. -/
theorem randNext_surjective : Function.Surjective randNext := by
  intro t
  obtain ⟨n, -, hn⟩ := exists_randNext_iterate (randNext t) t
  refine ⟨randNext^[n] t, ?_⟩
  rw [← Function.iterate_succ_apply' randNext, Function.iterate_succ_apply, hn]

/-! ### The run -/

variable {addr : List Int32} {numOfPages : Int32} {s t : Access}

/-- From `s` so many draws lead to `t`. -/
structure Draws (s t : Access) (n : ℕ) : Prop where
  state : t.state = randNext^[n] s.state
  states : t.states = s.states ++ (List.range n).map fun i => randNext^[i + 1] s.state

theorem Draws.refl (s : Access) : Draws s s 0 := ⟨rfl, (List.append_nil _).symm⟩

theorem Draws.trans {u : Access} {m n : ℕ} (h : Draws s t m) (h' : Draws t u n) : Draws s u (m + n) := by
  refine ⟨?_, ?_⟩
  · rw [h'.state, h.state, add_comm m n, Function.iterate_add_apply]
  · rw [h'.states, h.states, h.state, List.append_assoc, List.range_add, List.map_append, List.map_map]
    refine congrArg _ (congrArg _ (List.map_congr_left fun i _ => ?_))
    rw [← Function.iterate_add_apply, Function.comp_apply]
    congr 1
    omega

theorem randNum_eq_some {max state : UInt64} {r : UInt64 × UInt64} (h : randNum max state = some r) :
    r = (randNext state / 4294967295 % max, randNext state) := by
  unfold randNum at h
  split at h
  · cases h
  · exact (Option.some.inj h).symm

theorem access_draws (h : access addr numOfPages s = some t) : Draws s t 1 := by
  unfold access at h
  rw [Option.bind_eq_bind, Option.bind_eq_some_iff] at h
  obtain ⟨r, hdraw, h⟩ := h
  have hstate : r.2 = randNext s.state := by rw [randNum_eq_some hdraw]
  rw [Option.bind_eq_bind, Option.bind_eq_some_iff] at h
  obtain ⟨x, -, h⟩ := h
  obtain rfl := Option.some.inj h
  refine ⟨hstate, ?_⟩
  rw [List.range_one, List.map_singleton, zero_add, Function.iterate_one, ← hstate]

theorem accesses_draws {n : ℕ} (h : accesses addr numOfPages n s = some t) : Draws s t n := by
  induction n generalizing s with
  | zero =>
    cases h
    exact .refl _
  | succ n ih =>
    obtain ⟨s', hround, hrest⟩ := Option.bind_eq_some_iff.mp h
    rw [add_comm]
    exact (access_draws hround).trans (ih hrest)

theorem loops_draws {n : ℕ} (h : loops addr numOfPages n s = some t) :
    Draws s t (n * (totalSize numOfPages / 8).toNat) := by
  induction n generalizing s with
  | zero =>
    cases h
    rw [zero_mul]
    exact .refl _
  | succ n ih =>
    obtain ⟨s', hloop, hrest⟩ := Option.bind_eq_some_iff.mp h
    rw [add_mul, one_mul, add_comm]
    exact (accesses_draws hloop).trans (ih hrest)

theorem Draws.nodup {n : ℕ} (h : Draws {} t n) (hn : n < 2 ^ 64) : (1 :: t.states).Nodup := by
  have hall : (1 : UInt64) :: t.states = (List.range (n + 1)).map fun i => randNext^[i] 1 := by
    rw [h.states, List.range_succ_eq_map, List.map_cons, List.map_map, List.nil_append]
    rfl
  rw [hall]
  refine List.Nodup.map_on (fun i hi j hj heq => ?_) List.nodup_range
  rw [List.mem_range] at hi hj
  exact randNext_iterate_inj (by omega) (by omega) heq

/-- The round of a run is within the array. -/
theorem access_total (hlen : addr.length = (totalSize numOfPages).toNat) (hpos : totalSize numOfPages ≠ 0) (s : Access) :
    ∃ t, access addr numOfPages s = some t := by
  have hlt : (randNext s.state / 4294967295 % totalSize numOfPages).toNat < addr.length := by
    rw [hlen, UInt64.toNat_mod]
    refine Nat.mod_lt _ (Nat.pos_of_ne_zero fun hzero => hpos ?_)
    exact UInt64.toNat_inj.mp hzero
  have hread := List.getElem?_eq_getElem hlt
  rw [access, randNum, if_neg hpos, Option.bind_eq_bind, Option.bind_some]
  dsimp only
  rw [hread]
  exact ⟨_, rfl⟩

theorem accesses_total (hlen : addr.length = (totalSize numOfPages).toNat) (n : ℕ) (hpos : n ≠ 0 → totalSize numOfPages ≠ 0)
    (s : Access) : ∃ t, accesses addr numOfPages n s = some t := by
  induction n generalizing s with
  | zero => exact ⟨s, rfl⟩
  | succ n ih =>
    obtain ⟨s', hround⟩ := access_total hlen (hpos (Nat.succ_ne_zero n)) s
    obtain ⟨t, hrest⟩ := ih (fun _ => hpos (Nat.succ_ne_zero n)) s'
    exact ⟨t, Option.bind_eq_some_iff.mpr ⟨s', hround, hrest⟩⟩

theorem filldata_length (multiplier numOfPages : Int32) :
    (filldata multiplier numOfPages).length = (totalSize numOfPages).toNat := by
  simp [filldata, totalSize]

/-- Every run ends. -/
theorem randomAccess_total (multiplier numOfPages : Int32) (numberOfLoop : UInt32) :
    ∃ t, randomAccess (filldata multiplier numOfPages) numOfPages numberOfLoop = some t ∧
      t.states.length = numberOfLoop.toNat * (totalSize numOfPages / 8).toNat := by
  have hpos : (totalSize numOfPages / 8).toNat ≠ 0 → totalSize numOfPages ≠ 0 := by
    intro hne hzero
    rw [hzero] at hne
    exact hne rfl
  have hloops : ∀ n s, ∃ t, loops (filldata multiplier numOfPages) numOfPages n s = some t := by
    intro n
    induction n with
    | zero => exact fun s => ⟨s, rfl⟩
    | succ n ih =>
      intro s
      obtain ⟨s', hloop⟩ := accesses_total (filldata_length multiplier numOfPages) _ hpos s
      obtain ⟨t, hrest⟩ := ih s'
      exact ⟨t, Option.bind_eq_some_iff.mpr ⟨s', hloop, hrest⟩⟩
  obtain ⟨t, ht⟩ := hloops numberOfLoop.toNat {}
  refine ⟨t, ht, ?_⟩
  rw [(loops_draws ht).states, List.nil_append, List.length_map, List.length_range]

/-- The `2 ^ 64` states that follow a state are different, and so are those of a run with fewer draws. -/
theorem randNext_full_period :
    (∀ s, Set.InjOn (fun n => randNext^[n + 1] s) (Set.Iio (2 ^ 64))) ∧
    ∀ multiplier numOfPages numberOfLoop t, randomAccess (filldata multiplier numOfPages) numOfPages numberOfLoop = some t →
      t.states.length < 2 ^ 64 → (1 :: t.states).Nodup := by
  refine ⟨fun s m hm n hn heq => ?_, fun multiplier numOfPages numberOfLoop t hrun hshort => ?_⟩
  · dsimp only at heq
    rw [Function.iterate_succ_apply, Function.iterate_succ_apply] at heq
    exact randNext_iterate_inj (Set.mem_Iio.mp hm) (Set.mem_Iio.mp hn) heq
  · have hdrawn := loops_draws hrun
    rw [hdrawn.states, List.nil_append, List.length_map, List.length_range] at hshort
    exact hdrawn.nodup hshort

/-- One loop over one page. -/
theorem randNext_full_period_one : ∃ t, randomAccess (filldata 1 1) 1 1 = some t ∧ t.states.length = 128 ∧ (1 :: t.states).Nodup := by
  obtain ⟨t, hrun, hlength⟩ := randomAccess_total 1 1 1
  have hrounds : (1 : UInt32).toNat * (totalSize 1 / 8).toNat = 128 := by decide
  rw [hrounds] at hlength
  exact ⟨t, hrun, hlength, randNext_full_period.2 1 1 1 t hrun (hlength.trans_lt (by norm_num))⟩

/-! ### Sizes -/

theorem toNat_numOfPages (hpos : 0 ≤ numOfPages.toInt) : (numOfPages.toInt64.toUInt64.toNat : ℤ) = numOfPages.toInt := by
  have hlt := numOfPages.toInt_lt
  rw [toNat_toUInt64]
  omega

theorem totalSize_toNat {numOfPages : Int32} (hpos : 0 ≤ numOfPages.toInt) : ((totalSize numOfPages).toNat : ℤ) = 1024 * numOfPages.toInt := by
  have hpages := toNat_numOfPages hpos
  have hlt := numOfPages.toInt_lt
  have hfactor : (1024 * 4 : UInt64).toNat = 4096 := rfl
  have hfour : (4 : UInt64).toNat = 4 := rfl
  rw [totalSize, size, UInt64.toNat_div, UInt64.toNat_mul, hfactor, hfour, Nat.mod_eq_of_lt (by omega)]
  omega

/-! ### The elements that are read -/

/-- There is a state from which the next draw is the element. -/
def DrawsElement (numOfPages : Int32) (e : UInt64) : Prop :=
  ∃ state, (randNum (totalSize numOfPages) state).map Prod.fst = some e

/-- A draw is a quotient of a state. -/
theorem drawsElement_iff (hpos : totalSize numOfPages ≠ 0) {e : UInt64} :
    DrawsElement numOfPages e ↔ ∃ s : UInt64, s / 4294967295 % totalSize numOfPages = e := by
  constructor
  · rintro ⟨state, hdraw⟩
    rw [randNum, if_neg hpos, Option.map_some, Option.some_inj] at hdraw
    exact ⟨randNext state, hdraw⟩
  · rintro ⟨s, hs⟩
    obtain ⟨state, rfl⟩ := randNext_surjective s
    refine ⟨state, ?_⟩
    rw [randNum, if_neg hpos, Option.map_some, hs]

/-- The quotients are at most `2 ^ 32 + 1`. -/
theorem not_drawsElement (hlt : 4294967298 < totalSize numOfPages) : ¬DrawsElement numOfPages 4294967298 := by
  intro hdraw
  have hne : totalSize numOfPages ≠ 0 := by
    intro hzero
    rw [hzero] at hlt
    cases hlt
  obtain ⟨s, hs⟩ := (drawsElement_iff hne).mp hdraw
  have hdiv : (4294967295 : UInt64).toNat = 4294967295 := rfl
  have hnat : (s / 4294967295 % totalSize numOfPages).toNat = 4294967298 := by rw [hs]; rfl
  rw [UInt64.toNat_mod, UInt64.toNat_div, hdiv] at hnat
  have hquot := Nat.mod_le (s.toNat / 4294967295) (totalSize numOfPages).toNat
  have hbound := s.toNat_lt
  omega

/-- Every element is drawn from some state exactly if there are at most `2 ^ 32` of them. -/
theorem drawsElements_iff (hpos : 1 ≤ numOfPages.toInt) :
    (∀ e < totalSize numOfPages, DrawsElement numOfPages e) ↔ numOfPages.toInt ≤ 4194304 := by
  have hnonneg : 0 ≤ numOfPages.toInt := by omega
  have hsize := totalSize_toNat hnonneg
  constructor
  · intro hall
    by_contra hmany
    have hlt : (4294967298 : UInt64) < totalSize numOfPages := by
      rw [UInt64.lt_iff_toNat_lt]
      have hnat : (4294967298 : UInt64).toNat = 4294967298 := rfl
      omega
    exact not_drawsElement hlt (hall 4294967298 hlt)
  · intro hfew e he
    have hne : totalSize numOfPages ≠ 0 := by
      intro hzero
      rw [hzero, UInt64.toNat_zero] at hsize
      omega
    rw [UInt64.lt_iff_toNat_lt] at he
    have hfits : e.toNat * 4294967295 < 2 ^ 64 := by omega
    have hdiv : (4294967295 : UInt64).toNat = 4294967295 := rfl
    refine (drawsElement_iff hne).mpr ⟨e * 4294967295, UInt64.toNat_inj.mp ?_⟩
    rw [UInt64.toNat_mod, UInt64.toNat_div, UInt64.toNat_mul, hdiv, Nat.mod_eq_of_lt hfits, Nat.mul_div_cancel _ (by norm_num),
      Nat.mod_eq_of_lt he]

theorem drawsElements_iff_one : (∀ e < totalSize 1, DrawsElement 1 e) ↔ (1 : Int32).toInt ≤ 4194304 :=
  drawsElements_iff (by decide)

/-- One page more: an element near the end is left out. -/
theorem not_drawsElements : ¬∀ e < totalSize 4194305, DrawsElement 4194305 e :=
  fun hall => not_drawsElement (by decide) (hall 4294967298 (by decide))

/-! ### The contents of the pages -/

/-- The 1024 elements of a page. -/
def page (addr : List Int32) (p : ℕ) : List Int32 := (addr.drop (1024 * p)).take 1024

/-- What `filldata` stores in a page. -/
theorem page_filldata (multiplier : Int32) {p : ℕ} (hp : (p : ℤ) < numOfPages.toInt) :
    page (filldata multiplier numOfPages) p =
      (List.range 1024).map fun k => element multiplier (UInt64.ofNat (1024 * p + k)) := by
  have hnonneg : 0 ≤ numOfPages.toInt := by omega
  have hsize := totalSize_toNat hnonneg
  have hlen := filldata_length multiplier numOfPages
  refine List.ext_getElem (by simp [page]; omega) fun k hk hk' => ?_
  simp [page, filldata]

theorem toNat_element (multiplier : Int32) (i : UInt64) :
    ((element multiplier i).toUInt32.toNat : ℤ) = multiplier.toInt * i.toNat % 2 ^ 32 := by
  have hsext := toNat_toUInt64 multiplier
  have hbits : (element multiplier i).toUInt32 = (i * multiplier.toInt64.toUInt64).toUInt32 := rfl
  rw [hbits, UInt64.toNat_toUInt32, UInt64.toNat_mul, Nat.mod_mod_of_dvd _ (by norm_num)]
  push_cast
  rw [hsext, mul_comm, Int.mul_emod (multiplier.toInt % 2 ^ 64), Int.emod_emod_of_dvd _ (by norm_num), ← Int.mul_emod]

/-- Two elements agree where their products agree in the 32 bits of an `int`. -/
theorem element_eq_iff {multiplier : Int32} {i j : UInt64} :
    element multiplier i = element multiplier j ↔ (2 ^ 32 : ℤ) ∣ multiplier.toInt * (i.toNat - j.toNat) := by
  have hword : element multiplier i = element multiplier j ↔
      (element multiplier i).toUInt32.toNat = (element multiplier j).toUInt32.toNat := by
    rw [UInt32.toNat_inj]
    exact ⟨congrArg _, congrArg UInt32.toInt32⟩
  rw [hword, ← Int.natCast_inj, toNat_element, toNat_element, Int.emod_eq_emod_iff_emod_sub_eq_zero, ← Int.dvd_iff_emod_eq_zero,
    mul_sub]

/-- The elements of two pages are a whole number of pages apart. -/
theorem page_eq_iff {multiplier : Int32} {p q : ℕ} (hp : (p : ℤ) < numOfPages.toInt) (hq : (q : ℤ) < numOfPages.toInt) :
    page (filldata multiplier numOfPages) p = page (filldata multiplier numOfPages) q ↔
      (2 ^ 22 : ℤ) ∣ multiplier.toInt * (p - q) := by
  have hlt := numOfPages.toInt_lt
  have hindex : ∀ r k : ℕ, (r : ℤ) < numOfPages.toInt → k < 1024 → ((UInt64.ofNat (1024 * r + k)).toNat : ℤ) = 1024 * r + k := by
    intro r k hr hk
    rw [UInt64.toNat_ofNat', Nat.mod_eq_of_lt (by omega)]
    push_cast
    rfl
  have helement : ∀ k < 1024, element multiplier (UInt64.ofNat (1024 * p + k)) = element multiplier (UInt64.ofNat (1024 * q + k)) ↔
      (2 ^ 22 : ℤ) ∣ multiplier.toInt * (p - q) := by
    intro k hk
    have hscale : multiplier.toInt * ((1024 * p + k : ℤ) - (1024 * q + k)) = 2 ^ 10 * (multiplier.toInt * (p - q)) := by ring
    have hpow : (2 ^ 32 : ℤ) = 2 ^ 10 * 2 ^ 22 := by norm_num
    rw [element_eq_iff, hindex p k hp hk, hindex q k hq hk, hscale, hpow]
    exact Int.mul_dvd_mul_iff_left (by norm_num)
  rw [page_filldata multiplier hp, page_filldata multiplier hq, List.map_inj_left]
  exact ⟨fun h => (helement 0 (by norm_num)).mp (h 0 (by simp)), fun h k hk => (helement k (List.mem_range.mp hk)).mpr h⟩

/-- Two pages have the same contents exactly if `2 ^ 22` divides the product of the multiplier and their distance. With an odd
multiplier no two of at most `2 ^ 22` pages do, and a page of two instances with one multiplier always does. -/
theorem pages_alike {multiplier : Int32} {p q : ℕ} (hp : (p : ℤ) < numOfPages.toInt) (hq : (q : ℤ) < numOfPages.toInt) :
    (page (filldata multiplier numOfPages) p = page (filldata multiplier numOfPages) q ↔
      (2 ^ 22 : ℤ) ∣ multiplier.toInt * (p - q)) ∧
    (Odd multiplier.toInt → numOfPages.toInt ≤ 2 ^ 22 → p ≠ q →
      page (filldata multiplier numOfPages) p ≠ page (filldata multiplier numOfPages) q) ∧
    ∀ numOfPages' : Int32, (p : ℤ) < numOfPages'.toInt →
      page (filldata multiplier numOfPages) p = page (filldata multiplier numOfPages') p := by
  refine ⟨page_eq_iff hp hq, fun hodd hfew hne heq => ?_, fun numOfPages' hp' => ?_⟩
  · have hcoprime : IsCoprime (2 ^ 22 : ℤ) multiplier.toInt := (Int.isCoprime_two_left.mpr hodd).pow_left
    obtain ⟨d, hd⟩ := hcoprime.dvd_of_dvd_mul_left ((page_eq_iff hp hq).mp heq)
    omega
  · rw [page_filldata multiplier hp, page_filldata multiplier hp']

/-- A negative multiplier with one factor of two and pages that are `2 ^ 21` apart, and an odd one. -/
theorem pages_alike_far : page (filldata (-2) 4194304) 2097153 = page (filldata (-2) 4194304) 1 ∧
    page (filldata 3 4194304) 2097153 ≠ page (filldata 3 4194304) 1 ∧ page (filldata 3 5) 4 = page (filldata 3 4194304) 4 :=
  ⟨(pages_alike (by decide) (by decide)).1.mpr (by decide),
    (pages_alike (by decide) (by decide)).2.1 (by decide) (by decide) (by decide),
    (pages_alike (q := 0) (by decide) (by decide)).2.2 4194304 (by decide)⟩

end InputPages

end NuKSM.RandomAccess
