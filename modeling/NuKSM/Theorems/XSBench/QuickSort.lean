import NuKSM.Lib.Rearrange
import NuKSM.XSBench.QuickSort

/-! # The sorts keep keys and values together

The partition loop keeps small keys on the left and large ones on the right, so that each scan meets a key that stops
it. The sort moves keys and values by one permutation of its segment and leaves the keys in order. -/

namespace NuKSM.XSBench
variable {α κ ν : Type}

/-! ### Exchanging two elements -/

theorem exchange_eq_some {A : List α} {i j : ℤ} {x y : α} (hi : peek A i = some x) (hj : peek A j = some y) :
    ∃ B, exchange A i j = some B ∧ MovedBy (Equiv.swap i j) A B := by
  obtain ⟨hi0, hil⟩ := peek_bounds hi
  obtain ⟨hj0, hjl⟩ := peek_bounds hj
  obtain ⟨B, hB, hlenB, hBi, hBo⟩ := poke_spec y hi0 hil
  obtain ⟨C, hC, hlenC, hCj, hCo⟩ := poke_spec x hj0 (show j < B.length by omega)
  refine ⟨C, ?_, hlenC.trans hlenB, fun k => ?_⟩
  · rw [exchange, hi, hj]
    simp only [Option.bind_eq_bind, Option.bind_some, hB, hC]
  · rcases eq_or_ne k j with rfl | hkj
    · rw [hCj, Equiv.swap_apply_right, hi]
    · rw [hCo k hkj]
      rcases eq_or_ne k i with rfl | hki
      · rw [hBi, Equiv.swap_apply_left, hj]
      · rw [hBo k hki, Equiv.swap_apply_of_ne_of_ne hki hkj]

/-! ### Segments of the two arrays -/

/-- The places `lo, …, hi` of both arrays are moved around, by the same permutation. -/
def Moved (lo hi : ℤ) (A B : KeyValue κ ν) : Prop :=
  ∃ σ, Within lo hi σ ∧ MovedBy σ A.key B.key ∧ MovedBy σ A.value B.value

/-- The key at `k` exists and fulfils `P`. -/
def Has (A : KeyValue κ ν) (k : ℤ) (P : κ → Prop) : Prop := ∃ x, peek A.key k = some x ∧ P x

namespace Moved
variable {A B C : KeyValue κ ν} {lo hi : ℤ}

theorem refl : Moved lo hi A A := ⟨1, Within.one, MovedBy.refl, MovedBy.refl⟩

theorem trans (h : Moved lo hi A B) (h' : Moved lo hi B C) : Moved lo hi A C := by
  obtain ⟨σ, hσ, hkey, hvalue⟩ := h
  obtain ⟨τ, hτ, hkey', hvalue'⟩ := h'
  exact ⟨σ * τ, hσ.mul hτ, hkey.trans hkey', hvalue.trans hvalue'⟩

theorem mono {lo' hi' : ℤ} (h : Moved lo hi A B) (hlo : lo' ≤ lo) (hhi : hi ≤ hi') : Moved lo' hi' A B := by
  obtain ⟨σ, hσ, hmoved⟩ := h
  exact ⟨σ, hσ.mono hlo hhi, hmoved⟩

theorem key_length (h : Moved lo hi A B) : B.key.length = A.key.length := by
  obtain ⟨σ, -, hkey, -⟩ := h
  exact hkey.length

theorem value_length (h : Moved lo hi A B) : B.value.length = A.value.length := by
  obtain ⟨σ, -, -, hvalue⟩ := h
  exact hvalue.length

theorem peek_outside (h : Moved lo hi A B) {k : ℤ} (hk : k < lo ∨ hi < k) : peek B.key k = peek A.key k := by
  obtain ⟨σ, hσ, hkey, -⟩ := h
  exact hkey.peek_outside hσ hk

/-- What holds of all keys of the segment still does. -/
theorem all {P : κ → Prop} (h : Moved lo hi A B) (hP : ∀ k, lo ≤ k → k ≤ hi → Has A k P) {k : ℤ} (h0 : lo ≤ k)
    (h1 : k ≤ hi) : Has B k P := by
  obtain ⟨σ, hσ, hkey, -⟩ := h
  obtain ⟨hσ0, hσ1⟩ := hσ.maps h0 h1
  obtain ⟨x, hx, hPx⟩ := hP _ hσ0 hσ1
  exact ⟨x, by rw [hkey.peek, hx], hPx⟩

theorem key_perm (h : Moved lo hi A B) : B.key.Perm A.key := by
  obtain ⟨σ, -, hkey, -⟩ := h
  exact hkey.perm

/-- The pairs of keys and values are the same. -/
theorem perm (h : Moved lo hi A B) : (B.key.zip B.value).Perm (A.key.zip A.value) := by
  obtain ⟨σ, -, hkey, hvalue⟩ := h
  exact (hkey.zip hvalue).perm

theorem perm_swap (h : Moved lo hi A B) : (B.value.zip B.key).Perm (A.value.zip A.key) := by
  obtain ⟨σ, -, hkey, hvalue⟩ := h
  exact (hvalue.zip hkey).perm

end Moved

theorem Has.outside {A B : KeyValue κ ν} {lo hi k : ℤ} {P : κ → Prop} (h : Has A k P) (hmoved : Moved lo hi A B)
    (hk : k < lo ∨ hi < k) : Has B k P := by
  obtain ⟨x, hx, hP⟩ := h
  exact ⟨x, by rw [hmoved.peek_outside hk, hx], hP⟩

/-! ### Scans -/

/-- A scan over readable places stops at the first that fails its test, if there is one. -/
theorem scan_stops {read : ℤ → Option κ} {test : κ → Bool} {step : ℤ} {n : ℕ} :
    ∀ {rounds : ℕ} {i : ℤ}, n < rounds → (∀ m : ℕ, m ≤ n → ∃ x, read (i + step * m) = some x) →
      (∃ x, read (i + step * n) = some x ∧ test x = false) →
      ∃ m : ℕ, m ≤ n ∧ scan read test step rounds i = some (i + step * m) ∧
        (∃ x, read (i + step * m) = some x ∧ test x = false) ∧
        ∀ k : ℕ, k < m → ∃ x, read (i + step * k) = some x ∧ test x = true := by
  induction n with
  | zero =>
    intro rounds i hr _ ⟨x, hx, hstop⟩
    obtain ⟨rounds, rfl⟩ := Nat.exists_eq_succ_of_ne_zero (Nat.ne_of_gt hr)
    refine ⟨0, le_rfl, ?_, ⟨x, hx, hstop⟩, fun k hk => absurd hk (Nat.not_lt_zero k)⟩
    have hread : read i = some x := by simpa using hx
    simp [scan, hread, hstop]
  | succ n ih =>
    intro rounds i hr hread hend
    obtain ⟨rounds, rfl⟩ := Nat.exists_eq_succ_of_ne_zero (Nat.ne_of_gt (Nat.zero_lt_of_lt hr))
    obtain ⟨x, hx⟩ := hread 0 (Nat.zero_le _)
    have hx' : read i = some x := by simpa using hx
    cases htest : test x with
    | false =>
      refine ⟨0, Nat.zero_le _, ?_, ⟨x, hx, htest⟩, fun k hk => absurd hk (Nat.not_lt_zero k)⟩
      simp [scan, hx', htest]
    | true =>
      have hshift : ∀ m : ℕ, i + step + step * m = i + step * ((m + 1 : ℕ) : ℤ) := fun m => by
        push_cast
        ring
      have hread' : ∀ m : ℕ, m ≤ n → ∃ x, read (i + step + step * m) = some x := fun m hm => by
        rw [hshift]
        exact hread (m + 1) (Nat.succ_le_succ hm)
      obtain ⟨m, hm, hscan, hstop, hgo⟩ := ih (Nat.lt_of_succ_lt_succ hr) hread' (by rwa [hshift])
      rw [hshift] at hscan hstop
      refine ⟨m + 1, Nat.succ_le_succ hm, by simpa [scan, hx', htest] using hscan, hstop, fun k hk => ?_⟩
      cases k with
      | zero => exact ⟨x, hx, htest⟩
      | succ k =>
        rw [← hshift]
        exact hgo k (Nat.lt_of_succ_lt_succ hk)

section bounds
variable {read : ℤ → Option κ} {test : κ → Bool} {i m : ℤ} {rounds : ℕ}

theorem scan_up (him : i ≤ m) (hr : m - i < rounds) (hread : ∀ k, i ≤ k → k ≤ m → ∃ x, read k = some x)
    (hend : ∃ x, read m = some x ∧ test x = false) :
    ∃ i', i ≤ i' ∧ i' ≤ m ∧ scan read test 1 rounds i = some i' ∧ (∃ x, read i' = some x ∧ test x = false) ∧
      ∀ k, i ≤ k → k < i' → ∃ x, read k = some x ∧ test x = true := by
  obtain ⟨n, rfl⟩ : ∃ n : ℕ, m = i + 1 * n := ⟨(m - i).toNat, by omega⟩
  have hn : n < rounds := by omega
  obtain ⟨l, hl, hscan, hstop, hgo⟩ := scan_stops hn (fun l hl => hread _ (by omega) (by omega)) hend
  refine ⟨i + 1 * l, by omega, by omega, hscan, hstop, fun k h0 h1 => ?_⟩
  obtain ⟨c, rfl⟩ : ∃ c : ℕ, k = i + 1 * c := ⟨(k - i).toNat, by omega⟩
  exact hgo c (by omega)

theorem scan_down (him : m ≤ i) (hr : i - m < rounds) (hread : ∀ k, m ≤ k → k ≤ i → ∃ x, read k = some x)
    (hend : ∃ x, read m = some x ∧ test x = false) :
    ∃ i', m ≤ i' ∧ i' ≤ i ∧ scan read test (-1) rounds i = some i' ∧ (∃ x, read i' = some x ∧ test x = false) ∧
      ∀ k, i' < k → k ≤ i → ∃ x, read k = some x ∧ test x = true := by
  obtain ⟨n, rfl⟩ : ∃ n : ℕ, m = i + -1 * n := ⟨(i - m).toNat, by omega⟩
  have hn : n < rounds := by omega
  obtain ⟨l, hl, hscan, hstop, hgo⟩ := scan_stops hn (fun l hl => hread _ (by omega) (by omega)) hend
  refine ⟨i + -1 * l, by omega, by omega, hscan, hstop, fun k h0 h1 => ?_⟩
  obtain ⟨c, rfl⟩ : ∃ c : ℕ, k = i + -1 * c := ⟨(i - k).toNat, by omega⟩
  exact hgo c (by omega)

end bounds

/-! ### The partition loop -/

/-- The arrays between two rounds of the loop around `pivot`, on the segment `left, …, right` from `base` on. -/
structure Parted [LinearOrder κ] (base left right : ℤ) (pivot : κ) (A₀ A : KeyValue κ ν) (i j : ℤ) : Prop where
  moved : Moved (base + left) (base + right) A₀ A
  i_ge : left ≤ i
  i_le : i ≤ right + 1
  j_ge : left - 1 ≤ j
  j_le : j ≤ right
  low : ∀ k, left ≤ k → k < i → Has A (base + k) (· ≤ pivot)
  high : ∀ k, j < k → k ≤ right → Has A (base + k) (pivot ≤ ·)
  /-- What stops the next scan to the right. -/
  up : i ≤ j → ∃ m, i ≤ m ∧ m ≤ right ∧ Has A (base + m) (pivot ≤ ·)
  /-- What stops the next scan to the left. -/
  down : i ≤ j → ∃ m, left ≤ m ∧ m ≤ j ∧ Has A (base + m) (· ≤ pivot)
  /-- Before the first exchange the pivot itself is still ahead of both scans. -/
  progress : left < i ∧ j < right ∨ ∃ m, i ≤ m ∧ m ≤ j ∧ Has A (base + m) (· = pivot)

theorem load_eq {beyond : ℤ → Option κ} {k : ℤ} {B : List κ} {x : κ} (h : peek B k = some x) :
    load beyond B k = some x := by
  rw [load, h]
  rfl

theorem load_isSome {beyond : ℤ → Option κ} (h : ∀ i, ∃ x, beyond i = some x) (B : List κ) (k : ℤ) :
    ∃ x, load beyond B k = some x := by
  unfold load
  cases peek B k with
  | none => exact h k
  | some x => exact ⟨x, rfl⟩

section partition
variable [LinearOrder κ] {beyond : ℤ → Option κ} {base left right i j : ℤ} {pivot : κ} {A₀ A : KeyValue κ ν}

/-- The scans of one round. -/
theorem Parted.scans (beyond : ℤ → Option κ) (h : Parted base left right pivot A₀ A i j) (hij : i ≤ j) (h0 : 0 ≤ base + left)
    (h1 : base + right < A.key.length) :
    ∃ i' j',
      scan (fun k => load beyond A.key (base + k)) (fun x => decide (x < pivot)) 1 (A.key.length + 1) i = some i' ∧
      scan (fun k => load beyond A.key (base + k)) (fun x => decide (pivot < x)) (-1) (A.key.length + 1) j = some j' ∧
      i ≤ i' ∧ i' ≤ right ∧ left ≤ j' ∧ j' ≤ j ∧ Has A (base + i') (pivot ≤ ·) ∧ Has A (base + j') (· ≤ pivot) ∧
      (∀ k, left ≤ k → k < i' → Has A (base + k) (· ≤ pivot)) ∧
      (∀ k, j' < k → k ≤ right → Has A (base + k) (pivot ≤ ·)) ∧ (left < i ∧ j < right ∨ i' ≤ j') := by
  have hget : ∀ k, left ≤ k → k ≤ right → ∃ x, load beyond A.key (base + k) = some x := fun k hk0 hk1 => by
    obtain ⟨x, hx⟩ := exists_peek (A := A.key) (i := base + k) (by omega) (by omega)
    exact ⟨x, load_eq hx⟩
  have hhas : ∀ k {P : κ → Prop}, left ≤ k → k ≤ right →
      (∃ x, load beyond A.key (base + k) = some x ∧ P x) → Has A (base + k) P := by
    rintro k P hk0 hk1 ⟨x, hx, hP⟩
    obtain ⟨y, hy⟩ := exists_peek (A := A.key) (i := base + k) (by omega) (by omega)
    rw [load_eq hy] at hx
    exact ⟨x, hy.trans hx, hP⟩
  have hi := h.i_ge
  have hj := h.j_le
  obtain ⟨m, him, hm1, x, hx, hpx⟩ := h.up hij
  have hroom : m - i < ((A.key.length + 1 : ℕ) : ℤ) := by omega
  have hend : ∃ x, load beyond A.key (base + m) = some x ∧ decide (x < pivot) = false :=
    ⟨x, load_eq hx, by simpa using hpx⟩
  obtain ⟨i', hi0, hi1, hscan, hstop, hgo⟩ :=
    scan_up him hroom (fun k hk0 hk1 => hget k (by omega) (by omega)) hend
  obtain ⟨m', hm0', hmj, x', hx', hpx'⟩ := h.down hij
  have hroom' : j - m' < ((A.key.length + 1 : ℕ) : ℤ) := by omega
  have hend' : ∃ x, load beyond A.key (base + m') = some x ∧ decide (pivot < x) = false :=
    ⟨x', load_eq hx', by simpa using hpx'⟩
  obtain ⟨j', hj0, hj1, hscan', hstop', hgo'⟩ :=
    scan_down hmj hroom' (fun k hk0 hk1 => hget k (by omega) (by omega)) hend'
  refine ⟨i', j', hscan, hscan', hi0, by omega, by omega, hj1, ?_, ?_, fun k hk0 hk1 => ?_, fun k hk0 hk1 => ?_, ?_⟩
  · obtain ⟨y, hy, htest⟩ := hstop
    exact hhas i' (by omega) (by omega) ⟨y, hy, by simpa using htest⟩
  · obtain ⟨y, hy, htest⟩ := hstop'
    exact hhas j' (by omega) (by omega) ⟨y, hy, by simpa using htest⟩
  · by_cases hk : k < i
    · exact h.low k hk0 hk
    · obtain ⟨y, hy, htest⟩ := hgo k (by omega) hk1
      exact hhas k hk0 (by omega) ⟨y, hy, (of_decide_eq_true htest).le⟩
  · by_cases hk : j < k
    · exact h.high k hk hk1
    · obtain ⟨y, hy, htest⟩ := hgo' k hk0 (by omega)
      exact hhas k (by omega) hk1 ⟨y, hy, (of_decide_eq_true htest).le⟩
  · rcases h.progress with hp | ⟨c, hic, hcj, y, hy, rfl⟩
    · exact Or.inl hp
    -- Neither scan passes the pivot.
    · refine Or.inr ((?_ : i' ≤ c).trans ?_)
      · by_contra hlt
        obtain ⟨z, hz, htest⟩ := hgo c hic (by omega)
        rw [load_eq hy] at hz
        cases hz
        simp at htest
      · by_contra hlt
        obtain ⟨z, hz, htest⟩ := hgo' c (by omega) hcj
        rw [load_eq hy] at hz
        cases hz
        simp at htest

/-- The two elements at which the scans stop change places. -/
theorem Parted.exchange (h : Parted base left right pivot A₀ A i j) (h0 : 0 ≤ base + left)
    (h1 : base + right < A.key.length) (hlen : A.value.length = A.key.length) {i' j' : ℤ} (hi0 : left ≤ i')
    (hij : i' ≤ j') (hj1 : j' ≤ right) (hi : Has A (base + i') (pivot ≤ ·)) (hj : Has A (base + j') (· ≤ pivot))
    (hlow : ∀ k, left ≤ k → k < i' → Has A (base + k) (· ≤ pivot))
    (hhigh : ∀ k, j' < k → k ≤ right → Has A (base + k) (pivot ≤ ·)) :
    ∃ key value, XSBench.exchange A.key (base + i') (base + j') = some key ∧
      XSBench.exchange A.value (base + i') (base + j') = some value ∧
      Parted base left right pivot A₀ ⟨key, value⟩ (i' + 1) (j' - 1) := by
  obtain ⟨x, hx, hpx⟩ := hi
  obtain ⟨y, hy, hpy⟩ := hj
  obtain ⟨v, hv⟩ := exists_peek (A := A.value) (i := base + i') (by omega) (by omega)
  obtain ⟨w, hw⟩ := exists_peek (A := A.value) (i := base + j') (by omega) (by omega)
  obtain ⟨key, hkey, hmkey⟩ := exchange_eq_some hx hy
  obtain ⟨value, hvalue, hmvalue⟩ := exchange_eq_some hv hw
  have hmoved : Moved (base + i') (base + j') A ⟨key, value⟩ :=
    ⟨Equiv.swap (base + i') (base + j'), Within.swap le_rfl (by omega) (by omega) le_rfl, hmkey, hmvalue⟩
  have hnewi : Has (⟨key, value⟩ : KeyValue κ ν) (base + i') (· ≤ pivot) :=
    ⟨y, by rw [hmkey.peek, Equiv.swap_apply_left, hy], hpy⟩
  have hnewj : Has (⟨key, value⟩ : KeyValue κ ν) (base + j') (pivot ≤ ·) :=
    ⟨x, by rw [hmkey.peek, Equiv.swap_apply_right, hx], hpx⟩
  refine ⟨key, value, hkey, hvalue, h.moved.trans (hmoved.mono (by omega) (by omega)), by omega, by omega, by omega,
    by omega, fun k hk0 hk1 => ?_, fun k hk0 hk1 => ?_, fun _ => ⟨j', by omega, hj1, hnewj⟩,
    fun _ => ⟨i', hi0, by omega, hnewi⟩, Or.inl ⟨by omega, by omega⟩⟩
  · rcases eq_or_ne k i' with rfl | hne
    · exact hnewi
    · exact (hlow k hk0 (by omega)).outside hmoved (by omega)
  · rcases eq_or_ne k j' with rfl | hne
    · exact hnewj
    · exact (hhigh k (by omega) hk1).outside hmoved (by omega)

/-- The partition loop. -/
theorem partitionLoop_spec (beyond : ℤ → Option κ) {rounds : ℕ} : ∀ {A : KeyValue κ ν} {i j : ℤ}, Parted base left right pivot A₀ A i j →
    0 ≤ base + left → base + right < A₀.key.length → A₀.value.length = A₀.key.length → j - i + 1 < rounds →
    ∃ B i' j', partitionLoop beyond base pivot rounds A i j = some (B, i', j') ∧
      Parted base left right pivot A₀ B i' j' ∧ j' < i' := by
  induction rounds with
  | zero =>
    intro A i j h _ _ _ hr
    exact ⟨A, i, j, by rw [partitionLoop, if_neg (by omega)], h, by omega⟩
  | succ rounds ih =>
    intro A i j h h0 h1 hlen hr
    by_cases hij : i ≤ j
    · have hkeys := h.moved.key_length
      have hvalues := h.moved.value_length
      obtain ⟨i', j', hscan, hscan', hi0, hi1, hj0, hj1, hi, hj, hlow, hhigh, hprogress⟩ :=
        h.scans beyond hij h0 (by omega)
      have hge := h.i_ge
      have hle := h.j_le
      rw [partitionLoop, if_pos hij]
      simp only [Option.bind_eq_bind, hscan, hscan', Option.bind_some]
      by_cases hij' : i' ≤ j'
      · obtain ⟨key, value, hkey, hvalue, hnext⟩ :=
          h.exchange h0 (by omega) (by omega) (by omega) hij' (by omega) hi hj hlow hhigh
        obtain ⟨B, i₁, j₁, hloop, hB⟩ := ih hnext h0 h1 hlen (by omega)
        refine ⟨B, i₁, j₁, ?_, hB⟩
        rw [if_pos hij', hkey, hvalue]
        exact hloop
      · have hnext : Parted base left right pivot A₀ A i' j' :=
          ⟨h.moved, by omega, by omega, by omega, by omega, hlow, hhigh, fun h => absurd h hij',
            fun h => absurd h hij', Or.inl ⟨by omega, by omega⟩⟩
        obtain ⟨B, i₁, j₁, hloop, hB⟩ := ih hnext h0 h1 hlen (by omega)
        exact ⟨B, i₁, j₁, by rw [if_neg hij']; exact hloop, hB⟩
    · exact ⟨A, i, j, by rw [partitionLoop, if_neg hij], h, by omega⟩

end partition

/-! ### The sort -/

/-- The keys from `left` to `right` are in order. -/
def SortedOn [LinearOrder κ] (A : KeyValue κ ν) (base left right : ℤ) : Prop :=
  ∀ k l x y, left ≤ k → k ≤ l → l ≤ right → peek A.key (base + k) = some x → peek A.key (base + l) = some y → x ≤ y

section sort
variable [LinearOrder κ] {beyond : ℤ → Option κ} {base left right : ℤ} {A₀ A B C : KeyValue κ ν}

theorem SortedOn.outside {lo hi : ℤ} (h : SortedOn A base left right) (hmoved : Moved (base + lo) (base + hi) A B)
    (hout : right < lo) : SortedOn B base left right := by
  intro k l x y hk hkl hl hx hy
  rw [hmoved.peek_outside (by omega)] at hx hy
  exact h k l x y hk hkl hl hx hy

theorem SortedOn.short (A : KeyValue κ ν) (h : right ≤ left) : SortedOn A base left right := by
  intro k l x y hk hkl hl hx hy
  obtain rfl : k = l := by omega
  rw [hx] at hy
  cases hy
  exact le_rfl

/-- Sorting both parts that the partition loop leaves sorts the whole. -/
theorem Parted.sorted {pivot : κ} {i j : ℤ} (h : Parted base left right pivot A₀ A i j) (hij : j < i)
    (hB : Moved (base + left) (base + j) A B) (hBs : SortedOn B base left j)
    (hC : Moved (base + i) (base + right) B C) (hCs : SortedOn C base i right) :
    Moved (base + left) (base + right) A₀ C ∧ SortedOn C base left right := by
  have hge := h.i_ge
  have hle := h.j_le
  refine ⟨(h.moved.trans (hB.mono le_rfl (by omega))).trans (hC.mono (by omega) le_rfl), ?_⟩
  have hlow : ∀ k, left ≤ k → k < i → Has C (base + k) (· ≤ pivot) := by
    intro k hk0 hk1
    refine Has.outside ?_ hC (by omega)
    by_cases hk : k ≤ j
    · refine hB.all (fun c hc0 hc1 => ?_) (by omega) (by omega)
      have := h.low (c - base) (by omega) (by omega)
      rwa [add_sub_cancel] at this
    · exact (h.low k hk0 hk1).outside hB (by omega)
  have hhigh : ∀ k, j < k → k ≤ right → Has C (base + k) (pivot ≤ ·) := by
    intro k hk0 hk1
    by_cases hk : i ≤ k
    · refine hC.all (fun c hc0 hc1 => ?_) (by omega) (by omega)
      have := (h.high (c - base) (by omega) (by omega)).outside hB (by omega)
      rwa [add_sub_cancel] at this
    · exact ((h.high k hk0 hk1).outside hB (by omega)).outside hC (by omega)
  intro k l x y hk hkl hl hx hy
  by_cases hlj : l ≤ j
  · exact hBs.outside hC hij k l x y hk hkl hlj hx hy
  by_cases hki : i ≤ k
  · exact hCs k l x y hki hkl hl hx hy
  -- The two places are on different sides of the pivot.
  obtain ⟨x', hx', hxp⟩ := hlow k hk (by omega)
  obtain ⟨y', hy', hpy⟩ := hhigh l (by omega) hl
  rw [hx] at hx'
  rw [hy] at hy'
  cases hx'
  cases hy'
  exact le_trans hxp hpy

/-- The pivot is an element of a segment that is not empty, and the loop starts from there. -/
theorem Parted.start (beyond : ℤ → Option κ) (hle : left ≤ right) (h0 : 0 ≤ left) (hbase : 0 ≤ base) (h1 : base + right < A.key.length) :
    ∃ pivot, load beyond A.key (base + (left + right).tdiv 2) = some pivot ∧
      Parted base left right pivot A A left right := by
  have hmid : left ≤ (left + right).tdiv 2 ∧ (left + right).tdiv 2 ≤ right := by
    rw [Int.tdiv_eq_ediv_of_nonneg (by omega)]
    omega
  obtain ⟨pivot, hpivot⟩ := exists_peek (A := A.key) (i := base + (left + right).tdiv 2) (by omega) (by omega)
  exact ⟨pivot, load_eq hpivot, Moved.refl, le_rfl, by omega, by omega, le_rfl, fun _ _ _ => by omega,
    fun _ _ _ => by omega, fun _ => ⟨_, hmid.1, hmid.2, pivot, hpivot, le_rfl⟩,
    fun _ => ⟨_, hmid.1, hmid.2, pivot, hpivot, le_rfl⟩, Or.inr ⟨_, hmid.1, hmid.2, pivot, hpivot, rfl⟩⟩

theorem intArith_eq {x : ℤ} (h0 : -2147483648 ≤ x) (h1 : x < 2147483648) : intArith x = some x := if_pos ⟨h0, h1⟩

/-- A call on an empty segment reads a pivot, and does nothing with it. -/
theorem quickSortInternal_empty {cutoff : ℤ} {depth : ℕ} (h0 : 0 ≤ left) (hempty : right = left - 1)
    (hint : 2 * right + 1 < 2147483648) (hcut : 0 < cutoff)
    (hread : ∃ x, load beyond A.key (base + (left + right).tdiv 2) = some x) :
    quickSortInternal beyond base cutoff (depth + 1) A left right = some A := by
  obtain ⟨x, hx⟩ := hread
  rw [quickSortInternal, intArith_eq (by omega) (by omega)]
  simp only [Option.bind_eq_bind, Option.bind_some, hx]
  rw [partitionLoop, if_neg (by omega)]
  simp only [Option.bind_some]
  rw [if_pos (by omega), if_neg (by omega), if_neg (by omega)]

/-- What a call promises: it ends, with the keys of its segment in order and everything else as it was. -/
def Sorts (call : Option (KeyValue κ ν)) (A : KeyValue κ ν) (base left right : ℤ) : Prop :=
  ∃ B, call = some B ∧ Moved (base + left) (base + right) A B ∧ SortedOn B base left right

/-- A segment of one element or none needs no call. -/
theorem Sorts.guarded {call : Option (KeyValue κ ν)} (h : Sorts call A base left right) :
    Sorts (if left < right then call else some A) A base left right := by
  split
  · exact h
  · exact ⟨A, rfl, Moved.refl, SortedOn.short A (by omega)⟩

/-- A call sorts its segment. Memory outside the arrays is read in a call on empty arrays only. -/
theorem quickSortInternal_sorts {cutoff : ℤ} (hcut : 0 < cutoff) (hbase : 0 ≤ base) {depth : ℕ} :
    ∀ {A : KeyValue κ ν} {left right : ℤ}, 0 ≤ left → left ≤ right + 1 → right - left + 1 < depth →
      base + right < A.key.length → A.value.length = A.key.length → 2 * right + 1 < 2147483648 →
      (right < 0 → ∃ x, load beyond A.key base = some x) →
      Sorts (quickSortInternal beyond base cutoff depth A left right) A base left right := by
  induction depth with
  | zero =>
    intro A left right _ _ hdepth
    omega
  | succ depth ih =>
    intro A left right h0 hle hdepth h1 hlen hint hread
    by_cases hempty : right < left
    · have hpivot : ∃ x, load beyond A.key (base + (left + right).tdiv 2) = some x := by
        rcases eq_or_ne left 0 with rfl | hne
        · obtain rfl : right = -1 := by omega
          simpa using hread (by omega)
        · rw [Int.tdiv_eq_ediv_of_nonneg (by omega)]
          obtain ⟨x, hx⟩ := exists_peek (A := A.key) (i := base + (left + right) / 2) (by omega) (by omega)
          exact ⟨x, load_eq hx⟩
      exact ⟨A, quickSortInternal_empty h0 (by omega) hint hcut hpivot, Moved.refl, SortedOn.short A (by omega)⟩
    obtain ⟨pivot, hpivot, hstart⟩ := Parted.start (A := A) beyond (by omega) h0 hbase h1
    have hroom : right - left + 1 < ((A.key.length + 1 : ℕ) : ℤ) := by omega
    obtain ⟨A', i, j, hloop, hparted, hij⟩ := partitionLoop_spec beyond hstart (by omega) h1 hlen hroom
    have hge := hparted.j_ge
    have hle' := hparted.i_le
    have hkeys := hparted.moved.key_length
    have hvalues := hparted.moved.value_length
    have hprogress : left < i ∧ j < right := by
      rcases hparted.progress with h | ⟨m, him, hmj, -⟩
      · exact h
      · omega
    have hbaseread : ∃ x, load beyond A'.key base = some x := by
      obtain ⟨x, hx⟩ := exists_peek (A := A'.key) hbase (by omega)
      exact ⟨x, load_eq hx⟩
    have hleft : Sorts (quickSortInternal beyond base cutoff depth A' left j) A' base left j :=
      ih h0 (by omega) (by omega) (by omega) (by omega) (by omega) fun _ => hbaseread
    have hright : ∀ B, Moved (base + left) (base + j) A' B →
        Sorts (quickSortInternal beyond base cutoff depth B i right) B base i right := fun B hB =>
      ih (by omega) (by omega) (by omega) (by have := hB.key_length; omega)
        (by have := hB.key_length; have := hB.value_length; omega) hint fun h => by omega
    rw [quickSortInternal, intArith_eq (by omega) (by omega)]
    simp only [Option.bind_eq_bind, Option.bind_some, hpivot, hloop]
    by_cases hsmall : right - left < cutoff
    · obtain ⟨B, hB, hmB, hsB⟩ := hleft.guarded
      obtain ⟨C, hC, hmC, hsC⟩ := (hright B hmB).guarded
      refine ⟨C, ?_, hparted.sorted hij hmB hsB hmC hsC⟩
      rw [if_pos hsmall]
      by_cases hlt : left < j
      · rw [if_pos hlt] at hB ⊢
        rw [hB]
        exact hC
      · rw [if_neg hlt] at hB ⊢
        cases hB
        exact hC
    · obtain ⟨B, hB, hmB, hsB⟩ := hleft
      obtain ⟨C, hC, hmC, hsC⟩ := hright B hmB
      exact ⟨C, by rw [if_neg hsmall, hB]; exact hC, hparted.sorted hij hmB hsB hmC hsC⟩

/-- The sorts of the source. -/
theorem quickSortParallel_sorts {lenArray : ℤ} (hbase : 0 ≤ base) (hpos : 0 ≤ lenArray)
    (hfit : base + lenArray ≤ A.key.length) (hlen : A.value.length = A.key.length)
    (hint : 2 * (lenArray - 1) < 2147483648) (hread : lenArray = 0 → ∃ x, load beyond A.key base = some x) :
    Sorts (quickSortParallel beyond A base lenArray) A base 0 (lenArray - 1) :=
  quickSortInternal_sorts (by decide) hbase le_rfl (by omega) (by omega) (by omega) hlen (by omega)
    fun h => hread (by omega)

/-! ### The bounds of the arrays -/

/-- The call sorts the whole arrays, and there is nothing around them that could be read. -/
def SortsInBounds (call : (ℤ → Option κ) → KeyValue κ ν → ℤ → ℤ → Option (KeyValue κ ν)) (A : KeyValue κ ν) : Prop :=
  Sorts (call (fun _ => none) A 0 A.key.length) A 0 0 (A.key.length - 1)

/-- The pivot of empty arrays is the element zero. -/
theorem quickSortParallel_nil (V : List ν) :
    quickSortParallel (fun _ => none) (⟨[], V⟩ : KeyValue κ ν) 0 (([] : List κ).length : ℤ) = none := by
  rw [quickSortParallel, quickSortInternal, intArith_eq (by simp) (by simp)]
  rfl

theorem sortsInBounds_iff (A : KeyValue κ ν) (hlen : A.value.length = A.key.length)
    (hint : 2 * ((A.key.length : ℤ) - 1) < 2147483648) : SortsInBounds quickSortParallel A ↔ A.key ≠ [] := by
  constructor
  · rintro ⟨B, hB, -⟩ hnil
    obtain ⟨K, V⟩ := A
    obtain rfl : K = [] := hnil
    rw [quickSortParallel_nil] at hB
    cases hB
  · intro hne
    have hpos := List.length_pos_of_ne_nil hne
    exact quickSortParallel_sorts le_rfl (by omega) (by omega) hlen hint fun hzero => by omega

end sort

/-- Both sorts of the source keep within their arrays exactly if these are not empty. -/
theorem quickSorts_inBounds_iff {E : Type} [LinearOrder E] (A : KeyValue ℤ E) (B : KeyValue E ℤ)
    (hA : A.value.length = A.key.length) (hB : B.value.length = B.key.length)
    (hintA : 2 * ((A.key.length : ℤ) - 1) < 2147483648) (hintB : 2 * ((B.key.length : ℤ) - 1) < 2147483648) :
    (SortsInBounds quickSortParallelID A ↔ A.key ≠ []) ∧ (SortsInBounds quickSortParallelDI B ↔ B.key ≠ []) :=
  ⟨sortsInBounds_iff A hA hintA, sortsInBounds_iff B hB hintB⟩

theorem quickSorts_inBounds_iff_two :
    (SortsInBounds quickSortParallelID ⟨[2, 1], ["b", "a"]⟩ ↔ ([2, 1] : List ℤ) ≠ []) ∧
      (SortsInBounds quickSortParallelDI ⟨["b", "a"], [2, 1]⟩ ↔ ["b", "a"] ≠ []) :=
  quickSorts_inBounds_iff ⟨[2, 1], ["b", "a"]⟩ ⟨["b", "a"], [2, 1]⟩ rfl rfl (by simp) (by simp)

/-- A material without a sample. -/
theorem not_sortsInBounds_nil : ¬SortsInBounds quickSortParallelDI (⟨[], []⟩ : KeyValue ℤ ℤ) := by
  rintro ⟨B, hB, -⟩
  rw [quickSortParallelDI, quickSortParallel_nil] at hB
  cases hB

end NuKSM.XSBench
