import Mathlib.Algebra.Order.Ring.Int
import Mathlib.Data.List.Range
import Mathlib.Data.List.TakeDrop
import Mathlib.Tactic.Common

/-! # Arrays behind signed indices, and counting loops

An access outside an array has no value, also at a negative index. -/

namespace NuKSM
variable {α β σ : Type}

/-- `A[i]`. -/
def peek (A : List α) (i : ℤ) : Option α := if 0 ≤ i then A[i.toNat]? else none

/-- `A[i] = x`. -/
def poke (A : List α) (i : ℤ) (x : α) : Option (List α) :=
  if 0 ≤ i ∧ i < A.length then some (A.set i.toNat x) else none

/-- `for (k = 0; k < n; k++) s = body(s, k)`. -/
def forUp (n : ℤ) (body : σ → ℤ → Option σ) (s : σ) : Option σ :=
  (List.range n.toNat).foldlM (fun s (k : ℕ) => body s k) s

/-- `malloc` of an array that is required to succeed; a negative length asks for more than there is. -/
def allocate (n : ℤ) (x : α) : Option (List α) := if 0 ≤ n then some (List.replicate n.toNat x) else none

/-- `for (k = 0; k < n; k++) A[k] = f(k)` on an array of `n` elements. -/
def tabulate (n : ℤ) (f : ℤ → Option α) : Option (List α) :=
  if 0 ≤ n then forUp n (fun A k => (f k).map fun x => A ++ [x]) [] else none

section access
variable {A : List α} {i j : ℤ} {x : α}

@[simp] theorem peek_natCast (k : ℕ) : peek A k = A[k]? := by
  simp [peek]

theorem peek_bounds (h : peek A i = some x) : 0 ≤ i ∧ i < A.length := by
  unfold peek at h
  split at h
  · have := (List.getElem?_eq_some_iff.mp h).1
    omega
  · cases h

theorem exists_peek (h0 : 0 ≤ i) (h : i < A.length) : ∃ x, peek A i = some x := by
  lift i to ℕ using h0
  rw [peek_natCast]
  exact ⟨_, List.getElem?_eq_getElem (by omega)⟩

theorem exists_peek_of_mem (h : x ∈ A) : ∃ i, peek A i = some x := by
  obtain ⟨k, hk⟩ := List.mem_iff_getElem?.mp h
  exact ⟨k, by rw [peek_natCast, hk]⟩

theorem mem_of_peek (h : peek A i = some x) : x ∈ A := by
  lift i to ℕ using (peek_bounds h).1
  rw [peek_natCast] at h
  exact List.mem_of_getElem? h

theorem peek_map (f : α → β) : peek (A.map f) i = (peek A i).map f := by
  unfold peek
  split
  · exact List.getElem?_map
  · rfl

/-- A write changes its own place only. -/
theorem poke_spec (x : α) (h0 : 0 ≤ i) (h : i < A.length) :
    ∃ B, poke A i x = some B ∧ B.length = A.length ∧ peek B i = some x ∧ ∀ j, j ≠ i → peek B j = peek A j := by
  refine ⟨A.set i.toNat x, if_pos ⟨h0, h⟩, List.length_set, ?_, fun j hj => ?_⟩
  · lift i to ℕ using h0
    rw [peek_natCast]
    exact List.getElem?_set_self (by omega)
  · unfold peek
    split
    · exact List.getElem?_set_ne (by omega)
    · rfl

/-- What a write leaves. -/
theorem poke_eq_some {B : List α} (h : poke A i x = some B) : B.length = A.length ∧ ∀ y ∈ B, y = x ∨ y ∈ A := by
  unfold poke at h
  split at h
  · cases h
    refine ⟨List.length_set, fun y hy => ?_⟩
    rcases List.mem_or_eq_of_mem_set hy with hmem | heq
    · exact Or.inr hmem
    · exact Or.inl heq
  · cases h

theorem pairwise_iff_peek {R : α → α → Prop} :
    A.Pairwise R ↔ ∀ i j x y, i < j → peek A i = some x → peek A j = some y → R x y := by
  rw [List.pairwise_iff_getElem]
  constructor
  · intro h i j x y hij hi hj
    obtain ⟨hi0, hil⟩ := peek_bounds hi
    obtain ⟨hj0, hjl⟩ := peek_bounds hj
    lift i to ℕ using hi0
    lift j to ℕ using hj0
    rw [peek_natCast] at hi hj
    obtain ⟨hi', rfl⟩ := List.getElem?_eq_some_iff.mp hi
    obtain ⟨hj', rfl⟩ := List.getElem?_eq_some_iff.mp hj
    exact h i j hi' hj' (by omega)
  · intro h i j hi hj hij
    exact h i j _ _ (by omega) (by rw [peek_natCast, List.getElem?_eq_getElem hi])
      (by rw [peek_natCast, List.getElem?_eq_getElem hj])

end access

section rows
variable {N e e' i i' len : ℤ}

/-- A place of a flattened table with `len` rows of `N` columns. -/
theorem flat_lt (h0 : 0 ≤ e) (h : e < len) (hi0 : 0 ≤ i) (hi : i < N) : 0 ≤ e * N + i ∧ e * N + i < len * N := by
  have hrow : e * N + N ≤ len * N := by
    rw [← add_one_mul]
    exact mul_le_mul_of_nonneg_right h (by omega)
  have := mul_nonneg h0 (hi0.trans hi.le)
  omega

/-- Different cells of a flattened table have different places. -/
theorem flat_inj (hi0 : 0 ≤ i) (hi : i < N) (hi0' : 0 ≤ i') (hi' : i' < N) (h : e * N + i = e' * N + i') :
    e = e' ∧ i = i' := by
  have hrow : (e * N + i) / N = (e' * N + i') / N := by rw [h]
  rw [Int.mul_comm e, Int.mul_comm e', Int.mul_add_ediv_left _ _ (by omega), Int.mul_add_ediv_left _ _ (by omega),
    Int.ediv_eq_zero_of_lt hi0 hi, Int.ediv_eq_zero_of_lt hi0' hi'] at hrow
  obtain rfl : e = e' := by omega
  exact ⟨rfl, by omega⟩

end rows

/-- What every step of a counting loop keeps, the loop keeps. -/
theorem forUp_inv {n : ℤ} {body : σ → ℤ → Option σ} {s s' : σ} {P : ℤ → σ → Prop} (hn : 0 ≤ n)
    (hrun : forUp n body s = some s') (hinit : P 0 s)
    (hstep : ∀ k s s', 0 ≤ k → k < n → P k s → body s k = some s' → P (k + 1) s') : P n s' := by
  lift n to ℕ using hn
  unfold forUp at hrun
  rw [Int.toNat_natCast] at hrun
  induction n generalizing s' with
  | zero =>
    obtain rfl : s = s' := by simpa using hrun
    exact hinit
  | succ n ih =>
    rw [List.range_succ, List.foldlM_append] at hrun
    obtain ⟨s₁, hrun₁, hlast⟩ := Option.bind_eq_some_iff.mp hrun
    have hinv := ih hrun₁ fun k s s' h0 hk => hstep k s s' h0 (by omega)
    exact_mod_cast hstep n s₁ s' (by omega) (by omega) hinv (by simpa using hlast)

/-- What every step of a counting loop keeps, whatever step it is, the loop keeps. -/
theorem forUp_keeps {n : ℤ} {body : σ → ℤ → Option σ} {s s' : σ} {P : σ → Prop} (hrun : forUp n body s = some s')
    (hinit : P s) (hstep : ∀ k s s', 0 ≤ k → k < n → P s → body s k = some s' → P s') : P s' := by
  rcases le_or_gt 0 n with hn | hn
  · exact forUp_inv (P := fun _ => P) hn hrun hinit hstep
  · unfold forUp at hrun
    rw [Int.toNat_of_nonpos hn.le] at hrun
    cases hrun
    exact hinit

/-- A counting loop whose body never faults keeps an invariant that counts its steps. -/
theorem forUp_total {n : ℤ} {body : σ → ℤ → Option σ} {s : σ} {P : ℤ → σ → Prop} (hn : 0 ≤ n) (hinit : P 0 s)
    (hstep : ∀ k s, 0 ≤ k → k < n → P k s → ∃ s', body s k = some s' ∧ P (k + 1) s') :
    ∃ s', forUp n body s = some s' ∧ P n s' := by
  lift n to ℕ using hn
  unfold forUp
  rw [Int.toNat_natCast]
  induction n with
  | zero => exact ⟨s, rfl, hinit⟩
  | succ n ih =>
    obtain ⟨s₁, hrun, hinv⟩ := ih fun k s h0 hk => hstep k s h0 (by omega)
    obtain ⟨s', hbody, hinv'⟩ := hstep n s₁ (by omega) (by omega) hinv
    refine ⟨s', ?_, by exact_mod_cast hinv'⟩
    rw [List.range_succ, List.foldlM_append, hrun]
    simpa using hbody

theorem forUp_zero {body : σ → ℤ → Option σ} {s : σ} : forUp 0 body s = some s := rfl

theorem forUp_succ {n : ℤ} {body : σ → ℤ → Option σ} {s : σ} (hn : 0 ≤ n) :
    forUp (n + 1) body s = (forUp n body s).bind fun s => body s n := by
  lift n to ℕ using hn
  unfold forUp
  rw [show ((n : ℤ) + 1).toNat = n + 1 from rfl, List.range_succ, List.foldlM_append]
  simp

/-- Two loops whose bodies agree on the steps they make. -/
theorem forUp_congr {n : ℤ} {body body' : σ → ℤ → Option σ} {s : σ} (hn : 0 ≤ n)
    (h : ∀ s k, 0 ≤ k → k < n → body s k = body' s k) : forUp n body s = forUp n body' s := by
  lift n to ℕ using hn
  induction n with
  | zero => rfl
  | succ n ih =>
    rw [Nat.cast_succ, forUp_succ (by omega), forUp_succ (by omega), ih fun s k h0 hk => h s k h0 (by omega)]
    exact congrArg _ (funext fun s => h s n (by omega) (by omega))

/-- A loop that reads the elements of an array one after the other folds over them. -/
theorem forUp_peek {A : List α} {g : σ → α → Option σ} {off n : ℤ} {s : σ} (h0 : 0 ≤ off) (hn : 0 ≤ n)
    (hlen : off + n ≤ A.length) :
    forUp n (fun s k => (peek A (off + k)).bind (g s)) s = ((A.drop off.toNat).take n.toNat).foldlM g s := by
  lift off to ℕ using h0
  lift n to ℕ using hn
  simp only [Int.toNat_natCast]
  induction n with
  | zero => simp [forUp_zero]
  | succ n ih =>
    have hread : peek A ((off : ℤ) + n) = some A[off + n] := by
      rw [← Nat.cast_add, peek_natCast]
      exact List.getElem?_eq_getElem (by omega)
    rw [Nat.cast_succ, forUp_succ (by omega), ih (by omega), hread, List.take_add_one, List.foldlM_append,
      List.getElem?_drop, List.getElem?_eq_getElem (by omega)]
    simp

/-- The cells in front of `(e, i)` of a flattened table with `len` rows of `N` columns are written. -/
def Filled (len N : ℤ) (Q : ℤ → ℤ → α → Prop) (e i : ℤ) (B : List α) : Prop :=
  B.length = len * N ∧ ∀ e' i', 0 ≤ e' → 0 ≤ i' → i' < N → e' < e ∨ e' = e ∧ i' < i →
    ∃ x, peek B (e' * N + i') = some x ∧ Q e' i' x

/-- Two nested loops that write every cell of a flattened table. -/
theorem fill_total {len N : ℤ} {body : List α → ℤ → ℤ → Option (List α)} {Q : ℤ → ℤ → α → Prop} {A : List α}
    (hlen : 0 ≤ len) (hN : 0 ≤ N) (hA : A.length = len * N)
    (hbody : ∀ e i, 0 ≤ e → e < len → 0 ≤ i → i < N → ∃ x, Q e i x ∧ ∀ B, body B e i = poke B (e * N + i) x) :
    ∃ B, forUp len (fun B e => forUp N (fun B i => body B e i) B) A = some B ∧
      ∀ e i, 0 ≤ e → e < len → 0 ≤ i → i < N → ∃ x, peek B (e * N + i) = some x ∧ Q e i x := by
  have hrow : ∀ e B, 0 ≤ e → e < len → Filled len N Q e 0 B →
      ∃ C, forUp N (fun B i => body B e i) B = some C ∧ Filled len N Q (e + 1) 0 C := by
    intro e B he0 he hB
    obtain ⟨C, hC, hlenC, hdone⟩ := forUp_total (P := Filled len N Q e) hN hB fun i B hi0 hi hB => by
      obtain ⟨x, hx, hwrite⟩ := hbody e i he0 he hi0 hi
      obtain ⟨hp0, hp⟩ := flat_lt he0 he hi0 hi
      obtain ⟨C, hpoke, hlenC, hsame, hother⟩ := poke_spec x hp0 (show _ < (B.length : ℤ) by rw [hB.1]; exact hp)
      refine ⟨C, (hwrite B).trans hpoke, by rw [hlenC]; exact hB.1, fun e' i' he0' hi0' hi' hbefore => ?_⟩
      by_cases hcell : e' = e ∧ i' = i
      · obtain ⟨rfl, rfl⟩ := hcell
        exact ⟨x, hsame, hx⟩
      · rw [hother _ fun heq => hcell (flat_inj hi0' hi' hi0 hi heq)]
        exact hB.2 e' i' he0' hi0' hi' (by omega)
    exact ⟨C, hC, hlenC, fun e' i' he0' hi0' hi' _ => hdone e' i' he0' hi0' hi' (by omega)⟩
  obtain ⟨B, hB, -, hdone⟩ := forUp_total (P := fun e B => Filled len N Q e 0 B) hlen
    ⟨hA, fun e' i' he0' hi0' _ hbefore => by omega⟩ fun e B he0 he hB => hrow e B he0 he hB
  exact ⟨B, hB, fun e i he0 he hi0 hi => hdone e i he0 hi0 hi (Or.inl he)⟩

/-! ### New arrays -/

theorem allocate_eq_some {n : ℤ} (x : α) (h : 0 ≤ n) : ∃ A, allocate n x = some A ∧ A.length = n ∧
    ∀ i, 0 ≤ i → i < n → peek A i = some x := by
  lift n to ℕ using h
  refine ⟨List.replicate n x, if_pos (Int.natCast_nonneg n), by rw [List.length_replicate], fun i h0 hi => ?_⟩
  lift i to ℕ using h0
  rw [peek_natCast]
  exact List.getElem?_replicate_of_lt (by omega)

theorem mem_allocate {n : ℤ} {x : α} {A : List α} (h : allocate n x = some A) : A.length = n ∧ ∀ y ∈ A, y = x := by
  unfold allocate at h
  split at h
  case isFalse => cases h
  case isTrue hn =>
    cases h
    exact ⟨by rw [List.length_replicate]; omega, fun y hy => List.eq_of_mem_replicate hy⟩

theorem tabulate_eq_some {n : ℤ} {f : ℤ → Option α} {g : ℤ → α} (h : 0 ≤ n)
    (hf : ∀ i, 0 ≤ i → i < n → f i = some (g i)) :
    ∃ A, tabulate n f = some A ∧ A.length = n ∧ ∀ i, 0 ≤ i → i < n → peek A i = some (g i) := by
  rw [tabulate, if_pos h]
  refine forUp_total (P := fun k A => A.length = k ∧ ∀ i, 0 ≤ i → i < k → peek A i = some (g i)) h
    ⟨rfl, fun _ _ _ => by omega⟩ fun k A h0 hk ⟨hlen, hA⟩ => ⟨A ++ [g k], ?_, ?_, fun i hi0 hi => ?_⟩
  · rw [hf k h0 hk]
    rfl
  · simp [hlen]
  · lift i to ℕ using hi0
    rw [peek_natCast]
    rcases eq_or_ne (i : ℤ) k with rfl | hne
    · rw [List.getElem?_append_right (by omega), show i - A.length = 0 by omega]
      rfl
    · rw [List.getElem?_append_left (by omega), ← peek_natCast]
      exact hA i (by omega) (by omega)

theorem length_tabulate {n : ℤ} {f : ℤ → Option α} {A : List α} (h : tabulate n f = some A) : A.length = n := by
  unfold tabulate at h
  split at h
  case isFalse => cases h
  case isTrue hn =>
    refine forUp_inv (P := fun k (A : List α) => A.length = k) hn h rfl fun k B B' _ _ hlen hB => ?_
    obtain ⟨x, -, rfl⟩ := Option.map_eq_some_iff.mp hB
    simp [hlen]

/-- Two arrays of one length with the same elements. -/
theorem peek_ext {A B : List α} (hlen : A.length = B.length)
    (h : ∀ i : ℤ, 0 ≤ i → i < A.length → peek A i = peek B i) : A = B := by
  refine List.ext_getElem? fun i => ?_
  by_cases hi : i < A.length
  · rw [← peek_natCast, ← peek_natCast]
    exact h i (by omega) (by omega)
  · rw [List.getElem?_eq_none (by omega), List.getElem?_eq_none (by omega)]

end NuKSM
