import NuKSM.Lib.Array
import Mathlib

/-! # Arrays with their elements moved around

`MovedBy σ A B` says that `B` has at each place `k` what `A` has at the place `σ k`. Two arrays moved by one `σ`
keep their elements in pairs. -/

namespace NuKSM
variable {α β : Type} {σ τ : Equiv.Perm ℤ} {lo hi i j : ℤ}

/-- `σ` moves nothing outside the places `lo, …, hi`. -/
def Within (lo hi : ℤ) (σ : Equiv.Perm ℤ) : Prop := ∀ k, k < lo ∨ hi < k → σ k = k

namespace Within

theorem one : Within lo hi 1 := fun _ _ => rfl

theorem mul (hσ : Within lo hi σ) (hτ : Within lo hi τ) : Within lo hi (σ * τ) := fun k hk => by
  rw [Equiv.Perm.mul_apply, hτ k hk, hσ k hk]

theorem mono {lo' hi' : ℤ} (hσ : Within lo hi σ) (hlo : lo' ≤ lo) (hhi : hi ≤ hi') : Within lo' hi' σ :=
  fun k hk => hσ k (by omega)

theorem swap (hi0 : lo ≤ i) (hi1 : i ≤ hi) (hj0 : lo ≤ j) (hj1 : j ≤ hi) : Within lo hi (Equiv.swap i j) :=
  fun _ hk => Equiv.swap_apply_of_ne_of_ne (by omega) (by omega)

/-- What starts inside ends inside. -/
theorem maps (hσ : Within lo hi σ) {k : ℤ} (h0 : lo ≤ k) (h1 : k ≤ hi) : lo ≤ σ k ∧ σ k ≤ hi := by
  by_contra hout
  have hfix : σ (σ k) = σ k := hσ (σ k) (by omega)
  have := σ.injective hfix
  omega

end Within

/-- `B` has at the place `k` what `A` has at the place `σ k`. -/
structure MovedBy (σ : Equiv.Perm ℤ) (A B : List α) : Prop where
  length : B.length = A.length
  peek : ∀ k, peek B k = peek A (σ k)

theorem peek_zip (A : List α) (B : List β) (k : ℤ) :
    peek (A.zip B) k = (peek A k).bind fun x => (peek B k).map fun y => (x, y) := by
  unfold peek
  split
  · rw [List.zip_eq_zipWith, List.getElem?_zipWith]
    cases A[k.toNat]? <;> cases B[k.toNat]? <;> rfl
  · rfl

namespace MovedBy
variable {A B C : List α}

theorem refl : MovedBy 1 A A := ⟨rfl, fun _ => rfl⟩

theorem trans (h : MovedBy σ A B) (h' : MovedBy τ B C) : MovedBy (σ * τ) A C :=
  ⟨h'.length.trans h.length, fun k => by rw [h'.peek, h.peek, Equiv.Perm.mul_apply]⟩

theorem peek_outside (h : MovedBy σ A B) (hσ : Within lo hi σ) {k : ℤ} (hk : k < lo ∨ hi < k) :
    NuKSM.peek B k = NuKSM.peek A k := by
  rw [h.peek, hσ k hk]

/-- Pairs stay together. -/
theorem zip {A' B' : List β} (h : MovedBy σ A B) (h' : MovedBy σ A' B') : MovedBy σ (A.zip A') (B.zip B') := by
  refine ⟨by rw [List.length_zip, List.length_zip, h.length, h'.length], fun k => ?_⟩
  rw [peek_zip, peek_zip, h.peek, h'.peek]

/-- An array keeps its elements when they are moved around. -/
theorem perm (h : MovedBy σ A B) : B.Perm A := by
  have hmaps : ∀ k : Fin A.length, 0 ≤ σ k ∧ σ k < A.length := fun k => by
    obtain ⟨x, hx⟩ := exists_peek (A := B) (Int.natCast_nonneg k) (by have := h.length; omega)
    rw [h.peek] at hx
    exact peek_bounds hx
  let f : Fin A.length → Fin A.length := fun k => ⟨(σ k).toNat, by have := hmaps k; omega⟩
  have hinj : Function.Injective f := fun k l hkl => by
    have hσ : (σ k).toNat = (σ l).toNat := congrArg Fin.val hkl
    have hkl' : (k : ℤ) = l := σ.injective (by have := hmaps k; have := hmaps l; omega)
    exact Fin.ext (by omega)
  have hB : B = List.ofFn (A.get ∘ Equiv.ofBijective f (Finite.injective_iff_bijective.mp hinj)) := by
    refine List.ext_getElem (by rw [List.length_ofFn, h.length]) fun k hk hk' => ?_
    have hpeek := h.peek k
    rw [peek_natCast, List.getElem?_eq_getElem hk, ← Int.toNat_of_nonneg (hmaps ⟨k, by have := h.length; omega⟩).1,
      peek_natCast] at hpeek
    rw [List.getElem_ofFn]
    exact (List.getElem?_eq_some_iff.mp hpeek.symm).2.symm
  rw [hB]
  exact (Equiv.Perm.ofFn_comp_perm _ _).trans (by rw [List.ofFn_get])

end MovedBy

end NuKSM
