import Mathlib.Data.List.Induction
import Mathlib.Logic.Basic
import Mathlib.Tactic.Common

/-! # Programs that read and write a state and may fault

`Runs p s a s'` says that `p`, started in `s`, ends in `s'` with the result `a`; a program that faults
runs to nothing. Its rules follow the program: one for each construct, and one for each loop, which asks
for the values and the states that the loop passes through. -/

namespace NuKSM

/-- Programs over a state `σ` that may stop with a fault `ε`. -/
abbrev Prog (σ ε : Type) := StateT σ (Except ε)

namespace Prog
variable {σ ε α β : Type}

/-- The value of an option; without one the program faults with `e`. -/
def orFault (e : ε) : Option α → Prog σ ε α
  | some a => pure a
  | none => throw e

/-- The program goes on only if `c` holds. -/
def guardOr (e : ε) (c : Bool) : Prog σ ε Unit := if c then pure () else throw e

/-- `for (i = lo; i < lo + n; i++) b = body(i, b)`. -/
def loopUp (body : Nat → β → Prog σ ε β) : (lo n : Nat) → β → Prog σ ε β
  | _, 0, b => pure b
  | lo, n + 1, b => do
    let b ← body lo b
    loopUp body (lo + 1) n b

/-- `for (i = lo + n; i > lo; i--) body(i)`. -/
def loopDown (body : Nat → Prog σ ε Unit) (lo : Nat) : (n : Nat) → Prog σ ε Unit
  | 0 => pure ()
  | n + 1 => do
    body (lo + n + 1)
    loopDown body lo n

/-- `while (i < lo + n && test(i)) i++`, from `i = lo`; the result is the last `i`. -/
def scanUp (test : Nat → Prog σ ε Bool) : (lo n : Nat) → Prog σ ε Nat
  | lo, 0 => pure lo
  | lo, n + 1 => do
    if ← test lo then scanUp test (lo + 1) n else pure lo

end Prog

/-- `p` started in `s` ends in `s'` with the result `a`. -/
def Runs {σ ε α : Type} (p : Prog σ ε α) (s : σ) (a : α) (s' : σ) : Prop := p.run s = .ok (a, s')

namespace Runs
variable {σ ε α β : Type} {s s' s'' : σ} {a : α} {b : β} {p : Prog σ ε α} {f : α → Prog σ ε β}

theorem pure : Runs (ε := ε) (Pure.pure a) s a s := rfl

theorem bind (hp : Runs p s a s') (hf : Runs (f a) s' b s'') : Runs (p >>= f) s b s'' := by
  unfold Runs at *
  rw [StateT.run_bind, hp]
  exact hf

theorem of_bind (h : Runs (p >>= f) s b s'') : ∃ a s', Runs p s a s' ∧ Runs (f a) s' b s'' := by
  unfold Runs at *
  rw [StateT.run_bind] at h
  cases hp : p.run s with
  | error e =>
    rw [hp] at h
    cases h
  | ok r =>
    rw [hp] at h
    exact ⟨r.1, r.2, rfl, h⟩

theorem map {g : α → β} (hp : Runs p s a s') : Runs (g <$> p) s (g a) s' := by
  unfold Runs at *
  rw [StateT.run_map, hp]
  rfl

/-- A program has one result. -/
theorem det {a' : α} (h : Runs p s a s') (h' : Runs p s a' s'') : a = a' ∧ s' = s'' := by
  unfold Runs at *
  rw [h] at h'
  simpa using h'

theorem get : Runs (ε := ε) (MonadStateOf.get : Prog σ ε σ) s s s := rfl

theorem set : Runs (ε := ε) (MonadStateOf.set s' : Prog σ ε PUnit) s ⟨⟩ s' := rfl

theorem modify {g : σ → σ} : Runs (modify g : Prog σ ε Unit) s () (g s) := rfl

/-- What a computation without a state returns. -/
theorem lift {x : Except ε α} (h : x = .ok a) : Runs (liftM x : Prog σ ε α) s a s := by
  subst h
  rfl

theorem orFault {e : ε} {o : Option α} (h : o = some a) : Runs (Prog.orFault e o) s a s := by
  subst h
  rfl

theorem guardOr {e : ε} {c : Bool} (h : c = true) : Runs (Prog.guardOr e c) s () s := by
  subst h
  rfl

theorem of_guardOr {e : ε} {c : Bool} {u : Unit} (h : Runs (Prog.guardOr e c) s u s') : c = true := by
  cases c with
  | true => rfl
  | false => cases h

theorem ite_pos {c : Prop} [Decidable c] {q : Prog σ ε α} (hc : c) (h : Runs p s a s') :
    Runs (if c then p else q) s a s' := by
  rwa [if_pos hc]

theorem ite_neg {c : Prop} [Decidable c] {q : Prog σ ε α} (hc : ¬c) (h : Runs q s a s') :
    Runs (if c then p else q) s a s' := by
  rwa [if_neg hc]

/-- A counting loop passes through the values `B 0, …, B n` and the states `S 0, …, S n`. -/
theorem loopUp {g : Nat → β → Prog σ ε β} {B : Nat → β} {S : Nat → σ} :
    ∀ {n l : Nat}, (∀ j < n, Runs (g (l + j) (B j)) (S j) (B (j + 1)) (S (j + 1))) →
      Runs (Prog.loopUp g l n (B 0)) (S 0) (B n) (S n) := by
  intro n
  induction n generalizing B S with
  | zero => exact fun _ => pure
  | succ n ih =>
    intro l h
    refine bind (h 0 (Nat.succ_pos n)) (ih (B := fun j => B (j + 1)) (S := fun j => S (j + 1)) fun j hj => ?_)
    have := h (j + 1) (Nat.succ_lt_succ hj)
    rwa [← Nat.add_assoc, Nat.add_right_comm] at this

/-- A loop that counts down passes through the states `S n, …, S 0`. -/
theorem loopDown {g : Nat → Prog σ ε Unit} {S : Nat → σ} {l : Nat} :
    ∀ {n : Nat}, (∀ j < n, Runs (g (l + j + 1)) (S (j + 1)) () (S j)) →
      Runs (Prog.loopDown g l n) (S n) () (S 0) := by
  intro n
  induction n with
  | zero => exact fun _ => pure
  | succ n ih => exact fun h => bind (h n (Nat.lt_succ_self n)) (ih fun j hj => h j (Nat.lt_succ_of_lt hj))

/-- A search that reads only stops at the first index where its test fails. -/
theorem scanUp_stop {t : Nat → Prog σ ε Bool} :
    ∀ {m n l : Nat}, m < n → (∀ j < m, Runs (t (l + j)) s true s) → Runs (t (l + m)) s false s →
      Runs (Prog.scanUp t l n) s (l + m) s := by
  intro m
  induction m with
  | zero =>
    intro n l hn _ hstop
    obtain ⟨n, rfl⟩ := Nat.exists_eq_succ_of_ne_zero (Nat.pos_iff_ne_zero.mp hn)
    exact bind hstop pure
  | succ m ih =>
    intro n l hn hgo hstop
    obtain ⟨n, rfl⟩ := Nat.exists_eq_succ_of_ne_zero (Nat.pos_iff_ne_zero.mp (Nat.lt_of_le_of_lt (Nat.zero_le _) hn))
    have hrest := ih (n := n) (l := l + 1) (Nat.lt_of_succ_lt_succ hn)
      (fun j hj => by
        have := hgo (j + 1) (Nat.succ_lt_succ hj)
        rwa [← Nat.add_assoc, Nat.add_right_comm] at this)
      (by rwa [← Nat.add_assoc, Nat.add_right_comm] at hstop)
    rw [← Nat.add_assoc, Nat.add_right_comm]
    exact bind (hgo 0 (Nat.succ_pos m)) hrest

/-- A search whose test never fails stops at its bound. -/
theorem scanUp_end {t : Nat → Prog σ ε Bool} :
    ∀ {n l : Nat}, (∀ j < n, Runs (t (l + j)) s true s) → Runs (Prog.scanUp t l n) s (l + n) s := by
  intro n
  induction n with
  | zero => exact fun _ => pure
  | succ n ih =>
    intro l hgo
    have hrest := ih (l := l + 1) fun j hj => by
      have := hgo (j + 1) (Nat.succ_lt_succ hj)
      rwa [← Nat.add_assoc, Nat.add_right_comm] at this
    rw [← Nat.add_assoc, Nat.add_right_comm]
    exact bind (hgo 0 (Nat.succ_pos n)) hrest

/-- A search over a list reads the elements one by one and stops at the first that fails its test. -/
theorem scanUp_hit {γ : Type} {t : Nat → Prog σ ε Bool} {q : γ → Bool} {A C : List γ} {x : γ} {n : Nat}
    (hread : ∀ j y, (A ++ x :: C)[j]? = some y → j ≤ A.length → Runs (t j) s (q y) s)
    (hA : ∀ y ∈ A, q y = true) (hx : q x = false) (hn : A.length < n) :
    Runs (Prog.scanUp t 0 n) s A.length s := by
  have hstop := hread A.length x (by simp) (Nat.le_refl _)
  rw [hx] at hstop
  have := scanUp_stop (l := 0) hn (fun j hj => ?_) (by simpa using hstop)
  · simpa using this
  · have hy := hread j A[j] (by simp [List.getElem?_append_left hj]) (Nat.le_of_lt hj)
    rw [hA _ (List.getElem_mem hj)] at hy
    simpa using hy

/-- A search over a list that ends where the list does. -/
theorem scanUp_list {γ : Type} {t : Nat → Prog σ ε Bool} {q : γ → Bool} {A C : List γ}
    (hread : ∀ j y, (A ++ C)[j]? = some y → Runs (t j) s (q y) s)
    (hA : ∀ y ∈ A, q y = true) (hC : ∀ y ∈ C.head?, q y = false) :
    Runs (Prog.scanUp t 0 (A ++ C).length) s A.length s := by
  cases C with
  | nil =>
    have := scanUp_end (l := 0) (n := A.length) (s := s) (t := t) fun j hj => by
      have hy := hread j A[j] (by simp)
      rw [hA _ (List.getElem_mem hj)] at hy
      simpa using hy
    simpa using this
  | cons x C => exact scanUp_hit (fun j y hy _ => hread j y hy) hA (hC x rfl) (by simp)

end Runs

theorem bind_eq_ok {ε α β : Type} {x : Except ε α} {f : α → Except ε β} {b : β} (h : x >>= f = .ok b) :
    ∃ a, x = .ok a ∧ f a = .ok b := by
  cases x with
  | error e => cases h
  | ok a => exact ⟨a, rfl, h⟩

/-- An invariant of a machine that never faults, over the inputs that it has read. -/
theorem foldlM_total {σ ι ε : Type} {step : σ → ι → Except ε σ} {P : List ι → σ → Prop} {s : σ} (hinit : P [] s)
    (hstep : ∀ is s i, P is s → ∃ s', step s i = .ok s' ∧ P (is ++ [i]) s') (is : List ι) :
    ∃ s', is.foldlM step s = .ok s' ∧ P is s' := by
  induction is using List.reverseRecOn with
  | nil => exact ⟨s, rfl, hinit⟩
  | append_singleton is i ih =>
    obtain ⟨s₁, hrun, hinv⟩ := ih
    obtain ⟨s', hi, hinv'⟩ := hstep is s₁ i hinv
    refine ⟨s', ?_, hinv'⟩
    rw [List.foldlM_append, hrun]
    show step s₁ i >>= pure = .ok s'
    rw [bind_pure, hi]

end NuKSM
