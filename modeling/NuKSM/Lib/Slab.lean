import NuKSM.Lib.Prog
import Mathlib.Data.List.Perm.Basic
import Mathlib.Data.List.Nodup
import Mathlib.Data.List.Range
import Mathlib.Logic.Function.Basic

/-! # Slab allocation

A slab pool carves cells of one type from memory in slabs of a fixed number of cells and keeps the free
ones on a list that is linked through the cells themselves. `Slab.Pool s live` says that every carved
cell is either on that list or among `live`, exactly once. `Slab.Owns` adds what each live cell holds: it
is an assertion on the cells it lists and says nothing of the others. -/

namespace NuKSM

/-- Why a program that works on memory stops. -/
inductive Fault
  /-- An access outside the cells that were carved. -/
  | unmapped
  /-- An access through a null pointer. -/
  | nullDeref
  /-- An index outside an array. -/
  | outOfBounds
  /-- A pointer, or a field of a union, used as something that it is not. -/
  | badCast
  /-- A condition that the program relies on and does not test. -/
  | unmet
  /-- The program's own error exit. -/
  | exit
  /-- A recursion deeper than its fuel. -/
  | exhausted
  deriving DecidableEq, Repr

/-- A cell type with room for the link of the free list. -/
class SlabCell (ν : Type) where
  /-- The link, unless the cell holds something else in its place. -/
  getNext : ν → Option (Option Nat)
  setNext : Option Nat → ν → ν
  getNext_setNext : ∀ p c, getNext (setNext p c) = some p

/-- A pool of cells: its memory, the number of cells carved so far, and the head of the free list. -/
structure Slab (ν : Type) where
  mem : Nat → ν
  brk : Nat
  free : Option Nat

namespace Slab
variable {ν : Type}

/-- A pool from which nothing was carved yet. -/
def empty (c : ν) : Slab ν := ⟨fun _ => c, 0, none⟩

def put (s : Slab ν) (a : Nat) (c : ν) : Slab ν := { s with mem := Function.update s.mem a c }

section put
variable {s : Slab ν} {a b : Nat} {c c' : ν}

@[simp] theorem put_brk : (s.put a c).brk = s.brk := rfl

@[simp] theorem put_free : (s.put a c).free = s.free := rfl

@[simp] theorem put_mem_self : (s.put a c).mem a = c := Function.update_self ..

theorem put_mem_of_ne (h : b ≠ a) : (s.put a c).mem b = s.mem b := Function.update_of_ne h ..

@[simp] theorem put_put : (s.put a c).put a c' = s.put a c' := by
  simp [put]

@[simp] theorem put_mem_eq : s.put a (s.mem a) = s := by
  simp [put]

theorem put_comm (h : a ≠ b) : (s.put a c).put b c' = (s.put b c').put a c := by
  simp only [put, Slab.mk.injEq, and_true]
  exact Function.update_comm h c c' s.mem

end put

def load (a : Nat) : Prog (Slab ν) Fault ν := do
  let s ← get
  if a < s.brk then pure (s.mem a) else throw .unmapped

def store (a : Nat) (c : ν) : Prog (Slab ν) Fault Unit := do
  let s ← get
  if a < s.brk then set (s.put a c) else throw .unmapped

theorem load_runs {s : Slab ν} {a : Nat} (ha : a < s.brk) : Runs (load a) s (s.mem a) s :=
  Runs.bind Runs.get (Runs.ite_pos ha Runs.pure)

theorem store_runs {s : Slab ν} {a : Nat} {c : ν} (ha : a < s.brk) : Runs (store a c) s () (s.put a c) :=
  Runs.bind Runs.get (Runs.ite_pos ha Runs.set)

/-! ### Allocation -/

section alloc
variable [SlabCell ν]
open SlabCell

/-- `n[i].next = free; free = &n[i]`. -/
def link (s : Slab ν) (a : Nat) : Slab ν := { s.put a (setNext s.free (s.mem a)) with free := some a }

/-- Links the cells from `base` on, in the order of their addresses. -/
def linkAll (base : Nat) : Nat → Slab ν → Slab ν
  | 0, s => s
  | n + 1, s => (linkAll base n s).link (base + n)

/-- A new slab of `n` cells, all equal to `z`, linked into the free list. -/
def carve (z : ν) (n : Nat) (s : Slab ν) : Slab ν :=
  linkAll s.brk n { s with mem := fun a => if s.brk ≤ a ∧ a < s.brk + n then z else s.mem a, brk := s.brk + n }

/-- Carves a slab when no cell is free. -/
def refill (z : ν) (n : Nat) : Prog (Slab ν) Fault Unit :=
  modify fun s => if s.free.isNone then carve z n s else s

/-- Takes the first free cell, after carving a slab when there is none. -/
def alloc (z : ν) (n : Nat) : Prog (Slab ν) Fault Nat := do
  refill z n
  let a ← Prog.orFault .nullDeref (← get).free
  let next ← Prog.orFault .badCast (getNext (← load a))
  modify fun s => { s with free := next }
  pure a

/-- Puts a cell at the head of the free list. -/
def release (a : Nat) : Prog (Slab ν) Fault Unit := do
  let c ← load a
  store a (setNext (← get).free c)
  modify fun s => { s with free := some a }

/-- The free list from the pointer `p` visits the cells of `l` and ends. -/
def FreeChain (s : Slab ν) : Option Nat → List Nat → Prop
  | p, [] => p = none
  | p, a :: l => p = some a ∧ ∃ q, getNext (s.mem a) = some q ∧ FreeChain s q l

/-- Every carved cell is on the free list or in `live`, and only once. -/
def Pool (s : Slab ν) (live : List Nat) : Prop :=
  ∃ l, FreeChain s s.free l ∧ (l ++ live).Perm (List.range s.brk)

theorem FreeChain.congr {s s' : Slab ν} : ∀ {l : List Nat} {p : Option Nat}, FreeChain s p l →
    (∀ a ∈ l, getNext (s'.mem a) = getNext (s.mem a)) → FreeChain s' p l
  | [], _, h, _ => h
  | a :: _, _, ⟨hp, q, hq, h⟩, heq =>
    ⟨hp, q, (heq a (List.mem_cons_self ..)).trans hq, h.congr fun b hb => heq b (List.mem_cons_of_mem _ hb)⟩

/-- The free list of a pool is determined by its memory. -/
theorem FreeChain.unique {s : Slab ν} : ∀ {l l' : List Nat} {p : Option Nat}, FreeChain s p l → FreeChain s p l' → l = l'
  | [], [], _, _, _ => rfl
  | [], _ :: _, _, h, h' => by simp [FreeChain] at h h'; simp [h] at h'
  | _ :: _, [], _, h, h' => by simp [FreeChain] at h h'; simp [h'] at h
  | a :: l, b :: l', _, ⟨hp, q, hq, h⟩, ⟨hp', q', hq', h'⟩ => by
    rw [hp, Option.some.injEq] at hp'
    subst hp'
    rw [hq, Option.some.injEq] at hq'
    subst hq'
    rw [h.unique h']

namespace Pool
variable {s : Slab ν} {live live' : List Nat} {a : Nat}

theorem empty {c : ν} : (Slab.empty c).Pool [] := ⟨[], rfl, by simp [Slab.empty]⟩

theorem perm (h : s.Pool live) (hp : live.Perm live') : s.Pool live' := by
  obtain ⟨l, hl, hperm⟩ := h
  exact ⟨l, hl, (hp.symm.append_left l).trans hperm⟩

theorem nodup (h : s.Pool live) : live.Nodup := by
  obtain ⟨l, -, hperm⟩ := h
  exact (List.nodup_append.mp (hperm.nodup_iff.mpr List.nodup_range)).2.1

theorem lt (h : s.Pool live) (ha : a ∈ live) : a < s.brk := by
  obtain ⟨l, -, hperm⟩ := h
  exact List.mem_range.mp (hperm.subset (List.mem_append_right l ha))

theorem length_le (h : s.Pool live) : live.length ≤ s.brk := by
  obtain ⟨l, -, hperm⟩ := h
  have := hperm.length_eq
  simp only [List.length_append, List.length_range] at this
  omega

theorem put (h : s.Pool live) (ha : a ∈ live) (c : ν) : (s.put a c).Pool live := by
  obtain ⟨l, hl, hperm⟩ := h
  refine ⟨l, hl.congr fun b hb => ?_, hperm⟩
  have hne : b ≠ a := by
    rintro rfl
    exact (List.nodup_append.mp (hperm.nodup_iff.mpr List.nodup_range)).2.2 b hb b ha rfl
  rw [put_mem_of_ne hne]

end Pool

section linkAll
variable {base : Nat} {s : Slab ν}

@[simp] theorem linkAll_brk : ∀ {n : Nat}, (linkAll base n s).brk = s.brk
  | 0 => rfl
  | n + 1 => linkAll_brk (n := n)

theorem linkAll_mem : ∀ {n a : Nat}, (a < base ∨ base + n ≤ a) → (linkAll base n s).mem a = s.mem a
  | 0, _, _ => rfl
  | n + 1, a, h => by
    have hne : a ≠ base + n := by omega
    exact (put_mem_of_ne hne).trans (linkAll_mem (by omega))

theorem linkAll_chain (h : FreeChain s s.free []) : ∀ {n : Nat},
    FreeChain (linkAll base n s) (linkAll base n s).free ((List.range n).map (base + ·)).reverse
  | 0 => h
  | n + 1 => by
    rw [List.range_succ, List.map_append, List.reverse_append]
    refine ⟨rfl, _, (congrArg getNext put_mem_self).trans (getNext_setNext ..), ?_⟩
    refine (linkAll_chain h (n := n)).congr fun b hb => ?_
    have hne : b ≠ base + n := by
      simp only [List.mem_reverse, List.mem_map, List.mem_range] at hb
      omega
    exact congrArg getNext (put_mem_of_ne hne)

end linkAll

variable {s : Slab ν} {live : List Nat} {z : ν} {n : Nat}

@[simp] theorem carve_brk : (carve z n s).brk = s.brk + n := linkAll_brk

theorem carve_mem {a : Nat} (h : a < s.brk) : (carve z n s).mem a = s.mem a := by
  refine (linkAll_mem (Or.inl h)).trans ?_
  simp [Nat.not_le.mpr h]

theorem refill_runs : Runs (refill z n) s () (if s.free.isNone then carve z n s else s) := Runs.modify

theorem Pool.carve (h : s.Pool live) (hfree : s.free = none) : (carve z n s).Pool live := by
  obtain ⟨l, hl, hperm⟩ := h
  have hnil : l = [] := by
    cases l with
    | nil => rfl
    | cons a l => simp [FreeChain, hfree] at hl
  subst hnil
  refine ⟨((List.range n).map (s.brk + ·)).reverse, linkAll_chain (by exact hfree), ?_⟩
  rw [carve_brk, List.range_add]
  calc (((List.range n).map (s.brk + ·)).reverse ++ live).Perm ((List.range n).map (s.brk + ·) ++ live) :=
        (List.reverse_perm _).append_right live
    _ |>.Perm (live ++ (List.range n).map (s.brk + ·)) := List.perm_append_comm
    _ |>.Perm _ := hperm.append_right _

/-- An allocation returns a cell that was not live, and keeps every live cell. -/
theorem Pool.alloc (h : s.Pool live) (hn : 0 < n) :
    ∃ a s', Runs (alloc z n) s a s' ∧ s'.Pool (a :: live) ∧ s.brk ≤ s'.brk ∧ ∀ b ∈ live, s'.mem b = s.mem b := by
  -- After the slab is carved, if one is, the free list is not empty.
  obtain ⟨s₁, hrun, hpool, hsome, hbrk, hmem⟩ : ∃ s₁ : Slab ν,
      Runs (refill z n) s () s₁ ∧ s₁.Pool live ∧ s₁.free ≠ none ∧ s.brk ≤ s₁.brk ∧ ∀ b ∈ live, s₁.mem b = s.mem b := by
    cases hfree : s.free with
    | none =>
      refine ⟨Slab.carve z n s, by simpa [hfree] using refill_runs (s := s), h.carve hfree, ?_, by simp, fun b hb => carve_mem (h.lt hb)⟩
      obtain ⟨n, rfl⟩ := Nat.exists_eq_succ_of_ne_zero hn.ne'
      simp [Slab.carve, linkAll, link]
    | some a => exact ⟨s, by simpa [hfree] using refill_runs (s := s), h, by simp [hfree], le_refl _, fun _ _ => rfl⟩
  obtain ⟨a, ha⟩ := Option.ne_none_iff_exists'.mp hsome
  obtain ⟨l, hl, hperm⟩ := hpool
  cases l with
  | nil => exact absurd hl (by simp [FreeChain, ha])
  | cons a' l =>
    obtain ⟨hp, q, hq, hl⟩ := hl
    rw [ha, Option.some.injEq] at hp
    subst hp
    have hlt : a < s₁.brk := List.mem_range.mp (hperm.subset (by simp))
    refine ⟨a, { s₁ with free := q }, ?_, ⟨l, hl.congr fun _ _ => rfl, ?_⟩, hbrk, hmem⟩
    · unfold Slab.alloc
      refine Runs.bind hrun (Runs.bind Runs.get (Runs.bind (Runs.orFault ha) ?_))
      exact Runs.bind (load_runs hlt) (Runs.bind (Runs.orFault hq) (Runs.bind rfl Runs.pure))
    · exact List.perm_middle.trans hperm

/-- A released cell leaves the live ones. -/
theorem Pool.release {a : Nat} (h : s.Pool (a :: live)) :
    ∃ s', Runs (release a) s () s' ∧ s'.Pool live ∧ s'.brk = s.brk ∧ ∀ b ∈ live, s'.mem b = s.mem b := by
  have hlt : a < s.brk := h.lt (List.mem_cons_self ..)
  have hnot : a ∉ live := (List.nodup_cons.mp h.nodup).1
  obtain ⟨l, hl, hperm⟩ := h.put (List.mem_cons_self ..) (setNext s.free (s.mem a))
  refine ⟨{ s.put a (setNext s.free (s.mem a)) with free := some a }, ?_, ⟨a :: l, ⟨rfl, s.free, ?_, ?_⟩, ?_⟩, rfl, ?_⟩
  · exact Runs.bind (load_runs hlt) (Runs.bind Runs.get (Runs.bind (store_runs hlt) rfl))
  · exact (congrArg getNext put_mem_self).trans (getNext_setNext ..)
  · exact hl.congr fun _ _ => rfl
  · exact List.perm_middle.symm.trans hperm
  · intro b hb
    exact put_mem_of_ne fun hba => hnot (hba ▸ hb)

/-! ### Ownership -/

variable {δ : Type}

/-- The live cells are those of `L`, each with what it holds by `R`, and those of `D`. -/
structure Owns (R : ν → δ → Prop) (s : Slab ν) (L : List (Nat × δ)) (D : List Nat) : Prop where
  pool : s.Pool (L.map Prod.fst ++ D)
  holds : ∀ x ∈ L, R (s.mem x.1) x.2

namespace Owns
variable {R : ν → δ → Prop} {L L' A B : List (Nat × δ)} {D D' : List Nat} {a : Nat} {c c' : δ}

theorem perm (h : Owns R s L D) (hp : L.Perm L') : Owns R s L' D :=
  ⟨h.pool.perm ((hp.map _).append_right D), fun x hx => h.holds x (hp.mem_iff.mpr hx)⟩

theorem lt (h : Owns R s L D) (hx : (a, c) ∈ L) : a < s.brk :=
  h.pool.lt (List.mem_append_left _ (List.mem_map_of_mem hx))

theorem nodup (h : Owns R s L D) : (L.map Prod.fst).Nodup := (List.nodup_append.mp h.pool.nodup).1

theorem length_le (h : Owns R s L D) : L.length ≤ s.brk := by
  have := h.pool.length_le
  simp only [List.length_append, List.length_map] at this
  omega

/-- Two places of the list have two addresses. -/
theorem ne_of_middle (h : Owns R s (A ++ (a, c) :: B) D) {x : Nat × δ} (hx : x ∈ A ∨ x ∈ B) : x.1 ≠ a := by
  have hnd := h.nodup
  rw [List.map_append, List.map_cons] at hnd
  have hperm := (@List.perm_middle _ a (A.map Prod.fst) (B.map Prod.fst)).nodup_iff.mp hnd
  rintro rfl
  refine (List.nodup_cons.mp hperm).1 ?_
  rcases hx with hx | hx
  · exact List.mem_append_left _ (List.mem_map_of_mem hx)
  · exact List.mem_append_right _ (List.mem_map_of_mem hx)

/-- A cell is overwritten, the others stay. -/
theorem put (h : Owns R s (A ++ (a, c) :: B) D) {n : ν} (hn : R n c') :
    Owns R (s.put a n) (A ++ (a, c') :: B) D := by
  refine ⟨?_, fun x hx => ?_⟩
  · have := h.pool.put (a := a) (by simp) n
    simpa using this
  · rcases List.mem_append.mp hx with hx | hx
    · rw [put_mem_of_ne (h.ne_of_middle (Or.inl hx))]
      exact h.holds x (List.mem_append_left _ hx)
    · rcases List.mem_cons.mp hx with rfl | hx
      · rwa [put_mem_self]
      · rw [put_mem_of_ne (h.ne_of_middle (Or.inr hx))]
        exact h.holds x (List.mem_append_right _ (List.mem_cons_of_mem _ hx))

theorem put_head (h : Owns R s ((a, c) :: L) D) {n : ν} (hn : R n c') : Owns R (s.put a n) ((a, c') :: L) D :=
  put (A := []) h hn

/-- A live cell that is dropped from the list may hold anything. -/
theorem drop (h : Owns R s ((a, c) :: L) D) : Owns R s L (a :: D) :=
  ⟨h.pool.perm List.perm_middle.symm, fun x hx => h.holds x (List.mem_cons_of_mem _ hx)⟩

/-- A live cell that holds `c` may be listed. -/
theorem claim (h : Owns R s L (a :: D)) (hc : R (s.mem a) c) : Owns R s ((a, c) :: L) D :=
  ⟨h.pool.perm List.perm_middle, fun x hx => by
    rcases List.mem_cons.mp hx with rfl | hx
    · exact hc
    · exact h.holds x hx⟩

/-- A cell that is not listed may be overwritten. -/
theorem put_dead (h : Owns R s L (a :: D)) (n : ν) : Owns R (s.put a n) L (a :: D) := by
  refine ⟨h.pool.put (by simp) n, fun x hx => ?_⟩
  have hne : x.1 ≠ a := by
    rintro rfl
    exact (List.nodup_append.mp h.pool.nodup).2.2 x.1 (List.mem_map_of_mem hx) x.1 (List.mem_cons_self ..) rfl
  rw [put_mem_of_ne hne]
  exact h.holds x hx

theorem lt_dead (h : Owns R s L (a :: D)) : a < s.brk := h.pool.lt (by simp)

theorem alloc (h : Owns R s L D) (hn : 0 < n) :
    ∃ a s', Runs (Slab.alloc z n) s a s' ∧ Owns R s' L (a :: D) ∧ s.brk ≤ s'.brk := by
  obtain ⟨a, s', hrun, hpool, hbrk, hmem⟩ := h.pool.alloc (z := z) hn
  refine ⟨a, s', hrun, ⟨hpool.perm List.perm_middle.symm, fun x hx => ?_⟩, hbrk⟩
  rw [hmem x.1 (List.mem_append_left _ (List.mem_map_of_mem hx))]
  exact h.holds x hx

theorem release (h : Owns R s L (a :: D)) :
    ∃ s', Runs (Slab.release a) s () s' ∧ Owns R s' L D ∧ s'.brk = s.brk := by
  obtain ⟨s', hrun, hpool, hbrk, hmem⟩ := (h.pool.perm List.perm_middle).release
  refine ⟨s', hrun, ⟨hpool, fun x hx => ?_⟩, hbrk⟩
  rw [hmem x.1 (List.mem_append_left _ (List.mem_map_of_mem hx))]
  exact h.holds x hx

end Owns
end alloc
end Slab
end NuKSM
