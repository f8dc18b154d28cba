import Mathlib

/-! # A store and the journal of its writes

The cells of a store lie in files, at the positions of each file. A patch writes consecutive cells of a file. The journal of
the patches, with the newest first, determines the store. A stretch of cells holds what a patch has written there if no newer
one reaches into it. -/

namespace NuKSM

/-- The cells of some files. -/
abbrev Store (ι V : Type) := ι → ℤ → V

/-- The `n` cells from `pos` on. -/
def Store.read {ι V : Type} (s : Store ι V) (file : ι) (pos : ℤ) (n : ℕ) : List V :=
  (List.range n).map fun k : ℕ => s file (pos + k)

/-- A write of consecutive cells, with a note about it. -/
structure Patch (ι V T : Type) where
  file : ι
  pos : ℤ
  data : List V
  note : T

section patches
variable {ι V T : Type} [DecidableEq ι]

namespace Patch

/-- The patch reaches into the `n` cells from `pos` on. -/
def Touches (p : Patch ι V T) (file : ι) (pos : ℤ) (n : ℕ) : Prop :=
  p.file = file ∧ p.pos < pos + n ∧ pos < p.pos + p.data.length

instance (p : Patch ι V T) (file : ι) (pos : ℤ) (n : ℕ) : Decidable (p.Touches file pos n) := by
  unfold Touches
  infer_instance

def apply (p : Patch ι V T) (s : Store ι V) : Store ι V := fun file pos =>
  if p.file = file ∧ p.pos ≤ pos then p.data[(pos - p.pos).toNat]?.getD (s file pos) else s file pos

variable {p : Patch ι V T} {s : Store ι V} {file : ι} {pos : ℤ} {n : ℕ}

theorem read_apply (p : Patch ι V T) (s : Store ι V) : (p.apply s).read p.file p.pos p.data.length = p.data := by
  refine List.ext_getElem (by simp [Store.read]) fun k h _ => ?_
  have hk : k < p.data.length := by simpa [Store.read] using h
  have hindex : (p.pos + k - p.pos).toNat = k := by omega
  simp only [Store.read, List.getElem_map, List.getElem_range, apply]
  rw [if_pos ⟨trivial, by omega⟩, hindex, List.getElem?_eq_getElem hk, Option.getD_some]

theorem read_apply_of_not_touches (h : ¬p.Touches file pos n) : (p.apply s).read file pos n = s.read file pos n := by
  refine List.map_congr_left fun k hk => ?_
  have hk := List.mem_range.mp hk
  unfold apply
  split
  · rename_i hin
    have hend : p.pos + p.data.length ≤ pos := by
      by_contra hlt
      exact h ⟨hin.1, by omega, by omega⟩
    rw [List.getElem?_eq_none (by omega), Option.getD_none]
  · rfl

end Patch

/-- The store after all patches of the journal. -/
def replay (s : Store ι V) (log : List (Patch ι V T)) : Store ι V := log.foldr Patch.apply s

/-- The newest patch that reaches into the `n` cells from `pos` on. -/
def newest (log : List (Patch ι V T)) (file : ι) (pos : ℤ) (n : ℕ) : Option (Patch ι V T) :=
  log.find? fun p => p.Touches file pos n

variable {log : List (Patch ι V T)} {p : Patch ι V T} {s : Store ι V} {file : ι} {pos : ℤ} {n : ℕ}

theorem newest_cons_of_touches (h : p.Touches file pos n) : newest (p :: log) file pos n = some p :=
  List.find?_cons_of_pos (decide_eq_true h)

theorem newest_cons_of_not_touches (h : ¬p.Touches file pos n) : newest (p :: log) file pos n = newest log file pos n :=
  List.find?_cons_of_neg fun htouches => h (of_decide_eq_true htouches)

theorem mem_of_newest (h : newest log file pos n = some p) : p ∈ log := List.mem_of_find?_eq_some h

theorem touches_of_newest (h : newest log file pos n = some p) : p.Touches file pos n := by
  have h : log.find? (fun q => decide (q.Touches file pos n)) = some p := h
  exact of_decide_eq_true (List.find?_eq_some_iff_append.mp h).1

/-- What all patches that reach into the cells have in common, the newest has. -/
theorem exists_newest {Q : Patch ι V T → Prop} (hmem : p ∈ log) (htouches : p.Touches file pos n)
    (hall : ∀ q ∈ log, q.Touches file pos n → Q q) : ∃ q, newest log file pos n = some q ∧ Q q := by
  have hsome : (newest log file pos n).isSome := List.find?_isSome.mpr ⟨p, hmem, decide_eq_true htouches⟩
  obtain ⟨q, hq⟩ := Option.isSome_iff_exists.mp hsome
  exact ⟨q, hq, hall q (mem_of_newest hq) (touches_of_newest hq)⟩

/-- The newest patch is read back from the cells that it has written. -/
theorem read_replay (h : newest log p.file p.pos p.data.length = some p) :
    (replay s log).read p.file p.pos p.data.length = p.data := by
  induction log with
  | nil => cases h
  | cons q log ih =>
    by_cases htouches : q.Touches p.file p.pos p.data.length
    · rw [newest_cons_of_touches htouches] at h
      cases h
      exact Patch.read_apply p _
    · rw [newest_cons_of_not_touches htouches] at h
      exact (Patch.read_apply_of_not_touches htouches).trans (ih h)

end patches

end NuKSM
