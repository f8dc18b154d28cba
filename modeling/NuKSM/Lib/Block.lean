import Mathlib
import NuKSM.Lib.Overlay

/-! # Blocks of memory

The cells of a block are a list. What is written has to lie within the block, and the cells in front of it stay as they are. -/

namespace NuKSM
variable {α : Type}

/-- `l` is written from the cell `j` on. -/
def putAt (block : List α) (j : ℕ) (l : List α) : Option (List α) :=
  if j + l.length ≤ block.length then some (overlay block j l.length l) else none

/-- A block of `n` cells with the contents of another. What is not copied is `junk`. -/
def resize (block : List α) (n : ℕ) (junk : ℕ → α) : List α :=
  (block ++ (List.range (n - block.length)).map fun k => junk (block.length + k)).take n

section block
variable {block block' l front : List α} {j n : ℕ}

theorem putAt_isSome (h : j + l.length ≤ block.length) : ∃ block', putAt block j l = some block' := ⟨_, if_pos h⟩

theorem putAt_le (h : putAt block j l = some block') : j + l.length ≤ block.length := by
  unfold putAt at h
  split at h
  · assumption
  · cases h

theorem length_putAt (h : putAt block j l = some block') : block'.length = block.length := by
  have hle := putAt_le h
  rw [putAt, if_pos hle] at h
  rw [← Option.some.inj h, length_overlay hle le_rfl]

/-- What is written is behind what is in front of it. -/
theorem prefix_putAt (hfront : front <+: block) (h : putAt block front.length l = some block') : front ++ l <+: block' := by
  have hle := putAt_le h
  rw [putAt, if_pos hle] at h
  rw [← Option.some.inj h]
  exact append_overlay hfront List.prefix_rfl

theorem length_resize (junk : ℕ → α) : (resize block n junk).length = n := by
  simp only [resize, List.length_take, List.length_append, List.length_map, List.length_range]
  omega

theorem prefix_resize (hfront : front <+: block) (hn : block.length ≤ n) (junk : ℕ → α) : front <+: resize block n junk := by
  refine List.prefix_take_iff.mpr ⟨hfront.trans (List.prefix_append ..), hfront.length_le.trans hn⟩

end block

end NuKSM
