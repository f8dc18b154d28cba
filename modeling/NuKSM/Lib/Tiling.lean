import Mathlib

/-! # Cells of rows

The cells of a number of rows of equal length are numbered row by row, and from the first row again after the last. -/

namespace NuKSM.Tiling

/-- The row and the column of the cell `k`. -/
def cellAt (rows cols k : ℕ) : ℕ × ℕ := (k / cols % rows, k % cols)

theorem cellAt_eq {rows cols row col : ℕ} (pass : ℕ) (hrow : row < rows) (hcol : col < cols) :
    cellAt rows cols ((pass * rows + row) * cols + col) = (row, col) := by
  have hcols : 0 < cols := by omega
  rw [cellAt, Nat.add_comm _ col, Nat.add_mul_div_right _ _ hcols, Nat.add_mul_mod_self_right, Nat.div_eq_of_lt hcol,
    Nat.mod_eq_of_lt hcol, Nat.zero_add, Nat.mul_comm pass, Nat.mul_add_mod, Nat.mod_eq_of_lt hrow]

/-- A stretch of cells that stays in one row. -/
theorem map_cellAt_range {rows cols row col n : ℕ} (pass : ℕ) (hrow : row < rows) (hn : col + n ≤ cols) :
    (List.range n).map (fun k => cellAt rows cols ((pass * rows + row) * cols + col + k)) =
      (List.range n).map fun k => (row, col + k) :=
  List.map_congr_left fun k hk => by
    rw [Nat.add_assoc, cellAt_eq pass hrow (by have := List.mem_range.mp hk; omega)]

end NuKSM.Tiling
