import Mathlib.Algebra.Order.Ring.Nat
import Mathlib.Data.List.Basic
import Mathlib.Tactic.Linarith

/-! Positions in a table that is stored row by row: the position of row `r` and column `c` is `r * cols +
c`. -/
namespace Virthub.Lib

variable {r s c d rows cols n : ℕ}

theorem rowMajor_div (hc : c < cols) : (r * cols + c) / cols = r := by
  rw [mul_comm, Nat.mul_add_div (Nat.zero_lt_of_lt hc), Nat.div_eq_of_lt hc, add_zero]

theorem rowMajor_mod (hc : c < cols) : (r * cols + c) % cols = c := by
  rw [Nat.mul_add_mod', Nat.mod_eq_of_lt hc]

theorem rowMajor_inj (hc : c < cols) (hd : d < cols) (h : r * cols + c = s * cols + d) : r = s ∧ c = d := by
  constructor
  · rw [← rowMajor_div (r := r) hc, h, rowMajor_div hd]
  · rw [← rowMajor_mod (r := r) hc, h, rowMajor_mod hd]

theorem rowMajor_lt (hr : r < rows) (hc : c < cols) : r * cols + c < rows * cols := by
  calc
    r * cols + c < r * cols + cols := Nat.add_lt_add_left hc _
    _ = (r + 1) * cols := (Nat.succ_mul r cols).symm
    _ ≤ rows * cols := Nat.mul_le_mul_right cols hr

/-- The positions of the first rows, of which the last may be cut short. -/
theorem flatMap_rows (cols n rows : ℕ) :
    ((List.range rows).flatMap fun r => (List.range (min cols (n - r * cols))).map (r * cols + ·)) =
      List.range (min (rows * cols) n) := by
  induction rows with
  | zero => simp
  | succ rows ih =>
    rw [List.range_succ, List.flatMap_append, ih, List.flatMap_singleton]
    rcases Nat.le_total n (rows * cols) with hfull | hpart
    · -- nothing is left for this row
      have hnext : n ≤ (rows + 1) * cols := hfull.trans (Nat.mul_le_mul_right cols (Nat.le_succ rows))
      rw [Nat.min_eq_right hfull, Nat.min_eq_right hnext, Nat.sub_eq_zero_of_le hfull, Nat.min_zero]
      simp
    · have hnext : min ((rows + 1) * cols) n = rows * cols + min cols (n - rows * cols) := by
        rw [Nat.succ_mul]
        omega
      rw [Nat.min_eq_left hpart, hnext, List.range_add]

/-- All positions below `n`, in rows of which the last may be cut short. -/
theorem flatMap_rows_eq_range (hcols : 0 < cols) (n : ℕ) :
    ((List.range ((n + cols - 1) / cols)).flatMap fun r =>
      (List.range (min cols (n - r * cols))).map (r * cols + ·)) = List.range n := by
  have hceil : n ≤ (n + cols - 1) / cols * cols := by
    have hdiv := Nat.div_add_mod' (n + cols - 1) cols
    have hmod := Nat.mod_lt (n + cols - 1) hcols
    omega
  rw [flatMap_rows, Nat.min_eq_right hceil]

end Virthub.Lib
