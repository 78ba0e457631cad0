import Virthub.Lib.RowMajor
import Mathlib.Algebra.Order.Field.Rat
import Mathlib.Data.Set.Function
import Mathlib.Order.Interval.Set.Defs

/-! The dequantisation kernel of the BT-KV format. Each thread writes one cell of a tile, and the stride of
the transposed order is that of the wrong dimension: a square tile is copied as it is, and on a rectangular
one the cells collide or lie outside. The `int` arguments are natural numbers. -/
namespace Virthub.Kernels
open Virthub.Lib

/-- `output_idx`: the cell of the element with index `idx`. -/
def btkvOutputIdx (tileX tileY : ℕ) (isTransposed : Bool) (idx : ℕ) : ℕ :=
  if isTransposed then
    let token := idx % tileY
    let dim := idx / tileY
    dim * tileX + token
  else idx

/-- The cell that the thread with index `idx` writes, with its number before the conversion to half precision.
A thread behind the last element writes none. -/
def dequantBtkvKernel (quantizedData scalesE8m0 : ℕ → UInt8) (tileX tileY groupSize : ℕ)
    (isTransposed : Bool) (idx : ℕ) : Option (ℕ × ℚ) :=
  let totalElements := tileX * tileY
  if idx ≥ totalElements then none
  else
    let group := idx / groupSize
    let scale : ℚ := 2 ^ (scalesE8m0 group).toNat
    let x := scale * (quantizedData idx).toNat
    some (btkvOutputIdx tileX tileY isTransposed idx, x)

variable {tileX tileY : ℕ}

theorem btkvOutputIdx_row_col {r c : ℕ} (hc : c < tileY) :
    btkvOutputIdx tileX tileY true (r * tileY + c) = r * tileX + c := by
  simp only [btkvOutputIdx, if_true, rowMajor_div hc, rowMajor_mod hc]

theorem btkvOutputIdx_square (idx : ℕ) : btkvOutputIdx tileX tileX true idx = idx := by
  simp only [btkvOutputIdx, if_true]
  exact Nat.div_add_mod' idx tileX

theorem btkvOutputIdx_one_row {idx : ℕ} (h : idx < 1 * tileY) : btkvOutputIdx 1 tileY true idx = idx := by
  rw [one_mul] at h
  simp only [btkvOutputIdx, if_true, Nat.div_eq_of_lt h, Nat.mod_eq_of_lt h, zero_mul, zero_add]

def PermutesTile (tileX tileY : ℕ) : Prop :=
  Set.BijOn (btkvOutputIdx tileX tileY true) (Set.Iio (tileX * tileY)) (Set.Iio (tileX * tileY))

theorem permutesTile_of_eq_self
    (h : ∀ idx < tileX * tileY, btkvOutputIdx tileX tileY true idx = idx) : PermutesTile tileX tileY :=
  (Set.bijOn_id _).congr fun idx hidx => (h idx hidx).symm

theorem not_permutesTile_of_wide (hx : 1 < tileX) (hwide : tileX < tileY) : ¬ PermutesTile tileX tileY := by
  intro hperm
  have hsecond : tileY < tileX * tileY := by
    have hlt := rowMajor_lt hx (Nat.zero_lt_of_lt hwide)
    rwa [one_mul, add_zero] at hlt
  have hfirst : tileX < tileX * tileY := hwide.trans hsecond
  -- the second row starts in a cell of the first
  have hcell : btkvOutputIdx tileX tileY true tileX = btkvOutputIdx tileX tileY true tileY := by
    have hrow : btkvOutputIdx tileX tileY true (0 * tileY + tileX) = 0 * tileX + tileX :=
      btkvOutputIdx_row_col hwide
    have hnext : btkvOutputIdx tileX tileY true (1 * tileY + 0) = 1 * tileX + 0 :=
      btkvOutputIdx_row_col (Nat.zero_lt_of_lt hwide)
    simp only [zero_mul, zero_add] at hrow
    simp only [one_mul, add_zero] at hnext
    rw [hrow, hnext]
  exact hwide.ne (hperm.injOn hfirst hsecond hcell)

theorem not_permutesTile_of_tall (hy : 1 ≤ tileY) (htall : tileY < tileX) : ¬ PermutesTile tileX tileY := by
  intro hperm
  obtain ⟨m, rfl⟩ : ∃ m, tileX = m + 1 := ⟨tileX - 1, by omega⟩
  -- the last row starts behind the tile
  have hcell := hperm.mapsTo (rowMajor_lt (Nat.lt_succ_self m) hy)
  rw [btkvOutputIdx_row_col hy, Set.mem_Iio, add_zero, mul_comm] at hcell
  have hrow : tileY ≤ m := Nat.le_of_lt_succ htall
  exact absurd hcell (not_lt.mpr (Nat.mul_le_mul_left (m + 1) hrow))

/-- The cells of the elements are those of the tile exactly for a square tile and for one row. -/
theorem permutesTile_iff (hx : 1 ≤ tileX) (hy : 1 ≤ tileY) :
    PermutesTile tileX tileY ↔ tileX = tileY ∨ tileX = 1 := by
  constructor
  · intro hperm
    by_contra hshape
    obtain ⟨hne, hone⟩ := not_or.mp hshape
    rcases lt_or_gt_of_ne hne with hwide | htall
    · exact not_permutesTile_of_wide (by omega) hwide hperm
    · exact not_permutesTile_of_tall hy htall hperm
  · intro hshape
    apply permutesTile_of_eq_self
    rcases hshape with rfl | rfl
    · intro idx _
      exact btkvOutputIdx_square idx
    · intro idx hidx
      exact btkvOutputIdx_one_row hidx

/-- What the writes of the threads are to a transposition: every cell is written by one thread and none
outside the tile, and the element of row `r` and column `c` goes to row `c` and column `r`. -/
structure TransposesTile (tileX tileY : ℕ) (write : ℕ → Option (ℕ × ℚ)) : Prop where
  permutes : PermutesTile tileX tileY
  once : ∀ cell < tileX * tileY, ∃! idx, ∃ x, write idx = some (cell, x)
  inside : ∀ idx cell x, write idx = some (cell, x) → cell < tileX * tileY
  transposed : ∀ r < tileX, ∀ c < tileY, ∃ x, write (r * tileY + c) = some (c * tileX + r, x)

section Writes

variable {quantizedData scalesE8m0 : ℕ → UInt8} {groupSize : ℕ} {isTransposed : Bool}

theorem dequantBtkvKernel_cell {idx cell : ℕ} :
    (∃ x, dequantBtkvKernel quantizedData scalesE8m0 tileX tileY groupSize isTransposed idx =
        some (cell, x)) ↔
      idx < tileX * tileY ∧ btkvOutputIdx tileX tileY isTransposed idx = cell := by
  unfold dequantBtkvKernel
  dsimp only
  by_cases hidx : idx ≥ tileX * tileY
  · rw [if_pos hidx]
    refine iff_of_false ?_ ?_
    · intro hwrite
      obtain ⟨x, hx⟩ := hwrite
      cases hx
    · intro hcell
      exact absurd hcell.1 (not_lt.mpr hidx)
  · rw [if_neg hidx]
    constructor
    · intro hwrite
      obtain ⟨x, hx⟩ := hwrite
      exact ⟨not_le.mp hidx, congrArg Prod.fst (Option.some.inj hx)⟩
    · intro hcell
      exact ⟨_, by rw [hcell.2]⟩

theorem PermutesTile.existsUnique_write (h : PermutesTile tileX tileY) {cell : ℕ}
    (hcell : cell < tileX * tileY) :
    ∃! idx, ∃ x, dequantBtkvKernel quantizedData scalesE8m0 tileX tileY groupSize true idx =
      some (cell, x) := by
  obtain ⟨idx, hidx, hwrite⟩ := h.surjOn hcell
  refine ⟨idx, dequantBtkvKernel_cell.mpr ⟨hidx, hwrite⟩, ?_⟩
  intro other hother
  obtain ⟨hlt, hsame⟩ := dequantBtkvKernel_cell.mp hother
  exact h.injOn hlt hidx (hsame.trans hwrite.symm)

/-- The kernel transposes a tile exactly if the tile has one row. -/
theorem dequantBtkvKernel_transposes_iff (quantizedData scalesE8m0 : ℕ → UInt8) (groupSize : ℕ)
    {tileX tileY : ℕ} (hx : 1 ≤ tileX) (hy : 1 ≤ tileY) :
    TransposesTile tileX tileY (dequantBtkvKernel quantizedData scalesE8m0 tileX tileY groupSize true) ↔
      tileX = 1 := by
  constructor
  · intro h
    by_contra hone
    -- the first element of the second row
    obtain ⟨-, hcell⟩ := dequantBtkvKernel_cell.mp (h.transposed 1 (by omega) 0 hy)
    rw [btkvOutputIdx_row_col hy] at hcell
    omega
  · rintro rfl
    have hperm : PermutesTile 1 tileY := (permutesTile_iff hx hy).mpr (Or.inr rfl)
    refine ⟨hperm, fun cell hcell => hperm.existsUnique_write hcell, ?_, ?_⟩
    · intro idx cell x hwrite
      obtain ⟨hidx, rfl⟩ := dequantBtkvKernel_cell.mp ⟨x, hwrite⟩
      exact hperm.mapsTo hidx
    · intro r hr c hc
      obtain rfl : r = 0 := by omega
      apply dequantBtkvKernel_cell.mpr
      rw [btkvOutputIdx_row_col hc]
      omega

theorem dequantBtkvKernel_transposes_one_row :
    (1 ≤ 1 ∧ 1 ≤ 3) ∧ TransposesTile 1 3 (dequantBtkvKernel (fun _ => 7) (fun _ => 0) 1 3 32 true) :=
  ⟨by decide, (dequantBtkvKernel_transposes_iff (fun _ => 7) (fun _ => 0) 32 (by decide) (by decide)).mpr rfl⟩

/-- In a K tile of 16 by 64 the elements with indices 16 and 64 share a cell. -/
theorem dequantBtkvKernel_collides_on_k_tile :
    ¬ ∀ (quantizedData scalesE8m0 : ℕ → UInt8) (groupSize tileX tileY : ℕ), 1 ≤ tileX → 1 ≤ tileY →
      TransposesTile tileX tileY
        (dequantBtkvKernel quantizedData scalesE8m0 tileX tileY groupSize true) := by
  intro h
  have htile := h (fun _ => 0) (fun _ => 0) 32 16 64 (by decide) (by decide)
  have hshared : btkvOutputIdx 16 64 true 16 = btkvOutputIdx 16 64 true 64 := by decide
  exact absurd (htile.permutes.injOn (by simp) (by simp) hshared) (by decide)

end Writes

end Virthub.Kernels
