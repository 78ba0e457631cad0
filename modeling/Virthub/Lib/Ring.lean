import Mathlib.Data.List.Basic
import Mathlib.Data.Nat.ModEq

/-! A ring of `N` cells under a counter that only grows: position `i` stands for the cell `i % N`,
and a window of at most `N` positions sees each cell once. -/
namespace Virthub.Lib.Ring

variable {α : Type*} {N : ℕ}

theorem mod_ne {i j : ℕ} (hij : i < j) (hj : j < i + N) : i % N ≠ j % N := by
  intro h
  have hdvd : N ∣ j - i := (Nat.modEq_iff_dvd' hij.le).mp h
  have hle := Nat.le_of_dvd (by omega) hdvd
  omega

/-- The cells at the positions from `start` on hold the list. -/
structure Holds (N : ℕ) (cells : ℕ → α) (start : ℕ) (xs : List α) : Prop where
  fits : xs.length ≤ N
  cell : ∀ i x, xs[i]? = some x → cells ((start + i) % N) = x

theorem holds_nil (cells : ℕ → α) (start : ℕ) : Holds N cells start [] where
  fits := Nat.zero_le N
  cell i x h := by simp at h

variable {cells : ℕ → α} {start : ℕ} {x : α} {xs : List α}

theorem Holds.head (h : Holds N cells start (x :: xs)) : cells (start % N) = x := h.cell 0 x rfl

/-- The cell before a window may be used for anything. -/
theorem Holds.tail (h : Holds N cells start (x :: xs)) (y : α) :
    Holds N (Function.update cells (start % N) y) (start + 1) xs where
  fits := Nat.le_of_succ_le h.fits
  cell i z hz := by
    have hlen : i + 1 < N := by
      have hi : i < xs.length := (List.getElem?_eq_some_iff.mp hz).1
      have hfits := h.fits
      rw [List.length_cons] at hfits
      omega
    have hne : (start + 1 + i) % N ≠ start % N := (mod_ne (by omega) (by omega)).symm
    have hcell := h.cell (i + 1) z (by simpa using hz)
    rw [Function.update_of_ne hne, ← hcell]
    congr 2
    omega

/-- A window that leaves a cell free grows by what is put there. -/
theorem Holds.push (h : Holds N cells start xs) (hroom : xs.length < N) (y : α) :
    Holds N (Function.update cells ((start + xs.length) % N) y) start (xs ++ [y]) where
  fits := by
    rw [List.length_append, List.length_singleton]
    exact hroom
  cell i z hz := by
    by_cases hi : i < xs.length
    · have hne : (start + i) % N ≠ (start + xs.length) % N := mod_ne (by omega) (by omega)
      rw [List.getElem?_append_left hi] at hz
      rw [Function.update_of_ne hne]
      exact h.cell i z hz
    · have hlen : i < (xs ++ [y]).length := (List.getElem?_eq_some_iff.mp hz).1
      obtain rfl : i = xs.length := by
        simp at hlen
        omega
      have hy : y = z := by simpa using hz
      rw [Function.update_self, hy]

end Virthub.Lib.Ring
