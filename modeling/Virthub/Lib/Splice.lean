import Mathlib.Data.List.Basic

/-! Overwriting windows of a list. Windows that all carry the contents of one target list
turn any list of its length into it, as soon as they cover the places that differ. -/
namespace Virthub.Lib

variable {α : Type*}

/-- Overwrite the elements from `start` on. -/
def splice (l : List α) (start : ℕ) (new : List α) : List α :=
  l.take start ++ new ++ l.drop (start + new.length)

/-- The elements of positions `a ≤ i < b`. -/
def slice (l : List α) (a b : ℕ) : List α := (l.take b).drop a

theorem length_splice {l : List α} {start : ℕ} {new : List α}
    (h : start + new.length ≤ l.length) : (splice l start new).length = l.length := by
  simp only [splice, List.length_append, List.length_take, List.length_drop]
  omega

theorem length_slice {l : List α} {a b : ℕ} (h : b ≤ l.length) : (slice l a b).length = b - a := by
  simp only [slice, List.length_drop, List.length_take]
  omega

theorem getElem?_slice (l : List α) {a b i : ℕ} (h : a + i < b) : (slice l a b)[i]? = l[a + i]? := by
  rw [slice, List.getElem?_drop, List.getElem?_take_of_lt h]

theorem getElem?_splice {l : List α} {start : ℕ} {new : List α}
    (h : start + new.length ≤ l.length) (i : ℕ) :
    (splice l start new)[i]? =
      if start ≤ i ∧ i < start + new.length then new[i - start]? else l[i]? := by
  have ht : (l.take start).length = start := by rw [List.length_take]; omega
  rw [splice, List.append_assoc]
  by_cases h1 : i < start
  · rw [List.getElem?_append_left (by omega), List.getElem?_take_of_lt h1, if_neg (by omega)]
  rw [List.getElem?_append_right (by omega), ht]
  by_cases h2 : i < start + new.length
  · rw [List.getElem?_append_left (by omega), if_pos (by omega)]
  · rw [List.getElem?_append_right (by omega), List.getElem?_drop, if_neg (by omega)]
    congr 1
    omega

/-- Writing a window of `target` makes the list agree with it there. -/
theorem getElem?_splice_slice {l target : List α} {a b : ℕ} (hl : l.length = target.length)
    (hab : a ≤ b) (hb : b ≤ target.length) (i : ℕ) :
    (splice l a (slice target a b))[i]? = if a ≤ i ∧ i < b then target[i]? else l[i]? := by
  have hs := length_slice (a := a) hb
  rw [getElem?_splice (by omega), hs, show a + (b - a) = b by omega]
  split_ifs with hi
  · rw [getElem?_slice target (by omega), show a + (i - a) = i by omega]
  · rfl

/-- Write the windows of `target` one after the other. -/
def overwrite (target l : List α) (windows : List (ℕ × ℕ)) : List α :=
  windows.foldl (fun p w => splice p w.1 (slice target w.1 w.2)) l

theorem length_overwrite {target l : List α} {windows : List (ℕ × ℕ)}
    (hl : l.length = target.length) (hw : ∀ w ∈ windows, w.1 ≤ w.2 ∧ w.2 ≤ target.length) :
    (overwrite target l windows).length = target.length := by
  induction windows generalizing l with
  | nil => exact hl
  | cons w ws ih =>
    obtain ⟨hab, hb⟩ := hw w (List.mem_cons_self ..)
    have hs := length_slice (a := w.1) hb
    refine ih ?_ fun v hv => hw v (List.mem_cons_of_mem _ hv)
    rw [length_splice (by omega), hl]

theorem getElem?_overwrite {target l : List α} {windows : List (ℕ × ℕ)}
    (hl : l.length = target.length) (hw : ∀ w ∈ windows, w.1 ≤ w.2 ∧ w.2 ≤ target.length)
    (i : ℕ) :
    (overwrite target l windows)[i]? =
      if ∃ w ∈ windows, w.1 ≤ i ∧ i < w.2 then target[i]? else l[i]? := by
  induction windows generalizing l with
  | nil => simp [overwrite]
  | cons w ws ih =>
    obtain ⟨hab, hb⟩ := hw w (List.mem_cons_self ..)
    have hs := length_slice (a := w.1) hb
    have hl' : (splice l w.1 (slice target w.1 w.2)).length = target.length := by
      rw [length_splice (by omega), hl]
    have hih := ih hl' (fun v hv => hw v (List.mem_cons_of_mem _ hv))
    change (overwrite target (splice l w.1 (slice target w.1 w.2)) ws)[i]? = _
    rw [hih, getElem?_splice_slice hl hab hb]
    simp only [List.mem_cons, exists_eq_or_imp]
    by_cases h1 : w.1 ≤ i ∧ i < w.2 <;> by_cases h2 : ∃ v ∈ ws, v.1 ≤ i ∧ i < v.2 <;>
      simp only [h1, h2, and_self, true_or, or_true, or_self, if_true, if_false]

/-- Windows that cover every difference complete the target. -/
theorem overwrite_eq_of_cover {target l : List α} {windows : List (ℕ × ℕ)}
    (hl : l.length = target.length) (hw : ∀ w ∈ windows, w.1 ≤ w.2 ∧ w.2 ≤ target.length)
    (hc : ∀ i, l[i]? ≠ target[i]? → ∃ w ∈ windows, w.1 ≤ i ∧ i < w.2) :
    overwrite target l windows = target := by
  apply List.ext_getElem?
  intro i
  rw [getElem?_overwrite hl hw]
  split_ifs with h
  · rfl
  · by_contra hne
    exact h (hc i hne)

end Virthub.Lib
