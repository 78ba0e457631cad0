import Mathlib.Data.List.Nodup
import Mathlib.Data.List.ProdSigma
import Mathlib.Logic.Function.Basic

/-! Threads that each store one value. With a cell for every thread the order in which they run does not
matter. -/
namespace Virthub.Lib

variable {ι β : Type*} [DecidableEq ι]

/-- The buffer after the stores, in the order given. -/
def scatter (buffer : ι → β) (stores : List (ι × β)) : ι → β :=
  stores.foldl (fun buffer store => Function.update buffer store.1 store.2) buffer

theorem scatter_of_notMem {buffer : ι → β} {stores : List (ι × β)} {c : ι} (h : c ∉ stores.map Prod.fst) :
    scatter buffer stores c = buffer c := by
  induction stores generalizing buffer with
  | nil => rfl
  | cons store stores ih =>
    rw [List.map_cons, List.mem_cons, not_or] at h
    obtain ⟨hne, hrest⟩ := h
    exact (ih hrest).trans (Function.update_of_ne hne _ _)

theorem scatter_of_mem {buffer : ι → β} {stores : List (ι × β)} (hnodup : (stores.map Prod.fst).Nodup)
    {c : ι} {b : β} (h : (c, b) ∈ stores) : scatter buffer stores c = b := by
  induction stores generalizing buffer with
  | nil => cases h
  | cons store stores ih =>
    rw [List.map_cons, List.nodup_cons] at hnodup
    rcases List.mem_cons.mp h with rfl | hmem
    · exact (scatter_of_notMem hnodup.1).trans (Function.update_self _ _ _)
    · exact ih hnodup.2 hmem

/-- The indices of the threads of a grid. -/
def gridThreads (blocks threads : ℕ) : List ℕ :=
  (List.range blocks).flatMap fun b => (List.range threads).map (b * threads + ·)

theorem gridThreads_eq_range (blocks threads : ℕ) :
    gridThreads blocks threads = List.range (blocks * threads) := by
  induction blocks with
  | zero => simp [gridThreads]
  | succ blocks ih =>
    rw [gridThreads] at ih ⊢
    rw [List.range_succ, List.flatMap_append, ih, List.flatMap_singleton, Nat.succ_mul, List.range_add]

end Virthub.Lib
