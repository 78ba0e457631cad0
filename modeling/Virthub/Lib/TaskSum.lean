import Mathlib.Algebra.Order.BigOperators.Group.List
import Mathlib.Algebra.Order.Group.Nat
import Mathlib.Algebra.Ring.Nat

/-! What the tasks of a list hold together, when one of them moves at a time. -/
namespace Virthub.Lib

variable {α : Type*} {tasks : List α} {i : ℕ} {t : α}

/-- Replacing one task moves the sum by what the two hold. -/
theorem sum_map_set_add (f : α → ℕ) (t' : α) (ht : tasks[i]? = some t) :
    ((tasks.set i t').map f).sum + f t = (tasks.map f).sum + f t' := by
  induction tasks generalizing i with
  | nil => simp at ht
  | cons u us ih =>
    cases i with
    | zero =>
      have hu : u = t := by simpa using ht
      simp only [List.set_cons_zero, List.map_cons, List.sum_cons, hu]
      omega
    | succ i =>
      have hu := ih (by simpa using ht)
      simp only [List.set_cons_succ, List.map_cons, List.sum_cons]
      omega

/-- A task that ends takes what it holds out of the sum. -/
theorem sum_map_eraseIdx_add (f : α → ℕ) (ht : tasks[i]? = some t) :
    ((tasks.eraseIdx i).map f).sum + f t = (tasks.map f).sum := by
  obtain ⟨hi, rfl⟩ := List.getElem?_eq_some_iff.mp ht
  have hperm := (List.getElem_cons_eraseIdx_perm hi).map f
  rw [← hperm.sum_eq, List.map_cons, List.sum_cons, add_comm]

theorem filterMap_append_singleton {β : Type*} (f : α → Option β) (l : List α) (a : α) :
    (l ++ [a]).filterMap f = l.filterMap f ++ (f a).toList := by
  rw [List.filterMap_append]
  cases h : f a with
  | none => simp [h]
  | some b => simp [h]

/-- Replacing one task swaps what the two contribute to a list. -/
theorem filterMap_set_perm {β : Type*} (f : α → Option β) (t' : α) (ht : tasks[i]? = some t) :
    ((f t).toList ++ (tasks.set i t').filterMap f).Perm ((f t').toList ++ tasks.filterMap f) := by
  induction tasks generalizing i with
  | nil => simp at ht
  | cons u us ih =>
    have hcons : ∀ v vs, (v :: vs).filterMap f = (f v).toList ++ vs.filterMap f := by
      intro v vs
      cases hv : f v <;> simp [hv]
    cases i with
    | zero =>
      have hu : u = t := by simpa using ht
      rw [List.set_cons_zero, hcons, hcons, hu, ← List.append_assoc, ← List.append_assoc]
      exact List.perm_append_comm.append_right _
    | succ i =>
      rw [List.set_cons_succ, hcons, hcons]
      -- the head stands between what moves and the tail
      have hhead := List.perm_append_comm_assoc (f t).toList (f u).toList ((us.set i t').filterMap f)
      have htail := (ih (by simpa using ht)).append_left (f u).toList
      exact (hhead.trans htail).trans (List.perm_append_comm_assoc _ _ _)

theorem countP_set_add (p : α → Bool) (t' : α) (ht : tasks[i]? = some t) :
    (tasks.set i t').countP p + (p t).toNat = tasks.countP p + (p t').toNat := by
  have hcount : ∀ l : List α, l.countP p = (l.map fun u => (p u).toNat).sum := by
    intro l
    induction l with
    | nil => rfl
    | cons u us ih => cases hu : p u <;> simp [hu, ih, add_comm]
  rw [hcount, hcount]
  exact sum_map_set_add (fun u => (p u).toNat) t' ht

theorem le_sum_map (f : α → ℕ) (ht : tasks[i]? = some t) : f t ≤ (tasks.map f).sum :=
  List.single_le_sum (fun _ _ => Nat.zero_le _) _ (List.mem_map_of_mem (List.mem_of_getElem? ht))

end Virthub.Lib
