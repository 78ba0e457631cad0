import Mathlib.Data.Set.Insert
import Mathlib.Logic.Function.Basic

/-! Reader/writer locks that are not reentrant. A thread holds some locks and may want one more; it waits for
every thread that holds the wanted lock in a mode that excludes the wanted one. -/
namespace Virthub.Lib

inductive LockMode
  | read
  | write
  deriving DecidableEq, Repr

/-- Only readers share a lock. -/
def LockMode.Excludes (m n : LockMode) : Prop := m = .write ∨ n = .write

instance (m n : LockMode) : Decidable (m.Excludes n) := inferInstanceAs (Decidable (_ ∨ _))

theorem LockMode.Excludes.symm {m n : LockMode} (h : m.Excludes n) : n.Excludes m := Or.symm h

/-- What a thread holds, and what it wants next. -/
structure LockUse (L : Type*) where
  holds : List (L × LockMode)
  wants : Option (L × LockMode)

variable {T L : Type*}

def WaitsFor (use : T → LockUse L) (t u : T) : Prop :=
  match (use t).wants with
  | none => False
  | some wanted => ∃ held ∈ (use u).holds, held.1 = wanted.1 ∧ wanted.2.Excludes held.2

instance [DecidableEq L] (use : T → LockUse L) (t u : T) : Decidable (WaitsFor use t u) := by
  unfold WaitsFor
  cases (use t).wants <;> dsimp only <;> infer_instance

/-- Threads that all wait for locks held by one another. -/
def Deadlocked (use : T → LockUse L) (D : Set T) : Prop :=
  D.Nonempty ∧ ∀ t ∈ D, ∃ u ∈ D, WaitsFor use t u

/-- No two threads hold a lock in modes that exclude each other. -/
def Exclusive (use : T → LockUse L) : Prop :=
  ∀ t u, t ≠ u → ∀ l m n, (l, m) ∈ (use t).holds → (l, n) ∈ (use u).holds → ¬ m.Excludes n

theorem waitsFor_iff {use : T → LockUse L} {t u : T} :
    WaitsFor use t u ↔ ∃ l m n, (use t).wants = some (l, m) ∧ (l, n) ∈ (use u).holds ∧ m.Excludes n := by
  unfold WaitsFor
  cases hw : (use t).wants with
  | none => simp
  | some wanted =>
    obtain ⟨l, m⟩ := wanted
    constructor
    · rintro ⟨⟨l', n⟩, hmem, rfl, hx⟩
      exact ⟨_, m, n, rfl, hmem, hx⟩
    · rintro ⟨l', m', n, heq, hmem, hx⟩
      cases heq
      exact ⟨(l, n), hmem, rfl, hx⟩

theorem deadlocked_pair {use : T → LockUse L} {t u : T} (htu : WaitsFor use t u) (hut : WaitsFor use u t) :
    Deadlocked use {t, u} := by
  refine ⟨⟨t, Set.mem_insert t {u}⟩, fun x hx => ?_⟩
  rcases hx with hx | hx
  · rw [hx]
    exact ⟨u, Set.mem_insert_of_mem t rfl, htu⟩
  · rw [Set.mem_singleton_iff.mp hx]
    exact ⟨t, Set.mem_insert t {u}, hut⟩

/-- A thread of a deadlock waits for one that holds the wanted lock and wants a further one. -/
theorem Deadlocked.exists_holder {use : T → LockUse L} {D : Set T} (h : Deadlocked use D) {t : T}
    (ht : t ∈ D) :
    ∃ u ∈ D, ∃ l m n, (use t).wants = some (l, m) ∧ (l, n) ∈ (use u).holds ∧ m.Excludes n ∧
      (use u).wants.isSome := by
  obtain ⟨u, hu, hwait⟩ := h.2 t ht
  obtain ⟨l, m, n, hw, hmem, hx⟩ := waitsFor_iff.mp hwait
  obtain ⟨v, -, hwait'⟩ := h.2 u hu
  obtain ⟨l', m', -, hw', -⟩ := waitsFor_iff.mp hwait'
  exact ⟨u, hu, l, m, n, hw, hmem, hx, by rw [hw', Option.isSome_some]⟩

variable [DecidableEq T]

/-- A thread that gives up locks, and takes the wanted one only if it waits for nobody, leaves the locks
exclusive. -/
theorem Exclusive.update {use : T → LockUse L} (h : Exclusive use) {t : T} {x : LockUse L}
    (hx : ∀ held ∈ x.holds, held ∈ (use t).holds ∨
      (use t).wants = some held ∧ ∀ u, ¬ WaitsFor use t u) :
    Exclusive (Function.update use t x) := by
  -- the thread against any other one
  have hother : ∀ u, u ≠ t → ∀ l m n, (l, m) ∈ x.holds → (l, n) ∈ (use u).holds → ¬ m.Excludes n := by
    intro u hu l m n hm hn hexcl
    rcases hx (l, m) hm with hm | ⟨hwant, hfree⟩
    · exact h t u hu.symm l m n hm hn hexcl
    · exact hfree u (waitsFor_iff.mpr ⟨l, m, n, hwant, hn, hexcl⟩)
  intro a b hab l m n ha hb hexcl
  by_cases hat : a = t
  · subst hat
    rw [Function.update_self] at ha
    rw [Function.update_of_ne hab.symm] at hb
    exact hother b hab.symm l m n ha hb hexcl
  · rw [Function.update_of_ne hat] at ha
    by_cases hbt : b = t
    · subst hbt
      rw [Function.update_self] at hb
      exact hother a hat l n m hb ha hexcl.symm
    · rw [Function.update_of_ne hbt] at hb
      exact h a b hab l m n ha hb hexcl

end Virthub.Lib
