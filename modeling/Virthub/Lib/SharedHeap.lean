import Mathlib.Algebra.Order.Group.Nat
import Mathlib.Data.List.Perm.Basic
import Mathlib.Logic.Function.Basic

/-! Cells with a strong count, shared by any number of owners. The last owner to go takes the cell with it.
A write through one owner happens in place while it is the only one, and in a copy of its own otherwise. -/
namespace Virthub.Lib

structure Cell (β : Type*) where
  value : β
  strong : ℕ

structure SharedHeap (β : Type*) where
  cell : ℕ → Option (Cell β)
  next : ℕ

namespace SharedHeap

variable {β : Type*}

def empty : SharedHeap β := ⟨fun _ => none, 0⟩

def value? (h : SharedHeap β) (p : ℕ) : Option β := (h.cell p).map Cell.value

def strong (h : SharedHeap β) (p : ℕ) : ℕ := (h.cell p).elim 0 Cell.strong

def alloc (h : SharedHeap β) (b : β) : ℕ × SharedHeap β :=
  (h.next, ⟨Function.update h.cell h.next (some ⟨b, 1⟩), h.next + 1⟩)

def clone (h : SharedHeap β) (p : ℕ) : SharedHeap β :=
  { h with cell := Function.update h.cell p ((h.cell p).map fun c => { c with strong := c.strong + 1 }) }

def drop (h : SharedHeap β) (p : ℕ) : SharedHeap β :=
  { h with cell := Function.update h.cell p ((h.cell p).bind fun c =>
      if c.strong ≤ 1 then none else some { c with strong := c.strong - 1 }) }

/-- Write through a shared cell. -/
def modify (h : SharedHeap β) (p : ℕ) (f : β → β) : SharedHeap β :=
  { h with cell := Function.update h.cell p ((h.cell p).map fun c => { c with value := f c.value }) }

/-- The owner of `p` gets a cell that it owns alone, with the value of `p`. -/
def makeMut (h : SharedHeap β) (p : ℕ) : ℕ × SharedHeap β :=
  match h.cell p with
  | some c => if c.strong = 1 then (p, h) else (h.drop p).alloc c.value
  | none => (p, h)

/-- The owners are those listed, each as often as it holds the cell. -/
structure Owned (h : SharedHeap β) (owners : List ℕ) : Prop where
  strong : ∀ p, h.strong p = owners.count p
  live : ∀ p c, h.cell p = some c → 0 < c.strong
  fresh : ∀ p, h.next ≤ p → h.cell p = none

theorem owned_empty : (empty : SharedHeap β).Owned [] where
  strong _ := rfl
  live _ _ hc := by cases hc
  fresh _ _ := rfl

variable {h : SharedHeap β} {owners : List ℕ} {p : ℕ}

theorem Owned.perm {owners' : List ℕ} (ho : h.Owned owners) (hperm : owners.Perm owners') : h.Owned owners' :=
  ⟨fun p => by rw [ho.strong, hperm.count_eq], ho.live, ho.fresh⟩

theorem Owned.exists_cell (ho : h.Owned owners) (hp : p ∈ owners) :
    ∃ c, h.cell p = some c ∧ c.strong = owners.count p := by
  have hcount : 0 < owners.count p := List.count_pos_iff.mpr hp
  rw [← ho.strong, SharedHeap.strong] at hcount
  cases hc : h.cell p with
  | none =>
    rw [hc] at hcount
    exact absurd hcount (Nat.lt_irrefl 0)
  | some c =>
    have hstrong := ho.strong p
    rw [SharedHeap.strong, hc] at hstrong
    exact ⟨c, rfl, hstrong⟩

theorem Owned.lt_next (ho : h.Owned owners) (hp : p ∈ owners) : p < h.next := by
  obtain ⟨c, hc, -⟩ := ho.exists_cell hp
  by_contra hge
  rw [ho.fresh p (Nat.not_lt.mp hge)] at hc
  cases hc

theorem Owned.isSome_value? (ho : h.Owned owners) : (h.value? p).isSome ↔ p ∈ owners := by
  constructor
  · intro hv
    cases hc : h.cell p with
    | none =>
      rw [value?, hc] at hv
      cases hv
    | some c =>
      have hpos := ho.live p c hc
      have hstrong := ho.strong p
      rw [SharedHeap.strong, hc] at hstrong
      exact List.count_pos_iff.mp (hstrong ▸ hpos)
  · intro hp
    obtain ⟨c, hc, -⟩ := ho.exists_cell hp
    rw [value?, hc]
    rfl

section Update

variable {q : ℕ}

theorem value?_update_ne {f : ℕ → Option (Cell β)} {n : ℕ} {o : Option (Cell β)} (hq : q ≠ p) :
    (⟨Function.update f p o, n⟩ : SharedHeap β).value? q = (⟨f, n⟩ : SharedHeap β).value? q := by
  exact congrArg (Option.map Cell.value) (Function.update_of_ne hq o f)

/-- To give a cell a new content it is enough to settle that cell. -/
theorem Owned.update {n : ℕ} {o : Option (Cell β)} {owners' : List ℕ} (ho : h.Owned owners) (hn : h.next ≤ n)
    (hp : p < n) (hother : ∀ q, q ≠ p → owners'.count q = owners.count q)
    (hstrong : o.elim 0 Cell.strong = owners'.count p) (hlive : ∀ c, o = some c → 0 < c.strong) :
    (⟨Function.update h.cell p o, n⟩ : SharedHeap β).Owned owners' := by
  constructor
  · intro q
    by_cases hq : q = p
    · rw [hq, ← hstrong]
      exact congrArg (Option.elim · 0 Cell.strong) (Function.update_self p o h.cell)
    · rw [hother q hq, ← ho.strong]
      exact congrArg (Option.elim · 0 Cell.strong) (Function.update_of_ne hq o h.cell)
  · intro q c hc
    dsimp only at hc
    by_cases hq : q = p
    · rw [hq, Function.update_self] at hc
      exact hlive c hc
    · rw [Function.update_of_ne hq] at hc
      exact ho.live q c hc
  · intro q hq
    dsimp only at hq ⊢
    rw [Function.update_of_ne (by omega)]
    exact ho.fresh q (by omega)

end Update

theorem Owned.count_next (ho : h.Owned owners) : owners.count h.next = 0 := by
  rw [← ho.strong, SharedHeap.strong, ho.fresh h.next (Nat.le_refl _)]
  rfl

theorem count_cons_of_ne' {q : ℕ} (hq : q ≠ p) : (p :: owners).count q = owners.count q :=
  List.count_cons_of_ne (Ne.symm hq)

theorem Owned.alloc (ho : h.Owned owners) (b : β) : (h.alloc b).2.Owned (h.next :: owners) := by
  apply ho.update (Nat.le_succ _) (Nat.lt_succ_self _)
  · intro q hq
    exact count_cons_of_ne' hq
  · rw [List.count_cons_self, ho.count_next]
    rfl
  · intro c hc
    cases hc
    exact Nat.one_pos

@[simp] theorem value?_alloc_self (b : β) : (h.alloc b).2.value? h.next = some b := by
  simp [SharedHeap.alloc, value?]

theorem Owned.value?_alloc (ho : h.Owned owners) (b : β) (hp : p ∈ owners) :
    (h.alloc b).2.value? p = h.value? p :=
  value?_update_ne (Nat.ne_of_lt (ho.lt_next hp))

theorem Owned.clone (ho : h.Owned owners) (hp : p ∈ owners) : (h.clone p).Owned (p :: owners) := by
  obtain ⟨c, hc, hstrong⟩ := ho.exists_cell hp
  apply ho.update (Nat.le_refl _) (ho.lt_next hp)
  · intro q hq
    exact count_cons_of_ne' hq
  · rw [hc, List.count_cons_self, ← hstrong]
    rfl
  · intro c' hc'
    rw [hc] at hc'
    cases hc'
    exact Nat.succ_pos _

@[simp] theorem value?_clone (q : ℕ) : (h.clone p).value? q = h.value? q := by
  by_cases hq : q = p
  · rw [hq, value?, value?, SharedHeap.clone]
    simp [Function.comp_def]
  · exact value?_update_ne hq

theorem Owned.drop (ho : h.Owned (p :: owners)) : (h.drop p).Owned owners := by
  obtain ⟨c, hc, hstrong⟩ := ho.exists_cell List.mem_cons_self
  rw [List.count_cons_self] at hstrong
  apply ho.update (Nat.le_refl _) (ho.lt_next List.mem_cons_self)
  · intro q hq
    exact (count_cons_of_ne' hq).symm
  · rw [hc, Option.bind_some]
    split_ifs with hlast
    · change 0 = owners.count p
      omega
    · change c.strong - 1 = owners.count p
      omega
  · intro c' hc'
    rw [hc, Option.bind_some] at hc'
    split_ifs at hc' with hlast
    cases hc'
    exact Nat.sub_pos_of_lt (Nat.not_le.mp hlast)

theorem Owned.value?_drop {q : ℕ} (ho : h.Owned (p :: owners)) (hq : q ∈ owners) :
    (h.drop p).value? q = h.value? q := by
  by_cases hqp : q = p
  · subst hqp
    obtain ⟨c, hc, hstrong⟩ := ho.exists_cell List.mem_cons_self
    have hpos : 0 < owners.count q := List.count_pos_iff.mpr hq
    rw [List.count_cons_self] at hstrong
    have hcell : (h.drop q).cell q = some { c with strong := c.strong - 1 } := by
      dsimp only [SharedHeap.drop]
      rw [Function.update_self, hc, Option.bind_some, if_neg (by omega)]
    rw [value?, value?, hcell, hc]
    rfl
  · exact value?_update_ne hqp

theorem Owned.modify (ho : h.Owned owners) (hp : p ∈ owners) (f : β → β) : (h.modify p f).Owned owners := by
  obtain ⟨c, hc, hstrong⟩ := ho.exists_cell hp
  apply ho.update (Nat.le_refl _) (ho.lt_next hp) (fun _ _ => rfl)
  · rw [hc, ← hstrong]
    rfl
  · intro c' hc'
    rw [hc] at hc'
    cases hc'
    exact ho.live p c hc

@[simp] theorem value?_modify_self (f : β → β) : (h.modify p f).value? p = (h.value? p).map f := by
  simp [SharedHeap.modify, value?, Function.comp_def]

theorem value?_modify_of_ne {q : ℕ} (hq : q ≠ p) (f : β → β) : (h.modify p f).value? q = h.value? q :=
  value?_update_ne hq

/-- After `makeMut` the owner holds a cell that no other owner holds, with the same value, and all other
owners find what they found before. -/
theorem Owned.makeMut (ho : h.Owned (p :: owners)) :
    (h.makeMut p).2.Owned ((h.makeMut p).1 :: owners) ∧ (h.makeMut p).1 ∉ owners ∧
      (h.makeMut p).2.value? (h.makeMut p).1 = h.value? p ∧
      ∀ q ∈ owners, (h.makeMut p).2.value? q = h.value? q := by
  obtain ⟨c, hc, hstrong⟩ := ho.exists_cell List.mem_cons_self
  rw [List.count_cons_self] at hstrong
  have hvalue : h.value? p = some c.value := by rw [value?, hc]; rfl
  by_cases hone : c.strong = 1
  · have hself : h.makeMut p = (p, h) := by
      unfold SharedHeap.makeMut
      rw [hc]
      exact if_pos hone
    rw [hself]
    have hzero : owners.count p = 0 := by omega
    exact ⟨ho, List.count_eq_zero.mp hzero, rfl, fun _ _ => rfl⟩
  · have hcopy : h.makeMut p = (h.drop p).alloc c.value := by
      unfold SharedHeap.makeMut
      rw [hc]
      exact if_neg hone
    have hrest : (h.drop p).Owned owners := ho.drop
    rw [hcopy]
    refine ⟨hrest.alloc _, ?_, ?_, ?_⟩
    · intro hmem
      exact absurd (hrest.lt_next hmem) (Nat.lt_irrefl _)
    · rw [hvalue]
      exact value?_alloc_self _
    · intro q hq
      rw [hrest.value?_alloc _ hq, ho.value?_drop hq]

end SharedHeap

end Virthub.Lib
