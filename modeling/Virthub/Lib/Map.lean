import Mathlib.Data.List.AList
import Mathlib.Data.List.Sort

/-! Finite maps: what an update leaves, and iteration over a map without an order. The order of an iteration
is given by a rank of the keys: every rank gives an order, and every order comes from some rank. -/
namespace Virthub.Lib

variable {α β : Type*}

theorem lookup_insert_eq_some_iff [DecidableEq α] {m : AList fun _ : α => β} {a k : α} {b v : β} :
    (m.insert k v).lookup a = some b ↔ a = k ∧ v = b ∨ a ≠ k ∧ m.lookup a = some b := by
  by_cases h : a = k
  · rw [h, AList.lookup_insert]
    simp
  · rw [AList.lookup_insert_ne h]
    simp [h]

theorem lookup_erase_eq_some_iff [DecidableEq α] {m : AList fun _ : α => β} {a k : α} {b : β} :
    (m.erase k).lookup a = some b ↔ a ≠ k ∧ m.lookup a = some b := by
  by_cases h : a = k
  · rw [h, AList.lookup_erase]
    simp
  · rw [AList.lookup_erase_ne h]
    simp [h]

theorem mem_of_lookup [DecidableEq α] {m : AList fun _ : α => β} {a : α} {b : β}
    (h : m.lookup a = some b) : a ∈ m :=
  AList.lookup_isSome.mp (Option.isSome_of_eq_some h)

/-- The entries of a map in the order of the ranks of their keys. -/
def visit (rank : α → ℕ) (m : AList fun _ : α => β) : List (Σ _ : α, β) :=
  m.entries.insertionSort fun a b => rank a.1 ≤ rank b.1

theorem visit_perm (rank : α → ℕ) (m : AList fun _ : α => β) : (visit rank m).Perm m.entries :=
  List.perm_insertionSort _ _

theorem nodup_keys_visit (rank : α → ℕ) (m : AList fun _ : α => β) :
    ((visit rank m).map Sigma.fst).Nodup :=
  ((visit_perm rank m).map Sigma.fst).nodup_iff.mpr m.nodupKeys

theorem mem_visit [DecidableEq α] {rank : α → ℕ} {m : AList fun _ : α => β} {a : α} {b : β} :
    ⟨a, b⟩ ∈ visit rank m ↔ m.lookup a = some b := by
  rw [(visit_perm rank m).mem_iff]
  exact AList.mem_lookup_iff.symm

section Size

variable [DecidableEq α] {m : AList fun _ : α => β} {a : α}

theorem length_keys_insert_of_mem (h : a ∈ m) (b : β) :
    (m.insert a b).keys.length = m.keys.length := by
  have hpos := List.length_pos_of_mem (AList.mem_keys.mpr h)
  rw [AList.keys_insert, List.length_cons, List.length_erase_of_mem (AList.mem_keys.mpr h)]
  omega

theorem length_keys_insert_of_notMem (h : a ∉ m) (b : β) :
    (m.insert a b).keys.length = m.keys.length + 1 := by
  rw [AList.keys_insert, List.length_cons, List.erase_of_not_mem (mt AList.mem_keys.mp h)]

theorem length_keys_erase_of_mem (h : a ∈ m) : (m.erase a).keys.length + 1 = m.keys.length := by
  have hpos := List.length_pos_of_mem (AList.mem_keys.mpr h)
  rw [AList.keys_erase, List.length_erase_of_mem (AList.mem_keys.mpr h)]
  omega

/-- Erase the keys of a list one after the other. -/
def eraseAll (keys : List α) (m : AList fun _ : α => β) : AList fun _ : α => β :=
  keys.foldl (fun m a => m.erase a) m

theorem lookup_eraseAll (keys : List α) (m : AList fun _ : α => β) (k : α) :
    (eraseAll keys m).lookup k = if k ∈ keys then none else m.lookup k := by
  induction keys generalizing m with
  | nil => simp [eraseAll]
  | cons a keys ih =>
    have hrest := ih (m.erase a)
    change (eraseAll keys (m.erase a)).lookup k = _
    rw [hrest]
    by_cases hk : k = a
    · subst hk
      simp
    · simp [hk, AList.lookup_erase_ne hk]

theorem length_keys_eraseAll {keys : List α} (hn : keys.Nodup) (h : ∀ k ∈ keys, k ∈ m) :
    (eraseAll keys m).keys.length + keys.length = m.keys.length := by
  induction keys generalizing m with
  | nil => rfl
  | cons a keys ih =>
    obtain ⟨ha, hn⟩ := List.nodup_cons.mp hn
    have hrest := ih (m := m.erase a) hn fun k hk =>
      AList.mem_erase.mpr ⟨fun he => ha (he ▸ hk), h k (List.mem_cons_of_mem _ hk)⟩
    have herase := length_keys_erase_of_mem (h a (List.mem_cons_self ..))
    change (eraseAll keys (m.erase a)).keys.length + (keys.length + 1) = _
    omega

end Size

end Virthub.Lib
