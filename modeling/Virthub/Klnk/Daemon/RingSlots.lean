import Virthub.Klnk.Daemon.InvalidationRing
import Virthub.Lib.Ring

/-! The slots of the invalidation ring while writers store and the poller clears. Positions count
the claims from zero without end, so that the one window between the head and the claims sees each
slot once. -/
namespace Virthub.Klnk.Daemon
open Virthub.Lib.Ring

structure PendingStore where
  message : Invalidation
  idx : UInt64
  field : Field
  deriving DecidableEq, Repr

def Writer.storing : Writer → Option PendingStore
  | .store m idx field => some ⟨m, idx, field⟩
  | _ => none

/-- The 64-bit index of a position. -/
def At (idx : UInt64) (i : ℕ) : Prop := idx.toNat = i % 2 ^ 64

theorem At.slot {idx : UInt64} {i : ℕ} (h : At idx i) : slotOf idx = i % numEntries := by
  rw [slotOf_eq, h]
  exact Nat.mod_mod_of_dvd i (by decide)

theorem At.ne {idx idx' : UInt64} {i j : ℕ} (h : At idx i) (h' : At idx' j) (hij : i < j)
    (hj : j < i + numEntries) : idx ≠ idx' := by
  intro heq
  have hmod : i % 2 ^ 64 = j % 2 ^ 64 := by
    rw [← h, ← h', heq]
  have hbig : numEntries < 2 ^ 64 := by decide
  exact mod_ne hij (by omega) hmod

def Field.index : Field → ℕ
  | .valid => 0
  | .vaddr => 1
  | .version => 2
  | .pageSize => 3

/-- The message is stored in the entry up to the given field. -/
structure StoredUpTo (entry : Field → UInt64) (m : Invalidation) (field : Field) : Prop where
  unset : field = .valid → entry .valid = 0
  stored : ∀ f, f.index < field.index → entry f = m.entry f

theorem storedUpTo_valid {entry : Field → UInt64} (h : entry .valid = 0) (m : Invalidation) :
    StoredUpTo entry m .valid where
  unset _ := h
  stored f hf := by simp [Field.index] at hf

theorem StoredUpTo.next {entry : Field → UInt64} {m : Invalidation} {field next : Field}
    (h : StoredUpTo entry m field) (hn : field.next = some next) :
    StoredUpTo (Function.update entry field (m.entry field)) m next where
  unset hv := by
    rw [hv] at hn
    cases field <;> cases hn
  stored f hf := by
    by_cases hff : f = field
    · rw [hff, Function.update_self]
    · rw [Function.update_of_ne hff]
      apply h.stored
      cases field <;> cases hn <;> cases f <;> simp_all [Field.index]

theorem StoredUpTo.last {entry : Field → UInt64} {m : Invalidation} {field : Field}
    (h : StoredUpTo entry m field) (hn : field.next = none) :
    Function.update entry field (m.entry field) = m.entry := by
  funext f
  by_cases hff : f = field
  · rw [hff, Function.update_self]
  · rw [Function.update_of_ne hff]
    apply h.stored
    cases field <;> cases hn
    cases f <;> simp_all [Field.index]

section Slots
variable {k : ℕ} {entries : ℕ → Field → UInt64} {stores : Fin k → Option PendingStore}
  {cs : List Invalidation} {head d : ℕ} {uncleared verified : Prop}

/-- The entry at position `i` holds the message, and no one is going to change it. -/
structure Full (entries : ℕ → Field → UInt64) (stores : Fin k → Option PendingStore) (i : ℕ)
    (m : Invalidation) : Prop where
  entry : entries (i % numEntries) = m.entry
  quiet : ∀ w x, stores w = some x → ¬ At x.idx i

/-- A writer is storing the message at position `i`. -/
def Partly (entries : ℕ → Field → UInt64) (stores : Fin k → Option PendingStore) (i : ℕ)
    (m : Invalidation) : Prop :=
  ∃ w x, stores w = some x ∧ x.message = m ∧ At x.idx i ∧
    StoredUpTo (entries (i % numEntries)) m x.field

/-- The slots when the messages `cs` have been claimed and the first `d` of them delivered, and the
head stands at position `head`. The last delivered entry may be `uncleared`, and the next one may be
`verified`: the poller has seen that it is valid. -/
structure Slots (entries : ℕ → Field → UInt64) (stores : Fin k → Option PendingStore)
    (cs : List Invalidation) (head d : ℕ) (uncleared verified : Prop) : Prop where
  head_le : head ≤ d
  le_length : d ≤ cs.length
  window : cs.length ≤ head + numEntries
  free : ∀ i, cs.length ≤ i → i < head + numEntries → entries (i % numEntries) .valid = 0
  cleared : ∀ i, head ≤ i → i < d →
    entries (i % numEntries) .valid = 0 ∨ uncleared ∧ i + 1 = d
  claimed : ∀ i m, d ≤ i → cs[i]? = some m → Full entries stores i m ∨ Partly entries stores i m
  owner : ∀ w x, stores w = some x → ∃ i, d ≤ i ∧ cs[i]? = some x.message ∧ At x.idx i
  unique : ∀ w w' x x', stores w = some x → stores w' = some x' → x.idx = x'.idx → w = w'
  full : verified → ∃ m, cs[d]? = some m ∧ Full entries stores d m

theorem lt_length_of_getElem? {i : ℕ} {m : Invalidation} (h : cs[i]? = some m) : i < cs.length :=
  (List.getElem?_eq_some_iff.mp h).1

theorem Slots.at_unique (h : Slots entries stores cs head d uncleared verified) {idx : UInt64}
    {i j : ℕ} (hi : At idx i) (hj : At idx j) (hdi : d ≤ i) (hdj : d ≤ j) (hil : i < cs.length)
    (hjl : j < cs.length) : i = j := by
  have hle := h.head_le
  have hwin := h.window
  rcases Nat.lt_trichotomy i j with hlt | heq | hgt
  · exact absurd rfl (hi.ne hj hlt (by omega))
  · exact heq
  · exact absurd rfl (hj.ne hi hgt (by omega))

/-- What is full stays so while the entry is left alone and no new store is on its way to it. -/
theorem Full.frame {entries' : ℕ → Field → UInt64} {stores' : Fin k → Option PendingStore} {i : ℕ}
    {m : Invalidation} (h : Full entries stores i m)
    (he : entries' (i % numEntries) = entries (i % numEntries))
    (hs : ∀ w x, stores' w = some x → At x.idx i → ∃ w' x', stores w' = some x' ∧ At x'.idx i) :
    Full entries' stores' i m := by
  refine ⟨he.trans h.entry, fun w x hx hat => ?_⟩
  obtain ⟨w', x', hx', hat'⟩ := hs w x hx hat
  exact h.quiet w' x' hx' hat'

theorem Partly.frame {entries' : ℕ → Field → UInt64} {stores' : Fin k → Option PendingStore}
    {i : ℕ} {m : Invalidation} (h : Partly entries stores i m)
    (he : entries' (i % numEntries) = entries (i % numEntries))
    (hs : ∀ w x, stores w = some x → At x.idx i → stores' w = some x) :
    Partly entries' stores' i m := by
  obtain ⟨w, x, hx, hmsg, hat, hstored⟩ := h
  exact ⟨w, x, hs w x hx hat, hmsg, hat, he ▸ hstored⟩

theorem update_eq_some_iff {w w' : Fin k} {o : Option PendingStore} {x : PendingStore} :
    Function.update stores w o w' = some x ↔ w' = w ∧ o = some x ∨ w' ≠ w ∧ stores w' = some x := by
  by_cases hw : w' = w
  · rw [hw, Function.update_self]
    simp
  · rw [Function.update_of_ne hw]
    simp [hw]

theorem entries_update_ne {i j : ℕ} (entry : Field → UInt64)
    (hij : i < j ∧ j < i + numEntries ∨ j < i ∧ i < j + numEntries) :
    Function.update entries (i % numEntries) entry (j % numEntries) = entries (j % numEntries) := by
  apply Function.update_of_ne
  rcases hij with ⟨hlt, hlt'⟩ | ⟨hlt, hlt'⟩
  · exact (mod_ne hlt hlt').symm
  · exact mod_ne hlt hlt'

theorem Slots.idx_ne (h : Slots entries stores cs head d uncleared verified) {idx : UInt64}
    (hidx : At idx cs.length) (hroom : cs.length < head + numEntries) {w : Fin k}
    {x : PendingStore} (hx : stores w = some x) : x.idx ≠ idx := by
  have hle := h.head_le
  obtain ⟨i, hdi, hm, hat⟩ := h.owner w x hx
  exact hat.ne hidx (lt_length_of_getElem? hm) (by omega)

/-- A free slot is claimed by a writer that stores nothing yet. -/
theorem Slots.claim (h : Slots entries stores cs head d uncleared verified)
    (hroom : cs.length < head + numEntries) {w : Fin k} (hw : stores w = none) {idx : UInt64}
    (hidx : At idx cs.length) (m : Invalidation) :
    Slots entries (Function.update stores w (some ⟨m, idx, .valid⟩)) (cs ++ [m]) head d uncleared
      verified := by
  have hle := h.head_le
  have hlen := h.le_length
  have hnew : (cs ++ [m])[cs.length]? = some m := by simp
  have hold : ∀ (i : ℕ) m', cs[i]? = some m' → (cs ++ [m])[i]? = some m' := by
    intro i m' hm
    rw [List.getElem?_append_left (lt_length_of_getElem? hm)]
    exact hm
  have hother : ∀ w' x, stores w' = some x →
      Function.update stores w (some ⟨m, idx, .valid⟩) w' = some x := by
    intro w' x hx
    have hne : w' ≠ w := by
      intro heq
      rw [heq, hw] at hx
      cases hx
    exact update_eq_some_iff.mpr (Or.inr ⟨hne, hx⟩)
  have hfull : ∀ (i : ℕ) m', d ≤ i → i < cs.length → Full entries stores i m' →
      Full entries (Function.update stores w (some ⟨m, idx, .valid⟩)) i m' := by
    intro i m' hdi hil hf
    refine hf.frame rfl fun w' x hx hat => ?_
    rcases update_eq_some_iff.mp hx with ⟨-, hx⟩ | ⟨-, hx⟩
    · cases hx
      exact absurd rfl (hat.ne hidx hil (by omega))
    · exact ⟨w', x, hx, hat⟩
  refine ⟨hle, ?_, ?_, ?_, h.cleared, ?_, ?_, ?_, ?_⟩
  · rw [List.length_append]
    omega
  · rw [List.length_append, List.length_singleton]
    exact hroom
  · intro i hi hi'
    rw [List.length_append] at hi
    exact h.free i (by omega) hi'
  · intro i m' hdi hm
    by_cases hil : i < cs.length
    · rw [List.getElem?_append_left hil] at hm
      rcases h.claimed i m' hdi hm with hf | hp
      · exact Or.inl (hfull i m' hdi hil hf)
      · exact Or.inr (hp.frame rfl fun w' x hx _ => hother w' x hx)
    · -- the position that was just claimed
      have hlt := lt_length_of_getElem? hm
      obtain rfl : i = cs.length := by
        rw [List.length_append, List.length_singleton] at hlt
        omega
      obtain rfl : m = m' := Option.some.inj (hnew.symm.trans hm)
      exact Or.inr ⟨w, ⟨m, idx, .valid⟩, Function.update_self .., rfl, hidx,
        storedUpTo_valid (h.free _ (le_refl _) hroom) m⟩
  · intro w' x hx
    rcases update_eq_some_iff.mp hx with ⟨-, hx⟩ | ⟨-, hx⟩
    · cases hx
      exact ⟨cs.length, hlen, hnew, hidx⟩
    · obtain ⟨i, hdi, hm, hat⟩ := h.owner w' x hx
      exact ⟨i, hdi, hold i _ hm, hat⟩
  · intro w₁ w₂ x₁ x₂ h₁ h₂ heq
    rcases update_eq_some_iff.mp h₁ with ⟨hw₁, h₁⟩ | ⟨-, h₁⟩
    · rcases update_eq_some_iff.mp h₂ with ⟨hw₂, -⟩ | ⟨-, h₂⟩
      · exact hw₁.trans hw₂.symm
      · cases h₁
        exact absurd heq.symm (h.idx_ne hidx hroom h₂)
    · rcases update_eq_some_iff.mp h₂ with ⟨-, h₂⟩ | ⟨-, h₂⟩
      · cases h₂
        exact absurd heq (h.idx_ne hidx hroom h₁)
      · exact h.unique w₁ w₂ x₁ x₂ h₁ h₂ heq
  · intro hv
    obtain ⟨m', hm, hf⟩ := h.full hv
    exact ⟨m', hold d m' hm, hfull d m' (le_refl d) (lt_length_of_getElem? hm) hf⟩

/-- The entry after a writer's store, and what the writer stores next. -/
def storedEntry (entries : ℕ → Field → UInt64) (x : PendingStore) : ℕ → Field → UInt64 :=
  Function.update entries (slotOf x.idx)
    (Function.update (entries (slotOf x.idx)) x.field (x.message.entry x.field))

def PendingStore.next (x : PendingStore) : Option PendingStore :=
  x.field.next.map fun next => { x with field := next }

theorem PendingStore.next_eq_some {x y : PendingStore} (h : x.next = some y) :
    y.message = x.message ∧ y.idx = x.idx ∧ x.field.next = some y.field := by
  obtain ⟨next, hnext, rfl⟩ := Option.map_eq_some_iff.mp h
  exact ⟨rfl, rfl, hnext⟩

theorem Slots.storedUpTo (h : Slots entries stores cs head d uncleared verified) {w : Fin k}
    {x : PendingStore} (hw : stores w = some x) {i : ℕ} (hdi : d ≤ i)
    (hmi : cs[i]? = some x.message) (hat : At x.idx i) :
    StoredUpTo (entries (i % numEntries)) x.message x.field := by
  rcases h.claimed i x.message hdi hmi with hf | ⟨w', y, hy, -, haty, hstored⟩
  · exact absurd hat (hf.quiet w x hw)
  · have hidx : y.idx = x.idx := by
      rw [← UInt64.toNat_inj]
      exact haty.trans hat.symm
    obtain rfl : w' = w := h.unique w' w y x hy hw hidx
    obtain rfl : y = x := Option.some.inj (hy.symm.trans hw)
    exact hstored

theorem Slots.store_own (h : Slots entries stores cs head d uncleared verified) {w : Fin k}
    {x : PendingStore} (hw : stores w = some x) {i : ℕ} (hdi : d ≤ i)
    (hmi : cs[i]? = some x.message) (hat : At x.idx i) :
    Full (storedEntry entries x) (Function.update stores w x.next) i x.message ∨
      Partly (storedEntry entries x) (Function.update stores w x.next) i x.message := by
  have hstored := h.storedUpTo hw hdi hmi hat
  have hentry : storedEntry entries x (i % numEntries) =
      Function.update (entries (i % numEntries)) x.field (x.message.entry x.field) := by
    rw [storedEntry, hat.slot, Function.update_self]
  cases hnext : x.field.next with
  | some next =>
    refine Or.inr ⟨w, { x with field := next }, ?_, rfl, hat, ?_⟩
    · rw [Function.update_self, PendingStore.next, hnext]
      rfl
    · rw [hentry]
      exact hstored.next hnext
  | none =>
    refine Or.inl ⟨hentry.trans (hstored.last hnext), fun w' y hy haty => ?_⟩
    rcases update_eq_some_iff.mp hy with ⟨-, hy⟩ | ⟨hne, hy⟩
    · rw [PendingStore.next, hnext] at hy
      cases hy
    · have hidx : y.idx = x.idx := by
        rw [← UInt64.toNat_inj]
        exact haty.trans hat.symm
      exact hne (h.unique w' w y x hy hw hidx)

theorem Slots.store (h : Slots entries stores cs head d uncleared verified) {w : Fin k}
    {x : PendingStore} (hw : stores w = some x) :
    Slots (storedEntry entries x) (Function.update stores w x.next) cs head d uncleared
      verified := by
  obtain ⟨i, hdi, hmi, hat⟩ := h.owner w x hw
  have hle := h.head_le
  have hwin := h.window
  have hil := lt_length_of_getElem? hmi
  have hentry : ∀ j, i < j ∧ j < i + numEntries ∨ j < i ∧ i < j + numEntries →
      storedEntry entries x (j % numEntries) = entries (j % numEntries) := by
    intro j hij
    rw [storedEntry, hat.slot, entries_update_ne _ hij]
  have hfull : ∀ (j : ℕ) m', head ≤ j → j < cs.length → j ≠ i → Full entries stores j m' →
      Full (storedEntry entries x) (Function.update stores w x.next) j m' := by
    intro j m' hhj hjl hne hf
    refine hf.frame (hentry j (by omega)) fun w' y hy haty => ?_
    rcases update_eq_some_iff.mp hy with ⟨-, hy⟩ | ⟨-, hy⟩
    · exact ⟨w, x, hw, (PendingStore.next_eq_some hy).2.1 ▸ haty⟩
    · exact ⟨w', y, hy, haty⟩
  refine ⟨hle, h.le_length, hwin, ?_, ?_, ?_, ?_, ?_, ?_⟩
  · intro j hj hj'
    rw [hentry j (by omega)]
    exact h.free j hj hj'
  · intro j hj hj'
    rw [hentry j (by omega)]
    exact h.cleared j hj hj'
  · intro j m' hdj hm
    have hjl := lt_length_of_getElem? hm
    by_cases hne : j = i
    · rw [hne] at hm ⊢
      obtain rfl : x.message = m' := Option.some.inj (hmi.symm.trans hm)
      exact h.store_own hw hdi hmi hat
    · rcases h.claimed j m' hdj hm with hf | hp
      · exact Or.inl (hfull j m' (by omega) hjl hne hf)
      · refine Or.inr (hp.frame (hentry j (by omega)) fun w' y hy haty => ?_)
        have hne' : w' ≠ w := by
          intro heq
          rw [heq, hw] at hy
          obtain rfl : x = y := Option.some.inj hy
          exact hne (h.at_unique haty hat hdj hdi hjl hil)
        exact update_eq_some_iff.mpr (Or.inr ⟨hne', hy⟩)
  · intro w' y hy
    rcases update_eq_some_iff.mp hy with ⟨-, hy⟩ | ⟨-, hy⟩
    · obtain ⟨hmsg, hidx, -⟩ := PendingStore.next_eq_some hy
      exact ⟨i, hdi, hmsg ▸ hmi, hidx ▸ hat⟩
    · exact h.owner w' y hy
  · intro w₁ w₂ y₁ y₂ h₁ h₂ heq
    rcases update_eq_some_iff.mp h₁ with ⟨hw₁, h₁⟩ | ⟨-, h₁⟩
    · rcases update_eq_some_iff.mp h₂ with ⟨hw₂, -⟩ | ⟨-, h₂⟩
      · exact hw₁.trans hw₂.symm
      · have hidx := (PendingStore.next_eq_some h₁).2.1
        exact hw₁.trans (h.unique w w₂ x y₂ hw h₂ (hidx ▸ heq))
    · rcases update_eq_some_iff.mp h₂ with ⟨hw₂, h₂⟩ | ⟨-, h₂⟩
      · have hidx := (PendingStore.next_eq_some h₂).2.1
        exact (h.unique w₁ w y₁ x h₁ hw (hidx ▸ heq)).trans hw₂.symm
      · exact h.unique w₁ w₂ y₁ y₂ h₁ h₂ heq
  · intro hv
    obtain ⟨m', hm, hf⟩ := h.full hv
    have hne : d ≠ i := by
      intro heq
      exact hf.quiet w x hw (heq ▸ hat)
    exact ⟨m', hm, hfull d m' hle (lt_length_of_getElem? hm) hne hf⟩

/-- The poller finds the next entry valid while no writer is in the middle of it. -/
theorem Slots.verify (h : Slots entries stores cs head d uncleared verified) (hd : d < cs.length)
    (hvalid : entries (d % numEntries) .valid ≠ 0)
    (hmid : ∀ w x, stores w = some x → At x.idx d → x.field = .valid) :
    Slots entries stores cs head d uncleared True := by
  refine { h with full := fun _ => ?_ }
  have hm := List.getElem?_eq_getElem hd
  rcases h.claimed d _ (le_refl d) hm with hf | ⟨w, x, hx, -, hat, hstored⟩
  · exact ⟨_, hm, hf⟩
  · exact absurd (hstored.unset (hmid w x hx hat)) hvalid

theorem Slots.imp (h : Slots entries stores cs head d uncleared verified) {u v : Prop}
    (hu : uncleared → u) (hv : v → verified) : Slots entries stores cs head d u v where
  __ := h
  cleared i hi hi' := (h.cleared i hi hi').imp_right (And.imp_left hu)
  full hv' := h.full (hv hv')

theorem Slots.deliver (h : Slots entries stores cs head d False True) :
    Slots entries stores cs head (d + 1) True False := by
  obtain ⟨m, hm, hf⟩ := h.full trivial
  refine ⟨Nat.le_succ_of_le h.head_le, lt_length_of_getElem? hm, h.window, h.free, ?_, ?_, ?_,
    h.unique, False.elim⟩
  · intro i hi hi'
    by_cases hid : i = d
    · exact Or.inr ⟨trivial, congrArg (· + 1) hid⟩
    · rcases h.cleared i hi (by omega) with hzero | ⟨hfalse, -⟩
      · exact Or.inl hzero
      · exact hfalse.elim
  · intro i m' hi hm'
    exact h.claimed i m' (by omega) hm'
  · intro w x hx
    obtain ⟨i, hi, hmi, hat⟩ := h.owner w x hx
    have hne : i ≠ d := by
      intro heq
      exact hf.quiet w x hx (heq ▸ hat)
    exact ⟨i, by omega, hmi, hat⟩

/-- The poller clears a field of the entry that it has just delivered. -/
theorem Slots.clear (h : Slots entries stores cs head d uncleared False) {i : ℕ} (hi : i + 1 = d)
    (hhead : head ≤ i) {idx : UInt64} (hat : At idx i) (field : Field) :
    Slots
      (Function.update entries (slotOf idx) (Function.update (entries (slotOf idx)) field 0))
      stores cs head d (uncleared ∧ field ≠ .valid) False := by
  have hwin := h.window
  have hlen := h.le_length
  rw [hat.slot]
  refine ⟨h.head_le, hlen, hwin, ?_, ?_, ?_, h.owner, h.unique, False.elim⟩
  · intro j hj hj'
    rw [entries_update_ne _ (by omega)]
    exact h.free j hj hj'
  · intro j hj hj'
    by_cases hji : j = i
    · rw [hji, Function.update_self]
      by_cases hfield : field = .valid
      · rw [hfield, Function.update_self]
        exact Or.inl rfl
      · rw [Function.update_of_ne (Ne.symm hfield)]
        rcases h.cleared i hhead (by omega) with hzero | ⟨hu, -⟩
        · exact Or.inl hzero
        · exact Or.inr ⟨⟨hu, hfield⟩, hi⟩
    · rw [entries_update_ne _ (by omega)]
      rcases h.cleared j hj hj' with hzero | ⟨-, hlast⟩
      · exact Or.inl hzero
      · omega
  · intro j m hdj hm
    have hjl := lt_length_of_getElem? hm
    have hsame : Function.update entries (i % numEntries)
        (Function.update (entries (i % numEntries)) field 0) (j % numEntries) =
          entries (j % numEntries) := entries_update_ne _ (by omega)
    rcases h.claimed j m hdj hm with hf | hp
    · exact Or.inl (hf.frame hsame fun w x hx hatx => ⟨w, x, hx, hatx⟩)
    · exact Or.inr (hp.frame hsame fun w x hx _ => hx)

/-- The head moves to the next entry, and the slots behind it are free again. -/
theorem Slots.advance (h : Slots entries stores cs head d False verified) :
    Slots entries stores cs d d False verified := by
  have hle := h.head_le
  have hwin := h.window
  refine ⟨le_refl d, h.le_length, by omega, ?_, ?_, h.claimed, h.owner, h.unique, h.full⟩
  · intro i hi hi'
    by_cases hold : i < head + numEntries
    · exact h.free i hi hold
    · have hmod : i % numEntries = (i - numEntries) % numEntries := Nat.mod_eq_sub_mod (by omega)
      rw [hmod]
      rcases h.cleared (i - numEntries) (by omega) (by omega) with hzero | ⟨hfalse, -⟩
      · exact hzero
      · exact hfalse.elim
  · intro i hi hi'
    omega

end Slots

end Virthub.Klnk.Daemon
