import Mathlib.Data.List.Induction
import Mathlib.Data.Nat.Find
import Mathlib.Order.Bounds.Basic

/-! Past-time properties of a history, read from its latest event backwards. -/
namespace Virthub.Lib

variable {ε : Type*} {A B : ε → Prop} {h : List ε} {x : ε}

/-- Some event of the history satisfies `A`. -/
def Once (A : ε → Prop) (h : List ε) : Prop := ∃ e ∈ h, A e

/-- `A` has happened, and `B` not since then. -/
def Since (A B : ε → Prop) (h : List ε) : Prop :=
  ∃ past e rest, h = past ++ e :: rest ∧ A e ∧ ∀ f ∈ rest, ¬ B f

/-- The times at which `A` has happened without a `B` since then. -/
def Pending (A B : ε → Prop) (h : List ε) : Set ℕ :=
  {t | ∃ past e rest, h = past ++ e :: rest ∧ past.length = t ∧ A e ∧ ∀ f ∈ rest, ¬ B f}

/-- `B` has happened at a time when `A` had already happened. -/
def After (A B : ε → Prop) (h : List ε) : Prop :=
  ∃ past e rest, h = past ++ e :: rest ∧ B e ∧ Once A past

/-- `B` has not happened since the latest `A`. -/
def NotSinceLast (A B : ε → Prop) (h : List ε) : Prop :=
  ∀ past e rest, h = past ++ e :: rest → A e → (∀ f ∈ rest, ¬ A f) → ∀ f ∈ rest, ¬ B f

/-- The splits of a history that has just grown by one event. -/
theorem concat_eq_split {past rest : List ε} {e : ε} :
    h ++ [x] = past ++ e :: rest ↔
      (past = h ∧ e = x ∧ rest = []) ∨ ∃ rest', rest = rest' ++ [x] ∧ h = past ++ e :: rest' := by
  constructor
  · intro heq
    cases rest using List.reverseRecOn with
    | nil =>
      have hlast : h = past ∧ x = e := by simpa using heq
      exact Or.inl ⟨hlast.1.symm, hlast.2.symm, rfl⟩
    | append_singleton rest' y =>
      rw [← List.cons_append, ← List.append_assoc] at heq
      have hlast := List.append_inj' heq rfl
      exact Or.inr ⟨rest', by rw [hlast.2], hlast.1⟩
  · rintro (⟨rfl, rfl, rfl⟩ | ⟨rest', rfl, rfl⟩) <;> simp

@[simp] theorem once_nil : ¬ Once A ([] : List ε) := by
  simp [Once]

@[simp] theorem once_concat : Once A (h ++ [x]) ↔ Once A h ∨ A x := by
  simp [Once, or_and_right, exists_or]

theorem since_concat : Since A B (h ++ [x]) ↔ A x ∨ Since A B h ∧ ¬ B x := by
  constructor
  · rintro ⟨past, e, rest, heq, he, hrest⟩
    rcases concat_eq_split.mp heq with ⟨-, rfl, -⟩ | ⟨rest', rfl, hh⟩
    · exact Or.inl he
    · exact Or.inr ⟨⟨past, e, rest', hh, he, fun f hf => hrest f (by simp [hf])⟩, hrest x (by simp)⟩
  · rintro (hx | ⟨⟨past, e, rest, hh, he, hrest⟩, hx⟩)
    · exact ⟨h, x, [], by simp, hx, by simp⟩
    · refine ⟨past, e, rest ++ [x], by simp [hh], he, fun f hf => ?_⟩
      rcases List.mem_append.mp hf with hf | hf
      · exact hrest f hf
      · rwa [List.mem_singleton.mp hf]

@[simp] theorem pending_nil : Pending A B ([] : List ε) = ∅ := by
  ext t
  simp [Pending]

theorem lt_of_mem_pending {t : ℕ} (ht : t ∈ Pending A B h) : t < h.length := by
  obtain ⟨past, e, rest, rfl, rfl, -, -⟩ := ht
  simp

theorem mem_pending_concat {t : ℕ} :
    t ∈ Pending A B (h ++ [x]) ↔ t ∈ Pending A B h ∧ ¬ B x ∨ t = h.length ∧ A x := by
  constructor
  · intro ⟨past, e, rest, heq, hlen, he, hrest⟩
    rcases concat_eq_split.mp heq with ⟨rfl, rfl, -⟩ | ⟨rest', rfl, hh⟩
    · exact Or.inr ⟨hlen.symm, he⟩
    · have hpast : ∀ f ∈ rest', ¬ B f := fun f hf => hrest f (by simp [hf])
      exact Or.inl ⟨⟨past, e, rest', hh, hlen, he, hpast⟩, hrest x (by simp)⟩
  · intro ht
    rcases ht with ⟨⟨past, e, rest, hh, hlen, he, hrest⟩, hx⟩ | ⟨ht, hx⟩
    · refine ⟨past, e, rest ++ [x], by simp [hh], hlen, he, fun f hf => ?_⟩
      rcases List.mem_append.mp hf with hf | hf
      · exact hrest f hf
      · rwa [List.mem_singleton.mp hf]
    · exact ⟨h, x, [], by simp, ht.symm, hx, by simp⟩

theorem exists_isLeast_pending (hn : (Pending A B h).Nonempty) : ∃ t, IsLeast (Pending A B h) t := by
  classical
  exact ⟨Nat.find hn, Nat.find_spec hn, fun t ht => Nat.find_min' hn ht⟩

/-- What has neither begun nor ended by the last event stands as before. -/
theorem pending_concat_of_not (ha : ¬ A x) (hb : ¬ B x) :
    Pending A B (h ++ [x]) = Pending A B h := by
  ext t
  simp [mem_pending_concat, ha, hb]

theorem pending_concat_of_ends (ha : ¬ A x) (hb : B x) : Pending A B (h ++ [x]) = ∅ := by
  ext t
  simp [mem_pending_concat, ha, hb]

/-- A first `A` is the earliest one. -/
theorem isLeast_pending_concat_of_empty (ha : A x) (he : Pending A B h = ∅) {t : ℕ} :
    IsLeast (Pending A B (h ++ [x])) t ↔ t = h.length := by
  have hset : Pending A B (h ++ [x]) = {h.length} := by
    ext u
    simp [mem_pending_concat, he, ha]
  rw [hset]
  constructor
  · intro ht
    exact ht.1
  · intro ht
    rw [ht]
    exact isLeast_singleton

/-- A further `A` is not the earliest one. -/
theorem isLeast_pending_concat_of_nonempty (hb : ¬ B x) (hn : (Pending A B h).Nonempty) {t : ℕ} :
    IsLeast (Pending A B (h ++ [x])) t ↔ IsLeast (Pending A B h) t := by
  have hold : ∀ u ∈ Pending A B h, u ∈ Pending A B (h ++ [x]) := fun u hu =>
    mem_pending_concat.mpr (Or.inl ⟨hu, hb⟩)
  constructor
  · intro ht
    refine ⟨?_, fun u hu => ht.2 (hold u hu)⟩
    rcases mem_pending_concat.mp ht.1 with hmem | ⟨hlen, -⟩
    · exact hmem.1
    · obtain ⟨u, hu⟩ := hn
      have hle : t ≤ u := ht.2 (hold u hu)
      have hlt := lt_of_mem_pending hu
      omega
  · intro ht
    refine ⟨hold t ht.1, fun u hu => ?_⟩
    rcases mem_pending_concat.mp hu with hmem | ⟨hlen, -⟩
    · exact ht.2 hmem.1
    · exact hlen ▸ (lt_of_mem_pending ht.1).le

@[simp] theorem after_nil : ¬ After A B ([] : List ε) := by
  simp [After]

theorem after_concat : After A B (h ++ [x]) ↔ After A B h ∨ B x ∧ Once A h := by
  constructor
  · rintro ⟨past, e, rest, heq, he, hpast⟩
    rcases concat_eq_split.mp heq with ⟨rfl, rfl, -⟩ | ⟨rest', -, hh⟩
    · exact Or.inr ⟨he, hpast⟩
    · exact Or.inl ⟨past, e, rest', hh, he, hpast⟩
  · rintro (⟨past, e, rest, hh, he, hpast⟩ | ⟨hx, hh⟩)
    · exact ⟨past, e, rest ++ [x], by simp [hh], he, hpast⟩
    · exact ⟨h, x, [], by simp, hx, hh⟩

theorem After.once (ha : After A B h) : Once A h := by
  obtain ⟨past, e, rest, rfl, -, f, hf, hA⟩ := ha
  exact ⟨f, by simp [hf], hA⟩

theorem Since.once (hs : Since A B h) : Once A h := by
  obtain ⟨past, e, rest, rfl, he, -⟩ := hs
  exact ⟨e, by simp, he⟩

/-- Without a `B` after the first `A` there is none since. -/
theorem since_or_after (ho : Once A h) : Since A B h ∨ After A B h := by
  induction h using List.reverseRecOn with
  | nil => exact absurd ho once_nil
  | append_singleton h x ih =>
    rw [since_concat, after_concat]
    by_cases hx : A x
    · exact Or.inl (Or.inl hx)
    · have hh := (once_concat.mp ho).resolve_right hx
      by_cases hb : B x
      · exact Or.inr (Or.inr ⟨hb, hh⟩)
      · rcases ih hh with hs | ha
        · exact Or.inl (Or.inr ⟨hs, hb⟩)
        · exact Or.inr (Or.inl ha)

/-- If `A` happens only once, `B` does not come after it and not since it. -/
theorem not_after_of_since (hfirst : ∀ past e rest, h = past ++ e :: rest → A e → ¬ Once A past)
    (hs : Since A B h) : ¬ After A B h := by
  induction h using List.reverseRecOn with
  | nil => exact after_nil
  | append_singleton h x ih =>
    rw [after_concat]
    rcases since_concat.mp hs with hx | ⟨hs, hx⟩
    · have hnot := hfirst h x [] rfl hx
      exact fun ha => hnot (ha.elim After.once And.right)
    · have hrest := ih (fun past e rest heq => hfirst past e (rest ++ [x]) (by simp [heq])) hs
      exact fun ha => ha.elim hrest fun hb => hx hb.1

@[simp] theorem notSinceLast_nil : NotSinceLast A B ([] : List ε) := by
  intro past e rest heq
  simp at heq

theorem notSinceLast_of_concat_left (hx : A x) : NotSinceLast A B (h ++ [x]) := by
  intro past e rest heq he hrest f hf
  rcases concat_eq_split.mp heq with ⟨-, -, rfl⟩ | ⟨rest', rfl, -⟩
  · cases hf
  · exact absurd hx (hrest x (by simp))

theorem NotSinceLast.concat (hn : NotSinceLast A B h) (hx : ¬ B x) : NotSinceLast A B (h ++ [x]) := by
  intro past e rest heq he hrest f hf
  rcases concat_eq_split.mp heq with ⟨-, -, rfl⟩ | ⟨rest', rfl, hh⟩
  · cases hf
  · rcases List.mem_append.mp hf with hf | hf
    · exact hn past e rest' hh he (fun g hg => hrest g (by simp [hg])) f hf
    · rwa [List.mem_singleton.mp hf]

end Virthub.Lib
