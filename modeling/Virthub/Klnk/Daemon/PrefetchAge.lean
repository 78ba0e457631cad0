import Virthub.Klnk.Daemon.Tasks

/-! Prefetched copies against invalidations. The poller updates the page table and never the
prefetched map, so a copy that was read before an invalidation stays ready for the next fault. -/
namespace Virthub.Klnk.Daemon
open Virthub.Store Virthub.Lib Virthub.Klnk.Uffd

def Task.readsInto : Task → Option StagingSlotHandle
  | .fault (.rdmaRead _ _ slot _) => some slot
  | .prefetch (.rdmaRead _ slot _) => some slot
  | _ => none

/-- The page and the slot of a prefetch that has issued its read and not yet recorded it. -/
def Task.prefetching : Task → Option (UInt64 × StagingSlotHandle)
  | .prefetch (.awaitRead v slot) => some (v, slot)
  | .prefetch (.insert v slot) => some (v, slot)
  | _ => none

def Fills (slot : StagingSlotHandle) : TurnEvent → Prop :=
  Ran fun t => t.readsInto = some slot

instance (slot : StagingSlotHandle) : DecidablePred (Fills slot) :=
  inferInstanceAs (DecidablePred (Ran _))

def TakesPrefetched (v : UInt64) (slot : StagingSlotHandle) (e : TurnEvent) : Prop :=
  Ran (fun t => ∃ owner, t = .fault (.takePrefetched v owner)) e ∧
    e.pre.ctx.prefetchAttached = true ∧ e.pre.ctx.prefetchedPages.lookup v = some slot

/-- No fault takes a slot whose page has been marked invalid since the read that filled it. -/
def NoStaleHit (h : List TurnEvent) : Prop :=
  ∀ past e rest, h = past ++ e :: rest → ∀ v slot, TakesPrefetched v slot e →
    NotSinceLast (Fills slot) (Ran (Task.marksInvalid v)) past

/-- The slot holds a prefetched copy of the page at `v`, or is receiving one. -/
def Copies (s : FetchState) (v : UInt64) (slot : StagingSlotHandle) : Prop :=
  s.ctx.prefetchedPages.lookup v = some slot ∨ ∃ t ∈ s.tasks, t.prefetching = some (v, slot)

/-- The page that the task is about to mark invalid is neither prefetched nor being prefetched. -/
def Task.marksUncopied (s : FetchState) (t : Task) : Prop :=
  ∀ v ∈ t.invalidates, s.ctx.prefetchedPages.lookup v = none ∧
    ∀ u ∈ s.tasks, ∀ p ∈ u.prefetching, p.1 ≠ v

instance (s : FetchState) : DecidablePred (Task.marksUncopied s) := fun t =>
  Option.decidableForallMem t.invalidates

def MarksUncopied (_ : List TurnEvent) (s : FetchState) (a : Turn) : Prop :=
  ∀ t ∈ s.tasks[a.task]?, t.marksUncopied s

instance (h : List TurnEvent) (s : FetchState) (a : Turn) : Decidable (MarksUncopied h s a) :=
  Option.decidableForallMem s.tasks[a.task]?

theorem lookup_step {c : FetchContext} {t : Task} {ok : Bool} {v : UInt64}
    {slot : StagingSlotHandle} (h : (t.step c ok).2.prefetchedPages.lookup v = some slot) :
    c.prefetchedPages.lookup v = some slot ∨ t.prefetching = some (v, slot) := by
  obtain ⟨pool, hstep⟩ := t.step_context c ok
  rw [hstep] at h
  dsimp only at h
  unfold Task.prefetchedPages at h
  split at h
  · next w o =>
    split at h
    · -- a copy that is still there is not the one that was taken
      have hw : v ≠ w := by
        rintro rfl
        rw [AList.lookup_erase] at h
        cases h
      rw [AList.lookup_erase_ne hw] at h
      exact Or.inl h
    · exact Or.inl h
  · next w s =>
    by_cases hw : v = w
    · subst hw
      rw [AList.lookup_insert] at h
      right
      rw [Task.prefetching, Option.some.inj h]
    · rw [AList.lookup_insert_ne hw] at h
      exact Or.inl h
  · exact Or.inl h

theorem prefetching_step {c : FetchContext} {t : Task} {ok : Bool} {p : UInt64 × StagingSlotHandle}
    (h : (t.step c ok).1.prefetching = some p) :
    t.prefetching = some p ∨ t.readsInto = some p.2 := by
  cases t with
  | fault pc => cases h
  | poller pc => cases h
  | prefetch pc =>
    cases pc with
    | popSlot w p a r =>
      simp only [Task.step, prefetchStep] at h
      split at h <;> cases h
    | rdmaRead w s r =>
      right
      cases h
      rfl
    | awaitRead w s =>
      left
      simp only [Task.step, prefetchStep] at h
      split_ifs at h
      · exact h
      · cases h
    | insert w s => cases h
    | pushSlot s => cases h
    | finished => cases h

/-- A copy is an old one, or its read is being issued. -/
theorem copies_step {s : FetchState} {a : Turn} {v : UInt64} {slot : StagingSlotHandle}
    (h : Copies (turnStep s a).2 v slot) :
    Copies s v slot ∨ Fills slot (event turnStep s a) := by
  cases ht : s.tasks[a.task]? with
  | none =>
    rw [turnStep_none ht] at h
    exact Or.inl h
  | some t =>
    rw [turnStep_some ht] at h
    have hmem : t ∈ s.tasks := List.mem_of_getElem? ht
    rcases h with hmap | ⟨u, hu, hpre⟩
    · left
      rcases lookup_step hmap with hold | hold
      · exact Or.inl hold
      · exact Or.inr ⟨t, hmem, hold⟩
    · rcases List.mem_or_eq_of_mem_set hu with hu | rfl
      · exact Or.inl (Or.inr ⟨u, hu, hpre⟩)
      · rcases prefetching_step hpre with hold | hread
        · exact Or.inl (Or.inr ⟨t, hmem, hold⟩)
        · exact Or.inr ⟨t, ht, hread⟩

/-- Every copy is as new as the last invalidation of its page. -/
def CopiesFresh (h : List TurnEvent) (s : FetchState) : Prop :=
  ∀ v slot, Copies s v slot → NotSinceLast (Fills slot) (Ran (Task.marksInvalid v)) h

theorem not_marksInvalid_of_copies {h : List TurnEvent} {s : FetchState} {a : Turn} {v : UInt64}
    {slot : StagingSlotHandle} (hc : MarksUncopied h s a) (hcopy : Copies s v slot) :
    ¬ Ran (Task.marksInvalid v) (event turnStep s a) := by
  intro ⟨t, hran, hmark⟩
  obtain ⟨hmap, htasks⟩ := hc t hran v hmark
  rcases hcopy with hold | ⟨u, hu, hpre⟩
  · rw [hmap] at hold
    cases hold
  · exact htasks u hu _ hpre rfl

theorem CopiesFresh.step {h : List TurnEvent} {s : FetchState} {a : Turn} (hs : CopiesFresh h s)
    (hc : MarksUncopied h s a) : CopiesFresh (h ++ [event turnStep s a]) (turnStep s a).2 := by
  intro v slot hcopy
  rcases copies_step hcopy with hold | hfill
  · apply (hs v slot hold).concat
    exact not_marksInvalid_of_copies hc hold
  · exact notSinceLast_of_concat_left hfill

/-- In every run in which pages are marked invalid only while no copy of them is prefetched, no
fault takes a stale copy. -/
theorem noStaleHit_of_marksUncopied (s : FetchState) (turns : List Turn)
    (hc : Along MarksUncopied turnStep s turns) : NoStaleHit (trace turnStep s turns) := by
  have hstart : CopiesFresh [] s := fun v slot _ => notSinceLast_nil
  refine (history_forall hstart (fun h t a hfresh hmark => ⟨hfresh.step hmark, ?_⟩) turns hc).2
  intro v slot htake
  exact hfresh v slot (Or.inl htake.2.2)

/-- Calls of the three components for the page at `v`, which another node owns and of which there
is no copy, before any of them has started. -/
structure PageCalls (s : FetchState) (v : UInt64) : Prop where
  tasks : ∀ t ∈ s.tasks, (∃ size addr rkey, t = .prefetch (.popSlot v size addr rkey)) ∨
    t = .poller (.lookup v) ∨ t = .fault (.lookup v)
  remote : OwnedRemotely s.ctx v
  noPrefetched : s.ctx.prefetchedPages.lookup v = none

private def prefetchStart : FetchState :=
  ⟨remotePage, [.prefetch (.popSlot 0x1000 4096 ⟨[10, 0, 0, 2], 19001⟩ 0),
    .poller (.lookup 0x1000), .fault (.lookup 0x1000)]⟩

private theorem prefetchStart_pageCalls : PageCalls prefetchStart 0x1000 where
  tasks := by simp [prefetchStart]
  remote := remotePage_ownedRemotely
  noPrefetched := rfl

/-- The page is invalidated, then prefetched, then the copy is taken. -/
theorem noStaleHit_of_marksUncopied_prefetch_last :
    NoStaleHit (trace turnStep prefetchStart [⟨1, true⟩, ⟨1, true⟩, ⟨1, true⟩,
      ⟨0, true⟩, ⟨0, true⟩, ⟨0, true⟩, ⟨0, true⟩, ⟨2, true⟩, ⟨2, true⟩, ⟨2, true⟩]) := by
  apply noStaleHit_of_marksUncopied
  simp only [along_cons, along_nil, and_true]
  decide +kernel

/-- The page is prefetched, then invalidated, then the copy is taken. -/
theorem noStaleHit_fails_after_invalidation :
    ¬ ∀ (s : FetchState) (v : UInt64), PageCalls s v → ∀ turns : List Turn,
      NoStaleHit (trace turnStep s turns) := by
  intro h
  let prefetch : List Turn := [⟨0, true⟩, ⟨0, true⟩, ⟨0, true⟩, ⟨0, true⟩]
  let invalidate : List Turn := [⟨1, true⟩, ⟨1, true⟩, ⟨1, true⟩]
  let slot : StagingSlotHandle := ⟨0, 0x700000, 4096⟩
  have hpast := h prefetchStart 0x1000 prefetchStart_pageCalls
    (prefetch ++ invalidate ++ [⟨2, true⟩, ⟨2, true⟩, ⟨2, true⟩])
    (trace turnStep prefetchStart (prefetch ++ invalidate ++ [⟨2, true⟩, ⟨2, true⟩])) _ [] rfl
    0x1000 slot ⟨⟨_, rfl, _, rfl⟩, rfl, rfl⟩
  have hnot := hpast [_] _ _ rfl ⟨_, rfl, rfl⟩ (by decide +kernel)
  exact hnot _ (List.mem_of_getElem? (i := 3) rfl) ⟨_, rfl, rfl⟩

end Virthub.Klnk.Daemon
