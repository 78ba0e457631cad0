import Virthub.Klnk.Daemon.PrefetchSlots
import Virthub.Lib.Map
import Virthub.Store.SlotAccounting

/-! Who has which staging slot while tasks of all kinds run. A slot is in the queue of the pool, in the
hands of a task or in the prefetched map; every step hands it on from one of these places to another, so no
slot is ever in two of them, and all slots keep the size that the pool gives them. -/
namespace Virthub.Klnk.Daemon
open Virthub.Store Virthub.Lib Virthub.Klnk.Uffd

/-- The slot in the hands of a task, popped or taken from the prefetched map. -/
def Task.slot : Task → Option StagingSlotHandle
  | .fault (.movePrefetched _ _ slot) => some slot
  | .fault pc => Daemon.borrowed pc
  | .prefetch pc => pc.held
  | .poller _ => none

/-- What one step of a task can do to the slots; the task has the one slot before and the other one behind
it. -/
inductive HolderStep (c c' : FetchContext) :
    Option StagingSlotHandle → Option StagingSlotHandle → Prop
  | keep (slot : Option StagingSlotHandle) (hpool : c'.stagingPool = c.stagingPool)
      (hpages : c'.prefetchedPages = c.prefetchedPages) : HolderStep c c' slot slot
  | pop (slot : StagingSlotHandle) (hpool : c.stagingPool.popSlot = (.ok slot, c'.stagingPool))
      (hpages : c'.prefetchedPages = c.prefetchedPages) : HolderStep c c' none (some slot)
  | push (slot : StagingSlotHandle)
      (hpool : c'.stagingPool = (c.stagingPool.pushSlot slot.slotIdx).2)
      (hpages : c'.prefetchedPages = c.prefetchedPages) : HolderStep c c' (some slot) none
  | drop (slot : StagingSlotHandle) (hpool : c'.stagingPool = c.stagingPool)
      (hpages : c'.prefetchedPages = c.prefetchedPages) : HolderStep c c' (some slot) none
  | take (vaddr : UInt64) (slot : StagingSlotHandle)
      (hslot : c.prefetchedPages.lookup vaddr = some slot) (hpool : c'.stagingPool = c.stagingPool)
      (hpages : c'.prefetchedPages = c.prefetchedPages.erase vaddr) : HolderStep c c' none (some slot)
  | insert (vaddr : UInt64) (slot : StagingSlotHandle) (hpool : c'.stagingPool = c.stagingPool)
      (hpages : c'.prefetchedPages = c.prefetchedPages.insert vaddr slot) :
      HolderStep c c' (some slot) none

theorem holderStep_takePrefetched (c : FetchContext) (vaddr : UInt64) (owner : NodeId) (ok : Bool) :
    HolderStep c (faultStep c (.takePrefetched vaddr owner) ok).2 none
      (Task.fault (faultStep c (.takePrefetched vaddr owner) ok).1).slot := by
  obtain ⟨cp, pool, pages, attached⟩ := c
  simp only [faultStep]
  cases attached with
  | false => exact .keep none rfl rfl
  | true =>
    cases hl : pages.lookup vaddr with
    | none => exact .keep none rfl rfl
    | some slot => exact .take vaddr slot hl rfl rfl

theorem holderStep_fault (c : FetchContext) (pc : FaultPc) (ok : Bool) :
    HolderStep c (faultStep c pc ok).2 (Task.fault pc).slot (Task.fault (faultStep c pc ok).1).slot := by
  cases pc with
  | lookup vaddr =>
    have hnone : (Task.fault (dispatchFault c vaddr)).slot = none :=
      dispatchFault_cases (P := fun pc => (Task.fault pc).slot = none) c vaddr (fun _ => rfl)
        (fun _ => rfl) rfl rfl
    simp only [faultStep, hnone]
    exact .keep none rfl rfl
  | takePrefetched vaddr owner => exact holderStep_takePrefetched c vaddr owner ok
  | movePrefetched vaddr owner slot =>
    cases ok with
    | true => exact .drop slot rfl rfl
    | false => exact .drop slot rfl rfl
  | getRemoteNode vaddr owner =>
    simp only [faultStep]
    cases c.controlPlane.getRemoteNode owner <;> exact .keep none rfl rfl
  | popSlot vaddr owner remote =>
    simp only [faultStep]
    split
    case h_1 => exact .keep none rfl rfl
    case h_2 slot pool hp => exact .pop slot hp rfl
  | popLocalSlot vaddr =>
    simp only [faultStep]
    split
    case h_1 => exact .keep none rfl rfl
    case h_2 slot pool hp => exact .pop slot hp rfl
  | awaitRead vaddr owner slot =>
    cases ok with
    | true => exact .keep (some slot) rfl rfl
    | false => exact .drop slot rfl rfl
  | moveSlot vaddr owner slot =>
    cases ok with
    | true => exact .drop slot rfl rfl
    | false => exact .keep (some slot) rfl rfl
  | moveLocalSlot vaddr slot =>
    cases ok with
    | true => exact .drop slot rfl rfl
    | false => exact .keep (some slot) rfl rfl
  | pushSlot slot => exact .push slot rfl rfl
  | zeropage vaddr => cases ok <;> exact .keep none rfl rfl
  | rdmaRead vaddr owner slot request => exact .keep (some slot) rfl rfl
  | _ => exact .keep none rfl rfl

theorem PrefetchSlotStep.holder {c c' : FetchContext} {held held' : Option StagingSlotHandle}
    {replaced : Bool} (h : PrefetchSlotStep c c' held held' replaced) : HolderStep c c' held held' := by
  cases h with
  | keep held hctx => exact .keep held (by rw [hctx]) (by rw [hctx])
  | pop slot hpool hpages => exact .pop slot hpool hpages
  | push slot hpool hpages => exact .push slot hpool hpages
  | insert vaddr slot hpool hpages => exact .insert vaddr slot hpool hpages

theorem Task.step_holder (c : FetchContext) (t : Task) (ok : Bool) :
    HolderStep c (t.step c ok).2 t.slot (t.step c ok).1.slot := by
  cases t with
  | fault pc => exact holderStep_fault c pc ok
  | prefetch pc => exact (prefetchStep_slotStep c pc ok).holder
  | poller pc =>
    cases pc with
    | lookup v =>
      simp only [Task.step, pollerStep]
      split <;> exact .keep none rfl rfl
    | _ => exact .keep none rfl rfl

/-! Sizes. -/

theorem size_of_popSlot {pool pool' : StagingMemoryPool} {slot : StagingSlotHandle}
    (h : pool.popSlot = (.ok slot, pool')) :
    slot.size = pool.slotPageSize ∧ pool'.slotPageSize = pool.slotPageSize := by
  have hpopped := pool.popped
  rw [h] at hpopped
  cases hpopped with
  | slot slotIdx rest hf => exact ⟨rfl, rfl⟩

theorem slotPageSize_pushSlot (pool : StagingMemoryPool) (slotIdx : ℕ) :
    (pool.pushSlot slotIdx).2.slotPageSize = pool.slotPageSize := by
  have h := pool.pushed slotIdx
  generalize pool.pushSlot slotIdx = result at h ⊢
  cases h with
  | invalid hi => rfl
  | full hi hf => rfl
  | queued hi hf => rfl

/-- The slots of the pool, of the prefetched map and of all tasks have this size. -/
structure SlotSize (size : UInt64) (s : FetchState) : Prop where
  pool : s.ctx.stagingPool.slotPageSize = size
  pages : ∀ v slot, s.ctx.prefetchedPages.lookup v = some slot → slot.size = size
  tasks : ∀ t ∈ s.tasks, ∀ slot, t.slot = some slot → slot.size = size

theorem slotSize_of_fresh {s : FetchState} (hpages : s.ctx.prefetchedPages = ∅)
    (htasks : ∀ t ∈ s.tasks, t.slot = none) : SlotSize s.ctx.stagingPool.slotPageSize s := by
  constructor
  · rfl
  · intro v slot hslot
    simp [hpages] at hslot
  · intro t ht slot hslot
    simp [htasks t ht] at hslot

theorem HolderStep.slotSize {c c' : FetchContext} {slot slot' : Option StagingSlotHandle} {size : UInt64}
    (h : HolderStep c c' slot slot') (hpool : c.stagingPool.slotPageSize = size)
    (hpages : ∀ v a, c.prefetchedPages.lookup v = some a → a.size = size)
    (hslot : ∀ a, slot = some a → a.size = size) :
    c'.stagingPool.slotPageSize = size ∧
      (∀ v a, c'.prefetchedPages.lookup v = some a → a.size = size) ∧
      ∀ a, slot' = some a → a.size = size := by
  cases h with
  | keep slot hp hg =>
    rw [hp, hg]
    exact ⟨hpool, hpages, hslot⟩
  | pop a hp hg =>
    obtain ⟨hsize, hsame⟩ := size_of_popSlot hp
    rw [hg]
    refine ⟨hsame.trans hpool, hpages, fun b hb => ?_⟩
    cases hb
    exact hsize.trans hpool
  | push a hp hg =>
    rw [hp, hg]
    exact ⟨(slotPageSize_pushSlot _ _).trans hpool, hpages, fun b hb => by cases hb⟩
  | drop a hp hg =>
    rw [hp, hg]
    exact ⟨hpool, hpages, fun b hb => by cases hb⟩
  | take vaddr a ha hp hg =>
    rw [hp, hg]
    refine ⟨hpool, fun v b hb => ?_, fun b hb => ?_⟩
    · exact hpages v b (lookup_erase_eq_some_iff.mp hb).2
    · cases hb
      exact hpages vaddr a ha
  | insert vaddr a hp hg =>
    rw [hp, hg]
    refine ⟨hpool, fun v b hb => ?_, fun b hb => by cases hb⟩
    rcases lookup_insert_eq_some_iff.mp hb with ⟨-, rfl⟩ | ⟨-, hb⟩
    · exact hslot _ rfl
    · exact hpages v b hb

theorem SlotSize.turn {size : UInt64} {s : FetchState} (h : SlotSize size s) (a : Turn) :
    SlotSize size (turnStep s a).2 := by
  cases ht : s.tasks[a.task]? with
  | none =>
    rw [turnStep_none ht]
    exact h
  | some t =>
    obtain ⟨hpool, hpages, hslot⟩ := (t.step_holder s.ctx a.ok).slotSize h.pool h.pages
      (h.tasks t (List.mem_of_getElem? ht))
    rw [turnStep_some ht]
    refine ⟨hpool, hpages, fun u hu => ?_⟩
    rcases List.mem_or_eq_of_mem_set hu with hu | rfl
    · exact h.tasks u hu
    · exact hslot

/-! Places. -/

/-- Where a slot can be. -/
inductive Place where
  | queue (position : ℕ)
  | task (i : ℕ)
  | page (v : UInt64)
  deriving DecidableEq

/-- The slot of this index is at the place. -/
def Has (s : FetchState) (slotIdx : ℕ) : Place → Prop
  | .queue position => s.ctx.stagingPool.freeSlots[position]? = some slotIdx
  | .task i => ∃ t slot, s.tasks[i]? = some t ∧ t.slot = some slot ∧ slot.slotIdx = slotIdx
  | .page v => ∃ slot, s.ctx.prefetchedPages.lookup v = some slot ∧ slot.slotIdx = slotIdx

/-- No slot is at two places. -/
def Exclusive (s : FetchState) : Prop :=
  ∀ slotIdx p q, Has s slotIdx p → Has s slotIdx q → p = q

/-- At the start all slots are in the queue. -/
theorem exclusive_of_fresh {s : FetchState} (hqueue : s.ctx.stagingPool.freeSlots.Nodup)
    (hpages : s.ctx.prefetchedPages = ∅) (htasks : ∀ t ∈ s.tasks, t.slot = none) : Exclusive s := by
  have hplace : ∀ {slotIdx p}, Has s slotIdx p → ∃ position,
      p = .queue position ∧ s.ctx.stagingPool.freeSlots[position]? = some slotIdx := by
    intro slotIdx p hp
    cases p with
    | queue position => exact ⟨position, rfl, hp⟩
    | task i =>
      obtain ⟨t, slot, ht, hslot, -⟩ := hp
      simp [htasks t (List.mem_of_getElem? ht)] at hslot
    | page v =>
      obtain ⟨slot, hslot, -⟩ := hp
      simp [hpages] at hslot
  intro slotIdx p q hp hq
  obtain ⟨i, rfl, hi⟩ := hplace hp
  obtain ⟨j, rfl, hj⟩ := hplace hq
  have hlt := (List.getElem?_eq_some_iff.mp hi).1
  rw [(List.getElem?_inj hlt hqueue).mp (hi.trans hj.symm)]

section
variable {s : FetchState} {i : ℕ} {t t' : Task} {c' : FetchContext}

/-- A turn keeps the slots apart if every slot behind it comes from a place of its own. Only the task of the
turn can have a slot that it did not have before. -/
theorem Exclusive.of_origin (hs : Exclusive s) (ht : s.tasks[i]? = some t) (origin : Place → Place)
    (hinj : Function.Injective origin) (hother : ∀ j, j ≠ i → origin (.task j) = .task j)
    (hqueue : ∀ position slotIdx, c'.stagingPool.freeSlots[position]? = some slotIdx →
      Has s slotIdx (origin (.queue position)))
    (htask : ∀ slot, t'.slot = some slot → Has s slot.slotIdx (origin (.task i)))
    (hpage : ∀ v slot, c'.prefetchedPages.lookup v = some slot →
      Has s slot.slotIdx (origin (.page v))) :
    Exclusive ⟨c', s.tasks.set i t'⟩ := by
  have horigin : ∀ slotIdx p, Has ⟨c', s.tasks.set i t'⟩ slotIdx p → Has s slotIdx (origin p) := by
    intro slotIdx p hp
    cases p with
    | queue position => exact hqueue position slotIdx hp
    | task j =>
      obtain ⟨u, slot, hu, hslot, rfl⟩ := hp
      by_cases hj : j = i
      · subst hj
        rw [List.getElem?_set_self (List.getElem?_eq_some_iff.mp ht).1] at hu
        cases hu
        exact htask slot hslot
      · rw [List.getElem?_set_ne (Ne.symm hj)] at hu
        rw [hother j hj]
        exact ⟨u, slot, hu, hslot, rfl⟩
    | page v =>
      obtain ⟨slot, hslot, rfl⟩ := hp
      exact hpage v slot hslot
  intro slotIdx p q hp hq
  exact hinj (hs slotIdx _ _ (horigin slotIdx p hp) (horigin slotIdx q hq))

/-- The task of the turn hands its slot to another place, or takes the one that is there. -/
theorem Exclusive.of_exchange (hs : Exclusive s) (ht : s.tasks[i]? = some t) {place : Place}
    (hplace : ∀ j, Place.task j ≠ place)
    (hqueue : ∀ position slotIdx, c'.stagingPool.freeSlots[position]? = some slotIdx →
      Has s slotIdx (if .queue position = place then .task i else .queue position))
    (htask : ∀ slot, t'.slot = some slot → Has s slot.slotIdx place)
    (hpage : ∀ v slot, c'.prefetchedPages.lookup v = some slot →
      Has s slot.slotIdx (if .page v = place then .task i else .page v)) :
    Exclusive ⟨c', s.tasks.set i t'⟩ := by
  apply hs.of_origin ht (Equiv.swap (.task i) place) (Equiv.injective _)
  · intro j hj
    exact Equiv.swap_apply_of_ne_of_ne (by simpa using hj) (hplace j)
  · intro position slotIdx hx
    rw [Equiv.swap_apply_def, if_neg (by simp)]
    exact hqueue position slotIdx hx
  · intro slot hslot
    rw [Equiv.swap_apply_left]
    exact htask slot hslot
  · intro v slot hslot
    rw [Equiv.swap_apply_def, if_neg (by simp)]
    exact hpage v slot hslot

/-- Without a new slot in the hands of the task nothing moves. -/
theorem Exclusive.stays (hs : Exclusive s) (ht : s.tasks[i]? = some t)
    (hpool : c'.stagingPool = s.ctx.stagingPool) (hpages : c'.prefetchedPages = s.ctx.prefetchedPages)
    (hslot : ∀ slot, t'.slot = some slot → t.slot = some slot) :
    Exclusive ⟨c', s.tasks.set i t'⟩ := by
  apply hs.of_origin ht id Function.injective_id (fun _ _ => rfl)
  · intro position slotIdx hx
    rwa [hpool] at hx
  · intro slot h
    exact ⟨t, slot, ht, hslot slot h, rfl⟩
  · intro v slot h
    rw [hpages] at h
    exact ⟨slot, h, rfl⟩

/-- A popped slot comes from the front of the queue. -/
def popOrigin (i : ℕ) : Place → Place
  | .queue position => .queue (position + 1)
  | .task j => if j = i then .queue 0 else .task j
  | .page v => .page v

theorem popOrigin_injective (i : ℕ) : Function.Injective (popOrigin i) := by
  intro p q h
  cases p <;> cases q <;> simp only [popOrigin] at h <;> (try split_ifs at h) <;> simp_all

theorem Exclusive.pop {slot : StagingSlotHandle} (hs : Exclusive s) (ht : s.tasks[i]? = some t)
    (hpool : s.ctx.stagingPool.popSlot = (.ok slot, c'.stagingPool))
    (hpages : c'.prefetchedPages = s.ctx.prefetchedPages) (hslot : t'.slot = some slot) :
    Exclusive ⟨c', s.tasks.set i t'⟩ := by
  obtain ⟨hf, -⟩ := StagingMemoryPool.popSlot_spec hpool
  apply hs.of_origin ht (popOrigin i) (popOrigin_injective i) (fun j hj => if_neg hj)
  · intro position slotIdx hx
    rw [popOrigin, Has, hf]
    exact hx
  · intro b hb
    rw [hslot] at hb
    cases hb
    rw [popOrigin, if_pos rfl, Has, hf]
    rfl
  · intro v b hb
    rw [hpages] at hb
    exact ⟨b, hb, rfl⟩

/-- What is in the queue behind a push was there before it, or is the pushed slot at the end. -/
theorem freeSlots_pushSlot (pool : StagingMemoryPool) (slotIdx : ℕ) {position x : ℕ}
    (h : (pool.pushSlot slotIdx).2.freeSlots[position]? = some x) :
    pool.freeSlots[position]? = some x ∨ position = pool.freeSlots.length ∧ x = slotIdx := by
  have hpushed := pool.pushed slotIdx
  generalize pool.pushSlot slotIdx = result at h hpushed
  cases hpushed with
  | invalid hi => exact .inl h
  | full hi hf => exact .inl h
  | queued hi hf =>
    dsimp only at h
    rw [List.getElem?_append] at h
    split_ifs at h with hlt
    · exact .inl h
    · obtain ⟨hle, hx⟩ := List.getElem?_eq_some_iff.mp h
      rw [List.length_singleton] at hle
      rw [List.getElem_singleton] at hx
      exact .inr ⟨by omega, hx.symm⟩

theorem Exclusive.push {slot : StagingSlotHandle} (hs : Exclusive s) (ht : s.tasks[i]? = some t)
    (hslot : t.slot = some slot)
    (hpool : c'.stagingPool = (s.ctx.stagingPool.pushSlot slot.slotIdx).2)
    (hpages : c'.prefetchedPages = s.ctx.prefetchedPages) (hnone : t'.slot = none) :
    Exclusive ⟨c', s.tasks.set i t'⟩ := by
  have hplace : ∀ j, Place.task j ≠ .queue s.ctx.stagingPool.freeSlots.length := by simp
  apply hs.of_exchange ht hplace
  · intro position slotIdx hx
    rw [hpool] at hx
    rcases freeSlots_pushSlot _ _ hx with hx | ⟨rfl, rfl⟩
    · have hlt := (List.getElem?_eq_some_iff.mp hx).1
      rw [if_neg (by simpa using hlt.ne)]
      exact hx
    · rw [if_pos rfl]
      exact ⟨t, slot, ht, hslot, rfl⟩
  · intro b hb
    simp [hnone] at hb
  · intro v b hb
    rw [hpages] at hb
    rw [if_neg (by simp)]
    exact ⟨b, hb, rfl⟩

theorem Exclusive.take {vaddr : UInt64} {slot : StagingSlotHandle} (hs : Exclusive s)
    (ht : s.tasks[i]? = some t) (hlookup : s.ctx.prefetchedPages.lookup vaddr = some slot)
    (hpool : c'.stagingPool = s.ctx.stagingPool)
    (hpages : c'.prefetchedPages = s.ctx.prefetchedPages.erase vaddr) (hslot : t'.slot = some slot) :
    Exclusive ⟨c', s.tasks.set i t'⟩ := by
  have hplace : ∀ j, Place.task j ≠ .page vaddr := by simp
  apply hs.of_exchange ht hplace
  · intro position slotIdx hx
    rw [hpool] at hx
    rw [if_neg (by simp)]
    exact hx
  · intro b hb
    rw [hslot] at hb
    cases hb
    exact ⟨slot, hlookup, rfl⟩
  · intro v b hb
    rw [hpages] at hb
    obtain ⟨hne, hb⟩ := lookup_erase_eq_some_iff.mp hb
    rw [if_neg (by simpa using hne)]
    exact ⟨b, hb, rfl⟩

theorem Exclusive.insert {vaddr : UInt64} {slot : StagingSlotHandle} (hs : Exclusive s)
    (ht : s.tasks[i]? = some t) (hslot : t.slot = some slot)
    (hpool : c'.stagingPool = s.ctx.stagingPool)
    (hpages : c'.prefetchedPages = s.ctx.prefetchedPages.insert vaddr slot) (hnone : t'.slot = none) :
    Exclusive ⟨c', s.tasks.set i t'⟩ := by
  have hplace : ∀ j, Place.task j ≠ .page vaddr := by simp
  apply hs.of_exchange ht hplace
  · intro position slotIdx hx
    rw [hpool] at hx
    rw [if_neg (by simp)]
    exact hx
  · intro b hb
    simp [hnone] at hb
  · intro v b hb
    rw [hpages] at hb
    rcases lookup_insert_eq_some_iff.mp hb with ⟨rfl, rfl⟩ | ⟨hne, hb⟩
    · rw [if_pos rfl]
      exact ⟨t, _, ht, hslot, rfl⟩
    · rw [if_neg (by simpa using hne)]
      exact ⟨b, hb, rfl⟩

theorem HolderStep.exclusive (h : HolderStep s.ctx c' t.slot t'.slot) (ht : s.tasks[i]? = some t)
    (hs : Exclusive s) : Exclusive ⟨c', s.tasks.set i t'⟩ := by
  generalize hslot : t.slot = slot at h
  generalize hslot' : t'.slot = slot' at h
  cases h with
  | keep slot hpool hpages =>
    apply hs.stays ht hpool hpages
    intro b hb
    rwa [hslot, ← hslot']
  | drop slot hpool hpages =>
    apply hs.stays ht hpool hpages
    intro b hb
    simp [hslot'] at hb
  | pop slot hpool hpages => exact hs.pop ht hpool hpages hslot'
  | push slot hpool hpages => exact hs.push ht hslot hpool hpages hslot'
  | take vaddr slot hlookup hpool hpages => exact hs.take ht hlookup hpool hpages hslot'
  | insert vaddr slot hpool hpages => exact hs.insert ht hslot hpool hpages hslot'

end

theorem Exclusive.turn {s : FetchState} (h : Exclusive s) (a : Turn) : Exclusive (turnStep s a).2 := by
  cases ht : s.tasks[a.task]? with
  | none =>
    rw [turnStep_none ht]
    exact h
  | some t =>
    rw [turnStep_some ht]
    exact (t.step_holder s.ctx a.ok).exclusive ht h

end Virthub.Klnk.Daemon
