import Virthub.Klnk.Daemon.Prefetch
import Virthub.Klnk.Daemon.StagingSlots

/-! Where the staging slots go while pages are prefetched. A page is checked against the map long before its
slot is put there, and a slot that is in the map by then is dropped. -/
namespace Virthub.Klnk.Daemon
open Virthub.Store Virthub.Lib Virthub.Klnk.Uffd

namespace PrefetchPc

/-- The slot that a page task has popped. -/
def held : PrefetchPc → Option StagingSlotHandle
  | .rdmaRead _ slot _ | .awaitRead _ slot | .insert _ slot | .pushSlot slot => some slot
  | _ => none

/-- The next step puts a slot in the place of another one. -/
def replaces (c : FetchContext) : PrefetchPc → Bool
  | .insert vaddr _ => vaddr ∈ c.prefetchedPages
  | _ => false

end PrefetchPc

/-- What one step of a page task can do to the slots. -/
inductive PrefetchSlotStep (c c' : FetchContext) :
    Option StagingSlotHandle → Option StagingSlotHandle → Bool → Prop
  | keep (held : Option StagingSlotHandle) (hctx : c' = c) : PrefetchSlotStep c c' held held false
  | pop (slot : StagingSlotHandle) (hpool : c.stagingPool.popSlot = (.ok slot, c'.stagingPool))
      (hpages : c'.prefetchedPages = c.prefetchedPages) : PrefetchSlotStep c c' none (some slot) false
  | push (slot : StagingSlotHandle)
      (hpool : c'.stagingPool = (c.stagingPool.pushSlot slot.slotIdx).2)
      (hpages : c'.prefetchedPages = c.prefetchedPages) : PrefetchSlotStep c c' (some slot) none false
  | insert (vaddr : UInt64) (slot : StagingSlotHandle) (hpool : c'.stagingPool = c.stagingPool)
      (hpages : c'.prefetchedPages = c.prefetchedPages.insert vaddr slot) :
      PrefetchSlotStep c c' (some slot) none (vaddr ∈ c.prefetchedPages)

theorem prefetchStep_slotStep (c : FetchContext) (pc : PrefetchPc) (ok : Bool) :
    PrefetchSlotStep c (prefetchStep c pc ok).2 pc.held (prefetchStep c pc ok).1.held (pc.replaces c) := by
  cases pc with
  | popSlot vaddr pageSize peerAddr remoteRkey =>
    simp only [prefetchStep]
    split
    case h_1 => exact .keep none rfl
    case h_2 slot pool hp => exact .pop slot hp rfl
  | awaitRead vaddr slot => cases ok <;> exact .keep (some slot) rfl
  | rdmaRead vaddr slot request => exact .keep (some slot) rfl
  | insert vaddr slot => exact .insert vaddr slot rfl rfl
  | pushSlot slot => exact .push slot rfl rfl
  | finished => exact .keep none rfl

/-- A slot that takes the place of another one adds none to the map. -/
theorem length_keys_insert (pages : AList fun _ : UInt64 => StagingSlotHandle) (vaddr : UInt64)
    (slot : StagingSlotHandle) :
    (pages.insert vaddr slot).keys.length + (decide (vaddr ∈ pages)).toNat = pages.keys.length + 1 := by
  rw [AList.keys_insert, List.length_cons]
  by_cases h : vaddr ∈ pages
  · have hpos := List.length_pos_of_mem (AList.mem_keys.mp h)
    rw [List.length_erase_of_mem (AList.mem_keys.mp h), decide_eq_true h, Bool.toNat_true]
    omega
  · rw [List.erase_of_not_mem fun hm => h (AList.mem_keys.mpr hm), decide_eq_false h, Bool.toNat_false]

theorem PrefetchSlotStep.conserves {c c' : FetchContext} {held held' : Option StagingSlotHandle}
    {replaced : Bool} (h : PrefetchSlotStep c c' held held' replaced)
    (hr : Returnable c.stagingPool held) :
    keptSlots c' + held'.toList.length + replaced.toNat = keptSlots c + held.toList.length := by
  unfold keptSlots StagingMemoryPool.availableSlots
  cases h with
  | keep held hctx => simp [hctx]
  | pop slot hpool hpages =>
    obtain ⟨hf, -⟩ := StagingMemoryPool.popSlot_spec hpool
    simp only [hf, hpages, List.length_cons, Option.toList_some, Option.toList_none, List.length_nil,
      Bool.toNat_false]
    omega
  | push slot hpool hpages =>
    obtain ⟨hf, -⟩ := StagingMemoryPool.pushSlot_spec (hr.valid slot rfl) (hr.room slot rfl)
    simp only [hpool, hf, hpages, List.length_append, List.length_singleton, Option.toList_some,
      Option.toList_none, List.length_nil, Bool.toNat_false]
    omega
  | insert vaddr slot hpool hpages =>
    have hlen := length_keys_insert c.prefetchedPages vaddr slot
    simp only [hpool, hpages, Option.toList_some, Option.toList_none, List.length_singleton,
      List.length_nil]
    omega

/-- A step moves slots between the queue and the task, or out of both. -/
theorem PrefetchSlotStep.pool {c c' : FetchContext} {held held' : Option StagingSlotHandle}
    {replaced : Bool} (h : PrefetchSlotStep c c' held held' replaced)
    (hr : Returnable c.stagingPool held) (hp : c.stagingPool.WellFormed) :
    c'.stagingPool.WellFormed ∧ c'.stagingPool.numSlots = c.stagingPool.numSlots ∧
      (∀ slot, held' = some slot → slot.slotIdx < c.stagingPool.numSlots) ∧
      c'.stagingPool.availableSlots + held'.toList.length ≤
        c.stagingPool.availableSlots + held.toList.length := by
  cases h with
  | keep held hctx =>
    rw [hctx]
    exact ⟨hp, rfl, hr.valid, le_rfl⟩
  | pop slot hpool hpages =>
    have hwf := hp.popSlot
    obtain ⟨hf, hn⟩ := StagingMemoryPool.popSlot_spec hpool
    rw [hpool] at hwf
    refine ⟨hwf, hn, ?_, ?_⟩
    · intro slot' hs
      rw [← Option.some.inj hs]
      exact hp.valid slot.slotIdx (by simp [hf])
    · simp [StagingMemoryPool.availableSlots, hf]
  | push slot hpool hpages =>
    obtain ⟨hf, hn⟩ := StagingMemoryPool.pushSlot_spec (hr.valid slot rfl) (hr.room slot rfl)
    rw [hpool]
    refine ⟨hp.pushSlot slot.slotIdx, hn, by simp, ?_⟩
    simp [StagingMemoryPool.availableSlots, hf]
  | insert vaddr slot hpool hpages =>
    rw [hpool]
    exact ⟨hp, rfl, by simp, by simp⟩

def inFlight (pages : List PrefetchPc) : ℕ := (pages.map fun pc => pc.held.toList.length).sum

/-- The invariant of a run: every slot that is free or in flight is one of the pool, and there are no more of
them than the pool has. -/
structure PagesWithin (s : PrefetchEngine) : Prop where
  wellFormed : s.ctx.stagingPool.WellFormed
  held : ∀ pc ∈ s.pages, ∀ slot, pc.held = some slot → slot.slotIdx < s.ctx.stagingPool.numSlots
  room : s.ctx.stagingPool.availableSlots + inFlight s.pages ≤ s.ctx.stagingPool.numSlots

theorem PagesWithin.returnable {s : PrefetchEngine} (h : PagesWithin s) {i : ℕ} {pc : PrefetchPc}
    (hpc : s.pages[i]? = some pc) : Returnable s.ctx.stagingPool pc.held := by
  constructor
  · intro slot hb
    exact h.held pc (List.mem_of_getElem? hpc) slot hb
  · intro slot hb
    have hone := le_sum_map (fun pc : PrefetchPc => pc.held.toList.length) hpc
    have hroom := h.room
    simp only [hb, Option.toList_some, List.length_singleton] at hone
    unfold inFlight at hroom
    omega

/-- The call puts a slot in the place of another one. -/
def replacesSlot (s : PrefetchEngine) : PrefetchCall → Bool
  | .page task _ =>
    match s.pages[task]? with
    | some pc => pc.replaces s.ctx
    | none => false
  | _ => false

/-- What one call does to the slots, with the one that it takes and the one that it replaces. -/
structure PageCallSpec (s t : PrefetchEngine) (taken replaced : ℕ) : Prop where
  within : PagesWithin s → PagesWithin t
  conserves : PagesWithin s →
    keptSlots t.ctx + inFlight t.pages + taken + replaced = keptSlots s.ctx + inFlight s.pages

theorem PageCallSpec.refl (s : PrefetchEngine) : PageCallSpec s s 0 0 := ⟨id, fun _ => rfl⟩

theorem inFlight_spawn (pages : List PrefetchPc) {spawned : Option PrefetchPc}
    (h : ∀ pc, spawned = some pc → pc.held = none) : inFlight (pages ++ spawned.toList) = inFlight pages := by
  unfold inFlight
  cases spawned with
  | none => simp
  | some pc => simp [h pc rfl]

theorem handle_spec (s : PrefetchEngine) (task : ℕ) : PageCallSpec s (s.step (.handle task)).2 0 0 := by
  simp only [PrefetchEngine.step]
  cases hl : s.handling[task]? with
  | none => exact .refl s
  | some entry =>
    obtain ⟨recommendation, pc⟩ := entry
    have hspawn : ∀ page, (s.handleRecommendation recommendation pc).2 = some page → page.held = none := by
      intro page hpage
      obtain ⟨_, _, _, _, rfl⟩ := s.handleRecommendation_spawns recommendation pc hpage
      rfl
    have hflight := inFlight_spawn s.pages hspawn
    constructor
    · intro h
      refine ⟨h.wellFormed, ?_, ?_⟩
      · intro page hpage slot hslot
        rcases List.mem_append.mp hpage with hpage | hpage
        · exact h.held page hpage slot hslot
        · rw [hspawn page (Option.mem_toList.mp hpage)] at hslot
          cases hslot
      · dsimp only
        rw [hflight]
        exact h.room
    · intro h
      dsimp only
      rw [hflight, Nat.add_zero]

theorem page_spec (s : PrefetchEngine) (task : ℕ) (ok : Bool) :
    PageCallSpec s (s.step (.page task ok)).2 0 (replacesSlot s (.page task ok)).toNat := by
  simp only [PrefetchEngine.step, replacesSlot]
  cases hpc : s.pages[task]? with
  | none => exact .refl s
  | some pc =>
    have hslot := prefetchStep_slotStep s.ctx pc ok
    have hset := sum_map_set_add (fun pc : PrefetchPc => pc.held.toList.length)
      (prefetchStep s.ctx pc ok).1 hpc
    constructor
    · intro h
      obtain ⟨hwf, hn, hheld, hroom⟩ := hslot.pool (h.returnable hpc) h.wellFormed
      have hold := h.room
      refine ⟨hwf, ?_, ?_⟩
      · intro page hpage slot hb
        dsimp only at hpage ⊢
        rw [hn]
        rcases List.mem_or_eq_of_mem_set hpage with hpage | rfl
        · exact h.held page hpage slot hb
        · exact hheld slot hb
      · dsimp only
        unfold inFlight at hold ⊢
        omega
    · intro h
      have hc := hslot.conserves (h.returnable hpc)
      dsimp only
      unfold inFlight
      omega

theorem takePrefetchedSlot_spec (s : PrefetchEngine) (vaddr : UInt64) :
    PageCallSpec s (s.takePrefetchedSlot vaddr).2 (s.takePrefetchedSlot vaddr).1.isSome.toNat 0 := by
  constructor
  · intro h
    exact ⟨h.wellFormed, h.held, h.room⟩
  · intro _
    unfold keptSlots PrefetchEngine.takePrefetchedSlot
    dsimp only
    rw [AList.keys_erase]
    by_cases hm : vaddr ∈ s.ctx.prefetchedPages
    · have hpos := List.length_pos_of_mem (AList.mem_keys.mp hm)
      rw [List.length_erase_of_mem (AList.mem_keys.mp hm), AList.lookup_isSome.mpr hm, Bool.toNat_true]
      omega
    · rw [List.erase_of_not_mem fun h => hm (AList.mem_keys.mpr h), AList.lookup_eq_none.mpr hm,
        Option.isSome_none, Bool.toNat_false, Nat.add_zero]

theorem step_spec (s : PrefetchEngine) (call : PrefetchCall) :
    PageCallSpec s (s.step call).2 (s.step call).1.isSome.toNat (replacesSlot s call).toNat := by
  cases call with
  | recommend recommendation =>
    simp only [PrefetchEngine.step]
    split_ifs
    · exact ⟨fun h => ⟨h.wellFormed, h.held, h.room⟩, fun _ => rfl⟩
    · exact .refl s
  | handle task =>
    have hnone : (s.step (.handle task)).1 = none := by
      simp only [PrefetchEngine.step]
      cases s.handling[task]? <;> rfl
    rw [hnone]
    exact handle_spec s task
  | page task ok =>
    have hnone : (s.step (.page task ok)).1 = none := by
      simp only [PrefetchEngine.step]
      cases s.pages[task]? <;> rfl
    rw [hnone]
    exact page_spec s task ok
  | takePrefetchedSlot vaddr => exact takePrefetchedSlot_spec s vaddr

abbrev PrefetchEvent := Event PrefetchEngine PrefetchCall (Option StagingSlotHandle)

/-- The number of slots that `take_prefetched_slot` has given away. -/
def takenSlots (h : List PrefetchEvent) : ℕ := h.countP fun e => e.answer.isSome

def replacedSlots (h : List PrefetchEvent) : ℕ := h.countP fun e => replacesSlot e.pre e.call

theorem pagesWithin_new {config : PrefetchConfig} {c : FetchContext} (hp : c.stagingPool.WellFormed) :
    PagesWithin (.new config c) :=
  ⟨hp, fun _ h => (by cases h), hp.capacity⟩

/-- Along any interleaving the free, prefetched, taken, replaced slots and those in flight add up. -/
theorem keptSlots_add_replacedSlots (config : PrefetchConfig) {c : FetchContext}
    (hp : c.stagingPool.WellFormed) (calls : List PrefetchCall) :
    let s := exec PrefetchEngine.step (.new config c) calls
    let h := trace PrefetchEngine.step (.new config c) calls
    keptSlots s.ctx + inFlight s.pages + takenSlots h + replacedSlots h = keptSlots c := by
  refine (history_induction
    (P := fun h s => PagesWithin s ∧
      keptSlots s.ctx + inFlight s.pages + takenSlots h + replacedSlots h = keptSlots c)
    ⟨pagesWithin_new hp, rfl⟩ ?_ calls (along_true _ _ _)).2
  intro h s call ⟨hw, hsum⟩ _
  have hspec := step_spec s call
  have hc := hspec.conserves hw
  have hcount : ∀ f : PrefetchEvent → Bool, (h ++ [event PrefetchEngine.step s call]).countP f =
      h.countP f + (f (event PrefetchEngine.step s call)).toNat := by
    intro f
    rw [List.countP_append, List.countP_singleton]
    cases f (event PrefetchEngine.step s call) <;> rfl
  refine ⟨hspec.within hw, ?_⟩
  unfold takenSlots replacedSlots at hsum ⊢
  rw [hcount, hcount]
  dsimp only [event]
  omega

/-- While no page is being prefetched, the free, prefetched and taken slots are those of the start exactly if
no slot has been put in the place of another one. -/
theorem prefetchSlots_conserved_iff (config : PrefetchConfig) (c : FetchContext)
    (hp : c.stagingPool.WellFormed) (calls : List PrefetchCall)
    (hquiet : (exec PrefetchEngine.step (.new config c) calls).Quiet) :
    keptSlots (exec PrefetchEngine.step (.new config c) calls).ctx +
        takenSlots (trace PrefetchEngine.step (.new config c) calls) = keptSlots c ↔
      ∀ e ∈ trace PrefetchEngine.step (.new config c) calls, replacesSlot e.pre e.call = false := by
  have hsum := keptSlots_add_replacedSlots config hp calls
  have hflight : inFlight (exec PrefetchEngine.step (.new config c) calls).pages = 0 := by
    unfold inFlight
    rw [List.sum_eq_zero_iff_forall_eq_nat]
    intro n hn
    obtain ⟨pc, hpc, rfl⟩ := List.mem_map.mp hn
    rw [hquiet pc hpc]
    rfl
  have hreplaced : replacedSlots (trace PrefetchEngine.step (.new config c) calls) = 0 ↔
      ∀ e ∈ trace PrefetchEngine.step (.new config c) calls, replacesSlot e.pre e.call = false := by
    simp [replacedSlots, List.countP_eq_zero]
  dsimp only at hsum
  rw [← hreplaced]
  omega

/-- One recommendation of the remote page, up to the spawn of its page task. -/
private def spawnPage (task : ℕ) : List PrefetchCall :=
  .recommend ⟨7, 0x1000, 4096, 1⟩ :: List.replicate 5 (.handle task)

private def fetchPage (task : ℕ) : List PrefetchCall := List.replicate 4 (.page task true)

/-- A page that is prefetched once and taken. -/
theorem prefetchSlots_conserved_iff_taken :
    (∀ e ∈ trace PrefetchEngine.step (.new {} remotePage)
        (spawnPage 0 ++ fetchPage 0 ++ [.takePrefetchedSlot 0x1000]), replacesSlot e.pre e.call = false) ∧
      keptSlots (exec PrefetchEngine.step (.new {} remotePage)
          (spawnPage 0 ++ fetchPage 0 ++ [.takePrefetchedSlot 0x1000])).ctx +
        takenSlots (trace PrefetchEngine.step (.new {} remotePage)
          (spawnPage 0 ++ fetchPage 0 ++ [.takePrefetchedSlot 0x1000])) = keptSlots remotePage := by
  have hkeeps : ∀ e ∈ trace PrefetchEngine.step (.new {} remotePage)
      (spawnPage 0 ++ fetchPage 0 ++ [.takePrefetchedSlot 0x1000]), replacesSlot e.pre e.call = false := by
    decide +kernel
  refine ⟨hkeeps, (prefetchSlots_conserved_iff {} remotePage remotePage_wellFormed _ ?_).mpr hkeeps⟩
  intro pc hpc
  exact List.mem_singleton.mp hpc

/-- Two recommendations of one page that are both checked before either is prefetched lose a slot. -/
theorem prefetchSlots_lost_to_race :
    ¬ ∀ (config : PrefetchConfig) (c : FetchContext) (calls : List PrefetchCall),
      c.stagingPool.WellFormed → (exec PrefetchEngine.step (.new config c) calls).Quiet →
        keptSlots (exec PrefetchEngine.step (.new config c) calls).ctx +
          takenSlots (trace PrefetchEngine.step (.new config c) calls) = keptSlots c := by
  intro h
  have hwf : StagingMemoryPool.WellFormed ⟨0x700000, 4096, 2, [0, 1], 0⟩ := by constructor <;> decide
  have hkept : 1 = 2 := h {} { remotePage with stagingPool := ⟨0x700000, 4096, 2, [0, 1], 0⟩ }
    (spawnPage 0 ++ spawnPage 1 ++ fetchPage 0 ++ fetchPage 1) hwf (by
      intro pc hpc
      rcases List.mem_cons.mp hpc with hpc | hpc
      · exact hpc
      · exact List.mem_singleton.mp hpc)
  exact absurd hkept (by decide)

end Virthub.Klnk.Daemon
