import Virthub.Klnk.Daemon.Tasks
import Virthub.Lib.TaskSum

/-! Where the staging slots go while page faults are handled. A slot is free, holds a prefetched
page, or is in the hands of a fault; a fault gives it back in one case only, when the move out of
a slot that it has popped fails. In every other case that ends its use the slot is lost. -/
namespace Virthub.Klnk.Daemon
open Virthub.Store Virthub.Lib Virthub.Klnk.Uffd

/-- The slot that a fault has popped and may still give back. -/
def borrowed : FaultPc → Option StagingSlotHandle
  | .rdmaRead _ _ slot _ | .awaitRead _ _ slot | .moveSlot _ _ slot | .moveLocalSlot _ slot
  | .pushSlot slot => some slot
  | _ => none

/-- The next step of a fault loses a slot: it takes a prefetched one, the read into a popped one
fails, or the move out of a popped one succeeds. -/
def losesSlot (c : FetchContext) (pc : FaultPc) (ok : Bool) : Bool :=
  match pc with
  | .takePrefetched vaddr _ => c.prefetchAttached && (c.prefetchedPages.lookup vaddr).isSome
  | .awaitRead .. => !ok
  | .moveSlot .. | .moveLocalSlot .. => ok
  | _ => false

/-- What one step of a fault can do to the slots: the slot it holds before and after, and whether
one is lost. -/
inductive SlotStep (c c' : FetchContext) :
    Option StagingSlotHandle → Option StagingSlotHandle → Bool → Prop
  | keep (held : Option StagingSlotHandle) (hpool : c'.stagingPool = c.stagingPool)
      (hpages : c'.prefetchedPages = c.prefetchedPages) : SlotStep c c' held held false
  | pop (slot : StagingSlotHandle) (hpool : c.stagingPool.popSlot = (.ok slot, c'.stagingPool))
      (hpages : c'.prefetchedPages = c.prefetchedPages) : SlotStep c c' none (some slot) false
  | push (slot : StagingSlotHandle)
      (hpool : c'.stagingPool = (c.stagingPool.pushSlot slot.slotIdx).2)
      (hpages : c'.prefetchedPages = c.prefetchedPages) : SlotStep c c' (some slot) none false
  | drop (slot : StagingSlotHandle) (hpool : c'.stagingPool = c.stagingPool)
      (hpages : c'.prefetchedPages = c.prefetchedPages) : SlotStep c c' (some slot) none true
  | take (vaddr : UInt64) (hmem : vaddr ∈ c.prefetchedPages)
      (hpool : c'.stagingPool = c.stagingPool)
      (hpages : c'.prefetchedPages = c.prefetchedPages.erase vaddr) : SlotStep c c' none none true

theorem slotStep_takePrefetched (c : FetchContext) (vaddr : UInt64) (owner : NodeId) (ok : Bool) :
    SlotStep c (faultStep c (.takePrefetched vaddr owner) ok).2 none
      (borrowed (faultStep c (.takePrefetched vaddr owner) ok).1)
      (losesSlot c (.takePrefetched vaddr owner) ok) := by
  obtain ⟨cp, pool, pages, attached⟩ := c
  simp only [faultStep, losesSlot]
  cases attached with
  | false => exact .keep none rfl rfl
  | true =>
    cases hl : pages.lookup vaddr with
    | none => exact .keep none rfl rfl
    | some slot => exact .take vaddr (AList.lookup_isSome.mp (by simp [hl])) rfl rfl

theorem faultStep_slotStep (c : FetchContext) (pc : FaultPc) (ok : Bool) :
    SlotStep c (faultStep c pc ok).2 (borrowed pc) (borrowed (faultStep c pc ok).1)
      (losesSlot c pc ok) := by
  cases pc with
  | lookup vaddr =>
    have hnone : borrowed (dispatchFault c vaddr) = none :=
      dispatchFault_cases (P := fun pc => borrowed pc = none) c vaddr (fun _ => rfl) (fun _ => rfl) rfl rfl
    simp only [faultStep, hnone]
    exact .keep none rfl rfl
  | takePrefetched vaddr owner => exact slotStep_takePrefetched c vaddr owner ok
  | getRemoteNode vaddr owner =>
    simp only [faultStep]
    cases c.controlPlane.getRemoteNode owner <;> exact .keep none rfl rfl
  | popSlot vaddr owner remote =>
    simp only [faultStep]
    split
    case h_1 => exact .keep none rfl rfl
    case h_2 slot pool hp => exact .pop slot hp rfl
  | popLocalSlot vaddr =>
    simp only [faultStep]
    split
    case h_1 => exact .keep none rfl rfl
    case h_2 slot pool hp => exact .pop slot hp rfl
  | awaitRead vaddr owner slot =>
    cases ok with
    | true => exact .keep (some slot) rfl rfl
    | false => exact .drop slot rfl rfl
  | moveSlot vaddr owner slot =>
    cases ok with
    | true => exact .drop slot rfl rfl
    | false => exact .keep (some slot) rfl rfl
  | moveLocalSlot vaddr slot =>
    cases ok with
    | true => exact .drop slot rfl rfl
    | false => exact .keep (some slot) rfl rfl
  | pushSlot slot => exact .push slot rfl rfl
  | movePrefetched vaddr owner slot => cases ok <;> exact .keep none rfl rfl
  | zeropage vaddr => cases ok <;> exact .keep none rfl rfl
  | rdmaRead vaddr owner slot request => exact .keep (some slot) rfl rfl
  | _ => exact .keep none rfl rfl

def keptSlots (c : FetchContext) : ℕ :=
  c.stagingPool.availableSlots + c.prefetchedPages.keys.length

/-- A slot that a fault holds belongs to the pool, and the queue has room for it. -/
structure Returnable (pool : StagingMemoryPool) (held : Option StagingSlotHandle) : Prop where
  valid : ∀ slot, held = some slot → slot.slotIdx < pool.numSlots
  room : ∀ slot, held = some slot → pool.availableSlots < pool.numSlots

/-- One step keeps the sum of the kept slots, the held one and the lost one. -/
theorem SlotStep.conserves {c c' : FetchContext} {held held' : Option StagingSlotHandle}
    {lost : Bool} (h : SlotStep c c' held held' lost) (hr : Returnable c.stagingPool held) :
    keptSlots c' + held'.toList.length + lost.toNat = keptSlots c + held.toList.length := by
  unfold keptSlots
  cases h with
  | keep held hpool hpages => simp [hpool, hpages]
  | pop slot hpool hpages =>
    obtain ⟨hf, -⟩ := StagingMemoryPool.popSlot_spec hpool
    simp only [StagingMemoryPool.availableSlots, hf, hpages, List.length_cons, Option.toList_some,
      Option.toList_none, List.length_nil, Bool.toNat_false]
    omega
  | push slot hpool hpages =>
    obtain ⟨hf, -⟩ := StagingMemoryPool.pushSlot_spec (hr.valid slot rfl) (hr.room slot rfl)
    simp only [StagingMemoryPool.availableSlots, hpool, hf, hpages, List.length_append,
      List.length_singleton, Option.toList_some, Option.toList_none, List.length_nil,
      Bool.toNat_false]
    omega
  | drop slot hpool hpages => simp [hpool, hpages]
  | take vaddr hmem hpool hpages =>
    have hlen := List.length_erase_of_mem (AList.mem_keys.mp hmem)
    have hpos := List.length_pos_of_mem (AList.mem_keys.mp hmem)
    simp only [hpool, hpages, AList.keys_erase, hlen, Option.toList_none, List.length_nil,
      Bool.toNat_true]
    omega

def Task.borrowed : Task → Option StagingSlotHandle
  | .fault pc => Daemon.borrowed pc
  | _ => none

def heldSlots (tasks : List Task) : ℕ := (tasks.map fun t => t.borrowed.toList.length).sum

theorem heldSlots_set {tasks : List Task} {i : ℕ} {t : Task} (t' : Task) (ht : tasks[i]? = some t) :
    heldSlots (tasks.set i t') + t.borrowed.toList.length =
      heldSlots tasks + t'.borrowed.toList.length :=
  sum_map_set_add (fun t : Task => t.borrowed.toList.length) t' ht

theorem one_le_heldSlots {tasks : List Task} {i : ℕ} {t : Task} {slot : StagingSlotHandle}
    (ht : tasks[i]? = some t) (hb : t.borrowed = some slot) : 1 ≤ heldSlots tasks := by
  have hle := le_sum_map (fun t : Task => t.borrowed.toList.length) ht
  rwa [hb] at hle

/-- The invariant of a run of faults: every slot that is free or held is one of the pool, and
there are no more of them than the pool has. -/
structure SlotsWithin (s : FetchState) : Prop where
  faults : ∀ t ∈ s.tasks, ∃ pc, t = .fault pc
  free : ∀ i ∈ s.ctx.stagingPool.freeSlots, i < s.ctx.stagingPool.numSlots
  held : ∀ t ∈ s.tasks, ∀ slot, t.borrowed = some slot →
    slot.slotIdx < s.ctx.stagingPool.numSlots
  room : s.ctx.stagingPool.availableSlots + heldSlots s.tasks ≤ s.ctx.stagingPool.numSlots

theorem SlotsWithin.returnable {s : FetchState} (h : SlotsWithin s) {i : ℕ} {t : Task}
    (ht : s.tasks[i]? = some t) : Returnable s.ctx.stagingPool t.borrowed := by
  constructor
  · intro slot hb
    exact h.held t (List.mem_of_getElem? ht) slot hb
  · intro slot hb
    have hone := one_le_heldSlots ht hb
    have hroom := h.room
    omega

theorem SlotStep.pool {c c' : FetchContext} {held held' : Option StagingSlotHandle} {lost : Bool}
    (h : SlotStep c c' held held' lost) (hr : Returnable c.stagingPool held)
    (hfree : ∀ i ∈ c.stagingPool.freeSlots, i < c.stagingPool.numSlots) :
    c'.stagingPool.numSlots = c.stagingPool.numSlots ∧
      (∀ i ∈ c'.stagingPool.freeSlots, i < c.stagingPool.numSlots) ∧
      (∀ slot, held' = some slot → slot.slotIdx < c.stagingPool.numSlots) ∧
      c'.stagingPool.availableSlots + held'.toList.length ≤
        c.stagingPool.availableSlots + held.toList.length := by
  unfold StagingMemoryPool.availableSlots
  cases h with
  | keep held hpool hpages =>
    rw [hpool]
    exact ⟨rfl, hfree, hr.valid, le_rfl⟩
  | pop slot hpool hpages =>
    obtain ⟨hf, hn⟩ := StagingMemoryPool.popSlot_spec hpool
    rw [hf] at hfree
    refine ⟨hn, fun i hi => hfree i (List.mem_cons_of_mem _ hi), ?_, by simp [hf]⟩
    intro slot' hs
    rw [← Option.some.inj hs]
    exact hfree slot.slotIdx List.mem_cons_self
  | push slot hpool hpages =>
    obtain ⟨hf, hn⟩ := StagingMemoryPool.pushSlot_spec (hr.valid slot rfl) (hr.room slot rfl)
    rw [hpool]
    refine ⟨hn, ?_, by simp, by simp [hf]⟩
    intro i hi
    rw [hf, List.mem_append, List.mem_singleton] at hi
    rcases hi with hi | rfl
    · exact hfree i hi
    · exact hr.valid slot rfl
  | drop slot hpool hpages =>
    rw [hpool]
    exact ⟨rfl, hfree, by simp, by simp⟩
  | take vaddr hmem hpool hpages =>
    rw [hpool]
    exact ⟨rfl, hfree, by simp, le_rfl⟩

def turnLoses (s : FetchState) (a : Turn) : Bool :=
  match s.tasks[a.task]? with
  | some (.fault pc) => losesSlot s.ctx pc a.ok
  | _ => false

theorem turn_slotStep {s : FetchState} {a : Turn} {pc : FaultPc}
    (ht : s.tasks[a.task]? = some (.fault pc)) :
    SlotStep s.ctx (turnStep s a).2.ctx (borrowed pc) (borrowed (faultStep s.ctx pc a.ok).1)
      (turnLoses s a) := by
  rw [turnStep_some ht, turnLoses, ht]
  exact faultStep_slotStep s.ctx pc a.ok

theorem SlotsWithin.turn {s : FetchState} (h : SlotsWithin s) (a : Turn) :
    SlotsWithin (turnStep s a).2 := by
  cases ht : s.tasks[a.task]? with
  | none =>
    rw [turnStep_none ht]
    exact h
  | some t =>
    obtain ⟨pc, rfl⟩ := h.faults t (List.mem_of_getElem? ht)
    have hs := turn_slotStep ht
    obtain ⟨hn, hfree, hheld, hroom⟩ := hs.pool (h.returnable ht) h.free
    have hset := heldSlots_set (.fault (faultStep s.ctx pc a.ok).1) ht
    have hold := h.room
    have htasks : (turnStep s a).2.tasks =
        s.tasks.set a.task (.fault (faultStep s.ctx pc a.ok).1) := by
      rw [turnStep_some ht]
      rfl
    constructor
    · intro u hu
      rw [htasks] at hu
      rcases List.mem_or_eq_of_mem_set hu with hu | rfl
      · exact h.faults u hu
      · exact ⟨_, rfl⟩
    · rw [hn]
      exact hfree
    · intro u hu slot hb
      rw [htasks] at hu
      rw [hn]
      rcases List.mem_or_eq_of_mem_set hu with hu | rfl
      · exact h.held u hu slot hb
      · exact hheld slot hb
    · rw [htasks, hn]
      simp only [Task.borrowed] at hset
      omega

theorem SlotsWithin.conserves {s : FetchState} (h : SlotsWithin s) (a : Turn) :
    keptSlots (turnStep s a).2.ctx + heldSlots (turnStep s a).2.tasks + (turnLoses s a).toNat =
      keptSlots s.ctx + heldSlots s.tasks := by
  cases ht : s.tasks[a.task]? with
  | none => simp [turnStep_none ht, turnLoses, ht]
  | some t =>
    obtain ⟨pc, rfl⟩ := h.faults t (List.mem_of_getElem? ht)
    have hc := (turn_slotStep ht).conserves (h.returnable ht)
    have hset := heldSlots_set (.fault (faultStep s.ctx pc a.ok).1) ht
    have htasks : (turnStep s a).2.tasks =
        s.tasks.set a.task (.fault (faultStep s.ctx pc a.ok).1) := by
      rw [turnStep_some ht]
      rfl
    simp only [Task.borrowed] at hset
    rw [htasks]
    omega

def pendingFaults (c : FetchContext) (faults : List UInt64) : FetchState :=
  ⟨c, faults.map fun vaddr => .fault (.lookup vaddr)⟩

def AllHandled (s : FetchState) : Prop := ∀ t ∈ s.tasks, ∃ result, t = .fault (.finished result)

theorem heldSlots_eq_zero {tasks : List Task} (h : ∀ t ∈ tasks, t.borrowed = none) :
    heldSlots tasks = 0 := by
  unfold heldSlots
  rw [List.sum_eq_zero_iff_forall_eq_nat]
  intro n hn
  obtain ⟨t, ht, rfl⟩ := List.mem_map.mp hn
  rw [h t ht]
  rfl

theorem borrowed_of_mem_pendingFaults {c : FetchContext} {faults : List UInt64} :
    ∀ t ∈ (pendingFaults c faults).tasks, t.borrowed = none := by
  intro t ht
  obtain ⟨vaddr, -, rfl⟩ := List.mem_map.mp ht
  rfl

theorem slotsWithin_pendingFaults {c : FetchContext} (hp : c.stagingPool.WellFormed)
    (faults : List UInt64) : SlotsWithin (pendingFaults c faults) := by
  constructor
  · intro t ht
    obtain ⟨vaddr, -, rfl⟩ := List.mem_map.mp ht
    exact ⟨_, rfl⟩
  · exact hp.valid
  · intro t ht slot hb
    rw [borrowed_of_mem_pendingFaults t ht] at hb
    cases hb
  · rw [heldSlots_eq_zero borrowed_of_mem_pendingFaults]
    exact hp.capacity

def lostSlots (h : List TurnEvent) : ℕ := h.countP fun e => turnLoses e.pre e.call

/-- Along any interleaving of faults the free, prefetched, held and lost slots add up. -/
theorem keptSlots_add_lostSlots {c : FetchContext} (hp : c.stagingPool.WellFormed)
    (faults : List UInt64) (turns : List Turn) :
    let s := exec turnStep (pendingFaults c faults) turns
    keptSlots s.ctx + heldSlots s.tasks +
      lostSlots (trace turnStep (pendingFaults c faults) turns) = keptSlots c := by
  refine (history_induction
    (P := fun h s => SlotsWithin s ∧ keptSlots s.ctx + heldSlots s.tasks + lostSlots h = keptSlots c)
    ⟨slotsWithin_pendingFaults hp faults, ?_⟩ ?_ turns (along_true _ _ _)).2
  · rw [heldSlots_eq_zero borrowed_of_mem_pendingFaults]
    rfl
  · intro h s a ⟨hw, hsum⟩ _
    have hc := hw.conserves a
    have hl : lostSlots (h ++ [event turnStep s a]) = lostSlots h + (turnLoses s a).toNat := by
      unfold lostSlots
      rw [List.countP_append, List.countP_singleton]
      cases hb : turnLoses s a <;> simp [event, hb]
    refine ⟨hw.turn a, ?_⟩
    omega

/-- Handled faults conserve the staging slots exactly if none of their steps loses one. -/
theorem keptSlots_handled_iff (c : FetchContext) (hp : c.stagingPool.WellFormed)
    (faults : List UInt64) (turns : List Turn)
    (hall : AllHandled (exec turnStep (pendingFaults c faults) turns)) :
    keptSlots (exec turnStep (pendingFaults c faults) turns).ctx = keptSlots c ↔
      ∀ e ∈ trace turnStep (pendingFaults c faults) turns, turnLoses e.pre e.call = false := by
  have hsum := keptSlots_add_lostSlots hp faults turns
  have hheld : heldSlots (exec turnStep (pendingFaults c faults) turns).tasks = 0 := by
    apply heldSlots_eq_zero
    intro t ht
    obtain ⟨result, rfl⟩ := hall t ht
    rfl
  dsimp only at hsum
  rw [hheld, Nat.add_zero] at hsum
  have hlost : lostSlots (trace turnStep (pendingFaults c faults) turns) = 0 ↔
      ∀ e ∈ trace turnStep (pendingFaults c faults) turns, turnLoses e.pre e.call = false := by
    simp [lostSlots, List.countP_eq_zero]
  rw [← hlost]
  omega

/-- A fault on the remote page whose read succeeds and whose move fails. -/
private def failedMove : List Turn :=
  [⟨0, true⟩, ⟨0, true⟩, ⟨0, true⟩, ⟨0, true⟩, ⟨0, true⟩, ⟨0, true⟩, ⟨0, true⟩, ⟨0, false⟩,
    ⟨0, true⟩]

theorem remotePage_wellFormed : remotePage.stagingPool.WellFormed := by
  constructor <;> decide

/-- A failed move gives the slot back. -/
theorem keptSlots_handled_iff_failedMove :
    (∀ e ∈ trace turnStep (pendingFaults remotePage [0x1000]) failedMove,
      turnLoses e.pre e.call = false) ∧
    keptSlots (exec turnStep (pendingFaults remotePage [0x1000]) failedMove).ctx =
      keptSlots remotePage := by
  have hkeeps : ∀ e ∈ trace turnStep (pendingFaults remotePage [0x1000]) failedMove,
      turnLoses e.pre e.call = false := by decide +kernel
  refine ⟨hkeeps, (keptSlots_handled_iff remotePage remotePage_wellFormed [0x1000] failedMove ?_).mpr
    hkeeps⟩
  intro t ht
  exact ⟨.error .faultResolutionFailed, List.mem_singleton.mp ht⟩

/-- One remote fault that succeeds takes the only slot of the pool for good. -/
theorem keptSlots_fails_on_success :
    ¬ ∀ (c : FetchContext) (faults : List UInt64) (turns : List Turn),
      c.stagingPool.WellFormed → AllHandled (exec turnStep (pendingFaults c faults) turns) →
        keptSlots (exec turnStep (pendingFaults c faults) turns).ctx = keptSlots c := by
  intro h
  have hall : AllHandled (exec turnStep (pendingFaults remotePage [0x1000])
      (List.replicate 10 ⟨0, true⟩)) := by
    intro t ht
    exact ⟨.ok (), List.mem_singleton.mp ht⟩
  have hkept : 0 = 1 := h remotePage [0x1000] (List.replicate 10 ⟨0, true⟩) remotePage_wellFormed hall
  exact absurd hkept (by decide)

end Virthub.Klnk.Daemon
