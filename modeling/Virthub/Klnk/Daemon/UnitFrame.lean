import Virthub.Klnk.Daemon.SlotHolders
import Virthub.Klnk.Uffd.UnitLookup

/-! The memory that page faults write. A fault moves a whole staging slot to its address, whatever the size
of the unit that is registered there, so it stays within the unit exactly where the slots of the pool are no
larger. -/
namespace Virthub.Klnk.Daemon
open Virthub.Store Virthub.Lib Virthub.Klnk.Uffd

structure UffdMove where
  dst : UInt64
  src : UInt64
  len : UInt64
  deriving DecidableEq, Repr

def UffdMove.Writes (m : UffdMove) (i : ℕ) : Prop :=
  m.dst.toNat ≤ i ∧ i < m.dst.toNat + m.len.toNat

theorem UffdMove.writes_below_iff (m : UffdMove) (size : UInt64) :
    (∀ i, m.Writes i → i < m.dst.toNat + size.toNat) ↔ m.len ≤ size := by
  rw [UInt64.le_iff_toNat_le]
  constructor
  · intro h
    -- the first byte behind the unit is a byte of any longer move
    by_contra hlt
    have hbehind := h (m.dst.toNat + size.toNat) ⟨by omega, by omega⟩
    omega
  · intro hle i hi
    have hlt := hi.2
    omega

def Task.move : Task → Option UffdMove
  | .fault (.movePrefetched vaddr _ slot) => some ⟨vaddr, slot.vaddr, slot.size⟩
  | .fault (.moveSlot vaddr _ slot) => some ⟨vaddr, slot.vaddr, slot.size⟩
  | .fault (.moveLocalSlot vaddr slot) => some ⟨vaddr, slot.vaddr, slot.size⟩
  | _ => none

theorem Task.slot_of_move {t : Task} {m : UffdMove} (h : t.move = some m) :
    ∃ slot, t.slot = some slot ∧ m.len = slot.size := by
  cases t with
  | fault pc =>
    cases pc with
    | movePrefetched vaddr owner slot =>
      cases h
      exact ⟨slot, rfl, rfl⟩
    | moveSlot vaddr owner slot =>
      cases h
      exact ⟨slot, rfl, rfl⟩
    | moveLocalSlot vaddr slot =>
      cases h
      exact ⟨slot, rfl, rfl⟩
    | _ => cases h
  | poller pc => cases h
  | prefetch pc => cases h

/-- The event is this move, and it succeeds. -/
def Installs (m : UffdMove) (e : TurnEvent) : Prop :=
  e.call.ok = true ∧ Ran (fun t => t.move = some m) e

/-- What the event installs lies in the unit that is registered under its address. -/
def StaysInUnit (e : TurnEvent) : Prop :=
  ∀ m, Installs m e → ∀ entry, e.pre.ctx.controlPlane.lookupPageState m.dst = some entry →
    ∀ i, m.Writes i → i < m.dst.toNat + entry.pageSize.toNat

/-- No step of a task changes base or size of a unit. -/
theorem Task.step_unitAt (c : FetchContext) (t : Task) (ok : Bool) (a : UInt64) :
    (t.step c ok).2.controlPlane.unitAt a = c.controlPlane.unitAt a := by
  obtain ⟨pool, hctx⟩ := t.step_context c ok
  rw [hctx]
  cases t with
  | fault pc =>
    cases pc with
    | markInFlight v owner => exact ControlPlaneManager.unitAt_updatePageState _ v a _ _
    | markShared v owner => exact ControlPlaneManager.unitAt_updatePageState _ v a _ _
    | markZeroShared v => exact ControlPlaneManager.unitAt_updatePageState _ v a _ _
    | addReader v => exact ControlPlaneManager.unitAt_addReader _ v a _
    | _ => rfl
  | poller pc =>
    cases pc with
    | markInvalid v owner => exact ControlPlaneManager.unitAt_updatePageState _ v a _ _
    | removeReader v => exact ControlPlaneManager.unitAt_removeReader _ v a _
    | _ => rfl
  | prefetch pc => rfl

theorem unitAt_turn (s : FetchState) (turn : Turn) (a : UInt64) :
    (turnStep s turn).2.ctx.controlPlane.unitAt a = s.ctx.controlPlane.unitAt a := by
  cases ht : s.tasks[turn.task]? with
  | none => rw [turnStep_none ht]
  | some t =>
    rw [turnStep_some ht]
    exact t.step_unitAt s.ctx turn.ok a

theorem pageSize_of_unitAt {cp cp' : ControlPlaneManager} {a : UInt64} {entry : DistributedPageEntry}
    (h : cp'.unitAt a = cp.unitAt a) (hentry : cp'.lookupPageState a = some entry) :
    ∃ entry', cp.lookupPageState a = some entry' ∧ entry'.pageSize = entry.pageSize := by
  rw [ControlPlaneManager.unitAt, hentry, Option.map_some] at h
  obtain ⟨entry', hlookup, hunit⟩ := Option.map_eq_some_iff.mp h.symm
  exact ⟨entry', hlookup, congrArg Prod.snd hunit⟩

theorem Installs.len {s : FetchState} {a : Turn} {m : UffdMove} {size : UInt64} (hs : SlotSize size s)
    (h : Installs m (event turnStep s a)) : m.len = size := by
  obtain ⟨-, t, ht, hmove⟩ := h
  obtain ⟨slot, hslot, hlen⟩ := Task.slot_of_move hmove
  rw [hlen]
  exact hs.tasks t (List.mem_of_getElem? ht) slot hslot

/-- Whatever tasks run and however their calls are interleaved, what the faults install stays in their units
exactly if no slot is moved to a unit that is smaller than the slots of the pool. -/
theorem staysInUnit_iff (s : FetchState) (turns : List Turn)
    (hs : SlotSize s.ctx.stagingPool.slotPageSize s) :
    (∀ e ∈ trace turnStep s turns, StaysInUnit e) ↔
      ∀ e ∈ trace turnStep s turns, ∀ m, Installs m e →
        ∀ entry, s.ctx.controlPlane.lookupPageState m.dst = some entry →
          s.ctx.stagingPool.slotPageSize ≤ entry.pageSize := by
  rw [forall_mem_trace_iff_along, forall_mem_trace_iff_along]
  apply along_iff_along (I := fun _ t => SlotSize s.ctx.stagingPool.slotPageSize t ∧
    ∀ a, t.ctx.controlPlane.unitAt a = s.ctx.controlPlane.unitAt a) ⟨hs, fun _ => rfl⟩
  · intro h t a hinv _
    obtain ⟨hsize, hunit⟩ := hinv
    exact ⟨hsize.turn a, fun b => (unitAt_turn t a b).trans (hunit b)⟩
  · intro h t a hinv
    obtain ⟨hsize, hunit⟩ := hinv
    constructor
    · intro hstays m hm entry hentry
      obtain ⟨entry', hentry', hpage⟩ := pageSize_of_unitAt (hunit m.dst).symm hentry
      have hle := (m.writes_below_iff entry'.pageSize).mp (hstays m hm entry' hentry')
      rwa [hm.len hsize, hpage] at hle
    · intro hfits m hm entry hentry
      obtain ⟨entry', hentry', hpage⟩ := pageSize_of_unitAt (hunit m.dst) hentry
      have hle := hfits m hm entry' hentry'
      apply (m.writes_below_iff entry.pageSize).mpr
      rwa [hm.len hsize, ← hpage]

theorem staysInUnit_remotePage :
    SlotSize 4096 ⟨remotePage, [.fault (.lookup 0x1000)]⟩ ∧
      ∀ e ∈ trace turnStep ⟨remotePage, [.fault (.lookup 0x1000)]⟩ (List.replicate 10 ⟨0, true⟩),
        StaysInUnit e := by
  have hsize := slotSize_of_fresh (s := ⟨remotePage, [.fault (.lookup 0x1000)]⟩) rfl
    (by simp [Task.slot, borrowed])
  refine ⟨hsize, (staysInUnit_iff ⟨remotePage, _⟩ _ hsize).mpr ?_⟩
  intro e _ m _ entry hentry
  rcases lookup_insert_eq_some_iff.mp hentry with ⟨-, rfl⟩ | ⟨-, h⟩
  · exact UInt64.le_refl 4096
  · simp at h

/-- A page of node 2 in units of 4096 bytes, and a pool as the daemon makes it, with slots of 2 MiB. -/
def hugeSlot : FetchContext :=
  { remotePage with stagingPool := ⟨0x40000000, 0x200000, 1, [0], 0⟩ }

/-- The fault returns `Ok`, and its move has also written the unit behind its own. -/
theorem hugeSlot_overwrites_neighbour :
    (exec turnStep ⟨hugeSlot, [.fault (.lookup 0x1000)]⟩ (List.replicate 10 ⟨0, true⟩)).tasks =
        [.fault (.finished (.ok ()))] ∧
      ¬ ∀ e ∈ trace turnStep ⟨hugeSlot, [.fault (.lookup 0x1000)]⟩ (List.replicate 10 ⟨0, true⟩),
        StaysInUnit e := by
  refine ⟨rfl, fun h => ?_⟩
  have hmem := event_mem_trace turnStep ⟨hugeSlot, [.fault (.lookup 0x1000)]⟩
    (List.replicate 7 ⟨0, true⟩) ⟨0, true⟩ (List.replicate 2 ⟨0, true⟩)
  have hmove : Installs ⟨0x1000, 0x40000000, 0x200000⟩ (event turnStep
      (exec turnStep ⟨hugeSlot, [.fault (.lookup 0x1000)]⟩ (List.replicate 7 ⟨0, true⟩)) ⟨0, true⟩) :=
    ⟨rfl, _, rfl, rfl⟩
  have hbehind := h _ hmem _ hmove _ rfl 0x2000 ⟨by decide, by decide⟩
  exact absurd hbehind (by decide)

end Virthub.Klnk.Daemon
