import Virthub.Klnk.Uffd.Handler
import Virthub.Lib.Trace

/-! The invalidation poller and the prefetch engine as tasks beside the page faults, and any
interleaving of such tasks. A task that starts late is one that is first scheduled late. -/
namespace Virthub.Klnk.Daemon
open Virthub.Store Virthub.Lib Virthub.Klnk.Uffd

/-- Where the poller's callback for one ring entry stands. -/
inductive PollerPc where
  | lookup (vaddr : UInt64)
  | markInvalid (vaddr : UInt64) (owner : NodeId)
  | removeReader (vaddr : UInt64)
  | finished (accepted : Bool)

def pollerStep (c : FetchContext) (pc : PollerPc) : PollerPc × FetchContext :=
  let localNode := c.controlPlane.localNodeId
  match pc with
  | .lookup vaddr =>
    match c.controlPlane.lookupPageState vaddr with
    | none => (.finished false, c)
    | some entry =>
      (if entry.primaryOwner ≠ localNode then .markInvalid vaddr entry.primaryOwner
        else .finished false, c)
  | .markInvalid vaddr owner =>
    (.removeReader vaddr, { c with
      controlPlane := (c.controlPlane.updatePageState vaddr .invalid owner).2 })
  | .removeReader vaddr =>
    (.finished true, { c with
      controlPlane := (c.controlPlane.removeReader vaddr localNode).2 })
  | .finished accepted => (.finished accepted, c)

/-- Where a call of `prefetch_one_page` stands. -/
inductive PrefetchPc where
  | popSlot (vaddr pageSize : UInt64) (peerAddr : SocketAddr) (remoteRkey : UInt32)
  | rdmaRead (vaddr : UInt64) (slot : StagingSlotHandle) (request : ReadRequest)
  | awaitRead (vaddr : UInt64) (slot : StagingSlotHandle)
  | insert (vaddr : UInt64) (slot : StagingSlotHandle)
  | pushSlot (slot : StagingSlotHandle)
  | finished

def prefetchStep (c : FetchContext) (pc : PrefetchPc) (ok : Bool) : PrefetchPc × FetchContext :=
  match pc with
  | .popSlot vaddr pageSize peerAddr remoteRkey =>
    match c.stagingPool.popSlot with
    | (.error _, _) => (.finished, c)
    | (.ok slot, pool) =>
      (.rdmaRead vaddr slot ⟨peerAddr, vaddr, remoteRkey, slot.vaddr, min slot.size pageSize⟩,
        { c with stagingPool := pool })
  | .rdmaRead vaddr slot _ => (.awaitRead vaddr slot, c)
  | .awaitRead vaddr slot => (if ok then .insert vaddr slot else .pushSlot slot, c)
  | .insert vaddr slot =>
    (.finished, { c with prefetchedPages := c.prefetchedPages.insert vaddr slot })
  | .pushSlot slot =>
    (.finished, { c with stagingPool := (c.stagingPool.pushSlot slot.slotIdx).2 })
  | .finished => (.finished, c)

inductive Task where
  | fault (pc : FaultPc)
  | poller (pc : PollerPc)
  | prefetch (pc : PrefetchPc)

def Task.step (c : FetchContext) (t : Task) (ok : Bool) : Task × FetchContext :=
  match t with
  | .fault pc => Prod.map .fault id (faultStep c pc ok)
  | .poller pc => Prod.map .poller id (pollerStep c pc)
  | .prefetch pc => Prod.map .prefetch id (prefetchStep c pc ok)

/-- The control plane after the next call of a task. -/
def Task.controlPlane (t : Task) (cp : ControlPlaneManager) : ControlPlaneManager :=
  match t with
  | .fault (.markInFlight v owner) => (cp.updatePageState v .inFlight owner).2
  | .fault (.markShared v owner) => (cp.updatePageState v .sharedRead owner).2
  | .fault (.addReader v) => (cp.addReader v cp.localNodeId).2
  | .fault (.markZeroShared v) => (cp.updatePageState v .sharedRead cp.localNodeId).2
  | .poller (.markInvalid v owner) => (cp.updatePageState v .invalid owner).2
  | .poller (.removeReader v) => (cp.removeReader v cp.localNodeId).2
  | _ => cp

/-- The prefetched map after the next call of a task. -/
def Task.prefetchedPages (t : Task) (c : FetchContext) : AList fun _ : UInt64 => StagingSlotHandle :=
  match t with
  | .fault (.takePrefetched v _) =>
    match c.prefetchAttached, c.prefetchedPages.lookup v with
    | true, some _ => c.prefetchedPages.erase v
    | _, _ => c.prefetchedPages
  | .prefetch (.insert v slot) => c.prefetchedPages.insert v slot
  | _ => c.prefetchedPages

/-- What a step does to the shared context, up to the staging pool. -/
theorem Task.step_context (c : FetchContext) (t : Task) (ok : Bool) :
    ∃ pool, (t.step c ok).2 =
      ⟨t.controlPlane c.controlPlane, pool, t.prefetchedPages c, c.prefetchAttached⟩ := by
  cases t with
  | fault pc =>
    cases pc with
    | takePrefetched v o =>
      obtain ⟨cp, pool, pages, attached⟩ := c
      refine ⟨pool, ?_⟩
      simp only [Task.step, faultStep, Task.prefetchedPages]
      cases attached <;> cases pages.lookup v <;> rfl
    | getRemoteNode v o =>
      simp only [Task.step, faultStep]
      split <;> exact ⟨_, rfl⟩
    | popSlot v o r =>
      simp only [Task.step, faultStep]
      split <;> exact ⟨_, rfl⟩
    | popLocalSlot v =>
      simp only [Task.step, faultStep]
      split <;> exact ⟨_, rfl⟩
    | _ => exact ⟨_, rfl⟩
  | poller pc =>
    cases pc with
    | lookup v =>
      simp only [Task.step, pollerStep]
      split <;> exact ⟨_, rfl⟩
    | _ => exact ⟨_, rfl⟩
  | prefetch pc =>
    cases pc with
    | popSlot v p a r =>
      simp only [Task.step, prefetchStep]
      split <;> exact ⟨_, rfl⟩
    | _ => exact ⟨_, rfl⟩

structure FetchState where
  ctx : FetchContext
  tasks : List Task

/-- The task to run next, and the outcome of what it waits for. -/
structure Turn where
  task : ℕ
  ok : Bool
  deriving DecidableEq, Repr

def turnStep (s : FetchState) (a : Turn) : Unit × FetchState :=
  match s.tasks[a.task]? with
  | none => ((), s)
  | some t => ((), ⟨(t.step s.ctx a.ok).2, s.tasks.set a.task (t.step s.ctx a.ok).1⟩)

theorem turnStep_some {s : FetchState} {a : Turn} {t : Task} (ht : s.tasks[a.task]? = some t) :
    turnStep s a = ((), ⟨(t.step s.ctx a.ok).2, s.tasks.set a.task (t.step s.ctx a.ok).1⟩) := by
  rw [turnStep, ht]

theorem turnStep_none {s : FetchState} {a : Turn} (ht : s.tasks[a.task]? = none) :
    turnStep s a = ((), s) := by
  rw [turnStep, ht]

abbrev TurnEvent := Event FetchState Turn Unit

/-- The task that an event runs, as it stood. -/
def TurnEvent.ran (e : TurnEvent) : Option Task := e.pre.tasks[e.call.task]?

/-- The event runs a task that is at a state satisfying `P`. -/
def Ran (P : Task → Prop) (e : TurnEvent) : Prop := ∃ t, e.ran = some t ∧ P t

instance (P : Task → Prop) [DecidablePred P] : DecidablePred (Ran P) := fun e =>
  inferInstanceAs (Decidable (∃ t ∈ e.ran, P t))

theorem ran_event_iff {s : FetchState} {a : Turn} {t : Task} (ht : s.tasks[a.task]? = some t)
    (P : Task → Prop) : Ran P (event turnStep s a) ↔ P t := by
  constructor
  · rintro ⟨u, hu, hP⟩
    rw [TurnEvent.ran, event] at hu
    rwa [Option.some.inj (ht.symm.trans hu)]
  · intro hP
    exact ⟨t, ht, hP⟩

theorem not_ran_of_none {s : FetchState} {a : Turn} (ht : s.tasks[a.task]? = none)
    (P : Task → Prop) : ¬ Ran P (event turnStep s a) := by
  rintro ⟨t, hran, -⟩
  rw [TurnEvent.ran, event] at hran
  exact absurd (ht.symm.trans hran) (by simp)

/-- The page that the task's next call marks as invalid. -/
@[simp] def Task.invalidates : Task → Option UInt64
  | .poller (.markInvalid v _) => some v
  | _ => none

@[simp] def Task.marksInvalid (v : UInt64) (t : Task) : Prop := t.invalidates = some v

/-- The page at `v` is known and another node owns it. -/
def OwnedRemotely (c : FetchContext) (v : UInt64) : Prop :=
  ∃ entry, c.controlPlane.lookupPageState v = some entry ∧
    entry.primaryOwner ≠ c.controlPlane.localNodeId

/-- Node 1 with one page of node 2 and one free staging slot. -/
def remotePage : FetchContext where
  controlPlane := {
    localNodeId := ⟨1⟩
    regions := ∅
    pageStates := AList.insert 0x1000 ⟨0x1000, 4096, .invalid, ⟨2⟩, [], 0, []⟩ ∅
    remoteNodes := AList.insert ⟨2⟩ (.new ⟨2⟩ ⟨[10, 0, 0, 2], 19001⟩) ∅
    locks := ∅ }
  stagingPool := ⟨0x700000, 4096, 1, [0], 0⟩
  prefetchedPages := ∅
  prefetchAttached := true

theorem remotePage_ownedRemotely : OwnedRemotely remotePage 0x1000 := ⟨_, rfl, by decide⟩

end Virthub.Klnk.Daemon
