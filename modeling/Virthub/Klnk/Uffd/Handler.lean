import Virthub.Klnk.Core.ControlPlane
import Virthub.Store.StagingPool

/-! The page-fault handler as a task that is interrupted between any two calls it makes. Every
step is one call on the control plane, the staging pool or the prefetched map, the issue of an
RDMA read, or an operation of the environment, whose outcome the step is given. -/
namespace Virthub.Klnk.Uffd
open Virthub.Store

inductive UffdHandlerError where
  | faultResolutionFailed
  | stagingPoolError (message : String)
  | rdmaError
  deriving DecidableEq, Repr

/-- What the tasks of the daemon share. -/
structure FetchContext where
  controlPlane : ControlPlaneManager
  stagingPool : StagingMemoryPool
  /-- The map that the prefetch engine fills. -/
  prefetchedPages : AList fun _ : UInt64 => StagingSlotHandle
  /-- Whether the handler has been given that map. -/
  prefetchAttached : Bool

/-- The arguments of an `rdma_read`. -/
structure ReadRequest where
  peerAddr : SocketAddr
  remoteVaddr : UInt64
  remoteRkey : UInt32
  localVaddr : UInt64
  len : UInt64
  deriving DecidableEq, Repr

/-- Where a call of `handle_page_fault_async_inner` stands; each state names its next call. -/
inductive FaultPc where
  | lookup (vaddr : UInt64)
  | markInFlight (vaddr : UInt64) (owner : NodeId)
  | takePrefetched (vaddr : UInt64) (owner : NodeId)
  | movePrefetched (vaddr : UInt64) (owner : NodeId) (slot : StagingSlotHandle)
  | getRemoteNode (vaddr : UInt64) (owner : NodeId)
  | popSlot (vaddr : UInt64) (owner : NodeId) (remote : RemoteEndpointInfo)
  | rdmaRead (vaddr : UInt64) (owner : NodeId) (slot : StagingSlotHandle) (request : ReadRequest)
  | awaitRead (vaddr : UInt64) (owner : NodeId) (slot : StagingSlotHandle)
  | moveSlot (vaddr : UInt64) (owner : NodeId) (slot : StagingSlotHandle)
  | pushSlot (slot : StagingSlotHandle)
  | markShared (vaddr : UInt64) (owner : NodeId)
  | addReader (vaddr : UInt64)
  | popLocalSlot (vaddr : UInt64)
  | moveLocalSlot (vaddr : UInt64) (slot : StagingSlotHandle)
  | zeropage (vaddr : UInt64)
  | markZeroShared (vaddr : UInt64)
  | finished (result : Except UffdHandlerError Unit)

/-- `lookup_page_state` and the dispatch on what it returns. -/
def dispatchFault (c : FetchContext) (vaddr : UInt64) : FaultPc :=
  match c.controlPlane.lookupPageState vaddr with
  | none => .finished (.error (.stagingPoolError ("Page " ++ hex vaddr ++ " not found")))
  | some pageState =>
    let owner := pageState.primaryOwner
    match pageState.coherenceState with
    | .invalid | .sharedRead | .exclusiveWrite =>
      if owner ≠ c.controlPlane.localNodeId then .markInFlight vaddr owner
      else .popLocalSlot vaddr
    | .inFlight => .zeropage vaddr

/-- A lookup ends the fault or leads to one of three states. -/
theorem dispatchFault_cases {P : FaultPc → Prop} (c : FetchContext) (vaddr : UInt64)
    (hmissing : ∀ e, P (.finished (.error e))) (hremote : ∀ owner, P (.markInFlight vaddr owner))
    (hlocal : P (.popLocalSlot vaddr)) (hinFlight : P (.zeropage vaddr)) : P (dispatchFault c vaddr) := by
  unfold dispatchFault
  cases c.controlPlane.lookupPageState vaddr with
  | none => exact hmissing _
  | some pageState =>
    dsimp only
    split
    case h_4 => exact hinFlight
    all_goals
      split_ifs
      · exact hremote _
      · exact hlocal

/-- One step of a fault; `ok` is the outcome of an RDMA completion or a userfaultfd call. -/
def faultStep (c : FetchContext) (pc : FaultPc) (ok : Bool) : FaultPc × FetchContext :=
  let localNode := c.controlPlane.localNodeId
  match pc with
  | .lookup vaddr => (dispatchFault c vaddr, c)
  | .markInFlight vaddr owner =>
    (.takePrefetched vaddr owner, { c with
      controlPlane := (c.controlPlane.updatePageState vaddr .inFlight owner).2 })
  | .takePrefetched vaddr owner =>
    match c.prefetchAttached, c.prefetchedPages.lookup vaddr with
    | true, some slot =>
      (.movePrefetched vaddr owner slot, { c with
        prefetchedPages := c.prefetchedPages.erase vaddr })
    | _, _ => (.getRemoteNode vaddr owner, c)
  -- a prefetched slot is not given back when the move fails
  | .movePrefetched vaddr owner _ =>
    (if ok then .markShared vaddr owner else .finished (.error .faultResolutionFailed), c)
  | .getRemoteNode vaddr owner =>
    match c.controlPlane.getRemoteNode owner with
    | none =>
      (.finished (.error (.stagingPoolError
        ("Remote node NodeId(" ++ toString owner.id ++ ") not found"))), c)
    | some remote => (.popSlot vaddr owner remote, c)
  | .popSlot vaddr owner remote =>
    match c.stagingPool.popSlot with
    | (.error e, _) => (.finished (.error (.stagingPoolError e.display)), c)
    | (.ok slot, pool) =>
      (.rdmaRead vaddr owner slot
        ⟨remote.socketAddr, vaddr, remote.metadataRkey, slot.vaddr, slot.size⟩,
        { c with stagingPool := pool })
  | .rdmaRead vaddr owner slot _ => (.awaitRead vaddr owner slot, c)
  -- nor is a slot whose read fails
  | .awaitRead vaddr owner slot =>
    (if ok then .moveSlot vaddr owner slot else .finished (.error .rdmaError), c)
  | .moveSlot vaddr owner slot => (if ok then .markShared vaddr owner else .pushSlot slot, c)
  | .pushSlot slot =>
    (.finished (.error .faultResolutionFailed), { c with
      stagingPool := (c.stagingPool.pushSlot slot.slotIdx).2 })
  | .markShared vaddr owner =>
    (.addReader vaddr, { c with
      controlPlane := (c.controlPlane.updatePageState vaddr .sharedRead owner).2 })
  | .addReader vaddr =>
    (.finished (.ok ()), { c with
      controlPlane := (c.controlPlane.addReader vaddr localNode).2 })
  | .popLocalSlot vaddr =>
    match c.stagingPool.popSlot with
    | (.error e, _) => (.finished (.error (.stagingPoolError e.display)), c)
    | (.ok slot, pool) => (.moveLocalSlot vaddr slot, { c with stagingPool := pool })
  | .moveLocalSlot vaddr slot =>
    (if ok then .markShared vaddr localNode else .pushSlot slot, c)
  | .zeropage vaddr =>
    (if ok then .markZeroShared vaddr else .finished (.error .faultResolutionFailed), c)
  | .markZeroShared vaddr =>
    (.finished (.ok ()), { c with
      controlPlane := (c.controlPlane.updatePageState vaddr .sharedRead localNode).2 })
  | .finished result => (.finished result, c)

end Virthub.Klnk.Uffd
