import Virthub.Klnk.Uffd.Handler

/-! A page fault that nothing interrupts: the handler as one call, in the shape of the source, and
what it leaves of the page when it fails. -/
namespace Virthub.Klnk.Uffd
open Virthub.Store

/-- What the operations of the environment answer during one call. -/
structure FaultOutcomes where
  read : Bool
  move : Bool
  zeropage : Bool
  deriving DecidableEq, Repr

/-- The part of `fetch_remote_page` behind the look into the prefetched pages. -/
def fetchFromRemote (c : FetchContext) (owner : NodeId) (o : FaultOutcomes) :
    Except UffdHandlerError Unit × FetchContext :=
  match c.controlPlane.getRemoteNode owner with
  | none =>
    (.error (.stagingPoolError ("Remote node NodeId(" ++ toString owner.id ++ ") not found")), c)
  | some _ =>
    match c.stagingPool.popSlot with
    | (.error e, _) => (.error (.stagingPoolError e.display), c)
    | (.ok slot, pool) =>
      if o.read then
        if o.move then (.ok (), { c with stagingPool := pool })
        else (.error .faultResolutionFailed, { c with
          stagingPool := (pool.pushSlot slot.slotIdx).2 })
      -- the slot of a failed read is not given back
      else (.error .rdmaError, { c with stagingPool := pool })

def fetchRemotePage (c : FetchContext) (vaddr : UInt64) (owner : NodeId) (o : FaultOutcomes) :
    Except UffdHandlerError Unit × FetchContext :=
  match c.prefetchAttached, c.prefetchedPages.lookup vaddr with
  | true, some _ =>
    (if o.move then .ok () else .error .faultResolutionFailed,
      { c with prefetchedPages := c.prefetchedPages.erase vaddr })
  | _, _ => fetchFromRemote c owner o

/-- The page is shared and the node that faulted is one of its readers. -/
def markSharedRead (c : FetchContext) (vaddr : UInt64) (owner : NodeId) : FetchContext :=
  let localNode := c.controlPlane.localNodeId
  { c with controlPlane :=
    ((c.controlPlane.updatePageState vaddr .sharedRead owner).2.addReader vaddr localNode).2 }

def resolveLocalMissing (c : FetchContext) (vaddr : UInt64) (o : FaultOutcomes) :
    Except UffdHandlerError Unit × FetchContext :=
  match c.stagingPool.popSlot with
  | (.error e, _) => (.error (.stagingPoolError e.display), c)
  | (.ok slot, pool) =>
    if o.move then
      (.ok (), markSharedRead { c with stagingPool := pool } vaddr c.controlPlane.localNodeId)
    else (.error .faultResolutionFailed, { c with stagingPool := (pool.pushSlot slot.slotIdx).2 })

def resolveWithZeropage (c : FetchContext) (vaddr : UInt64) (o : FaultOutcomes) :
    Except UffdHandlerError Unit × FetchContext :=
  if o.zeropage then
    (.ok (), { c with controlPlane :=
      (c.controlPlane.updatePageState vaddr .sharedRead c.controlPlane.localNodeId).2 })
  else (.error .faultResolutionFailed, c)

/-- The page is marked before it is fetched, and not marked back when the fetch fails. -/
def markInFlight (c : FetchContext) (vaddr : UInt64) (owner : NodeId) : FetchContext :=
  { c with controlPlane := (c.controlPlane.updatePageState vaddr .inFlight owner).2 }

/-- The `?` behind the fetch, and what follows it. -/
def finishFetch (vaddr : UInt64) (owner : NodeId) :
    Except UffdHandlerError Unit × FetchContext → Except UffdHandlerError Unit × FetchContext
  | (.error e, c) => (.error e, c)
  | (.ok (), c) => (.ok (), markSharedRead c vaddr owner)

/-- A fault on a page that is not in flight. -/
def resolveMissing (c : FetchContext) (vaddr : UInt64) (owner : NodeId) (o : FaultOutcomes) :
    Except UffdHandlerError Unit × FetchContext :=
  if owner ≠ c.controlPlane.localNodeId then
    finishFetch vaddr owner (fetchRemotePage (markInFlight c vaddr owner) vaddr owner o)
  else resolveLocalMissing c vaddr o

def handlePageFaultAsyncInner (c : FetchContext) (vaddr : UInt64) (o : FaultOutcomes) :
    Except UffdHandlerError Unit × FetchContext :=
  match c.controlPlane.lookupPageState vaddr with
  | none => (.error (.stagingPoolError ("Page " ++ hex vaddr ++ " not found")), c)
  | some pageState =>
    match pageState.coherenceState with
    | .invalid | .sharedRead | .exclusiveWrite => resolveMissing c vaddr pageState.primaryOwner o
    | .inFlight => resolveWithZeropage c vaddr o

section Steps
variable (o : FaultOutcomes) (n : ℕ) (vaddr : UInt64) (owner : NodeId)

/-- The outcome that the next step of a fault is given. -/
def FaultOutcomes.at (o : FaultOutcomes) : FaultPc → Bool
  | .awaitRead _ _ _ => o.read
  | .zeropage _ => o.zeropage
  | _ => o.move

/-- `n` steps of a fault with nothing in between. -/
def runFault (o : FaultOutcomes) : ℕ → FaultPc → FetchContext → FaultPc × FetchContext
  | 0, pc, c => (pc, c)
  | n + 1, pc, c => runFault o n (faultStep c pc (o.at pc)).1 (faultStep c pc (o.at pc)).2

theorem runFault_succ (pc : FaultPc) (c : FetchContext) :
    runFault o (n + 1) pc c =
      runFault o n (faultStep c pc (o.at pc)).1 (faultStep c pc (o.at pc)).2 := rfl

theorem runFault_finished (r : Except UffdHandlerError Unit)
    (c : FetchContext) : runFault o n (.finished r) c = (.finished r, c) := by
  induction n with
  | zero => rfl
  | succ n ih => exact ih

theorem runFault_markShared (c : FetchContext) :
    runFault o (n + 2) (.markShared vaddr owner) c =
      (.finished (.ok ()), markSharedRead c vaddr owner) := by
  have hlocal : (c.controlPlane.updatePageState vaddr .sharedRead owner).2.localNodeId =
      c.controlPlane.localNodeId := c.controlPlane.localNodeId_modifyPage _ _
  simp only [runFault_succ, faultStep, runFault_finished, markSharedRead, hlocal]

/-- The task of a fault whose fetch ended with `r`. -/
def afterFetch (vaddr : UInt64) (owner : NodeId) (r : Except UffdHandlerError Unit × FetchContext) :
    FaultPc × FetchContext :=
  (.finished (finishFetch vaddr owner r).1, (finishFetch vaddr owner r).2)

theorem runFault_movePrefetched (slot : StagingSlotHandle) (c : FetchContext) :
    runFault o (n + 3) (.movePrefetched vaddr owner slot) c =
      afterFetch vaddr owner (if o.move then .ok () else .error .faultResolutionFailed, c) := by
  rw [runFault_succ, faultStep]
  cases hm : o.move with
  | false => simp [FaultOutcomes.at, hm, runFault_finished, afterFetch, finishFetch]
  | true => simp [FaultOutcomes.at, hm, runFault_markShared, afterFetch, finishFetch]

theorem runFault_rdmaRead (slot : StagingSlotHandle) (request : ReadRequest) (c : FetchContext) :
    runFault o 5 (.rdmaRead vaddr owner slot request) c =
      afterFetch vaddr owner
        (if o.read then
          if o.move then (.ok (), c)
          else (.error .faultResolutionFailed, { c with
            stagingPool := (c.stagingPool.pushSlot slot.slotIdx).2 })
        else (.error .rdmaError, c)) := by
  rw [runFault_succ, faultStep, runFault_succ, faultStep]
  cases hr : o.read with
  | false => simp [FaultOutcomes.at, hr, runFault_finished, afterFetch, finishFetch]
  | true =>
    simp only [FaultOutcomes.at, hr, if_true]
    rw [runFault_succ, faultStep]
    cases hm : o.move with
    | false => simp [FaultOutcomes.at, hm, runFault_succ, faultStep, runFault_finished, afterFetch,
        finishFetch]
    | true => simp [FaultOutcomes.at, hm, runFault_markShared, afterFetch, finishFetch]

theorem runFault_getRemoteNode (c : FetchContext) :
    runFault o 7 (.getRemoteNode vaddr owner) c =
      afterFetch vaddr owner (fetchFromRemote c owner o) := by
  unfold fetchFromRemote
  rw [runFault_succ, faultStep]
  cases hn : c.controlPlane.getRemoteNode owner with
  | none => exact runFault_finished o _ _ c
  | some remote =>
    dsimp only
    rw [runFault_succ, faultStep]
    rcases hp : c.stagingPool.popSlot with ⟨r, pool⟩
    cases r with
    | error e => exact runFault_finished o _ _ c
    | ok slot => exact runFault_rdmaRead o vaddr owner slot _ _

theorem runFault_takePrefetched (c : FetchContext) :
    runFault o 8 (.takePrefetched vaddr owner) c =
      afterFetch vaddr owner (fetchRemotePage c vaddr owner o) := by
  unfold fetchRemotePage
  rw [runFault_succ, faultStep]
  cases c.prefetchAttached with
  | false => exact runFault_getRemoteNode o vaddr owner c
  | true =>
    cases c.prefetchedPages.lookup vaddr with
    | none => exact runFault_getRemoteNode o vaddr owner c
    | some slot => exact runFault_movePrefetched o 4 vaddr owner slot _

theorem runFault_popLocalSlot (c : FetchContext) :
    runFault o (n + 4) (.popLocalSlot vaddr) c =
      (.finished (resolveLocalMissing c vaddr o).1, (resolveLocalMissing c vaddr o).2) := by
  unfold resolveLocalMissing
  rw [runFault_succ, faultStep]
  rcases hp : c.stagingPool.popSlot with ⟨r, pool⟩
  cases r with
  | error e => exact runFault_finished o _ _ c
  | ok slot =>
    cases hm : o.move with
    | false => simp [runFault_succ, faultStep, FaultOutcomes.at, hm, runFault_finished]
    | true =>
      dsimp only
      rw [runFault_succ, faultStep]
      simp [FaultOutcomes.at, hm, runFault_markShared]

theorem runFault_zeropage (c : FetchContext) :
    runFault o (n + 2) (.zeropage vaddr) c =
      (.finished (resolveWithZeropage c vaddr o).1, (resolveWithZeropage c vaddr o).2) := by
  unfold resolveWithZeropage
  rw [runFault_succ, faultStep]
  cases hz : o.zeropage with
  | false => simp [FaultOutcomes.at, hz, runFault_finished]
  | true => simp [FaultOutcomes.at, hz, runFault_succ, faultStep, runFault_finished]

/-- The task of a fault that is not interrupted is the call. -/
theorem runFault_lookup (c : FetchContext) :
    runFault o 10 (.lookup vaddr) c =
      (.finished (handlePageFaultAsyncInner c vaddr o).1, (handlePageFaultAsyncInner c vaddr o).2) := by
  rw [runFault_succ, faultStep]
  unfold handlePageFaultAsyncInner dispatchFault
  cases hl : c.controlPlane.lookupPageState vaddr with
  | none => exact runFault_finished o _ _ c
  | some entry =>
    have hmissing : runFault o 9 (if entry.primaryOwner ≠ c.controlPlane.localNodeId
        then .markInFlight vaddr entry.primaryOwner else .popLocalSlot vaddr) c =
        (.finished (resolveMissing c vaddr entry.primaryOwner o).1,
          (resolveMissing c vaddr entry.primaryOwner o).2) := by
      unfold resolveMissing
      split_ifs with howner
      · rw [runFault_succ, faultStep]
        exact runFault_takePrefetched o vaddr entry.primaryOwner _
      · exact runFault_popLocalSlot o 5 vaddr c
    cases hs : entry.coherenceState with
    | inFlight =>
      simp only [hs]
      exact runFault_zeropage o 7 vaddr c
    | _ =>
      simp only [hs]
      exact hmissing

end Steps

/-- The page as the call found it, in the fields that the coherence protocol reads. -/
def PageAsBefore (entry : DistributedPageEntry) (vaddr : UInt64) (c : FetchContext) : Prop :=
  ∃ after, c.controlPlane.lookupPageState vaddr = some after ∧
    after.coherenceState = entry.coherenceState ∧ after.primaryOwner = entry.primaryOwner ∧
    after.replicaHolders = entry.replicaHolders ∧ after.version = entry.version

/-- All that a fetch needs: a prefetched page that can be moved, or a known owner, a free slot, and a
read and a move that succeed. -/
def FetchSucceeds (c : FetchContext) (vaddr : UInt64) (owner : NodeId) (o : FaultOutcomes) : Prop :=
  if c.prefetchAttached = true ∧ vaddr ∈ c.prefetchedPages then o.move = true
  else (c.controlPlane.getRemoteNode owner).isSome ∧ c.stagingPool.freeSlots ≠ [] ∧ o.read = true ∧
    o.move = true

theorem fetchFromRemote_spec (c : FetchContext) (owner : NodeId) (o : FaultOutcomes) :
    (fetchFromRemote c owner o).2.controlPlane = c.controlPlane ∧
      ((fetchFromRemote c owner o).1 = .ok () ↔ (c.controlPlane.getRemoteNode owner).isSome ∧
        c.stagingPool.freeSlots ≠ [] ∧ o.read = true ∧ o.move = true) := by
  unfold fetchFromRemote
  cases c.controlPlane.getRemoteNode owner with
  | none => simp
  | some remote =>
    unfold StagingMemoryPool.popSlot
    cases c.stagingPool.freeSlots with
    | nil => simp
    | cons slotIdx rest =>
      cases o.read with
      | false => simp
      | true => cases o.move <;> simp

/-- A fetch leaves the control plane alone. -/
theorem fetchRemotePage_spec (c : FetchContext) (vaddr : UInt64) (owner : NodeId)
    (o : FaultOutcomes) :
    (fetchRemotePage c vaddr owner o).2.controlPlane = c.controlPlane ∧
      ((fetchRemotePage c vaddr owner o).1 = .ok () ↔ FetchSucceeds c vaddr owner o) := by
  have hremote := fetchFromRemote_spec c owner o
  unfold fetchRemotePage FetchSucceeds
  cases c.prefetchAttached with
  | false => simpa using hremote
  | true =>
    cases hl : c.prefetchedPages.lookup vaddr with
    | none =>
      have hnot : vaddr ∉ c.prefetchedPages := AList.lookup_eq_none.mp hl
      simpa [hnot] using hremote
    | some slot =>
      have hmem : vaddr ∈ c.prefetchedPages := AList.lookup_isSome.mp (Option.isSome_of_eq_some hl)
      cases o.move <;> simp [hmem]

theorem fetchSucceeds_markInFlight (c : FetchContext) (vaddr : UInt64) (owner : NodeId)
    (o : FaultOutcomes) :
    FetchSucceeds (markInFlight c vaddr owner) vaddr owner o ↔ FetchSucceeds c vaddr owner o := by
  have hnodes : (markInFlight c vaddr owner).controlPlane.remoteNodes = c.controlPlane.remoteNodes :=
    c.controlPlane.remoteNodes_modifyPage _ _
  unfold FetchSucceeds ControlPlaneManager.getRemoteNode
  rw [hnodes]
  rfl

theorem finishFetch_of_error {vaddr : UInt64} {owner : NodeId}
    {r : Except UffdHandlerError Unit × FetchContext} (h : r.1 ≠ .ok ()) :
    finishFetch vaddr owner r = r := by
  rcases r with ⟨r, c⟩
  cases r with
  | error e => rfl
  | ok u => exact absurd rfl h

theorem finishFetch_of_ok {vaddr : UInt64} {owner : NodeId}
    {r : Except UffdHandlerError Unit × FetchContext} (h : r.1 = .ok ()) :
    (finishFetch vaddr owner r).1 = .ok () := by
  rcases r with ⟨r, c⟩
  cases h
  rfl

theorem pageAsBefore_of_controlPlane_eq {entry : DistributedPageEntry} {vaddr : UInt64}
    {c c' : FetchContext} (hl : c.controlPlane.lookupPageState vaddr = some entry)
    (h : c'.controlPlane = c.controlPlane) : PageAsBefore entry vaddr c' :=
  ⟨entry, by rw [h]; exact hl, rfl, rfl, rfl, rfl⟩

theorem resolveLocalMissing_error (c : FetchContext) (vaddr : UInt64) (o : FaultOutcomes) :
    (resolveLocalMissing c vaddr o).1 = .ok () ∨
      (resolveLocalMissing c vaddr o).2.controlPlane = c.controlPlane := by
  unfold resolveLocalMissing
  rcases c.stagingPool.popSlot with ⟨r, pool⟩
  cases r with
  | error e => exact .inr rfl
  | ok slot => cases o.move <;> simp

theorem resolveWithZeropage_error (c : FetchContext) (vaddr : UInt64) (o : FaultOutcomes) :
    (resolveWithZeropage c vaddr o).1 = .ok () ∨
      (resolveWithZeropage c vaddr o).2.controlPlane = c.controlPlane := by
  unfold resolveWithZeropage
  cases o.zeropage <;> simp

theorem handle_of_inFlight {c : FetchContext} {vaddr : UInt64} {entry : DistributedPageEntry}
    (hl : c.controlPlane.lookupPageState vaddr = some entry)
    (hs : entry.coherenceState = .inFlight) (o : FaultOutcomes) :
    handlePageFaultAsyncInner c vaddr o = resolveWithZeropage c vaddr o := by
  rw [handlePageFaultAsyncInner, hl]
  dsimp only
  rw [hs]

theorem handle_of_not_inFlight {c : FetchContext} {vaddr : UInt64} {entry : DistributedPageEntry}
    (hl : c.controlPlane.lookupPageState vaddr = some entry)
    (hs : entry.coherenceState ≠ .inFlight) (o : FaultOutcomes) :
    handlePageFaultAsyncInner c vaddr o = resolveMissing c vaddr entry.primaryOwner o := by
  rw [handlePageFaultAsyncInner, hl]
  dsimp only
  cases hc : entry.coherenceState with
  | inFlight => exact absurd hc hs
  | _ => rfl

theorem lookup_markInFlight {c : FetchContext} {vaddr : UInt64} {entry : DistributedPageEntry}
    (hl : c.controlPlane.lookupPageState vaddr = some entry) (owner : NodeId) :
    (markInFlight c vaddr owner).controlPlane.lookupPageState vaddr =
      some { entry with coherenceState := .inFlight, primaryOwner := owner } := by
  rw [markInFlight, ControlPlaneManager.updatePageState, ControlPlaneManager.lookup_modifyPage,
    if_pos rfl, hl]
  rfl

/-- A fetch that fails leaves its page in flight. -/
theorem not_pageAsBefore_of_failed_fetch {c : FetchContext} {vaddr : UInt64}
    {entry : DistributedPageEntry} (hl : c.controlPlane.lookupPageState vaddr = some entry)
    (hs : entry.coherenceState ≠ .inFlight) (hr : entry.primaryOwner ≠ c.controlPlane.localNodeId)
    {o : FaultOutcomes} (hf : ¬ FetchSucceeds c vaddr entry.primaryOwner o) :
    (∃ e, (handlePageFaultAsyncInner c vaddr o).1 = .error e) ∧
      ¬ PageAsBefore entry vaddr (handlePageFaultAsyncInner c vaddr o).2 := by
  obtain ⟨hcp, hok⟩ := fetchRemotePage_spec (markInFlight c vaddr entry.primaryOwner) vaddr
    entry.primaryOwner o
  have hne : (fetchRemotePage (markInFlight c vaddr entry.primaryOwner) vaddr
      entry.primaryOwner o).1 ≠ .ok () := fun h =>
    hf ((fetchSucceeds_markInFlight c vaddr entry.primaryOwner o).mp (hok.mp h))
  rw [handle_of_not_inFlight hl hs, resolveMissing, if_pos hr, finishFetch_of_error hne]
  refine ⟨?_, ?_⟩
  · cases hres : (fetchRemotePage (markInFlight c vaddr entry.primaryOwner) vaddr
        entry.primaryOwner o).1 with
    | error e => exact ⟨e, rfl⟩
    | ok u => exact absurd hres hne
  · rintro ⟨after, hafter, hstate, -⟩
    rw [hcp, lookup_markInFlight hl] at hafter
    obtain rfl := Option.some.inj hafter
    exact hs hstate.symm

/-- A failed call leaves the page as it was exactly if it did not try to fetch it from another node. -/
theorem failed_fault_keeps_page_iff {c : FetchContext} {vaddr : UInt64} {entry : DistributedPageEntry}
    (hl : c.controlPlane.lookupPageState vaddr = some entry) (o : FaultOutcomes) :
    (∀ e, (handlePageFaultAsyncInner c vaddr o).1 = .error e →
        PageAsBefore entry vaddr (handlePageFaultAsyncInner c vaddr o).2) ↔
      entry.primaryOwner = c.controlPlane.localNodeId ∨ entry.coherenceState = .inFlight ∨
        FetchSucceeds c vaddr entry.primaryOwner o := by
  by_cases hs : entry.coherenceState = .inFlight
  · refine iff_of_true (fun e he => ?_) (.inr (.inl hs))
    rw [handle_of_inFlight hl hs] at he ⊢
    rcases resolveWithZeropage_error c vaddr o with hok | hcp
    · rw [hok] at he
      cases he
    · exact pageAsBefore_of_controlPlane_eq hl hcp
  · by_cases hr : entry.primaryOwner = c.controlPlane.localNodeId
    · refine iff_of_true (fun e he => ?_) (.inl hr)
      rw [handle_of_not_inFlight hl hs, resolveMissing, if_neg (not_not.mpr hr)] at he ⊢
      rcases resolveLocalMissing_error c vaddr o with hok | hcp
      · rw [hok] at he
        cases he
      · exact pageAsBefore_of_controlPlane_eq hl hcp
    · by_cases hf : FetchSucceeds c vaddr entry.primaryOwner o
      · refine iff_of_true (fun e he => ?_) (.inr (.inr hf))
        have hok := (fetchRemotePage_spec (markInFlight c vaddr entry.primaryOwner) vaddr
          entry.primaryOwner o).2.mpr ((fetchSucceeds_markInFlight _ _ _ _).mpr hf)
        rw [handle_of_not_inFlight hl hs, resolveMissing, if_pos hr, finishFetch_of_ok hok] at he
        cases he
      · obtain ⟨⟨e, he⟩, hchanged⟩ := not_pageAsBefore_of_failed_fetch hl hs hr hf
        refine iff_of_false (fun h => hchanged (h e he)) ?_
        rintro (h | h | h)
        · exact hr h
        · exact hs h
        · exact hf h

/-- Node one with a single page of the given owner, no free slot, and no other node known. -/
def onePage (owner : NodeId) : FetchContext where
  controlPlane := { ControlPlaneManager.new ⟨1⟩ with
    pageStates := AList.singleton 0x1000 (.newWithMetadata 0x1000 4096 owner []) }
  stagingPool := ⟨0x10000, 4096, 1, [], 1⟩
  prefetchedPages := ∅
  prefetchAttached := false

/-- A fault on a page of an unknown node fails, and the next fault is answered with a zero page. -/
theorem failed_fetch_is_not_retried :
    (onePage ⟨2⟩).controlPlane.lookupPageState 0x1000 =
        some (.newWithMetadata 0x1000 4096 ⟨2⟩ []) ∧
      (¬ ∀ e, (handlePageFaultAsyncInner (onePage ⟨2⟩) 0x1000 ⟨true, true, true⟩).1 = .error e →
        PageAsBefore (.newWithMetadata 0x1000 4096 ⟨2⟩ []) 0x1000
          (handlePageFaultAsyncInner (onePage ⟨2⟩) 0x1000 ⟨true, true, true⟩).2) ∧
      handlePageFaultAsyncInner
          (handlePageFaultAsyncInner (onePage ⟨2⟩) 0x1000 ⟨true, true, true⟩).2 0x1000 ⟨true, true, true⟩ =
        resolveWithZeropage
          (handlePageFaultAsyncInner (onePage ⟨2⟩) 0x1000 ⟨true, true, true⟩).2 0x1000
          ⟨true, true, true⟩ := by
  refine ⟨rfl, fun h => ?_, rfl⟩
  obtain ⟨after, hafter, hstate, -⟩ := h _ rfl
  cases hafter
  cases hstate

/-- A fault on a local page that finds no slot. -/
theorem failed_local_fault_keeps_page :
    (onePage ⟨1⟩).controlPlane.lookupPageState 0x1000 =
        some (.newWithMetadata 0x1000 4096 ⟨1⟩ []) ∧
      (handlePageFaultAsyncInner (onePage ⟨1⟩) 0x1000 ⟨true, true, true⟩).1 =
        .error (.stagingPoolError (StagingPoolError.poolExhausted 1).display) ∧
      PageAsBefore (.newWithMetadata 0x1000 4096 ⟨1⟩ []) 0x1000
        (handlePageFaultAsyncInner (onePage ⟨1⟩) 0x1000 ⟨true, true, true⟩).2 := by
  have hl : (onePage ⟨1⟩).controlPlane.lookupPageState 0x1000 =
      some (.newWithMetadata 0x1000 4096 ⟨1⟩ []) := rfl
  exact ⟨hl, rfl, (failed_fault_keeps_page_iff hl ⟨true, true, true⟩).mpr (.inl rfl) _ rfl⟩

end Virthub.Klnk.Uffd
