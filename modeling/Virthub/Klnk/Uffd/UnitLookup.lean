import Virthub.Klnk.Core.Regions
import Virthub.Klnk.Dsm.Backend
import Virthub.Klnk.Uffd.FailedFault

/-! Which faults find the coherence unit of their address. A registration stores one entry for each unit,
under the base of the unit, and the handler looks for the address of the fault itself. -/
namespace Virthub.Klnk
open Virthub.Lib

/-- Base of the unit that an address of the region lies in. -/
def unitOf (d : MemoryRegionDescriptor) (a : UInt64) : ℕ :=
  d.mainVaddr.toNat + (a.toNat - d.mainVaddr.toNat) / d.pageSize.toNat * d.pageSize.toNat

namespace ControlPlaneManager

/-- Base and size of the unit whose entry stands under an address. -/
def unitAt (cp : ControlPlaneManager) (a : UInt64) : Option (UInt64 × UInt64) :=
  (cp.lookupPageState a).map fun entry => (entry.pageVaddr, entry.pageSize)

theorem unitAt_modifyPage (cp : ControlPlaneManager) (v a : UInt64)
    {change : DistributedPageEntry → DistributedPageEntry}
    (hchange : ∀ entry, (change entry).pageVaddr = entry.pageVaddr ∧
      (change entry).pageSize = entry.pageSize) :
    (cp.modifyPage v change).2.unitAt a = cp.unitAt a := by
  apply map_lookup_modifyPage
  intro entry
  exact Prod.ext (hchange entry).1 (hchange entry).2

theorem unitAt_updatePageState (cp : ControlPlaneManager) (v a : UInt64) (st : PageCoherenceState)
    (owner : NodeId) : (cp.updatePageState v st owner).2.unitAt a = cp.unitAt a := by
  apply unitAt_modifyPage
  intro entry
  dsimp only
  split_ifs <;> exact ⟨rfl, rfl⟩

theorem unitAt_addReader (cp : ControlPlaneManager) (v a : UInt64) (reader : NodeId) :
    (cp.addReader v reader).2.unitAt a = cp.unitAt a := by
  apply unitAt_modifyPage
  intro entry
  split_ifs <;> exact ⟨rfl, rfl⟩

theorem unitAt_removeReader (cp : ControlPlaneManager) (v a : UInt64) (reader : NodeId) :
    (cp.removeReader v reader).2.unitAt a = cp.unitAt a :=
  unitAt_modifyPage _ _ _ fun _ => ⟨rfl, rfl⟩

theorem unitAt_setPageMetadata (cp : ControlPlaneManager) (v a : UInt64) (metadata : List UInt8) :
    (cp.setPageMetadata v metadata).2.unitAt a = cp.unitAt a :=
  unitAt_modifyPage _ _ _ fun _ => ⟨rfl, rfl⟩

theorem unitAt_batch {ι : Type} {op : ControlPlaneManager → ι → Bool × ControlPlaneManager}
    {a : UInt64} (hop : ∀ cp x, (op cp x).2.unitAt a = cp.unitAt a) (cp : ControlPlaneManager)
    (xs : List ι) : (batch op cp xs).2.unitAt a = cp.unitAt a := by
  induction xs generalizing cp with
  | nil => rfl
  | cons x xs ih => exact (ih (op cp x).2).trans (hop cp x)

theorem unitAt_registerRegion (cp : ControlPlaneManager) (d : MemoryRegionDescriptor)
    (metadata : List UInt8) (a : UInt64) :
    (cp.pageStep (.registerRegion d metadata)).2.unitAt a =
      if cp.regions.lookup d.regionId = none ∧ a ∈ (visitedUnits d).getD [] then
        some (a, d.pageSize) else cp.unitAt a := by
  rw [pageStep]
  cases hreg : cp.regions.lookup d.regionId with
  | some d' =>
    rw [registerRegionWithMetadata, hreg, if_neg (by simp)]
    rfl
  | none =>
    cases hu : visitedUnits d with
    | none =>
      rw [register_of_endless hreg hu, if_neg (fun h => List.not_mem_nil h.2)]
      rfl
    | some units =>
      obtain ⟨pages, hok, hpages⟩ := register_of_visited hreg hu metadata
      rw [hok, regionAnswer, unitAt, lookupPageState, hpages]
      by_cases ha : a ∈ units
      · rw [if_pos ha, if_pos ⟨rfl, ha⟩]
        rfl
      · rw [if_neg ha, if_neg (fun h => ha h.2)]
        rfl

theorem unitAt_deregisterRegion (cp : ControlPlaneManager) (r : GlobalRegionId) (a : UInt64) :
    (cp.pageStep (.deregisterRegion r)).2.unitAt a =
      if ∃ d ∈ cp.regions.lookup r, a ∈ (visitedUnits d).getD [] then none else cp.unitAt a := by
  rw [pageStep]
  cases hreg : cp.regions.lookup r with
  | none =>
    rw [deregisterRegion, hreg, if_neg (by simp)]
    rfl
  | some d =>
    cases hu : visitedUnits d with
    | none =>
      rw [deregister_of_endless hreg hu, if_neg (by simp [hu])]
      rfl
    | some units =>
      obtain ⟨pages, hok, hpages⟩ := deregister_of_visited hreg hu
      rw [hok, regionAnswer, unitAt, lookupPageState, hpages]
      by_cases ha : a ∈ units
      · rw [if_pos ha, if_pos (by simpa [hu] using ha)]
        rfl
      · rw [if_neg ha, if_neg (by simpa [hu] using ha)]
        rfl

/-- The unit size that `a` was given by the last region call that came past it, `none` if that call removed
the entry or there was none. -/
def noteUnit (a : UInt64) (unit : Option UInt64)
    (e : Event ControlPlaneManager PageCall (Option PageAnswer)) : Option UInt64 :=
  match e.call with
  | .registerRegion d _ =>
    if e.pre.regions.lookup d.regionId = none ∧ a ∈ (visitedUnits d).getD [] then some d.pageSize
    else unit
  | .deregisterRegion r =>
    if ∃ d ∈ e.pre.regions.lookup r, a ∈ (visitedUnits d).getD [] then none else unit
  | _ => unit

def lastUnit (a : UInt64) (history : List (Event ControlPlaneManager PageCall (Option PageAnswer))) :
    Option UInt64 :=
  history.foldl (noteUnit a) none

theorem unitAt_pageStep (cp : ControlPlaneManager) (c : PageCall) {a : UInt64} {unit : Option UInt64}
    (h : cp.unitAt a = unit.map fun u => (a, u)) :
    (cp.pageStep c).2.unitAt a = (noteUnit a unit (event pageStep cp c)).map fun u => (a, u) := by
  cases c with
  | registerRegion d metadata =>
    rw [unitAt_registerRegion]
    dsimp only [noteUnit, event]
    rw [h]
    split_ifs <;> rfl
  | deregisterRegion r =>
    rw [unitAt_deregisterRegion]
    dsimp only [noteUnit, event]
    rw [h]
    split_ifs <;> rfl
  | updatePageState v st owner => exact (unitAt_updatePageState cp v a st owner).trans h
  | updatePageStatesBatch us =>
    exact (unitAt_batch (fun cp u => unitAt_updatePageState cp _ a _ _) cp us).trans h
  | addReader v reader => exact (unitAt_addReader cp v a reader).trans h
  | addReadersBatch us => exact (unitAt_batch (fun cp u => unitAt_addReader cp _ a _) cp us).trans h
  | removeReader v reader => exact (unitAt_removeReader cp v a reader).trans h
  | removeReadersBatch us =>
    exact (unitAt_batch (fun cp u => unitAt_removeReader cp _ a _) cp us).trans h
  | setPageMetadata v metadata => exact (unitAt_setPageMetadata cp v a metadata).trans h

/-- An entry is that of the unit at its own address, with the size of the last registration that wrote it. -/
theorem unitAt_exec (node : NodeId) (calls : List PageCall) (a : UInt64) :
    (exec pageStep (new node) calls).unitAt a =
      (lastUnit a (trace pageStep (new node) calls)).map fun u => (a, u) := by
  refine history_induction (C := fun _ _ _ => True)
    (P := fun h s => s.unitAt a = (lastUnit a h).map fun u => (a, u)) rfl ?_ calls
    (along_true _ _ _)
  intro h s c hs _
  rw [lastUnit, List.foldl_concat]
  exact unitAt_pageStep s c hs

end ControlPlaneManager

namespace Uffd
open ControlPlaneManager Virthub.Store

def pageNotFound (a : UInt64) : UffdHandlerError :=
  .stagingPoolError ("Page " ++ hex a ++ " not found")

/-- A fault at `a` finds the entry of the unit of `d` that `a` lies in, so it does not fail as not found. -/
def FindsUnit (c : FetchContext) (d : MemoryRegionDescriptor) (a : UInt64) : Prop :=
  (∃ entry, c.controlPlane.lookupPageState a = some entry ∧ entry.pageVaddr.toNat = unitOf d a ∧
    entry.pageSize = d.pageSize) ∧
  ∀ o, (handlePageFaultAsyncInner c a o).1 ≠ .error (pageNotFound a)

theorem pageNotFound_ne {message : String} (h : message.toList.head? ≠ some 'P') (a : UInt64) :
    UffdHandlerError.stagingPoolError message ≠ pageNotFound a := by
  intro heq
  apply h
  rw [UffdHandlerError.stagingPoolError.inj heq]
  simp

theorem popSlot_ne_pageNotFound {pool : StagingMemoryPool} {e : StagingPoolError}
    {pool' : StagingMemoryPool} (h : pool.popSlot = (.error e, pool')) (a : UInt64) :
    UffdHandlerError.stagingPoolError e.display ≠ pageNotFound a := by
  have he : e = .poolExhausted pool.numSlots := by
    unfold StagingMemoryPool.popSlot at h
    split at h
    · exact (Except.error.inj (congrArg Prod.fst h)).symm
    · cases congrArg Prod.fst h
  have hhead : (StagingPoolError.poolExhausted pool.numSlots).display.toList.head? ≠ some 'P' := by
    unfold StagingPoolError.display
    simp
  rw [he]
  exact pageNotFound_ne hhead a

theorem fetchRemotePage_ne_pageNotFound (c : FetchContext) (vaddr : UInt64) (owner : NodeId)
    (o : FaultOutcomes) (a : UInt64) :
    (fetchRemotePage c vaddr owner o).1 ≠ .error (pageNotFound a) := by
  unfold fetchRemotePage fetchFromRemote
  split
  · split_ifs <;> simp [pageNotFound]
  · split
    · intro h
      exact pageNotFound_ne (by simp) a (Except.error.inj h)
    · split
      · next hpop => exact fun h => popSlot_ne_pageNotFound hpop a (Except.error.inj h)
      · split_ifs <;> simp [pageNotFound]

theorem resolveLocalMissing_ne_pageNotFound (c : FetchContext) (vaddr : UInt64) (o : FaultOutcomes)
    (a : UInt64) : (resolveLocalMissing c vaddr o).1 ≠ .error (pageNotFound a) := by
  unfold resolveLocalMissing
  split
  · next hpop => exact fun h => popSlot_ne_pageNotFound hpop a (Except.error.inj h)
  · split_ifs <;> simp [pageNotFound]

theorem resolveMissing_ne_pageNotFound (c : FetchContext) (vaddr : UInt64) (owner : NodeId)
    (o : FaultOutcomes) (a : UInt64) :
    (resolveMissing c vaddr owner o).1 ≠ .error (pageNotFound a) := by
  unfold resolveMissing
  split_ifs
  · have hfetch := fetchRemotePage_ne_pageNotFound (markInFlight c vaddr owner) vaddr owner o a
    cases h : fetchRemotePage (markInFlight c vaddr owner) vaddr owner o with
    | mk r c' =>
      rw [h] at hfetch
      cases r with
      | error e => exact hfetch
      | ok u => simp [finishFetch]
  · exact resolveLocalMissing_ne_pageNotFound c vaddr o a

/-- Behind the lookup no failure of the handler has that text. -/
theorem handle_ne_pageNotFound {c : FetchContext} {a : UInt64} {entry : DistributedPageEntry}
    (hentry : c.controlPlane.lookupPageState a = some entry) (o : FaultOutcomes) :
    (handlePageFaultAsyncInner c a o).1 ≠ .error (pageNotFound a) := by
  unfold handlePageFaultAsyncInner
  rw [hentry]
  dsimp only
  split
  · exact resolveMissing_ne_pageNotFound c a _ o a
  · exact resolveMissing_ne_pageNotFound c a _ o a
  · exact resolveMissing_ne_pageNotFound c a _ o a
  · unfold resolveWithZeropage
    split_ifs <;> simp [pageNotFound]

theorem findsUnit_iff_unitAt (c : FetchContext) (d : MemoryRegionDescriptor) (a : UInt64) :
    FindsUnit c d a ↔ ∃ base, c.controlPlane.unitAt a = some (base, d.pageSize) ∧
      base.toNat = unitOf d a := by
  constructor
  · intro h
    obtain ⟨⟨entry, hentry, hbase, hsize⟩, -⟩ := h
    refine ⟨entry.pageVaddr, ?_, hbase⟩
    rw [unitAt, hentry, Option.map_some, hsize]
  · intro h
    obtain ⟨base, hunit, hbase⟩ := h
    obtain ⟨entry, hentry, hpair⟩ := Option.map_eq_some_iff.mp hunit
    obtain ⟨rfl, hsize⟩ := Prod.mk.inj hpair
    exact ⟨⟨entry, hentry, hbase, hsize⟩, fun o => handle_ne_pageNotFound hentry o⟩

/-- A fault finds the unit of its address exactly if the address is the base of that unit and the last
region call that came past the base registered units of this size. -/
theorem findsUnit_iff (node : NodeId) (calls : List PageCall) (c : FetchContext)
    (hc : c.controlPlane = exec pageStep (.new node) calls) (d : MemoryRegionDescriptor) (a : UInt64) :
    FindsUnit c d a ↔ a.toNat = unitOf d a ∧
      lastUnit a (trace pageStep (.new node) calls) = some d.pageSize := by
  rw [findsUnit_iff_unitAt, hc, unitAt_exec]
  constructor
  · intro h
    obtain ⟨base, hunit, hbase⟩ := h
    obtain ⟨u, hu, hpair⟩ := Option.map_eq_some_iff.mp hunit
    cases hpair
    exact ⟨hbase, hu⟩
  · intro h
    exact ⟨a, by rw [h.2]; rfl, h.1⟩

/-- A block of two pages, registered by the backend as a single unit. -/
def twoPageBlock : MemoryRegionDescriptor := Dsm.blockDescriptor 7 0x10000 8192

def twoPageContext : FetchContext where
  controlPlane := exec pageStep (.new ⟨1⟩) [.registerRegion twoPageBlock []]
  stagingPool := ⟨0x100000, 4096, 4, [0, 1, 2, 3], 0⟩
  prefetchedPages := ∅
  prefetchAttached := false

theorem findsUnit_twoPageBlock_base :
    twoPageContext.controlPlane = exec pageStep (.new ⟨1⟩) [.registerRegion twoPageBlock []] ∧
      FindsUnit twoPageContext twoPageBlock 0x10000 := by
  refine ⟨rfl, (findsUnit_iff ⟨1⟩ _ twoPageContext rfl twoPageBlock 0x10000).mpr ⟨?_, ?_⟩⟩
  · decide +kernel
  · decide +kernel

/-- A fault on the second page of the block is not found. -/
theorem second_page_not_found :
    (0x11000 : UInt64) % 4096 = 0 ∧
      twoPageContext.controlPlane.getRegion twoPageBlock.regionId = .ok twoPageBlock ∧
      unitOf twoPageBlock 0x11000 = 0x10000 ∧
      handlePageFaultAsyncInner twoPageContext 0x11000 ⟨true, true, true⟩ =
        (.error (.stagingPoolError "Page 0x11000 not found"), twoPageContext) ∧
      ¬ FindsUnit twoPageContext twoPageBlock 0x11000 := by
  have hregion : twoPageContext.controlPlane.regions.lookup twoPageBlock.regionId =
      some twoPageBlock := by decide +kernel
  have hentry : twoPageContext.controlPlane.lookupPageState 0x11000 = none := by decide +kernel
  have htext : "Page " ++ hex 0x11000 ++ " not found" = "Page 0x11000 not found" := by decide +kernel
  refine ⟨by decide, ?_, by decide +kernel, ?_, ?_⟩
  · rw [ControlPlaneManager.getRegion, hregion]
  · rw [handlePageFaultAsyncInner, hentry, htext]
  · intro h
    obtain ⟨⟨entry, hsome, -⟩, -⟩ := h
    rw [hentry] at hsome
    cases hsome

end Uffd
end Virthub.Klnk
