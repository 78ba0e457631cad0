import Virthub.Klnk.Core.Domain
import Mathlib.Data.List.AList
import Mathlib.Algebra.Ring.Nat

/-! The control plane: regions, page states keyed by the base address of their coherence unit,
remote nodes and locks. A concurrent map of the source is an association list, and each call is
one step. A `usize` is 64 bits and arithmetic wraps as in a release build. -/
namespace Virthub.Klnk

inductive ControlPlaneError where
  | regionAlreadyExists (regionId : GlobalRegionId)
  | regionNotFound (regionId : GlobalRegionId)
  | addressNotMapped (regionId : GlobalRegionId) (vaddr : UInt64)
  | lockConflict (resourceId : UInt64) (clientPid : UInt32)
  | lockNotHeld (resourceId : UInt64) (clientPid : UInt32)
  deriving DecidableEq, Repr

/-- A number as the format `0x..:x` of the source prints it. -/
def hex (w : UInt64) : String := "0x" ++ String.ofList (Nat.toDigits 16 w.toNat)

def GlobalRegionId.display (r : GlobalRegionId) : String :=
  "Region(PID:" ++ toString r.ownerPid ++ ", SHMID:" ++ toString r.shmid ++ ")"

def ControlPlaneError.display : ControlPlaneError → String
  | .regionAlreadyExists r => "Region already registered: " ++ r.display
  | .regionNotFound r => "Region not found: " ++ r.display
  | .addressNotMapped r vaddr =>
    "Virtual address " ++ hex vaddr ++ " not mapped in region " ++ r.display
  | .lockConflict res pid =>
    "Lock acquisition conflict for resource " ++ hex res ++ " by client PID " ++ toString pid
  | .lockNotHeld res pid =>
    "Lock release error: resource " ++ hex res ++ " not held by client PID " ++ toString pid

/-- State of a distributed lock. -/
structure LockState where
  resourceId : UInt64
  currentOwnerPid : Option UInt32
  waitingPids : List UInt32
  deriving DecidableEq, Repr

structure ControlPlaneManager where
  localNodeId : NodeId
  regions : AList fun _ : GlobalRegionId => MemoryRegionDescriptor
  pageStates : AList fun _ : UInt64 => DistributedPageEntry
  remoteNodes : AList fun _ : NodeId => RemoteEndpointInfo
  locks : AList fun _ : UInt64 => LockState

/-- Size of the coherence units of a region. -/
def MemoryRegionDescriptor.pageSize (d : MemoryRegionDescriptor) : UInt64 :=
  max d.stagingPageSize 4096

def MemoryRegionDescriptor.endAddr (d : MemoryRegionDescriptor) : UInt64 :=
  d.mainVaddr + d.regionSize

/-- The loop `while curr_addr < end_addr` over the units of a region. No address comes up twice
in a loop that ends, so one that is not over after `2 ^ 64` rounds never ends; that is `none`. -/
def unitLoop {σ : Type} (body : UInt64 → σ → σ) (pageSize endAddr : UInt64) :
    ℕ → UInt64 → σ → Option σ
  | 0, _, _ => none
  | fuel + 1, currAddr, s =>
    if currAddr < endAddr then
      unitLoop body pageSize endAddr fuel (currAddr + pageSize) (body currAddr s)
    else some s

namespace ControlPlaneManager

def new (localNodeId : NodeId) : ControlPlaneManager := ⟨localNodeId, ∅, ∅, ∅, ∅⟩

def registerRegionWithMetadata (self : ControlPlaneManager) (descriptor : MemoryRegionDescriptor)
    (metadata : List UInt8) : Option (Except ControlPlaneError Unit × ControlPlaneManager) :=
  match self.regions.lookup descriptor.regionId with
  | some _ => some (.error (.regionAlreadyExists descriptor.regionId), self)
  | none =>
    let pages := unitLoop
      (fun currAddr pages => pages.insert currAddr
        (DistributedPageEntry.newWithMetadata currAddr descriptor.pageSize self.localNodeId metadata))
      descriptor.pageSize descriptor.endAddr (2 ^ 64) descriptor.mainVaddr self.pageStates
    pages.map fun pages =>
      (.ok (), { self with
        pageStates := pages, regions := self.regions.insert descriptor.regionId descriptor })

def registerRegion (self : ControlPlaneManager) (descriptor : MemoryRegionDescriptor) :
    Option (Except ControlPlaneError Unit × ControlPlaneManager) :=
  self.registerRegionWithMetadata descriptor []

def deregisterRegion (self : ControlPlaneManager) (regionId : GlobalRegionId) :
    Option (Except ControlPlaneError Unit × ControlPlaneManager) :=
  match self.regions.lookup regionId with
  | none => some (.error (.regionNotFound regionId), self)
  | some descriptor =>
    let pages := unitLoop (fun currAddr pages => pages.erase currAddr) descriptor.pageSize
      descriptor.endAddr (2 ^ 64) descriptor.mainVaddr self.pageStates
    pages.map fun pages =>
      (.ok (), { self with pageStates := pages, regions := self.regions.erase regionId })

def getRegion (self : ControlPlaneManager) (regionId : GlobalRegionId) :
    Except ControlPlaneError MemoryRegionDescriptor :=
  match self.regions.lookup regionId with
  | some r => .ok r
  | none => .error (.regionNotFound regionId)

/-- `get_mut` of an entry followed by a change to it; `false` if there is no entry. -/
def modifyPage (self : ControlPlaneManager) (pageVaddr : UInt64)
    (change : DistributedPageEntry → DistributedPageEntry) : Bool × ControlPlaneManager :=
  match self.pageStates.lookup pageVaddr with
  | some entry => (true, { self with pageStates := self.pageStates.insert pageVaddr (change entry) })
  | none => (false, self)

def updatePageState (self : ControlPlaneManager) (pageVaddr : UInt64)
    (newState : PageCoherenceState) (owner : NodeId) : Bool × ControlPlaneManager :=
  self.modifyPage pageVaddr fun entry =>
    let entry := { entry with coherenceState := newState, primaryOwner := owner }
    if newState = .exclusiveWrite then
      { entry with version := entry.version + 1, replicaHolders := [] }
    else entry

def addReader (self : ControlPlaneManager) (pageVaddr : UInt64) (readerNode : NodeId) :
    Bool × ControlPlaneManager :=
  self.modifyPage pageVaddr fun entry =>
    if readerNode ∈ entry.replicaHolders then entry
    else { entry with replicaHolders := entry.replicaHolders ++ [readerNode] }

def removeReader (self : ControlPlaneManager) (pageVaddr : UInt64) (readerNode : NodeId) :
    Bool × ControlPlaneManager :=
  self.modifyPage pageVaddr fun entry =>
    { entry with replicaHolders := entry.replicaHolders.filter (· ≠ readerNode) }

def setPageMetadata (self : ControlPlaneManager) (pageVaddr : UInt64) (metadata : List UInt8) :
    Bool × ControlPlaneManager :=
  self.modifyPage pageVaddr fun entry => { entry with metadata := metadata }

/-- The batch form of an operation: one call after the other, with the list of results. -/
def batch {ι : Type} (op : ControlPlaneManager → ι → Bool × ControlPlaneManager)
    (self : ControlPlaneManager) : List ι → List Bool × ControlPlaneManager
  | [] => ([], self)
  | x :: xs =>
    let r := op self x
    let rs := batch op r.2 xs
    (r.1 :: rs.1, rs.2)

def updatePageStatesBatch (self : ControlPlaneManager)
    (updates : List (UInt64 × PageCoherenceState × NodeId)) : List Bool × ControlPlaneManager :=
  batch (fun cp u => cp.updatePageState u.1 u.2.1 u.2.2) self updates

def addReadersBatch (self : ControlPlaneManager) (additions : List (UInt64 × NodeId)) :
    List Bool × ControlPlaneManager :=
  batch (fun cp u => cp.addReader u.1 u.2) self additions

def removeReadersBatch (self : ControlPlaneManager) (removals : List (UInt64 × NodeId)) :
    List Bool × ControlPlaneManager :=
  batch (fun cp u => cp.removeReader u.1 u.2) self removals

def lookupPageState (self : ControlPlaneManager) (vaddr : UInt64) : Option DistributedPageEntry :=
  self.pageStates.lookup vaddr

def getPageVersion (self : ControlPlaneManager) (pageVaddr : UInt64) : Option UInt64 :=
  (self.pageStates.lookup pageVaddr).map (·.version)

def getPageMetadata (self : ControlPlaneManager) (pageVaddr : UInt64) : Option (List UInt8) :=
  (self.pageStates.lookup pageVaddr).map (·.metadata)

theorem lookup_modifyPage (self : ControlPlaneManager) (v a : UInt64)
    (change : DistributedPageEntry → DistributedPageEntry) :
    (self.modifyPage v change).2.lookupPageState a =
      if a = v then (self.lookupPageState a).map change else self.lookupPageState a := by
  unfold modifyPage lookupPageState
  by_cases ha : a = v
  · rw [if_pos ha, ha]
    cases hv : self.pageStates.lookup v with
    | none => exact hv
    | some entry => exact AList.lookup_insert _
  · rw [if_neg ha]
    cases self.pageStates.lookup v with
    | none => rfl
    | some entry => exact AList.lookup_insert_ne ha

/-- What a change leaves of an entry can be read off the table as before. -/
theorem map_lookup_modifyPage {γ : Type} (f : DistributedPageEntry → γ) (self : ControlPlaneManager)
    (v a : UInt64) {change : DistributedPageEntry → DistributedPageEntry}
    (hchange : ∀ entry, f (change entry) = f entry) :
    ((self.modifyPage v change).2.lookupPageState a).map f = (self.lookupPageState a).map f := by
  rw [lookup_modifyPage]
  split_ifs
  · rw [Option.map_map]
    congr 1
    funext entry
    exact hchange entry
  · rfl

theorem localNodeId_modifyPage (self : ControlPlaneManager) (v : UInt64)
    (change : DistributedPageEntry → DistributedPageEntry) :
    (self.modifyPage v change).2.localNodeId = self.localNodeId := by
  unfold modifyPage
  cases self.pageStates.lookup v with
  | none => rfl
  | some entry => rfl

theorem remoteNodes_modifyPage (self : ControlPlaneManager) (v : UInt64)
    (change : DistributedPageEntry → DistributedPageEntry) :
    (self.modifyPage v change).2.remoteNodes = self.remoteNodes := by
  unfold modifyPage
  cases self.pageStates.lookup v with
  | none => rfl
  | some entry => rfl

theorem regions_modifyPage (self : ControlPlaneManager) (v : UInt64)
    (change : DistributedPageEntry → DistributedPageEntry) :
    (self.modifyPage v change).2.regions = self.regions := by
  unfold modifyPage
  cases self.pageStates.lookup v with
  | none => rfl
  | some entry => rfl

theorem getPageMetadata_setPageMetadata (self : ControlPlaneManager) (v a : UInt64) (metadata : List UInt8) :
    (self.setPageMetadata v metadata).2.getPageMetadata a =
      if a = v then (self.lookupPageState a).map (fun _ => metadata) else self.getPageMetadata a := by
  have hmodify := self.lookup_modifyPage v a fun entry => { entry with metadata := metadata }
  change ((self.setPageMetadata v metadata).2.lookupPageState a).map (·.metadata) = _
  unfold setPageMetadata
  rw [hmodify]
  split_ifs
  · rw [Option.map_map]
    rfl
  · rfl

theorem coherence_addReader (cp : ControlPlaneManager) (v w : UInt64) (n : NodeId) :
    ((cp.addReader w n).2.lookupPageState v).map (·.coherenceState) =
      (cp.lookupPageState v).map (·.coherenceState) := by
  apply map_lookup_modifyPage
  intro entry
  split_ifs <;> rfl

def getRemoteNode (self : ControlPlaneManager) (nodeId : NodeId) : Option RemoteEndpointInfo :=
  self.remoteNodes.lookup nodeId

/-- The lock of a resource, free if there is none yet. -/
def lockEntry (self : ControlPlaneManager) (resourceId : UInt64) : LockState :=
  (self.locks.lookup resourceId).getD ⟨resourceId, none, []⟩

def acquireLock (self : ControlPlaneManager) (resourceId : UInt64) (clientPid : UInt32) :
    Except ControlPlaneError Unit × ControlPlaneManager :=
  let lock := self.lockEntry resourceId
  match lock.currentOwnerPid with
  | none =>
    (.ok (), { self with
      locks := self.locks.insert resourceId { lock with currentOwnerPid := some clientPid } })
  | some owner =>
    if owner = clientPid then (.ok (), self)
    else
      let waiting :=
        if clientPid ∈ lock.waitingPids then lock.waitingPids else lock.waitingPids ++ [clientPid]
      (.error (.lockConflict resourceId clientPid), { self with
        locks := self.locks.insert resourceId { lock with waitingPids := waiting } })

def releaseLock (self : ControlPlaneManager) (resourceId : UInt64) (clientPid : UInt32) :
    Except ControlPlaneError Unit × ControlPlaneManager :=
  match self.locks.lookup resourceId with
  | none => (.error (.lockNotHeld resourceId clientPid), self)
  | some lock =>
    if lock.currentOwnerPid = some clientPid then
      -- the oldest waiter becomes the owner
      (.ok (), { self with
        locks := self.locks.insert resourceId { lock with
          currentOwnerPid := lock.waitingPids.head?, waitingPids := lock.waitingPids.tail } })
    else (.error (.lockNotHeld resourceId clientPid), self)

/-- The owner of a lock. -/
def lockOwner (self : ControlPlaneManager) (resourceId : UInt64) : Option UInt32 :=
  (self.lockEntry resourceId).currentOwnerPid

theorem lockEntry_insert (self : ControlPlaneManager) (r r' : UInt64) (l : LockState) :
    lockEntry { self with locks := self.locks.insert r l } r' =
      if r' = r then l else self.lockEntry r' := by
  unfold lockEntry
  dsimp only
  by_cases hr : r' = r
  · rw [if_pos hr, hr, AList.lookup_insert]
    rfl
  · rw [if_neg hr, AList.lookup_insert_ne hr]

end ControlPlaneManager

/-- The calls that change regions and page states. -/
inductive PageCall where
  | registerRegion (descriptor : MemoryRegionDescriptor) (metadata : List UInt8)
  | deregisterRegion (regionId : GlobalRegionId)
  | updatePageState (pageVaddr : UInt64) (newState : PageCoherenceState) (owner : NodeId)
  | updatePageStatesBatch (updates : List (UInt64 × PageCoherenceState × NodeId))
  | addReader (pageVaddr : UInt64) (readerNode : NodeId)
  | addReadersBatch (additions : List (UInt64 × NodeId))
  | removeReader (pageVaddr : UInt64) (readerNode : NodeId)
  | removeReadersBatch (removals : List (UInt64 × NodeId))
  | setPageMetadata (pageVaddr : UInt64) (metadata : List UInt8)
  deriving DecidableEq

inductive PageAnswer where
  | region (r : Except ControlPlaneError Unit)
  | flag (b : Bool)
  | flags (bs : List Bool)

namespace ControlPlaneManager

/-- The outcome of a region call; the answer is `none` if the call never returns. -/
def regionAnswer (self : ControlPlaneManager) :
    Option (Except ControlPlaneError Unit × ControlPlaneManager) →
      Option PageAnswer × ControlPlaneManager
  | some (r, self') => (some (.region r), self')
  | none => (none, self)

def pageStep (self : ControlPlaneManager) : PageCall → Option PageAnswer × ControlPlaneManager
  | .registerRegion d m => self.regionAnswer (self.registerRegionWithMetadata d m)
  | .deregisterRegion r => self.regionAnswer (self.deregisterRegion r)
  | .updatePageState a st o => Prod.map (some ∘ .flag) id (self.updatePageState a st o)
  | .updatePageStatesBatch us => Prod.map (some ∘ .flags) id (self.updatePageStatesBatch us)
  | .addReader a r => Prod.map (some ∘ .flag) id (self.addReader a r)
  | .addReadersBatch us => Prod.map (some ∘ .flags) id (self.addReadersBatch us)
  | .removeReader a r => Prod.map (some ∘ .flag) id (self.removeReader a r)
  | .removeReadersBatch us => Prod.map (some ∘ .flags) id (self.removeReadersBatch us)
  | .setPageMetadata a m => Prod.map (some ∘ .flag) id (self.setPageMetadata a m)

end ControlPlaneManager

end Virthub.Klnk
