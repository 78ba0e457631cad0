import Mathlib.Init

/-! Domain types of the KLNK engine: node and region identifiers, region descriptors,
coherence entries and remote endpoints. Widths follow the source; `usize` is 64 bits. -/
namespace Virthub.Klnk

/-- Identifier of a node in the cluster mesh. -/
structure NodeId where
  id : UInt64
  deriving DecidableEq, Repr

structure GlobalRegionId where
  ownerPid : UInt32
  shmid : Int32
  deriving DecidableEq, Repr

structure MemoryProtectionFlags where
  bits : UInt32
  deriving DecidableEq, Repr

inductive PageCoherenceState
  | invalid
  | sharedRead
  | exclusiveWrite
  | inFlight
  deriving DecidableEq, Repr

structure MemoryRegionDescriptor where
  regionId : GlobalRegionId
  mainVaddr : UInt64
  regionSize : UInt64
  stagingVaddr : UInt64
  stagingNumPages : UInt64
  stagingPageSize : UInt64
  protFlags : MemoryProtectionFlags
  memFlags : UInt32
  version : UInt64
  deriving DecidableEq, Repr

/-- The bounds check of the address ranges; both sums wrap. -/
def rangeWithin (base size vaddr len : UInt64) : Bool :=
  decide (vaddr ≥ base) && decide (vaddr + len ≤ base + size)

namespace MemoryRegionDescriptor

def containsRange (self : MemoryRegionDescriptor) (vaddr len : UInt64) : Bool :=
  rangeWithin self.mainVaddr self.regionSize vaddr len

/-- Offset of an address from the base of the region. -/
def offsetOf (self : MemoryRegionDescriptor) (vaddr : UInt64) : Option UInt64 :=
  if vaddr ≥ self.mainVaddr ∧ vaddr < self.mainVaddr + self.regionSize then
    some (vaddr - self.mainVaddr)
  else none

end MemoryRegionDescriptor

/-- State of one coherence unit, whose size is `pageSize`. -/
structure DistributedPageEntry where
  pageVaddr : UInt64
  pageSize : UInt64
  coherenceState : PageCoherenceState
  primaryOwner : NodeId
  replicaHolders : List NodeId
  version : UInt64
  metadata : List UInt8
  deriving DecidableEq, Repr

def DistributedPageEntry.newWithMetadata (pageVaddr pageSize : UInt64) (owner : NodeId)
    (metadata : List UInt8) : DistributedPageEntry where
  pageVaddr := pageVaddr
  pageSize := pageSize
  coherenceState := .invalid
  primaryOwner := owner
  replicaHolders := []
  version := 0
  metadata := metadata

structure SocketAddr where
  ip : List UInt8
  port : UInt16
  deriving DecidableEq, Repr

structure RemoteEndpointInfo where
  nodeId : NodeId
  socketAddr : SocketAddr
  metadataVaddr : UInt64
  metadataRkey : UInt32
  metadataLen : UInt64
  metadataVersion : UInt64
  invalidationVaddr : UInt64
  invalidationRkey : UInt32
  invalidationLen : UInt64
  numaNode : UInt32
  supportsGdr : Bool
  deriving DecidableEq, Repr

def RemoteEndpointInfo.new (nodeId : NodeId) (socketAddr : SocketAddr) : RemoteEndpointInfo :=
  ⟨nodeId, socketAddr, 0, 0, 0, 0, 0, 0, 0, 0, false⟩

end Virthub.Klnk
