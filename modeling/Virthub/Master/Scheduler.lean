import Mathlib.Data.List.MinMax
import Virthub.Klnk.Core.Domain
import Virthub.Lib.Binary64
import Virthub.Lib.Map

/-! The cluster scheduler: where a new allocation is placed. An atomic counter is a field of its node,
and arithmetic wraps as in a release build. -/
namespace Virthub.Master
open Virthub.Klnk Virthub.Lib

inductive SchedulingPolicy where
  | leastLoaded
  | roundRobin
  | numaAffinity
  deriving DecidableEq, Repr

inductive SchedulerError where
  | noNodeAvailable (requestedBytes : UInt64)
  | nodeNotFound (nodeId : NodeId)
  deriving DecidableEq, Repr

/-- The resources of a node. -/
structure NodeResourceCapacity where
  nodeId : NodeId
  totalMemoryBytes : UInt64
  allocatedMemoryBytes : UInt64
  numaNodes : UInt32
  isOnline : Bool
  deriving DecidableEq, Repr

namespace NodeResourceCapacity

def new (nodeId : NodeId) (totalMemoryBytes : UInt64) (numaNodes : UInt32) : NodeResourceCapacity :=
  ⟨nodeId, totalMemoryBytes, 0, numaNodes, true⟩

def availableMemoryBytes (self : NodeResourceCapacity) : UInt64 :=
  if self.totalMemoryBytes > self.allocatedMemoryBytes then
    self.totalMemoryBytes - self.allocatedMemoryBytes
  else 0

/-- The quotient of two numbers that were converted to binary64. -/
def loadRatio (self : NodeResourceCapacity) : ℚ :=
  if self.totalMemoryBytes = 0 then 1
  else
    ratToF64 (natToF64 self.allocatedMemoryBytes.toNat / natToF64 self.totalMemoryBytes.toNat)

end NodeResourceCapacity

structure PlacementDecision where
  selectedNodeId : NodeId
  targetNumaNode : UInt32
  allocatedVaddr : UInt64
  sizeBytes : UInt64
  shardId : UInt64
  deriving DecidableEq, Repr

structure ClusterScheduler where
  policy : SchedulingPolicy
  shardCount : UInt64
  nodes : AList fun _ : NodeId => NodeResourceCapacity
  nextRrIndex : UInt64

/-- What the scan keeps of a node. -/
structure Candidate where
  nodeId : NodeId
  available : UInt64
  loadRatio : ℚ
  numaNodes : UInt32

/-- The node as a candidate, unless it is offline, too full, or without the NUMA node of the hint. -/
def NodeResourceCapacity.candidate (self : NodeResourceCapacity) (sizeBytes : UInt64)
    (targetNumaHint : Option UInt32) : Option Candidate :=
  if ¬ self.isOnline then none
  else if self.availableMemoryBytes < sizeBytes then none
  else if ∃ hint ∈ targetNumaHint, self.numaNodes ≤ hint then none
  else some ⟨self.nodeId, self.availableMemoryBytes, self.loadRatio, self.numaNodes⟩

/-- The virtual address of every allocation on a node. -/
def vaddrOf (nodeId : NodeId) : UInt64 := 0x7fff00000000 + nodeId.id * 0x1000000000

namespace ClusterScheduler

def new (policy : SchedulingPolicy) (shardCount : UInt64) : ClusterScheduler :=
  ⟨policy, shardCount, ∅, 0⟩

def registerNode (self : ClusterScheduler) (capacity : NodeResourceCapacity) : ClusterScheduler :=
  { self with nodes := self.nodes.insert capacity.nodeId capacity }

/-- The candidates of an allocation, in the order in which the map is iterated. -/
def candidates (self : ClusterScheduler) (rank : NodeId → ℕ) (sizeBytes : UInt64)
    (targetNumaHint : Option UInt32) : List Candidate :=
  (visit rank self.nodes).filterMap fun entry => entry.2.candidate sizeBytes targetNumaHint

/-- The choice among the candidates. Of two nodes with the same load ratio the first one counts. -/
def select (self : ClusterScheduler) (candidates : List Candidate) : Option Candidate :=
  match self.policy with
  | .leastLoaded => candidates.argmin Candidate.loadRatio
  | .roundRobin => candidates[self.nextRrIndex.toNat % candidates.length]?
  | .numaAffinity => candidates.head?

/-- The first part of `schedule_allocation`: the scan of the nodes and the choice of one. -/
def scan (self : ClusterScheduler) (rank : NodeId → ℕ) (sizeBytes : UInt64)
    (targetNumaHint : Option UInt32) : Except SchedulerError NodeId × ClusterScheduler :=
  let candidates := self.candidates rank sizeBytes targetNumaHint
  match self.select candidates with
  | none => (.error (.noNodeAvailable sizeBytes), self)
  | some selected =>
    (.ok selected.nodeId,
      if self.policy = .roundRobin then { self with nextRrIndex := self.nextRrIndex + 1 } else self)

/-- The second part: the reservation on the selected node. With no shards the remainder aborts the
process after the counter has been raised, which is `none`. -/
def reserve (self : ClusterScheduler) (selectedId : NodeId) (sizeBytes : UInt64)
    (targetNumaHint : Option UInt32) :
    Option (Except SchedulerError PlacementDecision) × ClusterScheduler :=
  match self.nodes.lookup selectedId with
  | none => (some (.error (.nodeNotFound selectedId)), self)
  | some node =>
    let raised := { node with allocatedMemoryBytes := node.allocatedMemoryBytes + sizeBytes }
    let self' := { self with nodes := self.nodes.insert selectedId raised }
    if self.shardCount = 0 then (none, self')
    else
      (some (.ok ⟨selectedId, targetNumaHint.getD 0, vaddrOf selectedId, sizeBytes,
        selectedId.id % self.shardCount⟩), self')

def scheduleAllocation (self : ClusterScheduler) (rank : NodeId → ℕ) (sizeBytes : UInt64)
    (targetNumaHint : Option UInt32) :
    Option (Except SchedulerError PlacementDecision) × ClusterScheduler :=
  match self.scan rank sizeBytes targetNumaHint with
  | (.error e, self) => (some (.error e), self)
  | (.ok selectedId, self) => self.reserve selectedId sizeBytes targetNumaHint

def releaseAllocation (self : ClusterScheduler) (nodeId : NodeId) (sizeBytes : UInt64) :
    ClusterScheduler :=
  match self.nodes.lookup nodeId with
  | none => self
  | some node =>
    let current := node.allocatedMemoryBytes
    let lowered := if current ≥ sizeBytes then current - sizeBytes else 0
    { self with nodes := self.nodes.insert nodeId { node with allocatedMemoryBytes := lowered } }

end ClusterScheduler

end Virthub.Master
