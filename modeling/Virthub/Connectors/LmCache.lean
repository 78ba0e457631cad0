import Virthub.Connectors.Metadata
import Virthub.Index.HashIndex
import Virthub.Klnk.Rma.TransportEngine
import Virthub.Store.TierManager

/-! The LMCache connector: the payload of a chunk, its region, and its policy and sidecar. Of the
configuration only `enable_gdr` is read. -/
namespace Virthub.Connectors
open Virthub.Index Virthub.Klnk.Rma Virthub.Lib Virthub.Precision Virthub.Store

inductive LmCacheConnectorError where
  | rmaEngineFailed (e : RmaError)
  | chunkNotFound (key : KvBlockKey)
  deriving DecidableEq, Repr

structure LmCacheChunkMeta where
  key : KvBlockKey
  tier : StorageTier
  vaddr : UInt64
  sizeBytes : UInt64
  gpuDeviceId : UInt32
  rkey : UInt32
  lkey : UInt32
  precisionPolicy : Option PackedBlockPolicy
  sidecar : Option PspKvSidecarDescriptor
  deriving DecidableEq

structure VirthubLmCacheConnector where
  enableGdr : Bool
  rmaEngine : RmaTransportEngine
  registeredChunks : AList fun _ : KvBlockKey => RegisteredRegion
  chunkPolicies : AList fun _ : KvBlockKey => PackedBlockPolicy
  chunkSidecars : AList fun _ : KvBlockKey => PspKvSidecarDescriptor
  localStore : AList fun _ : KvBlockKey => List UInt8

namespace VirthubLmCacheConnector

def new (enableGdr : Bool) : VirthubLmCacheConnector where
  enableGdr
  rmaEngine := .autoDetect
  registeredChunks := ∅
  chunkPolicies := ∅
  chunkSidecars := ∅
  localStore := ∅

def gpuOpt (self : VirthubLmCacheConnector) (gpuDeviceId : UInt32) : Option UInt32 :=
  if self.enableGdr then some gpuDeviceId else none

/-- The payload is stored before the region is registered. -/
def putChunkWithPolicy (self : VirthubLmCacheConnector) (key : KvBlockKey) (tier : StorageTier)
    (gpuDeviceId : UInt32) (payload : List UInt8) (vaddr len : UInt64)
    (precisionPolicy : Option PackedBlockPolicy) (sidecar : Option PspKvSidecarDescriptor) :
    Except LmCacheConnectorError LmCacheChunkMeta × VirthubLmCacheConnector :=
  let self := { self with localStore := self.localStore.insert key payload }
  match self.rmaEngine.registerMemoryRegion vaddr len (self.gpuOpt gpuDeviceId) with
  | (.error e, rmaEngine) => (.error (.rmaEngineFailed e), { self with rmaEngine })
  | (.ok region, rmaEngine) =>
    (.ok ⟨key, tier, region.vaddr, region.length, gpuDeviceId, region.rkey, region.lkey, precisionPolicy,
      sidecar⟩,
      { self with
        rmaEngine
        registeredChunks := self.registeredChunks.insert key region
        chunkPolicies := attach self.chunkPolicies key precisionPolicy
        chunkSidecars := attach self.chunkSidecars key sidecar })

def getChunk (self : VirthubLmCacheConnector) (key : KvBlockKey) :
    Except LmCacheConnectorError (List UInt8) :=
  match self.localStore.lookup key with
  | some payload => .ok payload
  | none => .error (.chunkNotFound key)

/-- An error of the engine leaves the policy and the sidecar of the chunk. -/
def removeChunk (self : VirthubLmCacheConnector) (key : KvBlockKey) :
    Except LmCacheConnectorError Unit × VirthubLmCacheConnector :=
  let self := { self with localStore := self.localStore.erase key }
  match self.registeredChunks.lookup key with
  | none =>
    (.ok (), { self with
      chunkPolicies := self.chunkPolicies.erase key
      chunkSidecars := self.chunkSidecars.erase key })
  | some region =>
    let self := { self with registeredChunks := self.registeredChunks.erase key }
    match self.rmaEngine.deregisterMemoryRegion region.rkey with
    | (.error e, rmaEngine) => (.error (.rmaEngineFailed e), { self with rmaEngine })
    | (.ok _, rmaEngine) =>
      (.ok (), { self with
        rmaEngine
        chunkPolicies := self.chunkPolicies.erase key
        chunkSidecars := self.chunkSidecars.erase key })

end VirthubLmCacheConnector

inductive LmCacheCall where
  | putChunk (key : KvBlockKey) (tier : StorageTier) (gpuDeviceId : UInt32) (payload : List UInt8)
      (vaddr len : UInt64) (precisionPolicy : Option PackedBlockPolicy)
      (sidecar : Option PspKvSidecarDescriptor)
  | getChunk (key : KvBlockKey)
  | removeChunk (key : KvBlockKey)

inductive LmCacheAnswer where
  | stored (answer : Except LmCacheConnectorError LmCacheChunkMeta)
  | fetched (answer : Except LmCacheConnectorError (List UInt8))
  | removed (answer : Except LmCacheConnectorError Unit)

namespace VirthubLmCacheConnector

def step (self : VirthubLmCacheConnector) : LmCacheCall → LmCacheAnswer × VirthubLmCacheConnector
  | .putChunk key tier gpuDeviceId payload vaddr len precisionPolicy sidecar =>
    (self.putChunkWithPolicy key tier gpuDeviceId payload vaddr len precisionPolicy sidecar).map .stored id
  | .getChunk key => (.fetched (self.getChunk key), self)
  | .removeChunk key => (self.removeChunk key).map .removed id

/-- A put stores the payload, whether or not the region can be registered. -/
theorem putChunk_spec {self : VirthubLmCacheConnector} (h : self.rmaEngine.Coherent) (key : KvBlockKey)
    (tier : StorageTier) (gpuDeviceId : UInt32) (payload : List UInt8) (vaddr len : UInt64)
    (precisionPolicy : Option PackedBlockPolicy) (sidecar : Option PspKvSidecarDescriptor) :
    let engine := self.rmaEngine.registerMemoryRegion vaddr len (self.gpuOpt gpuDeviceId)
    let result := self.putChunkWithPolicy key tier gpuDeviceId payload vaddr len precisionPolicy sidecar
    result.2.rmaEngine.Coherent ∧ result.2.localStore = self.localStore.insert key payload ∧
      ((∃ e, engine.1 = .error e ∧ result.1 = .error (.rmaEngineFailed e)) ∨
        (∃ region, engine.1 = .ok region) ∧ ∃ chunk, result.1 = .ok chunk) := by
  have hcoherent :=
    (RmaTransportEngine.registerMemoryRegion_spec h vaddr len (self.gpuOpt gpuDeviceId)).1
  have hgpu : ∀ store, gpuOpt { self with localStore := store } gpuDeviceId = self.gpuOpt gpuDeviceId :=
    fun _ => rfl
  simp only [putChunkWithPolicy, hgpu]
  rcases hengine : self.rmaEngine.registerMemoryRegion vaddr len (self.gpuOpt gpuDeviceId) with
    ⟨e | region, engine⟩
  all_goals rw [hengine] at hcoherent
  · exact ⟨hcoherent, rfl, .inl ⟨e, rfl, rfl⟩⟩
  · exact ⟨hcoherent, rfl, .inr ⟨⟨region, rfl⟩, _, rfl⟩⟩

/-- A remove ends the payload, and succeeds exactly if the region of the chunk is live or it has none. -/
theorem removeChunk_spec {self : VirthubLmCacheConnector} (h : self.rmaEngine.Coherent) (key : KvBlockKey) :
    (self.removeChunk key).2.rmaEngine.Coherent ∧
      (self.removeChunk key).2.localStore = self.localStore.erase key ∧
      ((self.removeChunk key).1 = .ok () ↔
        ∀ region, self.registeredChunks.lookup key = some region → self.rmaEngine.Live region.rkey) := by
  simp only [removeChunk]
  cases hl : self.registeredChunks.lookup key with
  | none => exact ⟨h, rfl, iff_of_true rfl fun region hr => by cases hr⟩
  | some region =>
    simp only [Option.some.injEq, forall_eq']
    obtain ⟨hcoherent, hok, -⟩ := RmaTransportEngine.deregisterMemoryRegion_spec h region.rkey
    rcases hengine : self.rmaEngine.deregisterMemoryRegion region.rkey with ⟨e | _, engine⟩
    all_goals rw [hengine] at hcoherent hok
    · refine ⟨hcoherent, rfl, ?_⟩
      rw [← hok]
      exact iff_of_false (by simp) (by simp)
    · exact ⟨hcoherent, rfl, iff_of_true rfl (hok.mp rfl)⟩

end VirthubLmCacheConnector

end Virthub.Connectors
