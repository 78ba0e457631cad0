import Virthub.Connectors.Metadata
import Virthub.Klnk.Rma.TransportEngine
import Virthub.Lib.Map
import Virthub.Lib.Trace

/-! The vLLM connector: which region a block has, and the policy and the sidecar of the block. Of the
configuration only `enable_gdr` is read. -/
namespace Virthub.Connectors
open Virthub.Klnk Virthub.Klnk.Rma Virthub.Lib Virthub.Precision

inductive VllmConnectorError where
  | rmaEngineFailed (e : RmaError)
  | blockNotFound (blockId : UInt64)
  | rkeyNotFound (rkey : UInt32)
  deriving DecidableEq, Repr

structure VllmBlockMeta where
  blockId : UInt64
  vaddr : UInt64
  sizeBytes : UInt64
  gpuDeviceId : UInt32
  rkey : UInt32
  lkey : UInt32
  precisionPolicy : Option PackedBlockPolicy
  sidecar : Option PspKvSidecarDescriptor
  deriving DecidableEq

structure VirthubVllmConnector where
  enableGdr : Bool
  rmaEngine : RmaTransportEngine
  registeredBlocks : AList fun _ : UInt64 => RegisteredRegion
  blockPolicies : AList fun _ : UInt64 => PackedBlockPolicy
  blockSidecars : AList fun _ : UInt64 => PspKvSidecarDescriptor

/-- Deregistration of regions one after the other, up to the first that fails. -/
def deregisterAll (engine : RmaTransportEngine) :
    List RegisteredRegion → Except RmaError Unit × RmaTransportEngine
  | [] => (.ok (), engine)
  | region :: regions =>
    match engine.deregisterMemoryRegion region.rkey with
    | (.error e, engine) => (.error e, engine)
    | (.ok _, engine) => deregisterAll engine regions

theorem deregisterAll_of_live {engine : RmaTransportEngine} (h : engine.Coherent)
    {region : RegisteredRegion} (hl : engine.Live region.rkey) (regions : List RegisteredRegion) :
    deregisterAll engine (region :: regions) =
      deregisterAll (engine.deregisterMemoryRegion region.rkey).2 regions := by
  have hok := (RmaTransportEngine.deregisterMemoryRegion_spec h region.rkey).2.1.mpr hl
  rw [deregisterAll]
  rcases hresult : engine.deregisterMemoryRegion region.rkey with ⟨e | _, engine'⟩
  · rw [hresult] at hok
    cases hok
  · rfl

theorem deregisterAll_of_dead {engine : RmaTransportEngine} (h : engine.Coherent)
    {region : RegisteredRegion} (hl : ¬ engine.Live region.rkey) (regions : List RegisteredRegion) :
    ∃ e, deregisterAll engine (region :: regions) =
      (.error e, (engine.deregisterMemoryRegion region.rkey).2) := by
  have hok := (RmaTransportEngine.deregisterMemoryRegion_spec h region.rkey).2.1
  rw [deregisterAll]
  rcases hresult : engine.deregisterMemoryRegion region.rkey with ⟨e | _, engine'⟩
  · exact ⟨e, rfl⟩
  · rw [hresult] at hok
    exact absurd (hok.mp rfl) hl

/-- All regions can be deregistered exactly if their keys are live and different. -/
theorem deregisterAll_ok_iff {engine : RmaTransportEngine} (h : engine.Coherent)
    (regions : List RegisteredRegion) :
    (deregisterAll engine regions).1 = .ok () ↔
      (regions.map (·.rkey)).Nodup ∧ ∀ r ∈ regions, engine.Live r.rkey := by
  induction regions generalizing engine with
  | nil => exact iff_of_true rfl ⟨List.nodup_nil, by simp⟩
  | cons region regions ih =>
    obtain ⟨hcoherent, -, hrest⟩ := RmaTransportEngine.deregisterMemoryRegion_spec h region.rkey
    by_cases hl : engine.Live region.rkey
    · rw [deregisterAll_of_live h hl, ih hcoherent, List.map_cons, List.nodup_cons, List.forall_mem_cons]
      constructor
      · intro ⟨hnodup, hlive⟩
        refine ⟨⟨?_, hnodup⟩, hl, fun r hr => ((hrest _).mp (hlive r hr)).1⟩
        intro hmem
        obtain ⟨r, hr, hkey⟩ := List.mem_map.mp hmem
        exact ((hrest _).mp (hlive r hr)).2 hkey
      · intro ⟨⟨hfresh, hnodup⟩, _, hlive⟩
        refine ⟨hnodup, fun r hr => (hrest _).mpr ⟨hlive r hr, ?_⟩⟩
        intro hkey
        exact hfresh (List.mem_map.mpr ⟨r, hr, hkey⟩)
    · obtain ⟨e, he⟩ := deregisterAll_of_dead h hl regions
      rw [he]
      refine iff_of_false (by simp) ?_
      intro ⟨_, hlive⟩
      exact hl (hlive region List.mem_cons_self)

theorem coherent_deregisterAll {engine : RmaTransportEngine} (h : engine.Coherent)
    (regions : List RegisteredRegion) : (deregisterAll engine regions).2.Coherent := by
  induction regions generalizing engine with
  | nil => exact h
  | cons region regions ih =>
    have hnext := (RmaTransportEngine.deregisterMemoryRegion_spec h region.rkey).1
    by_cases hl : engine.Live region.rkey
    · rw [deregisterAll_of_live h hl]
      exact ih hnext
    · obtain ⟨e, he⟩ := deregisterAll_of_dead h hl regions
      rw [he]
      exact hnext

namespace VirthubVllmConnector

def new (enableGdr : Bool) : VirthubVllmConnector where
  enableGdr
  rmaEngine := .autoDetect
  registeredBlocks := ∅
  blockPolicies := ∅
  blockSidecars := ∅

def gpuOpt (self : VirthubVllmConnector) (gpuDeviceId : UInt32) : Option UInt32 :=
  if self.enableGdr then some gpuDeviceId else none

def registerKvBlockWithPolicy (self : VirthubVllmConnector) (blockId vaddr sizeBytes : UInt64)
    (gpuDeviceId : UInt32) (precisionPolicy : Option PackedBlockPolicy)
    (sidecar : Option PspKvSidecarDescriptor) :
    Except VllmConnectorError VllmBlockMeta × VirthubVllmConnector :=
  match self.rmaEngine.registerMemoryRegion vaddr sizeBytes (self.gpuOpt gpuDeviceId) with
  | (.error e, rmaEngine) => (.error (.rmaEngineFailed e), { self with rmaEngine })
  | (.ok region, rmaEngine) =>
    (.ok ⟨blockId, region.vaddr, region.length, gpuDeviceId, region.rkey, region.lkey, precisionPolicy,
      sidecar⟩,
      { self with
        rmaEngine
        registeredBlocks := self.registeredBlocks.insert blockId region
        blockPolicies := attach self.blockPolicies blockId precisionPolicy
        blockSidecars := attach self.blockSidecars blockId sidecar })

/-- A block that has been found leaves the map of blocks, and its metadata goes only if its region can be
deregistered. -/
def dropBlock (self : VirthubVllmConnector) (blockId : UInt64) (region : RegisteredRegion) :
    Except VllmConnectorError Unit × VirthubVllmConnector :=
  let self := { self with registeredBlocks := self.registeredBlocks.erase blockId }
  match self.rmaEngine.deregisterMemoryRegion region.rkey with
  | (.error e, rmaEngine) => (.error (.rmaEngineFailed e), { self with rmaEngine })
  | (.ok _, rmaEngine) =>
    (.ok (), { self with
      rmaEngine
      blockPolicies := self.blockPolicies.erase blockId
      blockSidecars := self.blockSidecars.erase blockId })

def unregisterKvBlock (self : VirthubVllmConnector) (blockId : UInt64) :
    Except VllmConnectorError Unit × VirthubVllmConnector :=
  match self.registeredBlocks.lookup blockId with
  | some region => self.dropBlock blockId region
  | none => (.error (.blockNotFound blockId), self)

/-- The first block with the key, in the order of the loop over the map. -/
def blockWithRkey (self : VirthubVllmConnector) (rank : UInt64 → ℕ) (rkey : UInt32) :
    Option (Σ _ : UInt64, RegisteredRegion) :=
  (visit rank self.registeredBlocks).find? fun entry => entry.2.rkey = rkey

def deregisterMemoryRegion (self : VirthubVllmConnector) (rank : UInt64 → ℕ) (rkey : UInt32) :
    Except VllmConnectorError Unit × VirthubVllmConnector :=
  match self.blockWithRkey rank rkey with
  | some entry => self.dropBlock entry.1 entry.2
  | none => (.error (.rkeyNotFound rkey), self)

/-- The regions in the order in which the map is drained. -/
def drained (self : VirthubVllmConnector) (rank : UInt64 → ℕ) : List RegisteredRegion :=
  (visit rank self.registeredBlocks).map fun entry => entry.2

/-- An error leaves the loop, and the map is emptied all the same. -/
def close (self : VirthubVllmConnector) (rank : UInt64 → ℕ) :
    Except VllmConnectorError Unit × VirthubVllmConnector :=
  let drained := self.drained rank
  let self := { self with registeredBlocks := ∅ }
  match deregisterAll self.rmaEngine drained with
  | (.error e, rmaEngine) => (.error (.rmaEngineFailed e), { self with rmaEngine })
  | (.ok _, rmaEngine) => (.ok (), { self with rmaEngine, blockPolicies := ∅, blockSidecars := ∅ })

/-- A read from a peer; `fetch_remote_kv_block` is the same. -/
def swapInRemoteBlock (self : VirthubVllmConnector) (peerAddr : SocketAddr) (remoteVaddr : UInt64)
    (remoteRkey : UInt32) (localVaddr sizeBytes : UInt64) :
    Except VllmConnectorError Unit × VirthubVllmConnector :=
  match self.rmaEngine.rdmaRead peerAddr remoteVaddr remoteRkey localVaddr sizeBytes with
  | (.error e, rmaEngine) => (.error (.rmaEngineFailed e), { self with rmaEngine })
  | (.ok _, rmaEngine) => (.ok (), { self with rmaEngine })

/-- A region without a block. -/
def registerKvCache (self : VirthubVllmConnector) (vaddr sizeBytes : UInt64) (gpuDeviceId : UInt32) :
    Except VllmConnectorError RegisteredRegion × VirthubVllmConnector :=
  match self.rmaEngine.registerMemoryRegion vaddr sizeBytes (self.gpuOpt gpuDeviceId) with
  | (.error e, rmaEngine) => (.error (.rmaEngineFailed e), { self with rmaEngine })
  | (.ok region, rmaEngine) => (.ok region, { self with rmaEngine })

def getBlockPolicy (self : VirthubVllmConnector) (blockId : UInt64) : Option PackedBlockPolicy :=
  self.blockPolicies.lookup blockId

def getBlockSidecar (self : VirthubVllmConnector) (blockId : UInt64) : Option PspKvSidecarDescriptor :=
  self.blockSidecars.lookup blockId

end VirthubVllmConnector

inductive VllmCall where
  | registerKvBlock (blockId vaddr sizeBytes : UInt64) (gpuDeviceId : UInt32)
      (precisionPolicy : Option PackedBlockPolicy) (sidecar : Option PspKvSidecarDescriptor)
  | unregisterKvBlock (blockId : UInt64)
  | deregisterMemoryRegion (rank : UInt64 → ℕ) (rkey : UInt32)
  | close (rank : UInt64 → ℕ)

inductive VllmAnswer where
  | registered (answer : Except VllmConnectorError VllmBlockMeta)
  | finished (answer : Except VllmConnectorError Unit)

namespace VirthubVllmConnector

def step (self : VirthubVllmConnector) : VllmCall → VllmAnswer × VirthubVllmConnector
  | .registerKvBlock blockId vaddr sizeBytes gpuDeviceId precisionPolicy sidecar =>
    (self.registerKvBlockWithPolicy blockId vaddr sizeBytes gpuDeviceId precisionPolicy sidecar).map
      .registered id
  | .unregisterKvBlock blockId => (self.unregisterKvBlock blockId).map .finished id
  | .deregisterMemoryRegion rank rkey => (self.deregisterMemoryRegion rank rkey).map .finished id
  | .close rank => (self.close rank).map .finished id

/-- A registration fails in the engine, or the block gets its region and the metadata that is given. -/
theorem register_cases (self : VirthubVllmConnector) (blockId vaddr sizeBytes : UInt64) (gpuDeviceId : UInt32)
    (precisionPolicy : Option PackedBlockPolicy) (sidecar : Option PspKvSidecarDescriptor) :
    let engine := self.rmaEngine.registerMemoryRegion vaddr sizeBytes (self.gpuOpt gpuDeviceId)
    let result := self.registerKvBlockWithPolicy blockId vaddr sizeBytes gpuDeviceId precisionPolicy sidecar
    (∃ e, engine.1 = .error e ∧
      result = (.error (.rmaEngineFailed e), { self with rmaEngine := engine.2 })) ∨
    ∃ region, engine.1 = .ok region ∧
      result = (.ok ⟨blockId, region.vaddr, region.length, gpuDeviceId, region.rkey, region.lkey,
        precisionPolicy, sidecar⟩, { self with
          rmaEngine := engine.2
          registeredBlocks := self.registeredBlocks.insert blockId region
          blockPolicies := attach self.blockPolicies blockId precisionPolicy
          blockSidecars := attach self.blockSidecars blockId sidecar }) := by
  unfold registerKvBlockWithPolicy
  rcases self.rmaEngine.registerMemoryRegion vaddr sizeBytes (self.gpuOpt gpuDeviceId) with
    ⟨e | region, engine⟩
  · exact .inl ⟨e, rfl, rfl⟩
  · exact .inr ⟨region, rfl, rfl⟩

/-- A block is dropped with its metadata if its region is deregistered, and without it otherwise. -/
theorem dropBlock_cases (self : VirthubVllmConnector) (blockId : UInt64) (region : RegisteredRegion) :
    let engine := self.rmaEngine.deregisterMemoryRegion region.rkey
    (∃ e, engine.1 = .error e ∧
      self.dropBlock blockId region = (.error (.rmaEngineFailed e), { self with
        rmaEngine := engine.2
        registeredBlocks := self.registeredBlocks.erase blockId })) ∨
    engine.1 = .ok () ∧
      self.dropBlock blockId region = (.ok (), { self with
        rmaEngine := engine.2
        registeredBlocks := self.registeredBlocks.erase blockId
        blockPolicies := self.blockPolicies.erase blockId
        blockSidecars := self.blockSidecars.erase blockId }) := by
  unfold dropBlock
  dsimp only
  rcases self.rmaEngine.deregisterMemoryRegion region.rkey with ⟨e | _, engine⟩
  · exact .inl ⟨e, rfl, rfl⟩
  · exact .inr ⟨rfl, rfl⟩

/-- The connector is closed with its metadata if all regions are deregistered, and without it otherwise. -/
theorem close_cases (self : VirthubVllmConnector) (rank : UInt64 → ℕ) :
    let engine := deregisterAll self.rmaEngine (self.drained rank)
    (∃ e, engine.1 = .error e ∧
      self.close rank = (.error (.rmaEngineFailed e), { self with
        rmaEngine := engine.2
        registeredBlocks := ∅ })) ∨
    engine.1 = .ok () ∧
      self.close rank = (.ok (), { self with
        rmaEngine := engine.2
        registeredBlocks := ∅
        blockPolicies := ∅
        blockSidecars := ∅ }) := by
  unfold close
  dsimp only
  rcases deregisterAll self.rmaEngine (self.drained rank) with ⟨e | _, engine⟩
  · exact .inl ⟨e, rfl, rfl⟩
  · exact .inr ⟨rfl, rfl⟩

theorem blockWithRkey_some {self : VirthubVllmConnector} {rank : UInt64 → ℕ} {rkey : UInt32}
    {entry : Σ _ : UInt64, RegisteredRegion} (h : self.blockWithRkey rank rkey = some entry) :
    self.registeredBlocks.lookup entry.1 = some entry.2 ∧ entry.2.rkey = rkey := by
  have hkey := List.find?_some h
  exact ⟨mem_visit.mp (List.mem_of_find?_eq_some h), of_decide_eq_true hkey⟩

theorem blockWithRkey_none {self : VirthubVllmConnector} {rank : UInt64 → ℕ} {rkey : UInt32}
    (h : self.blockWithRkey rank rkey = none) {blockId : UInt64} {region : RegisteredRegion}
    (hl : self.registeredBlocks.lookup blockId = some region) : region.rkey ≠ rkey := by
  intro hkey
  exact List.find?_eq_none.mp h ⟨blockId, region⟩ (mem_visit.mpr hl) (decide_eq_true hkey)

theorem coherent_dropBlock {self : VirthubVllmConnector} (h : self.rmaEngine.Coherent) (blockId : UInt64)
    (region : RegisteredRegion) : (self.dropBlock blockId region).2.rmaEngine.Coherent := by
  have hcoherent := (RmaTransportEngine.deregisterMemoryRegion_spec h region.rkey).1
  rcases self.dropBlock_cases blockId region with ⟨e, -, hresult⟩ | ⟨-, hresult⟩
  all_goals
    rw [hresult]
    exact hcoherent

/-- Whatever is called, the engine and its provider keep the same regions. -/
theorem coherent_step {self : VirthubVllmConnector} (h : self.rmaEngine.Coherent) (call : VllmCall) :
    (self.step call).2.rmaEngine.Coherent := by
  cases call with
  | registerKvBlock blockId vaddr sizeBytes gpuDeviceId precisionPolicy sidecar =>
    have hcoherent :=
      (RmaTransportEngine.registerMemoryRegion_spec h vaddr sizeBytes (self.gpuOpt gpuDeviceId)).1
    simp only [step]
    rcases self.register_cases blockId vaddr sizeBytes gpuDeviceId precisionPolicy sidecar with
      ⟨e, -, hresult⟩ | ⟨region, -, hresult⟩
    all_goals
      rw [hresult]
      exact hcoherent
  | unregisterKvBlock blockId =>
    simp only [step, unregisterKvBlock]
    cases self.registeredBlocks.lookup blockId with
    | none => exact h
    | some region => exact coherent_dropBlock h blockId region
  | deregisterMemoryRegion rank rkey =>
    simp only [step, deregisterMemoryRegion]
    cases self.blockWithRkey rank rkey with
    | none => exact h
    | some entry => exact coherent_dropBlock h entry.1 entry.2
  | close rank =>
    have hcoherent := coherent_deregisterAll h (self.drained rank)
    simp only [step]
    rcases self.close_cases rank with ⟨e, -, hresult⟩ | ⟨-, hresult⟩
    all_goals
      rw [hresult]
      exact hcoherent

end VirthubVllmConnector

end Virthub.Connectors
