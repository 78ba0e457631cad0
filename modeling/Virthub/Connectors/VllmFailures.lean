import Virthub.Connectors.VllmRegions

/-! Calls of the vLLM connector that fail. A block leaves the map of blocks before its region is
deregistered, and the loop of `close` ends at the first region that cannot be deregistered. A region without a
block is never deregistered. -/
namespace Virthub.Connectors
open Virthub.Klnk Virthub.Klnk.Rma Virthub.Lib Virthub.Precision

/-- All calls that change a connector. -/
inductive ConnectorCall where
  | block (call : VllmCall)
  | swapInRemoteBlock (peerAddr : SocketAddr) (remoteVaddr : UInt64) (remoteRkey : UInt32)
      (localVaddr sizeBytes : UInt64)
  | registerKvCache (vaddr sizeBytes : UInt64) (gpuDeviceId : UInt32)

inductive ConnectorAnswer where
  | block (answer : VllmAnswer)
  | swappedIn (answer : Except VllmConnectorError Unit)
  | cache (answer : Except VllmConnectorError RegisteredRegion)

namespace VirthubVllmConnector

def stepAny (self : VirthubVllmConnector) : ConnectorCall → ConnectorAnswer × VirthubVllmConnector
  | .block call => (self.step call).map .block id
  | .swapInRemoteBlock peerAddr remoteVaddr remoteRkey localVaddr sizeBytes =>
    (self.swapInRemoteBlock peerAddr remoteVaddr remoteRkey localVaddr sizeBytes).map .swappedIn id
  | .registerKvCache vaddr sizeBytes gpuDeviceId =>
    (self.registerKvCache vaddr sizeBytes gpuDeviceId).map .cache id

theorem coherent_stepAny {self : VirthubVllmConnector} (h : self.rmaEngine.Coherent)
    (call : ConnectorCall) : (self.stepAny call).2.rmaEngine.Coherent := by
  cases call with
  | block call => exact coherent_step h call
  | swapInRemoteBlock peerAddr remoteVaddr remoteRkey localVaddr sizeBytes =>
    obtain ⟨provider, hp⟩ := h
    obtain ⟨p, hread, hregistry, -⟩ := hp.rdmaRead peerAddr remoteVaddr remoteRkey localVaddr sizeBytes
    simp only [stepAny, swapInRemoteBlock, hread, Prod.map, id_eq]
    exact ⟨p, rfl, hregistry ▸ hp.consistent, hregistry ▸ hp.agree⟩
  | registerKvCache vaddr sizeBytes gpuDeviceId =>
    have hcoherent :=
      (RmaTransportEngine.registerMemoryRegion_spec h vaddr sizeBytes (self.gpuOpt gpuDeviceId)).1
    simp only [stepAny, registerKvCache]
    generalize self.rmaEngine.registerMemoryRegion vaddr sizeBytes (self.gpuOpt gpuDeviceId) = result
      at hcoherent ⊢
    rcases result with ⟨e | region, engine⟩
    · exact hcoherent
    · exact hcoherent

def SameBlocks (self c : VirthubVllmConnector) : Prop :=
  c.registeredBlocks = self.registeredBlocks ∧ c.blockPolicies = self.blockPolicies ∧
    c.blockSidecars = self.blockSidecars

def Empty (self : VirthubVllmConnector) : Prop :=
  self.registeredBlocks = ∅ ∧ self.blockPolicies = ∅ ∧ self.blockSidecars = ∅ ∧
    ∀ k, ¬ self.rmaEngine.Live k

/-- A block that cannot be dropped is still there, and nothing is there after `close`. -/
def FailsCleanly (pre : VirthubVllmConnector) (answer : ConnectorAnswer) (post : VirthubVllmConnector) :
    ConnectorCall → Prop
  | .block (.unregisterKvBlock _) | .block (.deregisterMemoryRegion _ _) =>
    ∀ error, answer = .block (.finished (.error error)) → pre.SameBlocks post
  | .block (.close _) => post.Empty
  | _ => True

/-- The key of the block that the call drops is live. A connector that is closed gets to all live keys, and
gets through all keys unless no block has metadata. -/
def DropsLive (self : VirthubVllmConnector) : ConnectorCall → Prop
  | .block (.unregisterKvBlock blockId) =>
    ∀ r, self.registeredBlocks.lookup blockId = some r → self.rmaEngine.Live r.rkey
  | .block (.deregisterMemoryRegion _ rkey) => self.Held rkey → self.rmaEngine.Live rkey
  | .block (.close rank) =>
    let keys := (self.drained rank).map (·.rkey)
    (∀ k, self.rmaEngine.Live k → Reached self.rmaEngine.Live keys k) ∧
      ((keys.Nodup ∧ ∀ k ∈ keys, self.rmaEngine.Live k) ∨
        self.blockPolicies = ∅ ∧ self.blockSidecars = ∅)
  | _ => True

/-- A block that is dropped is gone, so a failure leaves a trace. -/
theorem dropBlock_failsCleanly_iff {self : VirthubVllmConnector} (h : self.rmaEngine.Coherent)
    {blockId : UInt64} {region : RegisteredRegion}
    (hl : self.registeredBlocks.lookup blockId = some region) :
    (∀ error, (self.dropBlock blockId region).1 = .error error →
      self.SameBlocks (self.dropBlock blockId region).2) ↔ self.rmaEngine.Live region.rkey := by
  have hok := (RmaTransportEngine.deregisterMemoryRegion_spec h region.rkey).2.1
  rcases self.dropBlock_cases blockId region with ⟨e, he, hresult⟩ | ⟨he, hresult⟩
  · rw [hresult]
    apply iff_of_false
    · intro hsame
      have hblocks : self.registeredBlocks.erase blockId = self.registeredBlocks := (hsame _ rfl).1
      rw [← hblocks, AList.lookup_erase] at hl
      cases hl
    · rw [← hok, he]
      exact nofun
  · rw [hresult]
    apply iff_of_true
    · intro error herror
      cases herror
    · exact hok.mp he

theorem close_empty_iff {self : VirthubVllmConnector} (h : self.rmaEngine.Coherent)
    (rank : UInt64 → ℕ) : (self.close rank).2.Empty ↔ self.DropsLive (.block (.close rank)) := by
  have hreached := deregisterAll_empties_iff h (self.drained rank)
  have hok := deregisterAll_ok_iff h (self.drained rank)
  have hkeys : (∀ r ∈ self.drained rank, self.rmaEngine.Live r.rkey) ↔
      ∀ k ∈ (self.drained rank).map (·.rkey), self.rmaEngine.Live k := List.forall_mem_map.symm
  rw [hkeys] at hok
  unfold Empty DropsLive
  rcases self.close_cases rank with ⟨e, he, hresult⟩ | ⟨he, hresult⟩
  · -- the loop has ended early, so the metadata is as it was
    rw [he] at hok
    rw [hresult]
    dsimp only
    rw [hreached, ← hok]
    simp only [true_and, reduceCtorEq, false_or]
    rw [← and_assoc]
    exact and_comm
  · rw [he] at hok
    rw [hresult]
    dsimp only
    rw [hreached, ← hok]
    simp only [true_and, true_or, and_true]

theorem unregisterKvBlock_failsCleanly_iff {self : VirthubVllmConnector} (h : self.rmaEngine.Coherent)
    (blockId : UInt64) :
    (∀ error, (self.unregisterKvBlock blockId).1 = .error error →
      self.SameBlocks (self.unregisterKvBlock blockId).2) ↔
      self.DropsLive (.block (.unregisterKvBlock blockId)) := by
  unfold unregisterKvBlock DropsLive
  cases hl : self.registeredBlocks.lookup blockId with
  | none =>
    apply iff_of_true
    · exact fun _ _ => ⟨rfl, rfl, rfl⟩
    · intro r hr
      rw [hl] at hr
      cases hr
  | some region =>
    dsimp only
    rw [dropBlock_failsCleanly_iff h hl]
    simp only [hl, Option.some.injEq, forall_eq']

theorem deregisterMemoryRegion_failsCleanly_iff {self : VirthubVllmConnector}
    (h : self.rmaEngine.Coherent) (rank : UInt64 → ℕ) (rkey : UInt32) :
    (∀ error, (self.deregisterMemoryRegion rank rkey).1 = .error error →
      self.SameBlocks (self.deregisterMemoryRegion rank rkey).2) ↔
      self.DropsLive (.block (.deregisterMemoryRegion rank rkey)) := by
  unfold deregisterMemoryRegion DropsLive
  cases hf : self.blockWithRkey rank rkey with
  | none =>
    apply iff_of_true
    · exact fun _ _ => ⟨rfl, rfl, rfl⟩
    · intro ⟨b, r, hb, hk⟩
      exact absurd hk (blockWithRkey_none hf hb)
  | some entry =>
    obtain ⟨hl, rfl⟩ := blockWithRkey_some hf
    dsimp only
    rw [dropBlock_failsCleanly_iff h hl]
    have hheld : self.Held entry.2.rkey := ⟨entry.1, entry.2, hl, rfl⟩
    exact (imp_iff_right hheld).symm

theorem failsCleanly_iff {self : VirthubVllmConnector} (h : self.rmaEngine.Coherent)
    (call : ConnectorCall) :
    self.FailsCleanly (self.stepAny call).1 (self.stepAny call).2 call ↔ self.DropsLive call := by
  cases call with
  | block call =>
    cases call with
    | registerKvBlock blockId vaddr sizeBytes gpuDeviceId precisionPolicy sidecar => exact Iff.rfl
    | unregisterKvBlock blockId =>
      rw [← unregisterKvBlock_failsCleanly_iff h]
      simp only [FailsCleanly, stepAny, step, Prod.map, ConnectorAnswer.block.injEq,
        VllmAnswer.finished.injEq, id_eq]
    | deregisterMemoryRegion rank rkey =>
      rw [← deregisterMemoryRegion_failsCleanly_iff h]
      simp only [FailsCleanly, stepAny, step, Prod.map, ConnectorAnswer.block.injEq,
        VllmAnswer.finished.injEq, id_eq]
    | close rank => exact close_empty_iff h rank
  | swapInRemoteBlock peerAddr remoteVaddr remoteRkey localVaddr sizeBytes => exact Iff.rfl
  | registerKvCache vaddr sizeBytes gpuDeviceId => exact Iff.rfl

/-- In a run from a new connector, failures leave the blocks as they were and `close` leaves nothing exactly
if every call of the run drops regions that are live. -/
theorem failsCleanly_run_iff (enableGdr : Bool) (calls : List ConnectorCall) :
    (∀ e ∈ trace stepAny (new enableGdr) calls, e.pre.FailsCleanly e.answer e.post e.call) ↔
      Along (fun _ => DropsLive) stepAny (new enableGdr) calls := by
  rw [forall_mem_trace_iff_along]
  apply along_iff_along (I := fun _ c => c.rmaEngine.Coherent)
  · exact RmaTransportEngine.coherent_autoDetect
  · exact fun _ c call h _ => coherent_stepAny h call
  · exact fun _ c call h => failsCleanly_iff h call

/-- Two blocks in one buffer: the second one is lost with an error. -/
theorem failsCleanly_fails_on_shared_buffer :
    ¬ ∀ (enableGdr : Bool) (calls : List ConnectorCall),
      ∀ e ∈ trace stepAny (new enableGdr) calls, e.pre.FailsCleanly e.answer e.post e.call := by
  intro h
  have hclean := h true _ _ (event_mem_trace stepAny (new true)
    [.block (.registerKvBlock 1 0x1000 4096 0 none none),
      .block (.registerKvBlock 2 0x1000 4096 0 none none), .block (.unregisterKvBlock 1)]
    (.block (.unregisterKvBlock 2)) [])
  have hsame := (hclean (.rmaEngineFailed (.memoryRegistrationFailed 0 0)) rfl).1
  have hkept : (none : Option RegisteredRegion) = some ⟨1, 1, 0x1000, 4096, some 0⟩ :=
    congrArg (AList.lookup 2) hsame
  cases hkept

end VirthubVllmConnector

end Virthub.Connectors
