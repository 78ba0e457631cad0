import Virthub.Connectors.Metadata
import Virthub.Klnk.Rma.TransportEngine
import Virthub.Lib.Map
import Virthub.Lib.Trace

/-! The SGLang connector: which region a prefix has, and the policy and the sidecar of the prefix. What it
answers is read off the calls before: the prefixes with one buffer have one region, which goes with the first
of them, and a region without a prefix goes with any prefix that gets it. Of the configuration only
`enable_gdr` is read. -/
namespace Virthub.Connectors
open Virthub.Klnk Virthub.Klnk.Rma Virthub.Lib Virthub.Precision

inductive SglangConnectorError where
  | rmaEngineFailed (e : RmaError)
  | prefixNotFound (prefixHash : UInt64)
  deriving DecidableEq, Repr

structure SglangPrefixMeta where
  prefixHash : UInt64
  tokenCount : UInt64
  vaddr : UInt64
  sizeBytes : UInt64
  gpuDeviceId : UInt32
  rkey : UInt32
  lkey : UInt32
  precisionPolicy : Option PackedBlockPolicy
  sidecar : Option PspKvSidecarDescriptor
  deriving DecidableEq

structure VirthubSglangConnector where
  enableGdr : Bool
  rmaEngine : RmaTransportEngine
  registeredPrefixes : AList fun _ : UInt64 => RegisteredRegion
  prefixPolicies : AList fun _ : UInt64 => PackedBlockPolicy
  prefixSidecars : AList fun _ : UInt64 => PspKvSidecarDescriptor

namespace VirthubSglangConnector

def new (enableGdr : Bool) : VirthubSglangConnector where
  enableGdr
  rmaEngine := .autoDetect
  registeredPrefixes := ∅
  prefixPolicies := ∅
  prefixSidecars := ∅

def gpuOpt (self : VirthubSglangConnector) (gpuDeviceId : UInt32) : Option UInt32 :=
  if self.enableGdr then some gpuDeviceId else none

def registerPrefixNodeWithPolicy (self : VirthubSglangConnector)
    (prefixHash tokenCount vaddr sizeBytes : UInt64) (gpuDeviceId : UInt32)
    (precisionPolicy : Option PackedBlockPolicy) (sidecar : Option PspKvSidecarDescriptor) :
    Except SglangConnectorError SglangPrefixMeta × VirthubSglangConnector :=
  match self.rmaEngine.registerMemoryRegion vaddr sizeBytes (self.gpuOpt gpuDeviceId) with
  | (.error e, rmaEngine) => (.error (.rmaEngineFailed e), { self with rmaEngine })
  | (.ok region, rmaEngine) =>
    (.ok ⟨prefixHash, tokenCount, region.vaddr, region.length, gpuDeviceId, region.rkey, region.lkey,
      precisionPolicy, sidecar⟩,
      { self with
        rmaEngine
        registeredPrefixes := self.registeredPrefixes.insert prefixHash region
        prefixPolicies := attach self.prefixPolicies prefixHash precisionPolicy
        prefixSidecars := attach self.prefixSidecars prefixHash sidecar })

def fetchRemotePrefix (self : VirthubSglangConnector) (peerAddr : SocketAddr) (remoteVaddr : UInt64)
    (remoteRkey : UInt32) (localVaddr sizeBytes : UInt64) :
    Except SglangConnectorError Unit × VirthubSglangConnector :=
  match self.rmaEngine.rdmaRead peerAddr remoteVaddr remoteRkey localVaddr sizeBytes with
  | (.error e, rmaEngine) => (.error (.rmaEngineFailed e), { self with rmaEngine })
  | (.ok _, rmaEngine) => (.ok (), { self with rmaEngine })

/-- The prefix leaves the map before its region is deregistered, and its metadata after it. -/
def unregisterPrefix (self : VirthubSglangConnector) (prefixHash : UInt64) :
    Except SglangConnectorError Unit × VirthubSglangConnector :=
  match self.registeredPrefixes.lookup prefixHash with
  | some region =>
    let self := { self with registeredPrefixes := self.registeredPrefixes.erase prefixHash }
    match self.rmaEngine.deregisterMemoryRegion region.rkey with
    | (.error e, rmaEngine) => (.error (.rmaEngineFailed e), { self with rmaEngine })
    | (.ok _, rmaEngine) =>
      (.ok (), { self with
        rmaEngine
        prefixPolicies := self.prefixPolicies.erase prefixHash
        prefixSidecars := self.prefixSidecars.erase prefixHash })
  | none => (.error (.prefixNotFound prefixHash), self)

def getPrefixPolicy (self : VirthubSglangConnector) (prefixHash : UInt64) : Option PackedBlockPolicy :=
  self.prefixPolicies.lookup prefixHash

def getPrefixSidecar (self : VirthubSglangConnector) (prefixHash : UInt64) :
    Option PspKvSidecarDescriptor :=
  self.prefixSidecars.lookup prefixHash

/-- A region without a prefix. -/
def registerKvCache (self : VirthubSglangConnector) (vaddr sizeBytes : UInt64) (gpuDeviceId : UInt32) :
    Except SglangConnectorError RegisteredRegion × VirthubSglangConnector :=
  match self.rmaEngine.registerMemoryRegion vaddr sizeBytes (self.gpuOpt gpuDeviceId) with
  | (.error e, rmaEngine) => (.error (.rmaEngineFailed e), { self with rmaEngine })
  | (.ok region, rmaEngine) => (.ok region, { self with rmaEngine })

end VirthubSglangConnector

/-- All calls that change a connector. -/
inductive SglangCall where
  | registerPrefixNode (prefixHash tokenCount vaddr sizeBytes : UInt64) (gpuDeviceId : UInt32)
      (precisionPolicy : Option PackedBlockPolicy) (sidecar : Option PspKvSidecarDescriptor)
  | unregisterPrefix (prefixHash : UInt64)
  | fetchRemotePrefix (peerAddr : SocketAddr) (remoteVaddr : UInt64) (remoteRkey : UInt32)
      (localVaddr sizeBytes : UInt64)
  | registerKvCache (vaddr sizeBytes : UInt64) (gpuDeviceId : UInt32)

inductive SglangAnswer where
  | registered (answer : Except SglangConnectorError SglangPrefixMeta)
  | unregistered (answer : Except SglangConnectorError Unit)
  | fetched (answer : Except SglangConnectorError Unit)
  | cache (answer : Except SglangConnectorError RegisteredRegion)

/-- The prefix that the call is to register. -/
def SglangCall.prefixHash : SglangCall → Option UInt64
  | registerPrefixNode prefixHash _ _ _ _ _ _ => some prefixHash
  | _ => none

def SglangCall.precisionPolicy : SglangCall → Option PackedBlockPolicy
  | registerPrefixNode _ _ _ _ _ precisionPolicy _ => precisionPolicy
  | _ => none

def SglangCall.sidecar : SglangCall → Option PspKvSidecarDescriptor
  | registerPrefixNode _ _ _ _ _ _ sidecar => sidecar
  | _ => none

/-- The region that the engine gives to the buffer of a call. -/
def VirthubSglangConnector.regionOf (self : VirthubSglangConnector) : SglangCall → Option RegisteredRegion
  | .registerPrefixNode _ _ vaddr sizeBytes gpuDeviceId _ _ | .registerKvCache vaddr sizeBytes gpuDeviceId =>
    (self.rmaEngine.registerMemoryRegion vaddr sizeBytes (self.gpuOpt gpuDeviceId)).1.toOption
  | _ => none

abbrev SglangEvent := Event VirthubSglangConnector SglangCall SglangAnswer

/-- The engine gives a region with the key to the buffer of the call. -/
def SglangEvent.Grants (rkey : UInt32) (e : SglangEvent) : Prop :=
  ∃ r, e.pre.regionOf e.call = some r ∧ r.rkey = rkey

/-- The call registers the prefix, and its buffer gets the key. -/
def SglangEvent.Registers (p : UInt64) (rkey : UInt32) (e : SglangEvent) : Prop :=
  e.call.prefixHash = some p ∧ e.Grants rkey

/-- The prefix gets another region or loses the one that it has. -/
def SglangEvent.Replaces (p : UInt64) (e : SglangEvent) : Prop :=
  (∃ rkey, e.Registers p rkey) ∨ e.call = .unregisterPrefix p

/-- The call registers the prefix with a value to attach to it. -/
def SglangEvent.Attaches {β : Type} (given : SglangCall → Option β) (p : UInt64) (value : β)
    (e : SglangEvent) : Prop :=
  (∃ rkey, e.Registers p rkey) ∧ given e.call = some value

/-- Another value is attached to the prefix, or the prefix has been unregistered without an error. -/
def SglangEvent.Detaches {β : Type} (given : SglangCall → Option β) (p : UInt64)
    (e : SglangEvent) : Prop :=
  (∃ value, e.Attaches given p value) ∨
    e.call = .unregisterPrefix p ∧ e.answer = .unregistered (.ok ())

namespace VirthubSglangConnector

def step (self : VirthubSglangConnector) : SglangCall → SglangAnswer × VirthubSglangConnector
  | .registerPrefixNode prefixHash tokenCount vaddr sizeBytes gpuDeviceId precisionPolicy sidecar =>
    (self.registerPrefixNodeWithPolicy prefixHash tokenCount vaddr sizeBytes gpuDeviceId precisionPolicy
      sidecar).map .registered id
  | .unregisterPrefix prefixHash => (self.unregisterPrefix prefixHash).map .unregistered id
  | .fetchRemotePrefix peerAddr remoteVaddr remoteRkey localVaddr sizeBytes =>
    (self.fetchRemotePrefix peerAddr remoteVaddr remoteRkey localVaddr sizeBytes).map .fetched id
  | .registerKvCache vaddr sizeBytes gpuDeviceId =>
    (self.registerKvCache vaddr sizeBytes gpuDeviceId).map .cache id

/-- The prefix has a region with the key, by the calls so far. -/
def Holds (p : UInt64) (rkey : UInt32) (h : List SglangEvent) : Prop :=
  Since (SglangEvent.Registers p rkey) (SglangEvent.Replaces p) h

/-- No prefix with the key has been unregistered since the key was handed out, by the calls so far. -/
inductive Usable (rkey : UInt32) : List SglangEvent → Prop where
  | granted {h : List SglangEvent} {e : SglangEvent} (he : e.Grants rkey) : Usable rkey (h ++ [e])
  | kept {h : List SglangEvent} {e : SglangEvent} (hu : Usable rkey h)
      (he : ∀ p, e.call = .unregisterPrefix p → ¬ Holds p rkey h) : Usable rkey (h ++ [e])

theorem usable_concat {rkey : UInt32} {h : List SglangEvent} {e : SglangEvent} :
    Usable rkey (h ++ [e]) ↔
      e.Grants rkey ∨ Usable rkey h ∧ ∀ p, e.call = .unregisterPrefix p → ¬ Holds p rkey h := by
  constructor
  · intro hu
    generalize hh : h ++ [e] = h' at hu
    cases hu with
    | granted he =>
      obtain ⟨-, hlast⟩ := List.append_inj' hh rfl
      cases hlast
      exact .inl he
    | kept hu he =>
      obtain ⟨rfl, hlast⟩ := List.append_inj' hh rfl
      cases hlast
      exact .inr ⟨hu, he⟩
  · intro hu
    rcases hu with he | ⟨hu, he⟩
    · exact .granted he
    · exact .kept hu he

theorem not_usable_nil {rkey : UInt32} : ¬ Usable rkey [] := by
  intro hu
  generalize hh : ([] : List SglangEvent) = h' at hu
  cases hu with
  | granted he => simp at hh
  | kept hu he => simp at hh

/-- What one call does to the connector. -/
inductive Step (self : VirthubSglangConnector) :
    SglangCall → SglangAnswer × VirthubSglangConnector → Prop where
  | unchanged {call : SglangCall} {answer : SglangAnswer} {engine : RmaTransportEngine}
      (hcall : ∀ p, call ≠ .unregisterPrefix p) (hregion : self.regionOf call = none)
      (hcoherent : engine.Coherent) (hlive : ∀ k, engine.Live k ↔ self.rmaEngine.Live k) :
      Step self call (answer, { self with rmaEngine := engine })
  | granted {call : SglangCall} {answer : SglangAnswer} {engine : RmaTransportEngine} (r : RegisteredRegion)
      (hcall : ∀ p, call ≠ .unregisterPrefix p) (hnone : call.prefixHash = none)
      (hregion : self.regionOf call = some r) (hcoherent : engine.Coherent)
      (hlive : ∀ k, engine.Live k ↔ k = r.rkey ∨ self.rmaEngine.Live k) :
      Step self call (answer, { self with rmaEngine := engine })
  | registered {call : SglangCall} {answer : SglangAnswer} {engine : RmaTransportEngine} (p : UInt64)
      (r : RegisteredRegion) (hcall : call.prefixHash = some p) (hregion : self.regionOf call = some r)
      (hcoherent : engine.Coherent)
      (hlive : ∀ k, engine.Live k ↔ k = r.rkey ∨ self.rmaEngine.Live k) :
      Step self call (answer, { self with
        rmaEngine := engine
        registeredPrefixes := self.registeredPrefixes.insert p r
        prefixPolicies := attach self.prefixPolicies p call.precisionPolicy
        prefixSidecars := attach self.prefixSidecars p call.sidecar })
  | unknown (p : UInt64) (hp : self.registeredPrefixes.lookup p = none) :
      Step self (.unregisterPrefix p) (.unregistered (.error (.prefixNotFound p)), self)
  | dead (p : UInt64) {engine : RmaTransportEngine} (r : RegisteredRegion)
      (hp : self.registeredPrefixes.lookup p = some r) (hdead : ¬ self.rmaEngine.Live r.rkey)
      (hcoherent : engine.Coherent)
      (hlive : ∀ k, engine.Live k ↔ self.rmaEngine.Live k ∧ k ≠ r.rkey) :
      Step self (.unregisterPrefix p)
        (.unregistered (.error (.rmaEngineFailed (.memoryRegistrationFailed 0 0))), { self with
          rmaEngine := engine
          registeredPrefixes := self.registeredPrefixes.erase p })
  | unregistered (p : UInt64) {engine : RmaTransportEngine} (r : RegisteredRegion)
      (hp : self.registeredPrefixes.lookup p = some r) (hlive : self.rmaEngine.Live r.rkey)
      (hcoherent : engine.Coherent)
      (hrest : ∀ k, engine.Live k ↔ self.rmaEngine.Live k ∧ k ≠ r.rkey) :
      Step self (.unregisterPrefix p) (.unregistered (.ok ()), { self with
        rmaEngine := engine
        registeredPrefixes := self.registeredPrefixes.erase p
        prefixPolicies := self.prefixPolicies.erase p
        prefixSidecars := self.prefixSidecars.erase p })

theorem regionOf_registerPrefixNode (self : VirthubSglangConnector)
    (prefixHash tokenCount vaddr sizeBytes : UInt64) (gpuDeviceId : UInt32)
    (precisionPolicy : Option PackedBlockPolicy) (sidecar : Option PspKvSidecarDescriptor) :
    self.regionOf
        (.registerPrefixNode prefixHash tokenCount vaddr sizeBytes gpuDeviceId precisionPolicy sidecar) =
      (self.rmaEngine.registerMemoryRegion vaddr sizeBytes (self.gpuOpt gpuDeviceId)).1.toOption := rfl

theorem regionOf_registerKvCache (self : VirthubSglangConnector) (vaddr sizeBytes : UInt64)
    (gpuDeviceId : UInt32) :
    self.regionOf (.registerKvCache vaddr sizeBytes gpuDeviceId) =
      (self.rmaEngine.registerMemoryRegion vaddr sizeBytes (self.gpuOpt gpuDeviceId)).1.toOption := rfl

theorem step_registerPrefixNode {self : VirthubSglangConnector} (h : self.rmaEngine.Coherent)
    (prefixHash tokenCount vaddr sizeBytes : UInt64) (gpuDeviceId : UInt32)
    (precisionPolicy : Option PackedBlockPolicy) (sidecar : Option PspKvSidecarDescriptor) :
    Step self (.registerPrefixNode prefixHash tokenCount vaddr sizeBytes gpuDeviceId precisionPolicy sidecar)
      (self.step
        (.registerPrefixNode prefixHash tokenCount vaddr sizeBytes gpuDeviceId precisionPolicy sidecar)) := by
  obtain ⟨hcoherent, herror, hok⟩ :=
    RmaTransportEngine.registerMemoryRegion_spec h vaddr sizeBytes (self.gpuOpt gpuDeviceId)
  have hregion := self.regionOf_registerPrefixNode prefixHash tokenCount vaddr sizeBytes gpuDeviceId
    precisionPolicy sidecar
  simp only [step, registerPrefixNodeWithPolicy]
  generalize self.rmaEngine.registerMemoryRegion vaddr sizeBytes (self.gpuOpt gpuDeviceId) = result
    at hcoherent herror hok hregion ⊢
  rcases result with ⟨e | region, engine⟩
  · exact .unchanged (by simp) hregion hcoherent (herror e rfl)
  · exact .registered prefixHash region rfl hregion hcoherent (hok region rfl)

theorem step_registerKvCache {self : VirthubSglangConnector} (h : self.rmaEngine.Coherent)
    (vaddr sizeBytes : UInt64) (gpuDeviceId : UInt32) :
    Step self (.registerKvCache vaddr sizeBytes gpuDeviceId)
      (self.step (.registerKvCache vaddr sizeBytes gpuDeviceId)) := by
  obtain ⟨hcoherent, herror, hok⟩ :=
    RmaTransportEngine.registerMemoryRegion_spec h vaddr sizeBytes (self.gpuOpt gpuDeviceId)
  have hregion := self.regionOf_registerKvCache vaddr sizeBytes gpuDeviceId
  simp only [step, registerKvCache]
  generalize self.rmaEngine.registerMemoryRegion vaddr sizeBytes (self.gpuOpt gpuDeviceId) = result
    at hcoherent herror hok hregion ⊢
  rcases result with ⟨e | region, engine⟩
  · exact .unchanged (by simp) hregion hcoherent (herror e rfl)
  · exact .granted region (by simp) rfl hregion hcoherent (hok region rfl)

theorem step_fetchRemotePrefix {self : VirthubSglangConnector} (h : self.rmaEngine.Coherent)
    (peerAddr : SocketAddr) (remoteVaddr : UInt64) (remoteRkey : UInt32) (localVaddr sizeBytes : UInt64) :
    Step self (.fetchRemotePrefix peerAddr remoteVaddr remoteRkey localVaddr sizeBytes)
      (self.step (.fetchRemotePrefix peerAddr remoteVaddr remoteRkey localVaddr sizeBytes)) := by
  obtain ⟨provider, hp⟩ := h
  obtain ⟨p, hread, hregistry, -⟩ := hp.rdmaRead peerAddr remoteVaddr remoteRkey localVaddr sizeBytes
  simp only [step, fetchRemotePrefix, hread, Prod.map, id_eq]
  have hcoherent : RmaTransportEngine.Coherent { self.rmaEngine with
      rdmaProvider := some p
      completedOps := self.rmaEngine.completedOps + 1 } :=
    ⟨p, rfl, hregistry ▸ hp.consistent, hregistry ▸ hp.agree⟩
  exact .unchanged (by simp) rfl hcoherent fun _ => Iff.rfl

theorem step_unregisterPrefix {self : VirthubSglangConnector} (h : self.rmaEngine.Coherent)
    (prefixHash : UInt64) :
    Step self (.unregisterPrefix prefixHash) (self.step (.unregisterPrefix prefixHash)) := by
  simp only [step, unregisterPrefix]
  cases hl : self.registeredPrefixes.lookup prefixHash with
  | none => exact .unknown prefixHash hl
  | some region =>
    obtain ⟨hcoherent, hok, hrest⟩ := RmaTransportEngine.deregisterMemoryRegion_spec h region.rkey
    obtain ⟨provider, hp⟩ := h
    have hdereg := hp.memoryDeregistration region.rkey
    dsimp only
    generalize self.rmaEngine.deregisterMemoryRegion region.rkey = result at hcoherent hok hrest hdereg ⊢
    cases hdereg with
    | missing hm => exact .dead prefixHash region hl (fun hlive => by cases hok.mpr hlive) hcoherent hrest
    | removed m hm => exact .unregistered prefixHash region hl (hok.mp rfl) hcoherent hrest

theorem step_cases {self : VirthubSglangConnector} (h : self.rmaEngine.Coherent) (call : SglangCall) :
    Step self call (self.step call) := by
  cases call with
  | registerPrefixNode => exact step_registerPrefixNode h ..
  | unregisterPrefix p => exact step_unregisterPrefix h p
  | fetchRemotePrefix => exact step_fetchRemotePrefix h ..
  | registerKvCache => exact step_registerKvCache h ..

/-- The map keeps the value that has been attached to a prefix last, by the calls so far. -/
def Attached {β : Type} (given : SglangCall → Option β) (m : AList fun _ : UInt64 => β)
    (h : List SglangEvent) : Prop :=
  ∀ p value, m.lookup p = some value ↔
    Since (SglangEvent.Attaches given p value) (SglangEvent.Detaches given p) h

section Registers

variable {e : SglangEvent} {p : UInt64}

theorem not_grants (hregion : e.pre.regionOf e.call = none) (k : UInt32) : ¬ e.Grants k := by
  intro ⟨r, hr, _⟩
  rw [hregion] at hr
  cases hr

theorem grants_iff {r : RegisteredRegion} (hregion : e.pre.regionOf e.call = some r) (k : UInt32) :
    e.Grants k ↔ k = r.rkey := by
  unfold SglangEvent.Grants
  rw [hregion]
  simp [eq_comm]

theorem not_registers (hregion : e.pre.regionOf e.call = none) (k : UInt32) : ¬ e.Registers p k :=
  fun hr => not_grants hregion k hr.2

theorem registers_iff {q : UInt64} {r : RegisteredRegion} (hcall : e.call.prefixHash = some q)
    (hregion : e.pre.regionOf e.call = some r) (k : UInt32) : e.Registers p k ↔ p = q ∧ k = r.rkey := by
  unfold SglangEvent.Registers
  rw [hcall, grants_iff hregion]
  simp [eq_comm]

theorem not_registers_of_none (hcall : e.call.prefixHash = none) (k : UInt32) : ¬ e.Registers p k := by
  intro hr
  have hsome := hr.1
  rw [hcall] at hsome
  cases hsome

end Registers

section Attached

variable {β : Type} {given : SglangCall → Option β} {map : AList fun _ : UInt64 => β}
  {h : List SglangEvent} {e : SglangEvent}

theorem Attached.of_silent (hmap : Attached given map h) (hregisters : ∀ p k, ¬ e.Registers p k)
    (hunregistered : ∀ p, e.call = .unregisterPrefix p → e.answer ≠ .unregistered (.ok ())) :
    Attached given map (h ++ [e]) := by
  intro p value
  have hattaches : ∀ v, ¬ e.Attaches given p v := by
    intro v ⟨⟨k, hk⟩, _⟩
    exact hregisters p k hk
  have hdetaches : ¬ e.Detaches given p := by
    intro hd
    rcases hd with ⟨v, hv⟩ | ⟨hcall, hd⟩
    · exact hattaches v hv
    · exact hunregistered p hcall hd
  rw [since_concat, hmap p value]
  simp [hattaches, hdetaches]

theorem Attached.registered (hmap : Attached given map h) {q : UInt64} {r : RegisteredRegion}
    (hcall : e.call.prefixHash = some q) (hregion : e.pre.regionOf e.call = some r) :
    Attached given (attach map q (given e.call)) (h ++ [e]) := by
  intro p value
  have hattaches : ∀ v, e.Attaches given p v ↔ p = q ∧ given e.call = some v := by
    intro v
    simp [SglangEvent.Attaches, registers_iff hcall hregion]
  have hdetaches : e.Detaches given p ↔ p = q ∧ (given e.call).isSome := by
    have hkept : e.call ≠ .unregisterPrefix p := by
      intro hp
      rw [hp] at hcall
      cases hcall
    simp [SglangEvent.Detaches, hattaches, hkept, Option.isSome_iff_exists]
  rw [since_concat, ← hmap p value, hattaches, hdetaches]
  by_cases hp : p = q
  · subst hp
    rw [lookup_attach]
    cases given e.call <;> simp
  · rw [lookup_attach_ne _ hp]
    simp [hp]

theorem Attached.unregistered (hmap : Attached given map h) {p : UInt64}
    (hcall : e.call = .unregisterPrefix p) (hanswer : e.answer = .unregistered (.ok ())) :
    Attached given (map.erase p) (h ++ [e]) := by
  intro q value
  have hnone : e.call.prefixHash = none := by
    rw [hcall]
    rfl
  have hattaches : ∀ v, ¬ e.Attaches given q v := by
    intro v ⟨⟨k, hk⟩, _⟩
    exact not_registers_of_none hnone k hk
  have hdetaches : e.Detaches given q ↔ q = p := by
    unfold SglangEvent.Detaches
    simp [hattaches, hcall, hanswer, eq_comm]
  rw [since_concat, ← hmap q value, lookup_erase_eq_some_iff, hdetaches]
  simp only [hattaches, false_or]
  exact and_comm

end Attached

/-- The regions of the connector against the calls that it has answered. -/
structure RegionsRecorded (h : List SglangEvent) (c : VirthubSglangConnector) : Prop where
  coherent : c.rmaEngine.Coherent
  holds : ∀ p k, (∃ r, c.registeredPrefixes.lookup p = some r ∧ r.rkey = k) ↔ Holds p k h
  usable : ∀ k, c.rmaEngine.Live k ↔ Usable k h

/-- The connector against the calls that it has answered. -/
structure Recorded (h : List SglangEvent) (c : VirthubSglangConnector) :
    Prop extends RegionsRecorded h c where
  policies : Attached SglangCall.precisionPolicy c.prefixPolicies h
  sidecars : Attached SglangCall.sidecar c.prefixSidecars h

section Recorded

variable {h : List SglangEvent} {e : SglangEvent} {c : VirthubSglangConnector}

theorem holds_of_silent (hregisters : ∀ p k, ¬ e.Registers p k)
    (hcall : ∀ p, e.call ≠ .unregisterPrefix p) (p : UInt64) (k : UInt32) :
    Holds p k (h ++ [e]) ↔ Holds p k h := by
  unfold Holds
  rw [since_concat]
  simp [SglangEvent.Replaces, hregisters, hcall]

theorem holds_of_unregister {q : UInt64} (hcall : e.call = .unregisterPrefix q) (p : UInt64) (k : UInt32) :
    Holds p k (h ++ [e]) ↔ Holds p k h ∧ p ≠ q := by
  have hnone : e.call.prefixHash = none := by
    rw [hcall]
    rfl
  unfold Holds
  rw [since_concat]
  simp [SglangEvent.Replaces, not_registers_of_none hnone, hcall, eq_comm]

theorem holds_of_registered {q : UInt64} {r : RegisteredRegion} (hcall : e.call.prefixHash = some q)
    (hregion : e.pre.regionOf e.call = some r) (p : UInt64) (k : UInt32) :
    Holds p k (h ++ [e]) ↔ p = q ∧ k = r.rkey ∨ Holds p k h ∧ p ≠ q := by
  have hkept : e.call ≠ .unregisterPrefix p := by
    intro hp
    rw [hp] at hcall
    cases hcall
  unfold Holds
  rw [since_concat]
  simp [SglangEvent.Replaces, registers_iff hcall hregion, hkept]

theorem usable_of_no_unregister (hcall : ∀ p, e.call ≠ .unregisterPrefix p) (k : UInt32) :
    Usable k (h ++ [e]) ↔ e.Grants k ∨ Usable k h := by
  rw [usable_concat]
  simp [hcall]

namespace RegionsRecorded

/-- A prefix leaves with its region, of which the engine may or may not have known. -/
theorem unregister (hc : RegionsRecorded h c) {p : UInt64} {r : RegisteredRegion}
    (hp : c.registeredPrefixes.lookup p = some r) (hcall : e.call = .unregisterPrefix p)
    {c' : VirthubSglangConnector} (hprefixes : c'.registeredPrefixes = c.registeredPrefixes.erase p)
    (hcoherent : c'.rmaEngine.Coherent)
    (hlive : ∀ k, c'.rmaEngine.Live k ↔ c.rmaEngine.Live k ∧ k ≠ r.rkey) :
    RegionsRecorded (h ++ [e]) c' := by
  have hholds : ∀ k, Holds p k h ↔ k = r.rkey := by
    intro k
    rw [← hc.holds, hp]
    simp [eq_comm]
  constructor
  · exact hcoherent
  · intro q k
    rw [holds_of_unregister hcall, ← hc.holds, hprefixes]
    simp only [lookup_erase_eq_some_iff]
    grind
  · intro k
    have hregion : e.pre.regionOf e.call = none := by
      rw [hcall]
      rfl
    rw [usable_concat, hlive, hc.usable k]
    simp [not_grants hregion, hcall, hholds]

theorem concat (hc : RegionsRecorded h c) {call : SglangCall} {answer : SglangAnswer}
    {c' : VirthubSglangConnector} (hstep : Step c call (answer, c')) :
    RegionsRecorded (h ++ [⟨c, call, answer, c'⟩]) c' := by
  cases hstep with
  | unchanged hcall hregion hcoherent hlive =>
    constructor
    · exact hcoherent
    · intro p k
      rw [holds_of_silent (fun _ => not_registers hregion) hcall, ← hc.holds]
    · intro k
      rw [usable_of_no_unregister hcall, ← hc.usable, hlive]
      simp [not_grants (e := ⟨c, call, answer, _⟩) hregion]
  | granted r hcall hnone hregion hcoherent hlive =>
    constructor
    · exact hcoherent
    · intro p k
      rw [holds_of_silent (fun _ => not_registers_of_none hnone) hcall, ← hc.holds]
    · intro k
      rw [usable_of_no_unregister hcall, ← hc.usable, hlive, grants_iff hregion]
  | registered q r hcall hregion hcoherent hlive =>
    constructor
    · exact hcoherent
    · intro p k
      rw [holds_of_registered hcall hregion, ← hc.holds]
      simp only [lookup_insert_eq_some_iff]
      grind
    · intro k
      have hkept : ∀ p, call ≠ .unregisterPrefix p := by
        intro p hp
        rw [hp] at hcall
        cases hcall
      rw [usable_of_no_unregister hkept, ← hc.usable, hlive, grants_iff hregion]
  | unknown p hp =>
    have hnone : ∀ k, ¬ Holds p k h := by
      intro k hk
      obtain ⟨r, hr, -⟩ := (hc.holds p k).mpr hk
      rw [hp] at hr
      cases hr
    constructor
    · exact hc.coherent
    · intro q k
      rw [holds_of_unregister rfl, ← hc.holds]
      grind
    · intro k
      have hregion : c.regionOf (.unregisterPrefix p) = none := rfl
      rw [usable_concat, ← hc.usable]
      simp [not_grants (e := ⟨c, .unregisterPrefix p, _, c⟩) hregion, hnone]
  | dead p r hp hdead hcoherent hlive => exact hc.unregister hp rfl rfl hcoherent hlive
  | unregistered p r hp hlive hcoherent hrest => exact hc.unregister hp rfl rfl hcoherent hrest

end RegionsRecorded

theorem Recorded.start (enableGdr : Bool) : Recorded [] (new enableGdr) := by
  have hsince : ∀ A B : SglangEvent → Prop, ¬ Since A B [] := by
    intro A B ⟨past, e, rest, heq, _⟩
    simp at heq
  refine ⟨⟨RmaTransportEngine.coherent_autoDetect, ?_, ?_⟩, ?_, ?_⟩
  · intro p k
    exact iff_of_false (by simp [new]) (hsince _ _)
  · intro k
    exact iff_of_false (AList.notMem_empty k) not_usable_nil
  · intro p value
    exact iff_of_false (by simp [new]) (hsince _ _)
  · intro p value
    exact iff_of_false (by simp [new]) (hsince _ _)

theorem Recorded.concat (hc : Recorded h c) {call : SglangCall} {answer : SglangAnswer}
    {c' : VirthubSglangConnector} (hstep : Step c call (answer, c')) :
    Recorded (h ++ [⟨c, call, answer, c'⟩]) c' := by
  have hregions := hc.toRegionsRecorded.concat hstep
  have hpolicies := hc.policies
  have hsidecars := hc.sidecars
  cases hstep with
  | unchanged hcall hregion hcoherent hlive =>
    have hquiet : ∀ p, call = .unregisterPrefix p → answer ≠ .unregistered (.ok ()) :=
      fun p hp => absurd hp (hcall p)
    exact ⟨hregions, hpolicies.of_silent (fun _ => not_registers hregion) hquiet,
      hsidecars.of_silent (fun _ => not_registers hregion) hquiet⟩
  | granted r hcall hnone hregion hcoherent hlive =>
    have hquiet : ∀ p, call = .unregisterPrefix p → answer ≠ .unregistered (.ok ()) :=
      fun p hp => absurd hp (hcall p)
    exact ⟨hregions, hpolicies.of_silent (fun _ => not_registers_of_none hnone) hquiet,
      hsidecars.of_silent (fun _ => not_registers_of_none hnone) hquiet⟩
  | registered p r hcall hregion hcoherent hlive =>
    exact ⟨hregions, hpolicies.registered (e := ⟨c, call, answer, _⟩) hcall hregion,
      hsidecars.registered (e := ⟨c, call, answer, _⟩) hcall hregion⟩
  | unknown p hp =>
    have hnone : (SglangCall.unregisterPrefix p).prefixHash = none := rfl
    exact ⟨hregions, hpolicies.of_silent (fun _ => not_registers_of_none hnone) (by simp),
      hsidecars.of_silent (fun _ => not_registers_of_none hnone) (by simp)⟩
  | dead p r hp hdead hcoherent hlive =>
    have hnone : (SglangCall.unregisterPrefix p).prefixHash = none := rfl
    exact ⟨hregions, hpolicies.of_silent (fun _ => not_registers_of_none hnone) (by simp),
      hsidecars.of_silent (fun _ => not_registers_of_none hnone) (by simp)⟩
  | unregistered p r hp hlive hcoherent hrest =>
    exact ⟨hregions, hpolicies.unregistered rfl rfl, hsidecars.unregistered rfl rfl⟩

theorem Recorded.step (hc : Recorded h c) (call : SglangCall) :
    Recorded (h ++ [event step c call]) (c.step call).2 :=
  hc.concat (step_cases hc.coherent call)

theorem recorded_run (enableGdr : Bool) (calls : List SglangCall) :
    Recorded (trace step (new enableGdr) calls) (exec step (new enableGdr) calls) :=
  history_induction (C := fun _ _ _ => True) (P := Recorded) (.start enableGdr)
    (fun _ _ call hc _ => hc.step call) calls (along_true _ _ _)

/-- A prefix can be unregistered exactly if it is registered and no prefix with the same region has been
unregistered since the region was handed out last. The connector says which of the two fails. -/
theorem unregisterPrefix_exact (enableGdr : Bool) (calls : List SglangCall) (p : UInt64) :
    let h := trace step (new enableGdr) calls
    let answer := ((exec step (new enableGdr) calls).unregisterPrefix p).1
    (answer = .ok () ↔ ∃ rkey, Holds p rkey h ∧ Usable rkey h) ∧
      (answer = .error (.prefixNotFound p) ↔ ∀ rkey, ¬ Holds p rkey h) ∧
      (answer = .error (.rmaEngineFailed (.memoryRegistrationFailed 0 0)) ↔
        ∃ rkey, Holds p rkey h ∧ ¬ Usable rkey h) := by
  intro h answer
  have hc : Recorded h (exec step (new enableGdr) calls) := recorded_run enableGdr calls
  have hanswer : ((exec step (new enableGdr) calls).step (.unregisterPrefix p)).1 =
      .unregistered answer := rfl
  have hstep := step_unregisterPrefix hc.coherent p
  simp only [← hc.holds, ← hc.usable]
  generalize (exec step (new enableGdr) calls).step (.unregisterPrefix p) = result at hanswer hstep
  cases hstep with
  | unchanged hcall => exact absurd rfl (hcall p)
  | granted r hcall => exact absurd rfl (hcall p)
  | registered q r hcall => cases hcall
  | unknown _ hp =>
    rw [← SglangAnswer.unregistered.inj hanswer]
    simp [hp]
  | dead _ r hp hdead =>
    rw [← SglangAnswer.unregistered.inj hanswer]
    simp [hp, hdead]
  | unregistered _ r hp hlive =>
    rw [← SglangAnswer.unregistered.inj hanswer]
    simp [hp, hlive]

/-- The policy and the sidecar of a prefix are those that were attached to it last, unless the prefix has been
unregistered without an error since then. -/
theorem prefix_metadata_exact (enableGdr : Bool) (calls : List SglangCall) (p : UInt64) :
    let h := trace step (new enableGdr) calls
    let c := exec step (new enableGdr) calls
    (∀ policy, c.getPrefixPolicy p = some policy ↔
      Since (SglangEvent.Attaches SglangCall.precisionPolicy p policy)
        (SglangEvent.Detaches SglangCall.precisionPolicy p) h) ∧
      ∀ sidecar, c.getPrefixSidecar p = some sidecar ↔
        Since (SglangEvent.Attaches SglangCall.sidecar p sidecar)
        (SglangEvent.Detaches SglangCall.sidecar p) h := by
  have hc := recorded_run enableGdr calls
  exact ⟨hc.policies p, hc.sidecars p⟩

end Recorded

end VirthubSglangConnector

end Virthub.Connectors
