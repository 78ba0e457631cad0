import Virthub.Klnk.Core.Domain
import Virthub.Klnk.Rma.MrRegistry

/-! The transport engine over its software provider. The engine looks for a region by address, length and
device, and the provider by address and size, so regions are shared between devices. -/
namespace Virthub.Klnk.Rma

inductive RdmaProviderError where
  | mrError (e : MemoryRegionError)
  deriving DecidableEq, Repr

def RdmaProviderError.display : RdmaProviderError → String
  | mrError e => "Memory region error: " ++ e.display

inductive QpState
  | reset
  | init
  | readyToReceive
  | readyToSend
  | error
  deriving DecidableEq, Repr

structure QueuePair where
  qpNum : UInt32
  state : QpState
  deriving DecidableEq, Repr

structure RdmaProvider where
  qps : AList fun _ : SocketAddr => QueuePair
  mrRegistry : MemoryRegionRegistry
  nextQpNum : UInt32
  completedWrs : UInt32

namespace RdmaProvider

def new : RdmaProvider where
  qps := ∅
  mrRegistry := .new
  nextQpNum := 1
  completedWrs := 0

/-- The part of `register_region` that comes after the buffer has not been found. Keys of regions are drawn
from the counter of queue pair numbers. -/
def insertRegion (self : RdmaProvider) (vaddr size : UInt64) (flags : UInt32) :
    Except RdmaProviderError MemoryRegion × RdmaProvider :=
  let rkey := self.nextQpNum
  let self := { self with nextQpNum := rkey + 1 }
  let region : MemoryRegion := ⟨rkey, rkey, vaddr, size, flags, 0⟩
  match self.mrRegistry.register region with
  | (.error e, mrRegistry) => (.error (.mrError e), { self with mrRegistry })
  | (.ok (), mrRegistry) => (.ok region, { self with mrRegistry })

def registerRegion (self : RdmaProvider) (vaddr size : UInt64) (flags : UInt32) :
    Except RdmaProviderError MemoryRegion × RdmaProvider :=
  match self.mrRegistry.getByVaddrSize vaddr size with
  | some existing => (.ok existing, self)
  | none => self.insertRegion vaddr size flags

def deregisterRegion (self : RdmaProvider) (rkey : UInt32) :
    Except RdmaProviderError Unit × RdmaProvider :=
  match self.mrRegistry.deregister rkey with
  | (.error e, mrRegistry) => (.error (.mrError e), { self with mrRegistry })
  | (.ok _, mrRegistry) => (.ok (), { self with mrRegistry })

def createQp (self : RdmaProvider) (peerAddr : SocketAddr) :
    Except RdmaProviderError QueuePair × RdmaProvider :=
  match self.qps.lookup peerAddr with
  | some qp => (.ok qp, self)
  | none =>
    let qp : QueuePair := ⟨self.nextQpNum, .init⟩
    (.ok qp, { self with nextQpNum := self.nextQpNum + 1, qps := self.qps.insert peerAddr qp })

def getOrCreateQp (self : RdmaProvider) (peerAddr : SocketAddr) :
    Except RdmaProviderError QueuePair × RdmaProvider :=
  match self.qps.lookup peerAddr with
  | some qp => (.ok qp, self)
  | none => self.createQp peerAddr

/-- No data is moved: a read only counts. -/
def postRead (self : RdmaProvider) (peerAddr : SocketAddr) (_remoteVaddr : UInt64) (_rkey : UInt32)
    (_localVaddr _len : UInt64) : Except RdmaProviderError Unit × RdmaProvider :=
  match self.getOrCreateQp peerAddr with
  | (.error e, self) => (.error e, self)
  | (.ok _, self) => (.ok (), { self with completedWrs := self.completedWrs + 1 })

/-- A read finds or makes a queue pair, which may take a number from the counter, and never fails. -/
theorem postRead_spec (self : RdmaProvider) (peerAddr : SocketAddr) (remoteVaddr : UInt64) (rkey : UInt32)
    (localVaddr len : UInt64) :
    ∃ p, self.postRead peerAddr remoteVaddr rkey localVaddr len = (.ok (), p) ∧
      p.mrRegistry = self.mrRegistry ∧
      (p.nextQpNum = self.nextQpNum ∨ p.nextQpNum = self.nextQpNum + 1) := by
  unfold postRead getOrCreateQp
  cases hq : self.qps.lookup peerAddr with
  | some qp => exact ⟨_, rfl, rfl, .inl rfl⟩
  | none =>
    dsimp only [createQp]
    rw [hq]
    exact ⟨_, rfl, rfl, .inr rfl⟩

/-- What the second part of a registration does. -/
inductive Insertion (self : RdmaProvider) (vaddr size : UInt64) (flags : UInt32) :
    Except RdmaProviderError MemoryRegion × RdmaProvider → Prop where
  | fresh (hkey : self.mrRegistry.regions.lookup self.nextQpNum = none)
      (hvalid : ¬ (vaddr = 0 ∨ size = 0)) :
      Insertion self vaddr size flags
        (.ok ⟨self.nextQpNum, self.nextQpNum, vaddr, size, flags, 0⟩,
          { self with
            mrRegistry := ⟨self.mrRegistry.regions.insert self.nextQpNum
                ⟨self.nextQpNum, self.nextQpNum, vaddr, size, flags, 0⟩,
              self.mrRegistry.vaddrIndex.insert (vaddr, size) self.nextQpNum⟩
            nextQpNum := self.nextQpNum + 1 })
  | failed (e : MemoryRegionError)
      (hfail : (vaddr = 0 ∨ size = 0) ∨ self.nextQpNum ∈ self.mrRegistry.regions) :
      Insertion self vaddr size flags
        (.error (.mrError e), { self with nextQpNum := self.nextQpNum + 1 })

theorem insertion (self : RdmaProvider) (vaddr size : UInt64) (flags : UInt32) :
    Insertion self vaddr size flags (self.insertRegion vaddr size flags) := by
  unfold insertRegion
  dsimp only [MemoryRegionRegistry.register]
  by_cases hzero : vaddr = 0 ∨ size = 0
  · rw [if_pos hzero]
    exact .failed _ (.inl hzero)
  · rw [if_neg hzero]
    by_cases hkey : self.nextQpNum ∈ self.mrRegistry.regions
    · rw [if_pos hkey]
      exact .failed _ (.inr hkey)
    · rw [if_neg hkey]
      exact .fresh (AList.lookup_eq_none.mpr hkey) hzero

/-- What a registration with the provider does. -/
inductive Registration (self : RdmaProvider) (vaddr size : UInt64) (flags : UInt32) :
    Except RdmaProviderError MemoryRegion × RdmaProvider → Prop where
  | existing (m : MemoryRegion) (hm : self.mrRegistry.regions.lookup m.rkey = some m)
      (hv : m.vaddr = vaddr) (hs : m.size = size) : Registration self vaddr size flags (.ok m, self)
  | inserted {result : Except RdmaProviderError MemoryRegion × RdmaProvider}
      (hindex : self.mrRegistry.vaddrIndex.lookup (vaddr, size) = none)
      (hinsert : Insertion self vaddr size flags result) : Registration self vaddr size flags result

theorem registration {self : RdmaProvider} (h : self.mrRegistry.Consistent) (vaddr size : UInt64)
    (flags : UInt32) : Registration self vaddr size flags (self.registerRegion vaddr size flags) := by
  unfold registerRegion
  cases hm : self.mrRegistry.getByVaddrSize vaddr size with
  | some m =>
    obtain ⟨hl, hv, hs⟩ := h.getByVaddrSize_some hm
    exact .existing m hl hv hs
  | none => exact .inserted (h.getByVaddrSize_none hm) (self.insertion vaddr size flags)

end RdmaProvider

inductive RmaError where
  | memoryRegistrationFailed (vaddr size : UInt64)
  | queuePairError (endpoint : String)
  deriving DecidableEq, Repr

def RmaError.display : RmaError → String
  | memoryRegistrationFailed vaddr size =>
    "Memory region registration failed at vaddr 0x" ++ lowerHex vaddr.toNat ++ ", size " ++ toString size
  | queuePairError endpoint => "Queue pair error on endpoint " ++ endpoint

structure RegisteredRegion where
  lkey : UInt32
  rkey : UInt32
  vaddr : UInt64
  length : UInt64
  gpuId : Option UInt32
  deriving DecidableEq, Repr

structure RmaTransportEngine where
  nextRkey : UInt32
  registeredRegions : AList fun _ : UInt32 => RegisteredRegion
  completedOps : UInt64
  rdmaProvider : Option RdmaProvider

namespace RmaTransportEngine

def autoDetect : RmaTransportEngine where
  nextRkey := 1001
  registeredRegions := ∅
  completedOps := 0
  rdmaProvider := some .new

/-- The loop over the map, which stops at a region with the same address, length and device. At most one
region has them, so that the order of the loop does not matter. -/
def findRegion (self : RmaTransportEngine) (vaddr length : UInt64) (gpuId : Option UInt32) :
    Option RegisteredRegion :=
  (self.registeredRegions.entries.map Sigma.snd).find? fun region =>
    region.vaddr = vaddr ∧ region.length = length ∧ region.gpuId = gpuId

def registerMemoryRegion (self : RmaTransportEngine) (vaddr length : UInt64) (gpuId : Option UInt32) :
    Except RmaError RegisteredRegion × RmaTransportEngine :=
  if vaddr = 0 ∨ length = 0 then (.error (.memoryRegistrationFailed vaddr length), self)
  else
    match self.findRegion vaddr length gpuId with
    | some region => (.ok region, self)
    | none =>
      match self.rdmaProvider with
      | some provider =>
        match provider.registerRegion vaddr length 0x3 with
        | (.error _, provider) =>
          (.error (.memoryRegistrationFailed vaddr length), { self with rdmaProvider := some provider })
        | (.ok mr, provider) =>
          let reg : RegisteredRegion := ⟨mr.lkey, mr.rkey, mr.vaddr, mr.size, gpuId⟩
          (.ok reg, { self with
            registeredRegions := self.registeredRegions.insert reg.rkey reg
            rdmaProvider := some provider })
      | none =>
        let key := self.nextRkey
        let region : RegisteredRegion := ⟨key, key, vaddr, length, gpuId⟩
        (.ok region, { self with
          nextRkey := key + 1
          registeredRegions := self.registeredRegions.insert key region })

def deregisterMemoryRegion (self : RmaTransportEngine) (rkey : UInt32) :
    Except RmaError Unit × RmaTransportEngine :=
  match self.rdmaProvider with
  | some provider =>
    match provider.deregisterRegion rkey with
    | (.error _, provider) =>
      (.error (.memoryRegistrationFailed 0 0), { self with rdmaProvider := some provider })
    | (.ok _, provider) =>
      (.ok (), { self with
        registeredRegions := self.registeredRegions.erase rkey
        rdmaProvider := some provider })
  | none => (.ok (), { self with registeredRegions := self.registeredRegions.erase rkey })

def rdmaRead (self : RmaTransportEngine) (peerAddr : SocketAddr) (remoteVaddr : UInt64) (rkey : UInt32)
    (localVaddr len : UInt64) : Except RmaError Unit × RmaTransportEngine :=
  match self.rdmaProvider with
  | some provider =>
    match provider.postRead peerAddr remoteVaddr rkey localVaddr len with
    | (.error e, provider) => (.error (.queuePairError e.display),
        { self with rdmaProvider := some provider })
    | (.ok _, provider) =>
      (.ok (), { self with rdmaProvider := some provider, completedOps := self.completedOps + 1 })
  | none => (.ok (), { self with completedOps := self.completedOps + 1 })

/-- The key names a registered region. -/
def Live (self : RmaTransportEngine) (rkey : UInt32) : Prop := rkey ∈ self.registeredRegions

instance (self : RmaTransportEngine) (rkey : UInt32) : Decidable (self.Live rkey) :=
  inferInstanceAs (Decidable (_ ∈ _))

/-- The engine and its provider have the same regions. -/
structure AgreesWith (engine : RmaTransportEngine) (provider : RdmaProvider) : Prop where
  provider_eq : engine.rdmaProvider = some provider
  consistent : provider.mrRegistry.Consistent
  agree : ∀ k, (engine.registeredRegions.lookup k).map (fun r => (r.rkey, r.vaddr, r.length)) =
    (provider.mrRegistry.regions.lookup k).map fun m => (m.rkey, m.vaddr, m.size)

def Coherent (self : RmaTransportEngine) : Prop := ∃ provider, self.AgreesWith provider

theorem coherent_autoDetect : autoDetect.Coherent :=
  ⟨.new, rfl, MemoryRegionRegistry.Consistent.new, fun _ => rfl⟩

theorem live_iff {self : RmaTransportEngine} {rkey : UInt32} :
    self.Live rkey ↔ (self.registeredRegions.lookup rkey).isSome :=
  AList.lookup_isSome.symm

theorem AgreesWith.live_iff {self : RmaTransportEngine} {provider : RdmaProvider}
    (h : self.AgreesWith provider) {rkey : UInt32} :
    self.Live rkey ↔ (provider.mrRegistry.regions.lookup rkey).isSome := by
  have hagree := congrArg Option.isSome (h.agree rkey)
  rw [Option.isSome_map, Option.isSome_map] at hagree
  rw [RmaTransportEngine.live_iff, hagree]

theorem AgreesWith.exists_memoryRegion {self : RmaTransportEngine} {provider : RdmaProvider}
    (h : self.AgreesWith provider) {k : UInt32} {r : RegisteredRegion}
    (hr : self.registeredRegions.lookup k = some r) :
    ∃ m, provider.mrRegistry.regions.lookup k = some m ∧ m.rkey = r.rkey ∧ m.vaddr = r.vaddr ∧
      m.size = r.length := by
  have hagree := h.agree k
  rw [hr] at hagree
  obtain ⟨m, hm, heq⟩ := Option.map_eq_some_iff.mp hagree.symm
  exact ⟨m, hm, by simpa using heq⟩

theorem AgreesWith.exists_registeredRegion {self : RmaTransportEngine} {provider : RdmaProvider}
    (h : self.AgreesWith provider) {k : UInt32} {m : MemoryRegion}
    (hm : provider.mrRegistry.regions.lookup k = some m) :
    ∃ r, self.registeredRegions.lookup k = some r ∧ r.rkey = m.rkey ∧ r.vaddr = m.vaddr ∧
      r.length = m.size := by
  have hagree := h.agree k
  rw [hm] at hagree
  obtain ⟨r, hr, heq⟩ := Option.map_eq_some_iff.mp hagree
  exact ⟨r, hr, by simpa using heq⟩

theorem AgreesWith.rkey_eq {self : RmaTransportEngine} {provider : RdmaProvider}
    (h : self.AgreesWith provider) {k : UInt32} {r : RegisteredRegion}
    (hr : self.registeredRegions.lookup k = some r) : r.rkey = k := by
  obtain ⟨m, hm, hkey, -⟩ := h.exists_memoryRegion hr
  rw [← hkey]
  exact h.consistent.rkey_eq hm

theorem AgreesWith.index_eq {self : RmaTransportEngine} {provider : RdmaProvider}
    (h : self.AgreesWith provider) {k : UInt32} {r : RegisteredRegion}
    (hr : self.registeredRegions.lookup k = some r) :
    provider.mrRegistry.vaddrIndex.lookup (r.vaddr, r.length) = some k := by
  obtain ⟨m, hm, -, hv, hs⟩ := h.exists_memoryRegion hr
  exact h.consistent.index_iff.mpr ⟨m, hm, hv, hs⟩

/-- A buffer has at most one region. -/
theorem AgreesWith.region_unique {self : RmaTransportEngine} {provider : RdmaProvider}
    (h : self.AgreesWith provider) {j k : UInt32} {q r : RegisteredRegion}
    (hq : self.registeredRegions.lookup j = some q) (hr : self.registeredRegions.lookup k = some r)
    (hvaddr : q.vaddr = r.vaddr) (hlength : q.length = r.length) : q = r := by
  have hjk : some j = some k := by rw [← h.index_eq hq, hvaddr, hlength, h.index_eq hr]
  cases hjk
  exact Option.some.inj (hq.symm.trans hr)

/-- Whatever the order of the loop, it finds the region of the buffer and the device. -/
theorem findRegion_eq_some_iff {self : RmaTransportEngine} (h : self.Coherent) {vaddr length : UInt64}
    {gpuId : Option UInt32} {r : RegisteredRegion} :
    self.findRegion vaddr length gpuId = some r ↔
      (∃ k, self.registeredRegions.lookup k = some r) ∧ r.vaddr = vaddr ∧ r.length = length ∧
        r.gpuId = gpuId := by
  have hmem : ∀ q, q ∈ self.registeredRegions.entries.map Sigma.snd ↔
      ∃ k, self.registeredRegions.lookup k = some q := by
    intro q
    rw [List.mem_map]
    constructor
    · rintro ⟨⟨k, q⟩, hentry, rfl⟩
      exact ⟨k, AList.mem_lookup_iff.mpr hentry⟩
    · intro ⟨k, hk⟩
      exact ⟨⟨k, q⟩, AList.mem_lookup_iff.mp hk, rfl⟩
  obtain ⟨provider, hp⟩ := h
  unfold findRegion
  constructor
  · intro hf
    have hr := List.find?_some hf
    exact ⟨(hmem r).mp (List.mem_of_find?_eq_some hf), of_decide_eq_true hr⟩
  · intro ⟨⟨k, hk⟩, hr⟩
    cases hf : (self.registeredRegions.entries.map Sigma.snd).find? fun region =>
        region.vaddr = vaddr ∧ region.length = length ∧ region.gpuId = gpuId with
    | none => exact absurd (decide_eq_true hr) (List.find?_eq_none.mp hf r ((hmem r).mpr ⟨k, hk⟩))
    | some q =>
      obtain ⟨j, hj⟩ := (hmem q).mp (List.mem_of_find?_eq_some hf)
      have hq := List.find?_some hf
      rw [decide_eq_true_iff] at hq
      rw [hp.region_unique hj hk (hq.1.trans hr.1.symm) (hq.2.1.trans hr.2.1.symm)]

/-- A region with the same key on both sides keeps the two in agreement. -/
theorem AgreesWith.insert {self : RmaTransportEngine} {provider provider' : RdmaProvider}
    (h : self.AgreesWith provider) {r : RegisteredRegion} (hc : provider'.mrRegistry.Consistent)
    (hm : (provider'.mrRegistry.regions.lookup r.rkey).map (fun m => (m.rkey, m.vaddr, m.size)) =
      some (r.rkey, r.vaddr, r.length))
    (hother : ∀ k, k ≠ r.rkey →
      provider'.mrRegistry.regions.lookup k = provider.mrRegistry.regions.lookup k) :
    AgreesWith { self with
      registeredRegions := self.registeredRegions.insert r.rkey r
      rdmaProvider := some provider' } provider' := by
  refine ⟨rfl, hc, fun k => ?_⟩
  dsimp only
  by_cases hk : k = r.rkey
  · rw [hk, AList.lookup_insert, hm, Option.map_some]
  · rw [AList.lookup_insert_ne hk, hother k hk, h.agree]

theorem live_insert {self : RmaTransportEngine} {r : RegisteredRegion} {provider : Option RdmaProvider}
    {k : UInt32} :
    Live { self with
      registeredRegions := self.registeredRegions.insert r.rkey r
      rdmaProvider := provider } k ↔ k = r.rkey ∨ self.Live k :=
  AList.mem_insert _

/-- What a registration with the engine does. The provider may already have the buffer for another device,
and then its key is used again. -/
inductive MemoryRegistration (engine : RmaTransportEngine) (provider : RdmaProvider)
    (vaddr length : UInt64) (gpuId : Option UInt32) :
    Except RmaError RegisteredRegion × RmaTransportEngine → Prop where
  | rejected (hzero : vaddr = 0 ∨ length = 0) : MemoryRegistration engine provider vaddr length gpuId
      (.error (.memoryRegistrationFailed vaddr length), engine)
  | found (r : RegisteredRegion) (hr : engine.registeredRegions.lookup r.rkey = some r)
      (hv : r.vaddr = vaddr) (hl : r.length = length) :
      MemoryRegistration engine provider vaddr length gpuId (.ok r, engine)
  | shared (m : MemoryRegion) (hm : provider.mrRegistry.regions.lookup m.rkey = some m)
      (hv : m.vaddr = vaddr) (hs : m.size = length) :
      MemoryRegistration engine provider vaddr length gpuId
        (.ok ⟨m.lkey, m.rkey, m.vaddr, m.size, gpuId⟩, { engine with
          registeredRegions :=
            engine.registeredRegions.insert m.rkey ⟨m.lkey, m.rkey, m.vaddr, m.size, gpuId⟩
          rdmaProvider := some provider })
  | fresh (hkey : provider.mrRegistry.regions.lookup provider.nextQpNum = none)
      (hindex : provider.mrRegistry.vaddrIndex.lookup (vaddr, length) = none)
      (hvalid : ¬ (vaddr = 0 ∨ length = 0)) :
      MemoryRegistration engine provider vaddr length gpuId
        (.ok ⟨provider.nextQpNum, provider.nextQpNum, vaddr, length, gpuId⟩, { engine with
          registeredRegions := engine.registeredRegions.insert provider.nextQpNum
            ⟨provider.nextQpNum, provider.nextQpNum, vaddr, length, gpuId⟩
          rdmaProvider := some { provider with
            mrRegistry := ⟨provider.mrRegistry.regions.insert provider.nextQpNum
                ⟨provider.nextQpNum, provider.nextQpNum, vaddr, length, 0x3, 0⟩,
              provider.mrRegistry.vaddrIndex.insert (vaddr, length) provider.nextQpNum⟩
            nextQpNum := provider.nextQpNum + 1 } })
  | exhausted (hkey : provider.nextQpNum ∈ provider.mrRegistry.regions) :
      MemoryRegistration engine provider vaddr length gpuId
        (.error (.memoryRegistrationFailed vaddr length), { engine with
          rdmaProvider := some { provider with nextQpNum := provider.nextQpNum + 1 } })

theorem AgreesWith.memoryRegistration {self : RmaTransportEngine} {provider : RdmaProvider}
    (h : self.AgreesWith provider) (vaddr length : UInt64) (gpuId : Option UInt32) :
    MemoryRegistration self provider vaddr length gpuId
      (self.registerMemoryRegion vaddr length gpuId) := by
  unfold registerMemoryRegion
  by_cases hzero : vaddr = 0 ∨ length = 0
  · rw [if_pos hzero]
    exact .rejected hzero
  · rw [if_neg hzero]
    cases hf : self.findRegion vaddr length gpuId with
    | some region =>
      obtain ⟨⟨k, hk⟩, hv, hl, -⟩ := (findRegion_eq_some_iff ⟨provider, h⟩).mp hf
      refine .found region ?_ hv hl
      rw [h.rkey_eq hk]
      exact hk
    | none =>
      rw [h.provider_eq]
      dsimp only
      have hreg := RdmaProvider.registration h.consistent vaddr length 0x3
      generalize provider.registerRegion vaddr length 0x3 = result at hreg
      cases hreg with
      | existing m hm hv hs => exact .shared m hm hv hs
      | inserted hindex hinsert =>
        cases hinsert with
        | fresh hkey hvalid => exact .fresh hkey hindex hvalid
        | failed e hfail => exact .exhausted (hfail.resolve_left hzero)

theorem MemoryRegistration.coherent {self : RmaTransportEngine} {provider : RdmaProvider}
    {vaddr length : UInt64} {gpuId : Option UInt32}
    {result : Except RmaError RegisteredRegion × RmaTransportEngine}
    (h : MemoryRegistration self provider vaddr length gpuId result) (hp : self.AgreesWith provider) :
    result.2.Coherent := by
  cases h with
  | rejected hzero => exact ⟨provider, hp⟩
  | found r hr hv hl => exact ⟨provider, hp⟩
  | shared m hm hv hs =>
    refine ⟨provider, hp.insert (r := ⟨m.lkey, m.rkey, m.vaddr, m.size, gpuId⟩) hp.consistent ?_
      fun _ _ => rfl⟩
    dsimp only
    rw [hm, Option.map_some]
  | fresh hkey hindex hvalid =>
    have hfresh := hp.consistent.insert
      (m := ⟨provider.nextQpNum, provider.nextQpNum, vaddr, length, 0x3, 0⟩) hkey hindex
    refine ⟨_, hp.insert (r := ⟨provider.nextQpNum, provider.nextQpNum, vaddr, length, gpuId⟩)
      hfresh ?_ fun k hk => AList.lookup_insert_ne hk⟩
    dsimp only
    rw [AList.lookup_insert, Option.map_some]
  | exhausted hkey => exact ⟨_, rfl, hp.consistent, hp.agree⟩

/-- A registration makes the key that it returns live, and a failed one changes no region. -/
theorem registerMemoryRegion_spec {self : RmaTransportEngine} (h : self.Coherent) (vaddr length : UInt64)
    (gpuId : Option UInt32) :
    (self.registerMemoryRegion vaddr length gpuId).2.Coherent ∧
      (∀ e, (self.registerMemoryRegion vaddr length gpuId).1 = .error e →
        ∀ k, (self.registerMemoryRegion vaddr length gpuId).2.Live k ↔ self.Live k) ∧
      ∀ r, (self.registerMemoryRegion vaddr length gpuId).1 = .ok r →
        ∀ k, (self.registerMemoryRegion vaddr length gpuId).2.Live k ↔ k = r.rkey ∨ self.Live k := by
  obtain ⟨provider, hp⟩ := h
  have hreg := hp.memoryRegistration vaddr length gpuId
  refine ⟨hreg.coherent hp, ?_⟩
  generalize self.registerMemoryRegion vaddr length gpuId = result at hreg
  cases hreg with
  | rejected hzero => exact ⟨fun _ _ _ => Iff.rfl, fun r hr => (by cases hr)⟩
  | exhausted hkey => exact ⟨fun _ _ _ => Iff.rfl, fun r hr => (by cases hr)⟩
  | found region hlookup hv hl =>
    refine ⟨fun e he => (by cases he), fun r hr k => ?_⟩
    cases hr
    have hlive : self.Live region.rkey := by
      rw [live_iff, hlookup]
      rfl
    constructor
    · exact .inr
    · rintro (rfl | hk)
      · exact hlive
      · exact hk
  | shared m hm hv hs =>
    refine ⟨fun e he => (by cases he), fun r hr k => ?_⟩
    cases hr
    exact live_insert (r := ⟨m.lkey, m.rkey, m.vaddr, m.size, gpuId⟩)
  | fresh hkey hindex hvalid =>
    refine ⟨fun e he => (by cases he), fun r hr k => ?_⟩
    cases hr
    exact live_insert (r := ⟨provider.nextQpNum, provider.nextQpNum, vaddr, length, gpuId⟩)

/-- What a deregistration with the engine does. -/
inductive MemoryDeregistration (engine : RmaTransportEngine) (provider : RdmaProvider) (rkey : UInt32) :
    Except RmaError Unit × RmaTransportEngine → Prop where
  | missing (hm : provider.mrRegistry.regions.lookup rkey = none) :
      MemoryDeregistration engine provider rkey (.error (.memoryRegistrationFailed 0 0), engine)
  | removed (m : MemoryRegion) (hm : provider.mrRegistry.regions.lookup rkey = some m) :
      MemoryDeregistration engine provider rkey
        (.ok (), { engine with
          registeredRegions := engine.registeredRegions.erase rkey
          rdmaProvider := some { provider with
            mrRegistry := ⟨provider.mrRegistry.regions.erase rkey,
              provider.mrRegistry.vaddrIndex.erase (m.vaddr, m.size)⟩ } })

theorem AgreesWith.memoryDeregistration {self : RmaTransportEngine} {provider : RdmaProvider}
    (h : self.AgreesWith provider) (rkey : UInt32) :
    MemoryDeregistration self provider rkey (self.deregisterMemoryRegion rkey) := by
  unfold deregisterMemoryRegion RdmaProvider.deregisterRegion MemoryRegionRegistry.deregister
  rw [h.provider_eq]
  dsimp only
  cases hl : provider.mrRegistry.regions.lookup rkey with
  | none =>
    dsimp only
    rw [← h.provider_eq]
    exact .missing hl
  | some m => exact .removed m hl

theorem MemoryDeregistration.coherent {self : RmaTransportEngine} {provider : RdmaProvider}
    {rkey : UInt32} {result : Except RmaError Unit × RmaTransportEngine}
    (h : MemoryDeregistration self provider rkey result) (hp : self.AgreesWith provider) :
    result.2.Coherent := by
  cases h with
  | missing hm => exact ⟨provider, hp⟩
  | removed m hm =>
    have hconsistent := hp.consistent.deregister rkey
    unfold MemoryRegionRegistry.deregister at hconsistent
    rw [hm] at hconsistent
    refine ⟨_, rfl, hconsistent, fun k => ?_⟩
    dsimp only
    by_cases hk : k = rkey
    · rw [hk, AList.lookup_erase, AList.lookup_erase]
      rfl
    · rw [AList.lookup_erase_ne hk, AList.lookup_erase_ne hk, hp.agree]

/-- A deregistration succeeds exactly for a live key, which it ends. -/
theorem deregisterMemoryRegion_spec {self : RmaTransportEngine} (h : self.Coherent) (rkey : UInt32) :
    (self.deregisterMemoryRegion rkey).2.Coherent ∧
      ((self.deregisterMemoryRegion rkey).1 = .ok () ↔ self.Live rkey) ∧
      ∀ k, (self.deregisterMemoryRegion rkey).2.Live k ↔ self.Live k ∧ k ≠ rkey := by
  obtain ⟨provider, hp⟩ := h
  have hdereg := hp.memoryDeregistration rkey
  refine ⟨hdereg.coherent hp, ?_⟩
  generalize self.deregisterMemoryRegion rkey = result at hdereg
  cases hdereg with
  | missing hm =>
    have hdead : ¬ self.Live rkey := by
      rw [hp.live_iff, hm]
      decide
    refine ⟨iff_of_false (by simp) hdead, fun k => ?_⟩
    constructor
    · intro hk
      refine ⟨hk, ?_⟩
      rintro rfl
      exact hdead hk
    · exact And.left
  | removed m hm =>
    refine ⟨iff_of_true rfl ?_, fun k => AList.mem_erase.trans and_comm⟩
    rw [hp.live_iff, hm]
    rfl

/-- A read leaves the regions alone and may draw a key. -/
theorem AgreesWith.rdmaRead {self : RmaTransportEngine} {provider : RdmaProvider}
    (h : self.AgreesWith provider) (peerAddr : SocketAddr) (remoteVaddr : UInt64) (rkey : UInt32)
    (localVaddr len : UInt64) :
    ∃ p, self.rdmaRead peerAddr remoteVaddr rkey localVaddr len = (.ok (), { self with
        rdmaProvider := some p
        completedOps := self.completedOps + 1 }) ∧
      p.mrRegistry = provider.mrRegistry ∧
      (p.nextQpNum = provider.nextQpNum ∨ p.nextQpNum = provider.nextQpNum + 1) := by
  obtain ⟨p, hread, hregistry, hnext⟩ := provider.postRead_spec peerAddr remoteVaddr rkey localVaddr len
  refine ⟨p, ?_, hregistry, hnext⟩
  unfold RmaTransportEngine.rdmaRead
  rw [h.provider_eq]
  dsimp only
  rw [hread]

end RmaTransportEngine

end Virthub.Klnk.Rma
