import Virthub.Klnk.Rma.TransportEngine
import Virthub.Lib.Trace
import Mathlib.Algebra.Ring.Nat

/-! Runs of the transport engine. Regions and queue pairs draw their keys from one counter, so that a key is
new as long as the counter has not gone round. -/
namespace Virthub.Klnk.Rma
open Virthub.Lib

inductive RmaCall where
  | registerMemoryRegion (vaddr length : UInt64) (gpuId : Option UInt32)
  | deregisterMemoryRegion (rkey : UInt32)
  | rdmaRead (peerAddr : SocketAddr) (remoteVaddr : UInt64) (rkey : UInt32) (localVaddr len : UInt64)
  deriving DecidableEq, Repr

inductive RmaAnswer where
  | region (result : Except RmaError RegisteredRegion)
  | done (result : Except RmaError Unit)

def RmaAnswer.Failed : RmaAnswer → Prop
  | region result => ∃ e, result = .error e
  | done result => ∃ e, result = .error e

def rmaStep (engine : RmaTransportEngine) : RmaCall → RmaAnswer × RmaTransportEngine
  | .registerMemoryRegion vaddr length gpuId =>
    (engine.registerMemoryRegion vaddr length gpuId).map .region id
  | .deregisterMemoryRegion rkey => (engine.deregisterMemoryRegion rkey).map .done id
  | .rdmaRead peerAddr remoteVaddr rkey localVaddr len =>
    (engine.rdmaRead peerAddr remoteVaddr rkey localVaddr len).map .done id

abbrev RmaEvent := Event RmaTransportEngine RmaCall RmaAnswer

/-- The counter of the provider has moved. -/
def DrawsKey (e : RmaEvent) : Prop :=
  e.post.rdmaProvider.map RdmaProvider.nextQpNum ≠ e.pre.rdmaProvider.map RdmaProvider.nextQpNum

instance : DecidablePred DrawsKey := fun _ => inferInstanceAs (Decidable (_ ≠ _))

def keysDrawn (h : List RmaEvent) : ℕ := h.countP fun e => DrawsKey e

theorem keysDrawn_concat (h : List RmaEvent) (e : RmaEvent) :
    keysDrawn (h ++ [e]) = keysDrawn h + if DrawsKey e then 1 else 0 := by
  rw [keysDrawn, List.countP_append, List.countP_singleton]
  simp only [decide_eq_true_eq]
  rfl

/-- After `drawn` keys the counter is one above them, and the live keys are among them. -/
structure KeysBelow (provider : RdmaProvider) (drawn : ℕ) : Prop where
  next_eq : provider.nextQpNum.toNat = (1 + drawn) % 2 ^ 32
  live : ∀ {k m}, provider.mrRegistry.regions.lookup k = some m →
    k.toNat ≤ drawn ∧ m.vaddr ≠ 0 ∧ m.size ≠ 0

/-- What a call does to the provider: it may end regions, and may draw a key and give it to a region. -/
inductive KeyStep (p q : RdmaProvider) : Prop where
  | keep (hnext : q.nextQpNum = p.nextQpNum)
      (hregions : ∀ {k m}, q.mrRegistry.regions.lookup k = some m → p.mrRegistry.regions.lookup k = some m)
  | draw (hnext : q.nextQpNum = p.nextQpNum + 1)
      (hregions : ∀ {k m}, q.mrRegistry.regions.lookup k = some m →
        p.mrRegistry.regions.lookup k = some m ∨ k = p.nextQpNum ∧ m.vaddr ≠ 0 ∧ m.size ≠ 0)

theorem KeysBelow.new : KeysBelow .new 0 := by
  refine ⟨rfl, fun h => ?_⟩
  cases h

/-- The next key is not live unless the counter has gone round. -/
theorem KeysBelow.next_notMem {provider : RdmaProvider} {drawn : ℕ} (h : KeysBelow provider drawn)
    (hlt : drawn + 1 < 2 ^ 32) : provider.nextQpNum ∉ provider.mrRegistry.regions := by
  intro hmem
  obtain ⟨m, hm⟩ := Option.isSome_iff_exists.mp (AList.lookup_isSome.mpr hmem)
  have hle := (h.live hm).1
  rw [h.next_eq] at hle
  omega

theorem KeysBelow.step {p q : RdmaProvider} {drawn : ℕ} (h : KeysBelow p drawn) (hstep : KeyStep p q)
    (hlt : drawn + (if q.nextQpNum ≠ p.nextQpNum then 1 else 0) < 2 ^ 32) :
    KeysBelow q (drawn + if q.nextQpNum ≠ p.nextQpNum then 1 else 0) := by
  cases hstep with
  | keep hnext hregions =>
    rw [if_neg (not_not.mpr hnext), Nat.add_zero]
    refine ⟨?_, fun hm => h.live (hregions hm)⟩
    rw [hnext]
    exact h.next_eq
  | draw hnext hregions =>
    have hne : q.nextQpNum ≠ p.nextQpNum := by
      rw [hnext]
      intro heq
      simp at heq
    rw [if_pos hne] at hlt ⊢
    have hp := h.next_eq
    refine ⟨?_, fun {k m} hm => ?_⟩
    · rw [hnext, UInt32.toNat_add, hp]
      have hone : (1 : UInt32).toNat = 1 := rfl
      omega
    · rcases hregions hm with hm | ⟨rfl, hv, hs⟩
      · have hold := h.live hm
        exact ⟨by omega, hold.2⟩
      · exact ⟨by omega, hv, hs⟩

/-- A live buffer keeps its key, a new buffer gets a key that is not live, and a failure changes nothing. -/
structure KeepsKeys (e : RmaEvent) : Prop where
  same : ∀ {vaddr length gpuId}, e.call = .registerMemoryRegion vaddr length gpuId →
    ∀ {k r}, e.pre.registeredRegions.lookup k = some r → r.vaddr = vaddr → r.length = length →
      ∃ r', e.answer = .region (.ok r') ∧ r'.rkey = k
  fresh : ∀ {vaddr length gpuId r'}, e.call = .registerMemoryRegion vaddr length gpuId →
    e.answer = .region (.ok r') →
    (∀ k r, e.pre.registeredRegions.lookup k = some r → ¬ (r.vaddr = vaddr ∧ r.length = length)) →
      ¬ e.pre.Live r'.rkey
  unchanged : e.answer.Failed → e.post = e.pre

section
variable {engine : RmaTransportEngine} {provider : RdmaProvider} {drawn : ℕ}

theorem drawsKey_iff {e : RmaEvent} {p q : RdmaProvider} (hpre : e.pre.rdmaProvider = some p)
    (hpost : e.post.rdmaProvider = some q) : DrawsKey e ↔ q.nextQpNum ≠ p.nextQpNum := by
  rw [DrawsKey, hpre, hpost, Option.map_some, Option.map_some, ne_eq, Option.some_inj]

theorem keyStep_draw {p q : RdmaProvider} (hnext : q.nextQpNum = p.nextQpNum ∨ q.nextQpNum = p.nextQpNum + 1)
    (hregistry : q.mrRegistry = p.mrRegistry) : KeyStep p q := by
  rcases hnext with hnext | hnext
  · refine .keep hnext fun hm => ?_
    rwa [hregistry] at hm
  · refine .draw hnext fun hm => .inl ?_
    rwa [hregistry] at hm

/-- With a counter that has not gone round, a registration fails only for an empty buffer. -/
theorem registerMemoryRegion_step (h : engine.AgreesWith provider) (hkeys : KeysBelow provider drawn)
    (vaddr length : UInt64) (gpuId : Option UInt32)
    (hlt : drawn + 1 < 2 ^ 32 ∨
      ¬ DrawsKey (event rmaStep engine (.registerMemoryRegion vaddr length gpuId))) :
    (∃ q, (rmaStep engine (.registerMemoryRegion vaddr length gpuId)).2.rdmaProvider = some q ∧
        KeyStep provider q) ∧
      KeepsKeys (event rmaStep engine (.registerMemoryRegion vaddr length gpuId)) := by
  have hreg := h.memoryRegistration vaddr length gpuId
  simp only [event, rmaStep] at hlt ⊢
  generalize engine.registerMemoryRegion vaddr length gpuId = result at hreg hlt ⊢
  cases hreg with
  | rejected hzero =>
    refine ⟨⟨provider, h.provider_eq, .keep rfl id⟩, ?_, fun _ hr => (by cases hr), fun _ => rfl⟩
    intro v l g hcall k r hr hv hl
    cases hcall
    -- no live region has such a buffer
    obtain ⟨m, hm, -, hmv, hms⟩ := h.exists_memoryRegion hr
    obtain ⟨-, hv0, hs0⟩ := hkeys.live hm
    rw [hmv, hv] at hv0
    rw [hms, hl] at hs0
    exact absurd hzero (not_or.mpr ⟨hv0, hs0⟩)
  | found r hr hv hl =>
    refine ⟨⟨provider, h.provider_eq, .keep rfl id⟩, ?_, ?_, fun _ => rfl⟩
    · intro v l g hcall k q hq hqv hql
      cases hcall
      have heq := h.region_unique hr hq (hv.trans hqv.symm) (hl.trans hql.symm)
      exact ⟨r, rfl, by rw [heq, h.rkey_eq hq]⟩
    · intro v l g r' hcall hanswer hnone
      cases hcall
      exact absurd ⟨hv, hl⟩ (hnone _ r hr)
  | shared m hm hv hs =>
    refine ⟨⟨provider, rfl, .keep rfl id⟩, ?_, ?_, ?_⟩
    · intro v l g hcall k q hq hqv hql
      cases hcall
      have hold := h.index_eq hq
      rw [hqv, hql, h.consistent.index_iff.mpr ⟨m, hm, hv, hs⟩] at hold
      exact ⟨_, rfl, Option.some.inj hold⟩
    · intro v l g r' hcall hanswer hnone
      cases hcall
      obtain ⟨r, hr, -, hrv, hrl⟩ := h.exists_registeredRegion hm
      exact absurd ⟨hrv.trans hv, hrl.trans hs⟩ (hnone _ r hr)
    · rintro ⟨e, he⟩
      cases he
  | fresh hkey hindex hvalid =>
    refine ⟨⟨_, rfl, .draw rfl ?_⟩, ?_, ?_, ?_⟩
    · intro k m hm
      rcases lookup_insert_eq_some_iff.mp hm with ⟨rfl, rfl⟩ | ⟨-, hm⟩
      · exact .inr ⟨rfl, not_or.mp hvalid⟩
      · exact .inl hm
    · intro v l g hcall k q hq hqv hql
      cases hcall
      have hold := h.index_eq hq
      rw [hqv, hql, hindex] at hold
      cases hold
    · intro v l g r' hcall hanswer hnone
      cases hanswer
      rw [h.live_iff, hkey]
      decide
    · rintro ⟨e, he⟩
      cases he
  | exhausted hkey =>
    rcases hlt with hlt | hlt
    · exact absurd hkey (hkeys.next_notMem hlt)
    · rw [drawsKey_iff h.provider_eq rfl] at hlt
      simp at hlt

theorem deregisterMemoryRegion_step (h : engine.AgreesWith provider) (rkey : UInt32) :
    (∃ q, (rmaStep engine (.deregisterMemoryRegion rkey)).2.rdmaProvider = some q ∧ KeyStep provider q) ∧
      KeepsKeys (event rmaStep engine (.deregisterMemoryRegion rkey)) := by
  have hdereg := h.memoryDeregistration rkey
  simp only [event, rmaStep]
  generalize engine.deregisterMemoryRegion rkey = result at hdereg ⊢
  cases hdereg with
  | missing hm =>
    exact ⟨⟨provider, h.provider_eq, .keep rfl id⟩, fun hcall => (by cases hcall),
      fun hcall => (by cases hcall), fun _ => rfl⟩
  | removed m hm =>
    refine ⟨⟨_, rfl, .keep rfl fun hk => (lookup_erase_eq_some_iff.mp hk).2⟩, fun hcall => (by cases hcall),
      fun hcall => (by cases hcall), ?_⟩
    rintro ⟨e, he⟩
    cases he

theorem rdmaRead_step (h : engine.AgreesWith provider) (peerAddr : SocketAddr) (remoteVaddr : UInt64)
    (rkey : UInt32) (localVaddr len : UInt64) :
    (rmaStep engine (.rdmaRead peerAddr remoteVaddr rkey localVaddr len)).2.Coherent ∧
      (∃ q, (rmaStep engine (.rdmaRead peerAddr remoteVaddr rkey localVaddr len)).2.rdmaProvider = some q ∧
        KeyStep provider q) ∧
      KeepsKeys (event rmaStep engine (.rdmaRead peerAddr remoteVaddr rkey localVaddr len)) := by
  obtain ⟨p, hread, hregistry, hnext⟩ := h.rdmaRead peerAddr remoteVaddr rkey localVaddr len
  simp only [event, rmaStep, hread]
  refine ⟨⟨p, rfl, ?_, ?_⟩, ⟨p, rfl, keyStep_draw hnext hregistry⟩, fun hcall => (by cases hcall),
    fun hcall => (by cases hcall), ?_⟩
  · rw [hregistry]
    exact h.consistent
  · rw [hregistry]
    exact h.agree
  · rintro ⟨e, he⟩
    cases he

/-- What a call does to an engine whose counter has not gone round. -/
theorem rmaStep_spec (h : engine.AgreesWith provider) (hkeys : KeysBelow provider drawn) (call : RmaCall)
    (hlt : drawn + (if DrawsKey (event rmaStep engine call) then 1 else 0) < 2 ^ 32) :
    (rmaStep engine call).2.Coherent ∧
      (∃ q, (rmaStep engine call).2.rdmaProvider = some q ∧ KeyStep provider q) ∧
      KeepsKeys (event rmaStep engine call) := by
  cases call with
  | registerMemoryRegion vaddr length gpuId =>
    refine ⟨(h.memoryRegistration vaddr length gpuId).coherent h,
      registerMemoryRegion_step h hkeys vaddr length gpuId ?_⟩
    split_ifs at hlt with hdraw
    · exact .inl hlt
    · exact .inr hdraw
  | deregisterMemoryRegion rkey =>
    exact ⟨(h.memoryDeregistration rkey).coherent h, deregisterMemoryRegion_step h rkey⟩
  | rdmaRead peerAddr remoteVaddr rkey localVaddr len =>
    exact rdmaRead_step h peerAddr remoteVaddr rkey localVaddr len

end

/-- While fewer than `2 ^ 32` keys are drawn, the engine and its provider have the same regions, a buffer
has at most one of them and keeps its key, a new key is not live, and a failed call changes nothing. -/
theorem live_regions_agree (calls : List RmaCall)
    (hkeys : keysDrawn (trace rmaStep .autoDetect calls) < 2 ^ 32) :
    (exec rmaStep .autoDetect calls).Coherent ∧
      (∀ j k q r, (exec rmaStep .autoDetect calls).registeredRegions.lookup j = some q →
        (exec rmaStep .autoDetect calls).registeredRegions.lookup k = some r →
        q.vaddr = r.vaddr → q.length = r.length → j = k) ∧
      ∀ e ∈ trace rmaStep .autoDetect calls, KeepsKeys e := by
  -- the bound on the keys of the run is a bound at each call
  have hbound : Along (fun h t a => keysDrawn (h ++ [event rmaStep t a]) < 2 ^ 32) rmaStep .autoDetect
      calls := by
    intro as a bs heq
    rw [heq, trace_append] at hkeys
    refine lt_of_le_of_lt ?_ hkeys
    rw [keysDrawn, keysDrawn, List.countP_append, List.countP_append]
    refine Nat.add_le_add_left (List.Sublist.countP_le ?_) _
    rw [trace]
    exact List.Sublist.cons_cons _ (List.nil_sublist _)
  obtain ⟨hinv, hevents⟩ := history_forall
    (P := fun h t => ∃ provider, t.AgreesWith provider ∧ KeysBelow provider (keysDrawn h))
    (Q := fun _ e => KeepsKeys e)
    ⟨_, ⟨rfl, MemoryRegionRegistry.Consistent.new, fun _ => rfl⟩, KeysBelow.new⟩
    (by
      intro h t a hinv hlt
      obtain ⟨provider, hagree, hbelow⟩ := hinv
      rw [keysDrawn_concat] at hlt ⊢
      obtain ⟨⟨q, hq⟩, ⟨q', hq', hstep⟩, hkeeps⟩ := rmaStep_spec hagree hbelow a hlt
      obtain rfl : q = q' := Option.some.inj (hq.provider_eq.symm.trans hq')
      refine ⟨⟨q, hq, ?_⟩, hkeeps⟩
      simp only [drawsKey_iff (e := event rmaStep t a) hagree.provider_eq hq'] at hlt ⊢
      exact hbelow.step hstep hlt)
    calls hbound
  obtain ⟨provider, hagree, -⟩ := hinv
  refine ⟨⟨provider, hagree⟩, ?_, ?_⟩
  · intro j k q r hq hr hv hl
    have heq := hagree.region_unique hq hr hv hl
    rw [← hagree.rkey_eq hq, ← hagree.rkey_eq hr, heq]
  · intro e he
    obtain ⟨past, rest, heq⟩ := List.append_of_mem he
    exact hevents past e rest heq

/-- A buffer that is registered for a second device keeps its key, with a read in between. -/
theorem live_regions_agree_for_two_devices :
    keysDrawn (trace rmaStep .autoDetect [.registerMemoryRegion 4096 64 none,
      .rdmaRead ⟨[10, 0, 0, 2], 9000⟩ 4096 7 8192 64, .registerMemoryRegion 4096 64 (some 0)]) = 2 ∧
    (∃ r, (rmaStep (exec rmaStep .autoDetect [.registerMemoryRegion 4096 64 none,
      .rdmaRead ⟨[10, 0, 0, 2], 9000⟩ 4096 7 8192 64]) (.registerMemoryRegion 4096 64 (some 0))).1 =
        .region (.ok r) ∧ r.rkey = 1) ∧
    (exec rmaStep .autoDetect [.registerMemoryRegion 4096 64 none,
      .rdmaRead ⟨[10, 0, 0, 2], 9000⟩ 4096 7 8192 64, .registerMemoryRegion 4096 64 (some 0)]).Coherent :=
  ⟨by decide, ⟨_, rfl, rfl⟩, (live_regions_agree _ (by decide)).1⟩

end Virthub.Klnk.Rma
