import Virthub.Connectors.Vllm

/-! The regions of the engine against those of the registered blocks. A region is shared by all blocks that
name the same buffer, and deregistered with the first of them. -/
namespace Virthub.Connectors
open Virthub.Klnk.Rma Virthub.Lib Virthub.Precision

/-- A loop over the keys that takes live keys away, and ends at a key that is not live, gets to `k`. -/
def Reached (Live : UInt32 → Prop) (keys : List UInt32) (k : UInt32) : Prop :=
  ∃ before after, keys = before ++ k :: after ∧ (before ++ [k]).Nodup ∧ ∀ j ∈ before, Live j

theorem reached_cons {Live : UInt32 → Prop} {j k : UInt32} {keys : List UInt32} :
    Reached Live (j :: keys) k ↔
      k = j ∨ Live j ∧ k ≠ j ∧ Reached (fun i => Live i ∧ i ≠ j) keys k := by
  constructor
  · intro ⟨before, after, heq, hnodup, hlive⟩
    cases before with
    | nil =>
      obtain ⟨rfl, -⟩ : j = k ∧ keys = after := by simpa using heq
      exact .inl rfl
    | cons i before =>
      obtain ⟨rfl, htail⟩ : j = i ∧ keys = before ++ k :: after := by simpa using heq
      rw [List.cons_append, List.nodup_cons] at hnodup
      obtain ⟨hfresh, hnodup⟩ := hnodup
      have hne : k ≠ j := by
        intro hkj
        exact hfresh (by simp [hkj])
      refine .inr ⟨hlive j List.mem_cons_self, hne, before, after, htail, hnodup, ?_⟩
      intro i hi
      refine ⟨hlive i (List.mem_cons_of_mem _ hi), ?_⟩
      intro hij
      exact hfresh (List.mem_append_left _ (hij ▸ hi))
  · intro h
    rcases h with rfl | ⟨hj, hne, before, after, rfl, hnodup, hlive⟩
    · exact ⟨[], keys, rfl, List.nodup_singleton k, by simp⟩
    · refine ⟨j :: before, after, rfl, ?_, ?_⟩
      · rw [List.cons_append, List.nodup_cons]
        refine ⟨?_, hnodup⟩
        intro hmem
        rcases List.mem_append.mp hmem with hmem | hmem
        · exact (hlive j hmem).2 rfl
        · exact hne (List.mem_singleton.mp hmem).symm
      · rw [List.forall_mem_cons]
        exact ⟨hj, fun i hi => (hlive i hi).1⟩

/-- The loop leaves the live keys that it does not get to. -/
theorem live_deregisterAll_iff {engine : RmaTransportEngine} (h : engine.Coherent)
    (regions : List RegisteredRegion) (k : UInt32) :
    (deregisterAll engine regions).2.Live k ↔
      engine.Live k ∧ ¬ Reached engine.Live (regions.map (·.rkey)) k := by
  induction regions generalizing engine with
  | nil =>
    have hnone : ¬ Reached engine.Live [] k := by
      intro ⟨before, after, heq, _⟩
      simp at heq
    exact (and_iff_left hnone).symm
  | cons region regions ih =>
    obtain ⟨hcoherent, -, hrest⟩ := RmaTransportEngine.deregisterMemoryRegion_spec h region.rkey
    rw [List.map_cons, reached_cons]
    by_cases hl : engine.Live region.rkey
    · have hnext : (engine.deregisterMemoryRegion region.rkey).2.Live =
          fun i => engine.Live i ∧ i ≠ region.rkey := funext fun i => propext (hrest i)
      rw [deregisterAll_of_live h hl, ih hcoherent, hnext]
      tauto
    · obtain ⟨e, he⟩ := deregisterAll_of_dead h hl regions
      rw [he, hrest]
      tauto

theorem deregisterAll_empties_iff {engine : RmaTransportEngine} (h : engine.Coherent)
    (regions : List RegisteredRegion) :
    (∀ k, ¬ (deregisterAll engine regions).2.Live k) ↔
      ∀ k, engine.Live k → Reached engine.Live (regions.map (·.rkey)) k := by
  simp only [live_deregisterAll_iff h, not_and, not_not]

theorem nodup_of_forall_split {keys : List UInt32}
    (h : ∀ before k after, keys = before ++ k :: after → k ∉ before) : keys.Nodup := by
  induction keys using List.reverseRecOn with
  | nil => exact List.nodup_nil
  | append_singleton keys k ih =>
    have hfresh : k ∉ keys := h keys k [] rfl
    have hkeys : keys.Nodup := ih fun before j after heq => h before j (after ++ [k]) (by simp [heq])
    rw [List.nodup_append]
    refine ⟨hkeys, List.nodup_singleton k, ?_⟩
    intro j hj i hi hji
    rw [List.mem_singleton.mp hi] at hji
    exact hfresh (hji ▸ hj)

/-- If all keys are live, the loop gets to all of them exactly if a key that comes up again is behind all
keys. -/
theorem forall_reached_iff {keys : List UInt32} :
    (∀ k ∈ keys, Reached (· ∈ keys) keys k) ↔
      ∀ before k after, keys = before ++ k :: after → k ∈ before → after ⊆ before := by
  constructor
  · intro h before k after heq hk x hx
    obtain ⟨reached, rest, hsplit, hnodup, -⟩ := h x (by simp [heq, hx])
    have hreached : reached ++ [x] <+: keys := ⟨rest, by simp [hsplit]⟩
    have hbefore : before ++ [k] <+: keys := ⟨after, by simp [heq]⟩
    -- the loop ends at `k` at the latest
    rcases List.prefix_or_prefix_of_prefix hreached hbefore with hle | hle
    · have hmem : x ∈ before ++ [k] := hle.subset (by simp)
      rcases List.mem_append.mp hmem with hmem | hmem
      · exact hmem
      · rwa [List.mem_singleton.mp hmem]
    · have hdup := (List.nodup_append.mp (hnodup.sublist hle.sublist)).2.2 k hk k (by simp)
      exact absurd rfl hdup
  · intro h k hk
    obtain ⟨before, after, heq, hfresh⟩ := List.eq_append_cons_of_mem hk
    refine ⟨before, after, heq, ?_, fun j hj => by simp [heq, hj]⟩
    apply nodup_of_forall_split
    intro first j rest hsplit hj
    rcases concat_eq_split.mp hsplit with ⟨rfl, rfl, -⟩ | ⟨rest', -, hbefore⟩
    · exact hfresh hj
    · -- a key that came up twice before `k` would have `k` among the keys before it
      have hsub := h first j (rest' ++ k :: after) (by simp [heq, hbefore]) hj
      exact hfresh (by simp [hbefore, hsub (by simp : k ∈ rest' ++ k :: after)])

namespace VirthubVllmConnector

/-- A block other than `blockId` has the key. -/
def HeldApart (self : VirthubVllmConnector) (blockId : UInt64) (rkey : UInt32) : Prop :=
  ∃ b r, b ≠ blockId ∧ self.registeredBlocks.lookup b = some r ∧ r.rkey = rkey

/-- Some block has the key. -/
def Held (self : VirthubVllmConnector) (rkey : UInt32) : Prop :=
  ∃ b r, self.registeredBlocks.lookup b = some r ∧ r.rkey = rkey

/-- The live keys of the engine are the keys of the registered blocks. -/
def RegionsMatch (self : VirthubVllmConnector) : Prop :=
  {rkey | self.rmaEngine.Live rkey} = {rkey | self.Held rkey}

theorem regionsMatch_iff {self : VirthubVllmConnector} :
    self.RegionsMatch ↔ ∀ k, self.rmaEngine.Live k ↔ self.Held k := Set.ext_iff

theorem held_iff {self : VirthubVllmConnector} {blockId : UInt64} {region : RegisteredRegion}
    (h : self.registeredBlocks.lookup blockId = some region) (k : UInt32) :
    self.Held k ↔ k = region.rkey ∨ self.HeldApart blockId k := by
  constructor
  · intro ⟨b, r, hb, hk⟩
    by_cases hid : b = blockId
    · subst hid
      obtain rfl : region = r := Option.some.inj (h.symm.trans hb)
      exact .inl hk.symm
    · exact .inr ⟨b, r, hid, hb, hk⟩
  · intro hk
    rcases hk with hk | ⟨b, r, -, hb, hk⟩
    · exact ⟨blockId, region, h, hk.symm⟩
    · exact ⟨b, r, hb, hk⟩

theorem held_iff_of_none {self : VirthubVllmConnector} {blockId : UInt64}
    (h : self.registeredBlocks.lookup blockId = none) (k : UInt32) :
    self.Held k ↔ self.HeldApart blockId k := by
  constructor
  · intro ⟨b, r, hb, hk⟩
    refine ⟨b, r, ?_, hb, hk⟩
    intro hid
    rw [hid, h] at hb
    cases hb
  · intro ⟨b, r, _, hb, hk⟩
    exact ⟨b, r, hb, hk⟩

/-- The keys after a block has got a region. -/
theorem held_insert {self : VirthubVllmConnector} {blockId : UInt64} {region : RegisteredRegion}
    {c : VirthubVllmConnector}
    (h : c.registeredBlocks = self.registeredBlocks.insert blockId region) (k : UInt32) :
    c.Held k ↔ k = region.rkey ∨ self.HeldApart blockId k := by
  unfold Held HeldApart
  simp only [h, lookup_insert_eq_some_iff]
  constructor
  · rintro ⟨b, r, ⟨rfl, rfl⟩ | ⟨hne, hb⟩, hk⟩
    · exact .inl hk.symm
    · exact .inr ⟨b, r, hne, hb, hk⟩
  · rintro (hk | ⟨b, r, hne, hb, hk⟩)
    · exact ⟨blockId, region, .inl ⟨rfl, rfl⟩, hk.symm⟩
    · exact ⟨b, r, .inr ⟨hne, hb⟩, hk⟩

/-- The keys after a block has left. -/
theorem held_erase {self : VirthubVllmConnector} {blockId : UInt64} {c : VirthubVllmConnector}
    (h : c.registeredBlocks = self.registeredBlocks.erase blockId) (k : UInt32) :
    c.Held k ↔ self.HeldApart blockId k := by
  unfold Held HeldApart
  simp only [h, lookup_erase_eq_some_iff, and_assoc]

/-- The call loses no region and takes none from a block:
a registration leaves the region of the block that it replaces to another one, a block that is dropped shares
its region with none, and a key that comes up a second time while the connector closes is behind all keys. -/
def KeepsRegions (self : VirthubVllmConnector) : VllmCall → Prop
  | .registerKvBlock blockId vaddr sizeBytes gpuDeviceId _ _ =>
    ∀ r old, (self.rmaEngine.registerMemoryRegion vaddr sizeBytes (self.gpuOpt gpuDeviceId)).1 = .ok r →
      self.registeredBlocks.lookup blockId = some old →
        old.rkey = r.rkey ∨ self.HeldApart blockId old.rkey
  | .unregisterKvBlock blockId =>
    ∀ r, self.registeredBlocks.lookup blockId = some r → ¬ self.HeldApart blockId r.rkey
  | .deregisterMemoryRegion _ rkey =>
    ∀ b r, self.registeredBlocks.lookup b = some r → r.rkey = rkey → ¬ self.HeldApart b rkey
  | .close rank =>
    ∀ before rkey after, (self.drained rank).map (·.rkey) = before ++ rkey :: after →
      rkey ∈ before → after ⊆ before

/-- The connector between two calls. -/
structure RegionsInv (c : VirthubVllmConnector) : Prop where
  coherent : c.rmaEngine.Coherent
  regions : c.RegionsMatch

theorem RegionsInv.live_iff {self : VirthubVllmConnector} (h : self.RegionsInv) (k : UInt32) :
    self.rmaEngine.Live k ↔ self.Held k := regionsMatch_iff.mp h.regions k

/-- A block that gets a region, in an engine where its key is live. -/
theorem RegionsInv.insert_iff {self c : VirthubVllmConnector} (h : self.RegionsInv) {blockId : UInt64}
    {region : RegisteredRegion}
    (hblocks : c.registeredBlocks = self.registeredBlocks.insert blockId region)
    (hlive : ∀ k, c.rmaEngine.Live k ↔ k = region.rkey ∨ self.rmaEngine.Live k) :
    c.RegionsMatch ↔ ∀ old, self.registeredBlocks.lookup blockId = some old →
      old.rkey = region.rkey ∨ self.HeldApart blockId old.rkey := by
  rw [regionsMatch_iff]
  constructor
  · intro hmatch old hold
    rw [← held_insert hblocks, ← hmatch, hlive, h.live_iff, held_iff hold]
    exact .inr (.inl rfl)
  · intro hold k
    rw [held_insert hblocks, hlive, h.live_iff]
    cases hl : self.registeredBlocks.lookup blockId with
    | none => rw [held_iff_of_none hl]
    | some old =>
      rw [held_iff hl]
      have hkept := hold old hl
      constructor
      · intro hk
        rcases hk with hk | rfl | hk
        · exact .inl hk
        · exact hkept
        · exact .inr hk
      · intro hk
        rcases hk with hk | hk
        · exact .inl hk
        · exact .inr (.inr hk)

/-- A block that leaves with its region. -/
theorem RegionsInv.erase_iff {self c : VirthubVllmConnector} (h : self.RegionsInv) {blockId : UInt64}
    {region : RegisteredRegion} (hl : self.registeredBlocks.lookup blockId = some region)
    (hblocks : c.registeredBlocks = self.registeredBlocks.erase blockId)
    (hlive : ∀ k, c.rmaEngine.Live k ↔ self.rmaEngine.Live k ∧ k ≠ region.rkey) :
    c.RegionsMatch ↔ ¬ self.HeldApart blockId region.rkey := by
  rw [regionsMatch_iff]
  constructor
  · intro hmatch hk
    rw [← held_erase hblocks, ← hmatch, hlive] at hk
    exact hk.2 rfl
  · intro hdead k
    rw [held_erase hblocks, hlive, h.live_iff, held_iff hl]
    constructor
    · intro ⟨hk, hne⟩
      exact hk.resolve_left hne
    · intro hk
      refine ⟨.inr hk, ?_⟩
      intro heq
      rw [heq] at hk
      exact hdead hk

theorem RegionsInv.registerKvBlock {self : VirthubVllmConnector} (h : self.RegionsInv)
    (blockId vaddr sizeBytes : UInt64) (gpuDeviceId : UInt32)
    (precisionPolicy : Option PackedBlockPolicy) (sidecar : Option PspKvSidecarDescriptor) :
    let result := self.registerKvBlockWithPolicy blockId vaddr sizeBytes gpuDeviceId precisionPolicy sidecar
    result.2.RegionsMatch ↔ self.KeepsRegions
      (.registerKvBlock blockId vaddr sizeBytes gpuDeviceId precisionPolicy sidecar) := by
  obtain ⟨-, herror, hok⟩ :=
    RmaTransportEngine.registerMemoryRegion_spec h.coherent vaddr sizeBytes (self.gpuOpt gpuDeviceId)
  rcases self.register_cases blockId vaddr sizeBytes gpuDeviceId precisionPolicy sidecar with
    ⟨e, he, hresult⟩ | ⟨region, hr, hresult⟩
  · -- a failed registration changes no region and no block
    rw [hresult]
    refine iff_of_true ?_ ?_
    · rw [regionsMatch_iff]
      intro k
      exact (herror e he k).trans (h.live_iff k)
    · intro r old hr
      rw [he] at hr
      cases hr
  · rw [hresult]
    refine (h.insert_iff rfl (hok region hr)).trans ?_
    constructor
    · intro hkept r old hr' hold
      obtain rfl : region = r := Except.ok.inj (hr.symm.trans hr')
      exact hkept old hold
    · intro hkept old hold
      exact hkept region old hr hold

theorem RegionsInv.dropBlock {self : VirthubVllmConnector} (h : self.RegionsInv) {blockId : UInt64}
    {region : RegisteredRegion} (hl : self.registeredBlocks.lookup blockId = some region) :
    (self.dropBlock blockId region).2.RegionsMatch ↔ ¬ self.HeldApart blockId region.rkey := by
  have hlive := (RmaTransportEngine.deregisterMemoryRegion_spec h.coherent region.rkey).2.2
  rcases self.dropBlock_cases blockId region with ⟨e, -, hresult⟩ | ⟨-, hresult⟩
  all_goals
    rw [hresult]
    exact h.erase_iff hl rfl hlive

theorem RegionsInv.unregisterKvBlock {self : VirthubVllmConnector} (h : self.RegionsInv)
    (blockId : UInt64) :
    (self.unregisterKvBlock blockId).2.RegionsMatch ↔
      self.KeepsRegions (.unregisterKvBlock blockId) := by
  unfold VirthubVllmConnector.unregisterKvBlock KeepsRegions
  cases hl : self.registeredBlocks.lookup blockId with
  | none =>
    refine iff_of_true h.regions fun r hr => ?_
    rw [hl] at hr
    cases hr
  | some region =>
    refine (h.dropBlock hl).trans ?_
    simp only [hl, Option.some.injEq, forall_eq']

theorem RegionsInv.deregisterMemoryRegion {self : VirthubVllmConnector} (h : self.RegionsInv)
    (rank : UInt64 → ℕ) (rkey : UInt32) :
    (self.deregisterMemoryRegion rank rkey).2.RegionsMatch ↔
      self.KeepsRegions (.deregisterMemoryRegion rank rkey) := by
  unfold VirthubVllmConnector.deregisterMemoryRegion
  cases hf : self.blockWithRkey rank rkey with
  | none => exact iff_of_true h.regions fun b r hb hk => absurd hk (blockWithRkey_none hf hb)
  | some entry =>
    obtain ⟨hl, rfl⟩ := blockWithRkey_some hf
    refine (h.dropBlock hl).trans ⟨fun hdead b r hb hk => ?_, fun hkeeps => hkeeps _ _ hl rfl⟩
    -- the block that is found is the only one with the key
    have hid : b = entry.1 := by
      by_contra hne
      exact hdead ⟨b, r, hne, hb, hk⟩
    rw [hid]
    exact hdead

theorem mem_drained_rkeys (self : VirthubVllmConnector) (rank : UInt64 → ℕ) (k : UInt32) :
    k ∈ (self.drained rank).map (·.rkey) ↔ self.Held k := by
  unfold drained Held
  rw [List.map_map, List.mem_map]
  constructor
  · intro ⟨⟨b, r⟩, hmem, hk⟩
    exact ⟨b, r, mem_visit.mp hmem, hk⟩
  · intro ⟨b, r, hb, hk⟩
    exact ⟨⟨b, r⟩, mem_visit.mpr hb, hk⟩

theorem not_held_of_empty {self : VirthubVllmConnector} (h : self.registeredBlocks = ∅) (k : UInt32) :
    ¬ self.Held k := by
  intro ⟨b, r, hb, _⟩
  rw [h, AList.lookup_empty] at hb
  cases hb

theorem RegionsInv.close {self : VirthubVllmConnector} (h : self.RegionsInv) (rank : UInt64 → ℕ) :
    (self.close rank).2.RegionsMatch ↔ self.KeepsRegions (.close rank) := by
  have hlive : self.rmaEngine.Live = (· ∈ (self.drained rank).map (·.rkey)) := by
    funext k
    rw [h.live_iff, mem_drained_rkeys]
  have hempty : ∀ c : VirthubVllmConnector, c.registeredBlocks = ∅ →
      (c.RegionsMatch ↔ ∀ k, ¬ c.rmaEngine.Live k) := by
    intro c hc
    rw [regionsMatch_iff]
    exact forall_congr' fun k => iff_false_right (not_held_of_empty hc k)
  have hiff : (∀ k, ¬ (deregisterAll self.rmaEngine (self.drained rank)).2.Live k) ↔
      self.KeepsRegions (.close rank) := by
    rw [deregisterAll_empties_iff h.coherent, hlive]
    exact forall_reached_iff
  rcases self.close_cases rank with ⟨e, -, hresult⟩ | ⟨-, hresult⟩
  all_goals
    rw [hresult]
    exact (hempty _ rfl).trans hiff

theorem RegionsInv.step {self : VirthubVllmConnector} (h : self.RegionsInv) (call : VllmCall) :
    (self.step call).2.RegionsMatch ↔ self.KeepsRegions call := by
  cases call with
  | registerKvBlock blockId vaddr sizeBytes gpuDeviceId precisionPolicy sidecar =>
    exact h.registerKvBlock blockId vaddr sizeBytes gpuDeviceId precisionPolicy sidecar
  | unregisterKvBlock blockId => exact h.unregisterKvBlock blockId
  | deregisterMemoryRegion rank rkey => exact h.deregisterMemoryRegion rank rkey
  | close rank => exact h.close rank

/-- The live regions of the engine are those of the registered blocks throughout a run exactly if every call
of it keeps them. -/
theorem regionsMatch_run_iff (enableGdr : Bool) (calls : List VllmCall) :
    (∀ as, as <+: calls → (exec step (new enableGdr) as).RegionsMatch) ↔
      Along (fun _ => KeepsRegions) step (new enableGdr) calls := by
  apply forall_prefix_iff_along (I := RegionsInv)
  · refine ⟨RmaTransportEngine.coherent_autoDetect, regionsMatch_iff.mpr fun k => ?_⟩
    exact iff_of_false (AList.notMem_empty k) (not_held_of_empty rfl k)
  · exact fun _ h => h.regions
  · exact fun c call h hkeeps => ⟨coherent_step h.coherent call, (h.step call).mpr hkeeps⟩
  · exact fun c call h hmatch => (h.step call).mp hmatch

/-- Two blocks in one buffer: with the first the region of both is gone. -/
theorem regionsMatch_fails_on_shared_buffer :
    ¬ ∀ (enableGdr : Bool) (calls : List VllmCall), (exec step (new enableGdr) calls).RegionsMatch := by
  intro h
  have hmatch := h true [.registerKvBlock 1 0x1000 4096 0 none none,
    .registerKvBlock 2 0x1000 4096 0 none none, .unregisterKvBlock 1]
  have hlive := (regionsMatch_iff.mp hmatch 1).mpr ⟨2, ⟨1, 1, 0x1000, 4096, some 0⟩, rfl, rfl⟩
  exact absurd hlive (by decide)

end VirthubVllmConnector

end Virthub.Connectors
