import Virthub.Connectors.VllmRegions

/-! The policy and the sidecar of a block against its last registration. A registration without metadata
leaves that of the block it replaces, and a block whose region cannot be deregistered leaves its own
behind. -/
namespace Virthub.Connectors
open Virthub.Klnk.Rma Virthub.Lib Virthub.Precision

def givenMetadata (blockId : UInt64) (e : Event VirthubVllmConnector VllmCall VllmAnswer) :
    Option (Option PackedBlockPolicy × Option PspKvSidecarDescriptor) :=
  match e.call, e.answer with
  | .registerKvBlock b _ _ _ precisionPolicy sidecar, .registered (.ok _) =>
    if b = blockId then some (precisionPolicy, sidecar) else none
  | _, _ => none

def lastMetadata (blockId : UInt64) (h : List (Event VirthubVllmConnector VllmCall VllmAnswer)) :
    Option (Option PackedBlockPolicy × Option PspKvSidecarDescriptor) :=
  h.foldl (fun last e => (givenMetadata blockId e).or last) none

theorem lastMetadata_concat (blockId : UInt64)
    (h : List (Event VirthubVllmConnector VllmCall VllmAnswer))
    (e : Event VirthubVllmConnector VllmCall VllmAnswer) :
    lastMetadata blockId (h ++ [e]) = (givenMetadata blockId e).or (lastMetadata blockId h) := by
  simp [lastMetadata]

namespace VirthubVllmConnector

def NoMetadata (self : VirthubVllmConnector) (blockId : UInt64) : Prop :=
  self.getBlockPolicy blockId = none ∧ self.getBlockSidecar blockId = none

def MatchesLast (self : VirthubVllmConnector) (blockId : UInt64)
    (last : Option (Option PackedBlockPolicy × Option PspKvSidecarDescriptor)) : Prop :=
  match self.registeredBlocks.lookup blockId with
  | some _ => last = some (self.getBlockPolicy blockId, self.getBlockSidecar blockId)
  | none => self.NoMetadata blockId

/-- The metadata of every registered block is that of its last registration, and other blocks have none. -/
def MetadataMatches (h : List (Event VirthubVllmConnector VllmCall VllmAnswer))
    (self : VirthubVllmConnector) : Prop :=
  ∀ blockId, self.MatchesLast blockId (lastMetadata blockId h)

/-- The call leaves no stale metadata: a registration gives what the block has, a block that is dropped has
a live region or no metadata, and so have all blocks when the connector closes. -/
def KeepsMetadata (self : VirthubVllmConnector) : VllmCall → Prop
  | .registerKvBlock blockId vaddr sizeBytes gpuDeviceId precisionPolicy sidecar =>
    ∀ r, (self.rmaEngine.registerMemoryRegion vaddr sizeBytes (self.gpuOpt gpuDeviceId)).1 = .ok r →
      (precisionPolicy = none → self.getBlockPolicy blockId = none) ∧
        (sidecar = none → self.getBlockSidecar blockId = none)
  | .unregisterKvBlock blockId =>
    ∀ r, self.registeredBlocks.lookup blockId = some r →
      self.rmaEngine.Live r.rkey ∨ self.NoMetadata blockId
  | .deregisterMemoryRegion rank rkey =>
    ∀ entry, self.blockWithRkey rank rkey = some entry →
      self.rmaEngine.Live rkey ∨ self.NoMetadata entry.1
  | .close _ =>
    (∀ b r, self.registeredBlocks.lookup b = some r →
      self.rmaEngine.Live r.rkey ∧ ¬ self.HeldApart b r.rkey) ∨ ∀ b, self.NoMetadata b

theorem matchesLast_congr {self c : VirthubVllmConnector} {blockId : UInt64}
    (hblocks : c.registeredBlocks.lookup blockId = self.registeredBlocks.lookup blockId)
    (hpolicy : c.getBlockPolicy blockId = self.getBlockPolicy blockId)
    (hsidecar : c.getBlockSidecar blockId = self.getBlockSidecar blockId)
    (last : Option (Option PackedBlockPolicy × Option PspKvSidecarDescriptor)) :
    c.MatchesLast blockId last ↔ self.MatchesLast blockId last := by
  unfold MatchesLast NoMetadata
  rw [hblocks, hpolicy, hsidecar]

theorem forall_matchesLast_iff {self c : VirthubVllmConnector} (blockId : UInt64)
    {last last' : UInt64 → Option (Option PackedBlockPolicy × Option PspKvSidecarDescriptor)}
    (h : ∀ b, self.MatchesLast b (last b)) (hlast : ∀ b, b ≠ blockId → last' b = last b)
    (hblocks : ∀ b, b ≠ blockId → c.registeredBlocks.lookup b = self.registeredBlocks.lookup b)
    (hpolicy : ∀ b, b ≠ blockId → c.getBlockPolicy b = self.getBlockPolicy b)
    (hsidecar : ∀ b, b ≠ blockId → c.getBlockSidecar b = self.getBlockSidecar b) :
    (∀ b, c.MatchesLast b (last' b)) ↔ c.MatchesLast blockId (last' blockId) := by
  constructor
  · exact fun hall => hall blockId
  · intro hid b
    by_cases hb : b = blockId
    · rw [hb]
      exact hid
    · rw [hlast b hb, matchesLast_congr (hblocks b hb) (hpolicy b hb) (hsidecar b hb)]
      exact h b

theorem eq_or_left_iff {β : Type*} (a b : Option β) : a = a.or b ↔ (a = none → b = none) := by
  cases a with
  | none =>
    rw [Option.none_or]
    exact ⟨fun h _ => h.symm, fun h => (h rfl).symm⟩
  | some a => exact iff_of_true rfl fun h => by cases h

/-- A call that registers nothing and leaves the maps of a block leaves it in step. -/
theorem MetadataMatches.of_silent {self c : VirthubVllmConnector}
    {h : List (Event VirthubVllmConnector VllmCall VllmAnswer)} (hm : MetadataMatches h self)
    {e : Event VirthubVllmConnector VllmCall VllmAnswer} (he : ∀ b, givenMetadata b e = none)
    (hblocks : c.registeredBlocks = self.registeredBlocks) (hpolicy : c.blockPolicies = self.blockPolicies)
    (hsidecar : c.blockSidecars = self.blockSidecars) : MetadataMatches (h ++ [e]) c := by
  intro b
  have hlast : lastMetadata b (h ++ [e]) = lastMetadata b h := by
    rw [lastMetadata_concat, he, Option.none_or]
  have hpolicy' : c.getBlockPolicy b = self.getBlockPolicy b := by
    rw [getBlockPolicy, hpolicy, getBlockPolicy]
  have hsidecar' : c.getBlockSidecar b = self.getBlockSidecar b := by
    rw [getBlockSidecar, hsidecar, getBlockSidecar]
  rw [hlast, matchesLast_congr (by rw [hblocks]) hpolicy' hsidecar']
  exact hm b

theorem MetadataMatches.registerKvBlock_iff {self : VirthubVllmConnector}
    {h : List (Event VirthubVllmConnector VllmCall VllmAnswer)} (hm : MetadataMatches h self)
    (blockId vaddr sizeBytes : UInt64) (gpuDeviceId : UInt32)
    (precisionPolicy : Option PackedBlockPolicy) (sidecar : Option PspKvSidecarDescriptor) :
    let call := VllmCall.registerKvBlock blockId vaddr sizeBytes gpuDeviceId precisionPolicy sidecar
    MetadataMatches (h ++ [event step self call]) (self.step call).2 ↔ self.KeepsMetadata call := by
  intro call
  rcases self.register_cases blockId vaddr sizeBytes gpuDeviceId precisionPolicy sidecar with
    ⟨e, he, hresult⟩ | ⟨region, hr, hresult⟩
  · have hstep : self.step call = (VllmAnswer.registered (.error (.rmaEngineFailed e)), { self with
        rmaEngine :=
          (self.rmaEngine.registerMemoryRegion vaddr sizeBytes (self.gpuOpt gpuDeviceId)).2 }) := by
      simp only [call, step, hresult]
      rfl
    rw [event_eq hstep, hstep]
    refine iff_of_true (hm.of_silent (fun _ => rfl) rfl rfl rfl) fun r hr => ?_
    rw [he] at hr
    cases hr
  · have hstep : self.step call = (VllmAnswer.registered (.ok ⟨blockId, region.vaddr, region.length,
          gpuDeviceId, region.rkey, region.lkey, precisionPolicy, sidecar⟩), { self with
        rmaEngine := (self.rmaEngine.registerMemoryRegion vaddr sizeBytes (self.gpuOpt gpuDeviceId)).2
        registeredBlocks := self.registeredBlocks.insert blockId region
        blockPolicies := attach self.blockPolicies blockId precisionPolicy
        blockSidecars := attach self.blockSidecars blockId sidecar }) := by
      simp only [call, step, hresult]
      rfl
    rw [event_eq hstep, hstep]
    have hgiven : ∀ b a s, givenMetadata b ⟨self, call, .registered (.ok a), s⟩ =
        if blockId = b then some (precisionPolicy, sidecar) else none := fun _ _ _ => rfl
    unfold MetadataMatches
    rw [forall_matchesLast_iff blockId hm]
    · -- the block has what is given, or else what it had
      have hpolicy := lookup_attach self.blockPolicies blockId precisionPolicy
      have hsidecar := lookup_attach self.blockSidecars blockId sidecar
      unfold MatchesLast getBlockPolicy getBlockSidecar
      rw [lastMetadata_concat, hgiven, if_pos rfl, Option.some_or, AList.lookup_insert, hpolicy, hsidecar]
      simp only [Option.some.injEq, Prod.mk.injEq, eq_or_left_iff]
      constructor
      · exact fun hkept _ _ => hkept
      · exact fun hkeeps => hkeeps region hr
    · intro b hb
      rw [lastMetadata_concat, hgiven, if_neg (Ne.symm hb), Option.none_or]
    · exact fun b hb => AList.lookup_insert_ne hb
    · exact fun b hb => lookup_attach_ne self.blockPolicies hb precisionPolicy
    · exact fun b hb => lookup_attach_ne self.blockSidecars hb sidecar

theorem MetadataMatches.dropBlock_iff {self : VirthubVllmConnector}
    {h : List (Event VirthubVllmConnector VllmCall VllmAnswer)} (hm : MetadataMatches h self)
    (hcoherent : self.rmaEngine.Coherent) {e : Event VirthubVllmConnector VllmCall VllmAnswer}
    (he : ∀ b, givenMetadata b e = none) (blockId : UInt64) (region : RegisteredRegion) :
    MetadataMatches (h ++ [e]) (self.dropBlock blockId region).2 ↔
      self.rmaEngine.Live region.rkey ∨ self.NoMetadata blockId := by
  have hok := (RmaTransportEngine.deregisterMemoryRegion_spec hcoherent region.rkey).2.1
  have hlast : ∀ b, lastMetadata b (h ++ [e]) = lastMetadata b h := by
    intro b
    rw [lastMetadata_concat, he, Option.none_or]
  unfold MetadataMatches
  simp only [hlast]
  rcases self.dropBlock_cases blockId region with ⟨err, herr, hresult⟩ | ⟨hdone, hresult⟩
  · have hdead : ¬ self.rmaEngine.Live region.rkey := by
      rw [← hok, herr]
      simp
    rw [hresult, or_iff_right hdead]
    rw [forall_matchesLast_iff blockId hm (fun _ _ => rfl)]
    · unfold MatchesLast
      rw [AList.lookup_erase]
      rfl
    · exact fun b hb => AList.lookup_erase_ne hb
    · exact fun _ _ => rfl
    · exact fun _ _ => rfl
  · rw [hresult]
    rw [forall_matchesLast_iff blockId hm (fun _ _ => rfl)]
    · unfold MatchesLast
      rw [AList.lookup_erase]
      exact iff_of_true ⟨AList.lookup_erase _ _, AList.lookup_erase _ _⟩ (.inl (hok.mp hdone))
    · exact fun b hb => AList.lookup_erase_ne hb
    · exact fun b hb => AList.lookup_erase_ne hb
    · exact fun b hb => AList.lookup_erase_ne hb

theorem drained_ok_iff {self : VirthubVllmConnector} (h : self.rmaEngine.Coherent) (rank : UInt64 → ℕ) :
    (deregisterAll self.rmaEngine (self.drained rank)).1 = .ok () ↔
      ∀ b r, self.registeredBlocks.lookup b = some r →
        self.rmaEngine.Live r.rkey ∧ ¬ self.HeldApart b r.rkey := by
  have hnodup : (visit rank self.registeredBlocks).Nodup :=
    (nodup_keys_visit rank self.registeredBlocks).of_map _
  rw [deregisterAll_ok_iff h, drained, List.map_map, List.nodup_map_iff_inj_on hnodup]
  constructor
  · intro ⟨hinj, hlive⟩ b r hb
    have hmem : ⟨b, r⟩ ∈ visit rank self.registeredBlocks := mem_visit.mpr hb
    refine ⟨hlive r (List.mem_map.mpr ⟨_, hmem, rfl⟩), ?_⟩
    intro ⟨b', r', hne, hb', hkey⟩
    have heq := hinj ⟨b', r'⟩ (mem_visit.mpr hb') ⟨b, r⟩ hmem hkey
    exact hne (congrArg Sigma.fst heq)
  · intro hapart
    constructor
    · rintro ⟨b, r⟩ hmem ⟨b', r'⟩ hmem' hkey
      have hb := mem_visit.mp hmem
      have hb' := mem_visit.mp hmem'
      have hid : b' = b := by
        by_contra hne
        exact (hapart b r hb).2 ⟨b', r', hne, hb', hkey.symm⟩
      subst hid
      rw [Option.some.inj (hb.symm.trans hb')]
    · intro r hr
      obtain ⟨⟨b, r'⟩, hmem, rfl⟩ := List.mem_map.mp hr
      exact (hapart b r' (mem_visit.mp hmem)).1

theorem MetadataMatches.close_iff {self : VirthubVllmConnector}
    {h : List (Event VirthubVllmConnector VllmCall VllmAnswer)} (hcoherent : self.rmaEngine.Coherent)
    (rank : UInt64 → ℕ) :
    MetadataMatches h (self.close rank).2 ↔ self.KeepsMetadata (.close rank) := by
  have hok := drained_ok_iff hcoherent rank
  -- no block is left, so that no metadata may be left
  rcases self.close_cases rank with ⟨e, he, hresult⟩ | ⟨hdone, hresult⟩
  · rw [he] at hok
    rw [hresult]
    exact (or_iff_right (hok.not.mp (by simp))).symm
  · rw [hresult]
    exact iff_of_true (fun _ => ⟨AList.lookup_empty _, AList.lookup_empty _⟩) (.inl (hok.mp hdone))

/-- One call keeps the metadata in step exactly if it leaves nothing stale. -/
theorem MetadataMatches.step_iff {self : VirthubVllmConnector}
    {h : List (Event VirthubVllmConnector VllmCall VllmAnswer)} (hm : MetadataMatches h self)
    (hcoherent : self.rmaEngine.Coherent) (call : VllmCall) :
    MetadataMatches (h ++ [event step self call]) (self.step call).2 ↔ self.KeepsMetadata call := by
  cases call with
  | registerKvBlock blockId vaddr sizeBytes gpuDeviceId precisionPolicy sidecar =>
    exact hm.registerKvBlock_iff blockId vaddr sizeBytes gpuDeviceId precisionPolicy sidecar
  | unregisterKvBlock blockId =>
    simp only [step, unregisterKvBlock, KeepsMetadata]
    cases hl : self.registeredBlocks.lookup blockId with
    | none => exact iff_of_true (hm.of_silent (fun _ => rfl) rfl rfl rfl) fun r hr => by cases hr
    | some region =>
      refine (hm.dropBlock_iff hcoherent (fun _ => rfl) blockId region).trans ?_
      simp only [Option.some.injEq, forall_eq']
  | deregisterMemoryRegion rank rkey =>
    simp only [step, deregisterMemoryRegion, KeepsMetadata]
    cases hf : self.blockWithRkey rank rkey with
    | none => exact iff_of_true (hm.of_silent (fun _ => rfl) rfl rfl rfl) fun r hr => by cases hr
    | some entry =>
      refine (hm.dropBlock_iff hcoherent (fun _ => rfl) entry.1 entry.2).trans ?_
      simp only [Option.some.injEq, forall_eq', (blockWithRkey_some hf).2]
  | close rank => exact MetadataMatches.close_iff hcoherent rank

/-- The metadata of every block is that of its last registration throughout a run exactly if every call of it
leaves nothing stale. -/
theorem metadataMatches_run_iff (enableGdr : Bool) (calls : List VllmCall) :
    (∀ as, as <+: calls →
      MetadataMatches (trace step (new enableGdr) as) (exec step (new enableGdr) as)) ↔
      Along (fun _ => KeepsMetadata) step (new enableGdr) calls := by
  refine forall_prefix_iff_along_history (I := fun h c => MetadataMatches h c ∧ c.rmaEngine.Coherent)
    (P := MetadataMatches) ?_ ?_ ?_ ?_ calls (along_true _ _ _)
  · exact ⟨fun _ => ⟨rfl, rfl⟩, RmaTransportEngine.coherent_autoDetect⟩
  · exact fun _ _ hinv => hinv.1
  · exact fun h c call ⟨hm, hcoherent⟩ _ hkeeps =>
      ⟨(hm.step_iff hcoherent call).mpr hkeeps, coherent_step hcoherent call⟩
  · exact fun h c call ⟨hm, hcoherent⟩ _ hmatches => (hm.step_iff hcoherent call).mp hmatches

/-- Block 1 with a policy, then again without one: the policy stays. -/
theorem metadataMatches_fails_on_registration_without_policy :
    ¬ ∀ (enableGdr : Bool) (calls : List VllmCall),
      MetadataMatches (trace step (new enableGdr) calls) (exec step (new enableGdr) calls) := by
  intro h
  have hmatch := h true [.registerKvBlock 1 0x1000 4096 0 (some (.new .fp8 false 1)) none,
    .registerKvBlock 1 0x1000 4096 0 none none] 1
  exact absurd (Option.some.inj hmatch) (by decide)

end VirthubVllmConnector

end Virthub.Connectors
