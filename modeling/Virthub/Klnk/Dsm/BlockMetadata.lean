import Virthub.Klnk.Dsm.Backend
import Virthub.Lib.Map

/-! The metadata that a fetch of a local block returns. It is kept for the block's address and not for the
block, so that blocks at one address share it, and a block without a page entry has none. -/
namespace Virthub.Klnk.Dsm
open Virthub.Lib

abbrev DsmEvent := Event KlnkDsmBackend DsmCall (Option DsmAnswer)

def Returned (e : DsmEvent) : Bool :=
  match e.answer with
  | some (.done (.ok ())) => true
  | _ => false

/-- The metadata of each block by the last call for it that has returned `Ok`. -/
def recordMetadata (blocks : RegionId → Option BlockMetadata) (e : DsmEvent) :
    RegionId → Option BlockMetadata :=
  match e.call with
  | .registerBlock r _ _ m | .updateMetadata r m =>
    if Returned e then Function.update blocks r (some m) else blocks
  | _ => blocks

def recorded (h : List DsmEvent) : RegionId → Option BlockMetadata :=
  h.foldl recordMetadata fun _ => none

theorem recorded_concat (h : List DsmEvent) (e : DsmEvent) :
    recorded (h ++ [e]) = recordMetadata (recorded h) e := by
  simp [recorded]

namespace KlnkDsmBackend

/-- A fetch of a local block that returns `Ok` carries the metadata of the last call for the block. -/
def MetadataSound (h : List DsmEvent) (s : KlnkDsmBackend) : Prop :=
  ∀ r, (s.localBlocks.lookup r).isSome = true → ∀ peer dst size b,
    (s.fetchBlock r peer dst size).1 = .ok b → recorded h r = some b.metadata

/-- The address of each block has the metadata of the block. -/
theorem metadataSound_iff {h : List DsmEvent} {s : KlnkDsmBackend} : s.MetadataSound h ↔
    ∀ r v size, s.localBlocks.lookup r = some (v, size) → recorded h r = some (s.metadataAt v) := by
  constructor
  · intro hsound r v size hlocal
    refine hsound r (by rw [hlocal]; rfl) ⟨[], 0⟩ 0 size ⟨readMemory s.memory v size, s.metadataAt v⟩ ?_
    rw [fetchBlock_local hlocal, if_pos rfl]
  · intro hheld r hsome peer dst size b hfetch
    obtain ⟨⟨v, srcSize⟩, hlocal⟩ := Option.isSome_iff_exists.mp hsome
    rw [fetchBlock_local hlocal] at hfetch
    split_ifs at hfetch
    cases hfetch
    exact hheld r v srcSize hlocal

/-- Metadata `m` for a block `r` at `v` reaches no other block if the entry at `v` is written, and is there
already if it is not. -/
def Undisturbed (h : List DsmEvent) (s : KlnkDsmBackend) (r : RegionId) (v : UInt64) (m : BlockMetadata)
    (writes : Prop) : Prop :=
  (writes → ∀ r' size, r' ≠ r → s.localBlocks.lookup r' = some (v, size) → recorded h r' = some m) ∧
    (¬ writes → s.metadataAt v = m)

/-- A registration that is carried out writes an entry unless the block is empty or reaches the top of the
address space. An update writes the entry at the block's address, if there is one. -/
def KeepsMetadata (h : List DsmEvent) (s : KlnkDsmBackend) : DsmCall → Prop
  | .registerBlock r v size m => s.controlPlane.regions.lookup (regionIdToGlobal r) = none →
      ReachesTop (blockDescriptor r v size) ∨ Fits (blockDescriptor r v size) →
        Undisturbed h s r v m (0 < size ∧ v.toNat + size.toNat < 2 ^ 64)
  | .updateMetadata r m => ∀ v size, s.localBlocks.lookup r = some (v, size) →
      Undisturbed h s r v m ((s.controlPlane.lookupPageState v).isSome = true)
  | _ => True

section Units

variable {r : RegionId} {v size : UInt64}

theorem toNat_pageSize_blockDescriptor : (blockDescriptor r v size).pageSize.toNat = max size.toNat 4096 := by
  have hmax : ∀ x y : UInt64, (max x y).toNat = max x.toNat y.toNat := by
    intro x y
    change (if x ≤ y then y else x).toNat = _
    split_ifs with hle <;> rw [UInt64.le_iff_toNat_le] at hle <;> omega
  have hpage : (4096 : UInt64).toNat = 4096 := rfl
  rw [MemoryRegionDescriptor.pageSize, hmax, blockDescriptor, hmax, hpage]
  omega

theorem isUnit_blockDescriptor {a : UInt64} : IsUnit (blockDescriptor r v size) a ↔ a = v ∧ 0 < size := by
  unfold IsUnit
  rw [toNat_pageSize_blockDescriptor, UInt64.lt_iff_toNat_lt]
  change (∃ k : ℕ, a.toNat = v.toNat + k * max size.toNat 4096 ∧
    v.toNat + k * max size.toNat 4096 < v.toNat + size.toNat) ↔ a = v ∧ 0 < size.toNat
  constructor
  · rintro ⟨k, ha, hk⟩
    obtain rfl : k = 0 := by
      by_contra hk0
      have hle : 1 * max size.toNat 4096 ≤ k * max size.toNat 4096 := Nat.mul_le_mul_right _ (by omega)
      omega
    exact ⟨UInt64.toNat_inj.mp (by omega), by omega⟩
  · rintro ⟨rfl, hsize⟩
    exact ⟨0, by omega, by omega⟩

theorem visitedUnits_blockDescriptor (hends : ReachesTop (blockDescriptor r v size) ∨
    Fits (blockDescriptor r v size)) : ∃ units, visitedUnits (blockDescriptor r v size) = some units ∧
      ∀ a, a ∈ units ↔ a = v ∧ 0 < size ∧ v.toNat + size.toNat < 2 ^ 64 := by
  obtain ⟨units, hu⟩ := exists_visitedUnits hends
  refine ⟨units, hu, fun a => ?_⟩
  have htop : ¬ ReachesTop (blockDescriptor r v size) ↔ v.toNat + size.toNat < 2 ^ 64 := Nat.not_le
  rw [mem_visitedUnits hends hu, isUnit_blockDescriptor, htop]
  tauto

/-- The loop over a block that neither reaches the top nor fits below it is never done. -/
theorem visitedUnits_blockDescriptor_none (hends : ¬ (ReachesTop (blockDescriptor r v size) ∨
    Fits (blockDescriptor r v size))) : visitedUnits (blockDescriptor r v size) = none := by
  obtain ⟨htop, hfits⟩ := not_or.mp hends
  refine visitedUnits_of_not_fits ?_ htop hfits
  have hsmall : size.toNat < 4096 := by
    by_contra hlarge
    have hpage : (blockDescriptor r v size).pageSize.toNat = size.toNat := by
      rw [toNat_pageSize_blockDescriptor]
      omega
    -- a block of a page or more is its own unit
    have hone : unitCount (blockDescriptor r v size) = 1 := by
      rw [unitCount, hpage]
      change (size.toNat + size.toNat - 1) / size.toNat = 1
      rw [Nat.div_eq_iff (by omega)]
      omega
    apply hfits
    rw [Fits, hone, hpage]
    have hlt : v.toNat + size.toNat < 2 ^ 64 := Nat.not_le.mp htop
    change v.toNat + 1 * size.toNat < 2 ^ 64
    omega
  rw [toNat_pageSize_blockDescriptor, max_eq_right (by omega)]
  decide

end Units

/-- What a call has done that has given the block `r` at `v` the metadata `m`. -/
structure Stores (r : RegionId) (v : UInt64) (m : BlockMetadata) (writes : Prop)
    (s t : KlnkDsmBackend) : Prop where
  own : ∃ size, t.localBlocks.lookup r = some (v, size)
  others : ∀ r', r' ≠ r → t.localBlocks.lookup r' = s.localBlocks.lookup r'
  written : writes → ∀ a, t.metadataAt a = if a = v then m else s.metadataAt a
  unwritten : ¬ writes → ∀ a, t.metadataAt a = s.metadataAt a
  taken : (t.controlPlane.regions.lookup (regionIdToGlobal r)).isSome = true
  kept : ∀ g, (s.controlPlane.regions.lookup g).isSome = true →
    (t.controlPlane.regions.lookup g).isSome = true

inductive MetadataStep (h : List DsmEvent) (e : DsmEvent) : Prop where
  | same (hrecorded : recorded (h ++ [e]) = recorded h) (hlocal : e.post.localBlocks = e.pre.localBlocks)
      (hplane : e.post.controlPlane = e.pre.controlPlane) (hkeeps : KeepsMetadata h e.pre e.call)
  | stored (r : RegionId) (v : UInt64) (m : BlockMetadata) (writes : Prop)
      (hrecorded : recorded (h ++ [e]) = Function.update (recorded h) r (some m))
      (hstores : Stores r v m writes e.pre e.post)
      (hkeeps : KeepsMetadata h e.pre e.call ↔ Undisturbed h e.pre r v m writes)

/-- The blocks have what the last calls for them have recorded, and their regions are taken. -/
structure MetadataInv (h : List DsmEvent) (s : KlnkDsmBackend) : Prop where
  sound : s.MetadataSound h
  taken : ∀ r, (s.localBlocks.lookup r).isSome = true →
    (s.controlPlane.regions.lookup (regionIdToGlobal r)).isSome = true

theorem metadataInv_new (controlPlane : ControlPlaneManager) (rmaEngine : Rma.RmaTransportEngine)
    (memory : UInt64 → UInt8) : MetadataInv [] (new controlPlane rmaEngine memory) := by
  constructor
  · intro r hr
    cases hr
  · intro r hr
    cases hr

theorem stores_register {s : KlnkDsmBackend} {r : RegionId} {v size : UInt64} {m : BlockMetadata}
    {units : List UInt64} {pages : AList fun _ : UInt64 => DistributedPageEntry}
    (hmem : ∀ a, a ∈ units ↔ a = v ∧ 0 < size ∧ v.toNat + size.toNat < 2 ^ 64)
    (hmetadata : ∀ a, (pages.lookup a).map (·.metadata) =
      if a ∈ units then some m else s.controlPlane.getPageMetadata a) :
    Stores r v m (0 < size ∧ v.toNat + size.toNat < 2 ^ 64) s { s with
      controlPlane := { s.controlPlane with
        pageStates := pages
        regions := s.controlPlane.regions.insert (regionIdToGlobal r) (blockDescriptor r v size) }
      localBlocks := s.localBlocks.insert r (v, size) } := by
  constructor
  · exact ⟨size, AList.lookup_insert _⟩
  · exact fun r' hr' => AList.lookup_insert_ne hr'
  · intro hwrites a
    dsimp only [metadataAt, ControlPlaneManager.getPageMetadata]
    rw [hmetadata]
    by_cases ha : a = v
    · rw [if_pos ((hmem a).mpr ⟨ha, hwrites⟩), if_pos ha]
      rfl
    · rw [if_neg fun hin => ha ((hmem a).mp hin).1, if_neg ha]
      rfl
  · intro hwrites a
    dsimp only [metadataAt, ControlPlaneManager.getPageMetadata]
    rw [hmetadata, if_neg fun hin => hwrites ((hmem a).mp hin).2]
    rfl
  · dsimp only
    rw [AList.lookup_insert]
    rfl
  · intro g hg
    dsimp only
    by_cases hgr : g = regionIdToGlobal r
    · rw [hgr, AList.lookup_insert]
      rfl
    · rw [AList.lookup_insert_ne hgr]
      exact hg

theorem metadataStep_register (h : List DsmEvent) (s : KlnkDsmBackend) (r : RegionId) (v size : UInt64)
    (m : BlockMetadata) :
    MetadataStep h (event dsmStep s (.registerBlock r v size m)) := by
  have hrec := recorded_concat h (event dsmStep s (.registerBlock r v size m))
  cases hkey : s.controlPlane.regions.lookup (regionIdToGlobal r) with
  | some d =>
    have herr : s.controlPlane.registerRegionWithMetadata (blockDescriptor r v size) m =
        some (.error (.regionAlreadyExists (regionIdToGlobal r)), s.controlPlane) := by
      have hkey' : s.controlPlane.regions.lookup (blockDescriptor r v size).regionId = some d := hkey
      rw [ControlPlaneManager.registerRegionWithMetadata, hkey']
      rfl
    have hstep : dsmStep s (.registerBlock r v size m) = (some (.done (.error (.internal
        (ControlPlaneError.regionAlreadyExists (regionIdToGlobal r)).display))), s) := by
      rw [dsmStep, registerBlock, herr]
    rw [event_eq hstep] at hrec ⊢
    refine .same hrec rfl rfl ?_
    intro hnone
    dsimp only at hnone
    rw [hkey] at hnone
    cases hnone
  | none =>
    by_cases hends : ReachesTop (blockDescriptor r v size) ∨ Fits (blockDescriptor r v size)
    · obtain ⟨units, hu, hmem⟩ := visitedUnits_blockDescriptor hends
      obtain ⟨pages, hreg, hpages⟩ := ControlPlaneManager.register_of_visited hkey hu m
      have hstep : dsmStep s (.registerBlock r v size m) = (some (.done (.ok ())), { s with
          controlPlane := { s.controlPlane with
            pageStates := pages
            regions := s.controlPlane.regions.insert (regionIdToGlobal r) (blockDescriptor r v size) }
          localBlocks := s.localBlocks.insert r (v, size) }) := by
        rw [dsmStep, registerBlock, hreg]
        rfl
      have hmetadata : ∀ a, (pages.lookup a).map (·.metadata) =
          if a ∈ units then some m else s.controlPlane.getPageMetadata a := by
        intro a
        rw [hpages]
        split_ifs <;> rfl
      rw [event_eq hstep] at hrec ⊢
      exact .stored r v m _ hrec (stores_register hmem hmetadata)
        ⟨fun hkeeps => hkeeps hkey hends, fun hund _ _ => hund⟩
    · have hnone := ControlPlaneManager.register_of_endless hkey (visitedUnits_blockDescriptor_none hends) m
      have hstep : dsmStep s (.registerBlock r v size m) = (none, s) := by
        rw [dsmStep, registerBlock, hnone]
      rw [event_eq hstep] at hrec ⊢
      exact .same hrec rfl rfl fun _ h' => absurd h' hends

/-- The state after the metadata of a local block has been set; nothing is written without an entry for its
address. -/
theorem stores_update {h : List DsmEvent} {s : KlnkDsmBackend} (hi : MetadataInv h s) {r : RegionId}
    {v size : UInt64} (hlocal : s.localBlocks.lookup r = some (v, size)) (m : BlockMetadata) :
    Stores r v m ((s.controlPlane.lookupPageState v).isSome = true) s
      { s with controlPlane := (s.controlPlane.setPageMetadata v m).2 } := by
  have hregions : (s.controlPlane.setPageMetadata v m).2.regions = s.controlPlane.regions :=
    ControlPlaneManager.regions_modifyPage _ _ _
  have hlookup := fun a => s.controlPlane.getPageMetadata_setPageMetadata v a m
  constructor
  · exact ⟨size, hlocal⟩
  · exact fun r' _ => rfl
  · intro hentry a
    dsimp only [metadataAt]
    rw [hlookup]
    by_cases ha : a = v
    · obtain ⟨entry, hentry⟩ := Option.isSome_iff_exists.mp hentry
      rw [if_pos ha, if_pos ha, ha, hentry]
      rfl
    · rw [if_neg ha, if_neg ha]
  · intro hentry a
    dsimp only [metadataAt]
    rw [hlookup]
    by_cases ha : a = v
    · have hnone : s.controlPlane.lookupPageState v = none := Option.not_isSome_iff_eq_none.mp hentry
      have hmeta : s.controlPlane.getPageMetadata v = none := by
        change (s.controlPlane.lookupPageState v).map (·.metadata) = none
        rw [hnone]
        rfl
      rw [if_pos ha, ha, hnone, hmeta]
      rfl
    · rw [if_neg ha]
  · dsimp only
    rw [hregions]
    exact hi.taken r (by rw [hlocal]; rfl)
  · dsimp only
    rw [hregions]
    exact fun g hg => hg

theorem metadataStep_update (h : List DsmEvent) (s : KlnkDsmBackend) (hi : MetadataInv h s)
    (r : RegionId) (m : BlockMetadata) : MetadataStep h (event dsmStep s (.updateMetadata r m)) := by
  have hrec := recorded_concat h (event dsmStep s (.updateMetadata r m))
  cases hlocal : s.localBlocks.lookup r with
  | none =>
    have hstep : dsmStep s (.updateMetadata r m) = (some (.done (.error (.regionNotFound r))), s) := by
      simp [dsmStep, updateMetadata, hlocal]
    rw [event_eq hstep] at hrec ⊢
    refine .same hrec rfl rfl ?_
    intro v size hsome
    dsimp only at hsome
    rw [hlocal] at hsome
    cases hsome
  | some block =>
    obtain ⟨v, size⟩ := block
    have hstep : dsmStep s (.updateMetadata r m) = (some (.done (.ok ())), { s with
        controlPlane := (s.controlPlane.setPageMetadata v m).2 }) := by
      simp [dsmStep, updateMetadata, hlocal]
    rw [event_eq hstep] at hrec ⊢
    refine .stored r v m _ hrec (stores_update hi hlocal m) ?_
    constructor
    · exact fun hkeeps => hkeeps v size hlocal
    · intro hund v' size' hlocal'
      cases hlocal.symm.trans hlocal'
      exact hund

theorem metadataStep (h : List DsmEvent) (s : KlnkDsmBackend) (hi : MetadataInv h s) (call : DsmCall) :
    MetadataStep h (event dsmStep s call) := by
  cases call with
  | registerBlock r v size m => exact metadataStep_register h s r v size m
  | updateMetadata r m => exact metadataStep_update h s hi r m
  | fetchBlock r peer dst size =>
    have hfetch : (s.fetchBlock r peer dst size).2.localBlocks = s.localBlocks ∧
        (s.fetchBlock r peer dst size).2.controlPlane = s.controlPlane := by
      unfold fetchBlock
      split
      · split_ifs <;> exact ⟨rfl, rfl⟩
      · split
        · exact ⟨rfl, rfl⟩
        · split_ifs
          · exact ⟨rfl, rfl⟩
          · split <;> exact ⟨rfl, rfl⟩
    exact .same (recorded_concat h _) hfetch.1 hfetch.2 trivial
  | registerRemoteBlockInfo r info => exact .same (recorded_concat h _) rfl rfl trivial

theorem Stores.sound_iff {h : List DsmEvent} {s t : KlnkDsmBackend} {e : DsmEvent} {r : RegionId}
    {v : UInt64} {m : BlockMetadata} {writes : Prop} (hst : Stores r v m writes s t)
    (hs : s.MetadataSound h) (hrecorded : recorded (h ++ [e]) = Function.update (recorded h) r (some m)) :
    t.MetadataSound (h ++ [e]) ↔ Undisturbed h s r v m writes := by
  obtain ⟨size, hown⟩ := hst.own
  rw [metadataSound_iff, hrecorded]
  rw [metadataSound_iff] at hs
  constructor
  · intro hheld
    constructor
    · intro hwrites r' size' hne hlocal
      rw [← hst.others r' hne] at hlocal
      have hrec := hheld r' v size' hlocal
      rw [Function.update_of_ne hne, hst.written hwrites, if_pos rfl] at hrec
      exact hrec
    · intro hwrites
      have hrec := hheld r v size hown
      rw [Function.update_self, hst.unwritten hwrites] at hrec
      exact (Option.some.inj hrec).symm
  · rintro ⟨hshared, hthere⟩ r' v' size' hlocal
    by_cases hr : r' = r
    · rw [hr, hown] at hlocal
      cases hlocal
      rw [hr, Function.update_self]
      by_cases hwrites : writes
      · rw [hst.written hwrites, if_pos rfl]
      · rw [hst.unwritten hwrites, hthere hwrites]
    · rw [hst.others r' hr] at hlocal
      rw [Function.update_of_ne hr]
      by_cases hwrites : writes
      · rw [hst.written hwrites]
        split_ifs with hv
        · rw [hv] at hlocal
          exact hshared hwrites r' size' hr hlocal
        · exact hs r' v' size' hlocal
      · rw [hst.unwritten hwrites]
        exact hs r' v' size' hlocal

theorem MetadataInv.step {h : List DsmEvent} {s : KlnkDsmBackend} (hi : MetadataInv h s) (call : DsmCall)
    (hc : KeepsMetadata h s call) : MetadataInv (h ++ [event dsmStep s call]) (dsmStep s call).2 := by
  cases metadataStep h s hi call with
  | same hrecorded hlocal hplane hkeeps =>
    have hlocal : (dsmStep s call).2.localBlocks = s.localBlocks := hlocal
    have hplane : (dsmStep s call).2.controlPlane = s.controlPlane := hplane
    constructor
    · have hs := metadataSound_iff.mp hi.sound
      rw [metadataSound_iff, hrecorded, hlocal]
      intro r v size hr
      rw [metadataAt, hplane]
      exact hs r v size hr
    · rw [hlocal, hplane]
      exact hi.taken
  | stored r v m writes hrecorded hstores hkeeps =>
    constructor
    · exact (hstores.sound_iff hi.sound hrecorded).mpr (hkeeps.mp hc)
    · intro r' hr'
      by_cases hr : r' = r
      · rw [hr]
        exact hstores.taken
      · have hlocal : (dsmStep s call).2.localBlocks.lookup r' = s.localBlocks.lookup r' :=
          hstores.others r' hr
        rw [hlocal] at hr'
        exact hstores.kept _ (hi.taken r' hr')

theorem MetadataInv.keeps {h : List DsmEvent} {s : KlnkDsmBackend} (hi : MetadataInv h s) (call : DsmCall)
    (hsound : (dsmStep s call).2.MetadataSound (h ++ [event dsmStep s call])) : KeepsMetadata h s call := by
  cases metadataStep h s hi call with
  | same hrecorded hlocal hplane hkeeps => exact hkeeps
  | stored r v m writes hrecorded hstores hkeeps =>
    exact hkeeps.mpr ((hstores.sound_iff hi.sound hrecorded).mp hsound)

/-- The metadata of local blocks is sound throughout a run exactly if every call meets the condition. -/
theorem metadataSound_iff_keepsMetadata (controlPlane : ControlPlaneManager)
    (rmaEngine : Rma.RmaTransportEngine) (memory : UInt64 → UInt8) (calls : List DsmCall) :
    (∀ as, as <+: calls → (exec dsmStep (new controlPlane rmaEngine memory) as).MetadataSound
        (trace dsmStep (new controlPlane rmaEngine memory) as)) ↔
      Along KeepsMetadata dsmStep (new controlPlane rmaEngine memory) calls := by
  refine forall_prefix_iff_along_history (I := MetadataInv) (metadataInv_new controlPlane rmaEngine memory)
    (fun _ _ hi => hi.sound) ?_ ?_ calls (along_true _ _ _)
  · intro h s call hi _ hc
    exact hi.step call hc
  · intro h s call hi _ hsound
    exact hi.keeps call hsound

/-- Two blocks at one address, the second one of which is registered with metadata of its own. -/
theorem second_block_takes_metadata :
    ¬ ∀ (controlPlane : ControlPlaneManager) (rmaEngine : Rma.RmaTransportEngine) (memory : UInt64 → UInt8)
      (calls : List DsmCall), (exec dsmStep (new controlPlane rmaEngine memory) calls).MetadataSound
        (trace dsmStep (new controlPlane rmaEngine memory) calls) := by
  intro h
  have hsound := h (.new ⟨1⟩) .autoDetect (fun _ => 0)
    [.registerBlock 1 0x1000 64 [1], .registerBlock 2 0x1000 64 [2]]
  have hheld := metadataSound_iff.mp hsound 1 0x1000 64 (by decide +kernel)
  revert hheld
  decide +kernel

end KlnkDsmBackend

end Virthub.Klnk.Dsm
