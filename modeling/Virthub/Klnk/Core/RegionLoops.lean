import Virthub.Klnk.Core.Units
import Virthub.Lib.Sweep

/-! What the loops of `register_region_with_metadata` and `deregister_region` make of a descriptor. They do
what they should exactly if the whole units of the region end below `2 ^ 64`. -/
namespace Virthub.Klnk
open Virthub.Lib.Sweep

variable {d : MemoryRegionDescriptor}

theorem visited_eq_sweep (pageSize endAddr : UInt64) (fuel : ℕ) (currAddr : UInt64) :
    visited pageSize endAddr fuel currAddr = sweep pageSize endAddr fuel currAddr := by
  induction fuel generalizing currAddr with
  | zero => rfl
  | succ fuel ih => rw [visited, sweep, ih]

theorem visitedUnits_eq_some_iff {units : List UInt64} :
    visitedUnits d = some units ↔ ∃ m, Leaves d.mainVaddr d.pageSize d.endAddr m ∧
      units = (List.range m).map (cursor d.mainVaddr d.pageSize) := by
  rw [visitedUnits, visited_eq_sweep, sweep_full_eq_some_iff]

theorem toNat_endAddr (hw : ¬ ReachesTop d) :
    d.endAddr.toNat = d.mainVaddr.toNat + d.regionSize.toNat := by
  unfold ReachesTop at hw
  rw [MemoryRegionDescriptor.endAddr, UInt64.toNat_add, Nat.mod_eq_of_lt (by omega)]

theorem Fits.not_reachesTop (hf : Fits d) : ¬ ReachesTop d := by
  have hcount := (not_congr (lt_unitCount_iff d (unitCount d))).mp (lt_irrefl _)
  unfold Fits at hf
  unfold ReachesTop
  omega

/-- If the last unit reaches the top, the loop goes on at an address that belongs to no unit. -/
theorem exists_visited_not_isUnit {units : List UInt64} (hw : ¬ ReachesTop d) (hf : ¬ Fits d)
    (hu : visitedUnits d = some units) : ∃ a ∈ units, ¬ IsUnit d a := by
  obtain ⟨m, hleaves, rfl⟩ := visitedUnits_eq_some_iff.mp hu
  have hend := toNat_endAddr hw
  have hsize := d.pageSize.toNat_lt
  have hmain := d.mainVaddr.toNat_lt
  have hover : 2 ^ 64 ≤ d.mainVaddr.toNat + unitCount d * d.pageSize.toNat := by
    unfold Fits at hf
    omega
  obtain ⟨k, hk⟩ : ∃ k, unitCount d = k + 1 :=
    Nat.exists_eq_add_one_of_ne_zero fun hzero => by rw [hzero] at hover; omega
  have hlast : k * d.pageSize.toNat < d.regionSize.toNat := (lt_unitCount_iff d k).mp (by omega)
  have hmul : unitCount d * d.pageSize.toNat = k * d.pageSize.toNat + d.pageSize.toNat := by
    rw [hk]
    ring
  unfold ReachesTop at hw
  have hwrapped : (cursor d.mainVaddr d.pageSize (unitCount d)).toNat =
      d.mainVaddr.toNat + unitCount d * d.pageSize.toNat - 2 ^ 64 := by
    rw [toNat_cursor]
    omega
  have hround : unitCount d < m := by
    have hlt : k < m := hleaves.lt_of_below (by omega)
    have hne : m ≠ unitCount d := by
      intro heq
      have hleft := UInt64.le_iff_toNat_le.mp hleaves.2
      rw [heq, hwrapped, hend] at hleft
      omega
    omega
  refine ⟨_, List.mem_map.mpr ⟨unitCount d, List.mem_range.mpr hround, rfl⟩, ?_⟩
  intro hunit
  -- an address that comes up twice comes up forever
  obtain ⟨i, hi, hilt⟩ := hunit
  have hdvd : d.pageSize.toNat ∣ 2 ^ 64 := by
    refine ⟨unitCount d - i, ?_⟩
    rw [Nat.mul_sub, Nat.mul_comm _ (unitCount d), Nat.mul_comm _ i]
    omega
  rw [visitedUnits_of_not_fits hdvd hw hf] at hu
  cases hu

/-- A new region gets the entries of its units and no others, or an error if it does not fit in the address
space. -/
def RegistersUnits (cp : ControlPlaneManager) (d : MemoryRegionDescriptor) (metadata : List UInt8) : Prop :=
  (d.mainVaddr.toNat + d.regionSize.toNat ≤ 2 ^ 64 →
    ∃ cp', cp.registerRegionWithMetadata d metadata = some (.ok (), cp') ∧ ∀ a,
      (IsUnit d a → cp'.lookupPageState a =
        some (.newWithMetadata a d.pageSize cp.localNodeId metadata)) ∧
      (¬ IsUnit d a → cp'.lookupPageState a = cp.lookupPageState a)) ∧
  (2 ^ 64 < d.mainVaddr.toNat + d.regionSize.toNat →
    ∃ e, cp.registerRegionWithMetadata d metadata = some (.error e, cp))

/-- A region that is dropped takes the entries of its units with it and no others. -/
def DeregistersUnits (cp : ControlPlaneManager) (d : MemoryRegionDescriptor) : Prop :=
  (d.mainVaddr.toNat + d.regionSize.toNat ≤ 2 ^ 64 →
    ∃ cp', cp.deregisterRegion d.regionId = some (.ok (), cp') ∧ ∀ a,
      (IsUnit d a → cp'.lookupPageState a = none) ∧
      (¬ IsUnit d a → cp'.lookupPageState a = cp.lookupPageState a)) ∧
  (2 ^ 64 < d.mainVaddr.toNat + d.regionSize.toNat →
    ∃ e, cp.deregisterRegion d.regionId = some (.error e, cp))

/-- Both loops end with the right units, whatever the table they work on. -/
structure LoopsRight (d : MemoryRegionDescriptor) : Prop where
  register : ∀ (cp : ControlPlaneManager) (metadata : List UInt8),
    cp.regions.lookup d.regionId = none → RegistersUnits cp d metadata
  deregister : ∀ cp : ControlPlaneManager,
    cp.regions.lookup d.regionId = some d → DeregistersUnits cp d

theorem units_of_unitBases (hf : Fits d) {a : UInt64} {entry new old : Option DistributedPageEntry}
    (h : entry = if a ∈ unitBases d then new else old) :
    (IsUnit d a → entry = new) ∧ (¬ IsUnit d a → entry = old) := by
  constructor
  · intro ha
    rw [h, if_pos ((mem_unitBases hf a).mpr ha)]
  · intro ha
    rw [h, if_neg (mt (mem_unitBases hf a).mp ha)]

theorem registersUnits_of_fits (hf : Fits d) {cp : ControlPlaneManager} (metadata : List UInt8)
    (hnew : cp.regions.lookup d.regionId = none) : RegistersUnits cp d metadata := by
  have hw := hf.not_reachesTop
  unfold ReachesTop at hw
  refine ⟨fun _ => ?_, fun hgt => by omega⟩
  obtain ⟨cp', hreg, -, hpages⟩ := ControlPlaneManager.register_of_fits hf hnew metadata
  exact ⟨cp', hreg, fun a => units_of_unitBases hf (hpages a)⟩

theorem deregistersUnits_of_fits (hf : Fits d) {cp : ControlPlaneManager}
    (hreg : cp.regions.lookup d.regionId = some d) : DeregistersUnits cp d := by
  have hw := hf.not_reachesTop
  unfold ReachesTop at hw
  refine ⟨fun _ => ?_, fun hgt => by omega⟩
  obtain ⟨cp', hdereg, -, hpages⟩ := ControlPlaneManager.deregister_of_fits hf hreg
  exact ⟨cp', hdereg, fun a => units_of_unitBases hf (hpages a)⟩

theorem fits_of_registersUnits (node : NodeId) (metadata : List UInt8)
    (h : RegistersUnits (.new node) d metadata) : Fits d := by
  have hnew : (ControlPlaneManager.new node).regions.lookup d.regionId = none := rfl
  have hempty : ∀ a, (ControlPlaneManager.new node).lookupPageState a = none := fun _ => rfl
  have hmain := d.mainVaddr.toNat_lt
  by_contra hf
  by_cases hw : ReachesTop d
  · obtain ⟨pages, hreg, hpages⟩ := ControlPlaneManager.register_of_visited hnew
      (visitedUnits_of_reachesTop hw) metadata
    unfold ReachesTop at hw
    by_cases hlt : 2 ^ 64 < d.mainVaddr.toNat + d.regionSize.toNat
    · obtain ⟨e, he⟩ := h.2 hlt
      rw [hreg] at he
      cases he
    · obtain ⟨cp', hok, hentries⟩ := h.1 (by omega)
      have hfirst : IsUnit d d.mainVaddr := ⟨0, by omega, by omega⟩
      have hentry := (hentries d.mainVaddr).1 hfirst
      rw [hreg] at hok
      cases hok
      have hnone := hpages d.mainVaddr
      rw [if_neg List.not_mem_nil] at hnone
      rw [ControlPlaneManager.lookupPageState] at hentry
      rw [hnone] at hentry
      cases hentry
  · obtain ⟨cp', hok, hentries⟩ := h.1 (by unfold ReachesTop at hw; omega)
    cases hu : visitedUnits d with
    | none =>
      rw [ControlPlaneManager.register_of_endless hnew hu] at hok
      cases hok
    | some units =>
      obtain ⟨pages, hreg, hpages⟩ := ControlPlaneManager.register_of_visited hnew hu metadata
      obtain ⟨a, hmem, hnot⟩ := exists_visited_not_isUnit hw hf hu
      have hentry := (hentries a).2 hnot
      rw [hreg] at hok
      cases hok
      rw [ControlPlaneManager.lookupPageState, hpages, if_pos hmem, hempty] at hentry
      cases hentry

/-- The loops of a region are right exactly if its whole units end below `2 ^ 64`. -/
theorem loopsRight_iff_fits (d : MemoryRegionDescriptor) : LoopsRight d ↔ Fits d := by
  constructor
  · intro h
    exact fits_of_registersUnits ⟨0⟩ [] (h.register (.new ⟨0⟩) [] rfl)
  · intro hf
    exact ⟨fun cp metadata hnew => registersUnits_of_fits hf metadata hnew,
      fun cp hreg => deregistersUnits_of_fits hf hreg⟩

def topPage : MemoryRegionDescriptor := ⟨⟨7, 1⟩, 0xFFFFFFFFFFFFF000, 4096, 0, 0, 4096, ⟨3⟩, 0, 0⟩

/-- The end address of the last page is zero, so its registration returns without an entry. -/
theorem topPage_registered_without_entry :
    IsUnit topPage 0xFFFFFFFFFFFFF000 ∧
      (∃ cp, (ControlPlaneManager.new ⟨0⟩).registerRegionWithMetadata topPage [] = some (.ok (), cp) ∧
        cp.lookupPageState 0xFFFFFFFFFFFFF000 = none) ∧ ¬ LoopsRight topPage := by
  have hunit : IsUnit topPage 0xFFFFFFFFFFFFF000 := ⟨0, by decide, by decide⟩
  have htop : ReachesTop topPage := by decide
  have hnew : (ControlPlaneManager.new ⟨0⟩).regions.lookup topPage.regionId = none := rfl
  obtain ⟨pages, hreg, hpages⟩ := ControlPlaneManager.register_of_visited hnew
    (visitedUnits_of_reachesTop htop) []
  have hnone : pages.lookup 0xFFFFFFFFFFFFF000 = none := by
    rw [hpages, if_neg List.not_mem_nil]
    rfl
  refine ⟨hunit, ⟨_, hreg, hnone⟩, ?_⟩
  intro h
  obtain ⟨cp, hok, hentries⟩ := (h.register (.new ⟨0⟩) [] hnew).1 (by decide)
  have hentry := (hentries _).1 hunit
  rw [hreg] at hok
  cases hok
  rw [ControlPlaneManager.lookupPageState, hnone] at hentry
  cases hentry

end Virthub.Klnk
