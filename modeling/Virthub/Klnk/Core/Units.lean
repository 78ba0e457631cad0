import Virthub.Klnk.Core.ControlPlane
import Mathlib.Tactic.Ring

/-! The units of a memory region. The loop that registers or deregisters them visits the unit
bases in order and ends, as long as the region and its last unit end below `2 ^ 64`. A region that itself
reaches `2 ^ 64` has no round, and one whose last unit reaches it is never done. -/
namespace Virthub.Klnk

/-- `a` is the base address of a unit of the region. -/
def IsUnit (d : MemoryRegionDescriptor) (a : UInt64) : Prop :=
  ∃ k : ℕ, a.toNat = d.mainVaddr.toNat + k * d.pageSize.toNat ∧
    d.mainVaddr.toNat + k * d.pageSize.toNat < d.mainVaddr.toNat + d.regionSize.toNat

def unitCount (d : MemoryRegionDescriptor) : ℕ :=
  (d.regionSize.toNat + d.pageSize.toNat - 1) / d.pageSize.toNat

/-- The range of the region, rounded up to whole units, ends below `2 ^ 64`. -/
def Fits (d : MemoryRegionDescriptor) : Prop :=
  d.mainVaddr.toNat + unitCount d * d.pageSize.toNat < 2 ^ 64

instance (d : MemoryRegionDescriptor) : Decidable (Fits d) :=
  inferInstanceAs (Decidable (_ < _))

def unitBase (d : MemoryRegionDescriptor) (k : ℕ) : UInt64 :=
  (d.mainVaddr.toNat + k * d.pageSize.toNat).toUInt64

def unitBases (d : MemoryRegionDescriptor) : List UInt64 :=
  (List.range (unitCount d)).map (unitBase d)

/-- The addresses that the loop over the units of a region visits, if it ends. -/
def visited (pageSize endAddr : UInt64) : ℕ → UInt64 → Option (List UInt64)
  | 0, _ => none
  | fuel + 1, currAddr =>
    if currAddr < endAddr then
      (visited pageSize endAddr fuel (currAddr + pageSize)).map fun rest => currAddr :: rest
    else some []

def visitedUnits (d : MemoryRegionDescriptor) : Option (List UInt64) :=
  visited d.pageSize d.endAddr (2 ^ 64) d.mainVaddr

theorem unitLoop_eq_visited {σ : Type} (body : UInt64 → σ → σ) (pageSize endAddr : UInt64) (fuel : ℕ)
    (currAddr : UInt64) (s : σ) :
    unitLoop body pageSize endAddr fuel currAddr s =
      (visited pageSize endAddr fuel currAddr).map fun units => units.foldl (fun s a => body a s) s := by
  induction fuel generalizing currAddr s with
  | zero => rfl
  | succ fuel ih =>
    rw [unitLoop, visited]
    split_ifs
    · rw [ih, Option.map_map]
      rfl
    · rfl

variable {d : MemoryRegionDescriptor}

theorem pageSize_pos (d : MemoryRegionDescriptor) : 4096 ≤ d.pageSize.toNat := by
  have h : (4096 : UInt64) ≤ d.pageSize := by
    change 4096 ≤ if d.stagingPageSize ≤ 4096 then 4096 else d.stagingPageSize
    split_ifs <;> grind
  exact UInt64.le_iff_toNat_le.mp h

theorem lt_unitCount_iff (d : MemoryRegionDescriptor) (k : ℕ) :
    k < unitCount d ↔ k * d.pageSize.toNat < d.regionSize.toNat := by
  have hpos := pageSize_pos d
  unfold unitCount
  rw [Nat.lt_iff_add_one_le, Nat.le_div_iff_mul_le (by omega), Nat.add_mul]
  omega

theorem toNat_unitBase (hf : Fits d) {k : ℕ} (hk : k ≤ unitCount d) :
    (unitBase d k).toNat = d.mainVaddr.toNat + k * d.pageSize.toNat := by
  have hmul : k * d.pageSize.toNat ≤ unitCount d * d.pageSize.toNat := Nat.mul_le_mul_right _ hk
  unfold Fits at hf
  rw [unitBase, Nat.toUInt64_eq, UInt64.toNat_ofNat']
  omega

theorem mem_unitBases (hf : Fits d) (a : UInt64) : a ∈ unitBases d ↔ IsUnit d a := by
  unfold unitBases IsUnit
  rw [List.mem_map]
  constructor
  · rintro ⟨k, hk, rfl⟩
    have hk := List.mem_range.mp hk
    have hlt := (lt_unitCount_iff d k).mp hk
    exact ⟨k, toNat_unitBase hf (by omega), by omega⟩
  · rintro ⟨k, ha, hlt⟩
    have hk := (lt_unitCount_iff d k).mpr (by omega)
    refine ⟨k, List.mem_range.mpr hk, ?_⟩
    rw [← UInt64.toNat_inj, toNat_unitBase hf (by omega), ha]

/-- The loop over a region that fits visits the unit bases in order and ends. -/
theorem visited_from (hf : Fits d) (j : ℕ) :
    ∀ k fuel : ℕ, k + j = unitCount d → j < fuel →
      visited d.pageSize d.endAddr fuel (unitBase d k) = some ((List.range' k j).map (unitBase d)) := by
  have hend : d.endAddr.toNat = d.mainVaddr.toNat + d.regionSize.toNat := by
    have hge : ¬ unitCount d * d.pageSize.toNat < d.regionSize.toNat := by
      rw [← lt_unitCount_iff]
      omega
    unfold Fits at hf
    unfold MemoryRegionDescriptor.endAddr
    rw [UInt64.toNat_add]
    omega
  induction j with
  | zero =>
    intro k fuel hk hfuel
    obtain ⟨fuel, rfl⟩ : ∃ f, fuel = f + 1 := ⟨fuel - 1, by omega⟩
    have hstop : ¬ unitBase d k < d.endAddr := by
      have hge := (not_congr (lt_unitCount_iff d k)).mp (by omega)
      rw [UInt64.lt_iff_toNat_lt, toNat_unitBase hf (by omega), hend]
      omega
    rw [visited, if_neg hstop]
    rfl
  | succ j ih =>
    intro k fuel hk hfuel
    obtain ⟨fuel, rfl⟩ : ∃ f, fuel = f + 1 := ⟨fuel - 1, by omega⟩
    have hgo : unitBase d k < d.endAddr := by
      have hlt := (lt_unitCount_iff d k).mp (by omega)
      rw [UInt64.lt_iff_toNat_lt, toNat_unitBase hf (by omega), hend]
      omega
    have hnext : unitBase d k + d.pageSize = unitBase d (k + 1) := by
      have hle : (k + 1) * d.pageSize.toNat ≤ unitCount d * d.pageSize.toNat :=
        Nat.mul_le_mul_right _ (by omega)
      have hmul : (k + 1) * d.pageSize.toNat = k * d.pageSize.toNat + d.pageSize.toNat := by ring
      unfold Fits at hf
      rw [← UInt64.toNat_inj, UInt64.toNat_add, toNat_unitBase hf (by omega),
        toNat_unitBase hf (by omega)]
      omega
    rw [visited, if_pos hgo, hnext, ih (k + 1) fuel (by omega) (by omega), List.range'_succ]
    rfl

theorem visitedUnits_of_fits (hf : Fits d) : visitedUnits d = some (unitBases d) := by
  have hpos := pageSize_pos d
  have hcount : unitCount d < 2 ^ 64 := by
    have hle : unitCount d * 1 ≤ unitCount d * d.pageSize.toNat := Nat.mul_le_mul_left _ (by omega)
    unfold Fits at hf
    omega
  have h0 : unitBase d 0 = d.mainVaddr := by
    rw [← UInt64.toNat_inj, toNat_unitBase hf (by omega)]
    omega
  have hloop := visited_from hf (unitCount d) 0 (2 ^ 64) (by omega) hcount
  rw [h0] at hloop
  rw [visitedUnits, hloop, unitBases, List.range_eq_range']

/-- The range of the region goes up to the end of the address space or past it. -/
def ReachesTop (d : MemoryRegionDescriptor) : Prop :=
  2 ^ 64 ≤ d.mainVaddr.toNat + d.regionSize.toNat

instance (d : MemoryRegionDescriptor) : Decidable (ReachesTop d) :=
  inferInstanceAs (Decidable (_ ≤ _))

/-- The end address of such a region is not above its first one, so the loop has no round. -/
theorem visitedUnits_of_reachesTop (hw : ReachesTop d) : visitedUnits d = some [] := by
  have hstop : ¬ d.mainVaddr < d.endAddr := by
    have hsize := d.regionSize.toNat_lt
    unfold ReachesTop at hw
    rw [MemoryRegionDescriptor.endAddr, UInt64.lt_iff_toNat_lt, UInt64.toNat_add]
    omega
  have hloop : ∀ fuel, visited d.pageSize d.endAddr (fuel + 1) d.mainVaddr = some [] := by
    intro fuel
    rw [visited, if_neg hstop]
  exact hloop (2 ^ 64 - 1)

/-- A loop goes on forever if every address that it can get to is below the end. -/
theorem visited_endless {pageSize endAddr : UInt64} {r : ℕ} (hdvd : pageSize.toNat ∣ 2 ^ 64)
    (hbelow : ∀ x : UInt64, x.toNat % pageSize.toNat = r → x < endAddr) (fuel : ℕ) :
    ∀ x : UInt64, x.toNat % pageSize.toNat = r → visited pageSize endAddr fuel x = none := by
  induction fuel with
  | zero =>
    intro x _
    rfl
  | succ fuel ih =>
    intro x hx
    have hnext : (x + pageSize).toNat % pageSize.toNat = r := by
      rw [UInt64.toNat_add, Nat.mod_mod_of_dvd _ hdvd, Nat.add_mod_right, hx]
    rw [visited, if_pos (hbelow x hx), ih _ hnext]
    rfl

/-- A region that ends below `2 ^ 64` while its last unit does not is never done. -/
theorem visitedUnits_of_not_fits (hdvd : d.pageSize.toNat ∣ 2 ^ 64) (hw : ¬ ReachesTop d) (hf : ¬ Fits d) :
    visitedUnits d = none := by
  have hpos := pageSize_pos d
  have hlast : ∃ k, unitCount d = k + 1 := by
    refine Nat.exists_eq_add_one_of_ne_zero fun hzero => hf ?_
    rw [Fits, hzero]
    have hlt := d.mainVaddr.toNat_lt
    omega
  obtain ⟨k, hk⟩ := hlast
  have hin : k * d.pageSize.toNat < d.regionSize.toNat := (lt_unitCount_iff d k).mp (by omega)
  have hend : d.endAddr.toNat = d.mainVaddr.toNat + d.regionSize.toNat := by
    unfold ReachesTop at hw
    rw [MemoryRegionDescriptor.endAddr, UInt64.toNat_add]
    omega
  refine visited_endless hdvd (fun x hx => ?_) (2 ^ 64) d.mainVaddr rfl
  -- the last unit is the last one of all addresses that leave its remainder
  have htop : 2 ^ 64 ≤ d.mainVaddr.toNat + k * d.pageSize.toNat + d.pageSize.toNat := by
    rw [Fits, hk] at hf
    have hmul : (k + 1) * d.pageSize.toNat = k * d.pageSize.toNat + d.pageSize.toNat := by ring
    omega
  have hle : x.toNat ≤ d.mainVaddr.toNat + k * d.pageSize.toNat := by
    by_contra hgt
    have hrem : x.toNat % d.pageSize.toNat =
        (d.mainVaddr.toNat + k * d.pageSize.toNat) % d.pageSize.toNat := by
      rw [Nat.add_mul_mod_self_right, hx]
    have hdiff := Nat.dvd_of_mod_eq_zero (Nat.sub_mod_eq_zero_of_mod_eq hrem)
    have hstep := Nat.le_of_dvd (by omega) hdiff
    have hlt := x.toNat_lt
    omega
  rw [UInt64.lt_iff_toNat_lt, hend]
  omega

theorem exists_visitedUnits (hends : ReachesTop d ∨ Fits d) : ∃ units, visitedUnits d = some units := by
  rcases hends with ht | hf
  · exact ⟨_, visitedUnits_of_reachesTop ht⟩
  · exact ⟨_, visitedUnits_of_fits hf⟩

/-- What the loop over a region visits when it ends. -/
theorem mem_visitedUnits {units : List UInt64} (hends : ReachesTop d ∨ Fits d)
    (hu : visitedUnits d = some units) (a : UInt64) : a ∈ units ↔ ¬ ReachesTop d ∧ IsUnit d a := by
  by_cases ht : ReachesTop d
  · rw [visitedUnits_of_reachesTop ht] at hu
    simp [← Option.some.inj hu, ht]
  · have hf := hends.resolve_left ht
    rw [visitedUnits_of_fits hf] at hu
    rw [← Option.some.inj hu, mem_unitBases hf]
    simp [ht]

theorem lookup_foldl_insert {K V : Type} [DecidableEq K] (f : K → V) (as : List K)
    (m : AList fun _ : K => V) (x : K) :
    (as.foldl (fun m a => m.insert a (f a)) m).lookup x =
      if x ∈ as then some (f x) else m.lookup x := by
  induction as generalizing m with
  | nil => simp
  | cons a as ih =>
    rw [List.foldl_cons, ih]
    by_cases hx : x = a
    · subst hx
      simp
    · simp [hx, AList.lookup_insert_ne hx]

theorem lookup_foldl_erase {K V : Type} [DecidableEq K] (as : List K)
    (m : AList fun _ : K => V) (x : K) :
    (as.foldl (fun m a => m.erase a) m).lookup x = if x ∈ as then none else m.lookup x := by
  induction as generalizing m with
  | nil => simp
  | cons a as ih =>
    rw [List.foldl_cons, ih]
    by_cases hx : x = a
    · subst hx
      simp
    · simp [hx, AList.lookup_erase_ne hx]

namespace ControlPlaneManager

variable {self : ControlPlaneManager}

/-- A loop that never ends is a call that never returns. -/
theorem register_of_endless (hnew : self.regions.lookup d.regionId = none) (hu : visitedUnits d = none)
    (m : List UInt8) : self.registerRegionWithMetadata d m = none := by
  unfold visitedUnits at hu
  unfold registerRegionWithMetadata
  rw [hnew]
  dsimp only
  rw [unitLoop_eq_visited, hu]
  rfl

/-- Registering a new region writes the entries of the units that the loop visits, and no others. -/
theorem register_of_visited {units : List UInt64} (hnew : self.regions.lookup d.regionId = none)
    (hu : visitedUnits d = some units) (m : List UInt8) :
    ∃ pages, self.registerRegionWithMetadata d m = some (.ok (), { self with
        pageStates := pages, regions := self.regions.insert d.regionId d }) ∧
      ∀ a, pages.lookup a = if a ∈ units then
        some (.newWithMetadata a d.pageSize self.localNodeId m) else self.pageStates.lookup a := by
  unfold visitedUnits at hu
  unfold registerRegionWithMetadata
  rw [hnew]
  dsimp only
  rw [unitLoop_eq_visited, hu]
  exact ⟨_, rfl, fun a => lookup_foldl_insert _ _ _ a⟩

theorem deregister_of_endless {r : GlobalRegionId} (hreg : self.regions.lookup r = some d)
    (hu : visitedUnits d = none) : self.deregisterRegion r = none := by
  unfold visitedUnits at hu
  unfold deregisterRegion
  rw [hreg]
  dsimp only
  rw [unitLoop_eq_visited, hu]
  rfl

/-- Deregistering a region removes the entries of the units that the loop visits, and no others. -/
theorem deregister_of_visited {r : GlobalRegionId} {units : List UInt64}
    (hreg : self.regions.lookup r = some d) (hu : visitedUnits d = some units) :
    ∃ pages, self.deregisterRegion r = some (.ok (), { self with
        pageStates := pages, regions := self.regions.erase r }) ∧
      ∀ a, pages.lookup a = if a ∈ units then none else self.pageStates.lookup a := by
  unfold visitedUnits at hu
  unfold deregisterRegion
  rw [hreg]
  dsimp only
  rw [unitLoop_eq_visited, hu]
  exact ⟨_, rfl, fun a => lookup_foldl_erase _ _ a⟩

/-- Registering a new region writes the entries of its units and no others. -/
theorem register_of_fits (hf : Fits d) (hnew : self.regions.lookup d.regionId = none)
    (m : List UInt8) : ∃ self', self.registerRegionWithMetadata d m = some (.ok (), self') ∧
      self'.regions = self.regions.insert d.regionId d ∧
      ∀ a, self'.pageStates.lookup a = if a ∈ unitBases d then
        some (.newWithMetadata a d.pageSize self.localNodeId m) else self.pageStates.lookup a := by
  obtain ⟨pages, hreg, hpages⟩ := register_of_visited hnew (visitedUnits_of_fits hf) m
  exact ⟨_, hreg, rfl, hpages⟩

/-- Deregistering a region removes the entries of its units and no others. -/
theorem deregister_of_fits (hf : Fits d) {r : GlobalRegionId}
    (hreg : self.regions.lookup r = some d) :
    ∃ self', self.deregisterRegion r = some (.ok (), self') ∧
      self'.regions = self.regions.erase r ∧
      ∀ a, self'.pageStates.lookup a =
        if a ∈ unitBases d then none else self.pageStates.lookup a := by
  obtain ⟨pages, hdereg, hpages⟩ := deregister_of_visited hreg (visitedUnits_of_fits hf)
  exact ⟨_, hdereg, rfl, hpages⟩

end ControlPlaneManager

end Virthub.Klnk
