import Virthub.Lib.Trace
import Mathlib.Algebra.Order.BigOperators.Group.List
import Mathlib.Algebra.Order.Group.Nat
import Mathlib.Algebra.Ring.Nat

/-! Usage counters of the storage tiers. `try_allocate` checks the counter and then adds to it, so a
call is a task of two steps; a deallocation is one step. -/
namespace Virthub.Store
open Virthub.Lib

inductive StorageTier where
  | dram
  | ssd
  | vram
  deriving DecidableEq, Repr

def StorageTier.debug : StorageTier → String
  | .dram => "Dram"
  | .ssd => "Ssd"
  | .vram => "Vram"

/-- What `try_allocate` reads of the configuration of a tier. -/
structure TierCapacityConfig where
  maxCapacityBytes : UInt64
  deriving DecidableEq, Repr

namespace TierCapacityConfig

def defaultDram : TierCapacityConfig := ⟨16 * 1024 * 1024 * 1024⟩
def defaultSsd : TierCapacityConfig := ⟨256 * 1024 * 1024 * 1024⟩
def defaultVram : TierCapacityConfig := ⟨8 * 1024 * 1024 * 1024⟩

end TierCapacityConfig

structure StorageTierManager where
  dramUsedBytes : UInt64
  ssdUsedBytes : UInt64
  vramUsedBytes : UInt64
  deriving DecidableEq, Repr

namespace StorageTierManager

def new : StorageTierManager := ⟨0, 0, 0⟩

/-- The configurations are set by their first use and nowhere else. -/
def getConfig : StorageTier → TierCapacityConfig
  | .dram => .defaultDram
  | .ssd => .defaultSsd
  | .vram => .defaultVram

def getUsage (self : StorageTierManager) : StorageTier → UInt64
  | .dram => self.dramUsedBytes
  | .ssd => self.ssdUsedBytes
  | .vram => self.vramUsedBytes

def setUsage (self : StorageTierManager) (usedBytes : UInt64) : StorageTier → StorageTierManager
  | .dram => { self with dramUsedBytes := usedBytes }
  | .ssd => { self with ssdUsedBytes := usedBytes }
  | .vram => { self with vramUsedBytes := usedBytes }

theorem getUsage_setUsage (self : StorageTierManager) (usedBytes : UInt64) (t u : StorageTier) :
    (self.setUsage usedBytes t).getUsage u = if u = t then usedBytes else self.getUsage u := by
  cases t <;> cases u <;> rfl

def allocate (self : StorageTierManager) (tier : StorageTier) (sizeBytes : UInt64) :
    StorageTierManager := self.setUsage (self.getUsage tier + sizeBytes) tier

theorem getUsage_allocate (self : StorageTierManager) (tier t : StorageTier) (sizeBytes : UInt64) :
    (self.allocate tier sizeBytes).getUsage t =
      if t = tier then self.getUsage tier + sizeBytes else self.getUsage t :=
  self.getUsage_setUsage _ _ _

/-- The compare-and-swap loop ends with the saturating difference of the value it replaces. -/
def deallocate (self : StorageTierManager) (tier : StorageTier) (sizeBytes : UInt64) :
    StorageTierManager :=
  let current := self.getUsage tier
  self.setUsage (if sizeBytes ≤ current then current - sizeBytes else 0) tier

theorem toNat_getUsage_deallocate {self : StorageTierManager} {tier : StorageTier} {sizeBytes : UInt64}
    (hle : sizeBytes ≤ self.getUsage tier) (t : StorageTier) :
    ((self.deallocate tier sizeBytes).getUsage t).toNat + (if tier = t then sizeBytes.toNat else 0) =
      (self.getUsage t).toNat := by
  rw [deallocate, getUsage_setUsage, if_pos hle]
  by_cases ht : t = tier
  · subst ht
    have hnat := UInt64.le_iff_toNat_le.mp hle
    rw [if_pos rfl, if_pos rfl, UInt64.toNat_sub_of_le _ _ hle]
    omega
  · rw [if_neg ht, if_neg (Ne.symm ht), Nat.add_zero]

def canAllocate (self : StorageTierManager) (tier : StorageTier) (sizeBytes : UInt64) : Bool :=
  min ((self.getUsage tier).toNat + sizeBytes.toNat) (2 ^ 64 - 1) ≤
    (getConfig tier).maxCapacityBytes.toNat

end StorageTierManager

/-- Where a call of `try_allocate` stands. -/
inductive AllocPc where
  | canAllocate (tier : StorageTier) (sizeBytes : UInt64)
  | allocate (tier : StorageTier) (sizeBytes : UInt64)
  | finished (result : Except String Unit)

def allocStep (manager : StorageTierManager) : AllocPc → AllocPc × StorageTierManager
  | .canAllocate tier sizeBytes =>
    (if manager.canAllocate tier sizeBytes then .allocate tier sizeBytes
      else .finished (.error ("Cannot allocate " ++ toString sizeBytes ++ " bytes in tier " ++
        tier.debug ++ ": capacity exceeded")), manager)
  | .allocate tier sizeBytes => (.finished (.ok ()), manager.allocate tier sizeBytes)
  | .finished result => (.finished result, manager)

/-- A manager and the calls that are under way; a call that starts late is first scheduled late. -/
structure TierSystem where
  manager : StorageTierManager
  tasks : List AllocPc

inductive TierAction where
  | run (task : ℕ)
  | deallocate (tier : StorageTier) (sizeBytes : UInt64)
  deriving DecidableEq, Repr

def tierStep (s : TierSystem) : TierAction → Unit × TierSystem
  | .run task =>
    match s.tasks[task]? with
    | none => ((), s)
    | some pc => ((), ⟨(allocStep s.manager pc).2, s.tasks.set task (allocStep s.manager pc).1⟩)
  | .deallocate tier sizeBytes => ((), { s with manager := s.manager.deallocate tier sizeBytes })

def TierSystem.start (requests : List (StorageTier × UInt64)) : TierSystem :=
  ⟨.new, requests.map fun r => .canAllocate r.1 r.2⟩

abbrev TierEvent := Event TierSystem TierAction Unit

/-- The allocation that an action is about to make. -/
def TierSystem.increment (s : TierSystem) : TierAction → Option (StorageTier × UInt64)
  | .run task =>
    match s.tasks[task]? with
    | some (.allocate tier sizeBytes) => some (tier, sizeBytes)
    | _ => none
  | .deallocate _ _ => none

/-- What is allocated and not deallocated after one more action. -/
def recordAllocation (out : List (StorageTier × UInt64)) (e : TierEvent) :
    List (StorageTier × UInt64) :=
  match e.call with
  | .run _ => (e.pre.increment e.call).toList ++ out
  | .deallocate tier sizeBytes => out.erase (tier, sizeBytes)

def outstanding (h : List TierEvent) : List (StorageTier × UInt64) := h.foldl recordAllocation []

theorem outstanding_concat (h : List TierEvent) (e : TierEvent) :
    outstanding (h ++ [e]) = recordAllocation (outstanding h) e := by
  simp [outstanding]

def bytesIn (tier : StorageTier) (out : List (StorageTier × UInt64)) : ℕ :=
  (out.map fun a => if a.1 = tier then a.2.toNat else 0).sum

theorem bytesIn_cons (tier : StorageTier) (a : StorageTier × UInt64)
    (out : List (StorageTier × UInt64)) :
    bytesIn tier (a :: out) = (if a.1 = tier then a.2.toNat else 0) + bytesIn tier out := by
  simp [bytesIn]

theorem bytesIn_erase (tier : StorageTier) {a : StorageTier × UInt64}
    {out : List (StorageTier × UInt64)} (h : a ∈ out) :
    (if a.1 = tier then a.2.toNat else 0) + bytesIn tier (out.erase a) = bytesIn tier out := by
  rw [← bytesIn_cons]
  exact (((List.perm_cons_erase h).map _).sum_eq).symm

/-- The counters stay within the tiers and count what is outstanding. -/
structure WithinCapacity (h : List TierEvent) (s : TierSystem) : Prop where
  capacity : ∀ tier, s.manager.getUsage tier ≤
    (StorageTierManager.getConfig tier).maxCapacityBytes
  usage : ∀ tier, (s.manager.getUsage tier).toNat = bytesIn tier (outstanding h)

/-- Only what was allocated, and not deallocated since, is deallocated. -/
def DeallocatesOutstanding (h : List TierEvent) (_ : TierSystem) (action : TierAction) : Prop :=
  ∀ tier sizeBytes, action = .deallocate tier sizeBytes → (tier, sizeBytes) ∈ outstanding h

/-- An addition to a counter still finds the room that its check found. -/
def IncrementFits (_ : List TierEvent) (s : TierSystem) (action : TierAction) : Prop :=
  ∀ tier sizeBytes, s.increment action = some (tier, sizeBytes) →
    (s.manager.getUsage tier).toNat + sizeBytes.toNat ≤
      (StorageTierManager.getConfig tier).maxCapacityBytes.toNat

theorem manager_run_of_none {s : TierSystem} {task : ℕ} (h : s.increment (.run task) = none) :
    (tierStep s (.run task)).2.manager = s.manager := by
  unfold TierSystem.increment at h
  cases hp : s.tasks[task]? with
  | none => simp [tierStep, hp]
  | some pc =>
    cases pc with
    | allocate tier sizeBytes => simp [hp] at h
    | canAllocate tier sizeBytes => simp [tierStep, hp, allocStep]
    | finished result => simp [tierStep, hp, allocStep]

theorem manager_run_of_some {s : TierSystem} {task : ℕ} {tier : StorageTier} {sizeBytes : UInt64}
    (h : s.increment (.run task) = some (tier, sizeBytes)) :
    (tierStep s (.run task)).2.manager = s.manager.allocate tier sizeBytes := by
  unfold TierSystem.increment at h
  cases hp : s.tasks[task]? with
  | none => simp [hp] at h
  | some pc =>
    cases pc with
    | allocate t b =>
      obtain ⟨rfl, rfl⟩ : t = tier ∧ b = sizeBytes := by simpa [hp] using h
      simp [tierStep, hp, allocStep]
    | canAllocate t b => simp [hp] at h
    | finished result => simp [hp] at h

namespace WithinCapacity

variable {h : List TierEvent} {s : TierSystem}

theorem le_getUsage (hw : WithinCapacity h s) {tier : StorageTier} {sizeBytes : UInt64}
    (hm : (tier, sizeBytes) ∈ outstanding h) : sizeBytes ≤ s.manager.getUsage tier := by
  have hsum := bytesIn_erase tier hm
  rw [if_pos rfl] at hsum
  dsimp only at hsum
  rw [UInt64.le_iff_toNat_le, hw.usage]
  omega

theorem deallocate (hw : WithinCapacity h s) {tier : StorageTier} {sizeBytes : UInt64}
    (hm : (tier, sizeBytes) ∈ outstanding h) :
    WithinCapacity (h ++ [event tierStep s (.deallocate tier sizeBytes)])
      (tierStep s (.deallocate tier sizeBytes)).2 := by
  have husage : ∀ t, ((tierStep s (.deallocate tier sizeBytes)).2.manager.getUsage t).toNat +
      (if tier = t then sizeBytes.toNat else 0) = (s.manager.getUsage t).toNat :=
    StorageTierManager.toNat_getUsage_deallocate (hw.le_getUsage hm)
  constructor
  · intro t
    have hcap := UInt64.le_iff_toNat_le.mp (hw.capacity t)
    have hu := husage t
    rw [UInt64.le_iff_toNat_le]
    omega
  · intro t
    have hu := husage t
    have he := bytesIn_erase t hm
    have hs := hw.usage t
    rw [outstanding_concat]
    change _ = bytesIn t ((outstanding h).erase (tier, sizeBytes))
    dsimp only at he
    omega

/-- An addition keeps the counters right exactly if it fits. -/
theorem allocate_iff (hw : WithinCapacity h s) {task : ℕ} {tier : StorageTier} {sizeBytes : UInt64}
    (hi : s.increment (.run task) = some (tier, sizeBytes)) :
    WithinCapacity (h ++ [event tierStep s (.run task)]) (tierStep s (.run task)).2 ↔
      (s.manager.getUsage tier).toNat + sizeBytes.toNat ≤
        (StorageTierManager.getConfig tier).maxCapacityBytes.toNat := by
  have hout : outstanding (h ++ [event tierStep s (.run task)]) =
      (tier, sizeBytes) :: outstanding h := by
    rw [outstanding_concat]
    simp [recordAllocation, event, hi]
  have husage : ∀ t, (tierStep s (.run task)).2.manager.getUsage t =
      if t = tier then s.manager.getUsage tier + sizeBytes else s.manager.getUsage t := by
    intro t
    rw [manager_run_of_some hi, StorageTierManager.getUsage_allocate]
  constructor
  · rintro ⟨hcap, huse⟩
    -- the counter did not wrap, since it still counts what is outstanding
    have hsum := huse tier
    have hle := UInt64.le_iff_toNat_le.mp (hcap tier)
    rw [hout, bytesIn_cons, if_pos rfl, ← hw.usage] at hsum
    dsimp only at hsum
    omega
  · intro hfit
    have hmax := (StorageTierManager.getConfig tier).maxCapacityBytes.toNat_lt
    have hadd : (s.manager.getUsage tier + sizeBytes).toNat =
        (s.manager.getUsage tier).toNat + sizeBytes.toNat := by
      rw [UInt64.toNat_add, Nat.mod_eq_of_lt (by omega)]
    constructor
    · intro t
      rw [husage]
      split_ifs with ht
      · rw [ht, UInt64.le_iff_toNat_le, hadd]
        exact hfit
      · exact hw.capacity t
    · intro t
      rw [husage, hout, bytesIn_cons, ← hw.usage]
      by_cases ht : t = tier
      · rw [if_pos ht, if_pos ht.symm, hadd, ht]
        exact Nat.add_comm _ _
      · rw [if_neg ht, if_neg (Ne.symm ht), Nat.zero_add]

theorem run_of_none (hw : WithinCapacity h s) {task : ℕ} (hi : s.increment (.run task) = none) :
    WithinCapacity (h ++ [event tierStep s (.run task)]) (tierStep s (.run task)).2 := by
  have hout : outstanding (h ++ [event tierStep s (.run task)]) = outstanding h := by
    rw [outstanding_concat]
    simp [recordAllocation, event, hi]
  constructor
  · intro t
    rw [manager_run_of_none hi]
    exact hw.capacity t
  · intro t
    rw [manager_run_of_none hi, hout]
    exact hw.usage t

end WithinCapacity

theorem withinCapacity_start (requests : List (StorageTier × UInt64)) :
    WithinCapacity [] (.start requests) := by
  have hzero : ∀ tier, (TierSystem.start requests).manager.getUsage tier = 0 := by
    intro tier
    cases tier <;> rfl
  constructor
  · intro tier
    rw [hzero]
    exact UInt64.zero_le
  · intro tier
    rw [hzero]
    rfl

/-- Tiers stay within their capacity, and their counters right, exactly if every addition still finds
the room that its check found. -/
theorem withinCapacity_iff (requests : List (StorageTier × UInt64)) (actions : List TierAction)
    (hd : Along DeallocatesOutstanding tierStep (.start requests) actions) :
    (∀ past, past <+: actions → WithinCapacity (trace tierStep (.start requests) past)
        (exec tierStep (.start requests) past)) ↔
      Along IncrementFits tierStep (.start requests) actions := by
  apply forall_prefix_iff_along_history (withinCapacity_start requests) (fun _ _ hw => hw) ?_ ?_
    actions hd
  · intro h s action hw hdealloc hfits
    cases action with
    | deallocate tier sizeBytes => exact hw.deallocate (hdealloc tier sizeBytes rfl)
    | run task =>
      cases hi : s.increment (.run task) with
      | none => exact hw.run_of_none hi
      | some a => exact (hw.allocate_iff hi).mpr (hfits a.1 a.2 hi)
  · intro h s action hw _ hpost tier sizeBytes hi
    cases action with
    | deallocate t b => cases hi
    | run task => exact (hw.allocate_iff hi).mp hpost

/-- Two calls for nine gibibytes of memory each, both checked before either is counted. -/
def bothChecked : List TierAction := [.run 0, .run 1, .run 0, .run 1]

def nineGiB : UInt64 := 9 * 1024 * 1024 * 1024

theorem bothChecked_exceeds_capacity :
    ¬ ∀ past, past <+: bothChecked →
      WithinCapacity (trace tierStep (.start [(.dram, nineGiB), (.dram, nineGiB)]) past)
        (exec tierStep (.start [(.dram, nineGiB), (.dram, nineGiB)]) past) := by
  intro h
  have hcap := (h bothChecked List.prefix_rfl).capacity .dram
  revert hcap
  decide

/-- A call that runs alone, and the deallocation of its bytes. -/
def allocateAndFree : List TierAction := [.run 0, .run 0, .deallocate .dram nineGiB]

theorem deallocatesOutstanding_allocateAndFree :
    Along DeallocatesOutstanding tierStep (.start [(.dram, nineGiB)]) allocateAndFree := by
  simp only [allocateAndFree, along_cons, along_nil, and_true]
  refine ⟨?_, ?_, ?_⟩
  · intro tier sizeBytes he
    cases he
  · intro tier sizeBytes he
    cases he
  · intro tier sizeBytes he
    cases he
    decide

theorem withinCapacity_allocateAndFree :
    Along DeallocatesOutstanding tierStep (.start [(.dram, nineGiB)]) allocateAndFree ∧
      ∀ past, past <+: allocateAndFree →
        WithinCapacity (trace tierStep (.start [(.dram, nineGiB)]) past)
          (exec tierStep (.start [(.dram, nineGiB)]) past) := by
  refine ⟨deallocatesOutstanding_allocateAndFree,
    (withinCapacity_iff _ _ deallocatesOutstanding_allocateAndFree).mpr ?_⟩
  simp only [allocateAndFree, along_cons, along_nil, and_true]
  refine ⟨?_, ?_, ?_⟩
  · intro tier sizeBytes he
    cases he
  · intro tier sizeBytes he
    cases he
    decide
  · intro tier sizeBytes he
    cases he

end Virthub.Store
