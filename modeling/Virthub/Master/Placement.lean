import Mathlib.Order.CompletePartialOrder
import Mathlib.Order.Interval.Set.Disjoint
import Virthub.Lib.Trace
import Virthub.Master.Scheduler

/-! The addresses of live placements. The address of a placement is computed from its node alone, so
two placements on one node that are not empty overlap. -/
namespace Virthub.Master
open Virthub.Klnk Virthub.Lib

/-- What an answered call does to the live placements. -/
inductive PlacementEffect where
  | placed (p : PlacementDecision)
  | freed (nodeId : NodeId) (sizeBytes : UInt64)
  | silent

/-- A release names a node and a size, and ends one live placement that has both. -/
def PlacementEffect.apply (live : List PlacementDecision) : PlacementEffect → List PlacementDecision
  | placed p => p :: live
  | freed nodeId sizeBytes =>
    live.eraseP fun p => p.selectedNodeId = nodeId ∧ p.sizeBytes = sizeBytes
  | silent => live

def PlacementEffect.ofAnswer : Option (Except SchedulerError PlacementDecision) → PlacementEffect
  | some (.ok p) => placed p
  | some (.error _) | none => silent

inductive SchedulerCall where
  | registerNode (capacity : NodeResourceCapacity)
  | scheduleAllocation (rank : NodeId → ℕ) (sizeBytes : UInt64) (targetNumaHint : Option UInt32)
  | releaseAllocation (nodeId : NodeId) (sizeBytes : UInt64)

inductive SchedulerAnswer where
  | done
  | scheduled (answer : Option (Except SchedulerError PlacementDecision))

namespace ClusterScheduler

def step (self : ClusterScheduler) : SchedulerCall → SchedulerAnswer × ClusterScheduler
  | .registerNode capacity => (.done, self.registerNode capacity)
  | .scheduleAllocation rank sizeBytes hint =>
    ((self.scheduleAllocation rank sizeBytes hint).map .scheduled id)
  | .releaseAllocation nodeId sizeBytes => (.done, self.releaseAllocation nodeId sizeBytes)

end ClusterScheduler

def effect (e : Event ClusterScheduler SchedulerCall SchedulerAnswer) : PlacementEffect :=
  match e.answer, e.call with
  | .scheduled answer, _ => .ofAnswer answer
  | .done, .releaseAllocation nodeId sizeBytes => .freed nodeId sizeBytes
  | .done, _ => .silent

def live (h : List (Event ClusterScheduler SchedulerCall SchedulerAnswer)) : List PlacementDecision :=
  (h.map effect).foldl PlacementEffect.apply []

theorem live_concat (h : List (Event ClusterScheduler SchedulerCall SchedulerAnswer))
    (e : Event ClusterScheduler SchedulerCall SchedulerAnswer) :
    live (h ++ [e]) = (effect e).apply (live h) := by
  simp [live]

def PlacementDecision.addresses (p : PlacementDecision) : Set ℕ :=
  Set.Ico p.allocatedVaddr.toNat (p.allocatedVaddr.toNat + p.sizeBytes.toNat)

/-- Placements on one node share no address. -/
def DisjointAddresses (live : List PlacementDecision) : Prop :=
  live.Pairwise fun p q => p.selectedNodeId = q.selectedNodeId → Disjoint p.addresses q.addresses

/-- The placement has the address that the scheduler computes for its node. -/
def PlacementDecision.AtNode (p : PlacementDecision) : Prop :=
  p.allocatedVaddr = vaddrOf p.selectedNodeId

theorem PlacementDecision.AtNode.disjoint_iff {p q : PlacementDecision} (hp : p.AtNode)
    (hq : q.AtNode) (hn : p.selectedNodeId = q.selectedNodeId) :
    Disjoint p.addresses q.addresses ↔ p.sizeBytes = 0 ∨ q.sizeBytes = 0 := by
  unfold AtNode at hp hq
  unfold addresses
  rw [Set.Ico_disjoint_Ico, hp, hq, hn, max_self, ← UInt64.toNat_inj, ← UInt64.toNat_inj]
  rw [UInt64.toNat_zero]
  omega

namespace ClusterScheduler

def decision (self : ClusterScheduler) (selectedId : NodeId) (sizeBytes : UInt64)
    (targetNumaHint : Option UInt32) : PlacementDecision :=
  ⟨selectedId, targetNumaHint.getD 0, vaddrOf selectedId, sizeBytes, selectedId.id % self.shardCount⟩

theorem placed_reserve_iff {s : ClusterScheduler} {selectedId : NodeId} {sizeBytes : UInt64}
    {hint : Option UInt32} {p : PlacementDecision} :
    PlacementEffect.ofAnswer (s.reserve selectedId sizeBytes hint).1 = .placed p ↔
      selectedId ∈ s.nodes ∧ s.shardCount ≠ 0 ∧ s.decision selectedId sizeBytes hint = p := by
  unfold reserve
  cases hl : s.nodes.lookup selectedId with
  | none => simp [PlacementEffect.ofAnswer, AList.lookup_eq_none.mp hl]
  | some node =>
    have hmem : selectedId ∈ s.nodes := AList.lookup_isSome.mp (by simp [hl])
    dsimp only
    split_ifs with hshards
    · simp [PlacementEffect.ofAnswer, hshards]
    · simp [PlacementEffect.ofAnswer, hmem, hshards, decision]

/-- A call hands out a placement exactly if its scan selects a registered node and there are shards. -/
theorem placed_schedule_iff {s : ClusterScheduler} {rank : NodeId → ℕ} {sizeBytes : UInt64}
    {hint : Option UInt32} {p : PlacementDecision} :
    effect (event step s (.scheduleAllocation rank sizeBytes hint)) = .placed p ↔
      ∃ selectedId, (s.scan rank sizeBytes hint).1 = .ok selectedId ∧ selectedId ∈ s.nodes ∧
        s.shardCount ≠ 0 ∧ s.decision selectedId sizeBytes hint = p := by
  change PlacementEffect.ofAnswer (s.scheduleAllocation rank sizeBytes hint).1 = .placed p ↔ _
  unfold scheduleAllocation scan
  dsimp only
  cases s.select (s.candidates rank sizeBytes hint) with
  | none => simp [PlacementEffect.ofAnswer]
  | some selected =>
    dsimp only
    rw [placed_reserve_iff]
    split_ifs <;> simp [decision]

theorem atNode_of_step {s : ClusterScheduler} {c : SchedulerCall} {p : PlacementDecision}
    (h : effect (event step s c) = .placed p) : p.AtNode := by
  cases c with
  | registerNode capacity => cases h
  | releaseAllocation nodeId sizeBytes => cases h
  | scheduleAllocation rank sizeBytes hint =>
    obtain ⟨selectedId, -, -, -, rfl⟩ := placed_schedule_iff.mp h
    rfl

end ClusterScheduler

/-- The scan of an allocation that is not empty selects no node with a live placement, empty ones apart. A
node that is not registered and a scheduler without shards make the allocation fail. -/
def PlacesApart (h : List (Event ClusterScheduler SchedulerCall SchedulerAnswer))
    (s : ClusterScheduler) : SchedulerCall → Prop
  | .scheduleAllocation rank sizeBytes hint =>
    ∀ selectedId, (s.scan rank sizeBytes hint).1 = .ok selectedId → selectedId ∈ s.nodes →
      s.shardCount ≠ 0 → sizeBytes ≠ 0 →
        ∀ q ∈ live h, q.selectedNodeId = selectedId → q.sizeBytes = 0
  | .registerNode _ | .releaseAllocation _ _ => True

theorem placesApart_iff {h : List (Event ClusterScheduler SchedulerCall SchedulerAnswer)}
    {s : ClusterScheduler} {c : SchedulerCall} :
    (∀ p, effect (event ClusterScheduler.step s c) = .placed p → p.sizeBytes ≠ 0 →
      ∀ q ∈ live h, q.selectedNodeId = p.selectedNodeId → q.sizeBytes = 0) ↔ PlacesApart h s c := by
  cases c with
  | registerNode capacity => exact iff_of_true (fun p hp => by cases hp) trivial
  | releaseAllocation nodeId sizeBytes => exact iff_of_true (fun p hp => by cases hp) trivial
  | scheduleAllocation rank sizeBytes hint =>
    constructor
    · intro h selectedId hscan hmem hshards
      exact h _ (ClusterScheduler.placed_schedule_iff.mpr ⟨selectedId, hscan, hmem, hshards, rfl⟩)
    · intro h p hp
      obtain ⟨selectedId, hscan, hmem, hshards, rfl⟩ := ClusterScheduler.placed_schedule_iff.mp hp
      exact h selectedId hscan hmem hshards

theorem PlacementEffect.mem_of_mem_apply {effect : PlacementEffect} {live : List PlacementDecision}
    {q : PlacementDecision} (h : q ∈ effect.apply live) : effect = placed q ∨ q ∈ live := by
  cases effect with
  | placed p =>
    rcases List.mem_cons.mp h with rfl | h
    · exact .inl rfl
    · exact .inr h
  | freed nodeId sizeBytes => exact .inr (List.mem_of_mem_eraseP h)
  | silent => exact .inr h

theorem disjoint_apply_iff {live : List PlacementDecision} (hlive : ∀ q ∈ live, q.AtNode)
    (hd : DisjointAddresses live) {effect : PlacementEffect}
    (he : ∀ p, effect = .placed p → p.AtNode) :
    DisjointAddresses (effect.apply live) ↔ ∀ p, effect = .placed p → p.sizeBytes ≠ 0 →
      ∀ q ∈ live, q.selectedNodeId = p.selectedNodeId → q.sizeBytes = 0 := by
  cases effect with
  | placed p =>
    have hp : p.AtNode := he p rfl
    have hiff : ∀ q ∈ live, p.selectedNodeId = q.selectedNodeId →
        (Disjoint p.addresses q.addresses ↔ p.sizeBytes = 0 ∨ q.sizeBytes = 0) :=
      fun q hq hn => hp.disjoint_iff (hlive q hq) hn
    unfold DisjointAddresses PlacementEffect.apply
    rw [List.pairwise_cons]
    constructor
    · rintro ⟨h, -⟩ p' hp' hsize q hq hn
      cases hp'
      exact ((hiff q hq hn.symm).mp (h q hq hn.symm)).resolve_left hsize
    · intro h
      refine ⟨fun q hq hn => (hiff q hq hn).mpr ?_, hd⟩
      by_cases hsize : p.sizeBytes = 0
      · exact .inl hsize
      · exact .inr (h p rfl hsize q hq hn.symm)
  | freed nodeId sizeBytes =>
    exact iff_of_true (hd.sublist List.eraseP_sublist) fun p hp => by cases hp
  | silent => exact iff_of_true hd fun p hp => by cases hp

/-- Live placements share no address throughout a run exactly if no placement of it goes to a node
that has a live one. -/
theorem disjointAddresses_iff (policy : SchedulingPolicy) (shardCount : UInt64)
    (calls : List SchedulerCall) :
    (∀ as, as <+: calls → DisjointAddresses
      (live (trace ClusterScheduler.step (.new policy shardCount) as))) ↔
      Along PlacesApart ClusterScheduler.step (.new policy shardCount) calls := by
  refine forall_prefix_iff_along_history
    (I := fun h _ => DisjointAddresses (live h) ∧ ∀ p ∈ live h, p.AtNode)
    (P := fun h _ => DisjointAddresses (live h)) ?_ (fun _ _ h => h.1) ?_ ?_ calls
    (along_true _ _ _)
  · exact ⟨List.Pairwise.nil, by simp [live]⟩
  · intro h s c ⟨hd, hat⟩ _ hc
    rw [live_concat]
    refine ⟨(disjoint_apply_iff hat hd fun p => ClusterScheduler.atNode_of_step).mpr
      (placesApart_iff.mpr hc), ?_⟩
    intro p hp
    rcases PlacementEffect.mem_of_mem_apply hp with he | hp
    · exact ClusterScheduler.atNode_of_step he
    · exact hat p hp
  · intro h s c ⟨hd, hat⟩ _ hp
    rw [live_concat] at hp
    exact placesApart_iff.mp ((disjoint_apply_iff hat hd fun p => ClusterScheduler.atNode_of_step).mp hp)

/-- Two allocations on the only node of a cluster. -/
theorem disjointAddresses_fails_on_second_allocation :
    ¬ ∀ (policy : SchedulingPolicy) (shardCount : UInt64) (calls : List SchedulerCall),
      DisjointAddresses (live (trace ClusterScheduler.step (.new policy shardCount) calls)) := by
  intro h
  have hpair : DisjointAddresses [⟨⟨1⟩, 0, 0x800f00000000, 1024, 1⟩, ⟨⟨1⟩, 0, 0x800f00000000, 1024, 1⟩] :=
    h .leastLoaded 64 [.registerNode (.new ⟨1⟩ 10737418240 2),
      .scheduleAllocation (fun _ => 0) 1024 none, .scheduleAllocation (fun _ => 0) 1024 none]
  have hdisjoint := (List.pairwise_cons.mp hpair).1 _ List.mem_cons_self rfl
  rw [PlacementDecision.AtNode.disjoint_iff (by rfl) (by rfl) rfl] at hdisjoint
  exact absurd hdisjoint (by decide)

end Virthub.Master
