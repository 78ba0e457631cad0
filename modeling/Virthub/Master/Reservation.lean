import Virthub.Master.Placement

/-! Concurrent allocations. The scan of the nodes and the reservation are two steps, and the reservation
does not look at the free memory again: it adds to whatever the counter holds by then. -/
namespace Virthub.Master
open Virthub.Klnk Virthub.Lib

/-- A call of `schedule_allocation` between its two steps. -/
structure PendingReservation where
  selectedId : NodeId
  sizeBytes : UInt64
  targetNumaHint : Option UInt32

/-- The scheduler and its callers. -/
structure Cluster where
  scheduler : ClusterScheduler
  pending : ℕ → Option PendingReservation

inductive ClusterCall where
  | scan (caller : ℕ) (rank : NodeId → ℕ) (sizeBytes : UInt64) (targetNumaHint : Option UInt32)
  | reserve (caller : ℕ)
  | release (nodeId : NodeId) (sizeBytes : UInt64)

/-- `waiting` is the answer to a step that does not end a call. -/
inductive ClusterAnswer where
  | waiting
  | scheduled (answer : Option (Except SchedulerError PlacementDecision))
  | released

namespace Cluster

def start (scheduler : ClusterScheduler) : Cluster := ⟨scheduler, fun _ => none⟩

def scan (self : Cluster) (caller : ℕ) (rank : NodeId → ℕ) (sizeBytes : UInt64)
    (targetNumaHint : Option UInt32) : ClusterAnswer × Cluster :=
  match self.pending caller, self.scheduler.scan rank sizeBytes targetNumaHint with
  | some _, _ => (.waiting, self)
  | none, (.error e, scheduler) => (.scheduled (some (.error e)), { self with scheduler })
  | none, (.ok selectedId, scheduler) =>
    (.waiting, ⟨scheduler,
      Function.update self.pending caller (some ⟨selectedId, sizeBytes, targetNumaHint⟩)⟩)

def reserve (self : Cluster) (caller : ℕ) : ClusterAnswer × Cluster :=
  match self.pending caller with
  | none => (.waiting, self)
  | some r =>
    let reserved := self.scheduler.reserve r.selectedId r.sizeBytes r.targetNumaHint
    (.scheduled reserved.1, ⟨reserved.2, Function.update self.pending caller none⟩)

def step (self : Cluster) : ClusterCall → ClusterAnswer × Cluster
  | .scan caller rank sizeBytes hint => self.scan caller rank sizeBytes hint
  | .reserve caller => self.reserve caller
  | .release nodeId sizeBytes =>
    (.released, { self with scheduler := self.scheduler.releaseAllocation nodeId sizeBytes })

/-- An idle caller whose two steps follow each other has made one call of `schedule_allocation`. -/
theorem scan_reserve_eq (self : Cluster) (caller : ℕ) (rank : NodeId → ℕ) (sizeBytes : UInt64)
    (hint : Option UInt32) (h : self.pending caller = none) :
    (exec step self [.scan caller rank sizeBytes hint, .reserve caller]).scheduler =
      (self.scheduler.scheduleAllocation rank sizeBytes hint).2 := by
  simp only [exec_cons, exec_nil, step, scan, reserve, ClusterScheduler.scheduleAllocation, h]
  rcases self.scheduler.scan rank sizeBytes hint with ⟨e | selectedId, scheduler⟩
  · simp only [h]
  · simp only [Function.update_self]

def effect (e : Event Cluster ClusterCall ClusterAnswer) : PlacementEffect :=
  match e.answer, e.call with
  | .scheduled answer, _ => .ofAnswer answer
  | .released, .release nodeId sizeBytes => .freed nodeId sizeBytes
  | _, _ => .silent

/-- The placements that are not yet released, after a start with some of them. -/
def liveFrom (initial : List PlacementDecision) (h : List (Event Cluster ClusterCall ClusterAnswer)) :
    List PlacementDecision :=
  (h.map effect).foldl PlacementEffect.apply initial

theorem liveFrom_concat (initial : List PlacementDecision)
    (h : List (Event Cluster ClusterCall ClusterAnswer)) (e : Event Cluster ClusterCall ClusterAnswer) :
    liveFrom initial (h ++ [e]) = (effect e).apply (liveFrom initial h) := by
  simp [liveFrom]

end Cluster

def liveBytes (nodeId : NodeId) (live : List PlacementDecision) : ℕ :=
  ((live.filter fun p => p.selectedNodeId = nodeId).map fun p => p.sizeBytes.toNat).sum

@[simp] theorem liveBytes_cons (nodeId : NodeId) (p : PlacementDecision)
    (live : List PlacementDecision) :
    liveBytes nodeId (p :: live) =
      (if p.selectedNodeId = nodeId then p.sizeBytes.toNat else 0) + liveBytes nodeId live := by
  unfold liveBytes
  rw [List.filter_cons]
  by_cases h : p.selectedNodeId = nodeId <;> simp [h]

theorem liveBytes_append (nodeId : NodeId) (l₁ l₂ : List PlacementDecision) :
    liveBytes nodeId (l₁ ++ l₂) = liveBytes nodeId l₁ + liveBytes nodeId l₂ := by
  simp [liveBytes]

theorem liveBytes_freed {live : List PlacementDecision} {p : PlacementDecision} (hp : p ∈ live)
    (nodeId : NodeId) :
    liveBytes nodeId live = (if p.selectedNodeId = nodeId then p.sizeBytes.toNat else 0) +
      liveBytes nodeId ((PlacementEffect.freed p.selectedNodeId p.sizeBytes).apply live) := by
  obtain ⟨q, l₁, l₂, -, hq, hlive, herase⟩ := List.exists_of_eraseP
    (p := fun q => decide (q.selectedNodeId = p.selectedNodeId ∧ q.sizeBytes = p.sizeBytes)) hp
    (by simp)
  obtain ⟨hnode, hsize⟩ := of_decide_eq_true hq
  simp only [PlacementEffect.apply]
  rw [herase, hlive, liveBytes_append, liveBytes_append, liveBytes_cons, hnode, hsize]
  omega

/-- No node is over-committed, and each counter is the sum of the live placements on its node. -/
def ClusterScheduler.Accounted (s : ClusterScheduler) (live : List PlacementDecision) : Prop :=
  ∀ nodeId node, s.nodes.lookup nodeId = some node →
    node.allocatedMemoryBytes.toNat ≤ node.totalMemoryBytes.toNat ∧
      node.allocatedMemoryBytes.toNat = liveBytes nodeId live

namespace ClusterScheduler

theorem scan_nodes (s : ClusterScheduler) (rank : NodeId → ℕ) (sizeBytes : UInt64)
    (hint : Option UInt32) : (s.scan rank sizeBytes hint).2.nodes = s.nodes := by
  unfold scan
  dsimp only
  cases s.select (s.candidates rank sizeBytes hint) with
  | none => rfl
  | some c =>
    dsimp only
    split_ifs <;> rfl

theorem scan_shardCount (s : ClusterScheduler) (rank : NodeId → ℕ) (sizeBytes : UInt64)
    (hint : Option UInt32) : (s.scan rank sizeBytes hint).2.shardCount = s.shardCount := by
  unfold scan
  dsimp only
  cases s.select (s.candidates rank sizeBytes hint) with
  | none => rfl
  | some c =>
    dsimp only
    split_ifs <;> rfl

theorem Accounted.of_nodes {s t : ClusterScheduler} {live : List PlacementDecision}
    (h : s.Accounted live) (hn : t.nodes = s.nodes) : t.Accounted live := by
  unfold Accounted
  rw [hn]
  exact h

/-- A reservation finds room on its node. Without shards it aborts after it has raised the counter,
which does no harm only if it raises it by zero. -/
def HasRoom (s : ClusterScheduler) (selectedId : NodeId) (sizeBytes : UInt64) : Prop :=
  ∀ node, s.nodes.lookup selectedId = some node →
    node.allocatedMemoryBytes.toNat + sizeBytes.toNat ≤ node.totalMemoryBytes.toNat ∧
      (s.shardCount = 0 → sizeBytes = 0)

theorem liveBytes_reserve {s : ClusterScheduler} {selectedId : NodeId} {node : NodeResourceCapacity}
    (hl : s.nodes.lookup selectedId = some node) (sizeBytes : UInt64) (hint : Option UInt32)
    (live : List PlacementDecision) (nodeId : NodeId) :
    liveBytes nodeId ((PlacementEffect.ofAnswer (s.reserve selectedId sizeBytes hint).1).apply live) =
      (if s.shardCount ≠ 0 ∧ selectedId = nodeId then sizeBytes.toNat else 0) +
        liveBytes nodeId live := by
  unfold reserve
  rw [hl]
  by_cases hs : s.shardCount = 0
  · simp [hs, PlacementEffect.ofAnswer, PlacementEffect.apply]
  · simp [hs, PlacementEffect.ofAnswer, PlacementEffect.apply]

theorem lookup_reserve {s : ClusterScheduler} {selectedId : NodeId} {node : NodeResourceCapacity}
    (hl : s.nodes.lookup selectedId = some node) (sizeBytes : UInt64) (hint : Option UInt32)
    (nodeId : NodeId) :
    (s.reserve selectedId sizeBytes hint).2.nodes.lookup nodeId =
      if nodeId = selectedId then
        some { node with allocatedMemoryBytes := node.allocatedMemoryBytes + sizeBytes }
      else s.nodes.lookup nodeId := by
  have hnodes : (s.reserve selectedId sizeBytes hint).2.nodes = s.nodes.insert selectedId
      { node with allocatedMemoryBytes := node.allocatedMemoryBytes + sizeBytes } := by
    unfold reserve
    rw [hl]
    dsimp only
    split_ifs <;> rfl
  rw [hnodes]
  split_ifs with h
  · rw [h, AList.lookup_insert]
  · rw [AList.lookup_insert_ne h]

/-- A reservation keeps the accounts exactly if it finds room. -/
theorem Accounted.reserve_iff {s : ClusterScheduler} {live : List PlacementDecision}
    (h : s.Accounted live) (selectedId : NodeId) (sizeBytes : UInt64) (hint : Option UInt32) :
    (s.reserve selectedId sizeBytes hint).2.Accounted
      ((PlacementEffect.ofAnswer (s.reserve selectedId sizeBytes hint).1).apply live) ↔
      s.HasRoom selectedId sizeBytes := by
  cases hl : s.nodes.lookup selectedId with
  | none =>
    have hreserve : s.reserve selectedId sizeBytes hint =
        (some (.error (.nodeNotFound selectedId)), s) := by
      unfold reserve
      rw [hl]
    rw [hreserve]
    refine iff_of_true h fun node hnode => ?_
    rw [hl] at hnode
    cases hnode
  | some node =>
    obtain ⟨hle, heq⟩ := h selectedId node hl
    have hbytes := liveBytes_reserve hl sizeBytes hint live
    have hlookup := lookup_reserve hl sizeBytes hint
    have hadd := UInt64.toNat_add node.allocatedMemoryBytes sizeBytes
    have htotal := node.totalMemoryBytes.toNat_lt
    constructor
    · intro h' node' hnode'
      obtain rfl : node = node' := Option.some.inj (hl.symm.trans hnode')
      obtain ⟨hle', heq'⟩ := h' selectedId _ ((hlookup selectedId).trans (if_pos rfl))
      rw [hbytes] at heq'
      dsimp only at hle' heq'
      by_cases hs : s.shardCount = 0
      · -- the counter must not have moved
        rw [if_neg (by simp [hs])] at heq'
        have hzero : sizeBytes.toNat = 0 := by
          have := sizeBytes.toNat_lt
          omega
        exact ⟨by omega, fun _ => UInt64.toNat_inj.mp hzero⟩
      · rw [if_pos ⟨hs, rfl⟩] at heq'
        exact ⟨by omega, fun hz => absurd hz hs⟩
    · intro hroom nodeId node' hnode'
      obtain ⟨hfits, hzero⟩ := hroom node hl
      rw [hlookup] at hnode'
      rw [hbytes]
      split_ifs at hnode' with hid
      · cases hnode'
        dsimp only
        subst hid
        by_cases hs : s.shardCount = 0
        · have hz : sizeBytes.toNat = 0 := by rw [hzero hs, UInt64.toNat_zero]
          rw [if_neg (by simp [hs])]
          omega
        · rw [if_pos ⟨hs, rfl⟩]
          omega
      · rw [if_neg fun hc => hid hc.2.symm, zero_add]
        exact h nodeId node' hnode'

/-- As `Accounted`, after a start at which the counters stood at `base`. -/
def AccountedFrom (base : NodeId → ℕ) (s : ClusterScheduler) (live : List PlacementDecision) : Prop :=
  ∀ nodeId node, s.nodes.lookup nodeId = some node →
    node.allocatedMemoryBytes.toNat ≤ node.totalMemoryBytes.toNat ∧
      node.allocatedMemoryBytes.toNat = base nodeId + liveBytes nodeId live

theorem accountedFrom_zero_iff {s : ClusterScheduler} {live : List PlacementDecision} :
    AccountedFrom (fun _ => 0) s live ↔ s.Accounted live := by
  simp only [AccountedFrom, Accounted, zero_add]

theorem AccountedFrom.releaseAllocation {base : NodeId → ℕ} {s : ClusterScheduler}
    {live : List PlacementDecision} (h : AccountedFrom base s live) {p : PlacementDecision}
    (hp : p ∈ live) :
    AccountedFrom base (s.releaseAllocation p.selectedNodeId p.sizeBytes)
      ((PlacementEffect.freed p.selectedNodeId p.sizeBytes).apply live) := by
  have hbytes := liveBytes_freed hp
  intro nodeId node hnode
  unfold ClusterScheduler.releaseAllocation at hnode
  have hb := hbytes nodeId
  cases hl : s.nodes.lookup p.selectedNodeId with
  | none =>
    rw [hl] at hnode
    have hne : p.selectedNodeId ≠ nodeId := by
      rintro rfl
      rw [hl] at hnode
      cases hnode
    rw [if_neg hne, zero_add] at hb
    rw [← hb]
    exact h nodeId node hnode
  | some old =>
    rw [hl] at hnode
    dsimp only at hnode
    by_cases hid : nodeId = p.selectedNodeId
    · rw [hid, AList.lookup_insert] at hnode
      cases hnode
      obtain ⟨hle, heq⟩ := h _ old hl
      rw [if_pos hid.symm] at hb
      rw [← hid] at heq
      -- a live placement is no larger than what its node has allocated
      have hge : p.sizeBytes.toNat ≤ old.allocatedMemoryBytes.toNat := by omega
      have hge' : old.allocatedMemoryBytes ≥ p.sizeBytes := UInt64.le_iff_toNat_le.mpr hge
      dsimp only
      rw [if_pos hge', UInt64.toNat_sub_of_le _ _ hge']
      omega
    · rw [AList.lookup_insert_ne hid] at hnode
      rw [if_neg (Ne.symm hid), zero_add] at hb
      rw [← hb]
      exact h nodeId node hnode

theorem Accounted.releaseAllocation {s : ClusterScheduler} {live : List PlacementDecision}
    (h : s.Accounted live) {p : PlacementDecision} (hp : p ∈ live) :
    (s.releaseAllocation p.selectedNodeId p.sizeBytes).Accounted
      ((PlacementEffect.freed p.selectedNodeId p.sizeBytes).apply live) :=
  accountedFrom_zero_iff.mp ((accountedFrom_zero_iff.mpr h).releaseAllocation hp)

/-- Every node is registered under its own identity. -/
def WellKeyed (s : ClusterScheduler) : Prop :=
  ∀ nodeId node, s.nodes.lookup nodeId = some node → node.nodeId = nodeId

end ClusterScheduler

namespace Cluster

def ReservesWithRoom (self : Cluster) : ClusterCall → Prop
  | .reserve caller =>
    ∀ r, self.pending caller = some r → self.scheduler.HasRoom r.selectedId r.sizeBytes
  | _ => True

def ReleasesLive (initial : List PlacementDecision)
    (h : List (Event Cluster ClusterCall ClusterAnswer)) (_ : Cluster) : ClusterCall → Prop
  | .release nodeId sizeBytes =>
    ∃ p ∈ liveFrom initial h, p.selectedNodeId = nodeId ∧ p.sizeBytes = sizeBytes
  | _ => True

theorem scan_effect (self : Cluster) (caller : ℕ) (rank : NodeId → ℕ) (sizeBytes : UInt64)
    (hint : Option UInt32) :
    (self.scan caller rank sizeBytes hint).2.scheduler.nodes = self.scheduler.nodes ∧
      effect (event step self (.scan caller rank sizeBytes hint)) = .silent := by
  have hnodes := self.scheduler.scan_nodes rank sizeBytes hint
  simp only [effect, event, step]
  unfold scan
  cases self.pending caller with
  | some r => exact ⟨rfl, rfl⟩
  | none =>
    rcases hscan : self.scheduler.scan rank sizeBytes hint with ⟨e | selectedId, scheduler⟩
    · rw [hscan] at hnodes
      exact ⟨hnodes, rfl⟩
    · rw [hscan] at hnodes
      exact ⟨hnodes, rfl⟩

/-- A step keeps the accounts exactly if it reserves with room. -/
theorem accounted_step_iff {self : Cluster} {live : List PlacementDecision}
    (h : self.scheduler.Accounted live) (c : ClusterCall)
    (hc : ∀ nodeId sizeBytes, c = .release nodeId sizeBytes →
      ∃ p ∈ live, p.selectedNodeId = nodeId ∧ p.sizeBytes = sizeBytes) :
    (self.step c).2.scheduler.Accounted ((effect (event step self c)).apply live) ↔
      self.ReservesWithRoom c := by
  cases c with
  | scan caller rank sizeBytes hint =>
    obtain ⟨hnodes, heffect⟩ := self.scan_effect caller rank sizeBytes hint
    rw [heffect]
    exact iff_of_true (h.of_nodes hnodes) trivial
  | reserve caller =>
    cases hp : self.pending caller with
    | none =>
      have hstep : self.step (.reserve caller) = (.waiting, self) := by
        simp only [step, reserve, hp]
      rw [event_eq hstep, hstep]
      refine iff_of_true h fun r hr => ?_
      rw [hp] at hr
      cases hr
    | some r =>
      have hstep : self.step (.reserve caller) =
          (.scheduled (self.scheduler.reserve r.selectedId r.sizeBytes r.targetNumaHint).1,
            ⟨(self.scheduler.reserve r.selectedId r.sizeBytes r.targetNumaHint).2,
              Function.update self.pending caller none⟩) := by
        simp only [step, reserve, hp]
      rw [event_eq hstep, hstep]
      refine (h.reserve_iff r.selectedId r.sizeBytes r.targetNumaHint).trans ?_
      simp only [ReservesWithRoom, hp, Option.some.injEq, forall_eq']
  | release nodeId sizeBytes =>
    obtain ⟨p, hp, rfl, rfl⟩ := hc nodeId sizeBytes rfl
    exact iff_of_true (h.releaseAllocation hp) trivial

/-- The counters of all nodes are right throughout a run of concurrent calls exactly if each
reservation finds room on its node at the moment it is made. -/
theorem accounted_iff (scheduler : ClusterScheduler) (initial : List PlacementDecision)
    (h0 : scheduler.Accounted initial) (calls : List ClusterCall)
    (hrelease : Along (ReleasesLive initial) step (start scheduler) calls) :
    (∀ as, as <+: calls → (exec step (start scheduler) as).scheduler.Accounted
      (liveFrom initial (trace step (start scheduler) as))) ↔
      Along (fun _ => ReservesWithRoom) step (start scheduler) calls := by
  have hiff : ∀ (h : List (Event Cluster ClusterCall ClusterAnswer)) (t : Cluster) (c : ClusterCall),
      t.scheduler.Accounted (liveFrom initial h) → ReleasesLive initial h t c →
      ((t.step c).2.scheduler.Accounted (liveFrom initial (h ++ [event step t c])) ↔
        t.ReservesWithRoom c) := by
    intro h t c hacc hc
    rw [liveFrom_concat]
    apply accounted_step_iff hacc
    rintro nodeId sizeBytes rfl
    exact hc
  exact forall_prefix_iff_along_history
    (I := fun h t => t.scheduler.Accounted (liveFrom initial h))
    (P := fun h t => t.scheduler.Accounted (liveFrom initial h)) h0 (fun _ _ h => h)
    (fun h t c hacc hd hc => (hiff h t c hacc hd).mpr hc)
    (fun h t c hacc hd hp => (hiff h t c hacc hd).mp hp) calls hrelease

def oneNode : ClusterScheduler := (ClusterScheduler.new .leastLoaded 64).registerNode (.new ⟨1⟩ 100 1)

theorem accounted_oneNode : oneNode.Accounted [] := by
  intro nodeId node hnode
  obtain rfl : nodeId = ⟨1⟩ := by
    by_contra hne
    have hnone : oneNode.nodes.lookup nodeId = none := AList.lookup_insert_ne hne
    rw [hnone] at hnode
    cases hnode
  obtain rfl : NodeResourceCapacity.new ⟨1⟩ 100 1 = node := Option.some.inj hnode
  decide

/-- Two callers scan one after the other and then reserve the other way round; there is room for both. -/
theorem accounted_iff_two_callers :
    oneNode.Accounted [] ∧
      ∀ as, as <+: [.scan 0 (fun _ => 0) 60 none, .scan 1 (fun _ => 0) 40 none, .reserve 1, .reserve 0] →
        (exec step (start oneNode) as).scheduler.Accounted
          (liveFrom [] (trace step (start oneNode) as)) := by
  refine ⟨accounted_oneNode, ?_⟩
  apply (accounted_iff oneNode [] accounted_oneNode _ ?_).mpr
  · simp only [along_cons, along_nil, and_true]
    refine ⟨trivial, trivial, ?_, ?_⟩
    · intro r hr
      obtain rfl : ⟨⟨1⟩, 40, none⟩ = r := Option.some.inj hr
      intro node hnode
      obtain rfl : NodeResourceCapacity.new ⟨1⟩ 100 1 = node := Option.some.inj hnode
      decide
    · intro r hr
      obtain rfl : ⟨⟨1⟩, 60, none⟩ = r := Option.some.inj hr
      intro node hnode
      obtain rfl : { NodeResourceCapacity.new ⟨1⟩ 100 1 with allocatedMemoryBytes := 40 } = node :=
        Option.some.inj hnode
      decide
  · simp only [along_cons, along_nil, and_true]
    exact ⟨trivial, trivial, trivial, trivial⟩

/-- Two callers that both scan before either reserves. -/
theorem accounted_fails_on_two_scans :
    ¬ ∀ (scheduler : ClusterScheduler) (initial : List PlacementDecision),
      scheduler.Accounted initial → ∀ calls, Along (ReleasesLive initial) step (start scheduler) calls →
        (exec step (start scheduler) calls).scheduler.Accounted
          (liveFrom initial (trace step (start scheduler) calls)) := by
  intro h
  have hacc := h oneNode [] accounted_oneNode [.scan 0 (fun _ => 0) 60 none,
    .scan 1 (fun _ => 0) 60 none, .reserve 0, .reserve 1] (by
      simp only [along_cons]
      exact ⟨trivial, trivial, trivial, trivial, along_nil _ _ _⟩)
  have hover : (120 : UInt64).toNat ≤ (100 : UInt64).toNat := (hacc ⟨1⟩ ⟨⟨1⟩, 100, 120, 1, true⟩ rfl).1
  exact absurd hover (by decide)

end Cluster

end Virthub.Master
