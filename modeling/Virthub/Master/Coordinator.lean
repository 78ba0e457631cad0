import Virthub.Lib.Map
import Virthub.Lib.Trace
import Mathlib.Algebra.Ring.Nat
import Mathlib.Data.List.Perm.Subperm

/-! The master coordinator: the table of cluster nodes with their heartbeats. Every call holds the
write lock. Instants are nanoseconds of one clock, which an eviction reads once for each node it
looks at. -/
namespace Virthub.Master
open Virthub.Lib

inductive MasterError where
  | nodeAlreadyExists (nodeId : UInt32)
  | nodeNotFound (nodeId : UInt32)
  deriving DecidableEq, Repr

structure NodeDescriptor where
  nodeId : UInt32
  endpointAddr : String
  lastHeartbeat : ℕ
  isActive : Bool
  deriving DecidableEq, Repr

structure MasterCoordinatorConfig where
  heartbeatTimeoutMs : UInt64
  deriving DecidableEq, Repr

structure CoordinatorMetrics where
  totalRegistrations : UInt64
  totalHeartbeats : UInt64
  totalEvictions : UInt64
  deriving DecidableEq, Repr

structure MasterCoordinator where
  config : MasterCoordinatorConfig
  nodes : AList fun _ : UInt32 => NodeDescriptor
  activeCount : UInt64
  metrics : CoordinatorMetrics

namespace MasterCoordinator

def new (config : MasterCoordinatorConfig) : MasterCoordinator := ⟨config, ∅, 0, ⟨0, 0, 0⟩⟩

def registerNode (self : MasterCoordinator) (nodeId : UInt32) (endpointAddr : String) (now : ℕ) :
    Except MasterError Unit × MasterCoordinator :=
  match self.nodes.lookup nodeId with
  | some _ => (.error (.nodeAlreadyExists nodeId), self)
  | none =>
    (.ok (), { self with
      nodes := self.nodes.insert nodeId ⟨nodeId, endpointAddr, now, true⟩
      activeCount := self.activeCount + 1
      metrics := { self.metrics with totalRegistrations := self.metrics.totalRegistrations + 1 } })

def recordHeartbeat (self : MasterCoordinator) (nodeId : UInt32) (now : ℕ) :
    Except MasterError Unit × MasterCoordinator :=
  match self.nodes.lookup nodeId with
  | none => (.error (.nodeNotFound nodeId), self)
  | some node =>
    (.ok (), { self with
      nodes := self.nodes.insert nodeId { node with lastHeartbeat := now, isActive := true }
      activeCount := if node.isActive then self.activeCount else self.activeCount + 1
      metrics := { self.metrics with totalHeartbeats := self.metrics.totalHeartbeats + 1 } })

def activeNodeCount (self : MasterCoordinator) : UInt64 := self.activeCount

/-- The heartbeat timeout in nanoseconds. -/
def timeout (self : MasterCoordinator) : ℕ := self.config.heartbeatTimeoutMs.toNat * 1000000

def IsStale (self : MasterCoordinator) (clock : UInt32 → ℕ) (id : UInt32) (desc : NodeDescriptor) :
    Bool := desc.isActive && clock id - desc.lastHeartbeat > self.timeout

/-- The stale nodes, in the order in which the table is visited. -/
def staleIds (self : MasterCoordinator) (clock rank : UInt32 → ℕ) : List UInt32 :=
  ((visit rank self.nodes).filter fun entry => self.IsStale clock entry.1 entry.2).map Sigma.fst

def markInactive (nodes : AList fun _ : UInt32 => NodeDescriptor) (id : UInt32) :
    AList fun _ : UInt32 => NodeDescriptor :=
  match nodes.lookup id with
  | some desc => nodes.insert id { desc with isActive := false }
  | none => nodes

def evictStaleNodes (self : MasterCoordinator) (clock rank : UInt32 → ℕ) :
    List UInt32 × MasterCoordinator :=
  let staleIds := self.staleIds clock rank
  let nodes := eraseAll staleIds (staleIds.foldl markInactive self.nodes)
  (staleIds, if staleIds = [] then { self with nodes := nodes } else { self with
    nodes := nodes
    activeCount := self.activeCount - staleIds.length.toUInt64
    metrics := { self.metrics with
      totalEvictions := self.metrics.totalEvictions + staleIds.length.toUInt64 } })

def removeNode (self : MasterCoordinator) (nodeId : UInt32) :
    Except MasterError Unit × MasterCoordinator :=
  match self.nodes.lookup nodeId with
  | none => (.error (.nodeNotFound nodeId), self)
  | some desc =>
    (.ok (), { self with
      nodes := self.nodes.erase nodeId
      activeCount := if desc.isActive then self.activeCount - 1 else self.activeCount })

end MasterCoordinator

inductive CoordinatorCall where
  | registerNode (nodeId : UInt32) (endpointAddr : String) (now : ℕ)
  | recordHeartbeat (nodeId : UInt32) (now : ℕ)
  | evictStaleNodes (clock rank : UInt32 → ℕ)
  | removeNode (nodeId : UInt32)

inductive CoordinatorAnswer where
  | done (result : Except MasterError Unit)
  | evicted (ids : List UInt32)

def coordinatorStep (c : MasterCoordinator) : CoordinatorCall → CoordinatorAnswer × MasterCoordinator
  | .registerNode nodeId endpointAddr now =>
    (.done (c.registerNode nodeId endpointAddr now).1, (c.registerNode nodeId endpointAddr now).2)
  | .recordHeartbeat nodeId now =>
    (.done (c.recordHeartbeat nodeId now).1, (c.recordHeartbeat nodeId now).2)
  | .evictStaleNodes clock rank =>
    (.evicted (c.evictStaleNodes clock rank).1, (c.evictStaleNodes clock rank).2)
  | .removeNode nodeId => (.done (c.removeNode nodeId).1, (c.removeNode nodeId).2)

abbrev CoordinatorEvent := Event MasterCoordinator CoordinatorCall CoordinatorAnswer

/-- What the answers of a run say about the cluster. -/
structure Ledger where
  /-- When a node last registered or sent a heartbeat. -/
  lastSeen : UInt32 → ℕ
  registrations : ℕ
  evictions : ℕ
  removals : ℕ

def recordMembership (l : Ledger) (e : CoordinatorEvent) : Ledger :=
  match e.call, e.answer with
  | .registerNode nodeId _ now, .done (.ok ()) =>
    { l with lastSeen := Function.update l.lastSeen nodeId now, registrations := l.registrations + 1 }
  | .recordHeartbeat nodeId now, .done (.ok ()) =>
    { l with lastSeen := Function.update l.lastSeen nodeId now }
  | .evictStaleNodes _ _, .evicted ids => { l with evictions := l.evictions + ids.length }
  | .removeNode _, .done (.ok ()) => { l with removals := l.removals + 1 }
  | _, _ => l

def ledgerOf (h : List CoordinatorEvent) : Ledger := h.foldl recordMembership ⟨fun _ => 0, 0, 0, 0⟩

theorem ledgerOf_concat (h : List CoordinatorEvent) (e : CoordinatorEvent) :
    ledgerOf (h ++ [e]) = recordMembership (ledgerOf h) e := by
  simp [ledgerOf]

/-- The nodes that an event takes off the active counter. -/
def released (e : CoordinatorEvent) : ℕ :=
  match e.call, e.answer with
  | .evictStaleNodes _ _, .evicted ids => ids.length
  | .removeNode _, .done (.ok ()) => 1
  | _, _ => 0

/-- The table and the counters, against the ledger of the run. -/
structure Consistent (config : MasterCoordinatorConfig) (l : Ledger) (c : MasterCoordinator) : Prop where
  sameConfig : c.config = config
  node : ∀ id desc, c.nodes.lookup id = some desc →
    desc.isActive = true ∧ desc.lastHeartbeat = l.lastSeen id
  active : c.activeNodeCount.toNat = c.nodes.keys.length
  total : l.registrations = c.nodes.keys.length + l.evictions + l.removals
  registrations : c.metrics.totalRegistrations = UInt64.ofNat l.registrations
  evictions : c.metrics.totalEvictions = UInt64.ofNat l.evictions

/-- A table has at most one node for each 32-bit number. -/
theorem length_keys_le (nodes : AList fun _ : UInt32 => NodeDescriptor) :
    nodes.keys.length ≤ 2 ^ 32 := by
  have hnodup : (nodes.keys.map UInt32.toNat).Nodup :=
    nodes.keys_nodup.map fun _ _ => UInt32.toNat_inj.mp
  have hsub : nodes.keys.map UInt32.toNat ⊆ List.range (2 ^ 32) := by
    intro n hn
    obtain ⟨id, -, rfl⟩ := List.mem_map.mp hn
    exact List.mem_range.mpr id.toNat_lt
  simpa using (List.subperm_of_subset hnodup hsub).length_le

namespace MasterCoordinator

theorem mem_staleIds {self : MasterCoordinator} {clock rank : UInt32 → ℕ} {id : UInt32} :
    id ∈ self.staleIds clock rank ↔
      ∃ desc, self.nodes.lookup id = some desc ∧ self.IsStale clock id desc := by
  unfold staleIds
  constructor
  · intro h
    obtain ⟨⟨i, desc⟩, he, rfl⟩ := List.mem_map.mp h
    obtain ⟨hv, hs⟩ := List.mem_filter.mp he
    exact ⟨desc, mem_visit.mp hv, hs⟩
  · rintro ⟨desc, hl, hs⟩
    exact List.mem_map.mpr ⟨⟨id, desc⟩, List.mem_filter.mpr ⟨mem_visit.mpr hl, hs⟩, rfl⟩

theorem nodup_staleIds (self : MasterCoordinator) (clock rank : UInt32 → ℕ) :
    (self.staleIds clock rank).Nodup :=
  (nodup_keys_visit rank self.nodes).sublist (List.filter_sublist.map Sigma.fst)

theorem markInactive_spec (nodes : AList fun _ : UInt32 => NodeDescriptor) (id : UInt32) :
    (markInactive nodes id).keys.length = nodes.keys.length ∧
      (∀ k, k ∈ markInactive nodes id ↔ k ∈ nodes) ∧
      ∀ k, k ≠ id → (markInactive nodes id).lookup k = nodes.lookup k := by
  unfold markInactive
  cases hl : nodes.lookup id with
  | none => exact ⟨rfl, fun k => Iff.rfl, fun k _ => rfl⟩
  | some desc =>
    have hm : id ∈ nodes := mem_of_lookup hl
    refine ⟨length_keys_insert_of_mem hm _, fun k => ?_, fun k hk => AList.lookup_insert_ne hk⟩
    rw [AList.mem_insert]
    constructor
    · rintro (rfl | hk)
      · exact hm
      · exact hk
    · exact .inr

theorem foldl_markInactive_spec (ids : List UInt32) (nodes : AList fun _ : UInt32 => NodeDescriptor) :
    (ids.foldl markInactive nodes).keys.length = nodes.keys.length ∧
      (∀ k, k ∈ ids.foldl markInactive nodes ↔ k ∈ nodes) ∧
      ∀ k, k ∉ ids → (ids.foldl markInactive nodes).lookup k = nodes.lookup k := by
  induction ids generalizing nodes with
  | nil => exact ⟨rfl, fun k => Iff.rfl, fun k _ => rfl⟩
  | cons id ids ih =>
    obtain ⟨hlen, hmem, hlook⟩ := ih (markInactive nodes id)
    obtain ⟨hlen', hmem', hlook'⟩ := markInactive_spec nodes id
    refine ⟨hlen.trans hlen', fun k => (hmem k).trans (hmem' k), fun k hk => ?_⟩
    obtain ⟨hne, hk⟩ := not_or.mp (mt List.mem_cons.mpr hk)
    exact (hlook k hk).trans (hlook' k hne)

/-- An eviction erases the stale nodes and counts them. -/
theorem evictStaleNodes_spec (self : MasterCoordinator) (clock rank : UInt32 → ℕ) :
    (∀ k, (self.evictStaleNodes clock rank).2.nodes.lookup k =
        if k ∈ self.staleIds clock rank then none else self.nodes.lookup k) ∧
      (self.evictStaleNodes clock rank).2.nodes.keys.length + (self.staleIds clock rank).length =
        self.nodes.keys.length ∧
      (self.evictStaleNodes clock rank).2.activeCount =
        self.activeCount - (self.staleIds clock rank).length.toUInt64 ∧
      (self.evictStaleNodes clock rank).2.metrics = { self.metrics with
        totalEvictions := self.metrics.totalEvictions + (self.staleIds clock rank).length.toUInt64 } ∧
      (self.evictStaleNodes clock rank).2.config = self.config := by
  obtain ⟨hlen, hmem, hlook⟩ := foldl_markInactive_spec (self.staleIds clock rank) self.nodes
  have hnodes : (self.evictStaleNodes clock rank).2.nodes = eraseAll (self.staleIds clock rank)
      ((self.staleIds clock rank).foldl markInactive self.nodes) := by
    unfold evictStaleNodes
    dsimp only
    split_ifs <;> rfl
  refine ⟨fun k => ?_, ?_, ?_, ?_, ?_⟩
  · rw [hnodes, lookup_eraseAll]
    split_ifs with hk
    · rfl
    · exact hlook k hk
  · rw [hnodes, ← hlen]
    refine length_keys_eraseAll (self.nodup_staleIds clock rank) fun k hk => ?_
    obtain ⟨desc, hl, -⟩ := mem_staleIds.mp hk
    exact (hmem k).mpr (mem_of_lookup hl)
  all_goals
    unfold evictStaleNodes
    dsimp only
    split_ifs with h0
  · simp [h0]
  · rfl
  · simp [h0]
  · rfl
  · rfl
  · rfl

end MasterCoordinator

/-- What an eviction owes the cluster: it names and erases the nodes that have not been seen for longer
than the timeout, and leaves the others as they are. -/
structure EvictsStale (timeout : ℕ) (l : Ledger) (clock : UInt32 → ℕ) (pre post : MasterCoordinator)
    (ids : List UInt32) : Prop where
  nodup : ids.Nodup
  stale : ∀ id, id ∈ ids ↔ id ∈ pre.nodes ∧ timeout < clock id - l.lastSeen id
  erased : ∀ id ∈ ids, post.nodes.lookup id = none
  kept : ∀ id ∉ ids, post.nodes.lookup id = pre.nodes.lookup id

theorem toUInt64_ofNat_add_one (n : ℕ) : UInt64.ofNat n + 1 = UInt64.ofNat (n + 1) := by
  rw [UInt64.ofNat_add]
  rfl

namespace Consistent

variable {config : MasterCoordinatorConfig} {l : Ledger} {c : MasterCoordinator}

theorem mem_staleIds_iff (h : Consistent config l c) {clock rank : UInt32 → ℕ} {id : UInt32} :
    id ∈ c.staleIds clock rank ↔
      id ∈ c.nodes ∧ (MasterCoordinator.new config).timeout < clock id - l.lastSeen id := by
  have htimeout : c.timeout = (MasterCoordinator.new config).timeout := by
    unfold MasterCoordinator.timeout
    rw [h.sameConfig]
    rfl
  rw [MasterCoordinator.mem_staleIds, ← htimeout, ← AList.lookup_isSome, Option.isSome_iff_exists]
  constructor
  · rintro ⟨desc, hl, hs⟩
    obtain ⟨ha, ht⟩ := h.node id desc hl
    exact ⟨⟨desc, hl⟩, by simpa [MasterCoordinator.IsStale, ha, ht] using hs⟩
  · rintro ⟨⟨desc, hl⟩, hs⟩
    obtain ⟨ha, ht⟩ := h.node id desc hl
    exact ⟨desc, hl, by simpa [MasterCoordinator.IsStale, ha, ht] using hs⟩

theorem registerNode (h : Consistent config l c) (nodeId : UInt32) (endpointAddr : String) (now : ℕ) :
    Consistent config
      (recordMembership l (event coordinatorStep c (.registerNode nodeId endpointAddr now)))
      (coordinatorStep c (.registerNode nodeId endpointAddr now)).2 := by
  cases hl : c.nodes.lookup nodeId with
  | some desc =>
    simpa [event, coordinatorStep, MasterCoordinator.registerNode, hl, recordMembership] using h
  | none =>
    have hnot : nodeId ∉ c.nodes := AList.lookup_eq_none.mp hl
    have hlen := length_keys_insert_of_notMem hnot ⟨nodeId, endpointAddr, now, true⟩
    have hbound := length_keys_le (c.nodes.insert nodeId ⟨nodeId, endpointAddr, now, true⟩)
    have hactive := h.active
    simp only [event, coordinatorStep, MasterCoordinator.registerNode, hl, recordMembership]
    refine ⟨h.sameConfig, fun id desc hd => ?_, ?_, ?_, ?_, h.evictions⟩
    · rcases lookup_insert_eq_some_iff.mp hd with ⟨rfl, rfl⟩ | ⟨hne, hd⟩
      · simp
      · simpa [hne] using h.node id desc hd
    · unfold MasterCoordinator.activeNodeCount at hactive ⊢
      dsimp only
      rw [UInt64.toNat_add, UInt64.toNat_one, hlen, Nat.mod_eq_of_lt (by omega), hactive]
    · have htotal := h.total
      dsimp only
      omega
    · dsimp only
      rw [h.registrations, toUInt64_ofNat_add_one]

theorem recordHeartbeat (h : Consistent config l c) (nodeId : UInt32) (now : ℕ) :
    Consistent config (recordMembership l (event coordinatorStep c (.recordHeartbeat nodeId now)))
      (coordinatorStep c (.recordHeartbeat nodeId now)).2 := by
  cases hl : c.nodes.lookup nodeId with
  | none =>
    simpa [event, coordinatorStep, MasterCoordinator.recordHeartbeat, hl, recordMembership] using h
  | some node =>
    have hmem : nodeId ∈ c.nodes := mem_of_lookup hl
    have hlen := length_keys_insert_of_mem hmem { node with lastHeartbeat := now, isActive := true }
    have hactive := (h.node nodeId node hl).1
    simp only [event, coordinatorStep, MasterCoordinator.recordHeartbeat, hl, recordMembership,
      hactive, if_true]
    refine ⟨h.sameConfig, fun id desc hd => ?_, h.active.trans hlen.symm, ?_, h.registrations,
      h.evictions⟩
    · rcases lookup_insert_eq_some_iff.mp hd with ⟨rfl, rfl⟩ | ⟨hne, hd⟩
      · simp
      · simpa [hne] using h.node id desc hd
    · dsimp only
      rw [hlen]
      exact h.total

theorem removeNode (h : Consistent config l c) (nodeId : UInt32) :
    Consistent config (recordMembership l (event coordinatorStep c (.removeNode nodeId)))
        (coordinatorStep c (.removeNode nodeId)).2 ∧
      released (event coordinatorStep c (.removeNode nodeId)) ≤ c.activeNodeCount.toNat := by
  cases hl : c.nodes.lookup nodeId with
  | none =>
    simpa [event, coordinatorStep, MasterCoordinator.removeNode, hl, recordMembership, released] using h
  | some desc =>
    have hmem : nodeId ∈ c.nodes := mem_of_lookup hl
    have hlen := length_keys_erase_of_mem hmem
    have hactive := h.active
    have hdesc := (h.node nodeId desc hl).1
    simp only [event, coordinatorStep, MasterCoordinator.removeNode, hl, recordMembership, released,
      hdesc, if_true]
    refine ⟨⟨h.sameConfig, fun id d hd => ?_, ?_, ?_, h.registrations, h.evictions⟩, by omega⟩
    · exact h.node id d (lookup_erase_eq_some_iff.mp hd).2
    · unfold MasterCoordinator.activeNodeCount at hactive ⊢
      have hone : (1 : UInt64) ≤ c.activeCount := UInt64.le_iff_toNat_le.mpr (by
        rw [UInt64.toNat_one]
        omega)
      dsimp only
      rw [UInt64.toNat_sub_of_le _ _ hone, UInt64.toNat_one]
      omega
    · have htotal := h.total
      dsimp only
      omega

theorem evictStaleNodes (h : Consistent config l c) (clock rank : UInt32 → ℕ) :
    Consistent config (recordMembership l (event coordinatorStep c (.evictStaleNodes clock rank)))
        (coordinatorStep c (.evictStaleNodes clock rank)).2 ∧
      released (event coordinatorStep c (.evictStaleNodes clock rank)) ≤ c.activeNodeCount.toNat ∧
      EvictsStale (MasterCoordinator.new config).timeout l clock c
        (c.evictStaleNodes clock rank).2 (c.staleIds clock rank) := by
  obtain ⟨hlook, hlen, hcount, hmetrics, hconfig⟩ := c.evictStaleNodes_spec clock rank
  have hactive := h.active
  have hbound := length_keys_le c.nodes
  have hlenNat : (c.staleIds clock rank).length.toUInt64.toNat = (c.staleIds clock rank).length := by
    rw [Nat.toUInt64_eq, UInt64.toNat_ofNat', Nat.mod_eq_of_lt (by omega)]
  have hle : (c.staleIds clock rank).length ≤ c.activeNodeCount.toNat := by omega
  refine ⟨⟨hconfig.trans h.sameConfig, fun id desc hd => ?_, ?_, ?_, ?_, ?_⟩, hle,
    c.nodup_staleIds clock rank, fun id => h.mem_staleIds_iff, fun id hid => ?_, fun id hid => ?_⟩
  · have hd : (if id ∈ c.staleIds clock rank then none else c.nodes.lookup id) = some desc :=
      (hlook id).symm.trans hd
    split_ifs at hd with hid
    exact h.node id desc hd
  · unfold MasterCoordinator.activeNodeCount at hactive hle ⊢
    have hle : (c.staleIds clock rank).length.toUInt64 ≤ c.activeCount := by
      rw [UInt64.le_iff_toNat_le, hlenNat]
      exact hle
    change (c.evictStaleNodes clock rank).2.activeCount.toNat =
      (c.evictStaleNodes clock rank).2.nodes.keys.length
    rw [hcount, UInt64.toNat_sub_of_le _ _ hle, hlenNat]
    omega
  · have htotal := h.total
    change l.registrations = (c.evictStaleNodes clock rank).2.nodes.keys.length +
      (l.evictions + (c.staleIds clock rank).length) + l.removals
    omega
  · change (c.evictStaleNodes clock rank).2.metrics.totalRegistrations = UInt64.ofNat l.registrations
    rw [hmetrics]
    exact h.registrations
  · change (c.evictStaleNodes clock rank).2.metrics.totalEvictions =
      UInt64.ofNat (l.evictions + (c.staleIds clock rank).length)
    rw [hmetrics, UInt64.ofNat_add, ← h.evictions]
  · rw [hlook, if_pos hid]
  · rw [hlook, if_neg hid]

/-- One call keeps the account, never takes more off the counter than it holds, and evicts what is
stale. -/
theorem step (h : Consistent config l c) (call : CoordinatorCall) :
    Consistent config (recordMembership l (event coordinatorStep c call)) (coordinatorStep c call).2 ∧
      released (event coordinatorStep c call) ≤ c.activeNodeCount.toNat ∧
      ∀ clock rank, call = .evictStaleNodes clock rank →
        ∃ ids, (coordinatorStep c call).1 = .evicted ids ∧
          EvictsStale (MasterCoordinator.new config).timeout l clock c (coordinatorStep c call).2 ids := by
  cases call with
  | registerNode nodeId endpointAddr now =>
    exact ⟨h.registerNode nodeId endpointAddr now, Nat.zero_le _, by simp⟩
  | recordHeartbeat nodeId now => exact ⟨h.recordHeartbeat nodeId now, Nat.zero_le _, by simp⟩
  | removeNode nodeId => exact ⟨(h.removeNode nodeId).1, (h.removeNode nodeId).2, by simp⟩
  | evictStaleNodes clock rank =>
    obtain ⟨hpost, hreleased, hstale⟩ := h.evictStaleNodes clock rank
    refine ⟨hpost, hreleased, ?_⟩
    rintro _ _ ⟨⟩
    exact ⟨_, rfl, hstale⟩

end Consistent

theorem consistent_new (config : MasterCoordinatorConfig) :
    Consistent config (ledgerOf []) (.new config) where
  sameConfig := rfl
  node id desc h := by cases h
  active := rfl
  total := rfl
  registrations := rfl
  evictions := rfl

end Virthub.Master
