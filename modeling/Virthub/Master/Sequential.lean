import Virthub.Master.Reservation

/-! Allocations and releases that do not interrupt each other. The scan and the reservation of a call
then see the same counters, so the only thing that stands between a call and its purpose is the
rounding of the load ratios. -/
namespace Virthub.Master
open Virthub.Klnk Virthub.Lib

namespace NodeResourceCapacity

/-- The node is online, has the memory, and has the NUMA node of the hint. -/
def Eligible (self : NodeResourceCapacity) (sizeBytes : UInt64) (targetNumaHint : Option UInt32) :
    Prop :=
  self.isOnline = true ∧
    sizeBytes.toNat ≤ self.totalMemoryBytes.toNat - self.allocatedMemoryBytes.toNat ∧
      ∀ hint ∈ targetNumaHint, hint < self.numaNodes

instance (self : NodeResourceCapacity) (sizeBytes : UInt64) (targetNumaHint : Option UInt32) :
    Decidable (self.Eligible sizeBytes targetNumaHint) :=
  -- the hint is looked at, rather than all numbers of 32 bits
  letI : Decidable (∀ hint ∈ targetNumaHint, hint < self.numaNodes) :=
    Option.decidableForallMem targetNumaHint
  inferInstanceAs (Decidable (_ ∧ _ ∧ _))

def exactRatio (self : NodeResourceCapacity) : ℚ :=
  self.allocatedMemoryBytes.toNat / self.totalMemoryBytes.toNat

def toCandidate (self : NodeResourceCapacity) : Candidate :=
  ⟨self.nodeId, self.availableMemoryBytes, self.loadRatio, self.numaNodes⟩

theorem toNat_availableMemoryBytes (self : NodeResourceCapacity) :
    self.availableMemoryBytes.toNat =
      self.totalMemoryBytes.toNat - self.allocatedMemoryBytes.toNat := by
  unfold availableMemoryBytes
  split_ifs with h
  · exact UInt64.toNat_sub_of_le _ _ (UInt64.le_of_lt h)
  · have hle := UInt64.le_iff_toNat_le.mp (UInt64.not_lt.mp h)
    rw [UInt64.toNat_zero]
    omega

theorem candidate_eq (self : NodeResourceCapacity) (sizeBytes : UInt64)
    (targetNumaHint : Option UInt32) :
    self.candidate sizeBytes targetNumaHint =
      if self.Eligible sizeBytes targetNumaHint then some self.toCandidate else none := by
  have hroom : self.availableMemoryBytes < sizeBytes ↔
      ¬ sizeBytes.toNat ≤ self.totalMemoryBytes.toNat - self.allocatedMemoryBytes.toNat := by
    rw [UInt64.lt_iff_toNat_lt, toNat_availableMemoryBytes, Nat.not_le]
  have hnuma : (∃ hint ∈ targetNumaHint, self.numaNodes ≤ hint) ↔
      ¬ ∀ hint ∈ targetNumaHint, hint < self.numaNodes := by
    simp only [not_forall, exists_prop, UInt32.not_lt]
  unfold candidate
  simp only [hroom, hnuma]
  by_cases h : self.Eligible sizeBytes targetNumaHint
  · obtain ⟨honline, hfree, hhint⟩ := h
    rw [if_neg (not_not.mpr honline), if_neg (not_not.mpr hfree), if_neg (not_not.mpr hhint),
      if_pos ⟨honline, hfree, hhint⟩]
    rfl
  · rw [if_neg h]
    split_ifs with honline hfree hhint
    · exact h ⟨honline, hfree, hhint⟩
    · rfl
    · rfl
    · rfl

/-- Nodes of one size are told apart by their load ratios, up to a size of 8 PiB. -/
theorem loadRatio_lt_of_same_total {m n : NodeResourceCapacity}
    (hsame : m.totalMemoryBytes = n.totalMemoryBytes) (hsmall : n.totalMemoryBytes.toNat < 2 ^ 53)
    (hfits : n.allocatedMemoryBytes.toNat ≤ n.totalMemoryBytes.toNat)
    (hlt : m.exactRatio < n.exactRatio) : m.loadRatio < n.loadRatio := by
  unfold exactRatio at hlt
  rw [hsame] at hlt
  have hpos : 0 < n.totalMemoryBytes.toNat := by
    rw [Nat.pos_iff_ne_zero]
    intro hzero
    simp [hzero] at hlt
  have hpos' : (0 : ℚ) < n.totalMemoryBytes.toNat := by exact_mod_cast hpos
  rw [div_lt_div_iff_of_pos_right hpos', Nat.cast_lt] at hlt
  have hne : n.totalMemoryBytes ≠ 0 := by
    rw [Ne, ← UInt64.toNat_inj, UInt64.toNat_zero]
    omega
  unfold loadRatio
  rw [hsame, if_neg hne, if_neg hne, natToF64_of_lt hsmall, natToF64_of_lt (by omega),
    natToF64_of_lt (by omega)]
  exact ratToF64_div_lt hlt hfits hsmall

end NodeResourceCapacity

theorem argmin_map {α β γ : Type*} [LinearOrder γ] (f : β → γ) (g : α → β) (l : List α) :
    (l.map g).argmin f = (l.argmin (f ∘ g)).map g := by
  induction l using List.reverseRecOn with
  | nil => rfl
  | append_singleton l a ih =>
    rw [List.map_append, List.map_singleton, List.argmin_concat, List.argmin_concat, ih]
    cases l.argmin (f ∘ g) with
    | none => rfl
    | some c =>
      dsimp only [Option.map_some, Function.comp_apply]
      split_ifs <;> rfl

namespace ClusterScheduler

def eligible (self : ClusterScheduler) (rank : NodeId → ℕ) (sizeBytes : UInt64)
    (targetNumaHint : Option UInt32) : List NodeResourceCapacity :=
  ((visit rank self.nodes).map Sigma.snd).filter fun node => node.Eligible sizeBytes targetNumaHint

theorem mem_eligible {s : ClusterScheduler} {rank : NodeId → ℕ} {sizeBytes : UInt64}
    {hint : Option UInt32} {node : NodeResourceCapacity} :
    node ∈ s.eligible rank sizeBytes hint ↔
      (∃ nodeId, s.nodes.lookup nodeId = some node) ∧ node.Eligible sizeBytes hint := by
  unfold eligible
  rw [List.mem_filter, decide_eq_true_eq, List.mem_map]
  constructor
  · intro h
    obtain ⟨⟨⟨nodeId, node'⟩, hentry, rfl⟩, heligible⟩ := h
    exact ⟨⟨nodeId, mem_visit.mp hentry⟩, heligible⟩
  · intro h
    obtain ⟨⟨nodeId, hl⟩, heligible⟩ := h
    exact ⟨⟨⟨nodeId, node⟩, mem_visit.mpr hl, rfl⟩, heligible⟩

theorem candidates_eq (s : ClusterScheduler) (rank : NodeId → ℕ) (sizeBytes : UInt64)
    (hint : Option UInt32) :
    s.candidates rank sizeBytes hint =
      (s.eligible rank sizeBytes hint).map NodeResourceCapacity.toCandidate := by
  unfold candidates eligible
  generalize visit rank s.nodes = entries
  induction entries with
  | nil => rfl
  | cons entry entries ih =>
    rw [List.filterMap_cons, List.map_cons, List.filter_cons, NodeResourceCapacity.candidate_eq, ih]
    by_cases h : entry.2.Eligible sizeBytes hint
    · simp only [h, if_true, decide_true, List.map_cons]
    · simp only [h, if_false, decide_false, Bool.false_eq_true]

/-- A choice fails only if there is nothing to choose from. -/
theorem select_cases (s : ClusterScheduler) (nodes : List NodeResourceCapacity) :
    (nodes = [] ∧ s.select (nodes.map NodeResourceCapacity.toCandidate) = none) ∨
      ∃ node ∈ nodes, s.select (nodes.map NodeResourceCapacity.toCandidate) = some node.toCandidate ∧
        (s.policy = .leastLoaded → nodes.argmin NodeResourceCapacity.loadRatio = some node) := by
  unfold select
  cases hp : s.policy with
  | leastLoaded =>
    have hmap : (nodes.map NodeResourceCapacity.toCandidate).argmin Candidate.loadRatio =
        (nodes.argmin NodeResourceCapacity.loadRatio).map NodeResourceCapacity.toCandidate :=
      argmin_map _ _ _
    cases hmin : nodes.argmin NodeResourceCapacity.loadRatio with
    | none =>
      rw [hmin] at hmap
      exact .inl ⟨List.argmin_eq_none.mp hmin, hmap⟩
    | some node =>
      rw [hmin] at hmap
      exact .inr ⟨node, List.argmin_mem hmin, hmap, fun _ => rfl⟩
  | roundRobin =>
    cases nodes with
    | nil => exact .inl ⟨rfl, rfl⟩
    | cons node nodes =>
      have hlt : s.nextRrIndex.toNat % (node :: nodes).length < (node :: nodes).length :=
        Nat.mod_lt _ (Nat.succ_pos _)
      right
      refine ⟨_, List.getElem_mem hlt, ?_, fun h => by cases h⟩
      dsimp only
      rw [List.length_map, List.getElem?_map, List.getElem?_eq_getElem hlt, Option.map_some]
  | numaAffinity =>
    cases nodes with
    | nil => exact .inl ⟨rfl, rfl⟩
    | cons node nodes => exact .inr ⟨node, List.mem_cons_self, rfl, fun h => by cases h⟩

theorem scheduleAllocation_of_error {s : ClusterScheduler} {rank : NodeId → ℕ} {sizeBytes : UInt64}
    {hint : Option UInt32} (h : s.select (s.candidates rank sizeBytes hint) = none) :
    s.scheduleAllocation rank sizeBytes hint = (some (.error (.noNodeAvailable sizeBytes)), s) := by
  unfold scheduleAllocation scan
  dsimp only
  rw [h]

theorem scheduleAllocation_of_ok {s : ClusterScheduler} {rank : NodeId → ℕ} {sizeBytes : UInt64}
    {hint : Option UInt32} {c : Candidate} (h : s.select (s.candidates rank sizeBytes hint) = some c) :
    s.scheduleAllocation rank sizeBytes hint =
      (s.scan rank sizeBytes hint).2.reserve c.nodeId sizeBytes hint := by
  unfold scheduleAllocation scan
  dsimp only
  rw [h]

theorem reserve_of_lookup {s : ClusterScheduler} {selectedId : NodeId} {node : NodeResourceCapacity}
    (hl : s.nodes.lookup selectedId = some node) (hs : s.shardCount ≠ 0) (sizeBytes : UInt64)
    (hint : Option UInt32) :
    (s.reserve selectedId sizeBytes hint).1 = some (.ok ⟨selectedId, hint.getD 0, vaddrOf selectedId,
      sizeBytes, selectedId.id % s.shardCount⟩) ∧
      (s.reserve selectedId sizeBytes hint).2.shardCount = s.shardCount := by
  unfold reserve
  rw [hl]
  dsimp only
  rw [if_neg hs]
  exact ⟨rfl, rfl⟩

/-- What one uninterrupted call does. -/
theorem scheduleAllocation_cases {s : ClusterScheduler} (hk : s.WellKeyed) (hs : s.shardCount ≠ 0)
    (rank : NodeId → ℕ) (sizeBytes : UInt64) (hint : Option UInt32) :
    (s.eligible rank sizeBytes hint = [] ∧
      s.scheduleAllocation rank sizeBytes hint = (some (.error (.noNodeAvailable sizeBytes)), s)) ∨
    ∃ node ∈ s.eligible rank sizeBytes hint, ∃ p t,
      s.scheduleAllocation rank sizeBytes hint = (some (.ok p), t) ∧
      (s.policy = .leastLoaded →
        (s.eligible rank sizeBytes hint).argmin NodeResourceCapacity.loadRatio = some node) ∧
      s.nodes.lookup p.selectedNodeId = some node ∧ p.sizeBytes = sizeBytes ∧
      t.shardCount = s.shardCount ∧
      ∀ nodeId, t.nodes.lookup nodeId = if nodeId = p.selectedNodeId then
        some { node with allocatedMemoryBytes := node.allocatedMemoryBytes + sizeBytes }
        else s.nodes.lookup nodeId := by
  have hnodes := s.scan_nodes rank sizeBytes hint
  have hshards := s.scan_shardCount rank sizeBytes hint
  rcases s.select_cases (s.eligible rank sizeBytes hint) with
    ⟨hnil, hselect⟩ | ⟨node, hmem, hselect, hmin⟩
  · rw [← candidates_eq] at hselect
    exact .inl ⟨hnil, scheduleAllocation_of_error hselect⟩
  · obtain ⟨⟨nodeId, hl⟩, -⟩ := mem_eligible.mp hmem
    have hown : s.nodes.lookup node.nodeId = some node := by rw [hk nodeId node hl, hl]
    rw [← candidates_eq] at hselect
    have hcall := scheduleAllocation_of_ok hselect
    generalize (s.scan rank sizeBytes hint).2 = scanned at hnodes hshards hcall
    have hscanned : scanned.nodes.lookup node.nodeId = some node := by rw [hnodes, hown]
    obtain ⟨hanswer, hkept⟩ := reserve_of_lookup hscanned (hshards ▸ hs) sizeBytes hint
    have hlookup := lookup_reserve hscanned sizeBytes hint
    rw [hnodes] at hlookup
    exact .inr ⟨node, hmem, _, _, hcall.trans (Prod.ext hanswer rfl), hmin, hown, rfl,
      hkept.trans hshards, hlookup⟩

/-- The answer of a scheduling call is right: it fails only if no node is eligible; otherwise it picks
an eligible node, under `leastLoaded` one of least load, and raises the counter of that node alone. -/
def Schedules (pre : ClusterScheduler) (sizeBytes : UInt64) (targetNumaHint : Option UInt32)
    (post : ClusterScheduler) : Option (Except SchedulerError PlacementDecision) → Prop
  | none => False
  | some (.error _) =>
    (∀ nodeId node, pre.nodes.lookup nodeId = some node → ¬ node.Eligible sizeBytes targetNumaHint) ∧
      post.nodes = pre.nodes
  | some (.ok p) =>
    ∃ node, pre.nodes.lookup p.selectedNodeId = some node ∧ node.Eligible sizeBytes targetNumaHint ∧
      (pre.policy = .leastLoaded → ∀ nodeId other, pre.nodes.lookup nodeId = some other →
        other.Eligible sizeBytes targetNumaHint → node.exactRatio ≤ other.exactRatio) ∧
      ∃ raised : UInt64, raised.toNat = node.allocatedMemoryBytes.toNat + sizeBytes.toNat ∧
        ∀ nodeId, post.nodes.lookup nodeId = if nodeId = p.selectedNodeId then
          some { node with allocatedMemoryBytes := raised } else pre.nodes.lookup nodeId

def ScheduledRight (e : Event ClusterScheduler SchedulerCall SchedulerAnswer) : Prop :=
  ∀ rank sizeBytes hint, e.call = .scheduleAllocation rank sizeBytes hint →
    ∃ answer, e.answer = .scheduled answer ∧ e.pre.Schedules sizeBytes hint e.post answer

/-- What the callers do: no node is registered any more, and a release is of a live placement. -/
def AllocatesAndReleases (h : List (Event ClusterScheduler SchedulerCall SchedulerAnswer))
    (_ : ClusterScheduler) : SchedulerCall → Prop
  | .registerNode _ => False
  | .scheduleAllocation _ _ _ => True
  | .releaseAllocation nodeId sizeBytes =>
    ∃ p ∈ live h, p.selectedNodeId = nodeId ∧ p.sizeBytes = sizeBytes

/-- The binary64 load ratios order the nodes that are eligible for the call as their exact loads do. -/
def RatiosOrdered (s : ClusterScheduler) : SchedulerCall → Prop
  | .scheduleAllocation _ sizeBytes hint =>
    s.policy = .leastLoaded → ∀ nodeId node otherId other,
      s.nodes.lookup nodeId = some node → node.Eligible sizeBytes hint →
      s.nodes.lookup otherId = some other → other.Eligible sizeBytes hint →
      node.exactRatio < other.exactRatio → node.loadRatio < other.loadRatio
  | _ => True

/-- The nodes of a cluster before the first allocation of a run. -/
structure Registered (s : ClusterScheduler) : Prop where
  wellKeyed : s.WellKeyed
  fits : ∀ nodeId node, s.nodes.lookup nodeId = some node →
    node.allocatedMemoryBytes ≤ node.totalMemoryBytes ∧ 0 < node.totalMemoryBytes
  shards : 1 ≤ s.shardCount

theorem registered_new (policy : SchedulingPolicy) {shardCount : UInt64} (h : 1 ≤ shardCount) :
    (new policy shardCount).Registered where
  wellKeyed := fun nodeId node hl => by cases hl
  fits := fun nodeId node hl => by cases hl
  shards := h

theorem Registered.registerNode {s : ClusterScheduler} (h : s.Registered)
    {capacity : NodeResourceCapacity}
    (hfits : capacity.allocatedMemoryBytes ≤ capacity.totalMemoryBytes)
    (hpos : 0 < capacity.totalMemoryBytes) : (s.registerNode capacity).Registered where
  wellKeyed := by
    intro nodeId node hl
    rcases lookup_insert_eq_some_iff.mp hl with ⟨rfl, rfl⟩ | ⟨-, hl⟩
    · rfl
    · exact h.wellKeyed nodeId node hl
  fits := by
    intro nodeId node hl
    rcases lookup_insert_eq_some_iff.mp hl with ⟨rfl, rfl⟩ | ⟨-, hl⟩
    · exact ⟨hfits, hpos⟩
    · exact h.fits nodeId node hl
  shards := h.shards

def allocatedOn (s : ClusterScheduler) (nodeId : NodeId) : ℕ :=
  ((s.nodes.lookup nodeId).map fun node => node.allocatedMemoryBytes.toNat).getD 0

theorem AccountedFrom.toNat_raised {base : NodeId → ℕ} {s : ClusterScheduler}
    {live : List PlacementDecision} (h : AccountedFrom base s live) {nodeId : NodeId}
    {node : NodeResourceCapacity} (hl : s.nodes.lookup nodeId = some node) {sizeBytes : UInt64}
    {hint : Option UInt32} (he : node.Eligible sizeBytes hint) :
    (node.allocatedMemoryBytes + sizeBytes).toNat =
        node.allocatedMemoryBytes.toNat + sizeBytes.toNat ∧
      node.allocatedMemoryBytes.toNat + sizeBytes.toNat ≤ node.totalMemoryBytes.toNat := by
  have hle := (h nodeId node hl).1
  have hfree := he.2.1
  have htotal := node.totalMemoryBytes.toNat_lt
  rw [UInt64.toNat_add]
  omega

theorem AccountedFrom.scheduleAllocation {base : NodeId → ℕ} {s : ClusterScheduler}
    {live : List PlacementDecision} (h : AccountedFrom base s live) (hk : s.WellKeyed)
    (hs : s.shardCount ≠ 0) (rank : NodeId → ℕ) (sizeBytes : UInt64) (hint : Option UInt32) :
    AccountedFrom base (s.scheduleAllocation rank sizeBytes hint).2
      ((PlacementEffect.ofAnswer (s.scheduleAllocation rank sizeBytes hint).1).apply live) := by
  rcases scheduleAllocation_cases hk hs rank sizeBytes hint with
    ⟨-, hcall⟩ | ⟨node, hmem, p, t, hcall, -, hl, hsize, -, hlookup⟩
  · rw [hcall]
    exact h
  · obtain ⟨hraised, hroom⟩ := h.toNat_raised hl (mem_eligible.mp hmem).2
    rw [hcall]
    intro nodeId node' hnode'
    simp only [PlacementEffect.ofAnswer, PlacementEffect.apply, liveBytes_cons, hsize]
    rw [hlookup] at hnode'
    split_ifs at hnode' with hid
    · cases hnode'
      have heq := (h _ node hl).2
      rw [if_pos hid.symm, hid]
      dsimp only
      omega
    · rw [if_neg (Ne.symm hid), zero_add]
      exact h nodeId node' hnode'

/-- A call is right if the rounded ratios order the eligible nodes as the exact ones do. -/
theorem schedules_of_ratiosOrdered {base : NodeId → ℕ} {s : ClusterScheduler}
    {live : List PlacementDecision} (h : AccountedFrom base s live) (hk : s.WellKeyed)
    (hs : s.shardCount ≠ 0) (rank : NodeId → ℕ) (sizeBytes : UInt64) (hint : Option UInt32)
    (hratios : s.RatiosOrdered (.scheduleAllocation rank sizeBytes hint)) :
    s.Schedules sizeBytes hint (s.scheduleAllocation rank sizeBytes hint).2
      (s.scheduleAllocation rank sizeBytes hint).1 := by
  rcases scheduleAllocation_cases hk hs rank sizeBytes hint with
    ⟨hnil, hcall⟩ | ⟨node, hmem, p, t, hcall, hmin, hl, -, -, hlookup⟩
  · rw [hcall]
    refine ⟨?_, rfl⟩
    intro nodeId node hl he
    have hmem : node ∈ s.eligible rank sizeBytes hint := mem_eligible.mpr ⟨⟨nodeId, hl⟩, he⟩
    rw [hnil] at hmem
    cases hmem
  · have he := (mem_eligible.mp hmem).2
    rw [hcall]
    refine ⟨node, hl, he, ?_, _, (h.toNat_raised hl he).1, hlookup⟩
    intro hpolicy otherId other hlother heother
    have hother : other ∈ s.eligible rank sizeBytes hint :=
      mem_eligible.mpr ⟨⟨otherId, hlother⟩, heother⟩
    by_contra hlt
    have hload := hratios hpolicy otherId other _ node hlother heother hl he (not_le.mp hlt)
    exact absurd (List.le_of_mem_argmin hother (hmin hpolicy)) (not_le.mpr hload)

/-- What a run keeps, whatever the rounding does. -/
structure Conserves (base : NodeId → ℕ) (h : List (Event ClusterScheduler SchedulerCall SchedulerAnswer))
    (s : ClusterScheduler) : Prop where
  wellKeyed : s.WellKeyed
  shards : s.shardCount ≠ 0
  accounted : AccountedFrom base s (live h)

theorem Registered.conserves {s : ClusterScheduler} (h : s.Registered) :
    Conserves s.allocatedOn [] s where
  wellKeyed := h.wellKeyed
  shards := by
    intro hz
    have hone := h.shards
    rw [hz] at hone
    exact absurd hone (by decide)
  accounted := by
    intro nodeId node hl
    refine ⟨UInt64.le_iff_toNat_le.mp (h.fits nodeId node hl).1, ?_⟩
    have hstart : s.allocatedOn nodeId = node.allocatedMemoryBytes.toNat := by
      unfold allocatedOn
      rw [hl]
      rfl
    rw [hstart]
    rfl

theorem Conserves.scheduleAllocation {base : NodeId → ℕ}
    {h : List (Event ClusterScheduler SchedulerCall SchedulerAnswer)} {s : ClusterScheduler}
    (hc : Conserves base h s) (rank : NodeId → ℕ) (sizeBytes : UInt64) (hint : Option UInt32) :
    Conserves base (h ++ [event step s (.scheduleAllocation rank sizeBytes hint)])
      (s.scheduleAllocation rank sizeBytes hint).2 := by
  have haccounted := hc.accounted.scheduleAllocation hc.wellKeyed hc.shards rank sizeBytes hint
  have hlive : live (h ++ [event step s (.scheduleAllocation rank sizeBytes hint)]) =
      (PlacementEffect.ofAnswer (s.scheduleAllocation rank sizeBytes hint).1).apply (live h) :=
    live_concat _ _
  rw [← hlive] at haccounted
  rcases scheduleAllocation_cases hc.wellKeyed hc.shards rank sizeBytes hint with
    ⟨-, hcall⟩ | ⟨node, -, p, t, hcall, -, hl, -, hshards, hlookup⟩
  · rw [hcall] at haccounted ⊢
    exact ⟨hc.wellKeyed, hc.shards, haccounted⟩
  · rw [hcall] at haccounted ⊢
    refine ⟨?_, hshards ▸ hc.shards, haccounted⟩
    intro nodeId node' hnode'
    rw [hlookup] at hnode'
    split_ifs at hnode' with hid
    · cases hnode'
      rw [hid]
      exact hc.wellKeyed _ node hl
    · exact hc.wellKeyed nodeId node' hnode'

theorem Conserves.releaseAllocation {base : NodeId → ℕ}
    {h : List (Event ClusterScheduler SchedulerCall SchedulerAnswer)} {s : ClusterScheduler}
    (hc : Conserves base h s) {p : PlacementDecision} (hp : p ∈ live h) :
    Conserves base (h ++ [event step s (.releaseAllocation p.selectedNodeId p.sizeBytes)])
      (s.releaseAllocation p.selectedNodeId p.sizeBytes) where
  wellKeyed := by
    unfold ClusterScheduler.releaseAllocation
    cases hl : s.nodes.lookup p.selectedNodeId with
    | none => exact hc.wellKeyed
    | some old =>
      intro nodeId node hnode
      rcases lookup_insert_eq_some_iff.mp hnode with ⟨rfl, rfl⟩ | ⟨-, hnode⟩
      · exact hc.wellKeyed _ old hl
      · exact hc.wellKeyed nodeId node hnode
  shards := by
    unfold ClusterScheduler.releaseAllocation
    cases s.nodes.lookup p.selectedNodeId with
    | none => exact hc.shards
    | some old => exact hc.shards
  accounted := by
    rw [live_concat]
    exact hc.accounted.releaseAllocation hp

theorem Conserves.step {base : NodeId → ℕ}
    {h : List (Event ClusterScheduler SchedulerCall SchedulerAnswer)} {s : ClusterScheduler}
    (hc : Conserves base h s) {c : SchedulerCall} (hd : AllocatesAndReleases h s c) :
    Conserves base (h ++ [event ClusterScheduler.step s c]) (s.step c).2 := by
  cases c with
  | registerNode capacity => exact hd.elim
  | scheduleAllocation rank sizeBytes hint => exact hc.scheduleAllocation rank sizeBytes hint
  | releaseAllocation nodeId sizeBytes =>
    obtain ⟨p, hp, rfl, rfl⟩ := hd
    exact hc.releaseAllocation hp

theorem Conserves.scheduledRight {base : NodeId → ℕ}
    {h : List (Event ClusterScheduler SchedulerCall SchedulerAnswer)} {s : ClusterScheduler}
    (hc : Conserves base h s) {c : SchedulerCall} (hratios : s.RatiosOrdered c) :
    ScheduledRight (event ClusterScheduler.step s c) := by
  intro rank sizeBytes hint hcall
  obtain rfl : c = .scheduleAllocation rank sizeBytes hint := hcall
  exact ⟨_, rfl, schedules_of_ratiosOrdered hc.accounted hc.wellKeyed hc.shards rank sizeBytes hint hratios⟩

/-- In a run of calls that do not interrupt each other, and that each find the rounded load ratios of their
eligible nodes in the order of the exact ones, every scheduling call is right. The counters are always what
they were at the start with the live placements, and no node is over-committed. -/
theorem sequential_correct_of_ratiosOrdered (s : ClusterScheduler) (hs : s.Registered)
    (calls : List SchedulerCall) (hcalls : Along AllocatesAndReleases step s calls)
    (hratios : Along (fun _ => RatiosOrdered) step s calls) :
    ∀ as, as <+: calls → AccountedFrom s.allocatedOn (exec step s as) (live (trace step s as)) ∧
      ∀ e ∈ trace step s as, ScheduledRight e := by
  intro as has
  have hrun : Along (fun h t c => AllocatesAndReleases h t c ∧ RatiosOrdered t c) step s as :=
    fun cs c ds heq => ⟨hcalls.of_prefix has cs c ds heq, hratios.of_prefix has cs c ds heq⟩
  obtain ⟨hcons, hright⟩ := history_induction
    (P := fun h t => Conserves s.allocatedOn h t ∧ ∀ e ∈ h, ScheduledRight e) ⟨hs.conserves, by simp⟩
    (fun h t c hi hc => ⟨hi.1.step hc.1, by
      rw [List.forall_mem_append, List.forall_mem_singleton]
      exact ⟨hi.2, hi.1.scheduledRight hc.2⟩⟩) as hrun
  exact ⟨hcons.accounted, hright⟩

def SameTotal (s : ClusterScheduler) (total : UInt64) : Prop :=
  ∀ nodeId node, s.nodes.lookup nodeId = some node → node.totalMemoryBytes = total

theorem SameTotal.step {base : NodeId → ℕ}
    {h : List (Event ClusterScheduler SchedulerCall SchedulerAnswer)} {s : ClusterScheduler}
    {total : UInt64} (hs : s.SameTotal total) (hc : Conserves base h s) {c : SchedulerCall}
    (hd : AllocatesAndReleases h s c) : (s.step c).2.SameTotal total := by
  cases c with
  | registerNode capacity => exact hd.elim
  | scheduleAllocation rank sizeBytes hint =>
    change (s.scheduleAllocation rank sizeBytes hint).2.SameTotal total
    rcases scheduleAllocation_cases hc.wellKeyed hc.shards rank sizeBytes hint with
      ⟨-, hcall⟩ | ⟨node, -, p, t, hcall, -, hl, -, -, hlookup⟩
    · rw [hcall]
      exact hs
    · rw [hcall]
      intro nodeId node' hnode'
      rw [hlookup] at hnode'
      split_ifs at hnode'
      · cases hnode'
        exact hs _ node hl
      · exact hs nodeId node' hnode'
  | releaseAllocation nodeId sizeBytes =>
    change (s.releaseAllocation nodeId sizeBytes).SameTotal total
    unfold ClusterScheduler.releaseAllocation
    cases hl : s.nodes.lookup nodeId with
    | none => exact hs
    | some old =>
      intro nodeId' node hnode
      rcases lookup_insert_eq_some_iff.mp hnode with ⟨rfl, rfl⟩ | ⟨-, hnode⟩
      · exact hs _ old hl
      · exact hs nodeId' node hnode

/-- In a cluster of nodes of one size, below 8 PiB, the rounded ratios are always in order. -/
theorem SameTotal.ratiosOrdered {s : ClusterScheduler} (hs : s.Registered) {total : UInt64}
    (hsame : s.SameTotal total) (hsmall : total.toNat < 2 ^ 53) (calls : List SchedulerCall)
    (hcalls : Along AllocatesAndReleases ClusterScheduler.step s calls) :
    Along (fun _ => RatiosOrdered) ClusterScheduler.step s calls := by
  intro as c bs heq
  have hpast : Along AllocatesAndReleases ClusterScheduler.step s as :=
    fun cs d ds hcs => hcalls cs d (ds ++ c :: bs) (by simp [heq, hcs])
  obtain ⟨hcons, hsame'⟩ := history_induction
    (P := fun h t => Conserves s.allocatedOn h t ∧ t.SameTotal total) ⟨hs.conserves, hsame⟩
    (fun h t d hi hd => ⟨hi.1.step hd, hi.2.step hi.1 hd⟩) as hpast
  cases c with
  | registerNode capacity => trivial
  | releaseAllocation nodeId sizeBytes => trivial
  | scheduleAllocation rank sizeBytes hint =>
    intro _ nodeId node otherId other hl _ hlother _ hlt
    have htotal := hsame' otherId other hlother
    exact NodeResourceCapacity.loadRatio_lt_of_same_total ((hsame' nodeId node hl).trans htotal.symm)
      (htotal ▸ hsmall) (hcons.accounted otherId other hlother).1 hlt

def twoNodes : ClusterScheduler :=
  ((new .leastLoaded 64).registerNode ⟨⟨1⟩, 100, 50, 1, true⟩).registerNode ⟨⟨2⟩, 100, 20, 1, true⟩

/-- The first allocation goes to the second node, the next one to the first, and the first one is released. -/
def twoNodesRun : List SchedulerCall :=
  [.scheduleAllocation (fun _ => 0) 60 none, .scheduleAllocation (fun _ => 0) 10 none,
    .releaseAllocation ⟨2⟩ 60]

theorem sequential_correct_two_nodes :
    (twoNodes.Registered ∧ Along AllocatesAndReleases step twoNodes twoNodesRun) ∧
      ∀ as, as <+: twoNodesRun →
        AccountedFrom twoNodes.allocatedOn (exec step twoNodes as) (live (trace step twoNodes as)) ∧
          ∀ e ∈ trace step twoNodes as, ScheduledRight e := by
  have htwo : twoNodes.Registered :=
    ((registered_new .leastLoaded (by decide)).registerNode (by decide) (by decide)).registerNode
      (by decide) (by decide)
  have hcalls : Along AllocatesAndReleases step twoNodes twoNodesRun := by
    unfold twoNodesRun
    rw [along_cons, along_cons, along_cons]
    refine ⟨trivial, trivial, ⟨⟨⟨2⟩, 0, vaddrOf ⟨2⟩, 60, 2⟩, ?_, rfl, rfl⟩, along_nil _ _ _⟩
    decide +kernel
  have hsame : twoNodes.SameTotal 100 := by
    intro nodeId node hl
    rcases lookup_insert_eq_some_iff.mp hl with ⟨-, rfl⟩ | ⟨-, hl⟩
    · rfl
    · rcases lookup_insert_eq_some_iff.mp hl with ⟨-, rfl⟩ | ⟨-, hl⟩
      · rfl
      · cases hl
  exact ⟨⟨htwo, hcalls⟩, sequential_correct_of_ratiosOrdered _ htwo _ hcalls
    (hsame.ratiosOrdered htwo (by decide) _ hcalls)⟩

/-- The second node is less loaded than the first, by less than the binary64 quotients can tell. -/
def closeNodes : ClusterScheduler :=
  ((new .leastLoaded 64).registerNode ⟨⟨1⟩, 2147483649, 1073741824, 1, true⟩).registerNode
    ⟨⟨2⟩, 2147483647, 1073741823, 1, true⟩

/-- The call picks the first node. -/
theorem sequential_fails_on_close_nodes :
    ¬ ∀ (s : ClusterScheduler), s.Registered → ∀ calls, Along AllocatesAndReleases step s calls →
      ∀ e ∈ trace step s calls, ScheduledRight e := by
  intro h
  have hclose : closeNodes.Registered :=
    ((registered_new .leastLoaded (by decide)).registerNode (by decide) (by decide)).registerNode
      (by decide) (by decide)
  have hright := h closeNodes hclose [.scheduleAllocation (fun nodeId => nodeId.id.toNat) 1 none]
    (by rw [along_cons]; exact ⟨trivial, along_nil _ _ _⟩) _ List.mem_cons_self
  obtain ⟨answer, hanswer, hright⟩ := hright _ _ _ rfl
  have hpicked : (closeNodes.scheduleAllocation (fun nodeId => nodeId.id.toNat) 1 none).1 =
      some (.ok ⟨⟨1⟩, 0, vaddrOf ⟨1⟩, 1, 1⟩) := by decide +kernel
  obtain rfl : answer = some (.ok ⟨⟨1⟩, 0, vaddrOf ⟨1⟩, 1, 1⟩) :=
    (SchedulerAnswer.scheduled.inj hanswer).symm.trans hpicked
  obtain ⟨node, hl, -, hleast, -⟩ := hright
  obtain rfl : ⟨⟨1⟩, 2147483649, 1073741824, 1, true⟩ = node := Option.some.inj hl
  have hle := hleast rfl ⟨2⟩ ⟨⟨2⟩, 2147483647, 1073741823, 1, true⟩ rfl (by decide)
  exact absurd hle (by decide +kernel)

end ClusterScheduler

end Virthub.Master
