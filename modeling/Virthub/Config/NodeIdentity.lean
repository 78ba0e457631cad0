import Virthub.Lib.Text
import Virthub.Raft.State

/-! The three places that turn a configured node name into a number: the daemon, the configuration
itself (for the connectors), and the peer list of the Raft cluster. Of the configuration only what
they read is kept. -/
namespace Virthub.Config
open Virthub.Lib Virthub.Raft
open Virthub.Klnk (NodeId)

structure GeneralConfig where
  nodeId : String
  deriving DecidableEq, Repr

/-- The section `[master.raft]`. -/
structure RaftSection where
  embedded : Bool
  initialPeers : List String
  etcdEndpoints : List String
  deriving DecidableEq, Repr

structure MasterConfig where
  raft : RaftSection
  deriving DecidableEq, Repr

structure VirthubConfig where
  general : GeneralConfig
  master : MasterConfig
  deriving DecidableEq, Repr

def nodeDash : List Char := "node-".toList

def VirthubConfig.parsedNodeId (config : VirthubConfig) : UInt64 :=
  (parseU64 (trimStartMatches nodeDash config.general.nodeId.toList)).getD 1

/-- The daemon's `main` parses the name as it stands. -/
def daemonNodeId (config : VirthubConfig) : NodeId :=
  ⟨(parseU64 config.general.nodeId.toList).getD 1⟩

def parsePeer (peer : String) : Except RaftStateError NodeId :=
  match parseU64 (trimStartMatches nodeDash peer.toList) with
  | some id => .ok ⟨id⟩
  | none => .error (.invalidPeerFormat peer)

/-- The loop over the peers ends with the first one that is refused. -/
def parsePeers : List String → Except RaftStateError (List NodeId)
  | [] => .ok []
  | peer :: peers =>
    match parsePeer peer with
    | .error e => .error e
    | .ok id =>
      match parsePeers peers with
      | .error e => .error e
      | .ok ids => .ok (id :: ids)

def fromAppConfig (config : VirthubConfig) : Except RaftStateError RaftConfig :=
  match parsePeers config.master.raft.initialPeers with
  | .error e => .error e
  | .ok initialPeers => .ok ⟨config.master.raft.embedded, initialPeers, config.master.raft.etcdEndpoints⟩

/-- A name that is `k` times `node-` and then the number `n`. -/
def IsNodeName (s : String) (k : ℕ) (n : UInt64) : Prop :=
  ∃ number, s.toList = (List.replicate k nodeDash).flatten ++ number ∧ parseU64 number = some n

theorem parseU64_of_nodeDash {s : List Char} (h : nodeDash <+: s) : parseU64 s = none := by
  obtain ⟨rest, rfl⟩ := h
  exact parseU64_cons_eq_none (c := 'n') rfl (by decide) _

namespace IsNodeName

variable {s : String} {k : ℕ} {n : UInt64}

/-- Without its beginnings the name is its number. -/
theorem parse_trim (h : IsNodeName s k n) : parseU64 (trimStartMatches nodeDash s.toList) = some n := by
  obtain ⟨number, hs, hn⟩ := h
  have hpre : ¬ nodeDash <+: number := fun hp => by
    rw [parseU64_of_nodeDash hp] at hn
    cases hn
  rw [hs, trimStartMatches_replicate (by decide) hpre, hn]

theorem parsePeer (h : IsNodeName s k n) : parsePeer s = .ok ⟨n⟩ := by
  rw [Config.parsePeer, h.parse_trim]

/-- As it stands it is a number only if it has no such beginning. -/
theorem parse (h : IsNodeName s k n) : parseU64 s.toList = if k = 0 then some n else none := by
  obtain ⟨number, hs, hn⟩ := h
  cases k with
  | zero =>
    rw [hs, List.replicate_zero, List.flatten_nil, List.nil_append, hn]
    rfl
  | succ k =>
    have hpre : nodeDash <+: s.toList := by
      rw [hs, List.replicate_succ, List.flatten_cons, List.append_assoc]
      exact List.prefix_append _ _
    rw [parseU64_of_nodeDash hpre]
    rfl

end IsNodeName

theorem getElem?_parsePeers {peers : List String} {ids : List NodeId} (h : parsePeers peers = .ok ids)
    {i : ℕ} {peer : String} (hi : peers[i]? = some peer) {id : NodeId} (hp : parsePeer peer = .ok id) :
    ids[i]? = some id := by
  induction peers generalizing ids i with
  | nil => simp at hi
  | cons p peers ih =>
    unfold parsePeers at h
    cases hq : parsePeer p with
    | error e => simp [hq] at h
    | ok first =>
      cases hrest : parsePeers peers with
      | error e => simp [hq, hrest] at h
      | ok rest =>
        obtain rfl : first :: rest = ids := by simpa [hq, hrest] using h
        cases i with
        | zero =>
          obtain rfl : p = peer := by simpa using hi
          rw [hq] at hp
          cases hp
          rfl
        | succ i => exact ih hrest (by simpa using hi)

/-- The number at the place of a name among the peers of any configuration that is accepted. -/
theorem IsNodeName.initialPeers {s : String} {k : ℕ} {n : UInt64} (h : IsNodeName s k n)
    {config : VirthubConfig} {raft : RaftConfig} {i : ℕ}
    (hi : config.master.raft.initialPeers[i]? = some s) (hr : fromAppConfig config = .ok raft) :
    raft.initialPeers[i]? = some ⟨n⟩ := by
  unfold fromAppConfig at hr
  cases hp : parsePeers config.master.raft.initialPeers with
  | error e => simp [hp] at hr
  | ok ids =>
    obtain rfl : (⟨config.master.raft.embedded, ids, config.master.raft.etcdEndpoints⟩ : RaftConfig) =
        raft := by simpa [hp] using hr
    exact getElem?_parsePeers hp hi h.parsePeer

/-- The daemon, the connectors, and every peer list that holds the name agree on the node. -/
structure OneIdentity (config : VirthubConfig) : Prop where
  connectors : daemonNodeId config = ⟨config.parsedNodeId⟩
  peers : ∀ (cluster : VirthubConfig) (raft : RaftConfig) (i : ℕ),
    cluster.master.raft.initialPeers[i]? = some config.general.nodeId →
      fromAppConfig cluster = .ok raft → raft.initialPeers[i]? = some (daemonNodeId config)

theorem daemonNodeId_of_isNodeName {config : VirthubConfig} {k : ℕ} {n : UInt64}
    (h : IsNodeName config.general.nodeId k n) :
    daemonNodeId config = ⟨if k = 0 then n else 1⟩ := by
  rw [daemonNodeId, h.parse]
  split_ifs <;> rfl

theorem daemonNodeId_eq_iff {config : VirthubConfig} {k : ℕ} {n : UInt64}
    (h : IsNodeName config.general.nodeId k n) : daemonNodeId config = ⟨n⟩ ↔ k = 0 ∨ n = 1 := by
  rw [daemonNodeId_of_isNodeName h]
  by_cases hk : k = 0
  · simp [hk]
  · simp [hk, eq_comm]

theorem oneIdentity_iff_of_isNodeName {config : VirthubConfig} {k : ℕ} {n : UInt64}
    (h : IsNodeName config.general.nodeId k n) : OneIdentity config ↔ k = 0 ∨ n = 1 := by
  have hparsed : config.parsedNodeId = n := by
    rw [VirthubConfig.parsedNodeId, h.parse_trim]
    rfl
  rw [← daemonNodeId_eq_iff h]
  constructor
  · intro hone
    rw [hone.connectors, hparsed]
  · intro hid
    refine ⟨by rw [hid, hparsed], fun cluster raft i hi hr => ?_⟩
    rw [hid]
    exact h.initialPeers hi hr

/-- Two nodes have one identity each, and different ones for different numbers, exactly if their names
are bare numbers or have the number one. -/
theorem one_node_one_identity_iff {config other : VirthubConfig} {k l : ℕ} {n m : UInt64}
    (h : IsNodeName config.general.nodeId k n) (h' : IsNodeName other.general.nodeId l m) :
    (OneIdentity config ∧ OneIdentity other ∧ (n ≠ m → daemonNodeId config ≠ daemonNodeId other)) ↔
      (k = 0 ∨ n = 1) ∧ (l = 0 ∨ m = 1) := by
  rw [oneIdentity_iff_of_isNodeName h, oneIdentity_iff_of_isNodeName h']
  constructor
  · rintro ⟨hk, hl, -⟩
    exact ⟨hk, hl⟩
  · rintro ⟨hk, hl⟩
    refine ⟨hk, hl, fun hne heq => hne ?_⟩
    rw [(daemonNodeId_eq_iff h).mpr hk, (daemonNodeId_eq_iff h').mpr hl] at heq
    exact NodeId.mk.inj heq

/-- A configuration whose node has the given name, in a cluster of three. -/
def clusterConfig (nodeId : String) : VirthubConfig :=
  ⟨⟨nodeId⟩, ⟨⟨true, ["node-1", "node-2", "node-3"], []⟩⟩⟩

theorem isNodeName_node_two : IsNodeName "node-2" 1 2 := ⟨['2'], by decide, by decide⟩

theorem isNodeName_node_three : IsNodeName "node-3" 1 3 := ⟨['3'], by decide, by decide⟩

/-- The daemons of the second and the third node take the number of the first. -/
theorem node_two_is_node_one :
    (IsNodeName "node-2" 1 2 ∧ IsNodeName "node-3" 1 3) ∧
      daemonNodeId (clusterConfig "node-2") = ⟨1⟩ ∧ daemonNodeId (clusterConfig "node-3") = ⟨1⟩ ∧
      (clusterConfig "node-2").parsedNodeId = 2 ∧ ¬ OneIdentity (clusterConfig "node-2") := by
  refine ⟨⟨isNodeName_node_two, isNodeName_node_three⟩, by decide, by decide, by decide, fun h => ?_⟩
  exact absurd h.connectors (by decide)

theorem isNodeName_two : IsNodeName "2" 0 2 := ⟨['2'], by decide, by decide⟩

theorem isNodeName_node_one : IsNodeName "node-node-1" 2 1 := ⟨['1'], by decide, by decide⟩

theorem one_identity_of_two_and_node_one :
    (IsNodeName "2" 0 2 ∧ IsNodeName "node-node-1" 2 1) ∧ OneIdentity (clusterConfig "2") ∧
      OneIdentity (clusterConfig "node-node-1") ∧
      ((2 : UInt64) ≠ 1 → daemonNodeId (clusterConfig "2") ≠ daemonNodeId (clusterConfig "node-node-1")) := by
  have htwo : IsNodeName (clusterConfig "2").general.nodeId 0 2 := isNodeName_two
  have hone : IsNodeName (clusterConfig "node-node-1").general.nodeId 2 1 := isNodeName_node_one
  exact ⟨⟨htwo, hone⟩, (one_node_one_identity_iff htwo hone).mpr ⟨.inl rfl, .inr rfl⟩⟩

end Virthub.Config
