import Virthub.Raft.Standing

/-! The role of a node against its vote and the leader it knows. A request of a leader with the term of the
node is taken as one of its own leader, whatever the role. -/
namespace Virthub.Raft
open Virthub.Klnk (NodeId)
open Virthub.Lib

/-- A leader knows itself as the leader, and a candidate has its own vote and knows no leader. -/
structure RoleCoherent (s : Standing) : Prop where
  leader : s.role = .leader → s.leaderId = some s.nodeId
  candidate : s.role = .candidate → s.votedFor = some s.nodeId ∧ s.leaderId = none

def FollowsLeader (v : Event RaftEngine RaftCall RaftAnswer) : Prop :=
  ∀ l t pi pt es lc, v.call = .appendEntries l t pi pt es lc → v.pre.state.currentTerm ≤ t →
    v.post.state.role = .follower

/-- Requests of leaders come from other nodes, and only a candidate is promoted. -/
def FromOthers (e : RaftEngine) : RaftCall → Prop
  | .appendEntries leaderId _ _ _ _ _ => leaderId ≠ e.state.nodeId
  | .promoteToLeader => e.state.role = .candidate
  | _ => True

instance (e : RaftEngine) (call : RaftCall) : Decidable (FromOthers e call) := by
  cases call <;> unfold FromOthers <;> infer_instance

/-- A request of a leader with the term of the node reaches a follower. -/
def ReachesFollower (e : RaftEngine) : RaftCall → Prop
  | .appendEntries _ term _ _ _ _ => term = e.state.currentTerm → e.state.role = .follower
  | _ => True

instance (e : RaftEngine) (call : RaftCall) : Decidable (ReachesFollower e call) := by
  cases call <;> unfold ReachesFollower <;> infer_instance

structure RolesCoherent (h : List (Event RaftEngine RaftCall RaftAnswer)) (e : RaftEngine) : Prop where
  coherent : RoleCoherent e.standing
  follows : ∀ v ∈ h, FollowsLeader v

theorem roleCoherent_step {e : RaftEngine} (h : RoleCoherent e.standing) (call : RaftCall)
    (hc : ReachesFollower e call) : RoleCoherent (step e call).2.standing := by
  have hstep := standingStep e call
  generalize (step e call).2.standing = t at hstep
  cases hstep with
  | keep hstale => exact h
  | @grant candidateId term lastLogIndex lastLogTerm hfree =>
    refine ⟨h.leader, fun hrole => ?_⟩
    obtain ⟨hvote, hleader⟩ := h.candidate hrole
    refine ⟨?_, hleader⟩
    -- a candidate has only its own vote to give again
    rcases hfree with hfree | hfree <;> rw [hvote] at hfree
    · cases hfree
    · exact hfree.symm
  | stepDown hnewer votedFor => exact ⟨fun hrole => (by cases hrole), fun hrole => (by cases hrole)⟩
  | heartbeat hsame =>
    have hrole : e.standing.role = .follower := hc hsame
    refine ⟨fun hleader => ?_, fun hcandidate => ?_⟩
    · rw [hrole] at hleader
      cases hleader
    · rw [hrole] at hcandidate
      cases hcandidate
  | follow hnewer => exact ⟨fun hrole => (by cases hrole), fun hrole => (by cases hrole)⟩
  | promote => exact ⟨fun _ => rfl, fun hrole => (by cases hrole)⟩
  | elect => exact ⟨fun hrole => (by cases hrole), fun _ => ⟨rfl, rfl⟩⟩

theorem followsLeader_iff_reachesFollower (e : RaftEngine) (call : RaftCall) :
    FollowsLeader (event step e call) ↔ ReachesFollower e call := by
  have hstep := standingStep e call
  constructor
  · intro h
    cases call with
    | appendEntries l t pi pt es lc =>
      intro hsame
      have hrole : (step e (.appendEntries l t pi pt es lc)).2.standing.role = .follower :=
        h l t pi pt es lc rfl (by rw [event, hsame]; exact UInt64.le_refl _)
      generalize (step e (.appendEntries l t pi pt es lc)).2.standing = s at hstep hrole
      cases hstep with
      | keep hstale =>
        have hlt := hstale l t pi pt es lc rfl
        rw [hsame] at hlt
        exact absurd hlt (UInt64.lt_irrefl _)
      | heartbeat hsame => exact hrole
      | follow hnewer =>
        rw [hsame] at hnewer
        exact absurd hnewer (UInt64.lt_irrefl _)
    | _ => trivial
  · rintro hc l t pi pt es lc rfl hle
    have hgoal : (step e (.appendEntries l t pi pt es lc)).2.standing.role = .follower := by
      generalize (step e (.appendEntries l t pi pt es lc)).2.standing = s at hstep
      cases hstep with
      | keep hstale => exact absurd (hstale l t pi pt es lc rfl) (UInt64.not_lt.mpr hle)
      | heartbeat hsame => exact hc hsame
      | follow hnewer => rfl
    exact hgoal

/-- Roles stay coherent exactly if every request of a leader with the node's own term reaches a follower. -/
theorem rolesCoherent_iff_reachesFollower (nodeId : NodeId) (config : RaftConfig) (calls : List RaftCall)
    (hothers : Along (fun _ => FromOthers) step (RaftEngine.new nodeId config) calls) :
    (∀ as, as <+: calls → RolesCoherent (trace step (RaftEngine.new nodeId config) as)
        (exec step (RaftEngine.new nodeId config) as)) ↔
      Along (fun _ => ReachesFollower) step (RaftEngine.new nodeId config) calls := by
  refine forall_prefix_iff_along_history (D := fun _ => FromOthers) (I := RolesCoherent) ?_ (fun _ _ h => h)
    ?_ ?_ calls hothers
  · refine ⟨⟨fun hrole => (by cases hrole), fun hrole => (by cases hrole)⟩, ?_⟩
    intro v hv
    cases hv
  · intro h e call hi _ hc
    refine ⟨roleCoherent_step hi.coherent call hc, fun v hv => ?_⟩
    rcases List.mem_append.mp hv with hv | hv
    · exact hi.follows v hv
    · rw [List.mem_singleton.mp hv]
      exact (followsLeader_iff_reachesFollower e call).mpr hc
  · intro h e call _ _ hp
    exact (followsLeader_iff_reachesFollower e call).mp (hp.follows _ (by simp))

theorem rolesCoherent_iff_reachesFollower_newer :
    RolesCoherent
      (trace step (RaftEngine.new ⟨1⟩ (.defaultConfig ⟨1⟩)) [.startElection, .promoteToLeader,
        .appendEntries ⟨2⟩ 2 0 0 [] 0, .appendEntries ⟨2⟩ 2 0 0 [] 0])
      (exec step (RaftEngine.new ⟨1⟩ (.defaultConfig ⟨1⟩)) [.startElection, .promoteToLeader,
        .appendEntries ⟨2⟩ 2 0 0 [] 0, .appendEntries ⟨2⟩ 2 0 0 [] 0]) := by
  refine (rolesCoherent_iff_reachesFollower ⟨1⟩ _ _ ?_).mpr ?_ _ List.prefix_rfl
  · simp only [along_cons, along_nil, and_true]
    decide
  · simp only [along_cons, along_nil, and_true]
    decide

/-- A leader that hears from another leader of its own term stays leader and names the other one. -/
theorem leader_names_other_leader :
    Along (fun _ => FromOthers) step (RaftEngine.new ⟨1⟩ (.defaultConfig ⟨1⟩))
        [.startElection, .promoteToLeader, .appendEntries ⟨2⟩ 1 0 0 [] 0] ∧
      ¬ RolesCoherent
        (trace step (RaftEngine.new ⟨1⟩ (.defaultConfig ⟨1⟩))
          [.startElection, .promoteToLeader, .appendEntries ⟨2⟩ 1 0 0 [] 0])
        (exec step (RaftEngine.new ⟨1⟩ (.defaultConfig ⟨1⟩))
          [.startElection, .promoteToLeader, .appendEntries ⟨2⟩ 1 0 0 [] 0]) := by
  constructor
  · simp only [along_cons, along_nil, and_true]
    decide
  · intro h
    have hid : some (⟨2⟩ : NodeId) = some ⟨1⟩ := h.coherent.leader rfl
    exact absurd hid (by decide)

end Virthub.Raft
