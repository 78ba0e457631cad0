import Virthub.Raft.State
import Virthub.Lib.Ballot
import Mathlib.Algebra.Ring.Nat

/-! Votes along a run of one node. Outside `handle_append_entries` a node keeps its ballot
as the abstract voter does; that handler clears the vote even when the term stays. -/
namespace Virthub.Raft
open Virthub.Klnk (NodeId)
open Virthub.Lib

/-- The ballot that a node keeps: its term and the candidate it chose there. -/
def ballot (e : RaftEngine) : Ballot ℕ NodeId := ⟨e.state.currentTerm.toNat, e.state.votedFor⟩

/-- The vote that an event casts, with the term it is cast in. -/
def voteOf (v : Event RaftEngine RaftCall RaftAnswer) : Option (UInt64 × NodeId) :=
  match v.call, v.answer with
  | .requestVote candidateId _ _ _, .granted (.ok true) =>
    some (v.post.state.currentTerm, candidateId)
  | .startElection, _ => some (v.post.state.currentTerm, v.post.state.nodeId)
  | _, _ => none

/-- No term has votes for two candidates. -/
def VoteUnique (h : List (Event RaftEngine RaftCall RaftAnswer)) : Prop :=
  ∀ v ∈ h, ∀ w ∈ h, ∀ t c d, voteOf v = some (t, c) → voteOf w = some (t, d) → c = d

/-- The call does not forget a vote of the running term: a leader heard at that term finds
no vote to erase, and the term of an election is not the word after the largest one. -/
def KeepsVote (e : RaftEngine) : RaftCall → Prop
  | .appendEntries _ term _ _ _ _ => term = e.state.currentTerm → e.state.votedFor = none
  | .startElection => e.state.currentTerm.toNat + 1 < 2 ^ 64
  | _ => True

instance (e : RaftEngine) (call : RaftCall) : Decidable (KeepsVote e call) :=
  match call with
  | .appendEntries .. => inferInstanceAs (Decidable (_ → _))
  | .startElection => inferInstanceAs (Decidable (_ < _))
  | .proposeCommand .. | .proposeLockAcquire .. | .proposeLockRelease .. | .requestVote ..
  | .promoteToLeader | .commitToIndex .. | .setCommitCallback => .isTrue trivial

namespace RaftEngine

@[simp] theorem ballot_propose (e : RaftEngine) (entry : UInt64 → UInt64 → RaftLogEntry) :
    ballot (e.propose entry).2 = ballot e := by
  unfold propose
  split_ifs <;> rfl

theorem ballot_stepDown_newer {e : RaftEngine} {term : UInt64} (h : e.state.currentTerm < term) :
    ballot (e.stepDown term) = ⟨term.toNat, none⟩ := by
  simp [stepDown, ballot, h]

theorem stepDown_same {e : RaftEngine} {term : UInt64} (h : ¬ e.state.currentTerm < term) :
    e.stepDown term = e := by
  simp [stepDown, h]

theorem ballot_recognizeLeader {e : RaftEngine} {term : UInt64} (leaderId : NodeId)
    (h : ¬ term < e.state.currentTerm) :
    ballot (e.recognizeLeader leaderId term) = ⟨term.toNat, none⟩ := by
  unfold recognizeLeader ballot
  dsimp only
  split_ifs with hn
  · rfl
  · have ht : e.state.currentTerm = term := by grind
    rw [ht]

/-- Every request that is not stale leaves the node at its term, with no vote. -/
theorem ballot_handleAppendEntries {e : RaftEngine} {term : UInt64} (leaderId : NodeId)
    (prevLogIndex prevLogTerm : UInt64) (entries : List RaftLogEntry) (leaderCommit : UInt64)
    (h : ¬ term < e.state.currentTerm) :
    ballot (e.handleAppendEntries leaderId term prevLogIndex prevLogTerm entries leaderCommit).2 =
      ⟨term.toNat, none⟩ := by
  have hr := ballot_recognizeLeader leaderId h
  unfold handleAppendEntries
  simp only [h, if_false]
  split_ifs with hp
  · cases (e.recognizeLeader leaderId term).state.log[prevLogIndex.toNat - 1]? with
    | none => exact hr
    | some prevEntry =>
      dsimp only
      split_ifs
      · exact hr
      · exact hr
  · exact hr

@[simp] theorem ballot_commitToIndex (e : RaftEngine) (targetIndex : UInt64) :
    ballot (e.commitToIndex targetIndex).2 = ballot e := by
  unfold commitToIndex
  split_ifs <;> rfl

end RaftEngine

/-- A vote event as the abstract voter sees it. -/
def castOf (v : Event RaftEngine RaftCall RaftAnswer) : Option (ℕ × NodeId) :=
  (voteOf v).map (Prod.map UInt64.toNat id)

theorem requestVote_ballot (e : RaftEngine) (candidateId : NodeId)
    (term lastLogIndex lastLogTerm : UInt64) :
    let call := RaftCall.requestVote candidateId term lastLogIndex lastLogTerm
    Ballot.Step (ballot e) (castOf (event step e call)) (ballot (step e call).2) := by
  intro call
  simp only [call, castOf, voteOf, event, step, RaftEngine.handleRequestVote]
  by_cases hs : term < e.state.currentTerm
  · simp only [hs, if_true]
    exact .keep
  simp only [hs, if_false]
  by_cases hn : e.state.currentTerm < term
  · have hb := RaftEngine.ballot_stepDown_newer hn
    have ht : (ballot e).term < term.toNat := UInt64.lt_iff_toNat_lt.mp hn
    have hterm : (e.stepDown term).state.currentTerm = term := by simp [RaftEngine.stepDown, hn]
    split_ifs
    · have ha := Ballot.Step.advance (b := ballot e) (some candidateId) ht
      simpa [ballot, hterm] using ha
    · have ha := Ballot.Step.advance (b := ballot e) none ht
      simpa [hb] using ha
  · rw [RaftEngine.stepDown_same hn]
    split_ifs with hc
    · exact .grant hc.1
    · exact .keep

theorem appendEntries_ballot (e : RaftEngine) (leaderId : NodeId)
    (term prevLogIndex prevLogTerm : UInt64) (entries : List RaftLogEntry) (leaderCommit : UInt64)
    (hk : term = e.state.currentTerm → e.state.votedFor = none) :
    Ballot.Step (ballot e) none
      (ballot (e.handleAppendEntries leaderId term prevLogIndex prevLogTerm entries
        leaderCommit).2) := by
  by_cases hs : term < e.state.currentTerm
  · simp only [RaftEngine.handleAppendEntries, hs, if_true]
    exact .keep
  rw [RaftEngine.ballot_handleAppendEntries leaderId prevLogIndex prevLogTerm entries leaderCommit hs]
  by_cases he : term = e.state.currentTerm
  · have hb : (⟨term.toNat, none⟩ : Ballot ℕ NodeId) = ballot e := by rw [ballot, hk he, he]
    rw [hb]
    exact .keep
  · have hn : e.state.currentTerm < term := by grind
    exact .advance none (UInt64.lt_iff_toNat_lt.mp hn)

/-- Under the condition every call is a step of the abstract voter. -/
theorem step_ballot (e : RaftEngine) (call : RaftCall) (hk : KeepsVote e call) :
    Ballot.Step (ballot e) (castOf (event step e call)) (ballot (step e call).2) := by
  cases call with
  | proposeCommand payload =>
    simpa [castOf, voteOf, event, step, RaftEngine.proposeCommand] using Ballot.Step.keep
  | proposeLockAcquire resourceId clientPid =>
    simpa [castOf, voteOf, event, step, RaftEngine.proposeLockAcquire] using Ballot.Step.keep
  | proposeLockRelease resourceId clientPid =>
    simpa [castOf, voteOf, event, step, RaftEngine.proposeLockRelease] using Ballot.Step.keep
  | requestVote candidateId term lastLogIndex lastLogTerm =>
    exact requestVote_ballot e candidateId term lastLogIndex lastLogTerm
  | appendEntries leaderId term prevLogIndex prevLogTerm entries leaderCommit =>
    exact appendEntries_ballot e leaderId term prevLogIndex prevLogTerm entries leaderCommit hk
  | promoteToLeader => exact .keep
  | startElection =>
    have ht : (ballot e).term < (e.state.currentTerm + 1).toNat := by
      have hk : e.state.currentTerm.toNat + 1 < 2 ^ 64 := hk
      rw [UInt64.toNat_add, UInt64.toNat_one, Nat.mod_eq_of_lt hk]
      exact Nat.lt_succ_self _
    exact .advance (some e.state.nodeId) ht
  | commitToIndex targetIndex =>
    simpa [castOf, voteOf, event, step] using Ballot.Step.keep
  | setCommitCallback => exact .keep

theorem voteUnique_of_casts {h : List (Event RaftEngine RaftCall RaftAnswer)}
    (hu : Ballot.Unique (h.filterMap castOf)) : VoteUnique h := by
  intro v hv w hw t c d hvc hwd
  have hv' : (t.toNat, c) ∈ h.filterMap castOf :=
    List.mem_filterMap.mpr ⟨v, hv, by simp [castOf, hvc]⟩
  have hw' : (t.toNat, d) ∈ h.filterMap castOf :=
    List.mem_filterMap.mpr ⟨w, hw, by simp [castOf, hwd]⟩
  exact hu _ hv' _ hw' rfl

/-- A run that never forgets a vote of its running term gives no term two candidates. -/
theorem voteUnique_of_keepsVote (nodeId : NodeId) (config : RaftConfig) (calls : List RaftCall)
    (hk : Along (fun _ => KeepsVote) step (RaftEngine.new nodeId config) calls) :
    VoteUnique (trace step (RaftEngine.new nodeId config) calls) := by
  apply voteUnique_of_casts
  refine (history_induction (C := fun _ => KeepsVote)
    (P := fun h e => Ballot.Recorded (h.filterMap castOf) (ballot e) ∧
      Ballot.Unique (h.filterMap castOf)) ?_ ?_ calls hk).2
  · exact ⟨by simp [Ballot.Recorded], by simp [Ballot.Unique]⟩
  · rintro h e call ⟨hr, hu⟩ hc
    have hs := step_ballot e call hc
    have hf : (h ++ [event step e call]).filterMap castOf =
        h.filterMap castOf ++ (castOf (event step e call)).toList := by
      cases hv : castOf (event step e call) <;> simp [hv]
    rw [hf]
    exact ⟨hs.recorded hr, hs.unique hr hu⟩

/-- The condition is met by a vote, a heartbeat of a newer leader and an election. -/
theorem voteUnique_of_keepsVote_heartbeat :
    VoteUnique (trace step (RaftEngine.new ⟨1⟩ (RaftConfig.defaultConfig ⟨1⟩))
      [.requestVote ⟨2⟩ 1 0 0, .appendEntries ⟨3⟩ 2 0 0 [] 0, .startElection]) := by
  apply voteUnique_of_keepsVote
  simp only [along_cons, along_nil, and_true]
  decide

/-- Node 1 votes for node 2, hears node 2 as the leader of that term, and then votes for
node 3 in the same term. -/
theorem voteUnique_fails_after_heartbeat :
    ¬ ∀ (nodeId : NodeId) (config : RaftConfig) (calls : List RaftCall),
      VoteUnique (trace step (RaftEngine.new nodeId config) calls) := by
  intro h
  have hu := h ⟨1⟩ (RaftConfig.defaultConfig ⟨1⟩)
    [.requestVote ⟨2⟩ 1 0 0, .appendEntries ⟨2⟩ 1 0 0 [] 0, .requestVote ⟨3⟩ 1 0 0]
  have hc : (⟨2⟩ : NodeId) = ⟨3⟩ :=
    hu _ (List.mem_cons_self ..) _ (List.mem_cons_of_mem _ (List.mem_cons_of_mem _
      (List.mem_cons_self ..))) 1 ⟨2⟩ ⟨3⟩ rfl rfl
  exact absurd hc (by decide)

end Virthub.Raft
