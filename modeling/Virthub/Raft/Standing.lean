import Virthub.Raft.Replication
import Mathlib.Algebra.Ring.Nat

/-! What the calls do to the standing of a node: its role and term, its vote and the leader it knows. The log
and the indices have no part in it. -/
namespace Virthub.Raft
open Virthub.Klnk (NodeId)
open Virthub.Lib

structure Standing where
  nodeId : NodeId
  role : RaftRole
  currentTerm : UInt64
  votedFor : Option NodeId
  leaderId : Option NodeId
  termCounter : UInt64

def RaftEngine.standing (e : RaftEngine) : Standing :=
  ⟨e.state.nodeId, e.state.role, e.state.currentTerm, e.state.votedFor, e.state.leaderId, e.termCounter⟩

/-- What a call can do to the standing. -/
inductive StandingStep (s : Standing) : RaftCall → Standing → Prop where
  | keep {call : RaftCall}
      (hstale : ∀ l t pi pt es lc, call = .appendEntries l t pi pt es lc → t < s.currentTerm) :
      StandingStep s call s
  | grant {candidateId : NodeId} {term lastLogIndex lastLogTerm : UInt64}
      (hfree : s.votedFor = none ∨ s.votedFor = some candidateId) :
      StandingStep s (.requestVote candidateId term lastLogIndex lastLogTerm)
        { s with votedFor := some candidateId }
  | stepDown {candidateId : NodeId} {term lastLogIndex lastLogTerm : UInt64}
      (hnewer : s.currentTerm < term) (votedFor : Option NodeId) :
      StandingStep s (.requestVote candidateId term lastLogIndex lastLogTerm)
        ⟨s.nodeId, .follower, term, votedFor, none, term⟩
  | heartbeat {leaderId : NodeId} {term prevLogIndex prevLogTerm : UInt64} {entries : List RaftLogEntry}
      {leaderCommit : UInt64} (hsame : term = s.currentTerm) :
      StandingStep s (.appendEntries leaderId term prevLogIndex prevLogTerm entries leaderCommit)
        { s with leaderId := some leaderId, votedFor := none }
  | follow {leaderId : NodeId} {term prevLogIndex prevLogTerm : UInt64} {entries : List RaftLogEntry}
      {leaderCommit : UInt64} (hnewer : s.currentTerm < term) :
      StandingStep s (.appendEntries leaderId term prevLogIndex prevLogTerm entries leaderCommit)
        ⟨s.nodeId, .follower, term, none, some leaderId, term⟩
  | promote : StandingStep s .promoteToLeader { s with role := .leader, leaderId := some s.nodeId }
  | elect : StandingStep s .startElection
      ⟨s.nodeId, .candidate, s.currentTerm + 1, some s.nodeId, none, s.currentTerm + 1⟩

namespace RaftEngine

theorem standing_propose (e : RaftEngine) (entry : UInt64 → UInt64 → RaftLogEntry) :
    (e.propose entry).2.standing = e.standing := by
  unfold propose
  split_ifs <;> rfl

theorem standing_commitToIndex (e : RaftEngine) (targetIndex : UInt64) :
    (e.commitToIndex targetIndex).2.standing = e.standing := by
  unfold commitToIndex
  split_ifs <;> rfl

theorem standing_handleRequestVote (e : RaftEngine) (candidateId : NodeId)
    (term lastLogIndex lastLogTerm : UInt64) :
    StandingStep e.standing (.requestVote candidateId term lastLogIndex lastLogTerm)
      (e.handleRequestVote candidateId term lastLogIndex lastLogTerm).2.standing := by
  unfold handleRequestVote
  by_cases hstale : term < e.state.currentTerm
  · rw [if_pos hstale]
    exact .keep fun _ _ _ _ _ _ hcall => (by cases hcall)
  · rw [if_neg hstale]
    dsimp only [stepDown]
    by_cases hnewer : term > e.state.currentTerm
    · simp only [if_pos hnewer]
      split_ifs <;> exact .stepDown hnewer _
    · simp only [if_neg hnewer]
      split_ifs with hvote
      · exact .grant hvote.1
      · exact .keep fun _ _ _ _ _ _ hcall => (by cases hcall)

theorem standing_handleAppendEntries (e : RaftEngine) (leaderId : NodeId)
    (term prevLogIndex prevLogTerm : UInt64) (entries : List RaftLogEntry) (leaderCommit : UInt64)
    (h : ¬ term < e.state.currentTerm) :
    (e.handleAppendEntries leaderId term prevLogIndex prevLogTerm entries leaderCommit).2.standing =
      (e.recognizeLeader leaderId term).standing := by
  unfold handleAppendEntries
  rw [if_neg h]
  dsimp only
  split_ifs
  · cases (e.recognizeLeader leaderId term).state.log[prevLogIndex.toNat - 1]? with
    | none => rfl
    | some prevEntry =>
      dsimp only
      split_ifs <;> rfl
  · rfl

end RaftEngine

theorem standingStep (e : RaftEngine) (call : RaftCall) :
    StandingStep e.standing call (step e call).2.standing := by
  have hkeep : ∀ {call : RaftCall} {e' : RaftEngine}, e'.standing = e.standing →
      (∀ l t pi pt es lc, call ≠ .appendEntries l t pi pt es lc) →
      StandingStep e.standing call e'.standing := by
    intro call e' heq hcall
    rw [heq]
    exact .keep fun l t pi pt es lc h => absurd h (hcall l t pi pt es lc)
  cases call with
  | proposeCommand payload =>
    exact hkeep (e.standing_propose fun index term => .command index term payload) (by simp)
  | proposeLockAcquire resourceId clientPid =>
    exact hkeep (e.standing_propose fun _ _ => .lockAcquire resourceId clientPid) (by simp)
  | proposeLockRelease resourceId clientPid =>
    exact hkeep (e.standing_propose fun _ _ => .lockRelease resourceId clientPid) (by simp)
  | commitToIndex targetIndex => exact hkeep (e.standing_commitToIndex targetIndex) (by simp)
  | setCommitCallback => exact hkeep rfl (by simp)
  | promoteToLeader => exact .promote
  | startElection => exact .elect
  | requestVote candidateId term lastLogIndex lastLogTerm =>
    exact e.standing_handleRequestVote candidateId term lastLogIndex lastLogTerm
  | appendEntries leaderId term prevLogIndex prevLogTerm entries leaderCommit =>
    by_cases hstale : term < e.state.currentTerm
    · have hunchanged : (e.handleAppendEntries leaderId term prevLogIndex prevLogTerm entries
          leaderCommit).2 = e := by
        rw [RaftEngine.handleAppendEntries, if_pos hstale]
      dsimp only [step, Prod.map_snd]
      rw [hunchanged]
      refine .keep fun _ _ _ _ _ _ hcall => ?_
      cases hcall
      exact hstale
    · have hstanding := e.standing_handleAppendEntries leaderId term prevLogIndex prevLogTerm entries
        leaderCommit hstale
      dsimp only [step, Prod.map_snd, id]
      rw [hstanding]
      dsimp only [RaftEngine.recognizeLeader]
      by_cases hnewer : term > e.state.currentTerm
      · rw [if_pos hnewer]
        exact .follow hnewer
      · rw [if_neg hnewer]
        exact .heartbeat (UInt64.le_antisymm (UInt64.not_lt.mp hnewer) (UInt64.not_lt.mp hstale))

/-- The call is refused: it answers with an error, or is a request of a leader with a lower term. -/
def Refused (v : Event RaftEngine RaftCall RaftAnswer) : Prop :=
  match v.call, v.answer with
  | .appendEntries _ term _ _ _ _, _ => term < v.pre.state.currentTerm
  | _, .index (.error _) => True
  | _, .granted (.error _) => True
  | _, .done (.error _) => True
  | _, _ => False

theorem propose_refused {e : RaftEngine} {entry : UInt64 → UInt64 → RaftLogEntry} {err : RaftStateError}
    (h : (e.propose entry).1 = .error err) : (e.propose entry).2 = e := by
  unfold RaftEngine.propose at h ⊢
  split_ifs at h ⊢
  rfl

/-- A refused call leaves the whole node as it was. -/
theorem post_eq_of_refused (e : RaftEngine) (call : RaftCall) (h : Refused (event step e call)) :
    (step e call).2 = e := by
  have hpropose : ∀ entry, Refused ⟨e, call, .index (e.propose entry).1, (e.propose entry).2⟩ →
      (∀ l t pi pt es lc, call ≠ .appendEntries l t pi pt es lc) → (e.propose entry).2 = e := by
    intro entry hr hcall
    cases hp : (e.propose entry).1 with
    | error err => exact propose_refused hp
    | ok index =>
      rw [hp] at hr
      cases call with
      | appendEntries l t pi pt es lc => exact absurd rfl (hcall l t pi pt es lc)
      | _ => exact hr.elim
  cases call with
  | proposeCommand payload =>
    exact hpropose (fun index term => .command index term payload) h (by simp)
  | proposeLockAcquire resourceId clientPid =>
    exact hpropose (fun _ _ => .lockAcquire resourceId clientPid) h (by simp)
  | proposeLockRelease resourceId clientPid =>
    exact hpropose (fun _ _ => .lockRelease resourceId clientPid) h (by simp)
  | requestVote candidateId term lastLogIndex lastLogTerm =>
    simp only [event, step, Refused, Prod.map] at h ⊢
    unfold RaftEngine.handleRequestVote at h ⊢
    by_cases hstale : term < e.state.currentTerm
    · rw [if_pos hstale]
      rfl
    · rw [if_neg hstale] at h
      dsimp only at h
      split_ifs at h <;> exact h.elim
  | appendEntries leaderId term prevLogIndex prevLogTerm entries leaderCommit =>
    have hstale : term < e.state.currentTerm := h
    simp only [step, RaftEngine.handleAppendEntries, if_pos hstale, Prod.map, id]
  | promoteToLeader => exact h.elim
  | startElection => exact h.elim
  | setCommitCallback => exact h.elim
  | commitToIndex targetIndex =>
    simp only [event, step, Refused, Prod.map] at h ⊢
    unfold RaftEngine.commitToIndex at h ⊢
    split_ifs at h ⊢
    · rfl
    · exact h.elim
    · exact h.elim

/-- The term does not fall, the counter shows it, and a refused call changes nothing. -/
structure TermDiscipline (v : Event RaftEngine RaftCall RaftAnswer) : Prop where
  mono : v.pre.state.currentTerm ≤ v.post.state.currentTerm
  published : v.post.termCounter = v.post.state.currentTerm
  refused : Refused v → v.post = v.pre

/-- An election is started at a term that can still grow. -/
def TermGrows (e : RaftEngine) (call : RaftCall) : Prop :=
  call = .startElection → e.state.currentTerm.toNat < 2 ^ 64 - 1

instance (e : RaftEngine) (call : RaftCall) : Decidable (TermGrows e call) :=
  inferInstanceAs (Decidable (_ → _))

theorem StandingStep.currentTerm_le {s t : Standing} {call : RaftCall} (h : StandingStep s call t)
    (hgrows : call = .startElection → s.currentTerm.toNat < 2 ^ 64 - 1) : s.currentTerm ≤ t.currentTerm := by
  cases h with
  | keep hstale => exact UInt64.le_refl _
  | grant hfree => exact UInt64.le_refl _
  | stepDown hnewer votedFor => exact UInt64.le_of_lt hnewer
  | heartbeat hsame => exact UInt64.le_refl _
  | follow hnewer => exact UInt64.le_of_lt hnewer
  | promote => exact UInt64.le_refl _
  | elect =>
    have hlt := hgrows rfl
    have hone : (1 : UInt64).toNat = 1 := rfl
    dsimp only
    rw [UInt64.le_iff_toNat_le, UInt64.toNat_add, hone]
    omega

theorem StandingStep.termCounter_eq {s t : Standing} {call : RaftCall} (h : StandingStep s call t)
    (hs : s.termCounter = s.currentTerm) : t.termCounter = t.currentTerm := by
  cases h with
  | keep hstale => exact hs
  | grant hfree => exact hs
  | stepDown hnewer votedFor => rfl
  | heartbeat hsame => exact hs
  | follow hnewer => rfl
  | promote => exact hs
  | elect => rfl

/-- In a run whose elections start at terms below `2 ^ 64 - 1` every call keeps the discipline of terms. -/
theorem termDiscipline_of_termGrows (nodeId : NodeId) (config : RaftConfig) (calls : List RaftCall)
    (hgrows : Along (fun _ => TermGrows) step (RaftEngine.new nodeId config) calls) :
    ∀ v ∈ trace step (RaftEngine.new nodeId config) calls, TermDiscipline v := by
  refine (forall_event_of_invariant (C := TermGrows)
    (I := fun e => e.termCounter = e.state.currentTerm) rfl ?_ calls hgrows).2
  intro e call hcounter hcall
  have hstep := standingStep e call
  have hpublished := hstep.termCounter_eq hcounter
  exact ⟨hpublished, hstep.currentTerm_le hcall, hpublished, post_eq_of_refused e call⟩

private def electedAtSeven : List RaftCall :=
  [.requestVote ⟨2⟩ 6 0 0, .startElection, .promoteToLeader, .proposeCommand [1], .requestVote ⟨2⟩ 6 0 0,
    .commitToIndex 2]

/-- A node that is elected after the term of a message, and then gets a stale request. -/
theorem termDiscipline_of_termGrows_elected :
    Along (fun _ => TermGrows) step (RaftEngine.new ⟨1⟩ (.defaultConfig ⟨1⟩)) electedAtSeven ∧
      ∀ v ∈ trace step (RaftEngine.new ⟨1⟩ (.defaultConfig ⟨1⟩)) electedAtSeven, TermDiscipline v := by
  have hgrows : Along (fun _ => TermGrows) step (RaftEngine.new ⟨1⟩ (.defaultConfig ⟨1⟩)) electedAtSeven := by
    simp only [electedAtSeven, along_cons, along_nil, and_true]
    decide
  exact ⟨hgrows, termDiscipline_of_termGrows ⟨1⟩ _ electedAtSeven hgrows⟩

/-- The bound on the terms is needed: an election at the last term starts over from zero. -/
theorem termGrows_of_termDiscipline (nodeId : NodeId) (config : RaftConfig) (calls : List RaftCall)
    (h : ∀ v ∈ trace step (RaftEngine.new nodeId config) calls, TermDiscipline v) :
    Along (fun _ => TermGrows) step (RaftEngine.new nodeId config) calls := by
  rintro as call bs rfl rfl
  have hmono := (h _ (event_mem_trace step _ as .startElection bs)).mono
  have hone : (1 : UInt64).toNat = 1 := rfl
  dsimp only [event, step, RaftEngine.startElection, Prod.map_snd, id] at hmono
  rw [UInt64.le_iff_toNat_le, UInt64.toNat_add, hone] at hmono
  have hlt := (exec step (RaftEngine.new nodeId config) as).state.currentTerm.toNat_lt
  omega

end Virthub.Raft
