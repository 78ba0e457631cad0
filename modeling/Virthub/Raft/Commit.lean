import Mathlib.Order.Nat
import Virthub.Raft.Replication

/-! The committed prefix along a run of one node. The commit index moves in two places, and
the log shrinks in one: the truncation on a conflict, which does not look at that index. -/
namespace Virthub.Raft
open Virthub.Klnk (NodeId)
open Virthub.Lib

def CommitWithinLog (e : RaftEngine) : Prop := e.state.commitIndex.toNat ≤ e.state.log.length

/-- The commit index stays within the log and is not lowered, and every entry up to its old
value stays in place. -/
structure CommitStable (e e' : RaftEngine) : Prop where
  within : CommitWithinLog e'
  mono : e.state.commitIndex.toNat ≤ e'.state.commitIndex.toNat
  keep : ∀ i < e.state.commitIndex.toNat, e'.state.log[i]? = e.state.log[i]?

/-- The call cuts no committed entry: a conflict lies behind the commit index. -/
def KeepsCommitted (e : RaftEngine) : RaftCall → Prop
  | .appendEntries leaderId term prevLogIndex prevLogTerm entries leaderCommit =>
    e.Conflicts ⟨leaderId, term, prevLogIndex, prevLogTerm, entries, leaderCommit⟩ →
      e.state.commitIndex.toNat < prevLogIndex.toNat
  | _ => True

instance (e : RaftEngine) (call : RaftCall) : Decidable (KeepsCommitted e call) :=
  match call with
  | .appendEntries .. => inferInstanceAs (Decidable (_ → _))
  | .proposeCommand .. | .proposeLockAcquire .. | .proposeLockRelease .. | .requestVote ..
  | .promoteToLeader | .startElection | .commitToIndex .. | .setCommitCallback => .isTrue trivial

namespace RaftEngine

theorem stable_of_eq {e e' : RaftEngine} (hw : CommitWithinLog e)
    (hl : e'.state.log = e.state.log) (hc : e'.state.commitIndex = e.state.commitIndex) :
    CommitStable e e' := by
  refine ⟨?_, hc ▸ le_rfl, fun i _ => by rw [hl]⟩
  unfold CommitWithinLog
  rw [hl, hc]
  exact hw

theorem stable_of_append {e e' : RaftEngine} (hw : CommitWithinLog e) (es : List RaftLogEntry)
    (hl : e'.state.log = e.state.log ++ es)
    (hlo : e.state.commitIndex.toNat ≤ e'.state.commitIndex.toNat)
    (hhi : e'.state.commitIndex.toNat ≤ e'.state.log.length) : CommitStable e e' := by
  refine ⟨hhi, hlo, fun i hi => ?_⟩
  have hlt : i < e.state.log.length := hi.trans_le hw
  rw [hl, List.getElem?_append_left hlt]

theorem stable_propose {e : RaftEngine} (hw : CommitWithinLog e)
    (entry : UInt64 → UInt64 → RaftLogEntry) : CommitStable e (e.propose entry).2 := by
  unfold propose
  split_ifs
  · exact stable_of_eq hw rfl rfl
  · refine stable_of_append hw _ rfl le_rfl ?_
    have hw : e.state.commitIndex.toNat ≤ e.state.log.length := hw
    simp only [List.length_append]
    omega

theorem stable_handleRequestVote {e : RaftEngine} (hw : CommitWithinLog e) (candidateId : NodeId)
    (term lastLogIndex lastLogTerm : UInt64) :
    CommitStable e (e.handleRequestVote candidateId term lastLogIndex lastLogTerm).2 := by
  unfold handleRequestVote stepDown
  dsimp only
  split_ifs <;> exact stable_of_eq hw rfl rfl

/-- The new commit index is the least of the leader's and the log's length, so it stays
below both. -/
theorem appendAndCommit_commitIndex (e : RaftEngine) (term : UInt64) (entries : List RaftLogEntry)
    (leaderCommit : UInt64) :
    (e.appendAndCommit term entries leaderCommit).state.commitIndex.toNat =
      if e.state.commitIndex.toNat < leaderCommit.toNat then
        min leaderCommit.toNat (e.state.log.length + entries.length)
      else e.state.commitIndex.toNat := by
  have hb := leaderCommit.toNat_lt
  simp only [appendAndCommit, gt_iff_lt, UInt64.lt_iff_toNat_lt, List.length_append,
    List.length_map]
  split_ifs
  · rw [Nat.toUInt64_eq, UInt64.toNat_ofNat', Nat.mod_eq_of_lt (by omega)]
  · rfl

theorem stable_appendAndCommit {e : RaftEngine} (hw : CommitWithinLog e) (term : UInt64)
    (entries : List RaftLogEntry) (leaderCommit : UInt64) :
    CommitStable e (e.appendAndCommit term entries leaderCommit) := by
  have hw' : e.state.commitIndex.toNat ≤ e.state.log.length := hw
  have hlen : (e.appendAndCommit term entries leaderCommit).state.log.length =
      e.state.log.length + entries.length := by
    simp [appendAndCommit]
  refine stable_of_append hw (entries.map (RaftLogEntry.setTerm term)) rfl ?_ ?_
  · rw [appendAndCommit_commitIndex]
    split_ifs <;> omega
  · rw [appendAndCommit_commitIndex, hlen]
    split_ifs <;> omega

theorem stable_deliver {e : RaftEngine} (hw : CommitWithinLog e) (r : AppendRequest)
    (hk : e.Conflicts r → e.state.commitIndex.toNat < r.prevLogIndex.toNat) :
    CommitStable e (e.deliver r).2 := by
  rcases deliver_cases e r with ⟨-, -, -, he | he⟩ | ⟨hc, he⟩ | ⟨-, he⟩
  · rw [he]
    exact stable_of_eq hw rfl rfl
  · rw [he]
    exact stable_of_eq hw (recognizeLeader_log ..) (recognizeLeader_commitIndex ..)
  · have hlt := hk hc
    obtain ⟨-, -, entry, hm, -⟩ := hc
    have hlen := (List.getElem?_eq_some_iff.mp hm).1
    rw [he]
    refine ⟨?_, by simp, fun i hi => ?_⟩
    · simp only [CommitWithinLog, recognizeLeader_log, recognizeLeader_commitIndex,
        List.length_take]
      omega
    · simp only [recognizeLeader_log]
      rw [List.getElem?_take_of_lt (by omega)]
  · rw [he]
    have hw' : CommitWithinLog (e.recognizeLeader r.leaderId r.term) := by
      simpa [CommitWithinLog] using hw
    obtain ⟨hin, hmono, hkeep⟩ := stable_appendAndCommit hw' r.term r.entries r.leaderCommit
    exact ⟨hin, by simpa using hmono, by simpa using hkeep⟩

theorem stable_commitToIndex {e : RaftEngine} (hw : CommitWithinLog e) (targetIndex : UInt64) :
    CommitStable e (e.commitToIndex targetIndex).2 := by
  unfold commitToIndex
  split_ifs with hb hc
  · exact stable_of_eq hw rfl rfl
  · have hc' := UInt64.lt_iff_toNat_lt.mp hc
    exact ⟨not_lt.mp hb, hc'.le, fun _ _ => rfl⟩
  · exact stable_of_eq hw rfl rfl

end RaftEngine

theorem step_stable (e : RaftEngine) (call : RaftCall) (hw : CommitWithinLog e)
    (hk : KeepsCommitted e call) : CommitStable e (step e call).2 := by
  cases call with
  | proposeCommand payload =>
    exact RaftEngine.stable_propose hw fun index term => .command index term payload
  | proposeLockAcquire resourceId clientPid =>
    exact RaftEngine.stable_propose hw fun _ _ => .lockAcquire resourceId clientPid
  | proposeLockRelease resourceId clientPid =>
    exact RaftEngine.stable_propose hw fun _ _ => .lockRelease resourceId clientPid
  | requestVote candidateId term lastLogIndex lastLogTerm =>
    exact RaftEngine.stable_handleRequestVote hw candidateId term lastLogIndex lastLogTerm
  | appendEntries leaderId term prevLogIndex prevLogTerm entries leaderCommit =>
    exact RaftEngine.stable_deliver hw
      ⟨leaderId, term, prevLogIndex, prevLogTerm, entries, leaderCommit⟩ hk
  | promoteToLeader => exact RaftEngine.stable_of_eq hw rfl rfl
  | startElection => exact RaftEngine.stable_of_eq hw rfl rfl
  | commitToIndex targetIndex => exact RaftEngine.stable_commitToIndex hw targetIndex
  | setCommitCallback => exact RaftEngine.stable_of_eq hw rfl rfl

/-- A run that meets no conflict within the committed prefix keeps that prefix. -/
theorem commitStable_of_keepsCommitted (nodeId : NodeId) (config : RaftConfig)
    (calls : List RaftCall)
    (hk : Along (fun _ => KeepsCommitted) step (RaftEngine.new nodeId config) calls) :
    CommitWithinLog (exec step (RaftEngine.new nodeId config) calls) ∧
      ∀ v ∈ trace step (RaftEngine.new nodeId config) calls, CommitStable v.pre v.post := by
  refine forall_event_of_invariant (C := KeepsCommitted) (I := CommitWithinLog) ?_ ?_ calls hk
  · exact Nat.zero_le _
  · intro e call hw hc
    have hs := step_stable e call hw hc
    exact ⟨hs.within, hs⟩

private def conflictBehindCommit : List RaftCall :=
  [.appendEntries ⟨2⟩ 1 0 0 [.command 1 1 [], .command 2 1 []] 1, .appendEntries ⟨3⟩ 2 2 2 [] 1]

/-- The condition is met by a conflict right behind the committed entry. -/
theorem commitStable_of_keepsCommitted_conflict :
    CommitWithinLog (exec step (RaftEngine.new ⟨1⟩ (.defaultConfig ⟨1⟩)) conflictBehindCommit) ∧
      ∀ v ∈ trace step (RaftEngine.new ⟨1⟩ (.defaultConfig ⟨1⟩)) conflictBehindCommit,
        CommitStable v.pre v.post := by
  apply commitStable_of_keepsCommitted
  simp only [conflictBehindCommit, along_cons, along_nil, and_true]
  decide

/-- A follower that has committed its only entry drops it when the next leader names
another term for it; the commit index then points past the log. -/
theorem commitStable_fails_on_conflict :
    ¬ ∀ (nodeId : NodeId) (config : RaftConfig) (calls : List RaftCall),
      CommitWithinLog (exec step (RaftEngine.new nodeId config) calls) ∧
        ∀ v ∈ trace step (RaftEngine.new nodeId config) calls, CommitStable v.pre v.post := by
  intro h
  have hw : 1 ≤ 0 := (h ⟨1⟩ (RaftConfig.defaultConfig ⟨1⟩)
    [.appendEntries ⟨2⟩ 1 0 0 [.command 1 1 []] 1, .appendEntries ⟨3⟩ 2 1 2 [] 1]).1
  omega

end Virthub.Raft
