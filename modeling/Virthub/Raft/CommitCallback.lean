import Virthub.Raft.Commit

/-! What the commit callback has been given. Only `commit_to_index` invokes it: entries that
`handle_append_entries` commits are never delivered. -/
namespace Virthub.Raft
open Virthub.Klnk (NodeId)
open Virthub.Lib

/-- The callback has been given the committed part of the log, each entry once and in order. -/
def Delivered (e : RaftEngine) : Prop :=
  e.delivered.flatten = e.state.log.take e.state.commitIndex.toNat

/-- The call cuts no committed entry, and a request that it accepts does not advance the commit
index: the leader's is not ahead, or all that the log then holds is committed already. -/
def KeepsDelivered (e : RaftEngine) : RaftCall → Prop
  | .appendEntries leaderId term prevLogIndex prevLogTerm entries leaderCommit =>
    let r : AppendRequest := ⟨leaderId, term, prevLogIndex, prevLogTerm, entries, leaderCommit⟩
    (e.Conflicts r → e.state.commitIndex.toNat < prevLogIndex.toNat) ∧
      (e.Accepts r → leaderCommit ≤ e.state.commitIndex ∨
        e.state.log.length + entries.length ≤ e.state.commitIndex.toNat)
  | _ => True

theorem KeepsDelivered.keepsCommitted {e : RaftEngine} {call : RaftCall}
    (h : KeepsDelivered e call) : KeepsCommitted e call := by
  cases call with
  | appendEntries leaderId term prevLogIndex prevLogTerm entries leaderCommit => exact h.1
  | _ => trivial

/-- The state between the calls of a node whose callback is registered. -/
structure CallbackInv (e : RaftEngine) : Prop where
  registered : e.commitCallback = true
  within : CommitWithinLog e
  delivered : Delivered e

theorem CallbackInv.length {e : RaftEngine} (h : CallbackInv e) :
    e.delivered.flatten.length = e.state.commitIndex.toNat := by
  rw [h.delivered, List.length_take]
  exact min_eq_left h.within

theorem CallbackInv.of_stable {e e' : RaftEngine} (h : CallbackInv e) (hs : CommitStable e e')
    (hc : e'.state.commitIndex = e.state.commitIndex) (hd : e'.delivered = e.delivered)
    (hr : e'.commitCallback = e.commitCallback) : CallbackInv e' := by
  refine ⟨hr.trans h.registered, hs.within, ?_⟩
  unfold Delivered
  rw [hd, h.delivered, hc]
  apply List.ext_getElem?
  intro i
  by_cases hi : i < e.state.commitIndex.toNat
  · rw [List.getElem?_take_of_lt hi, List.getElem?_take_of_lt hi, hs.keep i hi]
  · rw [List.getElem?_take_eq_none (not_lt.mp hi), List.getElem?_take_eq_none (not_lt.mp hi)]

def RaftCall.CommitFree : RaftCall → Prop
  | .commitToIndex _ | .appendEntries .. => False
  | _ => True

namespace RaftEngine

theorem step_callback (e : RaftEngine) (call : RaftCall) (hc : call.CommitFree)
    (hr : e.commitCallback = true) :
    (step e call).2.state.commitIndex = e.state.commitIndex ∧
      (step e call).2.delivered = e.delivered ∧ (step e call).2.commitCallback = e.commitCallback := by
  cases call with
  | proposeCommand payload =>
    simp only [step, proposeCommand, propose]
    split_ifs <;> exact ⟨rfl, rfl, rfl⟩
  | proposeLockAcquire resourceId clientPid =>
    simp only [step, proposeLockAcquire, propose]
    split_ifs <;> exact ⟨rfl, rfl, rfl⟩
  | proposeLockRelease resourceId clientPid =>
    simp only [step, proposeLockRelease, propose]
    split_ifs <;> exact ⟨rfl, rfl, rfl⟩
  | requestVote candidateId term lastLogIndex lastLogTerm =>
    simp only [step, handleRequestVote, stepDown]
    split_ifs <;> exact ⟨rfl, rfl, rfl⟩
  | appendEntries leaderId term prevLogIndex prevLogTerm entries leaderCommit => exact hc.elim
  | promoteToLeader => exact ⟨rfl, rfl, rfl⟩
  | startElection => exact ⟨rfl, rfl, rfl⟩
  | commitToIndex targetIndex => exact hc.elim
  | setCommitCallback => exact ⟨rfl, rfl, hr.symm⟩

theorem recognizeLeader_callback (e : RaftEngine) (leaderId : NodeId) (term : UInt64) :
    (e.recognizeLeader leaderId term).delivered = e.delivered ∧
      (e.recognizeLeader leaderId term).commitCallback = e.commitCallback := by
  unfold recognizeLeader
  dsimp only
  split_ifs <;> exact ⟨rfl, rfl⟩

theorem deliver_callback (e : RaftEngine) (r : AppendRequest) :
    (e.deliver r).2.delivered = e.delivered ∧
      (e.deliver r).2.commitCallback = e.commitCallback := by
  have hl := recognizeLeader_callback e r.leaderId r.term
  rcases deliver_cases e r with ⟨-, -, -, he | he⟩ | ⟨-, he⟩ | ⟨-, he⟩
  · rw [he]
    exact ⟨rfl, rfl⟩
  all_goals
    rw [he]
    exact hl

/-- A request leaves the commit index and the log, or it cuts, or it appends. -/
theorem deliver_commitIndex (e : RaftEngine) (r : AppendRequest) :
    (¬ e.Accepts r ∧ ¬ e.Conflicts r ∧ (e.deliver r).2.state.commitIndex = e.state.commitIndex ∧
      (e.deliver r).2.state.log = e.state.log) ∨
    (e.Conflicts r ∧ ¬ e.Accepts r ∧ (e.deliver r).2.state.commitIndex = e.state.commitIndex ∧
      (e.deliver r).2.state.log = e.state.log.take (r.prevLogIndex.toNat - 1)) ∨
    (e.Accepts r ∧ ¬ e.Conflicts r ∧ (e.deliver r).2.state.commitIndex.toNat =
        (if e.state.commitIndex.toNat < r.leaderCommit.toNat then
          min r.leaderCommit.toNat (e.state.log.length + r.entries.length)
        else e.state.commitIndex.toNat) ∧
      (e.deliver r).2.state.log.length = e.state.log.length + r.entries.length) := by
  rcases deliver_cases e r with ⟨ha, hc, -, he | he⟩ | ⟨hc, he⟩ | ⟨ha, he⟩
  · left
    rw [he]
    exact ⟨ha, hc, rfl, rfl⟩
  · left
    rw [he]
    exact ⟨ha, hc, recognizeLeader_commitIndex .., recognizeLeader_log ..⟩
  · right; left
    refine ⟨hc, ?_, ?_, ?_⟩
    · intro ha
      have hok := deliver_of_accepts ha
      rw [he] at hok
      cases hok
    · rw [he]
      exact recognizeLeader_commitIndex e r.leaderId r.term
    · rw [he]
      simp only [recognizeLeader_log]
  · right; right
    refine ⟨ha, ?_, ?_, ?_⟩
    · intro hc
      obtain ⟨-, hp, entry, hm, ht⟩ := hc
      rcases ha.2 with hz | ⟨entry', hm', ht'⟩
      · rw [hz] at hp
        exact absurd hp (by decide)
      · rw [Option.mem_unique hm hm'] at ht
        exact ht ht'
    · rw [he, appendAndCommit_commitIndex, recognizeLeader_commitIndex, recognizeLeader_log]
    · rw [deliver_log_of_accepts ha, List.length_append, List.length_map]

end RaftEngine

theorem CallbackInv.commitToIndex {e : RaftEngine} (h : CallbackInv e) (targetIndex : UInt64) :
    CallbackInv (e.commitToIndex targetIndex).2 := by
  have hs := RaftEngine.stable_commitToIndex h.within targetIndex
  refine ⟨?_, hs.within, ?_⟩
  · unfold RaftEngine.commitToIndex
    split_ifs <;> exact h.registered
  · unfold Delivered RaftEngine.commitToIndex
    split_ifs with hb hc
    · exact h.delivered
    · have hlt := UInt64.lt_iff_toNat_lt.mp hc
      have hsplit := List.take_append_drop e.state.commitIndex.toNat
        (e.state.log.take targetIndex.toNat)
      rw [List.take_take, min_eq_left hlt.le, ← h.delivered] at hsplit
      refine Eq.trans ?_ hsplit
      dsimp only
      split_ifs with hn
      · rw [List.flatten_append, List.flatten_singleton]
      · have hnil : (e.state.log.take targetIndex.toNat).drop e.state.commitIndex.toNat = [] := by
          by_contra hne
          exact hn ⟨h.registered, hne⟩
        rw [hnil, List.append_nil]
    · exact h.delivered

theorem CallbackInv.deliver {e : RaftEngine} (h : CallbackInv e) (r : AppendRequest)
    (hc : e.Conflicts r → e.state.commitIndex.toNat < r.prevLogIndex.toNat)
    (ha : e.Accepts r → r.leaderCommit ≤ e.state.commitIndex ∨
      e.state.log.length + r.entries.length ≤ e.state.commitIndex.toNat) :
    CallbackInv (e.deliver r).2 := by
  obtain ⟨hd, hr⟩ := RaftEngine.deliver_callback e r
  refine h.of_stable (RaftEngine.stable_deliver h.within r hc) ?_ hd hr
  rcases RaftEngine.deliver_commitIndex e r with ⟨-, -, hi, -⟩ | ⟨-, -, hi, -⟩ | ⟨hacc, -, hi, -⟩
  · exact hi
  · exact hi
  · have hw : e.state.commitIndex.toNat ≤ e.state.log.length := h.within
    apply UInt64.toNat_inj.mp
    rw [hi]
    rcases ha hacc with hle | hle
    · rw [if_neg (not_lt.mpr (UInt64.le_iff_toNat_le.mp hle))]
    · split_ifs <;> omega

/-- A request after which everything is delivered has not moved the commit index or cut below it,
since it delivers nothing. -/
theorem CallbackInv.of_deliver {e : RaftEngine} (h : CallbackInv e) {r : AppendRequest}
    (hd : Delivered (e.deliver r).2) :
    (e.Conflicts r → e.state.commitIndex.toNat < r.prevLogIndex.toNat) ∧
      (e.Accepts r → r.leaderCommit ≤ e.state.commitIndex ∨
        e.state.log.length + r.entries.length ≤ e.state.commitIndex.toNat) := by
  have hw : e.state.commitIndex.toNat ≤ e.state.log.length := h.within
  have hlen := congrArg List.length hd
  rw [(RaftEngine.deliver_callback e r).1, h.length, List.length_take] at hlen
  rcases RaftEngine.deliver_commitIndex e r with ⟨hna, hnc, -, -⟩ | ⟨hcon, hna, -, hlog⟩ |
    ⟨-, hnc, hi, hlog⟩
  · exact ⟨fun hc => absurd hc hnc, fun ha => absurd ha hna⟩
  · refine ⟨fun _ => ?_, fun ha => absurd ha hna⟩
    have hp := UInt64.lt_iff_toNat_lt.mp hcon.2.1
    rw [hlog, List.length_take] at hlen
    rw [UInt64.toNat_zero] at hp
    omega
  · refine ⟨fun hc => absurd hc hnc, fun _ => ?_⟩
    rw [hi, hlog] at hlen
    rw [UInt64.le_iff_toNat_le]
    split_ifs at hlen with hlt
    · right
      omega
    · left
      omega

theorem CallbackInv.step {e : RaftEngine} (h : CallbackInv e) (call : RaftCall)
    (hk : KeepsDelivered e call) : CallbackInv (Raft.step e call).2 := by
  by_cases hfree : call.CommitFree
  · obtain ⟨hi, hd, hr⟩ := RaftEngine.step_callback e call hfree h.registered
    exact h.of_stable (step_stable e call h.within hk.keepsCommitted) hi hd hr
  · cases call with
    | commitToIndex targetIndex => exact h.commitToIndex targetIndex
    | appendEntries leaderId term prevLogIndex prevLogTerm entries leaderCommit =>
      exact h.deliver ⟨leaderId, term, prevLogIndex, prevLogTerm, entries, leaderCommit⟩ hk.1 hk.2
    | _ => exact absurd trivial hfree

theorem CallbackInv.keepsDelivered {e : RaftEngine} (h : CallbackInv e) {call : RaftCall}
    (hd : Delivered (Raft.step e call).2) : KeepsDelivered e call := by
  cases call with
  | appendEntries leaderId term prevLogIndex prevLogTerm entries leaderCommit =>
    exact h.of_deliver (r := ⟨leaderId, term, prevLogIndex, prevLogTerm, entries, leaderCommit⟩) hd
  | _ => trivial

/-- Everything committed is delivered throughout a run exactly if no request of a leader advances
the commit index or cuts below it. -/
theorem delivered_iff (nodeId : NodeId) (config : RaftConfig) (calls : List RaftCall) :
    (∀ as, as <+: calls →
      Delivered (exec step (RaftEngine.new nodeId config).setCommitCallback as)) ↔
      Along (fun _ => KeepsDelivered) step (RaftEngine.new nodeId config).setCommitCallback calls := by
  apply forall_prefix_iff_along (I := CallbackInv)
  · exact ⟨rfl, Nat.zero_le _, rfl⟩
  · exact fun _ h => h.delivered
  · exact fun _ call h hk => h.step call hk
  · exact fun _ _ h hd => h.keepsDelivered hd

/-- A follower commits the entry that the leader sends, and its callback hears nothing. -/
theorem delivered_fails_on_appendEntries :
    ¬ ∀ (nodeId : NodeId) (config : RaftConfig) (calls : List RaftCall),
      Delivered (exec step (RaftEngine.new nodeId config).setCommitCallback calls) := by
  intro h
  have hd : [] = [RaftLogEntry.lockAcquire 7 42] := h ⟨1⟩ (RaftConfig.defaultConfig ⟨1⟩)
    [.appendEntries ⟨2⟩ 1 0 0 [.lockAcquire 7 42] 1]
  cases hd

end Virthub.Raft
