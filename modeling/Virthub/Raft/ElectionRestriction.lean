import Mathlib.Data.Prod.Lex
import Mathlib.Order.Nat
import Virthub.Raft.State

/-! Votes against logs that a node has built as a leader. A lock entry reports the term zero
whatever term it was proposed in, so a voter whose log ends in one takes older logs for newer. -/
namespace Virthub.Raft
open Virthub.Klnk (NodeId)
open Virthub.Lib

def RaftLogEntry.IsCommand : RaftLogEntry → Prop
  | .command .. => True
  | _ => False

theorem RaftLogEntry.term_of_not_isCommand {entry : RaftLogEntry} (h : ¬ entry.IsCommand) :
    entry.term = 0 := by
  cases entry with
  | command index term payload => exact absurd trivial h
  | lockAcquire resourceId clientPid => rfl
  | lockRelease resourceId clientPid => rfl

/-- The call leaves entries of other leaders out of the log. -/
def RaftCall.Local : RaftCall → Prop
  | .appendEntries .. => False
  | _ => True

def proposedIn (v : Event RaftEngine RaftCall RaftAnswer) : Option UInt64 :=
  match v.answer with
  | .index (.ok _) => some v.pre.state.currentTerm
  | _ => none

/-- The terms in which the entries of the log were proposed. -/
def trueTerms (h : List (Event RaftEngine RaftCall RaftAnswer)) : List UInt64 :=
  h.filterMap proposedIn

def lastTrueTerm (h : List (Event RaftEngine RaftCall RaftAnswer)) : UInt64 :=
  (trueTerms h).getLast?.getD 0

/-- A call on the log of a node: it adds nothing, or one entry proposed in the running term. -/
theorem step_log (e : RaftEngine) (call : RaftCall) (hl : call.Local) :
    ((step e call).2.state.log = e.state.log ∧ proposedIn (event step e call) = none) ∨
      ∃ entry, (step e call).2.state.log = e.state.log ++ [entry] ∧
        proposedIn (event step e call) = some e.state.currentTerm ∧
        (entry.IsCommand → entry.term = e.state.currentTerm) := by
  have hpropose : ∀ entry : UInt64 → UInt64 → RaftLogEntry,
      (∀ index term, (entry index term).IsCommand → (entry index term).term = term) →
      ((e.propose entry).2.state.log = e.state.log ∧
        proposedIn ⟨e, call, .index (e.propose entry).1, (e.propose entry).2⟩ = none) ∨
      ∃ x, (e.propose entry).2.state.log = e.state.log ++ [x] ∧
        proposedIn ⟨e, call, .index (e.propose entry).1, (e.propose entry).2⟩ =
          some e.state.currentTerm ∧ (x.IsCommand → x.term = e.state.currentTerm) := by
    intro entry hentry
    unfold RaftEngine.propose
    split_ifs with hr
    · exact Or.inl ⟨rfl, rfl⟩
    · exact Or.inr ⟨_, rfl, rfl, hentry _ _⟩
  cases call with
  | proposeCommand payload =>
    exact hpropose (fun index term => .command index term payload) fun _ _ _ => rfl
  | proposeLockAcquire resourceId clientPid =>
    exact hpropose (fun _ _ => .lockAcquire resourceId clientPid) fun _ _ hc => absurd hc not_false
  | proposeLockRelease resourceId clientPid =>
    exact hpropose (fun _ _ => .lockRelease resourceId clientPid) fun _ _ hc => absurd hc not_false
  | requestVote candidateId term lastLogIndex lastLogTerm =>
    left
    refine ⟨?_, rfl⟩
    simp only [step, RaftEngine.handleRequestVote, RaftEngine.stepDown]
    split_ifs <;> rfl
  | appendEntries leaderId term prevLogIndex prevLogTerm entries leaderCommit => exact hl.elim
  | promoteToLeader => exact Or.inl ⟨rfl, rfl⟩
  | startElection => exact Or.inl ⟨rfl, rfl⟩
  | commitToIndex targetIndex =>
    left
    refine ⟨?_, rfl⟩
    simp only [step, RaftEngine.commitToIndex]
    split_ifs <;> rfl
  | setCommitCallback => exact Or.inl ⟨rfl, rfl⟩

/-- The log of a node against the terms that its entries were proposed in. -/
structure Recorded (h : List (Event RaftEngine RaftCall RaftAnswer)) (e : RaftEngine) : Prop where
  length : (trueTerms h).length = e.state.log.length
  last : ∀ entry, e.state.log.getLast? = some entry → entry.IsCommand → entry.term = lastTrueTerm h

theorem recorded_run (nodeId : NodeId) (config : RaftConfig) (calls : List RaftCall)
    (hl : ∀ call ∈ calls, call.Local) :
    Recorded (trace step (RaftEngine.new nodeId config) calls)
      (exec step (RaftEngine.new nodeId config) calls) := by
  refine history_induction (C := fun _ _ call => call.Local) ?_ ?_ calls ?_
  · exact ⟨rfl, by simp [RaftEngine.new]⟩
  · intro h e call hr hc
    have hterms : trueTerms (h ++ [event step e call]) =
        trueTerms h ++ (proposedIn (event step e call)).toList := by
      unfold trueTerms
      cases hp : proposedIn (event step e call) <;> simp [hp]
    rcases step_log e call hc with ⟨hlog, hnone⟩ | ⟨entry, hlog, hsome, hentry⟩
    · rw [hnone, Option.toList_none, List.append_nil] at hterms
      constructor
      · rw [hterms, hlog]
        exact hr.length
      · rw [lastTrueTerm, hterms, hlog]
        exact hr.last
    · rw [hsome, Option.toList_some] at hterms
      constructor
      · simp only [hterms, hlog, List.length_append, List.length_singleton, hr.length]
      · intro x hx hcommand
        rw [hlog, List.getLast?_concat] at hx
        rw [lastTrueTerm, hterms, List.getLast?_concat]
        cases hx
        exact hentry hcommand
  · intro as call bs heq
    exact hl call (by simp [heq])

/-- The last true term and the length of a log, in the order that elections go by. -/
def trueLast (h : List (Event RaftEngine RaftCall RaftAnswer)) (e : RaftEngine) : ℕ ×ₗ ℕ :=
  toLex ((lastTrueTerm h).toNat, e.state.log.length)

theorem trueLast_le_iff {h h' : List (Event RaftEngine RaftCall RaftAnswer)} {e e' : RaftEngine} :
    trueLast h e ≤ trueLast h' e' ↔ lastTrueTerm h < lastTrueTerm h' ∨
      lastTrueTerm h = lastTrueTerm h' ∧ e.state.log.length ≤ e'.state.log.length := by
  unfold trueLast
  rw [Prod.Lex.toLex_le_toLex, UInt64.lt_iff_toNat_lt, UInt64.toNat_inj]

/-- No candidate with a log of its own making gets the vote without a log that is at least as
recent as the voter's. -/
def ElectionRestriction (h : List (Event RaftEngine RaftCall RaftAnswer)) (voter : RaftEngine) :
    Prop :=
  ∀ (candidateId : NodeId) (config : RaftConfig) (calls : List RaftCall) (term : UInt64),
    (∀ call ∈ calls, call.Local) →
    let candidate := exec step (RaftEngine.new candidateId config) calls
    (voter.handleRequestVote candidateId term candidate.lastLogIndex candidate.lastLogTerm).1 =
      .ok true →
    trueLast h voter ≤ trueLast (trace step (RaftEngine.new candidateId config) calls) candidate

namespace RaftEngine

theorem lastLogTerm_of_recorded {h : List (Event RaftEngine RaftCall RaftAnswer)} {e : RaftEngine}
    (hr : Recorded h e) : e.lastLogTerm = lastTrueTerm h ∨
      e.lastLogTerm = 0 ∧ ∃ entry, e.state.log.getLast? = some entry ∧ ¬ entry.IsCommand := by
  cases hlast : e.state.log.getLast? with
  | none =>
    left
    have hnil : trueTerms h = [] := by
      have hlen := hr.length
      rw [List.getLast?_eq_none_iff.mp hlast] at hlen
      exact List.eq_nil_of_length_eq_zero hlen
    simp [lastLogTerm, lastTrueTerm, hlast, hnil]
  | some entry =>
    by_cases hc : entry.IsCommand
    · left
      rw [← hr.last entry hlast hc]
      simp [lastLogTerm, hlast]
    · right
      refine ⟨?_, entry, rfl, hc⟩
      simp [lastLogTerm, hlast, RaftLogEntry.term_of_not_isCommand hc]

theorem upToDate_of_granted {e : RaftEngine} {candidateId : NodeId}
    {term lastLogIndex lastLogTerm : UInt64}
    (h : (e.handleRequestVote candidateId term lastLogIndex lastLogTerm).1 = .ok true) :
    e.lastLogTerm < lastLogTerm ∨
      lastLogTerm = e.lastLogTerm ∧ e.state.log.length ≤ lastLogIndex.toNat := by
  have hlog : (e.stepDown term).state.log = e.state.log := by
    unfold stepDown
    split_ifs <;> rfl
  have hup : logIsUpToDate e.state.log lastLogIndex lastLogTerm = true := by
    unfold handleRequestVote at h
    dsimp only at h
    rw [hlog] at h
    split_ifs at h with hs hg
    · exact hg.2
    · cases h
  simpa [logIsUpToDate, RaftEngine.lastLogTerm] using hup

theorem granted_of_upToDate {e : RaftEngine} {lastLogIndex lastLogTerm : UInt64}
    (h : logIsUpToDate e.state.log lastLogIndex lastLogTerm = true) :
    ∃ candidateId term,
      (e.handleRequestVote candidateId term lastLogIndex lastLogTerm).1 = .ok true := by
  refine ⟨e.state.votedFor.getD ⟨0⟩, e.state.currentTerm, ?_⟩
  have hnot : ¬ e.state.currentTerm < e.state.currentTerm := UInt64.lt_irrefl _
  have hvote : e.state.votedFor = none ∨ e.state.votedFor = some (e.state.votedFor.getD ⟨0⟩) := by
    cases e.state.votedFor with
    | none => exact Or.inl rfl
    | some candidateId => exact Or.inr rfl
  simp only [handleRequestVote, stepDown, gt_iff_lt, hnot, if_false, h, hvote, and_self, if_true]

end RaftEngine

theorem electionRestriction_of_lastLogTerm {h : List (Event RaftEngine RaftCall RaftAnswer)}
    {voter : RaftEngine} (hv : voter.lastLogTerm = lastTrueTerm h) :
    ElectionRestriction h voter := by
  intro candidateId config calls term hl candidate hgranted
  have hup := RaftEngine.upToDate_of_granted hgranted
  have hlen : candidate.lastLogIndex.toNat ≤ candidate.state.log.length := by
    unfold RaftEngine.lastLogIndex
    rw [Nat.toUInt64_eq, UInt64.toNat_ofNat']
    exact Nat.mod_le _ _
  rw [trueLast_le_iff, ← hv]
  rcases RaftEngine.lastLogTerm_of_recorded (recorded_run candidateId config calls hl) with
    hc | ⟨hz, -⟩
  · rw [← hc]
    exact hup.imp_right fun hup => ⟨hup.1.symm, hup.2.trans hlen⟩
  · -- the reported term is zero, so the voter's last term is zero too
    have hz' : candidate.lastLogTerm = 0 := hz
    rw [hz'] at hup
    rcases hup with hlt | ⟨heq, hup⟩
    · exact absurd hlt (by simp)
    · rw [← heq]
      by_cases ht : lastTrueTerm (trace step (RaftEngine.new candidateId config) calls) = 0
      · exact Or.inr ⟨ht.symm, hup.trans hlen⟩
      · exact Or.inl (UInt64.pos_iff_ne_zero.mpr ht)

private def commandInTermOne : List RaftCall := [.startElection, .promoteToLeader, .proposeCommand []]

private def commandInTermZero : List RaftCall := [.promoteToLeader, .proposeCommand []]

/-- A lock entry at the end of the voter's log lets in a candidate with an older log. -/
theorem not_electionRestriction {h : List (Event RaftEngine RaftCall RaftAnswer)}
    {voter : RaftEngine} (hlast : voter.lastLogTerm = 0) (hlen : 0 < voter.state.log.length)
    (ht : lastTrueTerm h ≠ 0) : ¬ ElectionRestriction h voter := by
  intro hrestriction
  have hzero : ((voter.state.log.getLast?.map RaftLogEntry.term).getD 0) = 0 := hlast
  by_cases hone : lastTrueTerm h = 1 ∧ voter.state.log.length = 1
  · have hup : RaftEngine.logIsUpToDate voter.state.log 1 0 = true := by
      simp [RaftEngine.logIsUpToDate, hzero, hone.2]
    obtain ⟨candidateId, term, hgranted⟩ := RaftEngine.granted_of_upToDate hup
    have hle := hrestriction candidateId (.defaultConfig candidateId) commandInTermZero term
      (by simp [commandInTermZero, RaftCall.Local]) hgranted
    rw [trueLast_le_iff, hone.1] at hle
    have hcand : lastTrueTerm (trace step (RaftEngine.new candidateId (.defaultConfig candidateId))
        commandInTermZero) = 0 := rfl
    rw [hcand] at hle
    simp at hle
  · have hup : RaftEngine.logIsUpToDate voter.state.log 1 1 = true := by
      simp [RaftEngine.logIsUpToDate, hzero]
    obtain ⟨candidateId, term, hgranted⟩ := RaftEngine.granted_of_upToDate hup
    have hle := hrestriction candidateId (.defaultConfig candidateId) commandInTermOne term
      (by simp [commandInTermOne, RaftCall.Local]) hgranted
    rw [trueLast_le_iff] at hle
    have hcand : lastTrueTerm (trace step (RaftEngine.new candidateId (.defaultConfig candidateId))
        commandInTermOne) = 1 := rfl
    rw [hcand] at hle
    rcases hle with hlt | ⟨heq, hle⟩
    · exact ht (UInt64.lt_one_iff.mp hlt)
    · have hle' : voter.state.log.length ≤ 1 := hle
      exact hone ⟨heq, by omega⟩

/-- A voter with a log of its own making keeps to the restriction exactly if that log does not end
in a lock entry of a term other than zero. -/
theorem electionRestriction_iff (nodeId : NodeId) (config : RaftConfig) (calls : List RaftCall)
    (hl : ∀ call ∈ calls, call.Local) :
    ElectionRestriction (trace step (RaftEngine.new nodeId config) calls)
        (exec step (RaftEngine.new nodeId config) calls) ↔
      ∀ entry, (exec step (RaftEngine.new nodeId config) calls).state.log.getLast? = some entry →
        ¬ entry.IsCommand →
          lastTrueTerm (trace step (RaftEngine.new nodeId config) calls) = 0 := by
  have hr := recorded_run nodeId config calls hl
  constructor
  · intro hrestriction entry hlast hc
    by_contra ht
    refine not_electionRestriction ?_ ?_ ht hrestriction
    · simp [RaftEngine.lastLogTerm, hlast, RaftLogEntry.term_of_not_isCommand hc]
    · exact List.length_pos_of_mem (List.mem_of_getLast? hlast)
  · intro hcond
    apply electionRestriction_of_lastLogTerm
    rcases RaftEngine.lastLogTerm_of_recorded hr with hterm | ⟨hzero, entry, hlast, hc⟩
    · exact hterm
    · rw [hzero, hcond entry hlast hc]

theorem electionRestriction_iff_command :
    ElectionRestriction
      (trace step (RaftEngine.new ⟨1⟩ (.defaultConfig ⟨1⟩))
        [.startElection, .promoteToLeader, .proposeLockAcquire 7 42, .proposeCommand []])
      (exec step (RaftEngine.new ⟨1⟩ (.defaultConfig ⟨1⟩))
        [.startElection, .promoteToLeader, .proposeLockAcquire 7 42, .proposeCommand []]) := by
  apply (electionRestriction_iff ⟨1⟩ (.defaultConfig ⟨1⟩) _ (by simp [RaftCall.Local])).mpr
  intro entry hlast hc
  cases hlast
  exact absurd trivial hc

/-- Node 1 has a lock entry of term 2 at the end of its log, and gives its vote to node 2, whose
last entry is a command of term 1. -/
theorem electionRestriction_fails_on_lock_entry :
    ¬ ∀ (nodeId : NodeId) (config : RaftConfig) (calls : List RaftCall),
      (∀ call ∈ calls, call.Local) →
        ElectionRestriction (trace step (RaftEngine.new nodeId config) calls)
          (exec step (RaftEngine.new nodeId config) calls) := by
  intro h
  have hle := h ⟨1⟩ (.defaultConfig ⟨1⟩)
    [.startElection, .startElection, .promoteToLeader, .proposeLockAcquire 7 42]
    (by simp [RaftCall.Local]) ⟨2⟩ (.defaultConfig ⟨2⟩)
    [.startElection, .promoteToLeader, .proposeCommand [], .startElection, .startElection] 3
    (by simp [RaftCall.Local]) rfl
  rw [trueLast_le_iff] at hle
  have hlt : (2 : UInt64) < 1 ∨ (2 : UInt64) = 1 ∧ 1 ≤ 1 := hle
  exact absurd hlt (by decide)

end Virthub.Raft
