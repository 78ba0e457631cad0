import Virthub.Raft.State

/-! Log replication by `handle_append_entries`. The handler has four outcomes, told apart by
the term of the request and by the entry at its previous index. -/
namespace Virthub.Raft
open Virthub.Klnk (NodeId)

/-- The arguments of one AppendEntries request. -/
structure AppendRequest where
  leaderId : NodeId
  term : UInt64
  prevLogIndex : UInt64
  prevLogTerm : UInt64
  entries : List RaftLogEntry
  leaderCommit : UInt64
  deriving DecidableEq, Repr

namespace RaftEngine

def deliver (e : RaftEngine) (r : AppendRequest) : Except RaftStateError Bool × RaftEngine :=
  e.handleAppendEntries r.leaderId r.term r.prevLogIndex r.prevLogTerm r.entries r.leaderCommit

def Accepts (e : RaftEngine) (r : AppendRequest) : Prop :=
  ¬ r.term < e.state.currentTerm ∧
    (r.prevLogIndex = 0 ∨
      ∃ entry ∈ e.state.log[r.prevLogIndex.toNat - 1]?, entry.term = r.prevLogTerm)

/-- The entry at the previous index has another term, and the log is cut before it. -/
def Conflicts (e : RaftEngine) (r : AppendRequest) : Prop :=
  ¬ r.term < e.state.currentTerm ∧ r.prevLogIndex > 0 ∧
    ∃ entry ∈ e.state.log[r.prevLogIndex.toNat - 1]?, entry.term ≠ r.prevLogTerm

instance (e : RaftEngine) (r : AppendRequest) : Decidable (e.Conflicts r) :=
  inferInstanceAs (Decidable (_ ∧ _ ∧ _))

@[simp] theorem recognizeLeader_log (e : RaftEngine) (leaderId : NodeId) (term : UInt64) :
    (e.recognizeLeader leaderId term).state.log = e.state.log := by
  unfold recognizeLeader
  dsimp only
  split_ifs <;> rfl

@[simp] theorem recognizeLeader_commitIndex (e : RaftEngine) (leaderId : NodeId) (term : UInt64) :
    (e.recognizeLeader leaderId term).state.commitIndex = e.state.commitIndex := by
  unfold recognizeLeader
  dsimp only
  split_ifs <;> rfl

theorem recognizeLeader_currentTerm {e : RaftEngine} {term : UInt64} (leaderId : NodeId)
    (h : ¬ term < e.state.currentTerm) :
    (e.recognizeLeader leaderId term).state.currentTerm = term := by
  unfold recognizeLeader
  dsimp only
  split_ifs with hn
  · rfl
  · grind

/-- The four outcomes: stale or beyond the log, conflict, and append. -/
theorem deliver_cases (e : RaftEngine) (r : AppendRequest) :
    (¬ e.Accepts r ∧ ¬ e.Conflicts r ∧ (e.deliver r).1 = .ok false ∧
      ((e.deliver r).2 = e ∨ (e.deliver r).2 = e.recognizeLeader r.leaderId r.term)) ∨
    (e.Conflicts r ∧ e.deliver r = (.ok false,
      let e' := e.recognizeLeader r.leaderId r.term
      { e' with state := { e'.state with log := e'.state.log.take (r.prevLogIndex.toNat - 1) } })) ∨
    (e.Accepts r ∧ e.deliver r = (.ok true,
      (e.recognizeLeader r.leaderId r.term).appendAndCommit r.term r.entries r.leaderCommit)) := by
  unfold deliver handleAppendEntries
  by_cases hs : r.term < e.state.currentTerm
  · left
    simp [Accepts, Conflicts, hs]
  simp only [hs, if_false, recognizeLeader_log]
  by_cases hp : r.prevLogIndex > 0
  · simp only [hp, if_true]
    have hz : r.prevLogIndex ≠ 0 := by grind
    cases hl : e.state.log[r.prevLogIndex.toNat - 1]? with
    | none =>
      left
      simp [Accepts, Conflicts, hl, hz]
    | some prevEntry =>
      by_cases ht : prevEntry.term = r.prevLogTerm
      · right; right
        refine ⟨⟨hs, Or.inr ⟨prevEntry, hl, ht⟩⟩, ?_⟩
        simp [ht]
      · right; left
        refine ⟨⟨hs, hp, prevEntry, hl, ht⟩, ?_⟩
        simp [ht]
  · right; right
    have hz : r.prevLogIndex = 0 := by grind
    exact ⟨⟨hs, Or.inl hz⟩, by simp [hp]⟩

theorem deliver_of_accepts {e : RaftEngine} {r : AppendRequest} (h : e.Accepts r) :
    e.deliver r = (.ok true,
      (e.recognizeLeader r.leaderId r.term).appendAndCommit r.term r.entries r.leaderCommit) := by
  rcases deliver_cases e r with hc | hc | hc
  · exact absurd h hc.1
  · obtain ⟨⟨-, hp, entry, hm, ht⟩, -⟩ := hc
    obtain ⟨-, hz | ⟨entry', hm', ht'⟩⟩ := h
    · rw [hz] at hp
      exact absurd hp (by decide)
    · rw [Option.mem_unique hm hm'] at ht
      exact absurd ht' ht
  · exact hc.2

theorem accepts_of_ok {e : RaftEngine} {r : AppendRequest} (h : (e.deliver r).1 = .ok true) :
    e.Accepts r := by
  rcases deliver_cases e r with hc | hc | hc
  · rw [hc.2.2.1] at h
    cases h
  · rw [hc.2] at h
    cases h
  · exact hc.1

theorem deliver_log_of_accepts {e : RaftEngine} {r : AppendRequest} (h : e.Accepts r) :
    (e.deliver r).2.state.log = e.state.log ++ r.entries.map (RaftLogEntry.setTerm r.term) := by
  rw [deliver_of_accepts h]
  simp [appendAndCommit]

theorem accepts_again {e : RaftEngine} {r : AppendRequest} (h : e.Accepts r) :
    (e.deliver r).2.Accepts r := by
  have hterm : (e.deliver r).2.state.currentTerm = r.term := by
    rw [deliver_of_accepts h]
    exact recognizeLeader_currentTerm r.leaderId h.1
  refine ⟨by rw [hterm]; grind, ?_⟩
  rcases h.2 with hz | ⟨entry, hm, ht⟩
  · exact Or.inl hz
  · refine Or.inr ⟨entry, ?_, ht⟩
    have hlt := (List.getElem?_eq_some_iff.mp hm).1
    rw [deliver_log_of_accepts h, List.getElem?_append_left hlt]
    exact hm

end RaftEngine

/-- After the request the entries stand right behind its previous index, the log up to
there is as before, and delivering the request again succeeds and changes no entry. -/
def LogMatching (e : RaftEngine) (r : AppendRequest) : Prop :=
  let first := e.deliver r
  let again := first.2.deliver r
  (∀ i < r.entries.length, first.2.state.log[r.prevLogIndex.toNat + i]? = r.entries[i]?) ∧
    (∀ i < r.prevLogIndex.toNat, first.2.state.log[i]? = e.state.log[i]?) ∧
    again.1 = .ok true ∧ again.2.state.log = first.2.state.log

/-- Accepted requests match the log exactly when they carry no entries: the handler appends
at the end of the log without looking at what already stands behind the previous index. -/
theorem logMatching_iff_heartbeat (e : RaftEngine) (r : AppendRequest)
    (hok : (e.deliver r).1 = .ok true) : LogMatching e r ↔ r.entries = [] := by
  have ha := RaftEngine.accepts_of_ok hok
  have hlog := RaftEngine.deliver_log_of_accepts ha
  have hagain := RaftEngine.deliver_log_of_accepts (RaftEngine.accepts_again ha)
  constructor
  · rintro ⟨-, -, -, hsame⟩
    rw [hagain] at hsame
    simpa using hsame
  · intro he
    have hkeep : (e.deliver r).2.state.log = e.state.log := by simp [hlog, he]
    refine ⟨by simp [he], fun i _ => by rw [hkeep], ?_, by simp [hagain, he]⟩
    rw [RaftEngine.deliver_of_accepts (RaftEngine.accepts_again ha)]

def twoCommandNode : RaftEngine :=
  ((RaftEngine.new ⟨1⟩ (RaftConfig.defaultConfig ⟨1⟩)).deliver
    ⟨⟨2⟩, 1, 0, 0, [.command 1 1 [1, 2, 3], .command 2 1 [4, 5, 6]], 2⟩).2

/-- A heartbeat behind the second command, in a later term. -/
theorem logMatching_later_heartbeat :
    twoCommandNode.state.log.length = 2 ∧ LogMatching twoCommandNode ⟨⟨3⟩, 2, 2, 1, [], 2⟩ :=
  ⟨by decide, (logMatching_iff_heartbeat twoCommandNode ⟨⟨3⟩, 2, 2, 1, [], 2⟩ rfl).mpr rfl⟩

/-- Two commands sent to a fresh node stand in its log twice after a retransmission. -/
theorem logMatching_fails_on_retransmission :
    ¬ ∀ (e : RaftEngine) (r : AppendRequest), (e.deliver r).1 = .ok true → LogMatching e r := by
  intro h
  have hm := h (RaftEngine.new ⟨1⟩ (RaftConfig.defaultConfig ⟨1⟩))
    ⟨⟨2⟩, 1, 0, 0, [.command 1 1 [1, 2, 3], .command 2 1 [4, 5, 6]], 2⟩ rfl
  exact absurd hm.2.2.2 (by decide)

end Virthub.Raft
