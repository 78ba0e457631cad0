import Virthub.Klnk.Rma.TransportEngine
import Virthub.Lib.Ledger
import Mathlib.Algebra.Ring.Nat

/-! The completion counter of the software provider, shared by posters and pollers. A post counts its
completion in one atomic step. A poll loads the counter and then stores zero, and it does not look at the
number of entries that it was asked for. -/
namespace Virthub.Klnk.Rma
open Virthub.Lib

namespace RdmaProvider

/-- The body of every post: no data is moved. -/
def postRequest {ρ : Type} (self : RdmaProvider) (peerAddr : SocketAddr) (answer : ρ) :
    Except RdmaProviderError ρ × RdmaProvider :=
  match self.getOrCreateQp peerAddr with
  | (.error e, self) => (.error e, self)
  | (.ok _, self) => (.ok answer, { self with completedWrs := self.completedWrs + 1 })

theorem postRead_eq_postRequest (self : RdmaProvider) (peerAddr : SocketAddr) (remoteVaddr : UInt64)
    (rkey : UInt32) (localVaddr len : UInt64) :
    self.postRead peerAddr remoteVaddr rkey localVaddr len = self.postRequest peerAddr () := rfl

def postWrite (self : RdmaProvider) (peerAddr : SocketAddr) (_remoteVaddr : UInt64) (_rkey : UInt32)
    (_localVaddr _len : UInt64) : Except RdmaProviderError Unit × RdmaProvider :=
  self.postRequest peerAddr ()

def postAtomicCas (self : RdmaProvider) (peerAddr : SocketAddr) (_remoteVaddr : UInt64) (_rkey : UInt32)
    (compare _swap : UInt64) : Except RdmaProviderError UInt64 × RdmaProvider :=
  self.postRequest peerAddr compare

def postAtomicFaa (self : RdmaProvider) (peerAddr : SocketAddr) (_remoteVaddr : UInt64) (_rkey : UInt32)
    (add : UInt64) : Except RdmaProviderError UInt64 × RdmaProvider :=
  self.postRequest peerAddr add

/-- The second half of `poll_cq`, after it has loaded a positive count. -/
def clearCompletions (self : RdmaProvider) : RdmaProvider := { self with completedWrs := 0 }

def pollCq (self : RdmaProvider) (_maxEntries : UInt64) : Except RdmaProviderError UInt64 × RdmaProvider :=
  if self.completedWrs > 0 then (.ok self.completedWrs.toUInt64, self.clearCompletions) else (.ok 0, self)

/-- A post never fails, and counts one completion. -/
theorem postRequest_spec {ρ : Type} (self : RdmaProvider) (peerAddr : SocketAddr) (answer : ρ) :
    (self.postRequest peerAddr answer).1 = .ok answer ∧
      (self.postRequest peerAddr answer).2.completedWrs = self.completedWrs + 1 := by
  unfold postRequest getOrCreateQp
  cases hq : self.qps.lookup peerAddr with
  | some qp => exact ⟨rfl, rfl⟩
  | none =>
    dsimp only [createQp]
    rw [hq]
    exact ⟨rfl, rfl⟩

end RdmaProvider

inductive WorkRequest where
  | read (peerAddr : SocketAddr) (remoteVaddr : UInt64) (rkey : UInt32) (localVaddr len : UInt64)
  | write (peerAddr : SocketAddr) (remoteVaddr : UInt64) (rkey : UInt32) (localVaddr len : UInt64)
  | atomicCas (peerAddr : SocketAddr) (remoteVaddr : UInt64) (rkey : UInt32) (compare swap : UInt64)
  | atomicFaa (peerAddr : SocketAddr) (remoteVaddr : UInt64) (rkey : UInt32) (add : UInt64)
  deriving DecidableEq, Repr

/-- The post of a request; `none` is the answer of a read or a write. -/
def RdmaProvider.post (self : RdmaProvider) :
    WorkRequest → Except RdmaProviderError (Option UInt64) × RdmaProvider
  | .read peerAddr remoteVaddr rkey localVaddr len =>
    let result := self.postRead peerAddr remoteVaddr rkey localVaddr len
    (result.1.map fun _ => none, result.2)
  | .write peerAddr remoteVaddr rkey localVaddr len =>
    let result := self.postWrite peerAddr remoteVaddr rkey localVaddr len
    (result.1.map fun _ => none, result.2)
  | .atomicCas peerAddr remoteVaddr rkey compare swap =>
    let result := self.postAtomicCas peerAddr remoteVaddr rkey compare swap
    (result.1.map some, result.2)
  | .atomicFaa peerAddr remoteVaddr rkey add =>
    let result := self.postAtomicFaa peerAddr remoteVaddr rkey add
    (result.1.map some, result.2)

theorem RdmaProvider.post_spec (self : RdmaProvider) (request : WorkRequest) :
    (∃ answer, (self.post request).1 = .ok answer) ∧
      (self.post request).2.completedWrs = self.completedWrs + 1 := by
  cases request with
  | read peerAddr =>
    obtain ⟨hok, hcount⟩ := self.postRequest_spec peerAddr ()
    exact ⟨⟨none, by rw [post, postRead_eq_postRequest, hok]; rfl⟩, hcount⟩
  | write peerAddr =>
    obtain ⟨hok, hcount⟩ := self.postRequest_spec peerAddr ()
    exact ⟨⟨none, by rw [post, postWrite, hok]; rfl⟩, hcount⟩
  | atomicCas peerAddr remoteVaddr rkey compare =>
    obtain ⟨hok, hcount⟩ := self.postRequest_spec peerAddr compare
    exact ⟨⟨some compare, by rw [post, postAtomicCas, hok]; rfl⟩, hcount⟩
  | atomicFaa peerAddr remoteVaddr rkey add =>
    obtain ⟨hok, hcount⟩ := self.postRequest_spec peerAddr add
    exact ⟨⟨some add, by rw [post, postAtomicFaa, hok]; rfl⟩, hcount⟩

structure Poll where
  maxEntries : UInt64
  count : UInt32
  deriving DecidableEq, Repr

structure SharedCq where
  provider : RdmaProvider
  polls : List Poll

inductive CqStep where
  | post (request : WorkRequest)
  | load (maxEntries : UInt64)
  | store (poll : ℕ)

/-- `waiting` is the answer to a step that does not end a call. -/
inductive CqAnswer where
  | posted (result : Except RdmaProviderError (Option UInt64))
  | polled (result : Except RdmaProviderError UInt64)
  | waiting

/-- A poll that loads zero has no second step. -/
def cqStep (self : SharedCq) : CqStep → CqAnswer × SharedCq
  | .post request =>
    let result := self.provider.post request
    (.posted result.1, { self with provider := result.2 })
  | .load maxEntries =>
    if self.provider.completedWrs > 0 then
      (.waiting, { self with polls := self.polls ++ [⟨maxEntries, self.provider.completedWrs⟩] })
    else (.polled (.ok 0), self)
  | .store poll =>
    match self.polls[poll]? with
    | none => (.waiting, self)
    | some p => (.polled (.ok p.count.toUInt64), ⟨self.provider.clearCompletions, self.polls.eraseIdx poll⟩)

theorem cqStep_store_of_none {self : SharedCq} {poll : ℕ} (h : self.polls[poll]? = none) :
    cqStep self (.store poll) = (.waiting, self) := by
  simp only [cqStep, h]

theorem cqStep_store_of_some {self : SharedCq} {poll : ℕ} {p : Poll} (h : self.polls[poll]? = some p) :
    cqStep self (.store poll) =
      (.polled (.ok p.count.toUInt64), ⟨self.provider.clearCompletions, self.polls.eraseIdx poll⟩) := by
  simp only [cqStep, h]

/-- The two steps of a poll that follow each other are one call. -/
theorem load_store_eq_pollCq (provider : RdmaProvider) (maxEntries : UInt64) :
    exec cqStep ⟨provider, []⟩ [.load maxEntries, .store 0] = ⟨(provider.pollCq maxEntries).2, []⟩ := by
  simp only [exec_cons, exec_nil, cqStep, RdmaProvider.pollCq]
  split_ifs with hcount
  · rfl
  · rfl

abbrev CqEvent := Event SharedCq CqStep CqAnswer

def postedOps (e : CqEvent) : ℤ :=
  match e.answer with
  | .posted (.ok _) => 1
  | _ => 0

def reported (e : CqEvent) : ℤ :=
  match e.answer with
  | .polled (.ok count) => count.toNat
  | _ => 0

def maxEntriesOf (e : CqEvent) : Option UInt64 :=
  match e.call with
  | .post _ => none
  | .load maxEntries => some maxEntries
  | .store poll => (e.pre.polls[poll]?).map Poll.maxEntries

/-- What the event loses: a counter that wraps loses the whole range, and a store the difference between the
count that it clears and the one that it reports. The difference is negative for completions that are
reported twice. -/
def lostCompletions (e : CqEvent) : ℤ :=
  match e.call with
  | .post _ => if e.pre.provider.completedWrs.toNat + 1 < 2 ^ 32 then 0 else 2 ^ 32
  | .load _ => 0
  | .store poll =>
    match e.pre.polls[poll]? with
    | none => 0
    | some p => (e.pre.provider.completedWrs.toNat : ℤ) - p.count.toNat

def SharedCq.Quiet (self : SharedCq) : Prop := self.polls = []

/-- No poll returns more than it was asked for, and whenever no call is in progress every posted operation
has been reported once or is still counted. -/
structure ReportsOnce (cq : SharedCq) (calls : List CqStep) : Prop where
  bounded : ∀ e ∈ trace cqStep cq calls, ∀ maxEntries count, maxEntriesOf e = some maxEntries →
    e.answer = .polled (.ok count) → count.toNat ≤ maxEntries.toNat
  exact : ∀ as, as <+: calls → (exec cqStep cq as).Quiet →
    total reported (trace cqStep cq as) + (exec cqStep cq as).provider.completedWrs.toNat =
      total postedOps (trace cqStep cq as)

theorem books_cqStep :
    Books cqStep (fun cq => (cq.provider.completedWrs.toNat : ℤ)) (fun e => postedOps e - reported e)
      lostCompletions := by
  intro cq step
  cases step with
  | post request =>
    obtain ⟨⟨answer, hok⟩, hcount⟩ := cq.provider.post_spec request
    have hlt := cq.provider.completedWrs.toNat_lt
    have hone : (1 : UInt32).toNat = 1 := rfl
    simp only [cqStep, event, postedOps, reported, lostCompletions, hok, hcount, UInt32.toNat_add, hone]
    split_ifs with hfits
    · omega
    · omega
  | load maxEntries =>
    simp only [cqStep, event, postedOps, reported, lostCompletions]
    split_ifs with hcount
    · simp
    · simp
  | store poll =>
    cases hpoll : cq.polls[poll]? with
    | none => simp [event, postedOps, reported, lostCompletions, hpoll, cqStep_store_of_none hpoll]
    | some p =>
      have hzero : (cq.provider.clearCompletions).completedWrs.toNat = 0 := rfl
      simp only [event, postedOps, reported, lostCompletions, hpoll, cqStep_store_of_some hpoll, hzero,
        UInt32.toNat_toUInt64]
      omega

def examplePost : CqStep := .post (.read ⟨[127, 0, 0, 1], 9000⟩ 0x1000 1 0x2000 64)

def overfullPoll : List CqStep := [examplePost, examplePost, .load 1, .store 0]

/-- A post between the load and the store of a poll, which is never reported. -/
def lostCompletion : List CqStep := [examplePost, .load 8, examplePost, .store 0]

def doubleReport : List CqStep := [examplePost, .load 8, .load 8, .store 0, .store 0]

theorem polls_not_reportsOnce :
    ¬ ReportsOnce ⟨.new, []⟩ overfullPoll ∧ ¬ ReportsOnce ⟨.new, []⟩ lostCompletion ∧
      ¬ ReportsOnce ⟨.new, []⟩ doubleReport := by
  refine ⟨?_, ?_, ?_⟩
  · intro h
    have hlast := event_mem_trace cqStep ⟨.new, []⟩ [examplePost, examplePost, .load 1] (.store 0) []
    have hle := h.bounded _ hlast 1 2 rfl rfl
    revert hle
    decide
  · intro h
    have hlast := h.exact lostCompletion List.prefix_rfl rfl
    revert hlast
    decide
  · intro h
    have hlast := h.exact doubleReport List.prefix_rfl rfl
    revert hlast
    decide

/-- The counter does not wrap, it is within the limit of a poll that loads it, and every store finds the
count that its poll has loaded. -/
def PollsAlone (cq : SharedCq) : CqStep → Prop
  | .post _ => cq.provider.completedWrs.toNat + 1 < 2 ^ 32
  | .load maxEntries => cq.provider.completedWrs.toNat ≤ maxEntries.toNat
  | .store poll => ∀ p, cq.polls[poll]? = some p → p.count = cq.provider.completedWrs

def PollsWithinLimit (cq : SharedCq) : Prop := ∀ p ∈ cq.polls, p.count.toNat ≤ p.maxEntries.toNat

theorem PollsWithinLimit.step {cq : SharedCq} (h : PollsWithinLimit cq) {step : CqStep}
    (hstep : PollsAlone cq step) :
    PollsWithinLimit (cqStep cq step).2 := by
  cases step with
  | post request => exact h
  | load maxEntries =>
    dsimp only [cqStep]
    split_ifs with hcount
    · intro p hp
      rcases List.mem_append.mp hp with hp | hp
      · exact h p hp
      · obtain rfl := List.mem_singleton.mp hp
        exact hstep
    · exact h
  | store poll =>
    cases hpoll : cq.polls[poll]? with
    | none => rwa [cqStep_store_of_none hpoll]
    | some p =>
      rw [cqStep_store_of_some hpoll]
      intro q hq
      exact h q (List.mem_of_mem_eraseIdx hq)

theorem PollsWithinLimit.bounded {cq : SharedCq} (h : PollsWithinLimit cq) (step : CqStep)
    {maxEntries count : UInt64} (hmax : maxEntriesOf (event cqStep cq step) = some maxEntries)
    (hanswer : (event cqStep cq step).answer = .polled (.ok count)) : count.toNat ≤ maxEntries.toNat := by
  cases step with
  | post request => cases hmax
  | load limit =>
    dsimp only [event, cqStep] at hanswer
    split_ifs at hanswer with hcount
    cases hanswer
    exact Nat.zero_le _
  | store poll =>
    cases hpoll : cq.polls[poll]? with
    | none => simp [event, maxEntriesOf, hpoll] at hmax
    | some p =>
      simp only [event, maxEntriesOf, hpoll, Option.map_some, Option.some.injEq] at hmax
      simp only [event, cqStep_store_of_some hpoll, CqAnswer.polled.injEq, Except.ok.injEq] at hanswer
      rw [← hmax, ← hanswer, UInt32.toNat_toUInt64]
      exact h p (List.mem_of_getElem? hpoll)

theorem lostCompletions_eq_zero {cq : SharedCq} {step : CqStep} (h : PollsAlone cq step) :
    lostCompletions (event cqStep cq step) = 0 := by
  cases step with
  | post request => exact if_pos h
  | load maxEntries => rfl
  | store poll =>
    cases hpoll : cq.polls[poll]? with
    | none => simp only [event, lostCompletions, hpoll]
    | some p => simp only [event, lostCompletions, hpoll, h p hpoll, sub_self]

/-- For every interleaving of posts and polls: if no other call changes the counter between a load and its
store, no post wraps it and no poll loads more than it was asked for, every completion is reported once and
within the limit of its poll. -/
theorem reportsOnce_of_pollsAlone (calls : List CqStep)
    (halone : Along (fun _ => PollsAlone) cqStep ⟨.new, []⟩ calls) : ReportsOnce ⟨.new, []⟩ calls := by
  constructor
  · refine (forall_event_of_invariant (I := PollsWithinLimit) (by simp [PollsWithinLimit]) ?_ calls halone).2
    intro cq step h hstep
    refine ⟨h.step hstep, ?_⟩
    intro maxEntries count hmax hanswer
    exact h.bounded step hmax hanswer
  · intro as has _
    have hlossless : Along (fun _ cq step => lostCompletions (event cqStep cq step) = 0) cqStep
        ⟨.new, []⟩ as := by
      intro bs b cs hb
      exact lostCompletions_eq_zero (halone.of_prefix has bs b cs hb)
    have hvalue := books_cqStep.value_exec_of_lossless hlossless
    have hstart : ((RdmaProvider.new.completedWrs.toNat : ℕ) : ℤ) = 0 := rfl
    rw [total_sub] at hvalue
    dsimp only at hvalue
    omega

/-- Two polls overlap. The first one reports a completion, and a post makes up for it before the second one
stores. -/
def overlappingPolls : List CqStep := [examplePost, .load 8, .load 1, .store 0, examplePost, .store 0]

theorem reportsOnce_overlapping_polls :
    Along (fun _ => PollsAlone) cqStep ⟨.new, []⟩ overlappingPolls ∧
      (exec cqStep ⟨.new, []⟩ overlappingPolls).Quiet ∧ ReportsOnce ⟨.new, []⟩ overlappingPolls := by
  have halone : Along (fun _ => PollsAlone) cqStep ⟨.new, []⟩ overlappingPolls := by
    simp only [overlappingPolls, examplePost, along_cons, along_nil, and_true, PollsAlone]
    refine ⟨by decide, by decide, by decide, ?_, by decide, ?_⟩
    · rintro p ⟨rfl⟩
      rfl
    · rintro p ⟨rfl⟩
      rfl
  exact ⟨halone, rfl, reportsOnce_of_pollsAlone _ halone⟩

end Virthub.Klnk.Rma
