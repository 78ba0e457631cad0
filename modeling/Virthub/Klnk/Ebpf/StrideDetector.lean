import Virthub.Klnk.Daemon.Prefetch
import Virthub.Lib.Map
import Virthub.Lib.Trace

/-! The stride detector: one entry for each process, behind one lock. Addresses and strides are
64-bit words as in a release build; a confidence counts events and is a natural number. -/
namespace Virthub.Klnk.Ebpf
open Virthub.Lib Virthub.Klnk.Daemon

structure AccessEvent where
  timestampNs : UInt64
  pid : UInt32
  vaddr : UInt64
  isWrite : Bool
  deriving DecidableEq, Repr

/-- Instants are readings of one clock. -/
structure StrideState where
  lastVaddr : UInt64
  lastStride : Int64
  confidence : ℕ
  lastAccessTime : ℕ
  deriving DecidableEq

def StrideState.new (vaddr : UInt64) (now : ℕ) : StrideState := ⟨vaddr, 0, 0, now⟩

structure StrideDetector where
  state : AList fun _ : UInt32 => StrideState
  decayInterval : ℕ
  minConfidence : ℕ
  maxPrefetchCount : ℕ

namespace StrideDetector

def withParams (decayInterval minConfidence maxPrefetchCount : ℕ) : StrideDetector :=
  ⟨∅, decayInterval, minConfidence, maxPrefetchCount⟩

/-- What `process_event` does to the entry of the process. -/
def observe (self : StrideDetector) (event : AccessEvent) (now : ℕ) (entry : StrideState) :
    Option PrefetchRecommendation × StrideState :=
  let confidence :=
    if now - entry.lastAccessTime > self.decayInterval then entry.confidence - 1
    else entry.confidence
  let stride := event.vaddr.toInt64 - entry.lastVaddr.toInt64
  if stride = 0 then (none, { entry with confidence := confidence, lastAccessTime := now })
  else
    let confidence := if stride = entry.lastStride then confidence + 1 else 1
    (if self.minConfidence ≤ confidence then
        some ⟨event.pid, (event.vaddr.toInt64 + stride).toUInt64, stride,
          min (confidence * 2) self.maxPrefetchCount⟩
      else none,
      ⟨event.vaddr, stride, confidence, now⟩)

/-- A process without an entry gets one, stamped with a clock reading of its own. -/
def processEvent (self : StrideDetector) (event : AccessEvent) (now created : ℕ) :
    Option PrefetchRecommendation × StrideDetector :=
  let entry := (self.state.lookup event.pid).getD (.new event.vaddr created)
  ((self.observe event now entry).1,
    { self with state := self.state.insert event.pid (self.observe event now entry).2 })

def clearPid (self : StrideDetector) (pid : UInt32) : StrideDetector :=
  { self with state := self.state.erase pid }

def clearAll (self : StrideDetector) : StrideDetector := { self with state := ∅ }

end StrideDetector

inductive DetectorCall where
  | processEvent (event : AccessEvent) (now created : ℕ)
  | clearPid (pid : UInt32)
  | clearAll
  deriving DecidableEq

def detectorStep (self : StrideDetector) :
    DetectorCall → Option PrefetchRecommendation × StrideDetector
  | .processEvent event now created => self.processEvent event now created
  | .clearPid pid => (none, self.clearPid pid)
  | .clearAll => (none, self.clearAll)

/-- Differences of successive addresses. -/
def strides : List UInt64 → List Int64
  | [] => []
  | [_] => []
  | a :: b :: rest => (b.toInt64 - a.toInt64) :: strides (b :: rest)

/-- How often `s` stands at the end of a list. -/
def streak (s : Int64) (l : List Int64) : ℕ := (l.reverse.takeWhile (· = s)).length

def nonzeroStrides (addresses : List UInt64) : List Int64 := (strides addresses).filter (· ≠ 0)

/-- The addresses of a process since its entry was last cleared. -/
def recordAddress (pid : UInt32) (addresses : List UInt64) : DetectorCall → List UInt64
  | .processEvent event _ _ => if event.pid = pid then addresses ++ [event.vaddr] else addresses
  | .clearPid cleared => if cleared = pid then [] else addresses
  | .clearAll => []

def addressesOf (pid : UInt32) (calls : List DetectorCall) : List UInt64 :=
  calls.foldl (recordAddress pid) []

/-- When a process was last seen. -/
def recordTime (pid : UInt32) (time : Option ℕ) : DetectorCall → Option ℕ
  | .processEvent event now _ => if event.pid = pid then some now else time
  | _ => time

def lastTime (pid : UInt32) (calls : List DetectorCall) : Option ℕ :=
  calls.foldl (recordTime pid) none

/-- What an event should yield, given the earlier addresses of its process. -/
def expected (minConfidence maxPrefetchCount : ℕ) (addresses : List UInt64) (event : AccessEvent) :
    Option PrefetchRecommendation :=
  match addresses.getLast? with
  | none => none
  | some previous =>
    let stride := event.vaddr.toInt64 - previous.toInt64
    let c := streak stride (nonzeroStrides (addresses ++ [event.vaddr]))
    if stride ≠ 0 ∧ minConfidence ≤ c then
      some ⟨event.pid, (event.vaddr.toInt64 + stride).toUInt64, stride, min (2 * c) maxPrefetchCount⟩
    else none

theorem strides_concat (addresses : List UInt64) (a b : UInt64) :
    strides (addresses ++ [a, b]) = strides (addresses ++ [a]) ++ [b.toInt64 - a.toInt64] := by
  induction addresses with
  | nil => rfl
  | cons x xs ih =>
    cases xs with
    | nil => rfl
    | cons y ys => simpa [strides] using ih

theorem nonzeroStrides_concat_zero (addresses : List UInt64) {a b : UInt64}
    (h : b.toInt64 - a.toInt64 = 0) :
    nonzeroStrides (addresses ++ [a, b]) = nonzeroStrides (addresses ++ [a]) := by
  simp [nonzeroStrides, strides_concat, h]

theorem nonzeroStrides_concat (addresses : List UInt64) {a b : UInt64}
    (h : b.toInt64 - a.toInt64 ≠ 0) :
    nonzeroStrides (addresses ++ [a, b]) =
      nonzeroStrides (addresses ++ [a]) ++ [b.toInt64 - a.toInt64] := by
  simp [nonzeroStrides, strides_concat, h]

theorem streak_concat (s : Int64) (l : List Int64) : streak s (l ++ [s]) = streak s l + 1 := by
  simp [streak]

/-- A list that ends in another value, or is empty, has no streak of `s`. -/
theorem streak_eq_zero {s : Int64} {l : List Int64} (h : l.getLast? ≠ some s) : streak s l = 0 := by
  unfold streak
  rw [← List.head?_reverse] at h
  cases hl : l.reverse with
  | nil => rfl
  | cons a as =>
    rw [hl] at h
    have hne : a ≠ s := by simpa using h
    simp [hne]

/-- The entry of a process, against its addresses and the time it was last seen. -/
inductive Tracked (time : Option ℕ) : List UInt64 → Option StrideState → Prop where
  | untracked : Tracked time [] none
  | tracked (addresses : List UInt64) (last : UInt64) (entry : StrideState)
    (hv : entry.lastVaddr = last)
    (hs : entry.lastStride = (nonzeroStrides (addresses ++ [last])).getLast?.getD 0)
    (hc : entry.confidence = streak entry.lastStride (nonzeroStrides (addresses ++ [last])))
    (ht : time = some entry.lastAccessTime) : Tracked time (addresses ++ [last]) (some entry)

theorem sub_toInt64_eq_zero {a b : UInt64} : b.toInt64 - a.toInt64 = 0 ↔ b = a := by
  constructor
  · intro h
    have hb : b.toInt64 = a.toInt64 := by
      rw [← Int64.sub_add_cancel b.toInt64 a.toInt64, h, Int64.zero_add]
    simpa using congrArg Int64.toUInt64 hb
  · rintro rfl
    exact Int64.sub_self _

namespace StrideDetector

/-- An event far from the last one of its process only is subject to decay. -/
theorem observe_of_tracked (self : StrideDetector) (event : AccessEvent) {now : ℕ}
    {addresses : List UInt64} {last : UInt64} {entry : StrideState}
    (hgap : now - entry.lastAccessTime ≤ self.decayInterval) (hv : entry.lastVaddr = last)
    (hs : entry.lastStride = (nonzeroStrides (addresses ++ [last])).getLast?.getD 0)
    (hc : entry.confidence = streak entry.lastStride (nonzeroStrides (addresses ++ [last]))) :
    (self.observe event now entry).1 =
        expected self.minConfidence self.maxPrefetchCount (addresses ++ [last]) event ∧
      Tracked (some now) (addresses ++ [last] ++ [event.vaddr])
        (some (self.observe event now entry).2) := by
  have hkeep : ¬ now - entry.lastAccessTime > self.decayInterval := not_lt.mpr hgap
  have happ : addresses ++ [last] ++ [event.vaddr] = addresses ++ [last, event.vaddr] := by simp
  unfold observe expected
  simp only [hkeep, if_false, hv, List.getLast?_concat, happ]
  by_cases h0 : event.vaddr.toInt64 - last.toInt64 = 0
  · have heq : event.vaddr = last := sub_toInt64_eq_zero.mp h0
    rw [if_pos h0, if_neg (fun h => h.1 h0), ← happ]
    refine ⟨rfl, .tracked _ _ _ heq.symm ?_ ?_ rfl⟩
    · rw [happ, nonzeroStrides_concat_zero _ h0]
      exact hs
    · rw [happ, nonzeroStrides_concat_zero _ h0]
      exact hc
  · -- the entry's confidence is the streak of the new stride, or there is none
    have hconf : (if event.vaddr.toInt64 - last.toInt64 = entry.lastStride
        then entry.confidence + 1 else 1) =
        streak (event.vaddr.toInt64 - last.toInt64) (nonzeroStrides (addresses ++ [last])) + 1 := by
      split_ifs with heq
      · rw [hc, heq]
      · rw [streak_eq_zero fun hlast => heq (by rw [hs, hlast]; rfl)]
    rw [if_neg h0, hconf, nonzeroStrides_concat _ h0, streak_concat, ← happ]
    refine ⟨by simp [h0, mul_comm], .tracked _ _ _ rfl ?_ ?_ rfl⟩
    · rw [happ, nonzeroStrides_concat _ h0, List.getLast?_concat]
      rfl
    · rw [happ, nonzeroStrides_concat _ h0, streak_concat]

theorem observe_spec (self : StrideDetector) (event : AccessEvent) (now created : ℕ)
    {time : Option ℕ} {addresses : List UInt64} {o : Option StrideState}
    (h : Tracked time addresses o) (hgap : ∀ t, time = some t → now - t ≤ self.decayInterval) :
    (self.observe event now (o.getD (.new event.vaddr created))).1 =
        expected self.minConfidence self.maxPrefetchCount addresses event ∧
      Tracked (some now) (addresses ++ [event.vaddr])
        (some (self.observe event now (o.getD (.new event.vaddr created))).2) := by
  cases h with
  | untracked =>
    have h0 : event.vaddr.toInt64 - event.vaddr.toInt64 = 0 := Int64.sub_self _
    simp only [observe, Option.getD_none, StrideState.new, h0, if_true]
    refine ⟨rfl, .tracked [] _ _ rfl rfl ?_ rfl⟩
    simp [streak, nonzeroStrides, strides]
  | tracked addresses last entry hv hs hc ht =>
    exact self.observe_of_tracked event (hgap _ ht) hv hs hc

end StrideDetector

theorem addressesOf_concat (pid : UInt32) (calls : List DetectorCall) (call : DetectorCall) :
    addressesOf pid (calls ++ [call]) = recordAddress pid (addressesOf pid calls) call := by
  simp [addressesOf]

theorem lastTime_concat (pid : UInt32) (calls : List DetectorCall) (call : DetectorCall) :
    lastTime pid (calls ++ [call]) = recordTime pid (lastTime pid calls) call := by
  simp [lastTime]

/-- A detector with the parameters of `base` that has seen `calls`. -/
structure HasSeen (base : StrideDetector) (calls : List DetectorCall)
    (detector : StrideDetector) : Prop where
  decayInterval : detector.decayInterval = base.decayInterval
  minConfidence : detector.minConfidence = base.minConfidence
  maxPrefetchCount : detector.maxPrefetchCount = base.maxPrefetchCount
  tracked : ∀ pid, Tracked (lastTime pid calls) (addressesOf pid calls) (detector.state.lookup pid)

/-- A call after `calls` that is no event, or one within the decay interval of the last event of its
process. -/
def InTime (decayInterval : ℕ) (calls : List DetectorCall) (call : DetectorCall) : Prop :=
  ∀ event now created, call = .processEvent event now created → ∀ t,
    lastTime event.pid calls = some t → now - t ≤ decayInterval

theorem HasSeen.step {base self : StrideDetector} {calls : List DetectorCall}
    (h : HasSeen base calls self) (call : DetectorCall)
    (ht : InTime base.decayInterval calls call) :
    HasSeen base (calls ++ [call]) (detectorStep self call).2 ∧
      ∀ event now created, call = .processEvent event now created →
        (detectorStep self call).1 = expected base.minConfidence base.maxPrefetchCount
          (addressesOf event.pid calls) event := by
  cases call with
  | processEvent event now created =>
    obtain ⟨hanswer, hpost⟩ := self.observe_spec event now created (h.tracked event.pid)
      (h.decayInterval ▸ ht event now created rfl)
    refine ⟨⟨h.decayInterval, h.minConfidence, h.maxPrefetchCount, fun pid => ?_⟩, ?_⟩
    · rw [addressesOf_concat, lastTime_concat]
      by_cases hp : event.pid = pid
      · subst hp
        simpa [recordAddress, recordTime, detectorStep, StrideDetector.processEvent] using hpost
      · simpa [recordAddress, recordTime, detectorStep, StrideDetector.processEvent, hp,
          AList.lookup_insert_ne (Ne.symm hp)] using h.tracked pid
    · rintro _ _ _ ⟨⟩
      rw [← h.minConfidence, ← h.maxPrefetchCount]
      exact hanswer
  | clearPid cleared =>
    refine ⟨⟨h.decayInterval, h.minConfidence, h.maxPrefetchCount, fun pid => ?_⟩, by simp⟩
    rw [addressesOf_concat, lastTime_concat]
    by_cases hp : cleared = pid
    · subst hp
      simpa [recordAddress, recordTime, detectorStep, StrideDetector.clearPid] using
        Tracked.untracked
    · simpa [recordAddress, recordTime, detectorStep, StrideDetector.clearPid, hp,
        AList.lookup_erase_ne (Ne.symm hp)] using h.tracked pid
  | clearAll =>
    refine ⟨⟨h.decayInterval, h.minConfidence, h.maxPrefetchCount, fun pid => ?_⟩, by simp⟩
    rw [addressesOf_concat, lastTime_concat]
    exact .untracked

/-- Calls that reach the entry of a process. -/
def Concerns (pid : UInt32) : DetectorCall → Bool
  | .processEvent event _ _ => event.pid = pid
  | .clearPid cleared => cleared = pid
  | .clearAll => true

def IsEventOf (pid : UInt32) : DetectorCall → Bool
  | .processEvent event _ _ => event.pid = pid
  | _ => false

/-- The answers that the events of one process get in a run. -/
def answersFor (pid : UInt32)
    (h : List (Event StrideDetector DetectorCall (Option PrefetchRecommendation))) :
    List (Option PrefetchRecommendation) :=
  (h.filter fun e => IsEventOf pid e.call).map Event.answer

/-- Two detectors that agree on one process. -/
structure AgreeOn (pid : UInt32) (left right : StrideDetector) : Prop where
  decayInterval : left.decayInterval = right.decayInterval
  minConfidence : left.minConfidence = right.minConfidence
  maxPrefetchCount : left.maxPrefetchCount = right.maxPrefetchCount
  lookup : left.state.lookup pid = right.state.lookup pid

namespace AgreeOn

variable {pid : UInt32} {left right : StrideDetector}

theorem observe (h : AgreeOn pid left right) (event : AccessEvent) (now : ℕ) (entry : StrideState) :
    left.observe event now entry = right.observe event now entry := by
  unfold StrideDetector.observe
  rw [h.decayInterval, h.minConfidence, h.maxPrefetchCount]

/-- A call that concerns other processes only. -/
theorem step_left (h : AgreeOn pid left right) {call : DetectorCall} (hc : ¬ Concerns pid call) :
    AgreeOn pid (detectorStep left call).2 right := by
  cases call with
  | processEvent event now created =>
    have hne : pid ≠ event.pid := fun he => hc (by simp [Concerns, he])
    refine ⟨h.decayInterval, h.minConfidence, h.maxPrefetchCount, ?_⟩
    rw [← h.lookup]
    exact AList.lookup_insert_ne hne
  | clearPid cleared =>
    have hne : pid ≠ cleared := fun he => hc (by simp [Concerns, he])
    refine ⟨h.decayInterval, h.minConfidence, h.maxPrefetchCount, ?_⟩
    rw [← h.lookup]
    exact AList.lookup_erase_ne hne
  | clearAll => exact absurd rfl hc

theorem step (h : AgreeOn pid left right) {call : DetectorCall} (hc : Concerns pid call) :
    AgreeOn pid (detectorStep left call).2 (detectorStep right call).2 ∧
      (detectorStep left call).1 = (detectorStep right call).1 := by
  cases call with
  | processEvent event now created =>
    obtain rfl : event.pid = pid := by simpa [Concerns] using hc
    simp only [detectorStep, StrideDetector.processEvent, h.lookup, h.observe]
    exact ⟨⟨h.decayInterval, h.minConfidence, h.maxPrefetchCount, by simp⟩, trivial⟩
  | clearPid cleared =>
    obtain rfl : cleared = pid := by simpa [Concerns] using hc
    refine ⟨⟨h.decayInterval, h.minConfidence, h.maxPrefetchCount, ?_⟩, rfl⟩
    simp [detectorStep, StrideDetector.clearPid]
  | clearAll => exact ⟨⟨h.decayInterval, h.minConfidence, h.maxPrefetchCount, rfl⟩, rfl⟩

theorem concerns_of_isEventOf {call : DetectorCall} (h : IsEventOf pid call) : Concerns pid call := by
  cases call with
  | processEvent event now created => exact h
  | clearPid cleared => cases h
  | clearAll => rfl

/-- The answers for a process are those of a run with the calls that concern it alone. -/
theorem answersFor_filter (h : AgreeOn pid left right) (calls : List DetectorCall) :
    answersFor pid (trace detectorStep left calls) =
      answersFor pid (trace detectorStep right (calls.filter (Concerns pid))) := by
  induction calls generalizing left right with
  | nil => rfl
  | cons call calls ih =>
    by_cases hc : Concerns pid call
    · obtain ⟨hpost, hanswer⟩ := h.step hc
      have hrest := ih hpost
      rw [List.filter_cons_of_pos hc]
      unfold answersFor at hrest ⊢
      by_cases he : IsEventOf pid call <;> simp [trace, event, he, hrest, hanswer]
    · have he : ¬ IsEventOf pid call := fun he => hc (concerns_of_isEventOf he)
      have hrest := ih (h.step_left hc)
      rw [List.filter_cons_of_neg hc, ← hrest]
      unfold answersFor
      simp [trace, event, he]

end AgreeOn

/-- Every event gets the recommendation that the addresses of its own process call for, and the
answers for a process do not depend on the events of the others. -/
theorem recommendations_exact_and_isolated (decayInterval minConfidence maxPrefetchCount : ℕ)
    (calls : List DetectorCall)
    (ht : Along (fun h _ => InTime decayInterval (h.map Event.call)) detectorStep
      (.withParams decayInterval minConfidence maxPrefetchCount) calls) :
    (∀ past access now created rest, calls = past ++ .processEvent access now created :: rest →
      (detectorStep (exec detectorStep (.withParams decayInterval minConfidence maxPrefetchCount) past)
        (.processEvent access now created)).1 =
        expected minConfidence maxPrefetchCount (addressesOf access.pid past) access) ∧
    ∀ pid, answersFor pid (trace detectorStep
        (.withParams decayInterval minConfidence maxPrefetchCount) calls) =
      answersFor pid (trace detectorStep
        (.withParams decayInterval minConfidence maxPrefetchCount) (calls.filter (Concerns pid))) := by
  refine ⟨fun past access now created rest heq => ?_, fun pid =>
    AgreeOn.answersFor_filter ⟨rfl, rfl, rfl, rfl⟩ calls⟩
  have hpast : Along (fun h _ => InTime decayInterval (h.map Event.call)) detectorStep
      (.withParams decayInterval minConfidence maxPrefetchCount) past := by
    intro as a bs has
    exact ht as a (bs ++ .processEvent access now created :: rest) (by simp [heq, has])
  have hseen := history_induction (P := fun h d => HasSeen
      (.withParams decayInterval minConfidence maxPrefetchCount) (h.map Event.call) d)
    ⟨rfl, rfl, rfl, fun pid => .untracked⟩ (fun h d call hd hc => by
      simpa [event] using (hd.step call hc).1) past hpast
  have hnow := ht past _ rest heq
  rw [map_call_trace] at hseen hnow
  exact (hseen.step _ hnow).2 access now created rfl

/-- A process that walks by pages, and another one in between. -/
def pageWalk : List DetectorCall :=
  [.processEvent ⟨0, 7, 0x1000, false⟩ 0 0, .processEvent ⟨1, 7, 0x2000, false⟩ 50 50,
    .processEvent ⟨2, 9, 0x8000, true⟩ 60 60]

theorem recommendations_exact_pageWalk :
    Along (fun h _ => InTime 100 (h.map Event.call)) detectorStep (.withParams 100 2 16)
        (pageWalk ++ [.processEvent ⟨3, 7, 0x3000, false⟩ 120 120]) ∧
      (detectorStep (exec detectorStep (.withParams 100 2 16) pageWalk)
        (.processEvent ⟨3, 7, 0x3000, false⟩ 120 120)).1 = some ⟨7, 0x4000, 0x1000, 4⟩ := by
  have ht : Along (fun h _ => InTime 100 (h.map Event.call)) detectorStep (.withParams 100 2 16)
      (pageWalk ++ [.processEvent ⟨3, 7, 0x3000, false⟩ 120 120]) := by
    simp only [pageWalk, List.cons_append, List.nil_append, along_cons, along_nil, and_true]
    refine ⟨?_, ?_, ?_, ?_⟩
    all_goals
      rintro access now created ⟨⟩ t hl
      cases hl
    all_goals decide
  refine ⟨ht, ?_⟩
  rw [(recommendations_exact_and_isolated 100 2 16 _ ht).1 pageWalk _ 120 120 [] rfl]
  rfl

end Virthub.Klnk.Ebpf
