import Virthub.Index.Eviction

/-! The keys that the eviction policy tracks. The two queues are read as one, in the order in which their
keys will be evicted: a touch moves a key within it or adds it, an eviction takes its head, and a removal
erases a key. -/
namespace Virthub.Index
open Virthub.Lib

namespace TwoQEvictionPolicy

/-- The keys of both queues, in the order of their evictions. -/
def order (self : TwoQEvictionPolicy) : List KvBlockKey := self.lruQueue ++ self.inQueue

def Tracks (self : TwoQEvictionPolicy) (key : KvBlockKey) : Prop := key ∈ self.lruQueue ∨ key ∈ self.inQueue

variable (self : TwoQEvictionPolicy) (key : KvBlockKey)

theorem mem_order : key ∈ self.order ↔ self.Tracks key := List.mem_append

theorem order_touch : (self.touch key).order.Perm (key :: self.order.erase key) := by
  unfold touch order
  by_cases hlru : key ∈ self.lruQueue
  · rw [if_pos hlru, List.erase_append_left _ hlru, List.append_assoc]
    exact List.perm_middle
  · rw [if_neg hlru, List.erase_append_right _ hlru]
    by_cases hin : key ∈ self.inQueue
    · rw [if_pos hin, ← List.append_assoc]
      exact List.perm_append_singleton _ _
    · rw [if_neg hin, List.erase_of_not_mem hin, ← List.append_assoc]
      exact List.perm_append_singleton _ _

theorem order_evictNext :
    self.order = [] ∧ self.evictNext = (.error .queueEmpty, self) ∨
      ∃ head, self.order = head :: self.evictNext.2.order ∧ self.evictNext.1 = .ok head := by
  unfold order evictNext
  cases hlru : self.lruQueue with
  | cons head rest => exact .inr ⟨head, rfl, rfl⟩
  | nil =>
    cases hin : self.inQueue with
    | cons head rest =>
      refine .inr ⟨head, ?_, rfl⟩
      rw [List.nil_append]
      rfl
    | nil => exact .inl ⟨rfl, rfl⟩

theorem order_remove :
    key ∈ self.order ∧ (self.remove key).1 = .ok () ∧ (self.remove key).2.order = self.order.erase key ∨
      key ∉ self.order ∧ self.remove key = (.error .keyNotFound, self) := by
  rw [mem_order]
  unfold remove order Tracks
  by_cases hlru : key ∈ self.lruQueue
  · rw [if_pos hlru, List.erase_append_left _ hlru]
    exact .inl ⟨.inl hlru, rfl, rfl⟩
  · rw [if_neg hlru, List.erase_append_right _ hlru]
    by_cases hin : key ∈ self.inQueue
    · rw [if_pos hin]
      exact .inl ⟨.inr hin, rfl, rfl⟩
    · rw [if_neg hin]
      exact .inr ⟨not_or.mpr ⟨hlru, hin⟩, rfl⟩

end TwoQEvictionPolicy

def Touches (key : KvBlockKey) (e : PolicyEvent) : Prop := e.call = .touch key

def Releases (key : KvBlockKey) (e : PolicyEvent) : Prop :=
  e.answer = .evicted (.ok key) ∨ e.call = .remove key ∧ e.answer = .removed (.ok ())

/-- The key was touched, and neither evicted nor removed since then. -/
def Live (h : List PolicyEvent) (key : KvBlockKey) : Prop := Since (Touches key) (Releases key) h

/-- One call on queues without duplicates: they stay so, and a key is tracked afterwards if the call touched
it, or if it was tracked before and the call did not release it. -/
theorem order_policyStep {policy : TwoQEvictionPolicy} (hnodup : policy.order.Nodup) (call : PolicyCall) :
    (policyStep policy call).2.order.Nodup ∧
      ∀ key, key ∈ (policyStep policy call).2.order ↔
        Touches key (event policyStep policy call) ∨
          key ∈ policy.order ∧ ¬ Releases key (event policyStep policy call) := by
  cases call with
  | touch touched =>
    have hperm := policy.order_touch touched
    constructor
    · apply hperm.nodup_iff.mpr
      exact List.nodup_cons.mpr ⟨hnodup.not_mem_erase, hnodup.erase touched⟩
    · intro key
      have hmem : key ∈ (policy.touch touched).order ↔ key = touched ∨ key ∈ policy.order.erase touched := by
        rw [hperm.mem_iff, List.mem_cons]
      simp only [policyStep, event, Touches, Releases, hmem, hnodup.mem_erase_iff, PolicyCall.touch.injEq,
        reduceCtorEq, false_and, or_false, not_false_eq_true, and_true]
      grind
  | evictNext =>
    rcases policy.order_evictNext with ⟨hempty, hfail⟩ | ⟨head, horder, hok⟩
    · simp [policyStep, event, Touches, hfail, hempty]
    · rw [horder, List.nodup_cons] at hnodup
      refine ⟨hnodup.2, fun key => ?_⟩
      simp only [policyStep, event, Touches, Releases, horder, hok, List.mem_cons]
      grind
  | remove removed =>
    rcases policy.order_remove removed with ⟨-, hok, horder⟩ | ⟨hnot, hfail⟩
    · simp only [policyStep, event, Touches, Releases, hok, horder]
      refine ⟨hnodup.erase removed, fun key => ?_⟩
      rw [hnodup.mem_erase_iff]
      grind
    · simp [policyStep, event, Touches, Releases, hfail, hnodup]

/-- What repeated evictions answer: the keys of the order one after the other, and failures from then on. -/
theorem answers_of_evictions (policy : TwoQEvictionPolicy) (n : ℕ) :
    (trace policyStep policy (List.replicate n .evictNext)).map Event.answer =
      ((policy.order.take n).map fun key => .evicted (.ok key)) ++
        List.replicate (n - policy.order.length) (.evicted (.error .queueEmpty)) := by
  induction n generalizing policy with
  | zero => simp
  | succ n ih =>
    rw [List.replicate_succ, trace, List.map_cons, ih]
    rcases policy.order_evictNext with ⟨hempty, hfail⟩ | ⟨head, horder, hok⟩
    · simp [policyStep, event, hempty, hfail, List.replicate_succ]
    · simp [policyStep, event, horder, hok]

structure TracksLiveKeys (h : List PolicyEvent) (policy : TwoQEvictionPolicy) : Prop where
  nodup_inQueue : policy.inQueue.Nodup
  nodup_lruQueue : policy.lruQueue.Nodup
  disjoint : policy.inQueue.Disjoint policy.lruQueue
  tracks_iff : ∀ key, policy.Tracks key ↔ Live h key
  evictNext_fails_iff : policy.evictNext.1 = .error .queueEmpty ↔ ∀ key, ¬ policy.Tracks key
  evictNext_fails : ∀ err, policy.evictNext.1 = .error err → policy.evictNext = (.error .queueEmpty, policy)
  evictNext_takes : ∀ key, policy.evictNext.1 = .ok key →
    policy.Tracks key ∧ ∀ other, policy.evictNext.2.Tracks other ↔ policy.Tracks other ∧ other ≠ key
  remove_succeeds_iff : ∀ key, (policy.remove key).1 = .ok () ↔ policy.Tracks key
  remove_takes : ∀ key other, (policy.remove key).2.Tracks other ↔ policy.Tracks other ∧ other ≠ key
  -- a long enough sequence of evictions returns each tracked key once and fails afterwards
  drains : ∃ keys : List KvBlockKey, keys.Nodup ∧ (∀ key, key ∈ keys ↔ policy.Tracks key) ∧
    ∀ n, (trace policyStep policy (List.replicate n .evictNext)).map Event.answer =
      ((keys.take n).map fun key => .evicted (.ok key)) ++
        List.replicate (n - keys.length) (.evicted (.error .queueEmpty))

theorem tracksLiveKeys_of_order {h : List PolicyEvent} {policy : TwoQEvictionPolicy}
    (hnodup : policy.order.Nodup)
    (hlive : ∀ key, key ∈ policy.order ↔ Live h key) : TracksLiveKeys h policy := by
  obtain ⟨hlru, hin, hdisjoint⟩ := List.nodup_append'.mp hnodup
  constructor
  · exact hin
  · exact hlru
  · exact hdisjoint.symm
  · intro key
    rw [← policy.mem_order, hlive]
  · simp only [← policy.mem_order]
    rcases policy.order_evictNext with ⟨hempty, hfail⟩ | ⟨head, horder, hok⟩
    · simp [hempty, hfail]
    · rw [hok]
      refine iff_of_false (by simp) fun hnone => hnone head ?_
      rw [horder]
      exact List.mem_cons_self
  · intro err herr
    rcases policy.order_evictNext with ⟨-, hfail⟩ | ⟨head, -, hok⟩
    · exact hfail
    · rw [hok] at herr
      cases herr
  · intro key hkey
    simp only [← TwoQEvictionPolicy.mem_order]
    rcases policy.order_evictNext with ⟨-, hfail⟩ | ⟨head, horder, hok⟩
    · rw [hfail] at hkey
      cases hkey
    · obtain rfl : head = key := Except.ok.inj (hok.symm.trans hkey)
      rw [horder, List.nodup_cons] at hnodup
      rw [horder]
      grind
  · intro key
    rw [← policy.mem_order]
    rcases policy.order_remove key with ⟨hmem, hok, -⟩ | ⟨hnot, hfail⟩
    · exact iff_of_true hok hmem
    · simp [hfail, hnot]
  · intro key other
    simp only [← TwoQEvictionPolicy.mem_order]
    rcases policy.order_remove key with ⟨-, -, horder⟩ | ⟨hnot, hfail⟩
    · rw [horder, hnodup.mem_erase_iff, and_comm]
    · rw [hfail]
      grind
  · exact ⟨policy.order, hnodup, policy.mem_order, answers_of_evictions policy⟩

/-- After every sequence of calls on a fresh policy. -/
theorem eviction_tracksLiveKeys (calls : List PolicyCall) :
    TracksLiveKeys (trace policyStep .new calls) (exec policyStep .new calls) := by
  have hrun := history_induction
    (P := fun (h : List PolicyEvent) (policy : TwoQEvictionPolicy) =>
      policy.order.Nodup ∧ ∀ key, key ∈ policy.order ↔ Live h key) ?_ ?_ calls
    (along_true policyStep .new calls)
  · exact tracksLiveKeys_of_order hrun.1 hrun.2
  · simp [TwoQEvictionPolicy.new, TwoQEvictionPolicy.order, Live, Since]
  · intro h policy call hP _
    obtain ⟨hnodup, hlive⟩ := hP
    obtain ⟨hnodup', hmem⟩ := order_policyStep hnodup call
    refine ⟨hnodup', fun key => ?_⟩
    rw [hmem, hlive, Live, Live, since_concat]

end Virthub.Index
