import Mathlib.Order.Nat

/-! One-vote-per-term bookkeeping. A voter keeps the latest term it has reached and the
candidate it chose there; forgetting that choice without leaving the term is not a step. -/
namespace Virthub.Lib

variable {T C : Type*} [PartialOrder T]

structure Ballot (T C : Type*) where
  term : T
  vote : Option C

namespace Ballot

/-- A step of the voter, with the vote that it casts, if any. -/
inductive Step (b : Ballot T C) : Option (T × C) → Ballot T C → Prop
  | keep : Step b none b
  | advance {t : T} (v : Option C) : b.term < t → Step b (v.map fun c => (t, c)) ⟨t, v⟩
  | grant {c : C} : b.vote = none ∨ b.vote = some c → Step b (some (b.term, c)) ⟨b.term, some c⟩

/-- No cast vote is from a later term, and those of the present term are on record. -/
def Recorded (votes : List (T × C)) (b : Ballot T C) : Prop :=
  ∀ v ∈ votes, v.1 ≤ b.term ∧ (v.1 = b.term → b.vote = some v.2)

def Unique (votes : List (T × C)) : Prop :=
  ∀ v ∈ votes, ∀ w ∈ votes, v.1 = w.1 → v.2 = w.2

theorem recorded_advance {votes : List (T × C)} {b : Ballot T C} {t : T} (v : Option C)
    (hr : Recorded votes b) (ht : b.term < t) :
    Recorded (votes ++ (v.map fun c => (t, c)).toList) ⟨t, v⟩ := by
  intro x hx
  rcases List.mem_append.mp hx with hx | hx
  · have hlt := (hr x hx).1.trans_lt ht
    exact ⟨hlt.le, fun h => absurd h hlt.ne⟩
  · obtain ⟨c, rfl, rfl⟩ : ∃ c, v = some c ∧ (t, c) = x := by simpa using hx
    exact ⟨le_rfl, fun _ => rfl⟩

theorem recorded_grant {votes : List (T × C)} {b : Ballot T C} {c : C} (hr : Recorded votes b)
    (hc : b.vote = none ∨ b.vote = some c) :
    Recorded (votes ++ [(b.term, c)]) ⟨b.term, some c⟩ := by
  intro x hx
  rcases List.mem_append.mp hx with hx | hx
  · refine ⟨(hr x hx).1, fun h => ?_⟩
    have hv := (hr x hx).2 h
    rcases hc with hc | hc <;> rw [hc] at hv
    · cases hv
    · exact hv
  · rw [List.mem_singleton.mp hx]
    exact ⟨le_rfl, fun _ => rfl⟩

theorem Step.recorded {votes : List (T × C)} {b b' : Ballot T C} {v : Option (T × C)}
    (h : Step b v b') (hr : Recorded votes b) : Recorded (votes ++ v.toList) b' := by
  cases h with
  | keep => simpa using hr
  | advance v ht => exact recorded_advance v hr ht
  | grant hc => exact recorded_grant hr hc

/-- A vote is on record right after it is cast. -/
theorem Step.vote_recorded {b b' : Ballot T C} {v : T × C} (h : Step b (some v) b') :
    b'.term = v.1 ∧ b'.vote = some v.2 := by
  generalize hv : some v = o at h
  cases h with
  | keep => cases hv
  | advance w ht =>
    obtain ⟨c, rfl, rfl⟩ : ∃ c, w = some c ∧ (_, c) = v := by simpa using hv.symm
    exact ⟨rfl, rfl⟩
  | grant hc =>
    obtain rfl := Option.some.inj hv
    exact ⟨rfl, rfl⟩

theorem Step.unique {votes : List (T × C)} {b b' : Ballot T C} {v : Option (T × C)}
    (h : Step b v b') (hr : Recorded votes b) (hu : Unique votes) :
    Unique (votes ++ v.toList) := by
  have hr' := h.recorded hr
  cases v with
  | none => simpa using hu
  | some v =>
    -- both a cast vote and an older one of its term are on record in `b'`
    have hnew : ∀ x ∈ votes, x.1 = v.1 → x.2 = v.2 := by
      intro x hx hxv
      obtain ⟨ht, hv⟩ := h.vote_recorded
      have hx' := (hr' x (List.mem_append_left _ hx)).2 (hxv.trans ht.symm)
      rw [hv] at hx'
      exact (Option.some.inj hx').symm
    intro x hx y hy hxy
    rcases List.mem_append.mp hx with hx | hx <;> rcases List.mem_append.mp hy with hy | hy
    · exact hu x hx y hy hxy
    · rw [List.mem_singleton.mp hy] at hxy ⊢
      exact hnew x hx hxy
    · rw [List.mem_singleton.mp hx] at hxy ⊢
      exact (hnew y hy hxy.symm).symm
    · rw [List.mem_singleton.mp hx, List.mem_singleton.mp hy]

end Ballot
end Virthub.Lib
