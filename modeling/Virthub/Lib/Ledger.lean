import Virthub.Lib.Trace
import Mathlib.Algebra.Ring.Int.Defs

/-! A number that a machine keeps, compared with the accounts of its calls. A call may lose a part of what
it or another call has accounted for; in a run without losses the number is the sum of the accounts. -/
namespace Virthub.Lib

variable {σ α β : Type*}

/-- The sum of an amount over the events of a history. -/
def total (amount : Event σ α β → ℤ) (h : List (Event σ α β)) : ℤ := (h.map amount).sum

@[simp] theorem total_nil (amount : Event σ α β → ℤ) : total amount [] = 0 := rfl

theorem total_concat (amount : Event σ α β → ℤ) (h : List (Event σ α β)) (e : Event σ α β) :
    total amount (h ++ [e]) = total amount h + amount e := by
  simp [total]

theorem total_sub (a b : Event σ α β → ℤ) (h : List (Event σ α β)) :
    total (fun e => a e - b e) h = total a h - total b h := by
  induction h using List.reverseRecOn with
  | nil => simp
  | append_singleton h e ih =>
    rw [total_concat, total_concat, total_concat, ih]
    omega

theorem total_eq_zero {amount : Event σ α β → ℤ} {h : List (Event σ α β)} (hzero : ∀ e ∈ h, amount e = 0) :
    total amount h = 0 := by
  induction h using List.reverseRecOn with
  | nil => rfl
  | append_singleton h e ih =>
    rw [total_concat, ih fun f hf => hzero f (List.mem_append_left _ hf), hzero e (by simp), add_zero]

variable {step : σ → α → β × σ} {value : σ → ℤ} {account lost : Event σ α β → ℤ}

/-- Each call changes the number by its account, less what it loses. -/
def Books (step : σ → α → β × σ) (value : σ → ℤ) (account lost : Event σ α β → ℤ) : Prop :=
  ∀ s a, value (step s a).2 = value s + account (event step s a) - lost (event step s a)

theorem Books.value_exec (h : Books step value account lost) (s : σ) (calls : List α) :
    value (exec step s calls) =
      value s + total account (trace step s calls) - total lost (trace step s calls) := by
  induction calls using List.reverseRecOn with
  | nil => simp
  | append_singleton as a ih =>
    rw [exec_concat, trace_concat, total_concat, total_concat, h, ih]
    omega

theorem Books.value_exec_of_lossless (h : Books step value account lost) {s : σ} {calls : List α}
    (hlossless : Along (fun _ t a => lost (event step t a) = 0) step s calls) :
    value (exec step s calls) = value s + total account (trace step s calls) := by
  rw [h.value_exec, total_eq_zero (forall_mem_trace_iff_along.mpr hlossless), sub_zero]

end Virthub.Lib
