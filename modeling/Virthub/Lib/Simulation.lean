import Virthub.Lib.Trace

/-! Two machines that take the same calls, related state by state. -/
namespace Virthub.Lib

variable {σ τ α β : Type*}

/-- Machines whose calls give the same answers and lead from related states to related ones answer every run
of calls alike. -/
theorem answers_eq_of_simulation {step : σ → α → β × σ} {step' : τ → α → β × τ} {R : σ → τ → Prop}
    (hstep : ∀ s t a, R s t → (step s a).1 = (step' t a).1 ∧ R (step s a).2 (step' t a).2) {s : σ} {t : τ}
    (h0 : R s t) (calls : List α) :
    (trace step s calls).map Event.answer = (trace step' t calls).map Event.answer ∧
      R (exec step s calls) (exec step' t calls) := by
  induction calls generalizing s t with
  | nil => exact ⟨rfl, h0⟩
  | cons a as ih =>
    obtain ⟨hanswer, hR⟩ := hstep s t a h0
    obtain ⟨hanswers, hexec⟩ := ih hR
    constructor
    · rw [trace, trace, List.map_cons, List.map_cons, hanswers]
      exact congrArg₂ List.cons hanswer rfl
    · exact hexec

end Virthub.Lib
