import Virthub.Lib.History

/-! Runs of a machine that answers one call at a time. A run is kept as the list of
its events, so that a property may relate any two of them. -/
namespace Virthub.Lib

variable {σ α β : Type*}

/-- One answered call, with the state it found and the state it left. -/
structure Event (σ α β : Type*) where
  pre : σ
  call : α
  answer : β
  post : σ
  deriving DecidableEq

/-- The event of issuing `a` in state `s`. -/
def event (step : σ → α → β × σ) (s : σ) (a : α) : Event σ α β :=
  ⟨s, a, (step s a).1, (step s a).2⟩

theorem event_eq {step : σ → α → β × σ} {s t : σ} {a : α} {b : β} (h : step s a = (b, t)) :
    event step s a = ⟨s, a, b, t⟩ := by
  rw [event, h]

def exec (step : σ → α → β × σ) (s : σ) (calls : List α) : σ :=
  calls.foldl (fun t a => (step t a).2) s

def trace (step : σ → α → β × σ) (s : σ) : List α → List (Event σ α β)
  | [] => []
  | a :: as => event step s a :: trace step (step s a).2 as

@[simp] theorem exec_nil (step : σ → α → β × σ) (s : σ) : exec step s [] = s := rfl

@[simp] theorem exec_cons (step : σ → α → β × σ) (s : σ) (a : α) (as : List α) :
    exec step s (a :: as) = exec step (step s a).2 as := rfl

@[simp] theorem exec_concat (step : σ → α → β × σ) (s : σ) (as : List α) (a : α) :
    exec step s (as ++ [a]) = (step (exec step s as) a).2 := by
  simp [exec]

theorem exec_append (step : σ → α → β × σ) (s : σ) (as bs : List α) :
    exec step s (as ++ bs) = exec step (exec step s as) bs := by
  rw [exec, List.foldl_append]
  rfl

@[simp] theorem trace_nil (step : σ → α → β × σ) (s : σ) : trace step s [] = [] := rfl

@[simp] theorem trace_concat (step : σ → α → β × σ) (s : σ) (as : List α) (a : α) :
    trace step s (as ++ [a]) = trace step s as ++ [event step (exec step s as) a] := by
  induction as generalizing s with
  | nil => rfl
  | cons b bs ih =>
    simp only [List.cons_append, trace, ih, exec_cons]

theorem trace_append (step : σ → α → β × σ) (s : σ) (as bs : List α) :
    trace step s (as ++ bs) = trace step s as ++ trace step (exec step s as) bs := by
  induction as generalizing s with
  | nil => rfl
  | cons a as ih =>
    rw [List.cons_append, trace, ih]
    rfl

@[simp] theorem map_call_trace (step : σ → α → β × σ) (s : σ) (as : List α) :
    (trace step s as).map Event.call = as := by
  induction as generalizing s with
  | nil => rfl
  | cons a as ih =>
    rw [trace, List.map_cons, ih]
    rfl

theorem event_mem_trace (step : σ → α → β × σ) (s : σ) (as : List α) (a : α) (bs : List α) :
    event step (exec step s as) a ∈ trace step s (as ++ a :: bs) := by
  simp [trace_append, trace]

/-- An `A` by one call of a run and a `B` by a later one. -/
theorem after_of_calls {A B : Event σ α β → Prop} (step : σ → α → β × σ) (s : σ) (as : List α)
    (a : α) (bs : List α) (b : α) (cs : List α) (ha : A (event step (exec step s as) a))
    (hb : B (event step (exec step s (as ++ a :: bs)) b)) :
    After A B (trace step s (as ++ a :: bs ++ b :: cs)) := by
  rw [trace_append]
  exact ⟨_, _, _, rfl, hb, _, event_mem_trace step s as a bs, ha⟩

/-- A condition on the history, the state and the call, required of every call of a run. -/
def Along (C : List (Event σ α β) → σ → α → Prop) (step : σ → α → β × σ) (s : σ)
    (calls : List α) : Prop :=
  ∀ as a bs, calls = as ++ a :: bs → C (trace step s as) (exec step s as) a

@[simp] theorem along_nil (C : List (Event σ α β) → σ → α → Prop) (step : σ → α → β × σ) (s : σ) :
    Along C step s [] := by
  intro as a bs h
  simp at h

/-- For results about all runs. -/
theorem along_true (step : σ → α → β × σ) (s : σ) (calls : List α) :
    Along (fun _ _ _ => True) step s calls :=
  fun _ _ _ _ => trivial

theorem along_cons (C : List (Event σ α β) → σ → α → Prop) (step : σ → α → β × σ) (s : σ)
    (a : α) (as : List α) :
    Along C step s (a :: as) ↔
      C [] s a ∧ Along (fun h => C (event step s a :: h)) step (step s a).2 as := by
  constructor
  · intro h
    refine ⟨h [] a as rfl, fun bs b cs hb => ?_⟩
    exact h (a :: bs) b cs (by simp [hb])
  · rintro ⟨ha, h⟩ bs b cs hb
    cases bs with
    | nil =>
      obtain ⟨rfl, -⟩ : a = b ∧ as = cs := by simpa using hb
      exact ha
    | cons d ds =>
      obtain ⟨rfl, has⟩ : a = d ∧ as = ds ++ b :: cs := by simpa using hb
      exact h ds b cs has

theorem Along.init {C : List (Event σ α β) → σ → α → Prop} {step : σ → α → β × σ} {s : σ}
    {as : List α} {a : α} (h : Along C step s (as ++ [a])) : Along C step s as := by
  intro bs b cs hb
  exact h bs b (cs ++ [a]) (by simp [hb])

theorem Along.last {C : List (Event σ α β) → σ → α → Prop} {step : σ → α → β × σ} {s : σ}
    {as : List α} {a : α} (h : Along C step s (as ++ [a])) :
    C (trace step s as) (exec step s as) a := h as a [] rfl

theorem Along.of_prefix {C : List (Event σ α β) → σ → α → Prop} {step : σ → α → β × σ} {s : σ}
    {as calls : List α} (h : Along C step s calls) (has : as <+: calls) : Along C step s as := by
  intro bs b cs hb
  obtain ⟨ds, rfl⟩ := has
  exact h bs b (cs ++ ds) (by simp [hb])

/-- Induction on a run: what holds at the start and survives every call that meets the
condition holds of the history and the state that a run reaches. -/
theorem history_induction {C : List (Event σ α β) → σ → α → Prop} {step : σ → α → β × σ}
    {s : σ} {P : List (Event σ α β) → σ → Prop} (h0 : P [] s)
    (hstep : ∀ h t a, P h t → C h t a → P (h ++ [event step t a]) (step t a).2)
    (calls : List α) (hc : Along C step s calls) :
    P (trace step s calls) (exec step s calls) := by
  induction calls using List.reverseRecOn with
  | nil => exact h0
  | append_singleton as a ih =>
    rw [trace_concat, exec_concat]
    exact hstep _ _ _ (ih hc.init) hc.last

/-- As `history_induction`, with what each event is worth given the events before it. -/
theorem history_forall {C : List (Event σ α β) → σ → α → Prop} {step : σ → α → β × σ} {s : σ}
    {P : List (Event σ α β) → σ → Prop} {Q : List (Event σ α β) → Event σ α β → Prop}
    (h0 : P [] s)
    (hstep : ∀ h t a, P h t → C h t a →
      P (h ++ [event step t a]) (step t a).2 ∧ Q h (event step t a))
    (calls : List α) (hc : Along C step s calls) :
    P (trace step s calls) (exec step s calls) ∧
      ∀ past e rest, trace step s calls = past ++ e :: rest → Q past e := by
  refine history_induction (C := C)
    (P := fun h t => P h t ∧ ∀ past e rest, h = past ++ e :: rest → Q past e) ⟨h0, by simp⟩ ?_ calls hc
  intro h t a ⟨hP, hQ⟩ hC
  obtain ⟨hP', hQ'⟩ := hstep h t a hP hC
  refine ⟨hP', fun past e rest heq => ?_⟩
  rcases concat_eq_split.mp heq with ⟨rfl, rfl, -⟩ | ⟨rest', -, hh⟩
  · exact hQ'
  · exact hQ past e rest' hh

/-- Two conditions on calls that agree under an invariant, which the second one keeps, are met by the same
runs. -/
theorem along_iff_along {Q C : List (Event σ α β) → σ → α → Prop} {step : σ → α → β × σ} {s : σ}
    {I : List (Event σ α β) → σ → Prop} (h0 : I [] s)
    (hstep : ∀ h t a, I h t → C h t a → I (h ++ [event step t a]) (step t a).2)
    (hiff : ∀ h t a, I h t → (Q h t a ↔ C h t a)) (calls : List α) :
    Along Q step s calls ↔ Along C step s calls := by
  constructor
  · intro hq
    induction calls using List.reverseRecOn with
    | nil => exact along_nil C step s
    | append_singleton as a ih =>
      have hc := ih hq.init
      have hinv := history_induction h0 hstep as hc
      intro bs b cs heq
      rcases concat_eq_split.mp heq with ⟨rfl, rfl, -⟩ | ⟨rest, -, hh⟩
      · exact (hiff _ _ _ hinv).mp hq.last
      · exact hc bs b rest hh
  · intro hc as a bs heq
    have hpast : Along C step s as := hc.of_prefix ⟨a :: bs, heq.symm⟩
    exact (hiff _ _ _ (history_induction h0 hstep as hpast)).mpr (hc as a bs heq)

/-- A property of the events of a run, as a condition on its calls. -/
theorem forall_mem_trace_iff_along {Q : Event σ α β → Prop} {step : σ → α → β × σ} {s : σ}
    {calls : List α} : (∀ e ∈ trace step s calls, Q e) ↔
      Along (fun _ t a => Q (event step t a)) step s calls := by
  induction calls generalizing s with
  | nil => simp
  | cons a as ih => rw [trace, List.forall_mem_cons, ih, along_cons]

/-- An invariant of the state, with what each call does under it, holds at every event. -/
theorem forall_event_of_invariant {C : σ → α → Prop} {step : σ → α → β × σ} {s : σ}
    {I : σ → Prop} {Q : Event σ α β → Prop} (h0 : I s)
    (hstep : ∀ t a, I t → C t a → I (step t a).2 ∧ Q (event step t a))
    (calls : List α) (hc : Along (fun _ => C) step s calls) :
    I (exec step s calls) ∧ ∀ e ∈ trace step s calls, Q e := by
  refine history_induction (C := fun _ => C) (P := fun h t => I t ∧ ∀ e ∈ h, Q e)
    ⟨h0, by simp⟩ ?_ calls hc
  intro h t a ⟨hI, hQ⟩ hC
  obtain ⟨hI', hQ'⟩ := hstep t a hI hC
  refine ⟨hI', fun e he => ?_⟩
  rcases List.mem_append.mp he with he | he
  · exact hQ e he
  · rw [List.mem_singleton.mp he]
    exact hQ'

/-- A property of histories that survives a call exactly if the call meets the condition `C` holds
throughout a run exactly if all its calls meet it. All calls are assumed to meet `D`. -/
theorem forall_prefix_iff_along_history {C D : List (Event σ α β) → σ → α → Prop}
    {step : σ → α → β × σ} {s : σ} {I P : List (Event σ α β) → σ → Prop} (h0 : I [] s)
    (hI : ∀ h t, I h t → P h t)
    (hstep : ∀ h t a, I h t → D h t a → C h t a → I (h ++ [event step t a]) (step t a).2)
    (hback : ∀ h t a, I h t → D h t a → P (h ++ [event step t a]) (step t a).2 → C h t a)
    (calls : List α) (hD : Along D step s calls) :
    (∀ as, as <+: calls → P (trace step s as) (exec step s as)) ↔ Along C step s calls := by
  -- under the condition the invariant holds of every run
  have hinv : ∀ as, Along D step s as → Along C step s as →
      I (trace step s as) (exec step s as) := by
    intro as hd hc
    apply history_induction (C := fun h t a => D h t a ∧ C h t a) h0
    · intro h t a hi ⟨hda, hca⟩
      exact hstep h t a hi hda hca
    · intro bs b cs heq
      exact ⟨hd bs b cs heq, hc bs b cs heq⟩
  constructor
  · intro h
    induction calls using List.reverseRecOn with
    | nil => exact along_nil C step s
    | append_singleton as a ih =>
      have hc : Along C step s as := ih hD.init fun bs hbs => h bs (hbs.trans (List.prefix_append as [a]))
      have hlast := h (as ++ [a]) List.prefix_rfl
      rw [trace_concat, exec_concat] at hlast
      have hca := hback _ _ _ (hinv as hD.init hc) hD.last hlast
      intro bs b cs heq
      rcases concat_eq_split.mp heq with ⟨rfl, rfl, -⟩ | ⟨rest, -, hh⟩
      · exact hca
      · exact hc bs b rest hh
  · intro hc as has
    exact hI _ _ (hinv as (hD.of_prefix has) (hc.of_prefix has))

/-- As `forall_prefix_iff_along_history`, for a property of the state. -/
theorem forall_prefix_iff_along {C : σ → α → Prop} {step : σ → α → β × σ} {s : σ}
    {I P : σ → Prop} (h0 : I s) (hI : ∀ t, I t → P t)
    (hstep : ∀ t a, I t → C t a → I (step t a).2)
    (hback : ∀ t a, I t → P (step t a).2 → C t a) (calls : List α) :
    (∀ as, as <+: calls → P (exec step s as)) ↔ Along (fun _ => C) step s calls := by
  exact forall_prefix_iff_along_history (I := fun _ => I) (P := fun _ => P) h0 (fun _ => hI)
    (fun _ t a hi _ hc => hstep t a hi hc) (fun _ t a hi _ hp => hback t a hi hp) calls
    (along_true step s calls)

end Virthub.Lib
