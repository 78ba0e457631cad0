import Virthub.Lib.TaskSum
import Virthub.Lib.Trace

/-! Operations on one shared word that are written as a compare-and-exchange loop: read the word,
compute what to put there or refuse, and try to exchange it; on failure go on with the word that was
found. The exchange is the weak one and may fail for no reason. What a thread computes between two
accesses is part of the access before it. -/
namespace Virthub.Lib.CasLoop

variable {V Op E : Type*}

inductive Pc (V Op : Type*) where
  | load (op : Op)
  | exchange (op : Op) (current new : V)
  | finished

structure State (V Op : Type*) where
  word : V
  threads : List (Pc V Op)

inductive Call (Op : Type*) where
  | begin (op : Op)
  /-- A thread makes its next access. -/
  | turn (thread : ℕ) (spurious : Bool)

/-- What comes after a read of `v`: the operation goes on to the exchange, or it refuses. -/
def afterRead (body : Op → V → Except E V) (op : Op) (v : V) :
    Option (Op × Except E Unit) × Pc V Op :=
  match body op v with
  | .ok new => (none, .exchange op v new)
  | .error e => (some (op, .error e), .finished)

def atomically (body : Op → V → Except E V) (word : V) (op : Op) : Except E Unit × V :=
  match body op word with
  | .ok new => (.ok (), new)
  | .error e => (.error e, word)

abbrev LoopEvent (V Op E : Type*) := Event (State V Op) (Call Op) (Option (Op × Except E Unit))

/-- The operations of a history that have ended, with their results, in the order in which they did. -/
def ended (h : List (LoopEvent V Op E)) : List (Op × Except E Unit) := h.filterMap Event.answer

theorem ended_concat (h : List (LoopEvent V Op E)) (e : LoopEvent V Op E) :
    ended (h ++ [e]) = ended h ++ e.answer.toList :=
  filterMap_append_singleton _ h e

/-- A thread that is about to exchange the word has computed the new one from the current one. -/
def Computed (body : Op → V → Except E V) (pc : Pc V Op) : Prop :=
  ∀ op current new, pc = .exchange op current new → body op current = .ok new

theorem computed_afterRead (body : Op → V → Except E V) (word : V) (op : Op) :
    Computed body (afterRead body op word).2 := by
  intro o current new h
  unfold afterRead at h
  cases hbody : body op word with
  | ok v =>
    rw [hbody] at h
    cases h
    exact hbody
  | error e =>
    rw [hbody] at h
    cases h

/-- A read that refuses is the whole operation at that moment; one that does not is none of it. -/
theorem afterRead_atomically (body : Op → V → Except E V) (word : V) (op : Op) :
    (afterRead body op word).1 = none ∨
      ∃ e, (afterRead body op word).1 = some (op, .error e) ∧
        atomically body word op = (.error e, word) := by
  unfold afterRead atomically
  cases body op word with
  | ok new => exact .inl rfl
  | error e => exact .inr ⟨e, rfl, rfl⟩

/-- The operations that have ended with an exchange, which may have put the same word there again. -/
def updates (h : List (LoopEvent V Op E)) : ℕ := (ended h).countP fun x => x.2.isOk

theorem updates_concat (h : List (LoopEvent V Op E)) (e : LoopEvent V Op E) :
    updates (h ++ [e]) = updates h + e.answer.toList.countP fun x => x.2.isOk := by
  rw [updates, ended_concat, List.countP_append]
  rfl

/-- What holds of the word at first and survives each operation holds of it throughout. -/
theorem exec_atomically {body : Op → V → Except E V} {P : V → Prop} {Q : Op → Prop}
    (hbody : ∀ op v new, Q op → P v → body op v = .ok new → P new) {v : V} (hv : P v)
    {ops : List Op} (hops : ∀ op ∈ ops, Q op) : P (exec (atomically body) v ops) := by
  induction ops generalizing v with
  | nil => exact hv
  | cons op ops ih =>
    obtain ⟨hop, hrest⟩ := List.forall_mem_cons.mp hops
    have hnext : P (atomically body v op).2 := by
      unfold atomically
      cases hnew : body op v with
      | ok new => exact hbody op v new hop hv hnew
      | error e => exact hv
    exact ih hnext hrest

/-- The operations that have ended, one at a time and in that order, leave the word as it is and
return what they have returned. -/
structure Linearized (body : Op → V → Except E V) (init : V) (h : List (LoopEvent V Op E))
    (s : State V Op) : Prop where
  computed : ∀ pc ∈ s.threads, Computed body pc
  word : exec (atomically body) init ((ended h).map Prod.fst) = s.word
  answers : (trace (atomically body) init ((ended h).map Prod.fst)).map Event.answer =
    (ended h).map Prod.snd

/-- An operation has returned what it returns right after those that ended before it. -/
theorem Linearized.answer_of_split {body : Op → V → Except E V} {init : V} {h : List (LoopEvent V Op E)}
    {s : State V Op} (hl : Linearized body init h s) {past rest : List (Op × Except E Unit)} {op : Op}
    {r : Except E Unit} (hsplit : ended h = past ++ (op, r) :: rest) :
    (atomically body (exec (atomically body) init (past.map Prod.fst)) op).1 = r := by
  have hanswers := hl.answers
  rw [hsplit, List.map_append, List.map_append, trace_append, List.map_append] at hanswers
  have hlength : ((trace (atomically body) init (past.map Prod.fst)).map Event.answer).length =
      (past.map Prod.snd).length := by
    rw [List.length_map, List.length_map, ← List.length_map Event.call, map_call_trace,
      List.length_map]
  have hrest := List.append_inj_right hanswers hlength
  exact (List.cons.inj hrest).1

variable [DecidableEq V]

/-- One access of a thread: how its operation ends, if it does, where it goes, and the word it
leaves. -/
def access (body : Op → V → Except E V) (word : V) (pc : Pc V Op) (spurious : Bool) :
    Option (Op × Except E Unit) × Pc V Op × V :=
  match pc with
  | .load op => ((afterRead body op word).1, (afterRead body op word).2, word)
  | .exchange op current new =>
    if word = current ∧ spurious = false then (some (op, .ok ()), .finished, new)
    else ((afterRead body op word).1, (afterRead body op word).2, word)
  | .finished => (none, .finished, word)

def step (body : Op → V → Except E V) (s : State V Op) :
    Call Op → Option (Op × Except E Unit) × State V Op
  | .begin op => (none, { s with threads := s.threads ++ [.load op] })
  | .turn thread spurious =>
    match s.threads[thread]? with
    | none => (none, s)
    | some pc =>
      let a := access body s.word pc spurious
      (a.1, ⟨a.2.2, s.threads.set thread a.2.1⟩)

theorem computed_access (body : Op → V → Except E V) (word : V) (pc : Pc V Op) (spurious : Bool) :
    Computed body (access body word pc spurious).2.1 := by
  have hfinished : Computed body (.finished : Pc V Op) := by
    intro op current new h
    cases h
  cases pc with
  | load op => exact computed_afterRead body word op
  | exchange op current new =>
    simp only [access]
    split_ifs
    · exact hfinished
    · exact computed_afterRead body word op
  | finished => exact hfinished

/-- An access that ends no operation leaves the word; one that ends an operation is the whole
operation at that moment. -/
theorem access_atomically {body : Op → V → Except E V} {pc : Pc V Op} (hpc : Computed body pc)
    (word : V) (spurious : Bool) :
    ((access body word pc spurious).1 = none ∧ (access body word pc spurious).2.2 = word) ∨
      ∃ op, (access body word pc spurious).1 = some (op, (atomically body word op).1) ∧
        (access body word pc spurious).2.2 = (atomically body word op).2 := by
  have hread : ∀ op, ((afterRead body op word).1 = none ∧ word = word) ∨
      ∃ o, (afterRead body op word).1 = some (o, (atomically body word o).1) ∧
        word = (atomically body word o).2 := by
    intro op
    rcases afterRead_atomically body word op with h | ⟨e, h, hatomic⟩
    · exact .inl ⟨h, rfl⟩
    · refine .inr ⟨op, ?_, ?_⟩
      · rw [h, hatomic]
      · rw [hatomic]
  cases pc with
  | load op => exact hread op
  | exchange op current new =>
    simp only [access]
    split_ifs with hword
    · refine .inr ⟨op, ?_, ?_⟩
      · rw [atomically, hword.1, hpc op current new rfl]
      · rw [atomically, hword.1, hpc op current new rfl]
    · exact hread op
  | finished => exact .inl ⟨rfl, rfl⟩

variable {body : Op → V → Except E V}

theorem Linearized.step {init : V} {h : List (LoopEvent V Op E)} {s : State V Op}
    (hl : Linearized body init h s) (a : Call Op) :
    Linearized body init (h ++ [event (step body) s a]) (step body s a).2 := by
  cases a with
  | begin op =>
    have hended : ended (h ++ [event (CasLoop.step body) s (.begin op)]) = ended h := by
      rw [ended_concat]
      exact List.append_nil _
    refine ⟨?_, hended ▸ hl.word, hended ▸ hl.answers⟩
    intro pc hpc
    rcases List.mem_append.mp hpc with hpc | hpc
    · exact hl.computed pc hpc
    · rw [List.mem_singleton.mp hpc]
      intro o current new hload
      cases hload
  | turn thread spurious =>
    cases ht : s.threads[thread]? with
    | none =>
      have hstep : CasLoop.step body s (.turn thread spurious) = (none, s) := by
        simp only [CasLoop.step, ht]
      rw [event_eq hstep, hstep]
      have hended : ended (h ++ [⟨s, .turn thread spurious, none, s⟩]) = ended h := by
        rw [ended_concat]
        exact List.append_nil _
      exact ⟨hl.computed, hended ▸ hl.word, hended ▸ hl.answers⟩
    | some pc =>
      have hstep : CasLoop.step body s (.turn thread spurious) =
          ((access body s.word pc spurious).1, ⟨(access body s.word pc spurious).2.2,
            s.threads.set thread (access body s.word pc spurious).2.1⟩) := by
        simp only [CasLoop.step, ht]
      rw [event_eq hstep, hstep]
      have hcomputed : ∀ p ∈ s.threads.set thread (access body s.word pc spurious).2.1,
          Computed body p := by
        intro p hp
        rcases List.mem_or_eq_of_mem_set hp with hp | rfl
        · exact hl.computed p hp
        · exact computed_access body s.word pc spurious
      have hpc := hl.computed pc (List.mem_of_getElem? ht)
      rcases access_atomically hpc s.word spurious with ⟨hnone, hword⟩ | ⟨op, hsome, hword⟩
      · rw [hnone, hword]
        refine ⟨hcomputed, ?_, ?_⟩
        · simpa [ended_concat] using hl.word
        · simpa [ended_concat] using hl.answers
      · rw [hsome, hword]
        refine ⟨hcomputed, ?_, ?_⟩
        · simp [ended_concat, hl.word]
        · simp [ended_concat, hl.word, hl.answers, event]

/-- Compare-and-exchange loops are atomic. -/
theorem linearized_run (body : Op → V → Except E V) (init : V) (calls : List (Call Op)) :
    Linearized body init (trace (step body) ⟨init, []⟩ calls) (exec (step body) ⟨init, []⟩ calls) :=
  history_induction (C := fun _ _ _ => True)
    (⟨by simp, rfl, rfl⟩ : Linearized body init [] ⟨init, []⟩) (fun _ _ a hl _ => hl.step a) calls
    (along_true _ _ _)

def Pc.op : Pc V Op → Option Op
  | .load op | .exchange op _ _ => some op
  | .finished => none

theorem op_access (body : Op → V → Except E V) (word : V) (pc : Pc V Op) (spurious : Bool) (op : Op) :
    ((access body word pc spurious).2.1.op = some op → pc.op = some op) ∧
      ∀ r, (access body word pc spurious).1 = some (op, r) → pc.op = some op := by
  have hread : ∀ o, ((afterRead body o word).2.op = some op → o = op) ∧
      ∀ r, (afterRead body o word).1 = some (op, r) → o = op := by
    intro o
    unfold afterRead
    cases body o word with
    | ok new =>
      refine ⟨Option.some.inj, ?_⟩
      intro r hr
      cases hr
    | error e =>
      constructor
      · intro hop
        cases hop
      · intro r hr
        exact congrArg Prod.fst (Option.some.inj hr)
  cases pc with
  | load o => exact ⟨fun h => congrArg some ((hread o).1 h), fun r h => congrArg some ((hread o).2 r h)⟩
  | exchange o current new =>
    simp only [access]
    split_ifs
    · refine ⟨fun h => ?_, fun r h => ?_⟩
      · cases h
      · exact congrArg some (congrArg Prod.fst (Option.some.inj h))
    · exact ⟨fun h => congrArg some ((hread o).1 h), fun r h => congrArg some ((hread o).2 r h)⟩
  | finished =>
    refine ⟨fun h => ?_, fun r h => ?_⟩
    · cases h
    · cases h

structure Begun (h : List (LoopEvent V Op E)) (s : State V Op) : Prop where
  threads : ∀ pc ∈ s.threads, ∀ op, pc.op = some op → .begin op ∈ h.map Event.call
  ended : ∀ x ∈ ended h, .begin x.1 ∈ h.map Event.call

theorem Begun.step {h : List (LoopEvent V Op E)} {s : State V Op} (hb : Begun h s) (a : Call Op) :
    Begun (h ++ [event (step body) s a]) (step body s a).2 := by
  have hcalls : (h ++ [event (CasLoop.step body) s a]).map Event.call = h.map Event.call ++ [a] := by
    rw [List.map_append]
    rfl
  have holder : ∀ op, .begin op ∈ h.map Event.call →
      .begin op ∈ (h ++ [event (CasLoop.step body) s a]).map Event.call := by
    intro op hop
    rw [hcalls]
    exact List.mem_append_left _ hop
  constructor
  case threads =>
    intro pc hpc op hop
    cases a with
    | begin o =>
      rcases List.mem_append.mp hpc with hpc | hpc
      · exact holder op (hb.threads pc hpc op hop)
      · rw [List.mem_singleton.mp hpc] at hop
        obtain rfl := Option.some.inj hop
        rw [hcalls]
        exact List.mem_append_right _ (List.mem_singleton.mpr rfl)
    | turn thread spurious =>
      apply holder op
      simp only [CasLoop.step] at hpc
      cases ht : s.threads[thread]? with
      | none =>
        rw [ht] at hpc
        exact hb.threads pc hpc op hop
      | some old =>
        rw [ht] at hpc
        rcases List.mem_or_eq_of_mem_set hpc with hpc | rfl
        · exact hb.threads pc hpc op hop
        · exact hb.threads old (List.mem_of_getElem? ht) op ((op_access body _ old spurious op).1 hop)
  case ended =>
    intro x hx
    rw [ended_concat] at hx
    apply holder
    rcases List.mem_append.mp hx with hx | hx
    · exact hb.ended x hx
    · have hanswer := Option.mem_toList.mp hx
      cases a with
      | begin o => cases hanswer
      | turn thread spurious =>
        simp only [event, CasLoop.step] at hanswer
        cases ht : s.threads[thread]? with
        | none =>
          rw [ht] at hanswer
          cases hanswer
        | some old =>
          rw [ht] at hanswer
          exact hb.threads old (List.mem_of_getElem? ht) x.1
            ((op_access body _ old spurious x.1).2 x.2 hanswer)

theorem begin_mem_of_ended (body : Op → V → Except E V) (init : V) (calls : List (Call Op)) :
    ∀ x ∈ ended (trace (step body) ⟨init, []⟩ calls), .begin x.1 ∈ calls := by
  have hb : Begun (trace (step body) ⟨init, []⟩ calls) (exec (step body) ⟨init, []⟩ calls) :=
    history_induction (C := fun _ _ _ => True) ⟨by simp, by simp [ended]⟩
      (fun _ _ a hb _ => hb.step a) calls (along_true _ _ _)
  intro x hx
  have hbegun := hb.ended x hx
  rwa [map_call_trace] at hbegun

/-- The exchange of thread `i` fails because the word is another one by now. -/
def failsExchange (i : ℕ) (e : LoopEvent V Op E) : Bool :=
  match e.call, e.pre.threads[i]? with
  | .turn thread spurious, some (.exchange _ current _) =>
    thread = i ∧ spurious = false ∧ e.pre.word ≠ current
  | _, _ => false

def stale (i : ℕ) (s : State V Op) : Bool :=
  match s.threads[i]? with
  | some (.exchange _ current _) => s.word ≠ current
  | _ => false

theorem stale_access (body : Op → V → Except E V) (word : V) (pc : Pc V Op) (spurious : Bool)
    {op : Op} {current new : V}
    (h : (access body word pc spurious).2.1 = .exchange op current new) :
    (access body word pc spurious).2.2 = current := by
  have hread : ∀ o, (afterRead body o word).2 = .exchange op current new → word = current := by
    intro o ho
    unfold afterRead at ho
    cases hbody : body o word with
    | ok v =>
      rw [hbody] at ho
      cases ho
      rfl
    | error e =>
      rw [hbody] at ho
      cases ho
  cases pc with
  | load o => exact hread o h
  | exchange o c n =>
    simp only [access] at h ⊢
    split_ifs at h ⊢ with hword
    exact hread o h
  | finished => cases h

theorem word_access (body : Op → V → Except E V) (word : V) (pc : Pc V Op) (spurious : Bool) :
    (access body word pc spurious).2.2 = word ∨
      ∃ op, (access body word pc spurious).1 = some (op, .ok ()) := by
  cases pc with
  | load o => exact .inl rfl
  | exchange o c n =>
    simp only [access]
    split_ifs
    · exact .inr ⟨o, rfl⟩
    · exact .inl rfl
  | finished => exact .inl rfl

/-- Each exchange of a thread that fails on a changed word is paid for by one that succeeds. -/
def Paid (i : ℕ) (h : List (LoopEvent V Op E)) (s : State V Op) : Prop :=
  h.countP (failsExchange i) + (stale i s).toNat ≤ updates h

/-- Only a thread's own turn makes its exchange fail, and only when it is stale. -/
theorem failsExchange_turn (i thread : ℕ) (spurious : Bool) (s : State V Op)
    (answer : Option (Op × Except E Unit)) (post : State V Op) :
    failsExchange i ⟨s, .turn thread spurious, answer, post⟩ = true → thread = i ∧ stale i s = true := by
  intro h
  unfold failsExchange at h
  unfold stale
  cases ht : s.threads[i]? with
  | none => simp [ht] at h
  | some pc =>
    cases pc with
    | exchange op current new =>
      simp only [ht, decide_eq_true_eq] at h ⊢
      exact ⟨h.1, h.2.2⟩
    | load op => simp [ht] at h
    | finished => simp [ht] at h

theorem stale_own_turn (body : Op → V → Except E V) {i : ℕ} (spurious : Bool) {s : State V Op}
    {pc : Pc V Op} (ht : s.threads[i]? = some pc) :
    stale i ⟨(access body s.word pc spurious).2.2,
      s.threads.set i (access body s.word pc spurious).2.1⟩ = false := by
  have hi := (List.getElem?_eq_some_iff.mp ht).1
  simp only [stale, List.getElem?_set_self hi]
  cases hnext : (access body s.word pc spurious).2.1 with
  | exchange op current new => simp [stale_access body s.word pc spurious hnext]
  | load op => rfl
  | finished => rfl

theorem stale_other_turn (body : Op → V → Except E V) {i thread : ℕ} (hi : thread ≠ i)
    (spurious : Bool) (s : State V Op) (pc : Pc V Op) :
    (stale i ⟨(access body s.word pc spurious).2.2,
        s.threads.set thread (access body s.word pc spurious).2.1⟩).toNat ≤
      (stale i s).toNat +
        (access body s.word pc spurious).1.toList.countP fun x => x.2.isOk := by
  rcases word_access body s.word pc spurious with hword | ⟨op, hanswer⟩
  · have hsame : stale i ⟨(access body s.word pc spurious).2.2,
        s.threads.set thread (access body s.word pc spurious).2.1⟩ = stale i s := by
      simp only [stale, hword, List.getElem?_set_ne hi]
    rw [hsame]
    exact Nat.le_add_right _ _
  · rw [hanswer]
    exact (Bool.toNat_le _).trans (Nat.le_add_left _ _)

theorem paid_step {i : ℕ} {h : List (LoopEvent V Op E)} {s : State V Op} (hp : Paid i h s)
    (a : Call Op) : Paid i (h ++ [event (step body) s a]) (step body s a).2 := by
  unfold Paid at hp ⊢
  rw [List.countP_append, updates_concat, List.countP_singleton]
  cases a with
  | begin op =>
    have hstale : stale i (step body s (.begin op)).2 = stale i s := by
      simp only [stale, step, List.getElem?_append]
      split_ifs with hi
      · rfl
      · rw [List.getElem?_eq_none (by omega : s.threads.length ≤ i), List.getElem?_singleton]
        split_ifs <;> rfl
    rw [hstale]
    exact hp
  | turn thread spurious =>
    have hfails := failsExchange_turn i thread spurious s (step body s (.turn thread spurious)).1
      (step body s (.turn thread spurious)).2
    cases ht : s.threads[thread]? with
    | none =>
      have hstep : step body s (.turn thread spurious) = (none, s) := by
        simp only [step, ht]
      have hnot : failsExchange i (event (step body) s (.turn thread spurious)) = false := by
        rw [Bool.eq_false_iff]
        intro hf
        obtain ⟨rfl, hstale⟩ := hfails hf
        simp [stale, ht] at hstale
      rw [hnot, hstep, event_eq hstep]
      exact hp
    | some pc =>
      have hstep : step body s (.turn thread spurious) =
          ((access body s.word pc spurious).1, ⟨(access body s.word pc spurious).2.2,
            s.threads.set thread (access body s.word pc spurious).2.1⟩) := by
        simp only [step, ht]
      rw [hstep] at hfails
      rw [event_eq hstep, hstep]
      by_cases hi : thread = i
      · subst hi
        rw [stale_own_turn body spurious ht]
        split_ifs with hf
        · rw [(hfails hf).2] at hp
          exact hp.trans (Nat.le_add_right _ _)
        · exact ((Nat.le_add_right _ _).trans hp).trans (Nat.le_add_right _ _)
      · rw [if_neg fun hf => hi (hfails hf).1]
        have hother := stale_other_turn body hi spurious s pc
        dsimp only
        omega

/-- Compare-and-exchange loops are lock-free. In every run a thread's exchange fails on a changed
word at most as often as exchanges have succeeded. -/
theorem retries_le_updates (body : Op → V → Except E V) (init : V) (calls : List (Call Op)) (i : ℕ) :
    (trace (step body) ⟨init, []⟩ calls).countP (failsExchange i) ≤
      updates (trace (step body) ⟨init, []⟩ calls) := by
  have hp : Paid i (trace (step body) ⟨init, []⟩ calls) (exec (step body) ⟨init, []⟩ calls) :=
    history_induction (C := fun _ _ _ => True) (P := Paid i) le_rfl
      (fun _ _ a hp _ => paid_step hp a) calls (along_true _ _ _)
  exact (Nat.le_add_right _ _).trans hp

end Virthub.Lib.CasLoop
