import Virthub.Lib.Trace

/-! A server with one task for each connection. A task receives a request off its stream, works on it with
the service that all tasks share, sends the response and starts over. Bytes arrive and tasks make their
steps in any order, and the work on a request may take several steps. -/
namespace Virthub.Lib.Server

variable {β μ π ρ ε σ : Type*}

/-- What the receiver makes of the bytes at hand. -/
inductive Received (β μ ε : Type*) where
  | short
  | failed (error : ε)
  | message (m : μ) (rest : List β)

/-- `π` is what is left to do for a request. A step of work leaves something to do or ends with a response. -/
structure Protocol (β μ π ρ ε σ : Type*) where
  receive : List β → Received β μ ε
  call : μ → π
  work : σ → π → (π ⊕ ρ) × σ
  frame : ρ → List β

/-- How a task can end. -/
inductive Ending (ε : Type*) where
  | disconnected
  | receiveError (error : ε)
  | readError
  | sendError

inductive Task (μ π ρ ε : Type*) where
  | receiving
  | processing (m : μ) (todo : π)
  | sending (r : ρ)
  | ended (ending : Ending ε)

/-- A connection: what the client has sent and the task has not taken, whether the client is done, what the
task is at, and what it has written. -/
structure Connection (β μ π ρ ε : Type*) where
  inbox : List β
  closed : Bool
  task : Task μ π ρ ε
  outbox : List β

def Connection.accepted : Connection β μ π ρ ε := ⟨[], false, .receiving, []⟩

/-- What can happen on a connection. A write that fails may have written some of the frame. -/
inductive Action (β : Type*) where
  | arrive (bytes : List β)
  | close
  | receive
  | readFails
  | process
  | send
  | sendFails (written : ℕ)
  deriving DecidableEq

namespace Protocol

variable (P : Protocol β μ π ρ ε σ)

/-- One action on a connection: the request and the response if it ends one, the service and the connection
after it. -/
def act (service : σ) (conn : Connection β μ π ρ ε) : Action β → Option (μ × ρ) × σ × Connection β μ π ρ ε
  | .arrive bytes => (none, service, if conn.closed then conn else { conn with inbox := conn.inbox ++ bytes })
  | .close => (none, service, { conn with closed := true })
  | .receive => match conn.task with
    | .receiving => match P.receive conn.inbox with
      | .short => (none, service, if conn.closed then { conn with task := .ended .disconnected } else conn)
      | .failed e => (none, service, { conn with task := .ended (.receiveError e) })
      | .message m rest => (none, service, { conn with inbox := rest, task := .processing m (P.call m) })
    | _ => (none, service, conn)
  | .readFails => match conn.task with
    | .receiving => (none, service, { conn with task := .ended .readError })
    | _ => (none, service, conn)
  | .process => match conn.task with
    | .processing m todo => match P.work service todo with
      | (.inl todo, service) => (none, service, { conn with task := .processing m todo })
      | (.inr r, service) => (some (m, r), service, { conn with task := .sending r })
    | _ => (none, service, conn)
  | .send => match conn.task with
    | .sending r => (none, service, { conn with outbox := conn.outbox ++ P.frame r, task := .receiving })
    | _ => (none, service, conn)
  | .sendFails written => match conn.task with
    | .sending r =>
      (none, service,
        { conn with outbox := conn.outbox ++ (P.frame r).take written, task := .ended .sendError })
    | _ => (none, service, conn)

structure State (β μ π ρ ε σ : Type*) where
  service : σ
  connections : ℕ → Connection β μ π ρ ε

def start (service : σ) : State β μ π ρ ε σ := ⟨service, fun _ => .accepted⟩

/-- An action on one of the connections. The answer is the request that it has ended, with the response. -/
def step (s : State β μ π ρ ε σ) (a : ℕ × Action β) : Option (ℕ × μ × ρ) × State β μ π ρ ε σ :=
  let (ended, service, conn) := P.act s.service (s.connections a.1) a.2
  (ended.map (Prod.mk a.1), ⟨service, Function.update s.connections a.1 conn⟩)

end Protocol

/-- The requests in the order in which they have ended, with their responses. -/
def processed {α γ δ : Type*} (h : List (Event α γ (Option δ))) : List δ := h.filterMap Event.answer

/-- Those of one connection. -/
def ofConnection {γ : Type*} (c : ℕ) (xs : List (ℕ × γ)) : List γ := (xs.filter (·.1 = c)).map Prod.snd

def Action.bytes : Action β → List β
  | .arrive bytes => bytes
  | _ => []

def Action.isClose : Action β → Bool
  | .close => true
  | _ => false

/-- The bytes that a client sends before it closes. -/
def input (actions : List (Action β)) : List β := (actions.takeWhile (!·.isClose)).flatMap Action.bytes

/-- The answers to the requests of one connection. -/
def answers (c : ℕ) (h : List (Event σ (ℕ × μ) (Option ρ))) : List (Option ρ) :=
  (h.filter (·.call.1 = c)).map Event.answer

/-- Receiving one message after the other takes these off the bytes and leaves the rest. -/
inductive Takes (receive : List β → Received β μ ε) : List β → List μ → List β → Prop where
  | nil (bytes : List β) : Takes receive bytes [] bytes
  | cons {bytes rest left : List β} {m : μ} {ms : List μ} (h : receive bytes = .message m rest)
      (htail : Takes receive rest ms left) : Takes receive bytes (m :: ms) left

/-- A message that is complete stays so when more bytes come. -/
def Incremental (receive : List β → Received β μ ε) : Prop :=
  ∀ {bytes rest : List β} {m : μ}, receive bytes = .message m rest →
    ∀ more, receive (bytes ++ more) = .message m (rest ++ more)

section Takes

variable {receive : List β → Received β μ ε} {bytes left : List β} {ms : List μ}

theorem Takes.append (hr : Incremental receive) (h : Takes receive bytes ms left) (more : List β) :
    Takes receive (bytes ++ more) ms (left ++ more) := by
  induction h with
  | nil bytes => exact .nil _
  | cons hm _ ih => exact .cons (hr hm more) ih

theorem Takes.concat (h : Takes receive bytes ms left) {m : μ} {rest : List β}
    (hm : receive left = .message m rest) :
    Takes receive bytes (ms ++ [m]) rest := by
  induction h with
  | nil bytes => exact .cons hm (.nil rest)
  | cons hfirst _ ih => exact .cons hfirst (ih hm)

end Takes

theorem ofConnection_concat {γ : Type*} (c : ℕ) (xs : List (ℕ × γ)) (x : ℕ × γ) :
    ofConnection c (xs ++ [x]) = ofConnection c xs ++ if x.1 = c then [x.2] else [] := by
  rw [ofConnection, List.filter_append, List.map_append]
  by_cases hx : x.1 = c
  · simp [hx, ofConnection]
  · simp [hx, ofConnection]

theorem answers_concat (c : ℕ) (h : List (Event σ (ℕ × μ) (Option ρ))) (x : Event σ (ℕ × μ) (Option ρ)) :
    answers c (h ++ [x]) = answers c h ++ if x.call.1 = c then [x.answer] else [] := by
  rw [answers, List.filter_append, List.map_append]
  by_cases hx : x.call.1 = c
  · simp [hx, answers]
  · simp [hx, answers]

theorem processed_concat {α γ δ : Type*} (h : List (Event α γ (Option δ))) (x : Event α γ (Option δ)) :
    processed (h ++ [x]) = processed h ++ x.answer.toList := by
  rw [processed, List.filterMap_append]
  cases hx : x.answer <;> simp [hx, processed]

theorem input_cons_of_ne {b : Action β} (hb : b ≠ .close) (actions : List (Action β)) :
    input (b :: actions) = b.bytes ++ input actions := by
  have hopen : b.isClose = false := by
    cases b with
    | close => exact absurd rfl hb
    | _ => rfl
  rw [input, List.takeWhile_cons, hopen]
  rfl

theorem input_concat_of_closed {actions : List (Action β)} (h : .close ∈ actions) (a : Action β) :
    input (actions ++ [a]) = input actions := by
  induction actions with
  | nil => cases h
  | cons b actions ih =>
    rcases List.mem_cons.mp h with rfl | hmem
    · rfl
    · by_cases hb : b = .close
      · subst hb
        rfl
      · rw [List.cons_append, input_cons_of_ne hb, input_cons_of_ne hb, ih hmem]

theorem input_concat_of_open {actions : List (Action β)} (h : .close ∉ actions) (a : Action β) :
    input (actions ++ [a]) = input actions ++ a.bytes := by
  induction actions with
  | nil => cases a <;> simp [input, Action.isClose, Action.bytes]
  | cons b actions ih =>
    rw [List.mem_cons, not_or] at h
    have hb : b ≠ .close := Ne.symm h.1
    rw [List.cons_append, input_cons_of_ne hb, input_cons_of_ne hb, ih h.2, List.append_assoc]

/-- The request that a task has received and not ended yet. -/
def Task.pending : Task μ π ρ ε → List μ
  | .processing m _ => [m]
  | _ => []

/-- What a task has yet to write of the responses. -/
def Task.Leaves (frame : ρ → List β) (unsent : List β) : Task μ π ρ ε → Prop
  | .sending r => unsent = frame r
  | .ended .sendError => True
  | _ => unsent = []

/-- What a connection has got after some actions and processed requests: the requests are those that arrived
on it, in order, and the responses to them have been written to it, in order. -/
structure Served (P : Protocol β μ π ρ ε σ) (actions : List (Action β)) (requests : List μ)
    (responses : List ρ) (conn : Connection β μ π ρ ε) : Prop where
  takes : Takes P.receive (input actions) (requests ++ conn.task.pending) conn.inbox
  closed : conn.closed = true ↔ .close ∈ actions
  written : ∃ unsent, conn.outbox ++ unsent = responses.flatMap P.frame ∧ conn.task.Leaves P.frame unsent
  disconnected : conn.task = .ended .disconnected → conn.closed = true ∧ P.receive conn.inbox = .short

namespace Protocol

/-- What an action on a connection can do. An action for which the task is not ready does nothing. -/
inductive Acts (P : Protocol β μ π ρ ε σ) (service : σ) (conn : Connection β μ π ρ ε) :
    Action β → Option (μ × ρ) × σ × Connection β μ π ρ ε → Prop where
  | idle {a : Action β} (hbytes : a.bytes = []) (hclose : a ≠ .close) :
    Acts P service conn a (none, service, conn)
  | arrive (bytes : List β) : Acts P service conn (.arrive bytes)
      (none, service, if conn.closed then conn else { conn with inbox := conn.inbox ++ bytes })
  | close : Acts P service conn .close (none, service, { conn with closed := true })
  | disconnect (htask : conn.task = .receiving) (hreceive : P.receive conn.inbox = .short)
      (hclosed : conn.closed = true) :
    Acts P service conn .receive (none, service, { conn with task := .ended .disconnected })
  | reject (htask : conn.task = .receiving) {e : ε} (hreceive : P.receive conn.inbox = .failed e) :
    Acts P service conn .receive (none, service, { conn with task := .ended (.receiveError e) })
  | receive (htask : conn.task = .receiving) {m : μ} {rest : List β}
      (hreceive : P.receive conn.inbox = .message m rest) :
    Acts P service conn .receive
      (none, service, { conn with inbox := rest, task := .processing m (P.call m) })
  | readFails (htask : conn.task = .receiving) :
    Acts P service conn .readFails (none, service, { conn with task := .ended .readError })
  | work {m : μ} {todo todo' : π} {service' : σ} (htask : conn.task = .processing m todo)
      (hwork : P.work service todo = (.inl todo', service')) :
    Acts P service conn .process (none, service', { conn with task := .processing m todo' })
  | answer {m : μ} {todo : π} {r : ρ} {service' : σ} (htask : conn.task = .processing m todo)
      (hwork : P.work service todo = (.inr r, service')) :
    Acts P service conn .process (some (m, r), service', { conn with task := .sending r })
  | send {r : ρ} (htask : conn.task = .sending r) : Acts P service conn .send
      (none, service, { conn with outbox := conn.outbox ++ P.frame r, task := .receiving })
  | sendFails {r : ρ} (htask : conn.task = .sending r) (written : ℕ) :
    Acts P service conn (.sendFails written)
      (none, service,
        { conn with outbox := conn.outbox ++ (P.frame r).take written, task := .ended .sendError })

theorem acts (P : Protocol β μ π ρ ε σ) (service : σ) (conn : Connection β μ π ρ ε) (a : Action β) :
    P.Acts service conn a (P.act service conn a) := by
  cases a with
  | arrive bytes => exact .arrive bytes
  | close => exact .close
  | receive =>
    rw [act]
    split
    · rename_i htask
      split
      · rename_i hreceive
        split_ifs with hclosed
        · exact .disconnect htask hreceive hclosed
        · exact .idle rfl (by simp)
      · rename_i hreceive
        exact .reject htask hreceive
      · rename_i hreceive
        exact .receive htask hreceive
    · exact .idle rfl (by simp)
  | readFails =>
    rw [act]
    split
    · rename_i htask
      exact .readFails htask
    · exact .idle rfl (by simp)
  | process =>
    rw [act]
    split
    · rename_i htask
      split
      · rename_i hwork
        exact .work htask hwork
      · rename_i hwork
        exact .answer htask hwork
    · exact .idle rfl (by simp)
  | send =>
    rw [act]
    split
    · rename_i htask
      exact .send htask
    · exact .idle rfl (by simp)
  | sendFails written =>
    rw [act]
    split
    · rename_i htask
      exact .sendFails htask written
    · exact .idle rfl (by simp)

end Protocol

section Act

variable {P : Protocol β μ π ρ ε σ} {actions : List (Action β)} {requests : List μ} {responses : List ρ}
  {conn : Connection β μ π ρ ε}

theorem served_accepted : Served P [] [] [] Connection.accepted where
  takes := .nil _
  closed := by simp [Connection.accepted]
  written := ⟨[], rfl, rfl⟩
  disconnected := by
    intro h
    cases h

theorem input_concat_of_bytes_eq_nil {a : Action β} (ha : a.bytes = []) (actions : List (Action β)) :
    input (actions ++ [a]) = input actions := by
  by_cases hclosed : .close ∈ actions
  · exact input_concat_of_closed hclosed a
  · rw [input_concat_of_open hclosed, ha, List.append_nil]

/-- An action of the task itself sends nothing and closes nothing. -/
theorem Served.of_task (h : Served P actions requests responses conn) {a : Action β} (ha : a.bytes = [])
    (hc : a ≠ .close)
    {requests' : List μ} {responses' : List ρ} {conn' : Connection β μ π ρ ε}
    (hclosed : conn'.closed = conn.closed)
    (htakes : Takes P.receive (input actions) (requests' ++ conn'.task.pending) conn'.inbox)
    (hwritten : ∃ unsent, conn'.outbox ++ unsent = responses'.flatMap P.frame ∧
      conn'.task.Leaves P.frame unsent)
    (hdisc : conn'.task = .ended .disconnected → conn'.closed = true ∧ P.receive conn'.inbox = .short) :
    Served P (actions ++ [a]) requests' responses' conn' where
  takes := by rwa [input_concat_of_bytes_eq_nil ha]
  closed := by
    rw [hclosed, h.closed, List.mem_append, List.mem_singleton]
    exact ⟨Or.inl, fun hmem => hmem.resolve_right fun heq => hc heq.symm⟩
  written := hwritten
  disconnected := hdisc

theorem Served.idle (h : Served P actions requests responses conn) {a : Action β} (ha : a.bytes = [])
    (hc : a ≠ .close) :
    Served P (actions ++ [a]) requests responses conn :=
  h.of_task ha hc rfl h.takes h.written h.disconnected

theorem Served.arrive (hP : Incremental P.receive) (h : Served P actions requests responses conn)
    (bytes : List β) :
    Served P (actions ++ [.arrive bytes]) requests responses
      (if conn.closed then conn else { conn with inbox := conn.inbox ++ bytes }) := by
  have hmem : Action.close ∈ actions ++ [.arrive bytes] ↔ Action.close ∈ actions := by simp
  split_ifs with hclosed
  · refine ⟨?_, h.closed.trans hmem.symm, h.written, h.disconnected⟩
    rw [input_concat_of_closed (h.closed.mp hclosed)]
    exact h.takes
  · refine ⟨?_, h.closed.trans hmem.symm, h.written, ?_⟩
    · rw [input_concat_of_open fun hc => hclosed (h.closed.mpr hc)]
      exact h.takes.append hP bytes
    · intro htask
      exact absurd (h.disconnected htask).1 hclosed

theorem Served.close (h : Served P actions requests responses conn) :
    Served P (actions ++ [.close]) requests responses { conn with closed := true } where
  takes := by
    rw [input_concat_of_bytes_eq_nil rfl]
    exact h.takes
  closed := by simp
  written := h.written
  disconnected := fun htask => ⟨rfl, (h.disconnected htask).2⟩

/-- The task goes on to something else with nothing received and nothing written. -/
theorem Served.of_kept (h : Served P actions requests responses conn) {a : Action β} (ha : a.bytes = [])
    (hc : a ≠ .close) {task : Task μ π ρ ε} (hpending : task.pending = conn.task.pending)
    (hleaves : ∀ unsent, conn.task.Leaves P.frame unsent → task.Leaves P.frame unsent)
    (hdisc : task = .ended .disconnected → conn.closed = true ∧ P.receive conn.inbox = .short) :
    Served P (actions ++ [a]) requests responses { conn with task := task } := by
  obtain ⟨unsent, hwritten, hunsent⟩ := h.written
  refine h.of_task ha hc rfl ?_ ⟨unsent, hwritten, hleaves unsent hunsent⟩ hdisc
  rw [hpending]
  exact h.takes

theorem Served.disconnect (h : Served P actions requests responses conn) (htask : conn.task = .receiving)
    (hreceive : P.receive conn.inbox = .short) (hclosed : conn.closed = true) :
    Served P (actions ++ [.receive]) requests responses { conn with task := .ended .disconnected } :=
  h.of_kept rfl (by simp) (by rw [htask]; rfl) (by simp [htask, Task.Leaves]) fun _ => ⟨hclosed, hreceive⟩

theorem Served.reject (h : Served P actions requests responses conn) (htask : conn.task = .receiving)
    (e : ε) :
    Served P (actions ++ [.receive]) requests responses { conn with task := .ended (.receiveError e) } :=
  h.of_kept rfl (by simp) (by rw [htask]; rfl) (by simp [htask, Task.Leaves]) (by simp)

theorem Served.receive (h : Served P actions requests responses conn) (htask : conn.task = .receiving) {m : μ}
    {rest : List β} (hreceive : P.receive conn.inbox = .message m rest) :
    Served P (actions ++ [.receive]) requests responses
      { conn with inbox := rest, task := .processing m (P.call m) } := by
  have hnone := h.takes
  obtain ⟨unsent, hwritten, hunsent⟩ := h.written
  rw [htask] at hnone hunsent
  have htakes : Takes P.receive (input actions) requests conn.inbox := by
    rw [← List.append_nil requests]
    exact hnone
  exact h.of_task rfl (by simp) rfl (htakes.concat hreceive) ⟨unsent, hwritten, hunsent⟩ (by simp)

theorem Served.readFails (h : Served P actions requests responses conn) (htask : conn.task = .receiving) :
    Served P (actions ++ [.readFails]) requests responses { conn with task := .ended .readError } :=
  h.of_kept rfl (by simp) (by rw [htask]; rfl) (by simp [htask, Task.Leaves]) (by simp)

theorem Served.worked (h : Served P actions requests responses conn) {m : μ} {todo : π}
    (htask : conn.task = .processing m todo) (todo' : π) :
    Served P (actions ++ [.process]) requests responses { conn with task := .processing m todo' } :=
  h.of_kept rfl (by simp) (by rw [htask]; rfl) (by simp [htask, Task.Leaves]) (by simp)

theorem Served.processed (h : Served P actions requests responses conn) {m : μ} {todo : π}
    (htask : conn.task = .processing m todo) (r : ρ) :
    Served P (actions ++ [.process]) (requests ++ [m]) (responses ++ [r])
      { conn with task := .sending r } := by
  have htakes := h.takes
  obtain ⟨unsent, hwritten, hunsent⟩ := h.written
  rw [htask] at htakes hunsent
  have hnil : unsent = [] := hunsent
  refine h.of_task rfl (by simp) rfl ?_ ⟨P.frame r, ?_, rfl⟩ (by simp)
  · change Takes P.receive (input actions) (requests ++ [m] ++ []) conn.inbox
    rw [List.append_nil]
    exact htakes
  · rw [List.flatMap_append, ← hwritten, hnil, List.append_nil, List.flatMap_singleton]

theorem Served.send (h : Served P actions requests responses conn) {r : ρ} (htask : conn.task = .sending r) :
    Served P (actions ++ [.send]) requests responses
      { conn with outbox := conn.outbox ++ P.frame r, task := .receiving } := by
  have htakes := h.takes
  obtain ⟨unsent, hwritten, hunsent⟩ := h.written
  rw [htask] at htakes hunsent
  have hframe : unsent = P.frame r := hunsent
  refine h.of_task rfl (by simp) rfl htakes ⟨[], ?_, rfl⟩ (by simp)
  rw [List.append_nil, ← hframe, hwritten]

theorem Served.sendFails (h : Served P actions requests responses conn) {r : ρ}
    (htask : conn.task = .sending r)
    (written : ℕ) : Served P (actions ++ [.sendFails written]) requests responses
      { conn with outbox := conn.outbox ++ (P.frame r).take written, task := .ended .sendError } := by
  have htakes := h.takes
  obtain ⟨unsent, hwritten, hunsent⟩ := h.written
  rw [htask] at htakes hunsent
  have hframe : unsent = P.frame r := hunsent
  refine h.of_task rfl (by simp) rfl htakes ⟨(P.frame r).drop written, ?_, trivial⟩ (by simp)
  rw [List.append_assoc, List.take_append_drop, ← hframe, hwritten]

/-- An action ends no request, or one that gets a response. -/
theorem Served.act (hP : Incremental P.receive) (h : Served P actions requests responses conn) (service : σ)
    (a : Action β) :
    (∃ service' conn', P.act service conn a = (none, service', conn') ∧
      Served P (actions ++ [a]) requests responses conn') ∨
    ∃ m r service' conn', P.act service conn a = (some (m, r), service', conn') ∧
      Served P (actions ++ [a]) (requests ++ [m]) (responses ++ [r]) conn' := by
  have hacts := P.acts service conn a
  generalize P.act service conn a = out at hacts ⊢
  cases hacts with
  | idle hbytes hclose => exact Or.inl ⟨_, _, rfl, h.idle hbytes hclose⟩
  | arrive bytes => exact Or.inl ⟨_, _, rfl, h.arrive hP bytes⟩
  | close => exact Or.inl ⟨_, _, rfl, h.close⟩
  | disconnect htask hreceive hclosed => exact Or.inl ⟨_, _, rfl, h.disconnect htask hreceive hclosed⟩
  | reject htask => exact Or.inl ⟨_, _, rfl, h.reject htask _⟩
  | receive htask hreceive => exact Or.inl ⟨_, _, rfl, h.receive htask hreceive⟩
  | readFails htask => exact Or.inl ⟨_, _, rfl, h.readFails htask⟩
  | work htask => exact Or.inl ⟨_, _, rfl, h.worked htask _⟩
  | answer htask => exact Or.inr ⟨_, _, _, _, rfl, h.processed htask _⟩
  | send htask => exact Or.inl ⟨_, _, rfl, h.send htask⟩
  | sendFails htask written => exact Or.inl ⟨_, _, rfl, h.sendFails htask written⟩

end Act

/-- The requests of one connection that have ended, in order. -/
def requests {α γ : Type*} (c : ℕ) (h : List (Event α γ (Option (ℕ × μ × ρ)))) : List μ :=
  (ofConnection c (processed h)).map Prod.fst

/-- Their responses. -/
def responses {α γ : Type*} (c : ℕ) (h : List (Event α γ (Option (ℕ × μ × ρ)))) : List ρ :=
  (ofConnection c (processed h)).map Prod.snd

namespace Protocol

section Step

variable {P : Protocol β μ π ρ ε σ} {h : List (Event (State β μ π ρ ε σ) (ℕ × Action β) (Option (ℕ × μ × ρ)))}
  {s : State β μ π ρ ε σ}

/-- Every connection has been served as if it were alone with the service. -/
def ServesAll (P : Protocol β μ π ρ ε σ)
    (h : List (Event (State β μ π ρ ε σ) (ℕ × Action β) (Option (ℕ × μ × ρ))))
    (s : State β μ π ρ ε σ) : Prop :=
  ∀ c, Served P (ofConnection c (h.map Event.call)) (requests c h) (responses c h) (s.connections c)

theorem step_of_act {a : ℕ × Action β} {ended : Option (μ × ρ)} {service : σ} {conn : Connection β μ π ρ ε}
    (hact : P.act s.service (s.connections a.1) a.2 = (ended, service, conn)) :
    P.step s a = (ended.map (Prod.mk a.1), ⟨service, Function.update s.connections a.1 conn⟩) := by
  rw [step, hact]

theorem ServesAll.of_act (hs : P.ServesAll h s) {a : ℕ × Action β} {ended : Option (μ × ρ)} {service : σ}
    {conn : Connection β μ π ρ ε} (hact : P.act s.service (s.connections a.1) a.2 = (ended, service, conn))
    (hconn : Served P (ofConnection a.1 (h.map Event.call) ++ [a.2])
      (requests a.1 h ++ (ended.map Prod.fst).toList)
      (responses a.1 h ++ (ended.map Prod.snd).toList) conn) :
    P.ServesAll (h ++ [event P.step s a]) (P.step s a).2 := by
  intro c
  rw [event_eq (step_of_act hact), step_of_act hact, List.map_append, List.map_singleton,
    ofConnection_concat, requests, responses, processed_concat]
  dsimp only
  by_cases hc : a.1 = c
  · subst hc
    rw [if_pos rfl, Function.update_self]
    cases ended with
    | none => simpa [requests, responses] using hconn
    | some found => simpa [requests, responses, ofConnection_concat] using hconn
  · rw [if_neg hc, List.append_nil, Function.update_of_ne (Ne.symm hc)]
    cases ended with
    | none => simpa [requests, responses] using hs c
    | some found => simpa [requests, responses, ofConnection_concat, hc] using hs c

theorem ServesAll.step (hP : Incremental P.receive) (hs : P.ServesAll h s) (a : ℕ × Action β) :
    P.ServesAll (h ++ [event P.step s a]) (P.step s a).2 := by
  rcases (hs a.1).act hP s.service a.2 with ⟨service, conn, hact, hconn⟩ | ⟨m, r, service, conn, hact, hconn⟩
  · refine hs.of_act hact ?_
    rw [Option.map_none, Option.map_none, Option.toList_none, Option.toList_none, List.append_nil,
      List.append_nil]
    exact hconn
  · exact hs.of_act hact hconn

end Step

/-- However bytes arrive and tasks take turns, every connection is served. -/
theorem servesAll_run {P : Protocol β μ π ρ ε σ} (hP : Incremental P.receive) (s0 : σ)
    (actions : List (ℕ × Action β)) :
    P.ServesAll (trace P.step (start s0) actions) (exec P.step (start s0) actions) := by
  have h0 : P.ServesAll [] (start s0) := fun c => served_accepted
  exact history_induction (C := fun _ _ _ => True) h0 (fun _ _ a hs _ => hs.step hP a) actions
    (along_true P.step _ actions)

end Protocol

section Atomic

variable (receive : List β → Received β μ ε) (process : σ → μ → Option (ρ × σ)) (frame : ρ → List β)

/-- The protocol of a service that does all the work on a request in one step, or never ends it. -/
def Protocol.atomic : Protocol β μ μ ρ ε σ where
  receive := receive
  call := id
  work service m := match process service m with
    | some (r, service) => (.inr r, service)
    | none => (.inl m, service)
  frame := frame

/-- The service on its own, one request after the other. -/
def serve (service : σ) (request : ℕ × μ) : Option ρ × σ :=
  match process service request.2 with
  | some (r, service) => (some r, service)
  | none => (none, service)

/-- Where an atomic service stands after some actions: it has processed requests one at a time. -/
structure Serial (s0 : σ) (h : List (Event (Protocol.State β μ μ ρ ε σ) (ℕ × Action β) (Option (ℕ × μ × ρ))))
    (s : Protocol.State β μ μ ρ ε σ) : Prop where
  service : s.service = exec (serve process) s0 ((processed h).map fun x => (x.1, x.2.1))
  answers : ∀ c, answers c (trace (serve process) s0 ((processed h).map fun x => (x.1, x.2.1))) =
    (responses c h).map some
  todo : ∀ c m m', (s.connections c).task = .processing m m' → m' = m

/-- The service after an action that has ended a request, or none. -/
def Worked (service : σ) : Option (μ × ρ) → σ → Prop
  | none, service' => service' = service
  | some (m, r), service' => process service m = some (r, service')

theorem work_atomic (service : σ) (m : μ) :
    (process service m = none ∧
      (Protocol.atomic receive process frame).work service m = (.inl m, service)) ∨
    ∃ r service', process service m = some (r, service') ∧
      (Protocol.atomic receive process frame).work service m = (.inr r, service') := by
  cases hprocess : process service m with
  | none => exact Or.inl ⟨rfl, by simp only [Protocol.atomic, hprocess]⟩
  | some out => exact Or.inr ⟨out.1, out.2, rfl, by simp only [Protocol.atomic, hprocess]⟩

/-- What an action does to an atomic service: nothing, or the work on a request. -/
theorem act_atomic (service : σ) (conn : Connection β μ μ ρ ε)
    (htodo : ∀ m m', conn.task = .processing m m' → m' = m) (a : Action β) :
    ∃ ended service' conn', (Protocol.atomic receive process frame).act service conn a =
        (ended, service', conn') ∧
      (∀ m m', conn'.task = .processing m m' → m' = m) ∧ Worked process service ended service' := by
  have hacts := (Protocol.atomic receive process frame).acts service conn a
  generalize (Protocol.atomic receive process frame).act service conn a = out at hacts ⊢
  cases hacts with
  | idle => exact ⟨_, _, _, rfl, htodo, rfl⟩
  | arrive bytes =>
    refine ⟨_, _, _, rfl, ?_, rfl⟩
    split_ifs with hclosed
    · exact htodo
    · exact htodo
  | close => exact ⟨_, _, _, rfl, htodo, rfl⟩
  | receive =>
    refine ⟨_, _, _, rfl, ?_, rfl⟩
    intro m₁ m₂ heq
    cases heq
    rfl
  | @work m todo todo' service' htask hwork =>
    obtain rfl := htodo m todo htask
    rcases work_atomic receive process frame service todo with ⟨_, hsame⟩ | ⟨r, _, _, hends⟩
    · obtain ⟨rfl, rfl⟩ : todo = todo' ∧ service = service' := by simpa [hsame] using hwork
      refine ⟨_, _, _, rfl, ?_, rfl⟩
      intro m₁ m₂ heq
      cases heq
      rfl
    · simp [hends] at hwork
  | @answer m todo r service' htask hwork =>
    obtain rfl := htodo m todo htask
    rcases work_atomic receive process frame service todo with ⟨_, hsame⟩ | ⟨r', service₁, hprocess, hends⟩
    · simp [hsame] at hwork
    · obtain ⟨rfl, rfl⟩ : r' = r ∧ service₁ = service' := by simpa [hends] using hwork
      exact ⟨_, _, _, rfl, by simp, hprocess⟩
  | disconnect | reject | readFails | send | sendFails => exact ⟨_, _, _, rfl, by simp, rfl⟩

theorem serve_of_process {service service' : σ} {m : μ} {r : ρ}
    (h : process service m = some (r, service')) (c : ℕ) :
    serve process service (c, m) = (some r, service') := by
  rw [serve, h]

variable {s0 : σ} {h : List (Event (Protocol.State β μ μ ρ ε σ) (ℕ × Action β) (Option (ℕ × μ × ρ)))}
  {s : Protocol.State β μ μ ρ ε σ}

theorem Serial.step (hs : Serial process s0 h s) (a : ℕ × Action β) :
    Serial process s0 (h ++ [event (Protocol.atomic receive process frame).step s a])
      ((Protocol.atomic receive process frame).step s a).2 := by
  obtain ⟨ended, service, conn, hact, htodo, hworked⟩ :=
    act_atomic receive process frame s.service (s.connections a.1) (hs.todo a.1) a.2
  have hstep := Protocol.step_of_act hact
  have hkept : ∀ c m m', (Function.update s.connections a.1 conn c).task = .processing m m' → m' = m := by
    intro c
    by_cases hc : c = a.1
    · subst hc
      rw [Function.update_self]
      exact htodo
    · rw [Function.update_of_ne hc]
      exact hs.todo c
  rw [event_eq hstep, hstep]
  cases ended with
  | none =>
    have hservice : service = s.service := hworked
    refine ⟨?_, ?_, hkept⟩
    · rw [processed_concat, hservice]
      simpa using hs.service
    · intro c
      rw [responses, processed_concat]
      simpa [responses] using hs.answers c
  | some found =>
    obtain ⟨m, r⟩ := found
    have hserve := serve_of_process process hworked a.1
    have hevent : event (serve process)
        (exec (serve process) s0 ((processed h).map fun x => (x.1, x.2.1))) (a.1, m) =
        ⟨s.service, (a.1, m), some r, service⟩ := by
      rw [← hs.service, event_eq hserve]
    have hlog : (processed (h ++ [⟨s, a, some (a.1, m, r),
        ⟨service, Function.update s.connections a.1 conn⟩⟩])).map
        (fun x => (x.1, x.2.1)) = (processed h).map (fun x => (x.1, x.2.1)) ++ [(a.1, m)] := by
      rw [processed_concat, Option.toList_some, List.map_append, List.map_singleton]
    refine ⟨?_, ?_, hkept⟩
    · rw [Option.map_some, hlog, exec_concat, ← hs.service, hserve]
    · intro c
      rw [Option.map_some, hlog, trace_concat, hevent, answers_concat, hs.answers c, responses, responses,
        processed_concat, Option.toList_some, ofConnection_concat]
      by_cases hc : a.1 = c
      · simp [hc]
      · simp [hc]

/-- However bytes arrive and tasks take turns, an atomic service processes one request at a time. -/
theorem serial_run (s0 : σ) (actions : List (ℕ × Action β)) :
    Serial process s0
      (trace (Protocol.atomic receive process frame).step (Protocol.start s0) actions)
      (exec (Protocol.atomic receive process frame).step (Protocol.start s0) actions) := by
  have h0 : Serial process s0 ([] : List (Event (Protocol.State β μ μ ρ ε σ) _ _)) (Protocol.start s0) := by
    refine ⟨rfl, fun c => rfl, ?_⟩
    intro c m m' htask
    cases htask
  exact history_induction (C := fun _ _ _ => True) h0
    (fun _ _ a hs _ => hs.step receive process frame a) actions
    (along_true _ _ actions)

end Atomic

end Virthub.Lib.Server
