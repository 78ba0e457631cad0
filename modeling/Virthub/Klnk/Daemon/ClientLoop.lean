import Virthub.Klnk.Net.StreamReceiver
import Virthub.Lib.Server

/-! The client connections of the daemon. Every accepted connection gets a task that runs `handle_client`.
The tasks share the control plane, and their steps and the arrival of bytes may come in any order. The calls
into the control plane take no lock, so that those of several tasks may interleave; into which steps they
fall is left open, and the case of one step for each call is looked at on its own. -/
namespace Virthub.Klnk.Daemon
open Virthub.Lib Virthub.Lib.Server Virthub.Klnk.Net

/-- `recv_control_message_tokio` on the bytes that are there. It waits for more unless the stream has
ended. -/
def receiveControl (bytes : List UInt8) : Received UInt8 ControlMessagePayload TransportError :=
  match recvFrom bytes with
  | (.error .ioError, _) => .short
  | (.error e, _) => .failed e
  | (.ok msg, rest) => .message msg rest

section Protocols

variable {π σ : Type}

/-- The loop of `handle_client`, with calls into the control plane that are made up of any steps. -/
def handleClient (call : ControlMessagePayload → π) (work : σ → π → (π ⊕ ControlMessagePayload) × σ) :
    Protocol UInt8 ControlMessagePayload π ControlMessagePayload TransportError σ where
  receive := receiveControl
  call := call
  work := work
  frame := sendControlMessageTokio

/-- The loop where every call into the control plane is one step. -/
def handleClientAtomic :
    Protocol UInt8 ControlMessagePayload ControlMessagePayload ControlMessagePayload TransportError
    ControlPlaneManager :=
  .atomic receiveControl (fun controlPlane payload => processControlPayload payload controlPlane)
    sendControlMessageTokio

end Protocols

theorem recvFrom_append {src rest : List UInt8} {msg : ControlMessagePayload}
    (h : recvFrom src = (.ok msg, rest))
    (more : List UInt8) : recvFrom (src ++ more) = (.ok msg, rest ++ more) := by
  unfold recvFrom at h ⊢
  cases hread : readHeader src with
  | none =>
    rw [hread] at h
    cases h
  | some found =>
    obtain ⟨header, tail⟩ := found
    rw [hread] at h
    rw [(readHeader_eq_some hread).2 more]
    dsimp only at h ⊢
    cases hcheck : header.check with
    | error e =>
      rw [hcheck] at h
      cases h
    | ok _ =>
      rw [hcheck] at h
      dsimp only at h ⊢
      split_ifs at h with hshort
      · cases h
      · have hfull : header.length ≤ tail.length := Nat.not_lt.mp hshort
        have hmore : ¬ (tail ++ more).length < header.length := by
          rw [List.length_append]
          omega
        obtain ⟨hmsg, rfl⟩ := Prod.mk.inj h
        rw [if_neg hmore, List.take_append_of_le_length hfull, List.drop_append_of_le_length hfull, hmsg]

theorem receiveControl_eq_message {bytes rest : List UInt8} {msg : ControlMessagePayload} :
    receiveControl bytes = .message msg rest ↔ recvFrom bytes = (.ok msg, rest) := by
  unfold receiveControl
  rcases recvFrom bytes with ⟨e | m, left⟩
  · cases e <;> simp
  · simp

theorem receiveControl_eq_short {bytes : List UInt8} :
    receiveControl bytes = .short ↔ (recvFrom bytes).1 = .error .ioError := by
  unfold receiveControl
  rcases recvFrom bytes with ⟨e | m, left⟩
  · cases e <;> simp
  · simp

theorem incremental_receiveControl : Incremental receiveControl := by
  intro bytes rest msg h more
  exact receiveControl_eq_message.mpr (recvFrom_append (receiveControl_eq_message.mp h) more)

theorem recvUntilError_of_takes {bytes left : List UInt8} {msgs : List ControlMessagePayload}
    (h : Takes receiveControl bytes msgs left) (hleft : receiveControl left = .short) :
    recvUntilError (msgs.length + 1) bytes = some (msgs, none) := by
  induction h with
  | nil bytes =>
    have hshort := receiveControl_eq_short.mp hleft
    rw [List.length_nil, recvUntilError]
    obtain ⟨rest, hrecv⟩ : ∃ rest, recvFrom bytes = (.error .ioError, rest) := ⟨_, Prod.ext hshort rfl⟩
    rw [hrecv]
  | cons hm _ ih =>
    rw [List.length_cons, recvUntilError, receiveControl_eq_message.mp hm]
    dsimp only
    rw [ih hleft]
    rfl

/-- A task that waits for a request that is not complete, or that has seen its client leave. -/
def AtRest {π : Type}
    (conn : Connection UInt8 ControlMessagePayload π ControlMessagePayload TransportError) : Prop :=
  conn.task = .receiving ∧ receiveControl conn.inbox = .short ∨ conn.task = .ended .disconnected

section Served

variable {π σ : Type} {call : ControlMessagePayload → π} {work : σ → π → (π ⊕ ControlMessagePayload) × σ}
  {actions : List (Action UInt8)} {requests responses : List ControlMessagePayload}
  {conn : Connection UInt8 ControlMessagePayload π ControlMessagePayload TransportError}

/-- In both cases nothing waits to be processed or sent, and no message is complete. -/
theorem served_at_rest (hserved : Served (handleClient call work) actions requests responses conn)
    (h : AtRest conn) :
    (∃ calls, recvUntilError calls (input actions) = some (requests, none)) ∧
      conn.outbox = responses.flatMap sendControlMessageTokio := by
  obtain ⟨unsent, hwritten, hunsent⟩ := hserved.written
  have htakes := hserved.takes
  have hrest : conn.task.pending = [] ∧ unsent = [] ∧ receiveControl conn.inbox = .short := by
    rcases h with ⟨htask, hshort⟩ | htask
    · rw [htask] at hunsent ⊢
      exact ⟨rfl, hunsent, hshort⟩
    · have hshort := (hserved.disconnected htask).2
      rw [htask] at hunsent ⊢
      exact ⟨rfl, hunsent, hshort⟩
  obtain ⟨hpending, hnil, hshort⟩ := hrest
  rw [hpending, List.append_nil] at htakes
  rw [hnil, List.append_nil] at hwritten
  exact ⟨⟨_, recvUntilError_of_takes htakes hshort⟩, hwritten⟩

end Served

/-- Whatever the order of arrivals and of the steps of the tasks, and whatever the steps of a call into the
control plane: the requests of a connection that have ended are the ones that a receiver takes off its
stream, in order, up to one that is being processed. What has been written to the connection is the
beginning of their responses, in order, and at rest it is all of them and no request is left. -/
theorem clients_served_in_order {π σ : Type} (call : ControlMessagePayload → π)
    (work : σ → π → (π ⊕ ControlMessagePayload) × σ) (service : σ) (actions : List (ℕ × Action UInt8))
    (c : ℕ) :
    let h := trace (handleClient call work).step (Protocol.start service) actions
    let conn := (exec (handleClient call work).step (Protocol.start service) actions).connections c
    (∃ pending, pending.length ≤ 1 ∧
      Takes receiveControl (input (ofConnection c actions)) (requests c h ++ pending) conn.inbox) ∧
    conn.outbox <+: (responses c h).flatMap sendControlMessageTokio ∧
    (AtRest conn →
      (∃ calls, recvUntilError calls (input (ofConnection c actions)) = some (requests c h, none)) ∧
        conn.outbox = (responses c h).flatMap sendControlMessageTokio) := by
  intro h conn
  have hserved :=
    Protocol.servesAll_run (P := handleClient call work) incremental_receiveControl service actions c
  rw [map_call_trace] at hserved
  obtain ⟨unsent, hwritten, -⟩ := hserved.written
  refine ⟨⟨_, ?_, hserved.takes⟩, ⟨unsent, hwritten⟩, served_at_rest hserved⟩
  cases conn.task with
  | processing m todo => exact Nat.le_refl 1
  | _ => exact Nat.zero_le 1

def clientMessage (request : ℕ × ControlMessagePayload × ControlMessagePayload) : ClientMessage :=
  ⟨request.1, request.2.1⟩

/-- The responses of a run of the control plane to one connection; `none` for a call that does not return. -/
def responsesTo (c : ℕ) (h : List DaemonEvent) : List (Option ControlMessagePayload) :=
  (h.filter (·.call.connection = c)).map Event.answer

def serveControl : ControlPlaneManager → ℕ × ControlMessagePayload →
    Option ControlMessagePayload × ControlPlaneManager :=
  serve fun controlPlane payload => processControlPayload payload controlPlane

theorem serveControl_eq (controlPlane : ControlPlaneManager) (c : ℕ) (payload : ControlMessagePayload) :
    serveControl controlPlane (c, payload) = daemonStep controlPlane ⟨c, payload⟩ := by
  rw [serveControl, serve, daemonStep]
  cases processControlPayload payload controlPlane <;> rfl

theorem exec_serveControl (controlPlane : ControlPlaneManager)
    (log : List (ℕ × ControlMessagePayload × ControlMessagePayload)) :
    exec serveControl controlPlane (log.map fun x => (x.1, x.2.1)) =
      exec daemonStep controlPlane (log.map clientMessage) := by
  simp only [exec, List.foldl_map, serveControl_eq, clientMessage]

theorem answers_serveControl (c : ℕ) (controlPlane : ControlPlaneManager)
    (log : List (ℕ × ControlMessagePayload × ControlMessagePayload)) :
    answers c (trace serveControl controlPlane (log.map fun x => (x.1, x.2.1))) =
      responsesTo c (trace daemonStep controlPlane (log.map clientMessage)) := by
  induction log using List.reverseRecOn with
  | nil => rfl
  | append_singleton log request ih =>
    rw [List.map_append, List.map_singleton, trace_concat, answers_concat, ih, List.map_append,
      List.map_singleton, trace_concat, exec_serveControl]
    rw [responsesTo, responsesTo, List.filter_append, List.map_append]
    congr 1
    by_cases hc : request.1 = c
    · simp [event, clientMessage, hc, serveControl_eq]
    · simp [event, clientMessage, hc]

section Run

variable (controlPlane : ControlPlaneManager) (actions : List (ℕ × Action UInt8))

def clientRun := exec handleClientAtomic.step (Protocol.start controlPlane) actions

def clientLog : List ClientMessage :=
  (processed (trace handleClientAtomic.step (Protocol.start controlPlane) actions)).map clientMessage

def requestsOf (c : ℕ) (log : List ClientMessage) : List ControlMessagePayload :=
  (log.filter (·.connection = c)).map (·.payload)

theorem requests_eq_requestsOf (c : ℕ) :
    requests c (trace handleClientAtomic.step (Protocol.start controlPlane) actions) =
      requestsOf c (clientLog controlPlane actions) := by
  rw [requests, ofConnection, requestsOf, clientLog, List.filter_map, List.map_map, List.map_map]
  rfl

/-- With a step for each call: at rest a connection has got one response for each of the messages on its
stream, in order, and nothing else. The responses are those of a control plane that processes one message at
a time. -/
theorem responses_exact_at_rest (c : ℕ) (h : AtRest ((clientRun controlPlane actions).connections c)) :
    (∃ calls, recvUntilError calls (input (ofConnection c actions)) =
      some (requestsOf c (clientLog controlPlane actions), none)) ∧
    ∃ responses : List ControlMessagePayload,
      responsesTo c (trace daemonStep controlPlane (clientLog controlPlane actions)) = responses.map some ∧
      ((clientRun controlPlane actions).connections c).outbox =
        responses.flatMap sendControlMessageTokio := by
  have hserved :=
    Protocol.servesAll_run (P := handleClientAtomic) incremental_receiveControl controlPlane actions c
  rw [map_call_trace, requests_eq_requestsOf] at hserved
  have hserial := (serial_run receiveControl
    (fun controlPlane payload => processControlPayload payload controlPlane) sendControlMessageTokio
    controlPlane actions).answers c
  obtain ⟨hstream, hwritten⟩ := served_at_rest hserved h
  exact ⟨hstream, _, (answers_serveControl c controlPlane _).symm.trans hserial, hwritten⟩

end Run

/-- A client that sends a heartbeat and half of a header and gets its answer. -/
private def heartbeatActions : List (ℕ × Action UInt8) :=
  [(3, .arrive (sendControlMessageTokio (.heartbeat 1 7))), (3, .receive), (5, .close), (3, .process),
    (3, .arrive [protocolVersion, 0]), (3, .send), (5, .receive)]

theorem responses_exact_at_rest_heartbeat :
    AtRest ((clientRun (.new ⟨0⟩) heartbeatActions).connections 3) ∧
    (∃ calls, recvUntilError calls (input (ofConnection 3 heartbeatActions)) =
      some (requestsOf 3 (clientLog (.new ⟨0⟩) heartbeatActions), none)) ∧
    ∃ responses : List ControlMessagePayload,
      responsesTo 3 (trace daemonStep (.new ⟨0⟩) (clientLog (.new ⟨0⟩) heartbeatActions)) =
        responses.map some ∧
      ((clientRun (.new ⟨0⟩) heartbeatActions).connections 3).outbox =
        responses.flatMap sendControlMessageTokio := by
  have hrest : AtRest ((clientRun (.new ⟨0⟩) heartbeatActions).connections 3) := Or.inl ⟨rfl, rfl⟩
  exact ⟨hrest, responses_exact_at_rest _ _ 3 hrest⟩

end Virthub.Klnk.Daemon
