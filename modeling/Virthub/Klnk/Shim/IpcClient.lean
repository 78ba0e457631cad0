import Virthub.Klnk.Net.ControlTransport

/-! The client of the interposition shim, which talks to the node daemon over a Unix socket. Its
frames are a length of four bytes before a serialized request. -/
namespace Virthub.Klnk.Shim
open Virthub.Lib.Bincode Virthub.Klnk.Daemon Virthub.Klnk.Net

inductive IpcError where
  /-- The stream ended, or timed out, before all bytes were read. -/
  | ioError
  | serializationError (error : DecodeError)
  | notConnected
  | daemonError (message : String)
  deriving DecidableEq, Repr

inductive IpcRequest where
  | registerRegion (regionId : GlobalRegionId) (vaddr size : UInt64) (flags : UInt32)
  | deregisterRegion (regionId : GlobalRegionId)
  | heartbeat
  deriving DecidableEq, Repr

inductive IpcResponse where
  | ack (success : Bool) (message : String)
  | regionRegistered (desc : MemoryRegionDescriptor)
  | regionDeregistered
  | pong
  deriving DecidableEq, Repr

def putRegionId (regionId : GlobalRegionId) : List UInt8 :=
  putU32 regionId.ownerPid ++ putU32 regionId.shmid.toUInt32

def getRegionId : Get GlobalRegionId :=
  getU32 >>= fun ownerPid => getU32 >>= fun shmid => pure ⟨ownerPid, shmid.toInt32⟩

def putRequest : IpcRequest → List UInt8
  | .registerRegion regionId vaddr size flags =>
    putU32 0 ++ (putRegionId regionId ++ (putU64 vaddr ++ (putU64 size ++ putU32 flags)))
  | .deregisterRegion regionId => putU32 1 ++ putRegionId regionId
  | .heartbeat => putU32 2

def getDescriptor : Get MemoryRegionDescriptor :=
  getRegionId >>= fun regionId => getU64 >>= fun mainVaddr => getU64 >>= fun regionSize =>
  getU64 >>= fun stagingVaddr => getU64 >>= fun stagingNumPages =>
  getU64 >>= fun stagingPageSize => getU32 >>= fun protFlags => getU32 >>= fun memFlags =>
  getU64 >>= fun version =>
  pure ⟨regionId, mainVaddr, regionSize, stagingVaddr, stagingNumPages, stagingPageSize,
    ⟨protFlags⟩, memFlags, version⟩

def getResponse : Get IpcResponse := getU32 >>= fun tag =>
  match tag.toNat with
  | 0 => getBool >>= fun success => getString >>= fun message => pure (.ack success message)
  | 1 => getDescriptor >>= fun desc => pure (.regionRegistered desc)
  | 2 => pure .regionDeregistered
  | 3 => pure .pong
  | tag => throw (.invalidVariant tag)

/-- A connection: the bytes written to it so far, and those that the peer will have sent. -/
structure UnixStream where
  written : List UInt8
  incoming : List UInt8
  deriving DecidableEq, Repr

def UnixStream.writeAll (self : UnixStream) (bytes : List UInt8) : UnixStream :=
  { self with written := self.written ++ bytes }

def UnixStream.readExact (self : UnixStream) (n : ℕ) : Except IpcError (List UInt8) × UnixStream :=
  if self.incoming.length < n then (.error .ioError, { self with incoming := [] })
  else (.ok (self.incoming.take n), { self with incoming := self.incoming.drop n })

structure DaemonIpcClient where
  stream : Option UnixStream
  deriving DecidableEq, Repr

namespace DaemonIpcClient

/-- A client on a new connection. -/
def connected (incoming : List UInt8) : DaemonIpcClient := ⟨some ⟨[], incoming⟩⟩

/-- The response on a stream: a length of four bytes, then the payload. -/
def readResponse (stream : UnixStream) : Except IpcError IpcResponse × UnixStream :=
  match stream.readExact 4 with
  | (.error e, stream) => (.error e, stream)
  | (.ok header, stream) =>
    match stream.readExact (beNat header) with
    | (.error e, stream) => (.error e, stream)
    | (.ok respPayload, stream) =>
      match getResponse respPayload with
      | .error e => (.error (.serializationError e), stream)
      | .ok (response, _) => (.ok response, stream)

def sendRequest (self : DaemonIpcClient) (request : IpcRequest) :
    Except IpcError IpcResponse × DaemonIpcClient :=
  match self.stream with
  | none => (.error .notConnected, self)
  | some stream =>
    let payload := putRequest request
    let stream := (stream.writeAll (beBytes 4 payload.length)).writeAll payload
    let (response, stream) := readResponse stream
    (response, ⟨some stream⟩)

def registerRegion (self : DaemonIpcClient) (regionId : GlobalRegionId) (vaddr size : UInt64)
    (flags : UInt32) : Except IpcError MemoryRegionDescriptor × DaemonIpcClient :=
  match self.sendRequest (.registerRegion regionId vaddr size flags) with
  | (.error e, self) => (.error e, self)
  | (.ok (.regionRegistered desc), self) => (.ok desc, self)
  | (.ok (.ack false message), self) => (.error (.daemonError message), self)
  | (.ok _, self) => (.error (.daemonError "Unexpected response"), self)

def deregisterRegion (self : DaemonIpcClient) (regionId : GlobalRegionId) :
    Except IpcError Unit × DaemonIpcClient :=
  match self.sendRequest (.deregisterRegion regionId) with
  | (.error e, self) => (.error e, self)
  | (.ok .regionDeregistered, self) => (.ok (), self)
  | (.ok (.ack false message), self) => (.error (.daemonError message), self)
  | (.ok _, self) => (.error (.daemonError "Unexpected response"), self)

def heartbeat (self : DaemonIpcClient) : Except IpcError Unit × DaemonIpcClient :=
  match self.sendRequest .heartbeat with
  | (.error e, self) => (.error e, self)
  | (.ok .pong, self) => (.ok (), self)
  | (.ok _, self) => (.error (.daemonError "Unexpected heartbeat response"), self)

/-- Everything that is on the stream after the request was sent. -/
def sent (self : DaemonIpcClient) (request : IpcRequest) : List UInt8 :=
  match (self.sendRequest request).2.stream with
  | none => []
  | some stream => stream.written

theorem written_readExact (stream : UnixStream) (n : ℕ) :
    (stream.readExact n).2.written = stream.written := by
  unfold UnixStream.readExact
  split_ifs <;> rfl

theorem written_readResponse (stream : UnixStream) :
    (readResponse stream).2.written = stream.written := by
  have hheader := written_readExact stream 4
  unfold readResponse
  generalize stream.readExact 4 = r at hheader ⊢
  obtain ⟨e | header, s⟩ := r
  · exact hheader
  · have hpayload := written_readExact s (beNat header)
    simp only
    generalize s.readExact (beNat header) = r at hpayload ⊢
    obtain ⟨e | respPayload, s'⟩ := r
    · exact hpayload.trans hheader
    · simp only
      split
      all_goals exact hpayload.trans hheader

theorem sent_connected (incoming : List UInt8) (request : IpcRequest) :
    (connected incoming).sent request =
      beBytes 4 (putRequest request).length ++ putRequest request :=
  written_readResponse _

end DaemonIpcClient

theorem length_putRequest (request : IpcRequest) :
    4 ≤ (putRequest request).length ∧ (putRequest request).length ≤ 36 := by
  cases request with
  | registerRegion regionId vaddr size flags => simp [putRequest, putRegionId]
  | deregisterRegion regionId => simp [putRequest, putRegionId]
  | heartbeat => simp [putRequest]

/-- Every request is shorter than 256 bytes, so its length starts with a zero byte, which the
daemon takes for the version of the protocol. -/
theorem recv_request (request : IpcRequest) :
    recvControlMessageTokio (beBytes 4 (putRequest request).length ++ putRequest request) =
      .error (.unsupportedVersion 0) := by
  obtain ⟨hmin, hmax⟩ := length_putRequest request
  generalize putRequest request = payload at *
  have hlen : beBytes 4 payload.length =
      [0, 0, 0, UInt8.ofNat (payload.length / 256 ^ 0)] := by
    have hzero : ∀ i, 0 < i → payload.length / 256 ^ i = 0 := by
      intro i hi
      apply Nat.div_eq_of_lt
      calc payload.length < 256 ^ 1 := by omega
        _ ≤ 256 ^ i := Nat.pow_le_pow_right (by decide) hi
    simp only [beBytes, leBytes, List.range_succ, List.range_zero, List.nil_append, List.cons_append,
      List.map_cons, List.map_nil, List.reverse_cons, List.reverse_nil, hzero 1, hzero 2, hzero 3,
      Nat.zero_lt_succ]
    rfl
  obtain ⟨b0, payload, rfl⟩ := List.exists_cons_of_length_pos (show 0 < payload.length by omega)
  obtain ⟨b1, payload, rfl⟩ := List.exists_cons_of_length_pos
    (show 0 < payload.length by rw [List.length_cons] at hmin; omega)
  rw [hlen]
  rfl

/-- The first pass of `handle_client` over a stream: what the daemon writes, and its control plane
afterwards. On an error it closes the connection. -/
def handleClient (stream : List UInt8) (controlPlane : ControlPlaneManager) :
    Option (List UInt8 × ControlPlaneManager) :=
  match recvControlMessageTokio stream with
  | .error _ => some ([], controlPlane)
  | .ok payload =>
    (processControlPayload payload controlPlane).map fun (response, controlPlane) =>
      let serialized := putMessage response
      (putHeader serialized.length 0 ++ serialized, controlPlane)

/-- The daemon closes the connection on the first request, and does nothing. -/
theorem handleClient_request (incoming : List UInt8) (request : IpcRequest)
    (controlPlane : ControlPlaneManager) :
    handleClient ((DaemonIpcClient.connected incoming).sent request) controlPlane =
      some ([], controlPlane) := by
  rw [DaemonIpcClient.sent_connected, handleClient, recv_request]

/-- So no call of the shim succeeds. -/
theorem DaemonIpcClient.calls_closed (regionId : GlobalRegionId) (vaddr size : UInt64)
    (flags : UInt32) :
    ((connected []).registerRegion regionId vaddr size flags).1 = .error .ioError ∧
      ((connected []).deregisterRegion regionId).1 = .error .ioError ∧
      (connected []).heartbeat.1 = .error .ioError :=
  ⟨rfl, rfl, rfl⟩

/-- The message says to the daemon what the request says to the shim. -/
def Corresponds : IpcRequest → ControlMessagePayload → Prop
  | .registerRegion _ vaddr size _, .regionRegister _ vaddr' size' _ => vaddr' = vaddr ∧ size' = size
  | .deregisterRegion _, .regionDeregister _ _ => True
  | .heartbeat, .heartbeat _ _ => True
  | _, _ => False

/-- The daemon reads the request off a new connection as the message that corresponds to it. -/
def Understood (incoming : List UInt8) (request : IpcRequest) : Prop :=
  ∃ m, recvControlMessageTokio ((DaemonIpcClient.connected incoming).sent request) = .ok m ∧
    Corresponds request m

/-- The daemon understands no request of the shim. -/
theorem not_understood (incoming : List UInt8) (request : IpcRequest) :
    ¬ Understood incoming request := by
  intro ⟨m, hread, _⟩
  rw [DaemonIpcClient.sent_connected, recv_request] at hread
  cases hread

theorem understood_fails_on_heartbeat : ¬ ∀ incoming request, Understood incoming request := by
  intro h
  have hread : recvControlMessageTokio ((DaemonIpcClient.connected []).sent .heartbeat) =
      .error (.unsupportedVersion 0) := by decide +kernel
  obtain ⟨m, hm, _⟩ := h [] .heartbeat
  rw [hread] at hm
  cases hm

end Virthub.Klnk.Shim
