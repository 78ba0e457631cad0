import Virthub.Klnk.Net.StreamReceiver
import Mathlib.Data.PNat.Defs

/-! The io_uring path. A message is sent with one `write` whose count is not looked at, and received with one
`read` for the header and one for the payload, each of which has to fill its buffer. -/
namespace Virthub.Klnk.Net
open Virthub.Lib.Bincode Virthub.Klnk.Daemon

/-- `stream.read` into a buffer of `len` bytes: what it returns of the bytes that are there, at most `limit`
of them, and what is left. -/
def uringRead (limit : ℕ+) (len : ℕ) (stream : List UInt8) : List UInt8 × List UInt8 :=
  (stream.take (min limit len), stream.drop (min limit len))

/-- `stream.write`: the part of the buffer that is accepted. -/
def uringWrite (limit : ℕ+) (buf : List UInt8) : List UInt8 := buf.take limit

/-- The bytes that `send_control_message_uring` gets into the stream. -/
def sendControlMessageUring (limit : ℕ+) (msg : ControlMessagePayload) : List UInt8 :=
  let serialized := putMessage msg
  let len := serialized.length
  uringWrite limit ([protocolVersion] ++ beBytes 4 len ++ [0] ++ serialized)

/-- One call of `recv_control_message_uring`, with the stream that it leaves. The two limits are those of its
two reads. The buffer of the first has room for a header and no more, so that it has one exactly if it is
full. -/
def recvControlMessageUring (headerLimit payloadLimit : ℕ+) (stream : List UInt8) :
    Except TransportError ControlMessagePayload × List UInt8 :=
  let (headerVec, stream) := uringRead headerLimit headerSize stream
  match readHeader headerVec with
  | none => (.error .invalidFrame, stream)
  | some (header, _) =>
    match header.check with
    | .error e => (.error e, stream)
    | .ok () =>
      let (payloadVec, stream) := uringRead payloadLimit header.length stream
      if payloadVec.length ≠ header.length then (.error .invalidFrame, stream)
      else (deserializePayload payloadVec header.flags, stream)

/-- A message of admissible size, with what the kernel takes and returns in the calls for it. -/
structure Transfer where
  item : ControlMessagePayload
  fits : (putMessage item).length ≤ maxFrameSize
  write : ℕ+
  header : ℕ+
  payload : ℕ+

namespace Transfer

def sentUring (ts : List Transfer) : List UInt8 :=
  ts.flatMap fun t => sendControlMessageUring t.write t.item

def receivedUring : List Transfer → List UInt8 → List (Except TransportError ControlMessagePayload)
  | [], _ => []
  | t :: ts, stream =>
    let (answer, rest) := recvControlMessageUring t.header t.payload stream
    answer :: receivedUring ts rest

def sentTokio (ts : List Transfer) : List UInt8 := ts.flatMap fun t => sendControlMessageTokio t.item

def receivedTokio : List Transfer → List UInt8 → List (Except TransportError ControlMessagePayload)
  | [], _ => []
  | _ :: ts, stream =>
    let (answer, rest) := recvFrom stream
    answer :: receivedTokio ts rest

/-- No call for the message is cut short. -/
structure Whole (t : Transfer) : Prop where
  write : headerSize + (putMessage t.item).length ≤ t.write
  header : headerSize ≤ t.header
  payload : (putMessage t.item).length ≤ t.payload

end Transfer

theorem sized_getMessage : Sized getMessage (fun m => (putMessage m).length) 0 := by
  have h32 := sized_getU32
  have h64 := sized_getU64
  refine h32.bind fun tag => ?_
  match tag.toNat with
  | 0 =>
    exact h32.bind fun _ => h64.bind fun _ => h64.bind fun _ => h32.bind fun _ => sized_pure
      (by simp [putMessage])
  | 1 => exact h32.bind fun _ => h64.bind fun _ => sized_pure (by simp [putMessage])
  | 2 => exact h64.bind fun _ => h64.bind fun _ => h64.bind fun _ => sized_pure (by simp [putMessage])
  | 3 => exact h64.bind fun _ => h64.bind fun _ => h64.bind fun _ => sized_pure (by simp [putMessage])
  | 4 => exact h32.bind fun _ => h64.bind fun _ => sized_pure (by simp [putMessage])
  | 5 =>
    exact sized_getBool.bind fun _ => sized_getString.bind fun _ => sized_pure (by simp [putMessage]; omega)
  | n + 6 => exact sized_throw _ _ _

theorem length_le_of_deserializePayload {data : List UInt8} {flags : UInt8} {m : ControlMessagePayload}
    (h : deserializePayload data flags = .ok m) : (putMessage m).length ≤ data.length := by
  unfold deserializePayload deserialize at h
  split_ifs at h
  split at h
  · next found rest heq =>
    obtain rfl := Except.ok.inj h
    have hsize : 0 + data.length = (putMessage found).length + rest.length :=
      sized_getMessage data found rest heq
    omega
  · cases h

theorem sendControlMessageUring_eq (limit : ℕ+) (msg : ControlMessagePayload) :
    sendControlMessageUring limit msg = (sendControlMessageTokio msg).take limit := rfl

theorem length_sendControlMessageTokio (msg : ControlMessagePayload) :
    (sendControlMessageTokio msg).length = headerSize + (putMessage msg).length := by
  rw [sendControlMessageTokio_eq, List.length_append, length_putHeader]

theorem length_uringRead (limit : ℕ+) (len : ℕ) (stream : List UInt8) :
    (uringRead limit len stream).1.length = min (min (limit : ℕ) len) stream.length ∧
      (uringRead limit len stream).2.length = stream.length - min (limit : ℕ) len :=
  ⟨List.length_take, List.length_drop⟩

/-- A message is only returned when both reads fill their buffers, and it costs at least its frame. -/
theorem recvControlMessageUring_ok {headerLimit payloadLimit : ℕ+} {stream rest : List UInt8}
    {m : ControlMessagePayload}
    (h : recvControlMessageUring headerLimit payloadLimit stream = (.ok m, rest)) :
    headerSize ≤ headerLimit ∧ ∃ n : ℕ, n ≤ payloadLimit ∧ (putMessage m).length ≤ n ∧
      stream.length = headerSize + n + rest.length := by
  unfold recvControlMessageUring at h
  obtain ⟨hheader, hafter⟩ := length_uringRead headerLimit headerSize stream
  generalize uringRead headerLimit headerSize stream = found at h hheader hafter
  dsimp only at h
  cases hread : readHeader found.1 with
  | none =>
    rw [hread] at h
    cases h
  | some parts =>
    obtain ⟨hwhole, -⟩ := readHeader_eq_some hread
    rw [hread] at h
    dsimp only at h
    cases hcheck : parts.1.check with
    | error e =>
      rw [hcheck] at h
      cases h
    | ok _ =>
      rw [hcheck] at h
      dsimp only at h
      obtain ⟨hpayload, hleft⟩ := length_uringRead payloadLimit parts.1.length found.2
      generalize uringRead payloadLimit parts.1.length found.2 = body at h hpayload hleft
      split_ifs at h with hfull
      · cases h
      · obtain ⟨hmessage, rfl⟩ := Prod.mk.inj h
        have hsize := length_le_of_deserializePayload hmessage
        unfold headerSize at *
        exact ⟨by omega, parts.1.length, by omega, by omega, by omega⟩

theorem readHeader_putMessage {m : ControlMessagePayload} (hfits : (putMessage m).length ≤ maxFrameSize)
    (rest : List UInt8) :
    readHeader (putHeader (putMessage m).length 0 ++ rest) =
      some (⟨protocolVersion, (putMessage m).length, 0⟩, rest) := by
  have hmod : (putMessage m).length % 2 ^ 32 = (putMessage m).length :=
    Nat.mod_eq_of_lt (Nat.lt_of_le_of_lt hfits (by decide))
  rw [readHeader_putHeader, hmod]

theorem recvFrom_sendControlMessageTokio {m : ControlMessagePayload}
    (hfits : (putMessage m).length ≤ maxFrameSize) (rest : List UInt8) :
    recvFrom (sendControlMessageTokio m ++ rest) = (.ok m, rest) := by
  have hlen : ¬ (putMessage m ++ rest).length < (putMessage m).length := by
    rw [List.length_append]
    omega
  rw [sendControlMessageTokio_eq, List.append_assoc, recvFrom, readHeader_putMessage hfits]
  simp only [FrameHeader.check_plain, if_neg (Nat.not_lt.mpr hfits), if_neg hlen, List.take_left,
    List.drop_left, deserializePayload_putMessage hfits]

namespace Transfer

theorem receivedTokio_sentTokio (ts : List Transfer) :
    receivedTokio ts (sentTokio ts) = ts.map fun t => .ok t.item := by
  induction ts with
  | nil => rfl
  | cons t ts ih =>
    unfold sentTokio at ih ⊢
    rw [List.flatMap_cons, receivedTokio, recvFrom_sendControlMessageTokio t.fits, List.map_cons]
    dsimp only
    rw [ih]

theorem Whole.recv {t : Transfer} (h : t.Whole) (rest : List UInt8) :
    recvControlMessageUring t.header t.payload (sendControlMessageTokio t.item ++ rest) =
      (.ok t.item, rest) := by
  have hheader : uringRead t.header headerSize (sendControlMessageTokio t.item ++ rest) =
      (putHeader (putMessage t.item).length 0, putMessage t.item ++ rest) := by
    rw [sendControlMessageTokio_eq, List.append_assoc, uringRead, Nat.min_eq_right h.header,
      List.take_left' (length_putHeader ..), List.drop_left' (length_putHeader ..)]
  have hpayload : uringRead t.payload (putMessage t.item).length (putMessage t.item ++ rest) =
      (putMessage t.item, rest) := by
    rw [uringRead, Nat.min_eq_right h.payload, List.take_left, List.drop_left]
  have hread := readHeader_putMessage t.fits []
  rw [List.append_nil] at hread
  unfold recvControlMessageUring
  simp only [hheader, hread, FrameHeader.check_plain, if_neg (Nat.not_lt.mpr t.fits), hpayload,
    ne_eq, not_true_eq_false, if_false, deserializePayload_putMessage t.fits]

theorem Whole.sent {t : Transfer} (h : t.Whole) :
    sendControlMessageUring t.write t.item = sendControlMessageTokio t.item := by
  rw [sendControlMessageUring_eq]
  apply List.take_of_length_le
  rw [length_sendControlMessageTokio]
  exact h.write

theorem receivedUring_of_whole {ts : List Transfer} (h : ∀ t ∈ ts, t.Whole) :
    receivedUring ts (sentUring ts) = ts.map fun t => .ok t.item := by
  induction ts with
  | nil => rfl
  | cons t ts ih =>
    have ht := h t List.mem_cons_self
    have hts := ih fun t ht => h t (List.mem_cons_of_mem _ ht)
    unfold sentUring at hts ⊢
    rw [List.flatMap_cons, ht.sent, receivedUring, ht.recv, List.map_cons]
    dsimp only
    rw [hts]

def frameBytes (ts : List Transfer) : ℕ := (sentTokio ts).length

theorem frameBytes_cons (t : Transfer) (ts : List Transfer) :
    frameBytes (t :: ts) = headerSize + (putMessage t.item).length + frameBytes ts := by
  unfold frameBytes sentTokio
  rw [List.flatMap_cons, List.length_append, length_sendControlMessageTokio]

/-- Receiving all messages takes at least the bytes of all frames, and with no more than these every read
fills its buffer. -/
theorem reads_of_receivedUring {ts : List Transfer} {stream : List UInt8}
    (h : receivedUring ts stream = ts.map fun t => .ok t.item) :
    frameBytes ts ≤ stream.length ∧ (stream.length ≤ frameBytes ts →
      ∀ t ∈ ts, headerSize ≤ t.header ∧ (putMessage t.item).length ≤ t.payload) := by
  induction ts generalizing stream with
  | nil => exact ⟨Nat.zero_le _, fun _ t ht => absurd ht List.not_mem_nil⟩
  | cons t ts ih =>
    rcases hrecv : recvControlMessageUring t.header t.payload stream with ⟨answer, rest⟩
    rw [receivedUring, hrecv, List.map_cons] at h
    obtain ⟨rfl, hrest⟩ := List.cons.inj h
    obtain ⟨hheader, n, hpayload, hsize, hlen⟩ := recvControlMessageUring_ok hrecv
    obtain ⟨hle, hall⟩ := ih hrest
    rw [frameBytes_cons]
    refine ⟨by omega, fun hexact => ?_⟩
    rw [List.forall_mem_cons]
    exact ⟨⟨hheader, by omega⟩, hall (by omega)⟩

/-- At most the bytes of all frames are sent, and as many only if every write takes its buffer. -/
theorem writes_of_sentUring (ts : List Transfer) :
    (sentUring ts).length ≤ frameBytes ts ∧ (frameBytes ts ≤ (sentUring ts).length →
      ∀ t ∈ ts, headerSize + (putMessage t.item).length ≤ t.write) := by
  induction ts with
  | nil => exact ⟨Nat.le_refl _, fun _ t ht => absurd ht List.not_mem_nil⟩
  | cons t ts ih =>
    obtain ⟨hle, hall⟩ := ih
    have hsent : (sentUring (t :: ts)).length =
        min (t.write : ℕ) (headerSize + (putMessage t.item).length) + (sentUring ts).length := by
      unfold sentUring
      rw [List.flatMap_cons, List.length_append, sendControlMessageUring_eq, List.length_take,
        length_sendControlMessageTokio]
    rw [frameBytes_cons, hsent]
    refine ⟨by omega, fun hexact => ?_⟩
    rw [List.forall_mem_cons]
    exact ⟨by omega, hall (by omega)⟩

/-- The io_uring pair delivers what the tokio pair delivers exactly if no write and no read is cut short. -/
theorem receivedUring_eq_receivedTokio_iff (ts : List Transfer) :
    receivedUring ts (sentUring ts) = receivedTokio ts (sentTokio ts) ↔ ∀ t ∈ ts, t.Whole := by
  rw [receivedTokio_sentTokio]
  constructor
  · intro h t ht
    obtain ⟨hneeded, hreads⟩ := reads_of_receivedUring h
    obtain ⟨hsent, hwrites⟩ := writes_of_sentUring ts
    obtain ⟨hheader, hpayload⟩ := hreads hsent t ht
    exact ⟨hwrites hneeded t ht, hheader, hpayload⟩
  · intro h
    exact receivedUring_of_whole h

/-- A heartbeat of which the second read returns one byte only. -/
theorem receivedUring_fails_on_short_read :
    ¬ ∀ ts : List Transfer, receivedUring ts (sentUring ts) = receivedTokio ts (sentTokio ts) := by
  intro h
  have hshort := h [⟨.heartbeat 1 2, by decide, 22, 6, 1⟩]
  have hfails : receivedUring [⟨.heartbeat 1 2, by decide, 22, 6, 1⟩]
      (sentUring [⟨.heartbeat 1 2, by decide, 22, 6, 1⟩]) = [.error .invalidFrame] := by decide +kernel
  rw [hfails, receivedTokio_sentTokio] at hshort
  cases hshort

end Transfer

end Virthub.Klnk.Net
