import Virthub.Klnk.Daemon.Control
import Virthub.Lib.Bincode

/-! The transport of control messages: a header of six bytes (version, length, flags) before a
serialized payload. Buffers and streams are lists of bytes; a stream ends where its list ends. -/
namespace Virthub.Klnk.Net
open Virthub.Lib.Bincode Virthub.Klnk.Daemon

/-- 16 MB. -/
def maxFrameSize : ℕ := 16 * 1024 * 1024
def protocolVersion : UInt8 := 1
def headerSize : ℕ := 6
def flagCompressed : UInt8 := 0x01
def flagBatch : UInt8 := 0x02

inductive TransportError where
  /-- The stream ended before all bytes were read. -/
  | ioError
  | serializationError (error : DecodeError)
  | invalidFrame
  | frameTooLarge (size : ℕ)
  | unsupportedVersion (version : UInt8)
  | compressionError (message : String)
  deriving DecidableEq, Repr

def putMessage : ControlMessagePayload → List UInt8
  | .regionRegister pid vaddr size flags =>
    putU32 0 ++ (putU32 pid ++ (putU64 vaddr ++ (putU64 size ++ putU32 flags)))
  | .regionDeregister pid vaddr => putU32 1 ++ (putU32 pid ++ putU64 vaddr)
  | .lockAcquire regionId offset len =>
    putU32 2 ++ (putU64 regionId ++ (putU64 offset ++ putU64 len))
  | .lockRelease regionId offset len =>
    putU32 3 ++ (putU64 regionId ++ (putU64 offset ++ putU64 len))
  | .heartbeat nodeId timestamp => putU32 4 ++ (putU32 nodeId ++ putU64 timestamp)
  | .responseAck success message => putU32 5 ++ (putBool success ++ putString message)

/-- The fields of the variant with the given tag. -/
def getFields : ℕ → Get ControlMessagePayload
  | 0 => getU32 >>= fun pid => getU64 >>= fun vaddr => getU64 >>= fun size => getU32 >>= fun flags =>
    pure (.regionRegister pid vaddr size flags)
  | 1 => getU32 >>= fun pid => getU64 >>= fun vaddr => pure (.regionDeregister pid vaddr)
  | 2 => getU64 >>= fun regionId => getU64 >>= fun offset => getU64 >>= fun len =>
    pure (.lockAcquire regionId offset len)
  | 3 => getU64 >>= fun regionId => getU64 >>= fun offset => getU64 >>= fun len =>
    pure (.lockRelease regionId offset len)
  | 4 => getU32 >>= fun nodeId => getU64 >>= fun timestamp => pure (.heartbeat nodeId timestamp)
  | 5 => getBool >>= fun success => getString >>= fun message =>
    pure (.responseAck success message)
  | tag => throw (.invalidVariant tag)

def getMessage : Get ControlMessagePayload := getU32 >>= fun tag => getFields tag.toNat

/-- The strings of the message are no longer than a 64-bit length can say. -/
def Fits : ControlMessagePayload → Prop
  | .responseAck _ message => (utf8 message).length < 2 ^ 64
  | _ => True

theorem reads_getMessage {m : ControlMessagePayload} (h : Fits m) :
    Reads getMessage (putMessage m) m := by
  cases m with
  | regionRegister pid vaddr size flags =>
    exact (reads_getU32 0).bind ((reads_getU32 pid).bind ((reads_getU64 vaddr).bind
      ((reads_getU64 size).bind (reads_getU32 flags).bind_pure)))
  | regionDeregister pid vaddr =>
    exact (reads_getU32 1).bind ((reads_getU32 pid).bind (reads_getU64 vaddr).bind_pure)
  | lockAcquire regionId offset len =>
    exact (reads_getU32 2).bind ((reads_getU64 regionId).bind ((reads_getU64 offset).bind
      (reads_getU64 len).bind_pure))
  | lockRelease regionId offset len =>
    exact (reads_getU32 3).bind ((reads_getU64 regionId).bind ((reads_getU64 offset).bind
      (reads_getU64 len).bind_pure))
  | heartbeat nodeId timestamp =>
    exact (reads_getU32 4).bind ((reads_getU32 nodeId).bind (reads_getU64 timestamp).bind_pure)
  | responseAck success message =>
    exact (reads_getU32 5).bind ((reads_getBool success).bind (reads_getString h).bind_pure)

theorem fits_of_length {item : ControlMessagePayload} (h : (putMessage item).length ≤ maxFrameSize) :
    Fits item := by
  cases item with
  | responseAck success message =>
    simp only [putMessage, putString, List.length_append, maxFrameSize] at h
    unfold Fits
    omega
  | _ => trivial

/-- Bytes behind the value are ignored. -/
def deserialize {α : Type} (g : Get α) (data : List UInt8) : Except TransportError α :=
  match g data with
  | .ok (a, _) => .ok a
  | .error e => .error (.serializationError e)

theorem deserialize_of_reads {α : Type} {g : Get α} {bs : List UInt8} {a : α} (h : Reads g bs a) :
    deserialize g bs = .ok a := by
  have hbs := h []
  rw [List.append_nil] at hbs
  rw [deserialize, hbs]

/-- The start of a frame. A length that is written takes its low 32 bits. -/
structure FrameHeader where
  version : UInt8
  length : ℕ
  flags : UInt8
  deriving DecidableEq, Repr

def putHeader (length : ℕ) (flags : UInt8) : List UInt8 :=
  protocolVersion :: (beBytes 4 length ++ [flags])

/-- The header of a buffer that has one, and what follows it. -/
def readHeader : List UInt8 → Option (FrameHeader × List UInt8)
  | version :: b0 :: b1 :: b2 :: b3 :: flags :: rest =>
    some (⟨version, beNat [b0, b1, b2, b3], flags⟩, rest)
  | _ => none

/-- What every reader of a frame checks first. -/
def FrameHeader.check (h : FrameHeader) : Except TransportError Unit :=
  if h.version ≠ protocolVersion then .error (.unsupportedVersion h.version)
  else if h.length > maxFrameSize then .error (.frameTooLarge h.length)
  else .ok ()

theorem FrameHeader.check_plain (n : ℕ) (flags : UInt8) :
    (FrameHeader.mk protocolVersion n flags).check =
      if n > maxFrameSize then .error (.frameTooLarge n) else .ok () := by
  rw [FrameHeader.check, if_neg (not_not.mpr rfl)]

@[simp] theorem length_putHeader (length : ℕ) (flags : UInt8) :
    (putHeader length flags).length = headerSize := by
  simp [putHeader, headerSize]

theorem readHeader_putHeader (length : ℕ) (flags : UInt8) (rest : List UInt8) :
    readHeader (putHeader length flags ++ rest) =
      some (⟨protocolVersion, length % 2 ^ 32, flags⟩, rest) := by
  have hlen : beNat (beBytes 4 length) = length % 2 ^ 32 := beNat_beBytes 4 length
  rw [← hlen]
  rfl

theorem readHeader_of_short {src : List UInt8} (h : src.length < headerSize) :
    readHeader src = none := by
  unfold readHeader
  split
  · simp only [List.length_cons, headerSize] at h
    omega
  · rfl

/-- `deserialize_payload`; a flag other than the compression flag is ignored. -/
def deserializePayload (data : List UInt8) (flags : UInt8) :
    Except TransportError ControlMessagePayload :=
  if flags &&& flagCompressed ≠ 0 then
    .error (.compressionError "Compressed frames not yet supported")
  else deserialize getMessage data

theorem deserializePayload_of_plain {flags : UInt8} (h : flags &&& flagCompressed = 0)
    (data : List UInt8) : deserializePayload data flags = deserialize getMessage data := by
  rw [deserializePayload, if_neg (not_not.mpr h)]

/-- The payload of a message, behind a header without flags, is read as the message. -/
theorem deserializePayload_putMessage {m : ControlMessagePayload}
    (hfits : (putMessage m).length ≤ maxFrameSize) : deserializePayload (putMessage m) 0 = .ok m := by
  have hplain : (0 : UInt8) &&& flagCompressed = 0 := by decide
  rw [deserializePayload_of_plain hplain]
  exact deserialize_of_reads (reads_getMessage (fits_of_length hfits))

structure ControlFrame where
  version : UInt8
  flags : UInt8
  length : UInt32
  payload : ControlMessagePayload
  deriving DecidableEq, Repr

/-- Take one complete frame off the buffer. A buffer whose header is refused stays as it is. -/
def splitFrame (src : List UInt8) :
    Except TransportError (Option (FrameHeader × List UInt8)) × List UInt8 :=
  match readHeader src with
  | none => (.ok none, src)
  | some (header, rest) =>
    match header.check with
    | .error e => (.error e, src)
    | .ok () =>
      if rest.length < header.length then (.ok none, src)
      else (.ok (some (header, rest.take header.length)), rest.drop header.length)

structure ControlCodec where
  compressionLevel : UInt32
  deriving DecidableEq, Repr

namespace ControlCodec

/-- Compression is a stub: large payloads stay as they are. -/
def serializePayload (self : ControlCodec) (item : ControlMessagePayload) : List UInt8 :=
  let serialized := putMessage item
  if self.compressionLevel > 0 ∧ serialized.length > 1024 then serialized else serialized

/-- The frame of a payload, or the error of its bytes. -/
def frameOf (header : FrameHeader) (payload : List UInt8) : Except TransportError ControlFrame :=
  (deserializePayload payload header.flags).map fun msg =>
    ⟨header.version, header.flags, UInt32.ofNat header.length, msg⟩

theorem frameOf_putMessage {m : ControlMessagePayload} (hfits : (putMessage m).length ≤ maxFrameSize) :
    frameOf ⟨protocolVersion, (putMessage m).length, 0⟩ (putMessage m) =
      .ok ⟨protocolVersion, 0, UInt32.ofNat (putMessage m).length, m⟩ := by
  rw [frameOf, deserializePayload_putMessage hfits]
  rfl

def decode (src : List UInt8) : Except TransportError (Option ControlFrame) × List UInt8 :=
  match splitFrame src with
  | (.error e, src) => (.error e, src)
  | (.ok none, src) => (.ok none, src)
  | (.ok (some (header, payload)), src) => ((frameOf header payload).map some, src)

def encode (self : ControlCodec) (item : ControlMessagePayload) (dst : List UInt8) : List UInt8 :=
  let serialized := self.serializePayload item
  dst ++ (putHeader serialized.length 0 ++ serialized)

@[simp] theorem serializePayload_eq (self : ControlCodec) (item : ControlMessagePayload) :
    self.serializePayload item = putMessage item := by
  simp [serializePayload]

end ControlCodec

namespace ControlBatchCodec

def putBatch (items : List ControlMessagePayload) : List UInt8 := putVec putMessage items

def getBatch : Get (List ControlMessagePayload) := getVec getMessage

def decode (src : List UInt8) :
    Except TransportError (Option (List ControlMessagePayload)) × List UInt8 :=
  match splitFrame src with
  | (.error e, src) => (.error e, src)
  | (.ok none, src) => (.ok none, src)
  | (.ok (some (header, payload)), src) =>
    if header.flags &&& flagBatch = 0 then (.error .invalidFrame, src)
    else ((deserialize getBatch payload).map some, src)

def encode (items : List ControlMessagePayload) (dst : List UInt8) : List UInt8 :=
  let serialized := putBatch items
  dst ++ (putHeader serialized.length flagBatch ++ serialized)

end ControlBatchCodec

/-- One call of the receiver, with the stream that it leaves. A read that meets the end of the stream takes
what there is. -/
def recvFrom (stream : List UInt8) : Except TransportError ControlMessagePayload × List UInt8 :=
  match readHeader stream with
  | none => (.error .ioError, [])
  | some (header, rest) =>
    match header.check with
    | .error e => (.error e, rest)
    | .ok () =>
      if rest.length < header.length then (.error .ioError, [])
      else (deserializePayload (rest.take header.length) header.flags, rest.drop header.length)

/-- One message off a stream. -/
def recvControlMessageTokio (stream : List UInt8) : Except TransportError ControlMessagePayload :=
  (recvFrom stream).1

theorem splitFrame_of_short {src : List UInt8} (h : src.length < headerSize) :
    splitFrame src = (.ok none, src) := by
  rw [splitFrame, readHeader_of_short h]

/-- A buffer behind a header that was written for `n` bytes of payload. -/
theorem splitFrame_putHeader {n : ℕ} (hmax : n % 2 ^ 32 ≤ maxFrameSize) (flags : UInt8)
    (rest : List UInt8) :
    splitFrame (putHeader n flags ++ rest) =
      if rest.length < n % 2 ^ 32 then (.ok none, putHeader n flags ++ rest)
      else (.ok (some (⟨protocolVersion, n % 2 ^ 32, flags⟩, rest.take (n % 2 ^ 32))),
        rest.drop (n % 2 ^ 32)) := by
  rw [splitFrame, readHeader_putHeader]
  simp only [FrameHeader.check_plain, if_neg (Nat.not_lt.mpr hmax)]

/-- The length field of a payload within bounds is right. -/
theorem splitFrame_payload {payload : List UInt8} (hmax : payload.length ≤ maxFrameSize)
    (flags : UInt8) (rest : List UInt8) :
    splitFrame (putHeader payload.length flags ++ (payload ++ rest)) =
      (.ok (some (⟨protocolVersion, payload.length, flags⟩, payload)), rest) := by
  have hmod : payload.length % 2 ^ 32 = payload.length :=
    Nat.mod_eq_of_lt (lt_of_le_of_lt hmax (by decide))
  rw [splitFrame_putHeader (hmod.symm ▸ hmax), hmod, if_neg (by simp)]
  simp

end Virthub.Klnk.Net
