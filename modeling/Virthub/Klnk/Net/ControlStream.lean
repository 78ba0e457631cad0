import Virthub.Klnk.Net.ControlTransport
import Virthub.Lib.Streaming

/-! The control codec on a stream that arrives in pieces. A payload that cannot be decoded is
consumed with its frame, so the frames behind it are read as if it were not there. -/
namespace Virthub.Klnk.Net
open Virthub.Lib.Bincode Virthub.Lib.Streaming Virthub.Klnk.Daemon

/-- `decode` as a decoder on a growing buffer: `Ok(None)` asks for more. -/
def ControlCodec.next : Decoder UInt8 (Except TransportError ControlFrame) := fun src =>
  match ControlCodec.decode src with
  | (.ok none, src) => (none, src)
  | (.ok (some frame), src) => (some (.ok frame), src)
  | (.error e, src) => (some (.error e), src)

/-- A frame as it stands on the wire: an encoded message, or any flags and payload bytes behind a
header of this version that gives their number. -/
inductive WireFrame where
  | message (codec : ControlCodec) (item : ControlMessagePayload)
      (fits : (putMessage item).length ≤ maxFrameSize)
  | raw (flags : UInt8) (payload : List UInt8) (fits : payload.length ≤ maxFrameSize)

namespace WireFrame

def bytes : WireFrame → List UInt8
  | .message codec item _ => codec.encode item []
  | .raw flags payload _ => putHeader payload.length flags ++ payload

def result : WireFrame → Except TransportError ControlFrame
  | .message _ item _ => .ok ⟨protocolVersion, 0, UInt32.ofNat (putMessage item).length, item⟩
  | .raw flags payload _ => ControlCodec.frameOf ⟨protocolVersion, payload.length, flags⟩ payload

end WireFrame

theorem next_of_split {src rest : List UInt8} {header : FrameHeader} {payload : List UInt8}
    (h : splitFrame src = (.ok (some (header, payload)), rest)) :
    ControlCodec.next src = (some (ControlCodec.frameOf header payload), rest) := by
  simp only [ControlCodec.next, ControlCodec.decode, h]
  cases ControlCodec.frameOf header payload <;> rfl

theorem next_of_wait {src : List UInt8} (h : splitFrame src = (.ok none, src)) :
    ControlCodec.next src = (none, src) := by
  simp only [ControlCodec.next, ControlCodec.decode, h]

theorem frames_payload {payload : List UInt8} (hmax : payload.length ≤ maxFrameSize)
    (flags : UInt8) :
    Frames ControlCodec.next (putHeader payload.length flags ++ payload)
      (ControlCodec.frameOf ⟨protocolVersion, payload.length, flags⟩ payload) := by
  constructor
  · intro rest
    apply next_of_split
    rw [List.append_assoc, splitFrame_payload hmax]
  · intro p hp hne
    apply next_of_wait
    by_cases hshort : p.length < headerSize
    · exact splitFrame_of_short hshort
    · -- the header is complete, so part of the payload is missing
      have hheader : putHeader payload.length flags <+: p := by
        apply List.prefix_of_prefix_length_le (List.prefix_append _ payload) hp
        rw [length_putHeader]
        exact Nat.not_lt.mp hshort
      obtain ⟨part, rfl⟩ := hheader
      have hpart : part <+: payload := (List.prefix_append_right_inj _).mp hp
      have hlt : part.length < payload.length := by
        apply Nat.lt_of_le_of_ne hpart.length_le
        intro hlen
        exact hne (by rw [hpart.eq_of_length hlen])
      have hmod : payload.length % 2 ^ 32 = payload.length :=
        Nat.mod_eq_of_lt (lt_of_le_of_lt hmax (by decide))
      rw [splitFrame_putHeader (hmod.symm ▸ hmax), hmod, if_pos hlt]

theorem frames_wireFrame (f : WireFrame) : Frames ControlCodec.next f.bytes f.result := by
  cases f with
  | raw flags payload fits => exact frames_payload fits flags
  | message codec item fits =>
    have hframe := frames_payload fits 0
    rw [ControlCodec.frameOf_putMessage fits] at hframe
    simpa [WireFrame.bytes, WireFrame.result, ControlCodec.encode] using hframe

/-- However the bytes of a sequence of frames are cut into chunks, calling `decode` after each
until it asks for more returns one result for each frame, in order, and leaves the buffer empty. -/
theorem feed_wireFrames (frames : List WireFrame) (chunks : List (List UInt8))
    (hb : chunks.flatten = frames.flatMap WireFrame.bytes) (fuel : ℕ) (hfuel : frames.length < fuel) :
    feed ControlCodec.next fuel chunks [] = some (frames.map WireFrame.result, []) := by
  have hnil : ControlCodec.next [] = (none, []) := rfl
  have hframes : ∀ f ∈ frames.map fun f => (f.bytes, f.result), Frames ControlCodec.next f.1 f.2 := by
    intro f hf
    obtain ⟨g, -, rfl⟩ := List.mem_map.mp hf
    exact frames_wireFrame g
  have hbytes : chunks.flatten = (frames.map fun f => (f.bytes, f.result)).flatMap Prod.fst := by
    rw [hb, List.flatMap_map]
  have h := feed_frames hnil hframes hbytes (by rwa [List.length_map])
  simpa [Function.comp_def] using h

/-- A frame with an unknown tag between two heartbeats, in chunks that split a header and a
payload. -/
theorem feed_wireFrames_bad_payload :
    feed ControlCodec.next 4
      [[1, 0, 0, 0], [16, 0, 4, 0, 0, 0, 1, 0, 0, 0, 2, 0, 0, 0, 0, 0, 0, 0, 1, 0, 0, 0, 5, 0, 9, 0],
        [0, 0, 7, 1, 0, 0, 0, 16, 0, 4, 0, 0, 0, 3, 0, 0, 0, 4, 0, 0, 0, 0, 0, 0, 0]] [] =
    some ([.ok ⟨1, 0, 16, .heartbeat 1 2⟩, .error (.serializationError (.invalidVariant 9)),
      .ok ⟨1, 0, 16, .heartbeat 3 4⟩], []) :=
  feed_wireFrames
    [.message ⟨0⟩ (.heartbeat 1 2) (by decide), .raw 0 [9, 0, 0, 0, 7] (by decide),
      .message ⟨0⟩ (.heartbeat 3 4) (by decide)] _ (by decide +kernel) 4 (by decide)

end Virthub.Klnk.Net
