import Virthub.Klnk.Net.BatchFrames

/-! Frames beyond the limits of the decoders. The encoders write the low 32 bits of any length and check no
bound, so that a payload of more than 16 MB is refused where it arrives, or cut short so that the rest of it
is taken for the next frame. -/
namespace Virthub.Klnk.Net
open Virthub.Lib.Bincode Virthub.Klnk.Daemon

inductive Outgoing where
  | message (codec : ControlCodec) (item : ControlMessagePayload)
  | batch (items : List ControlMessagePayload)

namespace Outgoing

/-- What the encoder appends to an empty buffer. Serialization is its only step that could fail, and a message
can always be serialized. -/
def encode : Outgoing → Except TransportError (List UInt8)
  | message codec item => .ok (codec.encode item [])
  | batch items => .ok (ControlBatchCodec.encode items [])

def Received (bytes : List UInt8) : Outgoing → Prop
  | message _ item => ∃ frame, ControlCodec.decode bytes = (.ok (some frame), []) ∧ frame.payload = item
  | batch items => ControlBatchCodec.decode bytes = (.ok (some items), [])

/-- What is encoded can be decoded, and what could not be is refused by the encoder. -/
structure RoundTrips (o : Outgoing) : Prop where
  decoded : ∀ bytes, o.encode = .ok bytes → o.Received bytes
  rejected : (∀ bytes, o.encode = .ok bytes → ¬ o.Received bytes) → ∃ e, o.encode = .error e

def payload : Outgoing → List UInt8
  | message _ item => putMessage item
  | batch items => ControlBatchCodec.putBatch items

def flags : Outgoing → UInt8
  | message _ _ => 0
  | batch _ => flagBatch

def bytes (o : Outgoing) : List UInt8 := putHeader o.payload.length o.flags ++ o.payload

theorem encode_eq (o : Outgoing) : o.encode = .ok o.bytes := by
  cases o with
  | message codec item =>
    rw [encode, ControlCodec.encode, codec.serializePayload_eq]
    rfl
  | batch items => rfl

theorem roundTrips_iff_received (o : Outgoing) : o.RoundTrips ↔ o.Received o.bytes := by
  constructor
  · intro h
    exact h.decoded o.bytes o.encode_eq
  · intro h
    constructor
    · intro bytes hencode
      obtain rfl := Except.ok.inj (o.encode_eq.symm.trans hencode)
      exact h
    · intro hlost
      exact absurd h (hlost o.bytes o.encode_eq)

end Outgoing

/-- A frame beyond the limit is refused, or something of it stays behind. -/
theorem splitFrame_oversized {payload : List UInt8} (hlarge : maxFrameSize < payload.length) (flags : UInt8) :
    (∃ e, (splitFrame (putHeader payload.length flags ++ payload)).1 = .error e) ∨
      (splitFrame (putHeader payload.length flags ++ payload)).2 ≠ [] := by
  by_cases hmax : payload.length % 2 ^ 32 ≤ maxFrameSize
  · have hcut : payload.length % 2 ^ 32 < payload.length := hmax.trans_lt hlarge
    right
    rw [splitFrame_putHeader hmax, if_neg (Nat.not_lt.mpr hcut.le)]
    intro hempty
    exact absurd (List.drop_eq_nil_iff.mp hempty) (Nat.not_le.mpr hcut)
  · left
    rw [splitFrame, readHeader_putHeader]
    simp only [FrameHeader.check_plain, if_pos (Nat.not_le.mp hmax)]
    exact ⟨_, rfl⟩

theorem ControlCodec.splitFrame_of_decode {src : List UInt8} {frame : ControlFrame}
    (h : decode src = (.ok (some frame), [])) :
    (∀ e, (splitFrame src).1 ≠ .error e) ∧ (splitFrame src).2 = [] := by
  unfold decode at h
  split at h
  · cases h
  · cases h
  · next heq =>
    rw [heq]
    exact ⟨fun e he => (by cases he), congrArg Prod.snd h⟩

theorem ControlBatchCodec.splitFrame_of_decode {src : List UInt8} {items : List ControlMessagePayload}
    (h : decode src = (.ok (some items), [])) :
    (∀ e, (splitFrame src).1 ≠ .error e) ∧ (splitFrame src).2 = [] := by
  unfold decode at h
  split at h
  · cases h
  · cases h
  · next heq =>
    rw [heq]
    split_ifs at h
    · cases h
    · exact ⟨fun e he => (by cases he), congrArg Prod.snd h⟩

namespace Outgoing

theorem length_le_of_split {o : Outgoing}
    (h : (∀ e, (splitFrame o.bytes).1 ≠ .error e) ∧ (splitFrame o.bytes).2 = []) :
    o.payload.length ≤ maxFrameSize := by
  by_contra hlarge
  rcases splitFrame_oversized (Nat.not_le.mp hlarge) o.flags with ⟨e, he⟩ | hrest
  · exact h.1 e he
  · exact hrest h.2

theorem received_iff (o : Outgoing) : o.Received o.bytes ↔ o.payload.length ≤ maxFrameSize := by
  cases o with
  | message codec item =>
    constructor
    · intro h
      obtain ⟨frame, hdecode, -⟩ := h
      exact length_le_of_split (ControlCodec.splitFrame_of_decode hdecode)
    · intro hfits
      have hsplit := splitFrame_payload hfits 0 []
      refine ⟨⟨protocolVersion, 0, UInt32.ofNat (putMessage item).length, item⟩, ?_, rfl⟩
      rw [List.append_nil] at hsplit
      simp only [bytes, payload, flags] at hsplit ⊢
      rw [ControlCodec.decode, hsplit]
      dsimp only
      rw [ControlCodec.frameOf_putMessage hfits]
      rfl
  | batch items =>
    constructor
    · intro h
      exact length_le_of_split (ControlBatchCodec.splitFrame_of_decode h)
    · intro hfits
      have hdecode := ControlBatchCodec.decode_encode hfits []
      rwa [List.append_nil] at hdecode

/-- A message or a batch comes back from its encoder through the decoder exactly if it takes at most 16 MB. -/
theorem roundTrips_iff (o : Outgoing) : o.RoundTrips ↔ o.payload.length ≤ maxFrameSize := by
  rw [roundTrips_iff_received, received_iff]

/-- A batch of two million heartbeats is encoded, and refused by the decoder. -/
theorem roundTrips_fails_on_large_batch : ¬ ∀ o : Outgoing, o.RoundTrips := by
  intro h
  have hreceived := (roundTrips_iff_received _).mp (h (.batch (List.replicate 2000000 (.heartbeat 1 2))))
  have hfits := (received_iff _).mp hreceived
  have hbody := le_length_batchBody (List.replicate 2000000 (.heartbeat 1 2))
  rw [payload, length_putBatch, maxFrameSize] at hfits
  rw [List.length_replicate] at hbody
  omega

end Outgoing

end Virthub.Klnk.Net
