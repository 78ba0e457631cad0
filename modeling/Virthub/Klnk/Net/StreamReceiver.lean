import Virthub.Klnk.Net.ControlStream

/-! The stream functions next to the codec. The receiver pulls one frame after the other off a stream, the
codec takes frames off a buffer that fills up; both read the same messages and stop at the same error. -/
namespace Virthub.Klnk.Net
open Virthub.Lib.Bincode Virthub.Lib.Streaming Virthub.Klnk.Daemon

/-- The bytes that `send_control_message_tokio` writes. -/
def sendControlMessageTokio (msg : ControlMessagePayload) : List UInt8 :=
  let serialized := putMessage msg
  let len := serialized.length
  [protocolVersion] ++ beBytes 4 len ++ [0] ++ serialized

theorem sendControlMessageTokio_eq (msg : ControlMessagePayload) :
    sendControlMessageTokio msg = putHeader (putMessage msg).length 0 ++ putMessage msg := by
  simp [sendControlMessageTokio, putHeader]

/-- Repeated calls, up to the first error: the messages, and the error if it is not the end of the stream. -/
def recvUntilError : ℕ → List UInt8 → Option (List ControlMessagePayload × Option TransportError)
  | 0, _ => none
  | calls + 1, stream =>
    match recvFrom stream with
    | (.error .ioError, _) => some ([], none)
    | (.error e, _) => some ([], some e)
    | (.ok msg, rest) => (recvUntilError calls rest).map fun out => (msg :: out.1, out.2)

theorem check_ne_ioError {header : FrameHeader} {e : TransportError} (h : header.check = .error e) :
    e ≠ .ioError := by
  unfold FrameHeader.check at h
  split_ifs at h
  all_goals
    cases h
    intro hio
    cases hio

theorem deserializePayload_ne_ioError {data : List UInt8} {flags : UInt8} {e : TransportError}
    (h : deserializePayload data flags = .error e) : e ≠ .ioError := by
  unfold deserializePayload deserialize at h
  split_ifs at h
  · cases h
    decide
  · split at h
    all_goals cases h
    intro hio
    cases hio

theorem readHeader_eq_some {src rest : List UInt8} {header : FrameHeader}
    (h : readHeader src = some (header, rest)) :
    src.length = headerSize + rest.length ∧
      ∀ more, readHeader (src ++ more) = some (header, rest ++ more) := by
  unfold readHeader at h
  split at h
  · cases h
    refine ⟨?_, fun more => rfl⟩
    simp only [List.length_cons, headerSize]
    omega
  · cases h

/-- What the codec and the receiver do with the same bytes: wait and give up, refuse the header, or take a
frame off. A header that is refused and a frame that is complete stay so when more bytes come. -/
inductive ReadStep (src : List UInt8) : Prop where
  | short (hnext : ControlCodec.next src = (none, src)) (hrecv : recvFrom src = (.error .ioError, []))
  | refused (e : TransportError) (rest : List UInt8) (hne : e ≠ .ioError)
      (hnext : ∀ more, ControlCodec.next (src ++ more) = (some (.error e), src ++ more))
      (hrecv : recvFrom src = (.error e, rest))
  | frame (header : FrameHeader) (payload rest : List UInt8) (hlen : rest.length < src.length)
      (hnext : ∀ more, ControlCodec.next (src ++ more) =
        (some (ControlCodec.frameOf header payload), rest ++ more))
      (hrecv : recvFrom src = (deserializePayload payload header.flags, rest))

theorem readStep (src : List UInt8) : ReadStep src := by
  cases hread : readHeader src with
  | none =>
    refine .short (next_of_wait ?_) ?_
    · rw [splitFrame, hread]
    · rw [recvFrom, hread]
  | some found =>
    obtain ⟨header, rest⟩ := found
    obtain ⟨hlen, hmore⟩ := readHeader_eq_some hread
    cases hcheck : header.check with
    | error e =>
      refine .refused e rest (check_ne_ioError hcheck) (fun more => ?_) ?_
      · simp only [ControlCodec.next, ControlCodec.decode, splitFrame, hmore, hcheck]
      · simp only [recvFrom, hread, hcheck]
    | ok _ =>
      by_cases hshort : rest.length < header.length
      · refine .short (next_of_wait ?_) ?_
        · simp only [splitFrame, hread, hcheck, if_pos hshort]
        · simp only [recvFrom, hread, hcheck, if_pos hshort]
      · have hfull : header.length ≤ rest.length := Nat.not_lt.mp hshort
        refine .frame header (rest.take header.length) (rest.drop header.length) ?_
          (fun more => next_of_split ?_) ?_
        · rw [List.length_drop, hlen, headerSize]
          omega
        · have hfull' : ¬ (rest ++ more).length < header.length := by
            rw [List.length_append]
            omega
          simp only [splitFrame, hmore, hcheck, if_neg hfull', List.take_append_of_le_length hfull,
            List.drop_append_of_le_length hfull]
        · simp only [recvFrom, hread, hcheck, if_neg hshort]

theorem frameOf_cases (header : FrameHeader) (payload : List UInt8) :
    (∃ e, e ≠ .ioError ∧ deserializePayload payload header.flags = .error e ∧
      ControlCodec.frameOf header payload = .error e) ∨
    ∃ msg, deserializePayload payload header.flags = .ok msg ∧
      ControlCodec.frameOf header payload =
        .ok ⟨header.version, header.flags, UInt32.ofNat header.length, msg⟩ := by
  unfold ControlCodec.frameOf
  cases hpayload : deserializePayload payload header.flags with
  | error e => exact Or.inl ⟨e, deserializePayload_ne_ioError hpayload, rfl, rfl⟩
  | ok msg => exact Or.inr ⟨msg, rfl, rfl⟩

/-- The codec waits for more bytes, or answers as it would with more of them behind. -/
theorem next_cases (src : List UInt8) :
    ControlCodec.next src = (none, src) ∨
    ∃ result rest, ControlCodec.next src = (some result, rest) ∧
      (∀ more, ControlCodec.next (src ++ more) = (some result, rest ++ more)) ∧
      ∀ frame, result = .ok frame → rest.length < src.length := by
  cases readStep src with
  | short hnext _ => exact Or.inl hnext
  | refused e rest _ hnext _ =>
    have hsrc := hnext []
    rw [List.append_nil] at hsrc
    exact Or.inr ⟨.error e, src, hsrc, hnext, fun frame hframe => by cases hframe⟩
  | frame header payload rest hlen hnext _ =>
    have hsrc := hnext []
    rw [List.append_nil, List.append_nil] at hsrc
    exact Or.inr ⟨_, rest, hsrc, hnext, fun _ _ => hlen⟩

theorem stable_next : Stable ControlCodec.next where
  waits := by
    intro p q h
    rcases next_cases p with hwait | ⟨result, rest, hnext, -, -⟩
    · rw [hwait] at h
      exact (congrArg Prod.snd h).symm
    · rw [hnext] at h
      cases h
  keeps := by
    intro p q r h more
    rcases next_cases p with hwait | ⟨result, rest, hnext, hmore, -⟩
    · rw [hwait] at h
      cases h
    · rw [hnext] at h
      cases h
      exact hmore more
  consumes := by
    intro p q frame h
    rcases next_cases p with hwait | ⟨result, rest, hnext, -, hlen⟩
    · rw [hwait] at h
      cases h
    · rw [hnext] at h
      cases h
      exact hlen frame rfl

/-- On a whole stream the receiver returns what the codec returns. -/
theorem recvUntilError_eq (calls : ℕ) (stream : List UInt8) :
    recvUntilError calls stream = (drainOk ControlCodec.next calls stream).map fun out =>
      (out.results.map (·.payload), out.error) := by
  induction calls generalizing stream with
  | zero => rfl
  | succ calls ih =>
    rw [recvUntilError, drainOk]
    cases readStep stream with
    | short hnext hrecv =>
      rw [hnext, hrecv]
      rfl
    | refused e rest hne hnext hrecv =>
      have hstream := hnext []
      rw [List.append_nil] at hstream
      rw [hstream, hrecv]
      cases e with
      | ioError => exact absurd rfl hne
      | _ => rfl
    | frame header payload rest _ hnext hrecv =>
      have hstream := hnext []
      rw [List.append_nil, List.append_nil] at hstream
      rw [hstream, hrecv]
      rcases frameOf_cases header payload with ⟨e, hne, hpayload, hframe⟩ | ⟨msg, hpayload, hframe⟩
      · rw [hpayload, hframe]
        cases e with
        | ioError => exact absurd rfl hne
        | _ => rfl
      · rw [hpayload, hframe]
        dsimp only
        rw [ih, Option.map_map, Option.map_map]
        rfl

/-- Pulled off a stream or fed to the codec in any chunks, the same bytes give the same messages and the same
error; and the sender writes what the codec encodes. -/
theorem stream_equivalent_to_codec :
    (∀ (chunks : List (List UInt8)) (calls : ℕ), chunks.flatten.length < calls →
      ∃ msgs error, recvUntilError calls chunks.flatten = some (msgs, error) ∧
        (feedOk ControlCodec.next calls chunks []).map
          (fun out => (out.results.map (·.payload), out.error)) = some (msgs, error)) ∧
    ∀ (codec : ControlCodec) (msg : ControlMessagePayload) (dst : List UInt8),
      codec.encode msg dst = dst ++ sendControlMessageTokio msg := by
  constructor
  · intro chunks calls hcalls
    have hstart : ControlCodec.next [] = (none, []) := rfl
    obtain ⟨out, whole, hfeed, hdrain, hresults, herror⟩ := stable_next.feedOk_eq hstart hcalls
    refine ⟨whole.results.map (·.payload), whole.error, ?_, ?_⟩
    · rw [recvUntilError_eq, ← List.nil_append chunks.flatten, hdrain]
      rfl
    · rw [hfeed, Option.map_some, hresults, herror]
  · intro codec msg dst
    rw [ControlCodec.encode, codec.serializePayload_eq, sendControlMessageTokio_eq]

end Virthub.Klnk.Net
