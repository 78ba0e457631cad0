import Virthub.Connectors.Metadata
import Virthub.Index.HashIndex
import Virthub.Lib.Bincode

/-! Blocks: a header with the checksum of the payload, the payload, and optional precision metadata. The
checksum is compared when a block comes off the wire. It covers the payload and nothing else of the
block. -/
namespace Virthub.Store
open Virthub.Lib Virthub.Index Virthub.Precision Virthub.Connectors

/-- The errors that writing and reading a block can end with; `ε` are the errors of the encoding. -/
inductive KvBlockError (ε : Type) where
  | checksumMismatch (expected computed : UInt32)
  | serializationFailed (error : ε)
  deriving DecidableEq, Repr

structure KvBlockHeader where
  key : KvBlockKey
  payloadLen : UInt32
  checksum : UInt32
  flags : UInt32
  deriving DecidableEq, Repr

/-- The tuple that stands for a block on the wire. -/
structure WireBlock where
  header : KvBlockHeader
  payload : List UInt8
  precisionPolicy : Option PackedBlockPolicy
  sidecar : Option PspKvSidecarDescriptor
  deriving DecidableEq

/-- What the blocks use of other crates: the checksum of `crc32fast`, and `bincode` for one tuple and for a
vector. -/
structure BlockCodec (ε : Type) where
  hash : List UInt8 → UInt32
  encode : WireBlock → Except ε (List UInt8)
  decode : List UInt8 → Except ε WireBlock
  encodeVec : List WireBlock → Except ε (List UInt8)
  decodeVec : List UInt8 → Except ε (List WireBlock)

/-- What has been encoded is decoded to the same, whatever comes behind it. -/
structure BlockCodec.RoundTrips {ε : Type} (codec : BlockCodec ε) : Prop where
  one : ∀ f bytes, codec.encode f = .ok bytes → ∀ rest, codec.decode (bytes ++ rest) = .ok f
  vec : ∀ fs bytes, codec.encodeVec fs = .ok bytes → ∀ rest, codec.decodeVec (bytes ++ rest) = .ok fs

/-- The counter that clones share starts at one. -/
structure KvBlock where
  header : KvBlockHeader
  payload : List UInt8
  refCount : UInt32
  precisionPolicy : Option PackedBlockPolicy
  sidecar : Option PspKvSidecarDescriptor
  deriving DecidableEq

namespace KvBlock

variable {ε : Type} (codec : BlockCodec ε)

def new (key : KvBlockKey) (payload : List UInt8) : KvBlock where
  header := ⟨key, UInt32.ofNat payload.length, codec.hash payload, 0⟩
  payload := payload
  refCount := 1
  precisionPolicy := none
  sidecar := none

def newWithPolicy (key : KvBlockKey) (payload : List UInt8) (precisionPolicy : Option PackedBlockPolicy)
    (sidecar : Option PspKvSidecarDescriptor) : KvBlock :=
  { new codec key payload with precisionPolicy := precisionPolicy, sidecar := sidecar }

def verifyChecksum (self : KvBlock) : Except (KvBlockError ε) Unit :=
  let computed := codec.hash self.payload
  if computed ≠ self.header.checksum then .error (.checksumMismatch self.header.checksum computed) else .ok ()

def updateChecksum (self : KvBlock) : KvBlock :=
  { self with header := { self.header with
      checksum := codec.hash self.payload
      payloadLen := UInt32.ofNat self.payload.length } }

def toWire (self : KvBlock) : WireBlock := ⟨self.header, self.payload, self.precisionPolicy, self.sidecar⟩

/-- A block that comes off the wire has a counter of its own. -/
def ofWire (f : WireBlock) : KvBlock := ⟨f.header, f.payload, 1, f.precisionPolicy, f.sidecar⟩

def serialize (self : KvBlock) : Except (KvBlockError ε) (List UInt8) :=
  (codec.encode self.toWire).mapError .serializationFailed

/-- The block with these fields, if its checksum is right. -/
def checked (f : WireBlock) : Except (KvBlockError ε) KvBlock := do
  let block := ofWire f
  block.verifyChecksum codec
  pure block

def deserialize (bytes : List UInt8) : Except (KvBlockError ε) KvBlock := do
  let f ← (codec.decode bytes).mapError .serializationFailed
  checked codec f

/-- A vector of blocks. The loop over them ends at the first whose checksum is wrong. -/
def deserializeBatch (data : List UInt8) : Except (KvBlockError ε) (List KvBlock) := do
  let blocks ← (codec.decodeVec data).mapError .serializationFailed
  blocks.mapM (checked codec)

variable {codec}

theorem serialize_eq_ok {self : KvBlock} {bytes : List UInt8} (h : self.serialize codec = .ok bytes) :
    codec.encode self.toWire = .ok bytes := by
  unfold serialize at h
  cases hencode : codec.encode self.toWire with
  | error e =>
    rw [hencode] at h
    cases h
  | ok found =>
    rw [hencode] at h
    cases h
    rfl

theorem checked_eq (f : WireBlock) :
    checked codec f = if codec.hash f.payload = f.header.checksum then .ok (ofWire f)
      else .error (.checksumMismatch f.header.checksum (codec.hash f.payload)) := by
  unfold checked verifyChecksum
  by_cases h : codec.hash f.payload = f.header.checksum
  · have hsame : ¬ codec.hash (ofWire f).payload ≠ (ofWire f).header.checksum := not_not.mpr h
    rw [if_pos h]
    dsimp only
    rw [if_neg hsame]
    rfl
  · have hother : codec.hash (ofWire f).payload ≠ (ofWire f).header.checksum := h
    rw [if_neg h]
    dsimp only
    rw [if_pos hother]
    rfl

/-- A serialised block is read back as it was. -/
theorem deserialize_of_serialize (hcodec : codec.RoundTrips) {block : KvBlock} {bytes : List UInt8}
    (hbytes : block.serialize codec = .ok bytes) (rest : List UInt8) :
    deserialize codec (bytes ++ rest) = checked codec block.toWire := by
  rw [deserialize, hcodec.one _ _ (serialize_eq_ok hbytes) rest]
  rfl

/-- One at a time, the blocks of a list are checked up to the first whose checksum is wrong. -/
theorem mapM_deserialize (hcodec : codec.RoundTrips) {blocks : List KvBlock} {parts : List (List UInt8)}
    (hparts : blocks.mapM (serialize codec) = .ok parts) :
    parts.mapM (deserialize codec) = (blocks.map toWire).mapM (checked codec) := by
  induction blocks generalizing parts with
  | nil =>
    cases hparts
    rfl
  | cons block blocks ih =>
    rw [List.mapM_cons] at hparts
    cases hbytes : block.serialize codec with
    | error e =>
      rw [hbytes] at hparts
      cases hparts
    | ok bytes =>
      cases hrest : blocks.mapM (serialize codec) with
      | error e =>
        rw [hbytes, hrest] at hparts
        cases hparts
      | ok others =>
        rw [hbytes, hrest] at hparts
        cases hparts
        have hread := deserialize_of_serialize hcodec hbytes []
        rw [List.append_nil] at hread
        rw [List.map_cons, List.mapM_cons, List.mapM_cons, hread, ih hrest]

end KvBlock

section Example

open Bincode

def exampleHeader : KvBlockHeader := ⟨⟨1, 2⟩, 1, 7, 0⟩

/-- The blocks that have one header and no metadata. -/
def Plain (f : WireBlock) : Prop :=
  f.header = exampleHeader ∧ f.precisionPolicy = none ∧ f.sidecar = none ∧ f.payload.length < 2 ^ 64

instance : DecidablePred Plain := fun _ => inferInstanceAs (Decidable (_ ∧ _ ∧ _ ∧ _))

def putPlain (f : WireBlock) : List UInt8 := putVec putU8 f.payload

def getPlain : Get WireBlock := getVec getU8 >>= fun payload => pure ⟨exampleHeader, payload, none, none⟩

/-- A codec for such blocks. It writes the payload with its length in front, and sums up bytes. -/
def exampleCodec : BlockCodec DecodeError where
  hash bytes := UInt32.ofNat (bytes.map UInt8.toNat).sum
  encode f := if Plain f then .ok (putPlain f) else .error .unexpectedEof
  decode bytes := (getPlain bytes).map Prod.fst
  encodeVec fs :=
    if (∀ f ∈ fs, Plain f) ∧ fs.length < 2 ^ 64 then .ok (putVec putPlain fs) else .error .unexpectedEof
  decodeVec bytes := (getVec getPlain bytes).map Prod.fst

theorem reads_getPlain {f : WireBlock} (h : Plain f) : Reads getPlain (putPlain f) f := by
  obtain ⟨hheader, hpolicy, hsidecar, hlen⟩ := h
  have hread : Reads getPlain (putPlain f) ⟨exampleHeader, f.payload, none, none⟩ :=
    (reads_getVec hlen fun b _ => reads_getU8 b).bind_pure
  rwa [← hheader, ← hpolicy, ← hsidecar] at hread

theorem roundTrips_exampleCodec : exampleCodec.RoundTrips where
  one := by
    intro f bytes hok rest
    dsimp only [exampleCodec] at hok ⊢
    split_ifs at hok with hplain
    cases hok
    rw [reads_getPlain hplain rest]
    rfl
  vec := by
    intro fs bytes hok rest
    dsimp only [exampleCodec] at hok ⊢
    split_ifs at hok with hplain
    cases hok
    rw [reads_getVec hplain.2 (fun f hf => reads_getPlain (hplain.1 f hf)) rest]
    rfl

/-- Its checksum is right. -/
def rightBlock : KvBlock := ⟨exampleHeader, [3, 4], 5, none, none⟩

/-- Its checksum is wrong. -/
def wrongBlock : KvBlock := ⟨exampleHeader, [9], 1, none, none⟩

end Example

namespace KvBlock

variable {ε : Type} (codec : BlockCodec ε)

end KvBlock

end Virthub.Store
