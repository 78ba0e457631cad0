import Virthub.Klnk.Net.ControlTransport

/-! A batch frame at a reader of single messages. The readers ignore the batch flag, so the count
of the batch is read as the tag of a message and the first messages as its fields. -/
namespace Virthub.Klnk.Net
open Virthub.Lib.Bincode Virthub.Klnk.Daemon

theorem deserialize_error_iff {α : Type} {g : Get α} {data : List UInt8} :
    (∃ e, deserialize g data = .error e) ↔ ¬ Accepts g data := by
  unfold deserialize Accepts
  cases g data with
  | ok r => simp
  | error e => simp

theorem leNat_take_lt (w : ℕ) (bs : List UInt8) : leNat (bs.take w) < 256 ^ w := by
  calc leNat (bs.take w) < 256 ^ (bs.take w).length := leNat_lt _
    _ ≤ 256 ^ w := Nat.pow_le_pow_right (by decide) (List.length_take_le w bs)

theorem accepts_getMessage_iff {bs : List UInt8} :
    Accepts getMessage bs ↔ 4 ≤ bs.length ∧ Accepts (getFields (leNat (bs.take 4))) (bs.drop 4) := by
  have hlt : leNat (bs.take 4) < 2 ^ 32 := leNat_take_lt 4 bs
  rw [getMessage, accepts_getU32_bind, UInt32.toNat_ofNat', Nat.mod_eq_of_lt hlt]

/-- The variants of fixed size need only enough bytes. -/
theorem accepts_getFields_fixed (bs : List UInt8) :
    (Accepts (getFields 0) bs ↔ 24 ≤ bs.length) ∧ (Accepts (getFields 1) bs ↔ 12 ≤ bs.length) ∧
      (Accepts (getFields 2) bs ↔ 24 ≤ bs.length) ∧ (Accepts (getFields 3) bs ↔ 24 ≤ bs.length) ∧
      (Accepts (getFields 4) bs ↔ 12 ≤ bs.length) := by
  simp only [getFields, accepts_getU32_bind, accepts_getU64_bind, accepts_pure, List.length_drop,
    and_true]
  omega

theorem not_accepts_getFields {tag : ℕ} (h : 6 ≤ tag) (bs : List UInt8) :
    ¬ Accepts (getFields tag) bs := by
  obtain ⟨tag, rfl⟩ := Nat.exists_eq_add_of_le' h
  exact not_accepts_throw (.invalidVariant (tag + 6)) bs

/-- An acknowledgement: a bool, and a string that ends within the bytes. -/
theorem accepts_getFields_ack (bs : List UInt8) :
    Accepts (getFields 5) bs ↔ 9 ≤ bs.length ∧ leNat (bs.take 1) ≤ 1 ∧
      9 + leNat ((bs.drop 1).take 8) ≤ bs.length ∧
      ByteArray.IsValidUTF8 ⟨((bs.drop 9).take (leNat ((bs.drop 1).take 8))).toArray⟩ := by
  have hbyte : leNat (bs.take 1) < 256 := leNat_take_lt 1 bs
  have hlen : leNat ((bs.drop 1).take 8) < 2 ^ 64 := leNat_take_lt 8 _
  have hzero : UInt8.ofNat (leNat (bs.take 1)) = 0 ↔ leNat (bs.take 1) = 0 := by
    rw [← UInt8.toNat_inj, UInt8.toNat_ofNat', Nat.mod_eq_of_lt hbyte]
    rfl
  have hone : UInt8.ofNat (leNat (bs.take 1)) = 1 ↔ leNat (bs.take 1) = 1 := by
    rw [← UInt8.toNat_inj, UInt8.toNat_ofNat', Nat.mod_eq_of_lt hbyte]
    rfl
  simp only [getFields, getBool, getString, bind_assoc, accepts_getU8_bind, accepts_boolOfByte_bind,
    accepts_getU64_bind, accepts_getBytes_bind, accepts_stringOfBytes_bind_pure, hzero, hone,
    UInt64.toNat_ofNat', Nat.mod_eq_of_lt hlen, List.length_drop, List.drop_drop]
  constructor
  · intro ⟨_, hfields⟩
    obtain ⟨hb, h8, hle, hv⟩ | ⟨hb, h8, hle, hv⟩ := hfields
    · exact ⟨by omega, by omega, by omega, hv⟩
    · exact ⟨by omega, by omega, by omega, hv⟩
  · intro ⟨h9, hb, hle, hv⟩
    have hcases : leNat (bs.take 1) = 0 ∨ leNat (bs.take 1) = 1 := by omega
    rcases hcases with h | h
    · exact ⟨by omega, Or.inl ⟨h, by omega, by omega, hv⟩⟩
    · exact ⟨by omega, Or.inr ⟨h, by omega, by omega, hv⟩⟩

def batchBody (items : List ControlMessagePayload) : List UInt8 := items.flatMap putMessage

def countHigh (items : List ControlMessagePayload) : ℕ := items.length / 2 ^ 32 % 2 ^ 32

theorem putBatch_eq (items : List ControlMessagePayload) :
    ControlBatchCodec.putBatch items =
      leBytes 4 items.length ++ (leBytes 4 (countHigh items) ++ batchBody items) := by
  have hcount : putU64 (UInt64.ofNat items.length) =
      leBytes 4 items.length ++ leBytes 4 (countHigh items) := by
    have hhigh := leBytes_mod 4 (items.length / 256 ^ 4)
    rw [putU64, UInt64.toNat_ofNat', countHigh]
    exact (leBytes_mod 8 items.length).trans
      ((leBytes_add 4 4 items.length).trans (congrArg _ hhigh.symm))
  rw [ControlBatchCodec.putBatch, putVec, hcount, List.append_assoc]
  rfl

/-- The first five bytes of a message are zero for a registration by a process whose number is a
multiple of 256, and for nothing else. -/
def StartsWithZeros : ControlMessagePayload → Prop
  | .regionRegister pid _ _ _ => pid.toNat % 256 = 0
  | _ => False

theorem leNat_take_putMessage (m : ControlMessagePayload) (rest : List UInt8) :
    leNat ((putMessage m ++ rest).take 5) = 0 ↔ StartsWithZeros m := by
  have htag : ∀ (tag : UInt32) (bs : List UInt8),
      leNat ((putU32 tag ++ bs).take 5) = tag.toNat + 256 ^ 4 * leNat (bs.take 1) := by
    intro tag bs
    have hlt : tag.toNat < 256 ^ 4 := tag.toNat_lt
    rw [List.take_append, List.take_of_length_le (by simp), leNat_append, length_putU32, putU32,
      leNat_leBytes, Nat.mod_eq_of_lt hlt]
  cases m with
  | regionRegister pid vaddr size flags =>
    have hpid : leNat ((putU32 pid ++ (putU64 vaddr ++ (putU64 size ++ putU32 flags)) ++ rest).take 1) =
        pid.toNat % 256 := by
      rw [List.append_assoc, List.take_append_of_le_length (by simp), putU32]
      exact leNat_leBytes 1 pid.toNat
    rw [putMessage, List.append_assoc, htag, hpid, StartsWithZeros]
    simp
  | _ =>
    rw [putMessage, List.append_assoc, htag]
    simp [StartsWithZeros]

theorem leNat_take_batchBody (items : List ControlMessagePayload) (hne : items ≠ []) :
    leNat ((batchBody items).take 5) = 0 ↔ ∃ m, items.head? = some m ∧ StartsWithZeros m := by
  cases items with
  | nil => exact absurd rfl hne
  | cons m ms =>
    rw [batchBody, List.flatMap_cons, leNat_take_putMessage]
    simp

/-- The count of a batch behind its low half, and the messages, read as an acknowledgement: the
string ends within the bytes only if the first message starts with five zeros. -/
theorem accepts_ack_of_batch {items : List ControlMessagePayload} (hne : items ≠ []) {n : ℕ}
    (hn : n ≤ (leBytes 4 (countHigh items) ++ batchBody items).length) (hmax : n ≤ maxFrameSize) :
    Accepts (getFields 5) ((leBytes 4 (countHigh items) ++ batchBody items).take n) ↔
      countHigh items % 256 ≤ 1 ∧ 9 + countHigh items / 256 ≤ n ∧
        (∃ m, items.head? = some m ∧ StartsWithZeros m) ∧
        ByteArray.IsValidUTF8 ⟨(((batchBody items).drop 5).take (countHigh items / 256)).toArray⟩ := by
  have hhigh : countHigh items / 256 < 256 ^ 3 := by
    unfold countHigh
    omega
  have hbytes : leBytes 4 (countHigh items) ++ batchBody items =
      leBytes 1 (countHigh items) ++ (leBytes 3 (countHigh items / 256) ++ batchBody items) := by
    rw [← List.append_assoc]
    exact congrArg (· ++ batchBody items) (leBytes_add 1 3 (countHigh items))
  rw [accepts_getFields_ack, List.length_take, min_eq_left hn, hbytes, ← leNat_take_batchBody items hne]
  by_cases h9 : 9 ≤ n
  · have hbool : leNat (((leBytes 1 (countHigh items) ++
        (leBytes 3 (countHigh items / 256) ++ batchBody items)).take n).take 1) =
          countHigh items % 256 := by
      rw [List.take_take, min_eq_left (by omega), List.take_left' (length_leBytes ..)]
      exact leNat_leBytes 1 (countHigh items)
    have hlen : leNat ((((leBytes 1 (countHigh items) ++
        (leBytes 3 (countHigh items / 256) ++ batchBody items)).take n).drop 1).take 8) =
          countHigh items / 256 + 256 ^ 3 * leNat ((batchBody items).take 5) := by
      rw [List.drop_take, List.drop_left' (length_leBytes ..), List.take_take,
        min_eq_left (by omega), List.take_append, List.take_of_length_le (by simp), leNat_append,
        length_leBytes, leNat_leBytes, Nat.mod_eq_of_lt hhigh]
    have hdrop : (leBytes 1 (countHigh items) ++
        (leBytes 3 (countHigh items / 256) ++ batchBody items)).drop 9 = (batchBody items).drop 5 := by
      rw [← List.append_assoc, List.drop_append]
      simp
    rw [hbool, hlen, List.drop_take, hdrop, List.take_take]
    unfold maxFrameSize at hmax
    constructor
    · intro ⟨_, hb, hle, hv⟩
      have hzero : leNat ((batchBody items).take 5) = 0 := by omega
      rw [hzero, Nat.mul_zero, Nat.add_zero, min_eq_left (by omega)] at hv
      exact ⟨hb, by omega, hzero, hv⟩
    · intro ⟨hb, hle, hzero, hv⟩
      rw [hzero, Nat.mul_zero, Nat.add_zero, min_eq_left (by omega)]
      exact ⟨h9, hb, by omega, hv⟩
  · constructor
    · intro ⟨h, _⟩
      exact absurd h h9
    · intro ⟨_, h, _⟩
      omega

def batchLength (items : List ControlMessagePayload) : ℕ :=
  (ControlBatchCodec.putBatch items).length % 2 ^ 32

/-- The fields of the message with the given tag fit in `n` bytes. For an acknowledgement the upper
half of the count is a bool with the first bytes of a length, the rest of the length comes from the
first message, and what follows in the messages is the string. -/
def FieldsFit (items : List ControlMessagePayload) (n : ℕ) : ℕ → Prop
  | 0 => 28 ≤ n
  | 1 => 16 ≤ n
  | 2 => 28 ≤ n
  | 3 => 28 ≤ n
  | 4 => 16 ≤ n
  | 5 => countHigh items % 256 ≤ 1 ∧ 13 + countHigh items / 256 ≤ n ∧
      (∃ m, items.head? = some m ∧ StartsWithZeros m) ∧
      ByteArray.IsValidUTF8 ⟨(((batchBody items).drop 5).take (countHigh items / 256)).toArray⟩
  | _ => False

/-- The frame of the batch passes for one message: its length field is within bounds, and the low
half of its count is the tag of a message whose fields fit in that length. -/
def PassesForMessage (items : List ControlMessagePayload) : Prop :=
  batchLength items ≤ maxFrameSize ∧
    FieldsFit items (batchLength items) (items.length % 2 ^ 32)

theorem FieldsFit.le {items : List ControlMessagePayload} {n tag : ℕ} (h : FieldsFit items n tag) :
    13 ≤ n := by
  unfold FieldsFit at h
  split at h
  case h_6 => exact le_trans (Nat.le_add_right 13 _) h.2.1
  case h_7 => exact h.elim
  all_goals omega

theorem readHeader_encode (items : List ControlMessagePayload) :
    readHeader (ControlBatchCodec.encode items []) =
      some (⟨protocolVersion, batchLength items, flagBatch⟩, ControlBatchCodec.putBatch items) :=
  readHeader_putHeader _ flagBatch _

theorem batchLength_le (items : List ControlMessagePayload) :
    batchLength items ≤ (ControlBatchCodec.putBatch items).length := Nat.mod_le _ _

/-- The first `n` bytes of a batch are read as a message: the low half of the count is its tag. -/
theorem accepts_take_batch {items : List ControlMessagePayload} {n : ℕ}
    (hn : n ≤ (ControlBatchCodec.putBatch items).length) :
    Accepts getMessage ((ControlBatchCodec.putBatch items).take n) ↔
      4 ≤ n ∧ Accepts (getFields (items.length % 2 ^ 32))
        ((leBytes 4 (countHigh items) ++ batchBody items).take (n - 4)) := by
  rw [accepts_getMessage_iff, List.length_take, min_eq_left hn, putBatch_eq]
  apply and_congr_right
  intro h4
  rw [List.take_take, min_eq_left h4, List.take_left' (length_leBytes ..), List.drop_take,
    List.drop_left' (length_leBytes ..)]
  have htag : leNat (leBytes 4 items.length) = items.length % 2 ^ 32 := leNat_leBytes 4 items.length
  rw [htag]

theorem accepts_fields_of_batch {items : List ControlMessagePayload} {n : ℕ} (h4 : 4 ≤ n)
    (hn : n ≤ (ControlBatchCodec.putBatch items).length) (hmax : n ≤ maxFrameSize) :
    Accepts (getFields (items.length % 2 ^ 32))
        ((leBytes 4 (countHigh items) ++ batchBody items).take (n - 4)) ↔
      FieldsFit items n (items.length % 2 ^ 32) := by
  rw [putBatch_eq, List.length_append, length_leBytes] at hn
  have hlen : ((leBytes 4 (countHigh items) ++ batchBody items).take (n - 4)).length = n - 4 := by
    rw [List.length_take]
    omega
  have hfixed := accepts_getFields_fixed
    ((leBytes 4 (countHigh items) ++ batchBody items).take (n - 4))
  rw [hlen] at hfixed
  obtain ⟨h0, h1, h2, h3, h4'⟩ := hfixed
  generalize ht : items.length % 2 ^ 32 = tag
  match tag with
  | 0 =>
    rw [h0, FieldsFit]
    omega
  | 1 =>
    rw [h1, FieldsFit]
    omega
  | 2 =>
    rw [h2, FieldsFit]
    omega
  | 3 =>
    rw [h3, FieldsFit]
    omega
  | 4 =>
    rw [h4', FieldsFit]
    omega
  | 5 =>
    have hne : items ≠ [] := by
      intro hnil
      rw [hnil] at ht
      cases ht
    have hroom : 9 + countHigh items / 256 ≤ n - 4 ↔ 13 + countHigh items / 256 ≤ n := by omega
    rw [accepts_ack_of_batch hne (by omega) (by omega), FieldsFit, hroom]
  | tag + 6 =>
    exact iff_of_false (not_accepts_getFields (by omega) _) fun h => h.elim

/-- The payload that the readers cut out of the frame of a batch. -/
theorem accepts_batch_iff {items : List ControlMessagePayload}
    (hmax : batchLength items ≤ maxFrameSize) :
    Accepts getMessage ((ControlBatchCodec.putBatch items).take (batchLength items)) ↔
      PassesForMessage items := by
  have hle := batchLength_le items
  rw [accepts_take_batch hle, PassesForMessage]
  constructor
  · intro ⟨h4, h⟩
    exact ⟨hmax, (accepts_fields_of_batch h4 hle hmax).mp h⟩
  · intro ⟨_, h⟩
    have h4 : 4 ≤ batchLength items := le_trans (by decide) h.le
    exact ⟨h4, (accepts_fields_of_batch h4 hle hmax).mpr h⟩

theorem le_length_putMessage (m : ControlMessagePayload) : 13 ≤ (putMessage m).length := by
  cases m with
  | responseAck success message =>
    simp [putMessage, putString]
    omega
  | _ => simp [putMessage]

theorem le_length_batchBody (items : List ControlMessagePayload) :
    13 * items.length ≤ (batchBody items).length := by
  induction items with
  | nil => exact Nat.zero_le _
  | cons m ms ih =>
    have hm := le_length_putMessage m
    rw [batchBody, List.flatMap_cons, List.length_append, List.length_cons]
    unfold batchBody at ih
    omega

theorem length_putBatch (items : List ControlMessagePayload) :
    (ControlBatchCodec.putBatch items).length = 8 + (batchBody items).length := by
  rw [ControlBatchCodec.putBatch, putVec, List.length_append, length_putU64]
  rfl

theorem length_lt_of_le {items : List ControlMessagePayload}
    (hmax : (ControlBatchCodec.putBatch items).length ≤ maxFrameSize) : items.length < 2 ^ 32 := by
  have hbody := le_length_batchBody items
  rw [length_putBatch, maxFrameSize] at hmax
  omega

/-- The reader of batches has no such trouble: a batch comes back from its frame, and what was
behind it stays in the buffer. -/
theorem ControlBatchCodec.decode_encode {items : List ControlMessagePayload}
    (hmax : (putBatch items).length ≤ maxFrameSize) (rest : List UInt8) :
    decode (encode items [] ++ rest) = (.ok (some items), rest) := by
  have hlen : items.length < 2 ^ 64 := lt_trans (length_lt_of_le hmax) (by decide)
  have hreads : ∀ m ∈ items, Reads getMessage (putMessage m) m := by
    intro m hm
    apply reads_getMessage
    apply fits_of_length
    calc (putMessage m).length ≤ (batchBody items).length :=
          (List.sublist_flatten_of_mem (List.mem_map_of_mem hm)).length_le
      _ ≤ (putBatch items).length := by rw [length_putBatch]; omega
      _ ≤ maxFrameSize := hmax
  have hitems : deserialize getBatch (putBatch items) = .ok items :=
    deserialize_of_reads (reads_getVec hlen hreads)
  have hflag : ¬ flagBatch &&& flagBatch = 0 := by decide
  rw [encode, List.nil_append, List.append_assoc, decode, splitFrame_payload hmax]
  simp only [if_neg hflag, hitems]
  rfl

/-- Among the batches within the size of a frame, those of one to four messages pass for a message,
and those of five whose first message starts with zeros. -/
theorem passesForMessage_iff_of_le {items : List ControlMessagePayload}
    (hmax : (ControlBatchCodec.putBatch items).length ≤ maxFrameSize) :
    PassesForMessage items ↔ 1 ≤ items.length ∧ (items.length ≤ 4 ∨
      items.length = 5 ∧ ∃ m, items.head? = some m ∧ StartsWithZeros m) := by
  have hbody := le_length_batchBody items
  have hcount := length_lt_of_le hmax
  have hn : batchLength items = 8 + (batchBody items).length := by
    rw [batchLength, Nat.mod_eq_of_lt (lt_of_le_of_lt hmax (by decide)), length_putBatch]
  rw [length_putBatch] at hmax
  have hhigh : countHigh items = 0 := by
    rw [countHigh, Nat.div_eq_of_lt hcount, Nat.zero_mod]
  have hnil : items.length = 0 → (batchBody items).length = 0 := by
    intro h
    rw [List.eq_nil_of_length_eq_zero h]
    rfl
  unfold PassesForMessage
  rw [hn, Nat.mod_eq_of_lt hcount]
  generalize items.length = k at *
  match k with
  | 0 =>
    simp [FieldsFit, hnil rfl]
  | 1 | 2 | 3 | 4 =>
    simp only [FieldsFit, Nat.reduceLeDiff, true_or, and_self, iff_true]
    omega
  | 5 =>
    have hempty : ByteArray.IsValidUTF8
        ⟨(((batchBody items).drop 5).take (countHigh items / 256)).toArray⟩ := by
      rw [hhigh]
      exact ByteArray.isValidUTF8_empty
    rw [FieldsFit, hhigh]
    constructor
    · intro ⟨_, _, _, hzeros, _⟩
      exact ⟨by decide, Or.inr ⟨rfl, hzeros⟩⟩
    · intro ⟨_, h⟩
      have hzeros := (h.resolve_left (by decide)).2
      rw [hhigh] at hempty
      exact ⟨by omega, by decide, by omega, hzeros, hempty⟩
  | k + 6 =>
    simp [FieldsFit]

/-- Both readers of single messages refuse the frame of the batch. -/
def Rejected (items : List ControlMessagePayload) : Prop :=
  (∃ e, (ControlCodec.decode (ControlBatchCodec.encode items [])).1 = .error e) ∧
    ∃ e, recvControlMessageTokio (ControlBatchCodec.encode items []) = .error e

theorem exists_map_error {ε α β : Type} (x : Except ε α) (f : α → β) :
    (∃ e, x.map f = .error e) ↔ ∃ e, x = .error e := by
  cases x with
  | ok a => simp [Except.map]
  | error e => simp [Except.map]

theorem decode_batch_error_iff {items : List ControlMessagePayload}
    (hmax : batchLength items ≤ maxFrameSize) :
    (∃ e, (ControlCodec.decode (ControlBatchCodec.encode items [])).1 = .error e) ↔
      ¬ PassesForMessage items := by
  have hplain : flagBatch &&& flagCompressed = 0 := by decide
  have hsplit := splitFrame_putHeader hmax flagBatch (ControlBatchCodec.putBatch items)
  rw [← batchLength, if_neg (Nat.not_lt.mpr (batchLength_le items))] at hsplit
  rw [ControlBatchCodec.encode, List.nil_append, ControlCodec.decode, hsplit]
  rw [exists_map_error, ControlCodec.frameOf, exists_map_error, deserializePayload_of_plain hplain,
    deserialize_error_iff]
  exact not_congr (accepts_batch_iff hmax)

theorem recv_batch_error_iff {items : List ControlMessagePayload}
    (hmax : batchLength items ≤ maxFrameSize) :
    (∃ e, recvControlMessageTokio (ControlBatchCodec.encode items []) = .error e) ↔
      ¬ PassesForMessage items := by
  have hplain : flagBatch &&& flagCompressed = 0 := by decide
  have hle : ¬ (ControlBatchCodec.putBatch items).length < batchLength items :=
    Nat.not_lt.mpr (batchLength_le items)
  rw [recvControlMessageTokio, recvFrom, readHeader_encode]
  simp only [FrameHeader.check_plain, if_neg (Nat.not_lt.mpr hmax), if_neg hle]
  rw [deserializePayload_of_plain hplain, deserialize_error_iff]
  exact not_congr (accepts_batch_iff hmax)

theorem rejected_of_large {items : List ControlMessagePayload}
    (hlarge : maxFrameSize < batchLength items) : Rejected items := by
  have hsplit : splitFrame (ControlBatchCodec.encode items []) =
      (.error (.frameTooLarge (batchLength items)), ControlBatchCodec.encode items []) := by
    rw [splitFrame, readHeader_encode]
    simp only [FrameHeader.check_plain, if_pos hlarge]
  constructor
  · rw [ControlCodec.decode, hsplit]
    exact ⟨_, rfl⟩
  · rw [recvControlMessageTokio, recvFrom, readHeader_encode]
    simp only [FrameHeader.check_plain, if_pos hlarge]
    exact ⟨_, rfl⟩

/-- The frame of a batch is refused by both readers exactly if it does not pass for a message. -/
theorem rejected_iff (items : List ControlMessagePayload) :
    Rejected items ↔ ¬ PassesForMessage items := by
  by_cases hmax : batchLength items ≤ maxFrameSize
  · rw [Rejected, decode_batch_error_iff hmax, recv_batch_error_iff hmax, and_self]
  · have hnot : ¬ PassesForMessage items := fun h => hmax h.1
    exact iff_of_true (rejected_of_large (Nat.not_le.mp hmax)) hnot

/-- A batch of one heartbeat is executed as a deregistration. -/
theorem rejected_fails_on_heartbeat : ¬ ∀ items, Rejected items := by
  intro h
  have hread : recvControlMessageTokio (ControlBatchCodec.encode [.heartbeat 1 2] []) =
      .ok (.regionDeregister 0 0x100000004) := by decide +kernel
  obtain ⟨_, e, he⟩ := h [.heartbeat 1 2]
  rw [hread] at he
  cases he

end Virthub.Klnk.Net
