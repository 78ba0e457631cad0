import Virthub.Klnk.Daemon.Invalidation
import Virthub.Lib.Ring
import Virthub.Lib.Trace

/-! One writer and the poller, each call on its own: the invalidation buffer is a queue of at most
1024 messages. -/
namespace Virthub.Klnk.Daemon
open Virthub.Lib Virthub.Lib.Ring

inductive BufferCall where
  | writeEntry (m : Invalidation)
  | processPending (callback : List Invalidation → Invalidation → Bool)

inductive BufferAnswer where
  | written (ok : Bool)
  | processed (out : Processed)
  deriving DecidableEq, Repr

def bufferStep (self : InvalidationBuffer) : BufferCall → BufferAnswer × InvalidationBuffer
  | .writeEntry m => Prod.map .written id (self.writeEntry m)
  | .processPending callback => Prod.map .processed id (self.processPending callback)

abbrev BufferEvent := Event InvalidationBuffer BufferCall BufferAnswer

/-- The callback on the messages of a queue, after those it has accepted already. -/
def offerTo (callback : List Invalidation → Invalidation → Bool) :
    List Invalidation → List Invalidation → Processed
  | accepted, [] => ⟨accepted, none⟩
  | accepted, m :: ms =>
    if callback accepted m then offerTo callback (accepted ++ [m]) ms else ⟨accepted, some m⟩

/-- The same calls on a queue of messages. -/
def queueStep (queue : List Invalidation) : BufferCall → BufferAnswer × List Invalidation
  | .writeEntry m =>
    if queue.length = numEntries then (.written false, queue) else (.written true, queue ++ [m])
  | .processPending callback =>
    let out := offerTo callback [] queue
    (.processed out, queue.drop out.accepted.length)

namespace InvalidationBuffer

theorem entries_writeEntryRaw (self : InvalidationBuffer)
    (idx valid vaddr version pageSize : UInt64) :
    (self.writeEntryRaw idx valid vaddr version pageSize).entries =
      Function.update self.entries (idx.toNat % numEntries) fun
        | .valid => valid
        | .vaddr => vaddr
        | .version => version
        | .pageSize => pageSize := by
  funext i field
  rw [← slotOf_eq]
  simp only [writeEntryRaw, store, Function.update_idem, Function.update_self]
  by_cases hi : i = slotOf idx
  · rw [hi, Function.update_self, Function.update_self]
    cases field <;> simp
  · rw [Function.update_of_ne hi, Function.update_of_ne hi]

theorem entries_write_message (self : InvalidationBuffer) (idx : UInt64) (m : Invalidation) :
    (self.writeEntryRaw idx 1 m.vaddr m.version m.pageSize).entries =
      Function.update self.entries (idx.toNat % numEntries) m.entry :=
  self.entries_writeEntryRaw idx 1 m.vaddr m.version m.pageSize

/-- The buffer holds the queue between its head and its tail. -/
structure Represents (buffer : InvalidationBuffer) (queue : List Invalidation) : Prop where
  holds : Holds numEntries buffer.entries buffer.head.toNat (queue.map Invalidation.entry)
  tail : buffer.tail.toNat = buffer.head.toNat + queue.length

/-- The entry of the first message of a queue, and the buffer after it was cleared. -/
theorem read_and_clear {self : InvalidationBuffer} {idx : UInt64} {m : Invalidation}
    {ms : List Invalidation}
    (h : Holds numEntries self.entries idx.toNat ((m :: ms).map Invalidation.entry)) :
    self.readEntryRaw idx = (1, m.vaddr, m.version, m.pageSize) ∧
      Holds numEntries (self.writeEntryRaw idx 0 0 0 0).entries (idx.toNat + 1)
        (ms.map Invalidation.entry) := by
  have hentry : self.entries (slotOf idx) = m.entry := by
    rw [slotOf_eq]
    exact h.head
  constructor
  · simp only [readEntryRaw, load, hentry]
    rfl
  · rw [entries_writeEntryRaw]
    exact h.tail _

/-- The loop of `process_pending` has moved `k` messages of the queue on. -/
structure Moved (buffer : InvalidationBuffer) (idx : UInt64) (accepted queue : List Invalidation)
    (k : ℕ) (out : InvalidationBuffer × UInt64 × Processed) : Prop where
  idx : out.2.1.toNat = idx.toNat + k
  processed : out.2.2 = ⟨accepted ++ queue.take k, queue[k]?⟩
  holds : Holds numEntries out.1.entries out.2.1.toNat ((queue.drop k).map Invalidation.entry)
  head : out.1.head = buffer.head
  tail : out.1.tail = buffer.tail

theorem moved_zero {self : InvalidationBuffer} {idx : UInt64} {queue : List Invalidation}
    (h : Holds numEntries self.entries idx.toNat (queue.map Invalidation.entry))
    (accepted : List Invalidation) :
    Moved self idx accepted queue 0 (self, idx, ⟨accepted, queue[0]?⟩) where
  idx := rfl
  processed := by simp
  holds := h
  head := rfl
  tail := rfl

theorem processLoop_moved (callback : List Invalidation → Invalidation → Bool) {tail : UInt64}
    (queue : List Invalidation) {self : InvalidationBuffer} {idx : UInt64}
    (accepted : List Invalidation)
    (h : Holds numEntries self.entries idx.toNat (queue.map Invalidation.entry))
    (ht : tail.toNat = idx.toNat + queue.length) :
    ∃ k ≤ queue.length, Moved self idx accepted queue k (processLoop callback tail self idx accepted) ∧
      offerTo callback accepted queue = ⟨accepted ++ queue.take k, queue[k]?⟩ := by
  induction queue generalizing self idx accepted with
  | nil =>
    have hend : ¬ idx < tail := by
      rw [UInt64.lt_iff_toNat_lt, ht]
      simp
    refine ⟨0, le_refl 0, ?_, by simp [offerTo]⟩
    rw [processLoop, if_neg hend]
    exact moved_zero h accepted
  | cons m ms ih =>
    have hlt : idx < tail := by
      rw [UInt64.lt_iff_toNat_lt, ht, List.length_cons]
      omega
    have hsucc := succ_toNat_of_lt hlt
    obtain ⟨hread, hclear⟩ := read_and_clear h
    rw [processLoop, if_pos hlt, hread, offerTo]
    dsimp only
    rw [if_neg (by decide)]
    by_cases hcb : callback accepted m = true
    · rw [if_pos hcb, if_pos hcb]
      rw [← hsucc] at hclear
      obtain ⟨k, hk, hmoved, hoffer⟩ := ih (accepted ++ [m]) hclear (by
        rw [hsucc, ht, List.length_cons]
        omega)
      refine ⟨k + 1, by simpa using hk, ⟨?_, ?_, hmoved.holds, hmoved.head, hmoved.tail⟩, ?_⟩
      · rw [hmoved.idx, hsucc]
        omega
      · rw [hmoved.processed]
        simp
      · rw [hoffer]
        simp
    · rw [if_neg hcb, if_neg hcb]
      exact ⟨0, Nat.zero_le _, moved_zero h accepted, by simp⟩

variable {self : InvalidationBuffer} {queue : List Invalidation}

theorem Represents.processPending (h : self.Represents queue)
    (callback : List Invalidation → Invalidation → Bool) :
    (self.processPending callback).1 = offerTo callback [] queue ∧
      (self.processPending callback).2.Represents
        (queue.drop (offerTo callback [] queue).accepted.length) ∧
      (self.processPending callback).2.tail = self.tail := by
  obtain ⟨k, hk, hmoved, hoffer⟩ := processLoop_moved callback queue [] h.holds h.tail
  have htake : (queue.take k).length = k := by
    rw [List.length_take, min_eq_left hk]
  rw [InvalidationBuffer.processPending, hoffer]
  generalize processLoop callback self.tail self self.head [] = out at hmoved
  obtain ⟨buffer, idx, out⟩ := out
  obtain ⟨hidx, hproc, hholds, hhead, htail⟩ := hmoved
  dsimp only at hidx hproc hholds hhead htail ⊢
  rw [List.nil_append] at hproc ⊢
  have hlen := h.tail
  refine ⟨hproc, ?_, ?_⟩
  · rw [hproc, htake]
    by_cases hzero : k = 0
    · -- nothing was accepted, and the head stays
      have hsame : idx.toNat = buffer.head.toNat := by
        rw [hidx, hzero, hhead, Nat.add_zero]
      rw [if_neg (by simp [Processed.processed, hzero])]
      refine ⟨hsame ▸ hholds, ?_⟩
      rw [htail, hlen, hhead, hzero, List.drop_zero]
    · rw [if_pos (by simp only [Processed.processed, htake]; omega)]
      refine ⟨hholds, ?_⟩
      have hidx' : (buffer.setHead idx).head.toNat = self.head.toNat + k := hidx
      have htail' : (buffer.setHead idx).tail = self.tail := htail
      rw [hidx', htail', hlen, List.length_drop]
      omega
  · split_ifs
    · exact htail
    · exact htail

theorem Represents.toNat_sub (h : self.Represents queue) :
    (self.tail - self.head).toNat = queue.length := by
  have hlen := h.tail
  have hle : self.head ≤ self.tail := by
    rw [UInt64.le_iff_toNat_le]
    omega
  rw [UInt64.toNat_sub_of_le _ _ hle, hlen, Nat.add_sub_cancel_left]

theorem Represents.length_le (h : self.Represents queue) : queue.length ≤ numEntries := by
  have hfits := h.holds.fits
  rwa [List.length_map] at hfits

theorem Represents.full_iff (h : self.Represents queue) :
    self.tail - self.head ≥ UInt64.ofNat numEntries ↔ queue.length = numEntries := by
  have hle := h.length_le
  have hnum : (UInt64.ofNat numEntries).toNat = numEntries := rfl
  rw [ge_iff_le, UInt64.le_iff_toNat_le, h.toNat_sub, hnum]
  omega

theorem Represents.writeEntry (h : self.Represents queue) (m : Invalidation)
    (hroom : self.tail.toNat + 1 < 2 ^ 64) (hlen : queue.length ≠ numEntries) :
    (self.writeEntry m).1 = true ∧ (self.writeEntry m).2.Represents (queue ++ [m]) ∧
      (self.writeEntry m).2.tail.toNat = self.tail.toNat + 1 := by
  have hsucc : (self.tail + 1).toNat = self.tail.toNat + 1 := by
    rw [UInt64.toNat_add, UInt64.toNat_one, Nat.mod_eq_of_lt hroom]
  rw [InvalidationBuffer.writeEntry, if_neg (mt h.full_iff.mp hlen)]
  refine ⟨rfl, ⟨?_, ?_⟩, hsucc⟩
  · have hlt : (queue.map Invalidation.entry).length < numEntries := by
      rw [List.length_map]
      exact lt_of_le_of_ne h.length_le hlen
    have hpush := h.holds.push hlt m.entry
    rw [List.length_map, ← h.tail, ← entries_write_message] at hpush
    rw [List.map_append]
    exact hpush
  · have htail := h.tail
    dsimp only
    rw [hsucc, List.length_append, List.length_singleton]
    exact congrArg (· + 1) htail

theorem represents_new : new.Represents [] := ⟨holds_nil _ _, rfl⟩

end InvalidationBuffer

/-- The call is a write. -/
def BufferCall.isWrite : BufferCall → Bool
  | .writeEntry _ => true
  | .processPending _ => false

/-- The buffer answers as the queue does, and goes on representing it. A write moves the tail by
one at most. -/
theorem InvalidationBuffer.Represents.step {self : InvalidationBuffer} {queue : List Invalidation}
    (h : self.Represents queue) (c : BufferCall)
    (hroom : c.isWrite = true → self.tail.toNat + 1 < 2 ^ 64) :
    (bufferStep self c).1 = (queueStep queue c).1 ∧
      (bufferStep self c).2.Represents (queueStep queue c).2 ∧
      (bufferStep self c).2.tail.toNat ≤ self.tail.toNat + c.isWrite.toNat := by
  cases c with
  | writeEntry m =>
    by_cases hfull : queue.length = numEntries
    · have hnot := h.full_iff.mpr hfull
      simp only [bufferStep, queueStep, InvalidationBuffer.writeEntry, if_pos hfull, if_pos hnot]
      exact ⟨rfl, h, Nat.le_add_right _ _⟩
    · obtain ⟨hok, hrep, htail⟩ := h.writeEntry m (hroom rfl) hfull
      simp only [bufferStep, queueStep, if_neg hfull, Prod.map_fst, Prod.map_snd, hok]
      exact ⟨trivial, hrep, htail.le⟩
  | processPending callback =>
    obtain ⟨hout, hrep, htail⟩ := h.processPending callback
    simp only [bufferStep, queueStep, Prod.map_fst, Prod.map_snd, hout]
    exact ⟨trivial, hrep, (congrArg UInt64.toNat htail).le⟩

/-- The message that the event wrote. -/
def writtenBy (e : BufferEvent) : List Invalidation :=
  match e.call, e.answer with
  | .writeEntry m, .written true => [m]
  | _, _ => []

/-- The messages that were accepted in the event. -/
def acceptedBy (e : BufferEvent) : List Invalidation :=
  match e.answer with
  | .processed out => out.accepted
  | _ => []

/-- The messages for which `write_entry` returned true. -/
def written (h : List BufferEvent) : List Invalidation := h.flatMap writtenBy

/-- The messages that the callbacks accepted. -/
def accepted (h : List BufferEvent) : List Invalidation := h.flatMap acceptedBy

/-- The number of messages that were written and not accepted. -/
def undelivered (h : List BufferEvent) : ℕ := (written h).length - (accepted h).length

def writes (h : List BufferEvent) : ℕ := h.countP fun e => e.call.isWrite

/-- The message that was rejected in the event. -/
def rejectedBy (e : BufferEvent) : Option Invalidation :=
  match e.answer with
  | .processed out => out.rejected
  | _ => none

/-- A message that was rejected, with only writes since then, is in front of the queue. -/
def RejectedFirst (h : List BufferEvent) (queue : List Invalidation) : Prop :=
  ∀ past e mid m, h = past ++ e :: mid → rejectedBy e = some m →
    (∀ g ∈ mid, g.call.isWrite = true) → queue.head? = some m

theorem offerTo_spec (callback : List Invalidation → Invalidation → Bool)
    (past queue : List Invalidation) :
    ∃ k ≤ queue.length, offerTo callback past queue = ⟨past ++ queue.take k, queue[k]?⟩ := by
  induction queue generalizing past with
  | nil => exact ⟨0, le_refl 0, by simp [offerTo]⟩
  | cons m ms ih =>
    rw [offerTo]
    split_ifs
    · obtain ⟨k, hk, hoffer⟩ := ih (past ++ [m])
      exact ⟨k + 1, by simpa using hk, by simp [hoffer]⟩
    · exact ⟨0, Nat.zero_le _, by simp⟩

section Queue
variable {queue : List Invalidation} {c : BufferCall} {e : BufferEvent}

/-- What was in the queue or is written has been accepted or is in the queue. -/
theorem queueStep_conserves (hc : e.call = c) (ha : e.answer = (queueStep queue c).1) :
    queue ++ writtenBy e = acceptedBy e ++ (queueStep queue c).2 := by
  unfold writtenBy acceptedBy
  rw [hc, ha]
  cases c with
  | writeEntry m =>
    rw [queueStep]
    split_ifs
    · simp
    · simp
  | processPending callback =>
    obtain ⟨k, hk, hoffer⟩ := offerTo_spec callback [] queue
    simp [queueStep, hoffer, hk]

/-- What a rejection leaves in front of the queue. -/
theorem head_queueStep_of_rejected (ha : e.answer = (queueStep queue c).1) {m : Invalidation}
    (hm : rejectedBy e = some m) : (queueStep queue c).2.head? = some m := by
  unfold rejectedBy at hm
  rw [ha] at hm
  cases c with
  | writeEntry m' =>
    rw [queueStep] at hm
    split_ifs at hm
  | processPending callback =>
    obtain ⟨k, hk, hoffer⟩ := offerTo_spec callback [] queue
    rw [queueStep, hoffer] at hm ⊢
    dsimp only at hm ⊢
    rw [List.nil_append, List.length_take, min_eq_left hk, List.head?_drop]
    exact hm

theorem head_queueStep_of_isWrite (hw : c.isWrite = true) {m : Invalidation}
    (hm : queue.head? = some m) : (queueStep queue c).2.head? = some m := by
  cases c with
  | writeEntry m' =>
    rw [queueStep]
    split_ifs
    · exact hm
    · dsimp only
      rw [List.head?_append, hm, Option.some_or]
  | processPending callback => cases hw

theorem RejectedFirst.step {h : List BufferEvent} (hf : RejectedFirst h queue) (hc : e.call = c)
    (ha : e.answer = (queueStep queue c).1) : RejectedFirst (h ++ [e]) (queueStep queue c).2 := by
  intro past x mid m heq hx hmid
  rcases concat_eq_split.mp heq with ⟨-, rfl, -⟩ | ⟨mid', rfl, hh⟩
  · exact head_queueStep_of_rejected ha hx
  · have hw : c.isWrite = true := hc ▸ hmid e (by simp)
    have hfirst := hf past x mid' m hh hx fun g hg => hmid g (by simp [hg])
    exact head_queueStep_of_isWrite hw hfirst

end Queue

/-- The buffer stands for the queue of the messages that were written and not accepted. -/
structure FifoInv (h : List BufferEvent) (s : InvalidationBuffer) (queue : List Invalidation) :
    Prop where
  represents : s.Represents queue
  written : written h = accepted h ++ queue
  tail : s.tail.toNat ≤ writes h
  first : RejectedFirst h queue

theorem FifoInv.undelivered {h : List BufferEvent} {s : InvalidationBuffer}
    {queue : List Invalidation} (hi : FifoInv h s queue) : undelivered h = queue.length := by
  rw [Daemon.undelivered, hi.written, List.length_append, Nat.add_sub_cancel_left]

theorem FifoInv.step {h : List BufferEvent} {s : InvalidationBuffer} {queue : List Invalidation}
    (hi : FifoInv h s queue) (c : BufferCall) (hroom : c.isWrite = true → writes h + 1 < 2 ^ 64) :
    FifoInv (h ++ [event bufferStep s c]) (bufferStep s c).2 (queueStep queue c).2 := by
  have htail := hi.tail
  obtain ⟨hans, hrep, hmove⟩ := hi.represents.step c fun hw => by
    have hlt := hroom hw
    omega
  refine ⟨hrep, ?_, ?_, hi.first.step rfl hans⟩
  · have hcons : queue ++ writtenBy (event bufferStep s c) =
        acceptedBy (event bufferStep s c) ++ (queueStep queue c).2 := queueStep_conserves rfl hans
    rw [Daemon.written, Daemon.accepted, List.flatMap_append, List.flatMap_append,
      List.flatMap_singleton, List.flatMap_singleton, List.append_assoc, ← hcons,
      ← List.append_assoc]
    exact congrArg (· ++ _) hi.written
  · have hcount : writes (h ++ [event bufferStep s c]) = writes h + c.isWrite.toNat := by
      rw [writes, List.countP_append, List.countP_singleton]
      cases hw : c.isWrite
      · simp [event, hw, writes]
      · simp [event, hw, writes]
    omega

/-- What a call on the buffer does, after the history `past`. -/
structure FifoEvent (past : List BufferEvent) (f : BufferEvent) : Prop where
  full : ∀ m, f.call = .writeEntry m → (f.answer = .written false ↔ undelivered past = numEntries)
  /-- A message that was rejected in the call before, but for writes, is offered first. -/
  again : ∀ out, f.answer = .processed out → ∀ past' e mid m, past = past' ++ e :: mid →
    rejectedBy e = some m → (∀ g ∈ mid, g.call.isWrite = true) → out.offered.head? = some m

theorem head_offerTo (callback : List Invalidation → Invalidation → Bool)
    (queue : List Invalidation) : (offerTo callback [] queue).offered.head? = queue.head? := by
  obtain ⟨k, hk, hoffer⟩ := offerTo_spec callback [] queue
  rw [hoffer, Processed.offered]
  cases queue with
  | nil => simp
  | cons m ms =>
    cases k with
    | zero => simp
    | succ k => simp

theorem FifoInv.event {h : List BufferEvent} {s : InvalidationBuffer} {queue : List Invalidation}
    (hi : FifoInv h s queue) (c : BufferCall) (hroom : c.isWrite = true → writes h + 1 < 2 ^ 64) :
    FifoEvent h (event bufferStep s c) := by
  have htail := hi.tail
  obtain ⟨hans, -, -⟩ := hi.represents.step c fun hw => by
    have hlt := hroom hw
    omega
  constructor
  · intro m hcall
    obtain rfl : c = .writeEntry m := hcall
    rw [hi.undelivered]
    change (bufferStep s (.writeEntry m)).1 = _ ↔ _
    rw [hans, queueStep]
    split_ifs with hfull
    · simp [hfull]
    · simp [hfull]
  · intro out hout past' e mid m hpast he hmid
    have hfirst := hi.first past' e mid m hpast he hmid
    change (bufferStep s c).1 = _ at hout
    rw [hans] at hout
    cases c with
    | writeEntry m' =>
      rw [queueStep] at hout
      split_ifs at hout
    | processPending callback =>
      obtain rfl : offerTo callback [] queue = out := by simpa [queueStep] using hout
      rw [head_offerTo, hfirst]

/-- Along a run the buffer is a bounded queue. -/
structure BoundedFifo (h : List BufferEvent) (s : InvalidationBuffer) : Prop where
  order : accepted h <+: written h
  length : (s.tail - s.head).toNat = undelivered h
  bound : undelivered h ≤ numEntries
  event : ∀ past f rest, h = past ++ f :: rest → FifoEvent past f

/-- With fewer than 2^64 writes, the buffer is a bounded queue for one writer. -/
theorem boundedFifo (calls : List BufferCall) (hcalls : calls.countP BufferCall.isWrite < 2 ^ 64) :
    BoundedFifo (trace bufferStep .new calls) (exec bufferStep .new calls) := by
  have hinit : FifoInv [] .new [] :=
    ⟨InvalidationBuffer.represents_new, rfl, Nat.zero_le _, by intro past e mid m h; simp at h⟩
  have hrun := history_forall (C := fun h _ c => c.isWrite = true → writes h + 1 < 2 ^ 64)
    (P := fun h s => ∃ queue, FifoInv h s queue) (Q := FifoEvent) ⟨[], hinit⟩
    (fun h s c ⟨queue, hi⟩ hroom => ⟨⟨_, hi.step c hroom⟩, hi.event c hroom⟩) calls ?_
  · obtain ⟨⟨queue, hi⟩, hevents⟩ := hrun
    have hlen := hi.undelivered
    refine ⟨⟨queue, hi.written.symm⟩, ?_, ?_, hevents⟩
    · rw [hi.represents.toNat_sub, hlen]
    · rw [hlen]
      exact hi.represents.length_le
  · intro as c bs heq hw
    have hcount : writes (trace bufferStep .new as) = as.countP BufferCall.isWrite := by
      have hmap := map_call_trace bufferStep .new as
      rw [writes, ← hmap, List.countP_map, hmap]
      rfl
    rw [heq, List.countP_append, List.countP_cons_of_pos hw] at hcalls
    rw [hcount]
    omega

/-- Two messages, the first rejected once, then both accepted. -/
theorem boundedFifo_rejected :
    BoundedFifo
      (trace bufferStep .new [.writeEntry ⟨0x1000, 1, 4096⟩, .writeEntry ⟨0x2000, 1, 4096⟩,
        .processPending fun _ _ => false, .processPending fun _ _ => true])
      (exec bufferStep .new [.writeEntry ⟨0x1000, 1, 4096⟩, .writeEntry ⟨0x2000, 1, 4096⟩,
        .processPending fun _ _ => false, .processPending fun _ _ => true]) :=
  boundedFifo _ (by decide)

end Virthub.Klnk.Daemon
