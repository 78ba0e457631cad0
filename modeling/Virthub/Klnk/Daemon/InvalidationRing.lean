import Virthub.Klnk.Daemon.Invalidation
import Virthub.Lib.Trace

/-! Several remote writers and the poller on one invalidation buffer. Each step of a writer or of
the poller is one access to memory, and the steps may come in any order. -/
namespace Virthub.Klnk.Daemon
open Virthub.Lib

def Field.next : Field → Option Field
  | .valid => some .vaddr
  | .vaddr => some .version
  | .version => some .pageSize
  | .pageSize => none

/-- What a writer does next: load the head, load the tail and compare, claim a slot, or store a
field of its message in the slot that it has claimed. -/
inductive Writer where
  | idle
  | loadHead (m : Invalidation)
  | loadTail (m : Invalidation) (head : UInt64)
  | claim (m : Invalidation) (head tail : UInt64)
  | store (m : Invalidation) (idx : UInt64) (field : Field)
  deriving DecidableEq, Repr

/-- What the poller does next in `process_pending`, which it calls again and again. -/
inductive Poller where
  | loadHead
  | loadTail (head : UInt64)
  | load (tail idx : UInt64) (processed : ℕ) (field : Field) (read : Invalidation)
  | clear (tail idx : UInt64) (processed : ℕ) (field : Field)
  | setHead (idx : UInt64)
  deriving DecidableEq, Repr

inductive RingAnswer where
  | silent
  | claimed (m : Invalidation)
  | delivered (m : Invalidation)
  deriving DecidableEq, Repr

def RingAnswer.claimedMessage : RingAnswer → Option Invalidation
  | .claimed m => some m
  | _ => none

def RingAnswer.deliveredMessage : RingAnswer → Option Invalidation
  | .delivered m => some m
  | _ => none

/-- A writer that finds the buffer full, or loses the slot to another one, gives up; to try again
is to send the message again. -/
def Writer.step (buffer : InvalidationBuffer) :
    Writer → RingAnswer × Writer × InvalidationBuffer
  | .idle => (.silent, .idle, buffer)
  | .loadHead m => (.silent, .loadTail m buffer.head, buffer)
  | .loadTail m head =>
    if buffer.tail - head < UInt64.ofNat numEntries then
      (.silent, .claim m head buffer.tail, buffer)
    else (.silent, .idle, buffer)
  | .claim m _ tail =>
    match buffer.advanceTailAtomic tail (tail + 1) with
    | (.ok _, buffer) => (.claimed m, .store m tail .valid, buffer)
    | (.error _, buffer) => (.silent, .idle, buffer)
  | .store m idx field =>
    (.silent,
      match field.next with
      | some next => .store m idx next
      | none => .idle,
      buffer.store idx field (m.entry field))

def Poller.finish (idx : UInt64) (processed : ℕ) : Poller :=
  if processed > 0 then .setHead idx else .loadHead

def Poller.next (tail idx : UInt64) (processed : ℕ) : Poller :=
  if idx < tail then .load tail idx processed .valid ⟨0, 0, 0⟩ else .finish idx processed

/-- The callback accepts every message. -/
def Poller.step (buffer : InvalidationBuffer) :
    Poller → RingAnswer × Poller × InvalidationBuffer
  | .loadHead => (.silent, .loadTail buffer.head, buffer)
  | .loadTail head => (.silent, .next buffer.tail head 0, buffer)
  | .load tail idx processed .valid read =>
    if buffer.load idx .valid = 0 then (.silent, .finish idx processed, buffer)
    else (.silent, .load tail idx processed .vaddr read, buffer)
  | .load tail idx processed .vaddr read =>
    (.silent, .load tail idx processed .version { read with vaddr := buffer.load idx .vaddr }, buffer)
  | .load tail idx processed .version read =>
    (.silent, .load tail idx processed .pageSize { read with version := buffer.load idx .version },
      buffer)
  | .load tail idx processed .pageSize read =>
    (.delivered { read with pageSize := buffer.load idx .pageSize },
      .clear tail idx processed .valid, buffer)
  | .clear tail idx processed field =>
    (.silent,
      match field.next with
      | some next => .clear tail idx processed next
      | none => .next tail (idx + 1) (processed + 1),
      buffer.store idx field 0)
  | .setHead idx => (.silent, .loadHead, buffer.setHead idx)

structure InvalidationRing (k : ℕ) where
  buffer : InvalidationBuffer
  writers : Fin k → Writer
  poller : Poller

/-- Which party takes the next step. A message is sent by a writer that is idle. -/
inductive RingCall (k : ℕ) where
  | send (w : Fin k) (m : Invalidation)
  | writer (w : Fin k)
  | poll
  deriving DecidableEq, Repr

namespace InvalidationRing
variable {k : ℕ}

def new (k : ℕ) : InvalidationRing k := ⟨.new, fun _ => .idle, .loadHead⟩

def step (self : InvalidationRing k) : RingCall k → RingAnswer × InvalidationRing k
  | .send w m =>
    if self.writers w = .idle then
      (.silent, { self with writers := Function.update self.writers w (.loadHead m) })
    else (.silent, self)
  | .writer w =>
    let (answer, writer, buffer) := Writer.step self.buffer (self.writers w)
    (answer, { self with buffer := buffer, writers := Function.update self.writers w writer })
  | .poll =>
    let (answer, poller, buffer) := Poller.step self.buffer self.poller
    (answer, { self with buffer := buffer, poller := poller })

theorem step_writer {self : InvalidationRing k} {w : Fin k} {answer : RingAnswer} {writer : Writer}
    {buffer : InvalidationBuffer}
    (h : (self.writers w).step self.buffer = (answer, writer, buffer)) :
    self.step (.writer w) =
      (answer,
        { self with buffer := buffer, writers := Function.update self.writers w writer }) := by
  rw [step, h]

theorem step_poll {self : InvalidationRing k} {answer : RingAnswer} {poller : Poller}
    {buffer : InvalidationBuffer} (h : self.poller.step self.buffer = (answer, poller, buffer)) :
    self.step .poll = (answer, { self with buffer := buffer, poller := poller }) := by
  rw [step, h]

end InvalidationRing

abbrev RingEvent (k : ℕ) := Event (InvalidationRing k) (RingCall k) RingAnswer

def claims {k : ℕ} (h : List (RingEvent k)) : List Invalidation :=
  h.filterMap fun e => e.answer.claimedMessage

def deliveries {k : ℕ} (h : List (RingEvent k)) : List Invalidation :=
  h.filterMap fun e => e.answer.deliveredMessage

/-- Every delivery is of a claimed message, of each one at most once, and in the order of the
claims. -/
def DeliversInOrder {k : ℕ} (h : List (RingEvent k)) : Prop :=
  (deliveries h).Sublist (claims h)

section Alone
variable {k : ℕ} {s : InvalidationRing k}

theorem polls_of_valid {tail idx : UInt64} {processed : ℕ}
    (hp : s.poller = .load tail idx processed .valid ⟨0, 0, 0⟩)
    (hvalid : s.buffer.load idx .valid ≠ 0) :
    exec InvalidationRing.step s (List.replicate 8 .poll) =
        { s with
          buffer := s.buffer.writeEntryRaw idx 0 0 0 0
          poller := .next tail (idx + 1) (processed + 1) } ∧
      deliveries (trace InvalidationRing.step s (List.replicate 8 .poll)) =
        [⟨s.buffer.load idx .vaddr, s.buffer.load idx .version, s.buffer.load idx .pageSize⟩] := by
  constructor
  · simp [exec, InvalidationRing.step, Poller.step, hp, hvalid, Field.next,
      InvalidationBuffer.writeEntryRaw]
  · simp [List.replicate, trace, event, deliveries, InvalidationRing.step, Poller.step, hp, hvalid,
      Field.next, RingAnswer.deliveredMessage]

theorem polls_loop {tail idx : UInt64} {accepted : List Invalidation}
    (hp : s.poller = .next tail idx accepted.length) {buffer : InvalidationBuffer} {idx' : UInt64}
    {out : Processed}
    (hloop : s.buffer.processLoop (fun _ _ => true) tail idx accepted = (buffer, idx', out)) :
    ∃ n, exec InvalidationRing.step s (List.replicate n .poll) =
        { s with buffer := buffer, poller := .finish idx' out.processed } ∧
      accepted ++ deliveries (trace InvalidationRing.step s (List.replicate n .poll)) =
        out.accepted := by
  -- on the number of entries in front of the cursor, as the loop itself
  induction hn : tail.toNat - idx.toNat generalizing s idx accepted with
  | zero =>
    have hend : ¬ idx < tail := by
      rw [UInt64.lt_iff_toNat_lt]
      omega
    rw [InvalidationBuffer.processLoop, if_neg hend] at hloop
    cases hloop
    rw [Poller.next, if_neg hend] at hp
    refine ⟨0, ?_, by simp [deliveries]⟩
    rw [Processed.processed, ← hp]
    rfl
  | succ n ih =>
    have hlt : idx < tail := by
      rw [UInt64.lt_iff_toNat_lt]
      omega
    have hsucc := InvalidationBuffer.succ_toNat_of_lt hlt
    rw [Poller.next, if_pos hlt] at hp
    rw [InvalidationBuffer.processLoop, if_pos hlt] at hloop
    simp only [InvalidationBuffer.readEntryRaw] at hloop
    by_cases hvalid : s.buffer.load idx .valid = 0
    · rw [if_pos hvalid] at hloop
      cases hloop
      exact ⟨1, by simp [exec, InvalidationRing.step, Poller.step, hp, hvalid, Processed.processed],
        by simp [trace, event, deliveries, InvalidationRing.step, Poller.step, hp, hvalid,
          RingAnswer.deliveredMessage]⟩
    · rw [if_neg hvalid, if_pos trivial] at hloop
      obtain ⟨hexec, hdel⟩ := polls_of_valid hp hvalid
      -- the loop goes on behind the entry that was accepted
      have hpoller : (exec InvalidationRing.step s (List.replicate 8 .poll)).poller =
          .next tail (idx + 1) (accepted ++ [Invalidation.mk (s.buffer.load idx .vaddr)
            (s.buffer.load idx .version) (s.buffer.load idx .pageSize)]).length := by
        rw [hexec, List.length_append, List.length_singleton]
      have hbuffer : (exec InvalidationRing.step s (List.replicate 8 .poll)).buffer =
          s.buffer.writeEntryRaw idx 0 0 0 0 := by rw [hexec]
      rw [← hbuffer] at hloop
      obtain ⟨n', hexec', hdel'⟩ := ih hpoller hloop (by omega)
      refine ⟨8 + n', ?_, ?_⟩
      · rw [← List.replicate_append_replicate, exec_append, hexec', hexec]
      · unfold deliveries at hdel hdel' ⊢
        rw [← List.replicate_append_replicate, trace_append, List.filterMap_append, ← hdel', hdel,
          List.append_assoc]

/-- A run of the poller alone is a call of `process_pending`. -/
theorem polls_alone (hp : s.poller = .loadHead) :
    ∃ n, exec InvalidationRing.step s (List.replicate n .poll) =
        { s with buffer := (s.buffer.processPending fun _ _ => true).2 } ∧
      deliveries (trace InvalidationRing.step s (List.replicate n .poll)) =
        (s.buffer.processPending fun _ _ => true).1.accepted := by
  have htwo : exec InvalidationRing.step s (List.replicate 2 .poll) =
      { s with poller := .next s.buffer.tail s.buffer.head 0 } := by
    simp [exec, InvalidationRing.step, Poller.step, hp]
  have hsilent : deliveries (trace InvalidationRing.step s (List.replicate 2 .poll)) = [] := by
    simp [List.replicate, trace, event, deliveries, InvalidationRing.step, Poller.step, hp,
      RingAnswer.deliveredMessage]
  have hpoller : (exec InvalidationRing.step s (List.replicate 2 .poll)).poller =
      .next s.buffer.tail s.buffer.head ([] : List Invalidation).length := by rw [htwo]; rfl
  have hbuffer : (exec InvalidationRing.step s (List.replicate 2 .poll)).buffer = s.buffer := by
    rw [htwo]
  rw [InvalidationBuffer.processPending]
  generalize hloop : s.buffer.processLoop (fun _ _ => true) s.buffer.tail s.buffer.head [] = r
  obtain ⟨buffer, idx, out⟩ := r
  have hloop' : (exec InvalidationRing.step s (List.replicate 2 .poll)).buffer.processLoop
      (fun _ _ => true) s.buffer.tail s.buffer.head [] = (buffer, idx, out) := by
    rw [hbuffer]
    exact hloop
  obtain ⟨n, hexec, hdel⟩ := polls_loop hpoller hloop'
  rw [List.nil_append] at hdel
  dsimp only
  by_cases hpos : out.processed > 0
  · rw [if_pos hpos]
    rw [Poller.finish, if_pos hpos, htwo] at hexec
    refine ⟨2 + (n + 1), ?_, ?_⟩
    · rw [← List.replicate_append_replicate, exec_append,
        List.replicate_succ' (n := n), exec_concat, htwo, hexec]
      simp [InvalidationRing.step, Poller.step, hp]
    · unfold deliveries at hsilent hdel ⊢
      rw [← List.replicate_append_replicate, trace_append, List.filterMap_append, hsilent,
        List.replicate_succ' (n := n), trace_concat, List.filterMap_append, hdel, htwo, hexec]
      simp [event, InvalidationRing.step, Poller.step, RingAnswer.deliveredMessage]
  · rw [if_neg hpos]
    rw [Poller.finish, if_neg hpos, htwo] at hexec
    refine ⟨2 + n, ?_, ?_⟩
    · rw [← List.replicate_append_replicate, exec_append, htwo, hexec, ← hp]
    · unfold deliveries at hsilent hdel ⊢
      rw [← List.replicate_append_replicate, trace_append, List.filterMap_append, hsilent, hdel,
        List.nil_append]

/-- The steps of a writer alone, in a ring with room, are a call of `write_entry`. -/
theorem writer_alone {w : Fin k} {m : Invalidation} (hw : s.writers w = .loadHead m)
    (hroom : s.buffer.tail - s.buffer.head < UInt64.ofNat numEntries) :
    exec InvalidationRing.step s (List.replicate 7 (.writer w)) =
        { s with
          buffer := (s.buffer.writeEntry m).2
          writers := Function.update s.writers w .idle } ∧
      claims (trace InvalidationRing.step s (List.replicate 7 (.writer w))) = [m] ∧
      (s.buffer.writeEntry m).1 = true := by
  have hfull : ¬ s.buffer.tail - s.buffer.head ≥ UInt64.ofNat numEntries := UInt64.not_le.mpr hroom
  refine ⟨?_, ?_, ?_⟩
  · simp [exec, InvalidationRing.step, Writer.step, hw, hroom, hfull, Field.next,
      InvalidationBuffer.advanceTailAtomic, InvalidationBuffer.writeEntry,
      InvalidationBuffer.writeEntryRaw, InvalidationBuffer.store, Invalidation.entry]
  · simp [List.replicate, trace, event, claims, InvalidationRing.step, Writer.step, hw, hroom,
      Field.next, InvalidationBuffer.advanceTailAtomic, RingAnswer.claimedMessage]
  · rw [InvalidationBuffer.writeEntry, if_neg hfull]

end Alone

/-- The poller runs when the writer has stored only the first word of its message. -/
theorem deliversInOrder_fails_on_valid_first :
    ¬ ∀ (k : ℕ) (calls : List (RingCall k)),
      DeliversInOrder (trace InvalidationRing.step (.new k) calls) := by
  intro h
  let calls : List (RingCall 1) :=
    .send 0 ⟨0x1000, 1, 4096⟩ :: (List.replicate 4 (.writer 0) ++ List.replicate 6 .poll)
  have hdelivered : deliveries (trace InvalidationRing.step (.new 1) calls) = [⟨0, 0, 0⟩] := by
    decide +kernel
  have hclaimed : claims (trace InvalidationRing.step (.new 1) calls) = [⟨0x1000, 1, 4096⟩] := by
    decide +kernel
  have hsub := h 1 calls
  rw [DeliversInOrder, hdelivered, hclaimed] at hsub
  revert hsub
  decide

end Virthub.Klnk.Daemon
