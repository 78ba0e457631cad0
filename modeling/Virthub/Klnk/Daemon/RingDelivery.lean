import Virthub.Klnk.Daemon.RingSlots
import Virthub.Lib.TaskSum

/-! The order of deliveries in the invalidation ring. A writer stores the valid word of its entry
first, so the poller may take an entry that is not yet written. As long as it does not look at an
entry that a writer is in the middle of, messages are delivered in the order of their claims. -/
namespace Virthub.Klnk.Daemon
open Virthub.Lib

/-- The writer is between its first and its last store in the slot of `idx`. -/
def Writer.InMiddleOf (idx : UInt64) : Writer → Prop
  | .store _ idx' field => slotOf idx' = slotOf idx ∧ field ≠ .valid
  | _ => False

instance (idx : UInt64) : (w : Writer) → Decidable (w.InMiddleOf idx)
  | .store _ _ _ => inferInstanceAs (Decidable (_ ∧ _))
  | .idle => .isFalse id
  | .loadHead _ => .isFalse id
  | .loadTail _ _ => .isFalse id
  | .claim _ _ _ => .isFalse id

namespace InvalidationRing
variable {k : ℕ}

/-- The poller does not look at an entry that a writer is in the middle of, and no writer claims
with a head that it loaded 2^64 - 1024 deliveries ago or more. -/
def KeepsOrder (self : InvalidationRing k) : RingCall k → Prop
  | .send _ _ => True
  | .writer w =>
    match self.writers w with
    | .claim _ head _ => (self.buffer.head - head).toNat < 2 ^ 64 - numEntries
    | _ => True
  | .poll =>
    match self.poller with
    | .load _ idx _ .valid _ => ∀ w, ¬ (self.writers w).InMiddleOf idx
    | _ => True

instance (self : InvalidationRing k) : (c : RingCall k) → Decidable (self.KeepsOrder c)
  | .send _ _ => .isTrue trivial
  | .writer w => by
    unfold KeepsOrder
    dsimp only
    split <;> infer_instance
  | .poll => by
    unfold KeepsOrder
    dsimp only
    split <;> infer_instance

theorem KeepsOrder.claim {self : InvalidationRing k} {w : Fin k} (h : self.KeepsOrder (.writer w))
    {m : Invalidation} {head tail : UInt64} (hw : self.writers w = .claim m head tail) :
    (self.buffer.head - head).toNat < 2 ^ 64 - numEntries := by
  rw [KeepsOrder, hw] at h
  exact h

theorem KeepsOrder.load {self : InvalidationRing k} (h : self.KeepsOrder .poll)
    {tail idx : UInt64} {processed : ℕ} {read : Invalidation}
    (hp : self.poller = .load tail idx processed .valid read) :
    ∀ w, ¬ (self.writers w).InMiddleOf idx := by
  rw [KeepsOrder, hp] at h
  exact h

end InvalidationRing

/-- The head that a writer has loaded is not ahead of the buffer's, and it saw room for a claim. -/
def Writer.Inv (head : UInt64) : Writer → Prop
  | .loadTail _ head' => head' ≤ head
  | .claim _ head' tail => head' ≤ head ∧ (tail - head').toNat < numEntries
  | _ => True

/-- The poller has cleared nothing of the entry that it delivered. -/
def Poller.Uncleared : Poller → Prop
  | .clear _ _ _ .valid => True
  | _ => False

/-- The poller has seen that the next entry is valid. -/
def Poller.Verified : Poller → Prop
  | .load _ _ _ .valid _ => False
  | .load _ _ _ _ _ => True
  | _ => False

/-- The fields before the given one have been read. -/
def ReadUpTo (m read : Invalidation) : Field → Prop
  | .valid => True
  | .vaddr => True
  | .version => read.vaddr = m.vaddr
  | .pageSize => read.vaddr = m.vaddr ∧ read.version = m.version

/-- Where the poller stands when the messages `cs` have been claimed and `d` of them delivered. -/
def Poller.Inv (head : UInt64) (cs : List Invalidation) (d : ℕ) : Poller → Prop
  | .loadHead => head.toNat = d
  | .loadTail head' => head' = head ∧ head.toNat = d
  | .load tail idx processed field read =>
    idx.toNat = d ∧ idx < tail ∧ tail.toNat ≤ cs.length ∧ head.toNat + processed = d ∧
      ∀ m, cs[d]? = some m → ReadUpTo m read field
  | .clear tail idx processed _ =>
    idx.toNat + 1 = d ∧ idx < tail ∧ tail.toNat ≤ cs.length ∧ head.toNat + processed + 1 = d
  | .setHead idx => idx.toNat = d

structure RingInv {k : ℕ} (cs ds : List Invalidation) (s : InvalidationRing k) : Prop where
  slots : Slots s.buffer.entries (fun w => (s.writers w).storing) cs s.buffer.head.toNat ds.length
    s.poller.Uncleared s.poller.Verified
  delivered : ds <+: cs
  tail : At s.buffer.tail cs.length
  writers : ∀ w, (s.writers w).Inv s.buffer.head
  poller : s.poller.Inv s.buffer.head cs ds.length

section Step
variable {k : ℕ} {cs ds : List Invalidation} {s : InvalidationRing k}

theorem storing_update (writers : Fin k → Writer) (w : Fin k) (x : Writer) :
    (fun w' => (Function.update writers w x w').storing) =
      Function.update (fun w' => (writers w').storing) w x.storing := by
  funext w'
  by_cases hw : w' = w
  · rw [hw, Function.update_self, Function.update_self]
  · rw [Function.update_of_ne hw, Function.update_of_ne hw]

theorem inv_update {head : UInt64} {writers : Fin k → Writer} (h : ∀ w, (writers w).Inv head)
    (w : Fin k) {x : Writer} (hx : x.Inv head) : ∀ w', (Function.update writers w x w').Inv head := by
  intro w'
  by_cases hw : w' = w
  · rw [hw, Function.update_self]
    exact hx
  · rw [Function.update_of_ne hw]
    exact h w'

/-- A step of a writer that stores nothing and claims nothing. -/
theorem RingInv.quiet (h : RingInv cs ds s) {w : Fin k} (hw : (s.writers w).storing = none)
    {x : Writer} (hx : x.storing = none) (hinv : x.Inv s.buffer.head) :
    RingInv cs ds { s with writers := Function.update s.writers w x } := by
  refine ⟨?_, h.delivered, h.tail, inv_update h.writers w hinv, h.poller⟩
  have hsame : (fun w' => (Function.update s.writers w x w').storing) =
      fun w' => (s.writers w').storing := by
    rw [storing_update, hx, ← hw, Function.update_eq_self]
  dsimp only
  rw [hsame]
  exact h.slots

/-- The check that a writer made before its claim still counts. -/
theorem RingInv.room (h : RingInv cs ds s) {w : Fin k} {m : Invalidation} {head tail : UInt64}
    (hw : s.writers w = .claim m head tail) (htail : s.buffer.tail = tail)
    (hold : (s.buffer.head - head).toNat < 2 ^ 64 - numEntries) :
    cs.length < s.buffer.head.toNat + numEntries := by
  have hinv := h.writers w
  rw [hw] at hinv
  obtain ⟨hle, hroom⟩ := hinv
  have hwin := h.slots.window
  have hhead := h.slots.head_le
  have hlen := h.slots.le_length
  have hat := h.tail
  rw [At, htail] at hat
  have hle' := UInt64.le_iff_toNat_le.mp hle
  rw [UInt64.toNat_sub_of_le _ _ hle] at hold
  rw [UInt64.toNat_sub, hat] at hroom
  have hlt := s.buffer.head.toNat_lt
  unfold numEntries at *
  omega

theorem Poller.Inv.claim {head : UInt64} {d : ℕ} {p : Poller} (h : p.Inv head cs d)
    (m : Invalidation) : p.Inv head (cs ++ [m]) d := by
  cases p with
  | load tail idx processed field read =>
    obtain ⟨hidx, hlt, htail, hproc, hread⟩ := h
    have hlt' := UInt64.lt_iff_toNat_lt.mp hlt
    refine ⟨hidx, hlt, ?_, hproc, fun m' hm => hread m' ?_⟩
    · rw [List.length_append]
      omega
    · rwa [List.getElem?_append_left (by omega)] at hm
  | clear tail idx processed field =>
    obtain ⟨hidx, hlt, htail, hproc⟩ := h
    refine ⟨hidx, hlt, ?_, hproc⟩
    rw [List.length_append]
    omega
  | loadHead => exact h
  | loadTail head' => exact h
  | setHead idx => exact h

theorem RingInv.claim (h : RingInv cs ds s) {w : Fin k} {m : Invalidation} {head tail : UInt64}
    (hw : s.writers w = .claim m head tail) (htail : s.buffer.tail = tail)
    (hold : (s.buffer.head - head).toNat < 2 ^ 64 - numEntries) :
    RingInv (cs ++ [m]) ds
      { s with
        buffer := { s.buffer with tail := tail + 1 }
        writers := Function.update s.writers w (.store m tail .valid) } := by
  have hat := h.tail
  rw [htail] at hat
  have hnone : (s.writers w).storing = none := by rw [hw]; rfl
  refine ⟨?_, h.delivered.trans (List.prefix_append cs [m]), ?_, inv_update h.writers w trivial,
    h.poller.claim m⟩
  · dsimp only
    rw [storing_update]
    exact h.slots.claim (h.room hw htail hold) hnone hat m
  · change (tail + 1).toNat = (cs ++ [m]).length % 2 ^ 64
    rw [UInt64.toNat_add, hat, UInt64.toNat_one, List.length_append, List.length_singleton,
      Nat.mod_add_mod]

theorem RingInv.store (h : RingInv cs ds s) {w : Fin k} {m : Invalidation} {idx : UInt64}
    {field : Field} (hw : s.writers w = .store m idx field) {x : Writer}
    (hx : x.storing = field.next.map fun next => ⟨m, idx, next⟩) (hinv : x.Inv s.buffer.head) :
    RingInv cs ds
      { s with
        buffer := s.buffer.store idx field (m.entry field)
        writers := Function.update s.writers w x } := by
  have hsome : (s.writers w).storing = some ⟨m, idx, field⟩ := by rw [hw]; rfl
  refine ⟨?_, h.delivered, h.tail, inv_update h.writers w hinv, h.poller⟩
  dsimp only
  rw [storing_update, hx]
  exact h.slots.store hsome

theorem at_of_toNat {idx : UInt64} {d : ℕ} (h : idx.toNat = d) : At idx d := by
  rw [At, ← h, Nat.mod_eq_of_lt idx.toNat_lt]

theorem Poller.not_verified_finish (idx : UInt64) (processed : ℕ) :
    ¬ (Poller.finish idx processed).Verified := by
  unfold Poller.finish
  split_ifs
  all_goals exact id

theorem Poller.inv_finish {head idx : UInt64} {d processed : ℕ} (hidx : idx.toNat = d)
    (hproc : head.toNat + processed = d) : (Poller.finish idx processed).Inv head cs d := by
  unfold Poller.finish
  split_ifs with hpos
  · exact hidx
  · change head.toNat = d
    omega

theorem Poller.not_verified_next (tail idx : UInt64) (processed : ℕ) :
    ¬ (Poller.next tail idx processed).Verified := by
  unfold Poller.next
  split_ifs
  · exact id
  · exact Poller.not_verified_finish idx processed

theorem Poller.inv_next {head tail idx : UInt64} {d processed : ℕ} (hidx : idx.toNat = d)
    (htail : tail.toNat ≤ cs.length) (hproc : head.toNat + processed = d) :
    (Poller.next tail idx processed).Inv head cs d := by
  unfold Poller.next
  split_ifs with hlt
  · exact ⟨hidx, hlt, htail, hproc, fun _ _ => trivial⟩
  · exact Poller.inv_finish hidx hproc

/-- A step of the poller that leaves the buffer as it is and delivers nothing. -/
theorem RingInv.look (h : RingInv cs ds s) {p : Poller} (hu : ¬ s.poller.Uncleared)
    (hv : p.Verified → s.poller.Verified) (hp : p.Inv s.buffer.head cs ds.length) :
    RingInv cs ds { s with poller := p } :=
  ⟨h.slots.imp (fun hu' => absurd hu' hu) hv, h.delivered, h.tail, h.writers, hp⟩

section Load
variable {tail idx : UInt64} {processed : ℕ} {read : Invalidation}

/-- The entry that the poller reads, once it has seen that it is valid. -/
theorem RingInv.entry (h : RingInv cs ds s) {field : Field}
    (hp : s.poller = .load tail idx processed field read) (hv : s.poller.Verified) :
    ∃ m, cs[ds.length]? = some m ∧ (∀ f, s.buffer.load idx f = m.entry f) ∧
      ReadUpTo m read field := by
  have hpoller := h.poller
  rw [hp] at hpoller
  obtain ⟨hidx, -, -, -, hread⟩ := hpoller
  obtain ⟨m, hm, hfull⟩ := h.slots.full hv
  refine ⟨m, hm, fun f => ?_, hread m hm⟩
  rw [InvalidationBuffer.load, (at_of_toNat hidx).slot, hfull.entry]

theorem RingInv.verify (h : RingInv cs ds s)
    (hp : s.poller = .load tail idx processed .valid read)
    (hmid : ∀ w, ¬ (s.writers w).InMiddleOf idx) (hvalid : s.buffer.load idx .valid ≠ 0) :
    RingInv cs ds { s with poller := .load tail idx processed .vaddr read } := by
  have hpoller := h.poller
  rw [hp] at hpoller
  obtain ⟨hidx, hlt, htail, hproc, -⟩ := hpoller
  have hlt' := UInt64.lt_iff_toNat_lt.mp hlt
  have hat := at_of_toNat hidx
  have hu : s.poller.Uncleared → False := by
    rw [hp]
    exact id
  refine ⟨?_, h.delivered, h.tail, h.writers, hidx, hlt, htail, hproc, fun _ _ => trivial⟩
  refine (h.slots.verify (by omega) ?_ ?_).imp hu id
  · rw [InvalidationBuffer.load, hat.slot] at hvalid
    exact hvalid
  · intro w x hx hatx
    have hnot := hmid w
    cases hw : s.writers w with
    | store m idx' field =>
      rw [hw] at hx hnot
      obtain rfl : x = ⟨m, idx', field⟩ := (Option.some.inj hx).symm
      by_contra hfield
      exact hnot ⟨hatx.slot.trans hat.slot.symm, hfield⟩
    | _ =>
      rw [hw] at hx
      cases hx

/-- The callback is given the next claimed message. -/
theorem RingInv.deliver (h : RingInv cs ds s)
    (hp : s.poller = .load tail idx processed .pageSize read) :
    RingInv cs (ds ++ [{ read with pageSize := s.buffer.load idx .pageSize }])
      { s with poller := .clear tail idx processed .valid } := by
  have hslots := h.slots
  have hpoller := h.poller
  obtain ⟨m, hm, hload, hvaddr, hversion⟩ := h.entry hp (by rw [hp]; trivial)
  rw [hp] at hpoller hslots
  obtain ⟨hidx, hlt, htail, hproc, -⟩ := hpoller
  have hread : { read with pageSize := s.buffer.load idx .pageSize } = m := by
    rw [hload, hvaddr, hversion]
    rfl
  have hlen : (ds ++ [m]).length = ds.length + 1 := by simp
  rw [hread]
  refine ⟨?_, ?_, h.tail, h.writers, ?_, hlt, htail, ?_⟩
  · rw [hlen]
    exact Slots.deliver hslots
  · obtain ⟨rest, rfl⟩ := h.delivered
    cases rest with
    | nil => simp at hm
    | cons m' rest =>
      obtain rfl : m' = m := by simpa using hm
      exact ⟨rest, by simp⟩
  · rw [hlen, hidx]
  · rw [hlen, hproc]

end Load

theorem RingInv.clear (h : RingInv cs ds s) {tail idx : UInt64} {processed : ℕ} {field : Field}
    (hp : s.poller = .clear tail idx processed field) :
    RingInv cs ds
      { s with
        buffer := s.buffer.store idx field 0
        poller :=
          match field.next with
          | some next => .clear tail idx processed next
          | none => .next tail (idx + 1) (processed + 1) } := by
  have hslots := h.slots
  have hpoller := h.poller
  rw [hp] at hpoller hslots
  obtain ⟨hidx, hlt, htail, hproc⟩ := hpoller
  have hclear := (hslots.imp id False.elim).clear hidx (by omega) (at_of_toNat rfl) field
  -- the first of the four stores clears the valid word
  have hcleared : (Poller.clear tail idx processed field).Uncleared ∧ field ≠ .valid → False := by
    intro ⟨hu, hfield⟩
    cases field with
    | valid => exact hfield rfl
    | _ => exact hu
  refine ⟨hclear.imp (fun hu => (hcleared hu).elim) ?_, h.delivered, h.tail, h.writers, ?_⟩
  · cases field with
    | pageSize => exact fun hv => Poller.not_verified_next _ _ _ hv
    | _ => exact id
  · have hsucc := InvalidationBuffer.succ_toNat_of_lt hlt
    have hnext : s.buffer.head.toNat + (processed + 1) = ds.length := hproc
    cases field with
    | pageSize => exact Poller.inv_next (hsucc.trans hidx) htail hnext
    | _ => exact ⟨hidx, hlt, htail, hproc⟩

theorem Writer.Inv.mono {head head' : UInt64} (hle : head ≤ head') {w : Writer} (h : w.Inv head) :
    w.Inv head' := by
  cases w with
  | loadTail m hd => exact UInt64.le_trans h hle
  | claim m hd tail => exact ⟨UInt64.le_trans h.1 hle, h.2⟩
  | _ => trivial

theorem RingInv.setHead (h : RingInv cs ds s) {idx : UInt64} (hp : s.poller = .setHead idx) :
    RingInv cs ds { s with buffer := s.buffer.setHead idx, poller := .loadHead } := by
  have hslots := h.slots
  have hpoller := h.poller
  rw [hp] at hpoller hslots
  have hidx : idx.toNat = ds.length := hpoller
  have hle : s.buffer.head ≤ idx := by
    rw [UInt64.le_iff_toNat_le, hidx]
    exact hslots.head_le
  refine ⟨?_, h.delivered, h.tail, fun w => (h.writers w).mono hle, hidx⟩
  change Slots s.buffer.entries _ cs idx.toNat ds.length False False
  rw [hidx]
  exact Slots.advance hslots

/-- The messages that are claimed and delivered by the answer to a step. -/
def RingInv.After (cs ds : List Invalidation) (out : RingAnswer × InvalidationRing k) : Prop :=
  RingInv (cs ++ out.1.claimedMessage.toList) (ds ++ out.1.deliveredMessage.toList) out.2

theorem RingInv.silent (h : RingInv cs ds s) : RingInv.After cs ds (.silent, s) := by
  simpa [RingInv.After, RingAnswer.claimedMessage, RingAnswer.deliveredMessage] using h

theorem RingInv.writer_quiet (h : RingInv cs ds s) {w : Fin k} {x : Writer}
    (hstep : (s.writers w).step s.buffer = (.silent, x, s.buffer))
    (hw : (s.writers w).storing = none) (hx : x.storing = none) (hinv : x.Inv s.buffer.head) :
    RingInv.After cs ds (s.step (.writer w)) := by
  rw [InvalidationRing.step_writer hstep]
  exact RingInv.silent (h.quiet hw hx hinv)

theorem RingInv.poll_look (h : RingInv cs ds s) {p : Poller}
    (hstep : s.poller.step s.buffer = (.silent, p, s.buffer)) (hu : ¬ s.poller.Uncleared)
    (hv : p.Verified → s.poller.Verified) (hp : p.Inv s.buffer.head cs ds.length) :
    RingInv.After cs ds (s.step .poll) := by
  rw [InvalidationRing.step_poll hstep]
  exact RingInv.silent (h.look hu hv hp)

theorem RingInv.writer (h : RingInv cs ds s) {w : Fin k} (hc : s.KeepsOrder (.writer w)) :
    RingInv.After cs ds (s.step (.writer w)) := by
  have hinv := h.writers w
  cases hw : s.writers w with
  | idle =>
    have hstep : (s.writers w).step s.buffer = (.silent, .idle, s.buffer) := by rw [hw]; rfl
    have hnone : (s.writers w).storing = none := by rw [hw]; rfl
    exact h.writer_quiet hstep hnone rfl trivial
  | loadHead m =>
    have hstep : (s.writers w).step s.buffer =
        (.silent, .loadTail m s.buffer.head, s.buffer) := by rw [hw]; rfl
    have hnone : (s.writers w).storing = none := by rw [hw]; rfl
    have hloaded : (Writer.loadTail m s.buffer.head).Inv s.buffer.head := UInt64.le_refl _
    exact h.writer_quiet hstep hnone rfl hloaded
  | loadTail m head =>
    have hnone : (s.writers w).storing = none := by rw [hw]; rfl
    rw [hw] at hinv
    by_cases hroom : s.buffer.tail - head < UInt64.ofNat numEntries
    · have hstep : (s.writers w).step s.buffer =
          (.silent, .claim m head s.buffer.tail, s.buffer) := by
        rw [hw, Writer.step, if_pos hroom]
      have hloaded : (Writer.claim m head s.buffer.tail).Inv s.buffer.head :=
        ⟨hinv, UInt64.lt_iff_toNat_lt.mp hroom⟩
      exact h.writer_quiet hstep hnone rfl hloaded
    · have hstep : (s.writers w).step s.buffer = (.silent, .idle, s.buffer) := by
        rw [hw, Writer.step, if_neg hroom]
      exact h.writer_quiet hstep hnone rfl trivial
  | claim m head tail =>
    by_cases htail : s.buffer.tail = tail
    · have hstep : (s.writers w).step s.buffer =
          (.claimed m, .store m tail .valid, { s.buffer with tail := tail + 1 }) := by
        rw [hw, Writer.step, InvalidationBuffer.advanceTailAtomic, if_pos htail]
      have hclaim := h.claim hw htail (hc.claim hw)
      rw [InvalidationRing.step_writer hstep]
      simpa [RingInv.After, RingAnswer.claimedMessage, RingAnswer.deliveredMessage] using hclaim
    · have hstep : (s.writers w).step s.buffer = (.silent, .idle, s.buffer) := by
        rw [hw, Writer.step, InvalidationBuffer.advanceTailAtomic, if_neg htail]
      have hnone : (s.writers w).storing = none := by rw [hw]; rfl
      exact h.writer_quiet hstep hnone rfl trivial
  | store m idx field =>
    have hstep : (s.writers w).step s.buffer =
        (.silent,
          match field.next with
          | some next => .store m idx next
          | none => .idle,
          s.buffer.store idx field (m.entry field)) := by rw [hw]; rfl
    rw [InvalidationRing.step_writer hstep]
    apply RingInv.silent
    apply h.store hw
    · cases field <;> rfl
    · cases field <;> trivial

/-- The poller's loads of an entry, once it has seen that it is valid. -/
theorem RingInv.poll_load (h : RingInv cs ds s) {tail idx : UInt64} {processed : ℕ}
    {field : Field} {read : Invalidation} (hp : s.poller = .load tail idx processed field read)
    (hfield : field ≠ .valid) : RingInv.After cs ds (s.step .poll) := by
  have hpoller := h.poller
  have hu : ¬ s.poller.Uncleared := by rw [hp]; exact id
  have hv : s.poller.Verified := by
    rw [hp]
    cases field with
    | valid => exact absurd rfl hfield
    | _ => trivial
  obtain ⟨m, hm, hload, hread⟩ := h.entry hp hv
  rw [hp] at hpoller
  obtain ⟨hidx, hlt, htail, hproc, -⟩ := hpoller
  -- what has been read is read of the next claimed message
  have hloaded : ∀ field' read', ReadUpTo m read' field' →
      (Poller.load tail idx processed field' read').Inv s.buffer.head cs ds.length := by
    intro field' read' hread'
    refine ⟨hidx, hlt, htail, hproc, fun m' hm' => ?_⟩
    obtain rfl : m = m' := Option.some.inj (hm.symm.trans hm')
    exact hread'
  cases field with
  | valid => exact absurd rfl hfield
  | vaddr =>
    have hstep : s.poller.step s.buffer =
        (.silent, .load tail idx processed .version { read with vaddr := s.buffer.load idx .vaddr },
          s.buffer) := by rw [hp]; rfl
    exact h.poll_look hstep hu (fun _ => hv) (hloaded .version _ (hload .vaddr))
  | version =>
    have hstep : s.poller.step s.buffer =
        (.silent,
          .load tail idx processed .pageSize { read with version := s.buffer.load idx .version },
          s.buffer) := by rw [hp]; rfl
    exact h.poll_look hstep hu (fun _ => hv) (hloaded .pageSize _ ⟨hread, hload .version⟩)
  | pageSize =>
    have hstep : s.poller.step s.buffer =
        (.delivered { read with pageSize := s.buffer.load idx .pageSize },
          .clear tail idx processed .valid, s.buffer) := by rw [hp]; rfl
    have hdeliver := h.deliver hp
    rw [InvalidationRing.step_poll hstep]
    simpa [RingInv.After, RingAnswer.claimedMessage, RingAnswer.deliveredMessage] using hdeliver

theorem RingInv.poll (h : RingInv cs ds s) (hc : s.KeepsOrder .poll) :
    RingInv.After cs ds (s.step .poll) := by
  have hpoller := h.poller
  cases hp : s.poller with
  | loadHead =>
    have hstep : s.poller.step s.buffer = (.silent, .loadTail s.buffer.head, s.buffer) := by
      rw [hp]; rfl
    have hu : ¬ s.poller.Uncleared := by rw [hp]; exact id
    rw [hp] at hpoller
    have hloaded : (Poller.loadTail s.buffer.head).Inv s.buffer.head cs ds.length := ⟨rfl, hpoller⟩
    exact h.poll_look hstep hu False.elim hloaded
  | loadTail head =>
    have hstep : s.poller.step s.buffer = (.silent, .next s.buffer.tail head 0, s.buffer) := by
      rw [hp]; rfl
    have hu : ¬ s.poller.Uncleared := by rw [hp]; exact id
    have htail : s.buffer.tail.toNat ≤ cs.length := by
      rw [h.tail]
      exact Nat.mod_le _ _
    rw [hp] at hpoller
    obtain ⟨hsame, hhead⟩ := hpoller
    have hnext : (Poller.next s.buffer.tail head 0).Inv s.buffer.head cs ds.length :=
      Poller.inv_next (hsame ▸ hhead) htail hhead
    exact h.poll_look hstep hu (fun hv => absurd hv (Poller.not_verified_next _ _ _)) hnext
  | load tail idx processed field read =>
    by_cases hfield : field = .valid
    · rw [hfield] at hp
      have hu : ¬ s.poller.Uncleared := by rw [hp]; exact id
      rw [hp] at hpoller
      obtain ⟨hidx, -, -, hproc, -⟩ := hpoller
      by_cases hvalid : s.buffer.load idx .valid = 0
      · have hstep : s.poller.step s.buffer = (.silent, .finish idx processed, s.buffer) := by
          rw [hp, Poller.step, if_pos hvalid]
        have hfinish : (Poller.finish idx processed).Inv s.buffer.head cs ds.length :=
          Poller.inv_finish hidx hproc
        exact h.poll_look hstep hu (fun hv => absurd hv (Poller.not_verified_finish _ _)) hfinish
      · have hstep : s.poller.step s.buffer =
            (.silent, .load tail idx processed .vaddr read, s.buffer) := by
          rw [hp, Poller.step, if_neg hvalid]
        rw [InvalidationRing.step_poll hstep]
        exact RingInv.silent (h.verify hp (hc.load hp) hvalid)
    · exact h.poll_load hp hfield
  | clear tail idx processed field =>
    have hstep : s.poller.step s.buffer =
        (.silent,
          match field.next with
          | some next => .clear tail idx processed next
          | none => .next tail (idx + 1) (processed + 1),
          s.buffer.store idx field 0) := by rw [hp]; rfl
    rw [InvalidationRing.step_poll hstep]
    exact RingInv.silent (h.clear hp)
  | setHead idx =>
    have hstep : s.poller.step s.buffer = (.silent, .loadHead, s.buffer.setHead idx) := by
      rw [hp]; rfl
    rw [InvalidationRing.step_poll hstep]
    exact RingInv.silent (h.setHead hp)

theorem RingInv.send (h : RingInv cs ds s) (w : Fin k) (m : Invalidation) :
    RingInv.After cs ds (s.step (.send w m)) := by
  rw [InvalidationRing.step]
  split_ifs with hw
  · have hnone : (s.writers w).storing = none := by rw [hw]; rfl
    exact RingInv.silent (h.quiet hnone rfl trivial)
  · exact h.silent

theorem RingInv.step (h : RingInv cs ds s) {c : RingCall k} (hc : s.KeepsOrder c) :
    RingInv.After cs ds (s.step c) := by
  cases c with
  | send w m => exact h.send w m
  | writer w => exact h.writer hc
  | poll => exact h.poll hc

end Step

theorem ringInv_new (k : ℕ) : RingInv [] [] (.new k) where
  slots :=
    { head_le := le_refl 0
      le_length := le_refl 0
      window := Nat.zero_le _
      free := fun _ _ _ => rfl
      cleared := fun i _ hi => absurd hi (Nat.not_lt_zero i)
      claimed := fun i m _ hm => by simp at hm
      owner := fun w x hx => by cases hx
      unique := fun w w' x x' hx => by cases hx
      full := False.elim }
  delivered := List.prefix_rfl
  tail := rfl
  writers _ := trivial
  poller := rfl

/-- In every run whose steps keep the order, messages are delivered in the order of the claims. -/
theorem deliversInOrder_of_keepsOrder (k : ℕ) (calls : List (RingCall k))
    (hcalls : Along (fun _ => InvalidationRing.KeepsOrder) InvalidationRing.step (.new k) calls) :
    DeliversInOrder (trace InvalidationRing.step (.new k) calls) := by
  have hrun := history_induction (C := fun _ => InvalidationRing.KeepsOrder) (s := .new k)
    (P := fun h s => RingInv (claims h) (deliveries h) s) (ringInv_new k) ?_ calls hcalls
  · exact hrun.delivered.sublist
  · intro h s c hinv hc
    have hstep := hinv.step hc
    rw [claims, deliveries, filterMap_append_singleton, filterMap_append_singleton]
    exact hstep

/-- Two writers claim one after the other and store the other way round, before the poller runs. -/
theorem deliversInOrder_of_keepsOrder_two :
    DeliversInOrder (trace InvalidationRing.step (.new 2)
      ([.send 0 ⟨0x1000, 1, 4096⟩, .send 1 ⟨0x2000, 1, 4096⟩] ++ List.replicate 3 (.writer 0) ++
        List.replicate 7 (.writer 1) ++ List.replicate 4 (.writer 0) ++ List.replicate 19 .poll)) := by
  apply deliversInOrder_of_keepsOrder
  simp only [List.replicate, List.cons_append, List.nil_append, along_cons, along_nil, and_true]
  decide +kernel

end Virthub.Klnk.Daemon
