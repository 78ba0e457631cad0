import Virthub.Store.StagingPool
import Virthub.Lib.Trace
import Mathlib.Algebra.Ring.Nat
import Mathlib.Data.List.Perm.Basic
import Mathlib.Data.List.Nodup

/-! Runs of the staging pool. Slots that are handed out are kept in the history of the run and
compared with the free queue; the counter of the pool is compared with the length of the queue alone,
so that it also covers callers that push what they do not hold. -/
namespace Virthub.Store
open Virthub.Lib

namespace StagingMemoryPool

/-- The loop ends with the first pop that fails. -/
def popSlotsBatch : ℕ → StagingMemoryPool → List StagingSlotHandle × StagingMemoryPool
  | 0, self => ([], self)
  | count + 1, self =>
    match self.popSlot with
    | (.error _, pool) => ([], pool)
    | (.ok slot, pool) =>
      let (slots, pool) := popSlotsBatch count pool
      (slot :: slots, pool)

def activeSlots (self : StagingMemoryPool) : ℕ := self.activePoppedCount.toNat

/-- The handle of a slot of the pool. -/
def slotHandle (self : StagingMemoryPool) (slotIdx : ℕ) : StagingSlotHandle :=
  ⟨slotIdx, self.basePtr + slotIdx.toUInt64 * self.slotPageSize, self.slotPageSize⟩

/-- The same mapping, cut into the same slots. -/
structure SameSlots (pool base : StagingMemoryPool) : Prop where
  basePtr : pool.basePtr = base.basePtr
  slotPageSize : pool.slotPageSize = base.slotPageSize
  numSlots : pool.numSlots = base.numSlots

theorem SameSlots.slotHandle {pool base : StagingMemoryPool} (h : pool.SameSlots base) (i : ℕ) :
    pool.slotHandle i = base.slotHandle i := by
  rw [StagingMemoryPool.slotHandle, h.basePtr, h.slotPageSize]
  rfl

/-- What a pop can do. -/
inductive Popped (self : StagingMemoryPool) :
    Except StagingPoolError StagingSlotHandle × StagingMemoryPool → Prop where
  | exhausted (hf : self.freeSlots = []) : Popped self (.error (.poolExhausted self.numSlots), self)
  | slot (slotIdx : ℕ) (rest : List ℕ) (hf : self.freeSlots = slotIdx :: rest) :
    Popped self (.ok (self.slotHandle slotIdx),
      { self with freeSlots := rest, activePoppedCount := self.activePoppedCount + 1 })

theorem popped (self : StagingMemoryPool) : Popped self self.popSlot := by
  unfold popSlot
  cases hf : self.freeSlots with
  | nil => exact .exhausted hf
  | cons slotIdx rest => exact .slot slotIdx rest hf

/-- A batch is as long as the queue allows. -/
theorem length_popSlotsBatch (count : ℕ) (self : StagingMemoryPool) :
    (self.popSlotsBatch count).1.length = min count self.availableSlots := by
  induction count generalizing self with
  | zero => simp [popSlotsBatch]
  | succ count ih =>
    unfold popSlotsBatch
    generalize hr : self.popSlot = r
    have hp := hr ▸ self.popped
    cases hp with
    | exhausted hf => simp [availableSlots, hf]
    | slot slotIdx rest hf =>
      have hcons : self.availableSlots = rest.length + 1 := by
        rw [availableSlots, hf, List.length_cons]
      simp only [List.length_cons, ih, hcons]
      rw [availableSlots, Nat.add_min_add_right]

/-- What a push can do. -/
inductive Pushed (self : StagingMemoryPool) (slotIdx : ℕ) :
    Except StagingPoolError Unit × StagingMemoryPool → Prop where
  | invalid (hi : self.numSlots ≤ slotIdx) :
    Pushed self slotIdx (.error (.invalidSlotIndex slotIdx self.numSlots), self)
  | full (hi : slotIdx < self.numSlots) (hf : self.numSlots ≤ self.availableSlots) :
    Pushed self slotIdx (.ok (), self)
  | queued (hi : slotIdx < self.numSlots) (hf : self.availableSlots < self.numSlots) :
    Pushed self slotIdx (.ok (), { self with
      freeSlots := self.freeSlots ++ [slotIdx], activePoppedCount := self.activePoppedCount - 1 })

theorem pushed (self : StagingMemoryPool) (slotIdx : ℕ) :
    Pushed self slotIdx (self.pushSlot slotIdx) := by
  unfold pushSlot
  split_ifs with hi hf
  · exact .invalid hi
  · exact .queued (not_le.mp hi) hf
  · exact .full (not_le.mp hi) (not_lt.mp hf)

end StagingMemoryPool

inductive PoolCall where
  | popSlot
  | popSlotsBatch (count : ℕ)
  | pushSlot (slotIdx : ℕ)
  deriving DecidableEq, Repr

inductive PoolAnswer where
  | popped (result : Except StagingPoolError StagingSlotHandle)
  | batch (slots : List StagingSlotHandle)
  | pushed (result : Except StagingPoolError Unit)

def poolStep (pool : StagingMemoryPool) : PoolCall → PoolAnswer × StagingMemoryPool
  | .popSlot => (.popped pool.popSlot.1, pool.popSlot.2)
  | .popSlotsBatch count => (.batch (pool.popSlotsBatch count).1, (pool.popSlotsBatch count).2)
  | .pushSlot slotIdx => (.pushed (pool.pushSlot slotIdx).1, (pool.pushSlot slotIdx).2)

abbrev PoolEvent := Event StagingMemoryPool PoolCall PoolAnswer

/-- The slots that are handed out after one more call. -/
def recordSlots (out : List StagingSlotHandle) (e : PoolEvent) : List StagingSlotHandle :=
  match e.call, e.answer with
  | .popSlot, .popped (.ok slot) => out ++ [slot]
  | .popSlotsBatch _, .batch slots => out ++ slots
  | .pushSlot slotIdx, .pushed (.ok ()) => out.eraseP fun slot => slot.slotIdx = slotIdx
  | _, _ => out

/-- The slots that a run has popped and not pushed back. -/
def handedOut (h : List PoolEvent) : List StagingSlotHandle := h.foldl recordSlots []

theorem handedOut_concat (h : List PoolEvent) (e : PoolEvent) :
    handedOut (h ++ [e]) = recordSlots (handedOut h) e := by
  simp [handedOut]

/-- Only slots that are handed out are pushed. -/
def PushesHandedOut (h : List PoolEvent) (_ : StagingMemoryPool) (call : PoolCall) : Prop :=
  ∀ slotIdx, call = .pushSlot slotIdx → ∃ slot ∈ handedOut h, slot.slotIdx = slotIdx

/-- Every slot of the pool is free or handed out, once. -/
structure Partitioned (base : StagingMemoryPool) (out : List StagingSlotHandle)
    (pool : StagingMemoryPool) : Prop where
  same : pool.SameSlots base
  perm : (pool.freeSlots ++ out.map StagingSlotHandle.slotIdx).Perm (List.range base.numSlots)
  handle : ∀ slot ∈ out, slot = base.slotHandle slot.slotIdx

namespace Partitioned

variable {base pool : StagingMemoryPool} {out : List StagingSlotHandle}

theorem length (h : Partitioned base out pool) :
    pool.availableSlots + out.length = base.numSlots := by
  simpa [StagingMemoryPool.availableSlots] using h.perm.length_eq

theorem lt_numSlots (h : Partitioned base out pool) {slot : StagingSlotHandle} (hs : slot ∈ out) :
    slot.slotIdx < base.numSlots := by
  have hmem : slot.slotIdx ∈ pool.freeSlots ++ out.map StagingSlotHandle.slotIdx :=
    List.mem_append_right _ (List.mem_map_of_mem hs)
  exact List.mem_range.mp (h.perm.mem_iff.mp hmem)

theorem nodup (h : Partitioned base out pool) : (out.map StagingSlotHandle.slotIdx).Nodup :=
  (h.perm.nodup_iff.mpr List.nodup_range).of_append_right

theorem popSlot (h : Partitioned base out pool) :
    (pool.popSlot.1 = .error (.poolExhausted base.numSlots) ∧ pool.popSlot.2 = pool) ∨
      ∃ slot, pool.popSlot.1 = .ok slot ∧ Partitioned base (out ++ [slot]) pool.popSlot.2 := by
  generalize hr : pool.popSlot = r
  have hp := hr ▸ pool.popped
  cases hp with
  | exhausted hf => exact .inl ⟨by rw [h.same.numSlots], rfl⟩
  | slot slotIdx rest hf =>
    refine .inr ⟨_, rfl, ⟨h.same.basePtr, h.same.slotPageSize, h.same.numSlots⟩, ?_, ?_⟩
    · refine List.Perm.trans ?_ h.perm
      simp only [hf, List.map_append, List.map_cons, List.map_nil, StagingMemoryPool.slotHandle]
      rw [← List.append_assoc]
      exact List.perm_append_singleton slotIdx _
    · intro slot hs
      rcases List.mem_append.mp hs with hs | hs
      · exact h.handle slot hs
      · rw [List.mem_singleton.mp hs, h.same.slotHandle]
        rfl

theorem popSlotsBatch (count : ℕ) (h : Partitioned base out pool) :
    Partitioned base (out ++ (pool.popSlotsBatch count).1) (pool.popSlotsBatch count).2 := by
  induction count generalizing out pool with
  | zero => simpa [StagingMemoryPool.popSlotsBatch] using h
  | succ count ih =>
    unfold StagingMemoryPool.popSlotsBatch
    rcases hp : pool.popSlot with ⟨r, pool'⟩
    rcases h.popSlot with ⟨hr, hpool⟩ | ⟨slot, hr, hpost⟩
    · rw [hp] at hr hpool
      cases hr
      cases hpool
      simpa using h
    · rw [hp] at hr hpost
      cases hr
      simpa using ih hpost

theorem pushSlot (h : Partitioned base out pool) {slot : StagingSlotHandle} (hs : slot ∈ out) :
    (pool.pushSlot slot.slotIdx).1 = .ok () ∧
      Partitioned base (out.eraseP fun s => s.slotIdx = slot.slotIdx)
        (pool.pushSlot slot.slotIdx).2 := by
  have hlt := h.lt_numSlots hs
  have hlen := h.length
  have hpos := List.length_pos_of_mem hs
  have hn := h.same.numSlots
  generalize hr : pool.pushSlot slot.slotIdx = r
  have hp := hr ▸ pool.pushed slot.slotIdx
  cases hp with
  | invalid hi => omega
  | full hi hf => omega
  | queued hi hf =>
    obtain ⟨s, front, back, -, hsi, hout, herase⟩ :=
      List.exists_of_eraseP hs (p := fun s => s.slotIdx = slot.slotIdx) (by simp)
    have hsi : s.slotIdx = slot.slotIdx := by simpa using hsi
    refine ⟨rfl, ⟨h.same.basePtr, h.same.slotPageSize, hn⟩, ?_, fun t ht => ?_⟩
    · refine List.Perm.trans ?_ h.perm
      rw [herase, hout]
      simp only [List.map_append, List.map_cons, hsi, List.append_assoc, List.singleton_append]
      exact (List.perm_middle.symm).append_left _
    · exact h.handle t (List.mem_of_mem_eraseP ht)

theorem step (h : Partitioned base out pool) {call : PoolCall}
    (hc : ∀ slotIdx, call = .pushSlot slotIdx → ∃ slot ∈ out, slot.slotIdx = slotIdx) :
    Partitioned base (recordSlots out (event poolStep pool call)) (poolStep pool call).2 := by
  cases call with
  | popSlot =>
    rcases h.popSlot with ⟨hr, hpool⟩ | ⟨slot, hr, hpost⟩
    · simpa [event, poolStep, recordSlots, hr, hpool] using h
    · simpa [event, poolStep, recordSlots, hr] using hpost
  | popSlotsBatch count => exact h.popSlotsBatch count
  | pushSlot slotIdx =>
    obtain ⟨slot, hs, rfl⟩ := hc slotIdx rfl
    obtain ⟨hr, hpost⟩ := h.pushSlot hs
    simpa [event, poolStep, recordSlots, hr] using hpost

end Partitioned

def StagingSlotHandle.Covers (slot : StagingSlotHandle) (addr : ℕ) : Prop :=
  slot.vaddr.toNat ≤ addr ∧ addr < slot.vaddr.toNat + slot.size.toNat

/-- The end of the mapping is at most the end of the address space. -/
def StagingMemoryPool.Fits (pool : StagingMemoryPool) : Prop :=
  0 < pool.slotPageSize.toNat ∧
    pool.basePtr.toNat + pool.numSlots * pool.slotPageSize.toNat ≤ 2 ^ 64

theorem StagingMemoryPool.Fits.toNat_vaddr {pool : StagingMemoryPool} (h : pool.Fits) {i : ℕ}
    (hi : i < pool.numSlots) :
    (pool.slotHandle i).vaddr.toNat = pool.basePtr.toNat + i * pool.slotPageSize.toNat ∧
      (i + 1) * pool.slotPageSize.toNat ≤ pool.numSlots * pool.slotPageSize.toNat := by
  obtain ⟨hpos, hfit⟩ := h
  have hend : (i + 1) * pool.slotPageSize.toNat ≤ pool.numSlots * pool.slotPageSize.toNat :=
    Nat.mul_le_mul_right _ hi
  have hle : i ≤ i * pool.slotPageSize.toNat := Nat.le_mul_of_pos_right i hpos
  have hsucc : (i + 1) * pool.slotPageSize.toNat =
      i * pool.slotPageSize.toNat + pool.slotPageSize.toNat := Nat.succ_mul _ _
  have hi64 : i.toUInt64.toNat = i := by
    rw [Nat.toUInt64_eq, UInt64.toNat_ofNat', Nat.mod_eq_of_lt (by omega)]
  refine ⟨?_, hend⟩
  rw [StagingMemoryPool.slotHandle, UInt64.toNat_add, UInt64.toNat_mul, hi64,
    Nat.mod_eq_of_lt (a := i * _) (by omega), Nat.mod_eq_of_lt (by omega)]

/-- Different slots of a pool lie apart. -/
theorem StagingMemoryPool.Fits.not_covers {pool : StagingMemoryPool} (h : pool.Fits) {i j : ℕ}
    (hi : i < pool.numSlots) (hj : j < pool.numSlots) (hij : i < j) {addr : ℕ}
    (hc : (pool.slotHandle i).Covers addr) : ¬ (pool.slotHandle j).Covers addr := by
  have hvi := (h.toNat_vaddr hi).1
  have hvj := (h.toNat_vaddr hj).1
  have hstep : (i + 1) * pool.slotPageSize.toNat ≤ j * pool.slotPageSize.toNat :=
    Nat.mul_le_mul_right _ hij
  rw [Nat.succ_mul] at hstep
  rintro ⟨hlow, -⟩
  have hhigh : addr < (pool.slotHandle i).vaddr.toNat + pool.slotPageSize.toNat := hc.2
  omega

/-- The slots that are handed out, against the pool they came from. -/
structure SlotsExclusive (base : StagingMemoryPool) (out : List StagingSlotHandle)
    (pool : StagingMemoryPool) : Prop where
  perm : (pool.freeSlots ++ out.map StagingSlotHandle.slotIdx).Perm (List.range base.numSlots)
  disjoint : out.Pairwise fun s t => ∀ addr, s.Covers addr → ¬ t.Covers addr
  size : ∀ slot ∈ out, slot.size = base.slotPageSize
  inside : ∀ slot ∈ out, ∀ addr, slot.Covers addr → base.basePtr.toNat ≤ addr ∧
    addr < base.basePtr.toNat + base.numSlots * base.slotPageSize.toNat
  exhausted : (∃ e, pool.popSlot.1 = .error e) ↔ out.length = base.numSlots
  batch : ∀ count, (pool.popSlotsBatch count).1.length = min count (base.numSlots - out.length)

theorem Partitioned.exclusive {base pool : StagingMemoryPool} {out : List StagingSlotHandle}
    (h : Partitioned base out pool) (hfit : base.Fits) : SlotsExclusive base out pool where
  perm := h.perm
  disjoint := by
    have hne : out.Pairwise fun s t => s.slotIdx ≠ t.slotIdx := List.pairwise_map.mp h.nodup
    refine hne.imp_of_mem fun {s t} hs ht hst addr hc => ?_
    rw [h.handle s hs] at hc
    rw [h.handle t ht]
    rcases Nat.lt_or_gt_of_ne hst with hlt | hlt
    · exact hfit.not_covers (h.lt_numSlots hs) (h.lt_numSlots ht) hlt hc
    · exact fun hd => hfit.not_covers (h.lt_numSlots ht) (h.lt_numSlots hs) hlt hd hc
  size slot hs := by
    rw [h.handle slot hs]
    rfl
  inside slot hs addr hc := by
    obtain ⟨hv, hend⟩ := hfit.toNat_vaddr (h.lt_numSlots hs)
    rw [Nat.succ_mul] at hend
    rw [h.handle slot hs] at hc
    obtain ⟨hlow, hhigh⟩ := hc
    have hhigh : addr < (base.slotHandle slot.slotIdx).vaddr.toNat + base.slotPageSize.toNat := hhigh
    omega
  exhausted := by
    have hlen := h.length
    generalize hr : pool.popSlot = r
    have hp := hr ▸ pool.popped
    cases hp with
    | exhausted hf => simp_all [StagingMemoryPool.availableSlots]
    | slot slotIdx rest hf =>
      have hcons : pool.availableSlots = rest.length + 1 := by
        rw [StagingMemoryPool.availableSlots, hf, List.length_cons]
      simp
      omega
  batch count := by
    have hlen := h.length
    rw [StagingMemoryPool.length_popSlotsBatch]
    omega

/-- The counter of a pool of fewer than `2 ^ 64` slots makes up for the free queue. -/
structure Accounted (numSlots : ℕ) (pool : StagingMemoryPool) : Prop where
  bound : numSlots < 2 ^ 64
  slots : pool.numSlots = numSlots
  total : pool.availableSlots + pool.activeSlots = numSlots

namespace Accounted

variable {numSlots : ℕ} {pool : StagingMemoryPool}

theorem popSlot (h : Accounted numSlots pool) : Accounted numSlots pool.popSlot.2 := by
  generalize hr : pool.popSlot = r
  have hp := hr ▸ pool.popped
  cases hp with
  | exhausted hf => exact h
  | slot slotIdx rest hf =>
    refine ⟨h.bound, h.slots, ?_⟩
    obtain ⟨hb, -, ht⟩ := h
    simp only [StagingMemoryPool.availableSlots, StagingMemoryPool.activeSlots, hf,
      List.length_cons] at ht ⊢
    rw [UInt64.toNat_add, UInt64.toNat_one, Nat.mod_eq_of_lt (by omega)]
    omega

theorem popSlotsBatch (count : ℕ) (h : Accounted numSlots pool) :
    Accounted numSlots (pool.popSlotsBatch count).2 := by
  induction count generalizing pool with
  | zero => exact h
  | succ count ih =>
    have hpost := h.popSlot
    unfold StagingMemoryPool.popSlotsBatch
    rcases hp : pool.popSlot with ⟨r, pool'⟩
    rw [hp] at hpost
    cases r with
    | error e => exact hpost
    | ok slot => exact ih hpost

/-- A push that changes the pool finds the counter above zero. -/
theorem pushSlot (h : Accounted numSlots pool) (slotIdx : ℕ) :
    Accounted numSlots (pool.pushSlot slotIdx).2 ∧
      ((pool.pushSlot slotIdx).2 ≠ pool → 0 < pool.activeSlots) := by
  generalize hr : pool.pushSlot slotIdx = r
  have hp := hr ▸ pool.pushed slotIdx
  cases hp with
  | invalid hi => exact ⟨h, fun hne => absurd rfl hne⟩
  | full hi hf => exact ⟨h, fun hne => absurd rfl hne⟩
  | queued hi hf =>
    obtain ⟨hb, hn, ht⟩ := h
    have hpos : 0 < pool.activeSlots := by omega
    refine ⟨⟨hb, hn, ?_⟩, fun _ => hpos⟩
    have hone : (1 : UInt64) ≤ pool.activePoppedCount := UInt64.le_iff_toNat_le.mpr hpos
    simp only [StagingMemoryPool.availableSlots, StagingMemoryPool.activeSlots,
      List.length_append, List.length_singleton] at ht hpos ⊢
    rw [UInt64.toNat_sub_of_le _ _ hone, UInt64.toNat_one]
    omega

theorem step (h : Accounted numSlots pool) (call : PoolCall) :
    Accounted numSlots (poolStep pool call).2 ∧
      ∀ slotIdx, call = .pushSlot slotIdx → (poolStep pool call).2 ≠ pool → 0 < pool.activeSlots := by
  cases call with
  | popSlot => exact ⟨h.popSlot, by simp⟩
  | popSlotsBatch count => exact ⟨h.popSlotsBatch count, by simp⟩
  | pushSlot slotIdx => exact ⟨(h.pushSlot slotIdx).1, fun _ _ => (h.pushSlot slotIdx).2⟩

end Accounted

theorem StagingMemoryPool.eq_of_new {numSlots : ℕ} {slotPageSize basePtr : UInt64}
    {pool : StagingMemoryPool} (h : new numSlots slotPageSize (.ok basePtr) = .ok pool) :
    4096 ≤ slotPageSize.toNat ∧ pool = ⟨basePtr, slotPageSize, numSlots, List.range numSlots, 0⟩ := by
  unfold StagingMemoryPool.new at h
  split_ifs at h with h0 hp
  dsimp only at h
  split_ifs at h with hnull
  cases h
  refine ⟨?_, rfl⟩
  obtain ⟨hne, hmod⟩ := not_or.mp hp
  have hne : slotPageSize.toNat ≠ 0 := fun h0 => hne (UInt64.toNat_inj.mp h0)
  have hmod : slotPageSize.toNat % 4096 = 0 := congrArg UInt64.toNat (not_not.mp hmod)
  omega

/-- For callers that push what they hold the slots are exclusive, and for all callers the pool
accounts for its slots. -/
theorem slots_exclusive_and_accounted {numSlots : ℕ} {slotPageSize basePtr : UInt64}
    {pool : StagingMemoryPool}
    (hnew : StagingMemoryPool.new numSlots slotPageSize (.ok basePtr) = .ok pool)
    (hfit : basePtr.toNat + numSlots * slotPageSize.toNat ≤ 2 ^ 64) (calls : List PoolCall) :
    (Along PushesHandedOut poolStep pool calls →
        SlotsExclusive pool (handedOut (trace poolStep pool calls)) (exec poolStep pool calls)) ∧
      (exec poolStep pool calls).availableSlots + (exec poolStep pool calls).activeSlots =
        numSlots ∧
      (∀ count, ((exec poolStep pool calls).popSlotsBatch count).1.length =
        min count (exec poolStep pool calls).availableSlots) ∧
      ∀ e ∈ trace poolStep pool calls, ∀ slotIdx, e.call = .pushSlot slotIdx → e.post ≠ e.pre →
        0 < e.pre.activeSlots := by
  obtain ⟨hp, rfl⟩ := StagingMemoryPool.eq_of_new hnew
  have hslots : numSlots * 4096 ≤ numSlots * slotPageSize.toNat := Nat.mul_le_mul_left _ hp
  have hacc0 : Accounted numSlots ⟨basePtr, slotPageSize, numSlots, List.range numSlots, 0⟩ :=
    ⟨by omega, rfl, by simp [StagingMemoryPool.availableSlots, StagingMemoryPool.activeSlots]⟩
  have hacc := forall_event_of_invariant
    (Q := fun e : PoolEvent => ∀ slotIdx, e.call = .pushSlot slotIdx → e.post ≠ e.pre →
      0 < e.pre.activeSlots)
    hacc0 (fun t call h _ => h.step call) calls (along_true _ _ _)
  refine ⟨fun hpush => ?_, hacc.1.total, fun count => StagingMemoryPool.length_popSlotsBatch count _, hacc.2⟩
  have hpart := history_induction (P := fun h t => Partitioned _ (handedOut h) t)
    ⟨⟨rfl, rfl, rfl⟩, by simp [handedOut], by simp [handedOut]⟩
    (fun h t call hpart hc => handedOut_concat h _ ▸ hpart.step hc) calls hpush
  exact hpart.exclusive ⟨by dsimp only; omega, hfit⟩

def twoSlots : StagingMemoryPool := ⟨0x10000, 4096, 2, [0, 1], 0⟩

/-- Both slots of a small pool go out in a batch, one comes back and goes out again. -/
def twoSlotsRun : List PoolCall := [.popSlotsBatch 3, .pushSlot 1, .popSlot]

theorem pushesHandedOut_twoSlotsRun : Along PushesHandedOut poolStep twoSlots twoSlotsRun := by
  simp only [twoSlotsRun, along_cons, along_nil, and_true]
  refine ⟨?_, ?_, ?_⟩
  · intro slotIdx h
    cases h
  · intro slotIdx h
    cases h
    exact ⟨twoSlots.slotHandle 1, by decide, rfl⟩
  · intro slotIdx h
    cases h

theorem slots_exclusive_and_accounted_twoSlots :
    StagingMemoryPool.new 2 4096 (.ok 0x10000) = .ok twoSlots ∧
      SlotsExclusive twoSlots (handedOut (trace poolStep twoSlots twoSlotsRun))
        (exec poolStep twoSlots twoSlotsRun) := by
  have hnew : StagingMemoryPool.new 2 4096 (.ok 0x10000) = .ok twoSlots := rfl
  have hrun := slots_exclusive_and_accounted hnew (by decide) twoSlotsRun
  exact ⟨hnew, hrun.1 pushesHandedOut_twoSlotsRun⟩

end Virthub.Store
