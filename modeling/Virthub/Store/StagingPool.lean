import Mathlib.Order.Nat

/-! The staging pool: a queue of free slots of one size, carved out of one mapping. -/
namespace Virthub.Store

inductive StagingPoolError where
  | mmapFailed (errno : Int32)
  | poolExhausted (numSlots : ℕ)
  | invalidSlotIndex (slotIdx maxSlots : ℕ)
  deriving DecidableEq, Repr

def StagingPoolError.display : StagingPoolError → String
  | .mmapFailed errno =>
    "Failed to allocate virtual memory pool via mmap: errno " ++ toString errno
  | .poolExhausted n =>
    "No available staging slot remaining in pool (capacity: " ++ toString n ++ ")"
  | .invalidSlotIndex i n =>
    "Invalid slot index " ++ toString i ++ " requested (max valid index: " ++ toString n ++ ")"

structure StagingSlotHandle where
  slotIdx : ℕ
  vaddr : UInt64
  size : UInt64
  deriving DecidableEq, Repr

structure StagingMemoryPool where
  basePtr : UInt64
  slotPageSize : UInt64
  numSlots : ℕ
  freeSlots : List ℕ
  activePoppedCount : UInt64
  deriving DecidableEq, Repr

namespace StagingMemoryPool

/-- A new pool; `mmap` is the outcome of the mapping call. -/
def new (numSlots : ℕ) (slotPageSize : UInt64) (mmap : Except Int32 UInt64) :
    Except StagingPoolError StagingMemoryPool :=
  if numSlots = 0 then .error (.poolExhausted 0)
  else if slotPageSize = 0 ∨ slotPageSize % 4096 ≠ 0 then .error (.invalidSlotIndex 0 0)
  else
    match mmap with
    | .error errno => .error (.mmapFailed errno)
    | .ok basePtr =>
      if basePtr = 0 then .error (.mmapFailed 0)
      else .ok ⟨basePtr, slotPageSize, numSlots, List.range numSlots, 0⟩

def popSlot (self : StagingMemoryPool) :
    Except StagingPoolError StagingSlotHandle × StagingMemoryPool :=
  match self.freeSlots with
  | [] => (.error (.poolExhausted self.numSlots), self)
  | slotIdx :: rest =>
    (.ok ⟨slotIdx, self.basePtr + slotIdx.toUInt64 * self.slotPageSize, self.slotPageSize⟩,
      { self with freeSlots := rest, activePoppedCount := self.activePoppedCount + 1 })

/-- A push onto a full queue is dropped and still reported as success. -/
def pushSlot (self : StagingMemoryPool) (slotIdx : ℕ) :
    Except StagingPoolError Unit × StagingMemoryPool :=
  if self.numSlots ≤ slotIdx then (.error (.invalidSlotIndex slotIdx self.numSlots), self)
  else if self.freeSlots.length < self.numSlots then
    (.ok (), { self with
      freeSlots := self.freeSlots ++ [slotIdx], activePoppedCount := self.activePoppedCount - 1 })
  else (.ok (), self)

def availableSlots (self : StagingMemoryPool) : ℕ := self.freeSlots.length

/-- What holds of a pool from its creation on: the queue has room for every slot that is not in
it, and lists only slots of the pool. -/
structure WellFormed (pool : StagingMemoryPool) : Prop where
  capacity : pool.availableSlots ≤ pool.numSlots
  valid : ∀ i ∈ pool.freeSlots, i < pool.numSlots

theorem popSlot_spec {self pool : StagingMemoryPool} {slot : StagingSlotHandle}
    (h : self.popSlot = (.ok slot, pool)) :
    self.freeSlots = slot.slotIdx :: pool.freeSlots ∧ pool.numSlots = self.numSlots := by
  unfold popSlot at h
  cases hf : self.freeSlots with
  | nil =>
    rw [hf] at h
    cases h
  | cons slotIdx rest =>
    rw [hf] at h
    cases h
    exact ⟨rfl, rfl⟩

theorem pushSlot_spec {self : StagingMemoryPool} {slotIdx : ℕ} (hi : slotIdx < self.numSlots)
    (hr : self.availableSlots < self.numSlots) :
    (self.pushSlot slotIdx).2.freeSlots = self.freeSlots ++ [slotIdx] ∧
      (self.pushSlot slotIdx).2.numSlots = self.numSlots := by
  unfold pushSlot
  unfold availableSlots at hr
  rw [if_neg (not_le.mpr hi), if_pos hr]
  exact ⟨rfl, rfl⟩

theorem WellFormed.popSlot {self : StagingMemoryPool} (h : self.WellFormed) :
    self.popSlot.2.WellFormed := by
  cases hp : self.popSlot with
  | mk r pool =>
    cases r with
    | error e =>
      have hself : pool = self := by
        unfold StagingMemoryPool.popSlot at hp
        cases hf : self.freeSlots <;> rw [hf] at hp <;> cases hp
        rfl
      rw [hself]
      exact h
    | ok slot =>
      obtain ⟨hf, hn⟩ := popSlot_spec hp
      obtain ⟨hcap, hval⟩ := h
      unfold availableSlots at hcap
      rw [hf, List.length_cons] at hcap
      constructor
      · unfold availableSlots
        dsimp only
        omega
      · intro i hi
        have hlt : i < self.numSlots := hval i (by simp [hf, hi])
        exact hn ▸ hlt

theorem WellFormed.pushSlot {self : StagingMemoryPool} (h : self.WellFormed) (slotIdx : ℕ) :
    (self.pushSlot slotIdx).2.WellFormed := by
  by_cases hi : slotIdx < self.numSlots
  · by_cases hr : self.availableSlots < self.numSlots
    · obtain ⟨hf, hn⟩ := pushSlot_spec hi hr
      constructor
      · unfold availableSlots at hr ⊢
        rw [hf, hn, List.length_append, List.length_singleton]
        omega
      · intro i hm
        rw [hf, List.mem_append, List.mem_singleton] at hm
        rw [hn]
        rcases hm with hm | rfl
        · exact h.valid i hm
        · exact hi
    · unfold availableSlots at hr
      simp only [StagingMemoryPool.pushSlot, hr, not_le.mpr hi, if_false]
      exact h
  · simp only [StagingMemoryPool.pushSlot, not_lt.mp hi, if_true]
    exact h

end StagingMemoryPool

end Virthub.Store
