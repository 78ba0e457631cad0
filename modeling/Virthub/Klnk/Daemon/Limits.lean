import Virthub.Lib.CasLoop
import Mathlib.Algebra.Ring.Nat
import Mathlib.Data.List.Infix

/-! The resource limiter: the staging bytes and the descriptors in use, each a word that any number
of tasks change at the same time by compare-and-exchange loops. -/
namespace Virthub.Klnk.Daemon
open Virthub.Lib

inductive LimitsError where
  | memoryLimitExceeded (requested current limit : UInt64)
  | descriptorLimitExceeded (current max : UInt64)
  deriving DecidableEq, Repr

def saturatingSub (a b : UInt64) : UInt64 := if b ≤ a then a - b else 0

namespace ResourceLimiter

/-- The loop of `reserve_memory`: the word to exchange for `current`, or the refusal. The sum is one
of machine words. -/
def reserveMemory (limit bytes current : UInt64) : Except LimitsError UInt64 :=
  if current + bytes > limit then .error (.memoryLimitExceeded bytes current limit)
  else .ok (current + bytes)

def releaseMemory (bytes current : UInt64) : Except LimitsError UInt64 :=
  .ok (saturatingSub current bytes)

def registerDescriptor (max current : UInt64) : Except LimitsError UInt64 :=
  if current ≥ max then .error (.descriptorLimitExceeded current max) else .ok (current + 1)

def unregisterDescriptor (current : UInt64) : Except LimitsError UInt64 :=
  .ok (saturatingSub current 1)

end ResourceLimiter

inductive MemoryOp where
  | reserve (bytes : UInt64)
  | release (bytes : UInt64)
  deriving DecidableEq, Repr

inductive DescriptorOp where
  | register
  | unregister
  deriving DecidableEq, Repr

def memoryLoop (limit : UInt64) : MemoryOp → UInt64 → Except LimitsError UInt64
  | .reserve bytes => ResourceLimiter.reserveMemory limit bytes
  | .release bytes => ResourceLimiter.releaseMemory bytes

def descriptorLoop (max : UInt64) : DescriptorOp → UInt64 → Except LimitsError UInt64
  | .register => ResourceLimiter.registerDescriptor max
  | .unregister => ResourceLimiter.unregisterDescriptor

/-- An operation on the staging bytes that has ended. -/
abbrev MemoryResult := MemoryOp × Except LimitsError Unit

def reserved : MemoryResult → ℕ
  | (.reserve bytes, .ok _) => bytes.toNat
  | _ => 0

def released : MemoryResult → ℕ
  | (.release bytes, _) => bytes.toNat
  | _ => 0

def reservedBytes (done : List MemoryResult) : ℕ := (done.map reserved).sum

def releasedBytes (done : List MemoryResult) : ℕ := (done.map released).sum

/-- Nobody gives back what has not been reserved. -/
def Balanced (done : List MemoryResult) : Prop :=
  ∀ past, past <+: done → releasedBytes past ≤ reservedBytes past

theorem reservedBytes_concat (done : List MemoryResult) (x : MemoryResult) :
    reservedBytes (done ++ [x]) = reservedBytes done + reserved x := by
  simp [reservedBytes]

theorem releasedBytes_concat (done : List MemoryResult) (x : MemoryResult) :
    releasedBytes (done ++ [x]) = releasedBytes done + released x := by
  simp [releasedBytes]

/-- The bytes that are reserved and not given back. -/
def outstanding (done : List MemoryResult) : ℕ := reservedBytes done - releasedBytes done

/-- The word against the operations that have ended. -/
structure Exact (limit : UInt64) (done : List MemoryResult) (used : UInt64) : Prop where
  balance : used.toNat + releasedBytes done = reservedBytes done
  limited : used ≤ limit

theorem Exact.outstanding_eq {limit : UInt64} {done : List MemoryResult} {used : UInt64}
    (h : Exact limit done used) : outstanding done = used.toNat := by
  have hbalance := h.balance
  unfold outstanding
  omega

theorem toNat_add_of_fits {limit used bytes : UInt64} (hlimited : used ≤ limit)
    (hfits : limit.toNat + bytes.toNat < 2 ^ 64) : (used + bytes).toNat = used.toNat + bytes.toNat := by
  have hle := UInt64.le_iff_toNat_le.mp hlimited
  rw [UInt64.toNat_add, Nat.mod_eq_of_lt (by omega)]

/-- A reservation is granted exactly if it fits beside what is outstanding. -/
theorem Exact.reserve {limit : UInt64} {done : List MemoryResult} {used bytes : UInt64}
    (h : Exact limit done used) (hfits : limit.toNat + bytes.toNat < 2 ^ 64) :
    let a := CasLoop.atomically (memoryLoop limit) used (.reserve bytes)
    (a.1.isOk ↔ outstanding done + bytes.toNat ≤ limit.toNat) ∧
      Exact limit (done ++ [(.reserve bytes, a.1)]) a.2 := by
  have hadd := toNat_add_of_fits h.limited hfits
  have hbalance := h.balance
  have houtstanding := h.outstanding_eq
  by_cases hover : used + bytes > limit
  · have hlt := UInt64.lt_iff_toNat_lt.mp hover
    have hloop : CasLoop.atomically (memoryLoop limit) used (.reserve bytes) =
        (.error (.memoryLimitExceeded bytes used limit), used) := by
      simp only [CasLoop.atomically, memoryLoop, ResourceLimiter.reserveMemory, if_pos hover]
    rw [hloop]
    refine ⟨iff_of_false Bool.false_ne_true (by omega), ?_, h.limited⟩
    rw [reservedBytes_concat, releasedBytes_concat]
    exact hbalance
  · have hle := UInt64.le_iff_toNat_le.mp (UInt64.not_lt.mp hover)
    have hloop : CasLoop.atomically (memoryLoop limit) used (.reserve bytes) =
        (.ok (), used + bytes) := by
      simp only [CasLoop.atomically, memoryLoop, ResourceLimiter.reserveMemory, if_neg hover]
    rw [hloop]
    refine ⟨iff_of_true rfl (by omega), ?_, UInt64.not_lt.mp hover⟩
    rw [reservedBytes_concat, releasedBytes_concat, hadd]
    simp only [reserved, released]
    omega

/-- What has been reserved can be given back in full. -/
theorem Exact.release {limit : UInt64} {done : List MemoryResult} {used bytes : UInt64}
    (h : Exact limit done used) (hbytes : bytes.toNat ≤ used.toNat) :
    let a := CasLoop.atomically (memoryLoop limit) used (.release bytes)
    Exact limit (done ++ [(.release bytes, a.1)]) a.2 := by
  have hbalance := h.balance
  have hlimited := UInt64.le_iff_toNat_le.mp h.limited
  have hle : bytes ≤ used := UInt64.le_iff_toNat_le.mpr hbytes
  have hsub : (used - bytes).toNat = used.toNat - bytes.toNat := UInt64.toNat_sub_of_le used bytes hle
  have hloop : CasLoop.atomically (memoryLoop limit) used (.release bytes) =
      (.ok (), used - bytes) := by
    simp only [CasLoop.atomically, memoryLoop, ResourceLimiter.releaseMemory, saturatingSub,
      if_pos hle]
  rw [hloop]
  constructor
  · rw [reservedBytes_concat, releasedBytes_concat, hsub]
    simp only [reserved, released]
    omega
  · rw [UInt64.le_iff_toNat_le, hsub]
    omega

/-- The calls reserve amounts that cannot wrap around. -/
def Fits (limit : UInt64) (calls : List (CasLoop.Call MemoryOp)) : Prop :=
  ∀ bytes, .begin (.reserve bytes) ∈ calls → limit.toNat + bytes.toNat < 2 ^ 64

section Run

variable {limit : UInt64} {calls : List (CasLoop.Call MemoryOp)}

/-- The word is exact after each of the operations that have ended, in their order. -/
theorem exact_of_prefix (hfits : Fits limit calls)
    (hbalanced : Balanced (CasLoop.ended (trace (CasLoop.step (memoryLoop limit)) ⟨0, []⟩ calls)))
    {past : List MemoryResult}
    (hpast : past <+: CasLoop.ended (trace (CasLoop.step (memoryLoop limit)) ⟨0, []⟩ calls)) :
    Exact limit past (exec (CasLoop.atomically (memoryLoop limit)) 0 (past.map Prod.fst)) := by
  induction past using List.reverseRecOn with
  | nil => exact ⟨rfl, UInt64.le_iff_toNat_le.mpr (Nat.zero_le _)⟩
  | append_singleton past x ih =>
    obtain ⟨rest, hrest⟩ := hpast
    rw [List.append_assoc] at hrest
    have hexact := ih ⟨_, hrest⟩
    have hlinear := CasLoop.linearized_run (memoryLoop limit) 0 calls
    obtain ⟨op, r⟩ := x
    have hanswer := hlinear.answer_of_split hrest.symm
    rw [List.map_append, List.map_singleton, exec_concat, ← hanswer]
    cases op with
    | reserve bytes =>
      have hbegin := CasLoop.begin_mem_of_ended (memoryLoop limit) 0 calls (.reserve bytes, r) (by
        rw [← hrest]
        simp)
      exact (hexact.reserve (hfits bytes hbegin)).2
    | release bytes =>
      have hgiven := hbalanced (past ++ [(.release bytes, r)]) ⟨rest, by simpa using hrest⟩
      rw [reservedBytes_concat, releasedBytes_concat] at hgiven
      have hbalance := hexact.balance
      apply hexact.release
      simp only [reserved, released] at hgiven
      omega

end Run

/-- Reservations are exact. However reservations and releases overlap and however often an
exchange fails, the operations take effect in the order in which they end: a reservation is granted
exactly if it fits beside what is outstanding then, and the word is the sum that is outstanding,
never above the limit. -/
theorem reservations_exact (limit : UInt64) (calls : List (CasLoop.Call MemoryOp))
    (hfits : Fits limit calls)
    (hbalanced : Balanced (CasLoop.ended (trace (CasLoop.step (memoryLoop limit)) ⟨0, []⟩ calls))) :
    let done := CasLoop.ended (trace (CasLoop.step (memoryLoop limit)) ⟨0, []⟩ calls)
    let used := (exec (CasLoop.step (memoryLoop limit)) ⟨0, []⟩ calls).word
    (∀ past bytes r rest, done = past ++ (.reserve bytes, r) :: rest →
        (r.isOk ↔ outstanding past + bytes.toNat ≤ limit.toNat)) ∧
      used.toNat = outstanding done ∧ used ≤ limit := by
  intro done used
  have hlinear := CasLoop.linearized_run (memoryLoop limit) 0 calls
  constructor
  · intro past bytes r rest hsplit
    have hexact := exact_of_prefix hfits hbalanced ⟨_, hsplit.symm⟩
    have hbegin := CasLoop.begin_mem_of_ended (memoryLoop limit) 0 calls (.reserve bytes, r) (by
      change _ ∈ done
      rw [hsplit]
      simp)
    rw [← hlinear.answer_of_split hsplit]
    exact (hexact.reserve (hfits bytes hbegin)).1
  · have hexact := exact_of_prefix hfits hbalanced List.prefix_rfl
    rw [hlinear.word] at hexact
    exact ⟨hexact.outstanding_eq.symm, hexact.limited⟩

/-- Two reservations that overlap and do not fit together, and a release. -/
private def overlappingCalls : List (CasLoop.Call MemoryOp) :=
  [.begin (.reserve 6), .begin (.reserve 5), .turn 0 false, .turn 1 false, .turn 1 true,
    .turn 0 false, .turn 1 false, .begin (.release 2), .turn 2 false, .turn 2 false]

theorem reservations_exact_overlapping :
    Fits 10 overlappingCalls ∧
      Balanced (CasLoop.ended (trace (CasLoop.step (memoryLoop 10)) ⟨0, []⟩ overlappingCalls)) ∧
      (exec (CasLoop.step (memoryLoop 10)) ⟨0, []⟩ overlappingCalls).word ≤ 10 := by
  have hfits : Fits 10 overlappingCalls := by
    intro bytes hbytes
    have hcases : bytes = 6 ∨ bytes = 5 := by simpa [overlappingCalls] using hbytes
    rcases hcases with rfl | rfl
    · decide
    · decide
  have hdone : CasLoop.ended (trace (CasLoop.step (memoryLoop 10)) ⟨0, []⟩ overlappingCalls) =
      [(.reserve 6, .ok ()), (.reserve 5, .error (.memoryLimitExceeded 5 6 10)),
        (.release 2, .ok ())] := rfl
  have hbalanced : Balanced
      (CasLoop.ended (trace (CasLoop.step (memoryLoop 10)) ⟨0, []⟩ overlappingCalls)) := by
    intro past hpast
    rw [hdone, ← List.mem_inits] at hpast
    revert past
    decide
  exact ⟨hfits, hbalanced, (reservations_exact 10 overlappingCalls hfits hbalanced).2.2⟩

theorem toNat_succ_le_of_lt {a b : UInt64} (h : ¬ a ≥ b) : a + 1 ≤ b := by
  have hlt := UInt64.lt_iff_toNat_lt.mp (UInt64.not_le.mp h)
  have hb := b.toNat_lt
  rw [UInt64.le_iff_toNat_le, UInt64.toNat_add, UInt64.toNat_one, Nat.mod_eq_of_lt (by omega)]
  exact hlt

/-- The descriptor limit holds without a lock. However registrations overlap, the count never
exceeds the limit, and a loop that goes round again because the count has changed has been overtaken
by another operation each time. -/
theorem descriptors_limited (max : UInt64) (calls : List (CasLoop.Call DescriptorOp)) (i : ℕ) :
    let h := trace (CasLoop.step (descriptorLoop max)) ⟨0, []⟩ calls
    (exec (CasLoop.step (descriptorLoop max)) ⟨0, []⟩ calls).word ≤ max ∧
      h.countP (CasLoop.failsExchange i) ≤ CasLoop.updates h := by
  intro h
  refine ⟨?_, CasLoop.retries_le_updates (descriptorLoop max) 0 calls i⟩
  rw [← (CasLoop.linearized_run (descriptorLoop max) 0 calls).word]
  apply CasLoop.exec_atomically (P := fun v => v ≤ max) (Q := fun _ => True)
  · intro op v new _ hv hnew
    cases op with
    | register =>
      simp only [descriptorLoop, ResourceLimiter.registerDescriptor] at hnew
      split_ifs at hnew with hfull
      obtain rfl := Except.ok.inj hnew
      exact toNat_succ_le_of_lt hfull
    | unregister =>
      simp only [descriptorLoop, ResourceLimiter.unregisterDescriptor, saturatingSub] at hnew
      obtain rfl := Except.ok.inj hnew
      split_ifs with hone
      · have hsub : (v - 1).toNat = v.toNat - (1 : UInt64).toNat := UInt64.toNat_sub_of_le v 1 hone
        have hle := UInt64.le_iff_toNat_le.mp hv
        rw [UInt64.le_iff_toNat_le, hsub]
        omega
      · exact UInt64.le_iff_toNat_le.mpr (Nat.zero_le _)
  · exact UInt64.le_iff_toNat_le.mpr (Nat.zero_le _)
  · exact fun _ _ => trivial

end Virthub.Klnk.Daemon
