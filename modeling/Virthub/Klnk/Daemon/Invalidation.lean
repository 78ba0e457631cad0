import Mathlib.Data.Nat.Notation
import Mathlib.Logic.Function.Basic

/-! The ring buffer through which remote writers send invalidation messages to the poller of a
node: a head and a tail index that only grow, and 1024 entries of four words each. -/
namespace Virthub.Klnk.Daemon

/-- The words of an entry, in the order in which the code reads and writes them. -/
inductive Field where
  | valid
  | vaddr
  | version
  | pageSize
  deriving DecidableEq, Repr

/-- What the callback is given. -/
structure Invalidation where
  vaddr : UInt64
  version : UInt64
  pageSize : UInt64
  deriving DecidableEq, Repr

/-- The words of an entry with a message. -/
def Invalidation.entry (m : Invalidation) : Field → UInt64
  | .valid => 1
  | .vaddr => m.vaddr
  | .version => m.version
  | .pageSize => m.pageSize

def numEntries : ℕ := 1024

/-- The slot of the entry with index `idx`. -/
def slotOf (idx : UInt64) : ℕ := (idx % UInt64.ofNat numEntries).toNat

theorem slotOf_eq (idx : UInt64) : slotOf idx = idx.toNat % numEntries := by
  rw [slotOf, UInt64.toNat_mod]
  rfl

structure InvalidationBuffer where
  head : UInt64
  tail : UInt64
  entries : ℕ → Field → UInt64

/-- What `process_pending` did: the messages that the callback accepted, and the one it rejected,
after which it was not called again. -/
structure Processed where
  accepted : List Invalidation
  rejected : Option Invalidation
  deriving DecidableEq, Repr

/-- The number that `process_pending` returns. -/
def Processed.processed (self : Processed) : ℕ := self.accepted.length

/-- Everything that the callback was given. -/
def Processed.offered (self : Processed) : List Invalidation :=
  self.accepted ++ self.rejected.toList

namespace InvalidationBuffer

/-- The memory is allocated zeroed. -/
def new : InvalidationBuffer := ⟨0, 0, fun _ _ => 0⟩

def load (self : InvalidationBuffer) (idx : UInt64) (field : Field) : UInt64 :=
  self.entries (slotOf idx) field

def store (self : InvalidationBuffer) (idx : UInt64) (field : Field) (value : UInt64) :
    InvalidationBuffer :=
  { self with
    entries := Function.update self.entries (slotOf idx)
      (Function.update (self.entries (slotOf idx)) field value) }

def setHead (self : InvalidationBuffer) (head : UInt64) : InvalidationBuffer :=
  { self with head := head }

/-- The previous tail if it was the expected one, and the current tail as an error otherwise. -/
def advanceTailAtomic (self : InvalidationBuffer) (expected newVal : UInt64) :
    Except UInt64 UInt64 × InvalidationBuffer :=
  if self.tail = expected then (.ok self.tail, { self with tail := newVal })
  else (.error self.tail, self)

def readEntryRaw (self : InvalidationBuffer) (idx : UInt64) : UInt64 × UInt64 × UInt64 × UInt64 :=
  (self.load idx .valid, self.load idx .vaddr, self.load idx .version, self.load idx .pageSize)

def writeEntryRaw (self : InvalidationBuffer) (idx valid vaddr version pageSize : UInt64) :
    InvalidationBuffer :=
  (((self.store idx .valid valid).store idx .vaddr vaddr).store idx .version version).store
    idx .pageSize pageSize

theorem succ_toNat_of_lt {idx tail : UInt64} (h : idx < tail) : (idx + 1).toNat = idx.toNat + 1 := by
  have hlt := UInt64.lt_iff_toNat_lt.mp h
  have htail := tail.toNat_lt
  rw [UInt64.toNat_add, UInt64.toNat_one, Nat.mod_eq_of_lt (by omega)]

/-- The loop of `process_pending`, with the messages that were accepted so far. The callback may
keep a state between its calls, so its answer depends on those too. -/
def processLoop (callback : List Invalidation → Invalidation → Bool) (tail : UInt64)
    (self : InvalidationBuffer) (idx : UInt64) (accepted : List Invalidation) :
    InvalidationBuffer × UInt64 × Processed :=
  if idx < tail then
    let (valid, vaddr, version, pageSize) := self.readEntryRaw idx
    if valid = 0 then (self, idx, ⟨accepted, none⟩)
    else if callback accepted ⟨vaddr, version, pageSize⟩ then
      processLoop callback tail (self.writeEntryRaw idx 0 0 0 0) (idx + 1)
        (accepted ++ [⟨vaddr, version, pageSize⟩])
    else (self, idx, ⟨accepted, some ⟨vaddr, version, pageSize⟩⟩)
  else (self, idx, ⟨accepted, none⟩)
termination_by tail.toNat - idx.toNat
decreasing_by
  rename_i hlt _
  have hsucc := succ_toNat_of_lt hlt
  have hnat := UInt64.lt_iff_toNat_lt.mp hlt
  omega

def processPending (self : InvalidationBuffer)
    (callback : List Invalidation → Invalidation → Bool) : Processed × InvalidationBuffer :=
  let (buffer, idx, out) := processLoop callback self.tail self self.head []
  (out, if out.processed > 0 then buffer.setHead idx else buffer)

def writeEntry (self : InvalidationBuffer) (m : Invalidation) : Bool × InvalidationBuffer :=
  if self.tail - self.head ≥ UInt64.ofNat numEntries then (false, self)
  else
    (true, { self.writeEntryRaw self.tail 1 m.vaddr m.version m.pageSize with
      tail := self.tail + 1 })

end InvalidationBuffer

end Virthub.Klnk.Daemon
