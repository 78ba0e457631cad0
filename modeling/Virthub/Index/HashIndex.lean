import Virthub.Lib.Binary64
import Virthub.Lib.Trace
import Mathlib.Data.List.Basic

/-! The hash index: a fixed open-addressing table with Robin Hood displacement and
backward-shift deletion. A loop of the source is given as many rounds as the table has
buckets; `none` stands for a loop that would go on, or for an index outside the table. -/
namespace Virthub.Index

/-- Key of a block in the index and the store. -/
structure KvBlockKey where
  namespaceId : UInt64
  blockId : UInt64
  deriving DecidableEq, Repr

inductive HashIndexError where
  | keyNotFound (key : KvBlockKey)
  | capacityExceeded (capacity : ℕ)
  deriving DecidableEq, Repr

structure IndexSlotValue where
  tierId : UInt8
  blockOffset : UInt64
  payloadLen : UInt32
  deriving DecidableEq, Repr

structure HashIndexBucket where
  key : KvBlockKey
  value : IndexSlotValue
  occupied : Bool
  probeDistance : UInt16
  deriving DecidableEq, Repr

def HashIndexBucket.empty : HashIndexBucket :=
  ⟨⟨0, 0⟩, ⟨0, 0, 0⟩, false, 0⟩

structure ConcurrentHashIndex where
  buckets : List HashIndexBucket
  capacity : ℕ
  mask : ℕ
  count : ℕ
  deriving DecidableEq, Repr

namespace ConcurrentHashIndex

/-- `next_power_of_two` of a request above `2 ^ 63` wraps to zero, as in a release build. -/
def new (capacity : ℕ) : Except HashIndexError ConcurrentHashIndex :=
  let cap := max (Nat.nextPowerOfTwo capacity % 2 ^ 64) 16
  .ok ⟨List.replicate cap HashIndexBucket.empty, cap, cap - 1, 0⟩

/-- Little-endian bytes of a 64-bit word. -/
def toLeBytes (w : UInt64) : List UInt64 :=
  (List.range 8).map fun i => (w >>> (8 * i).toUInt64) &&& 0xff

/-- FNV-1a over the bytes of the key. -/
def hashKey (key : KvBlockKey) : ℕ :=
  ((toLeBytes key.namespaceId ++ toLeBytes key.blockId).foldl
    (fun hash b => (hash ^^^ b) * 0x100000001b3) 0xcbf29ce484222325).toNat

/-- `load_factor() > 0.75`. The capacity is a power of two, so the division is exact. -/
def overloaded (self : ConcurrentHashIndex) : Bool :=
  3 * Lib.natToF64 self.capacity < 4 * Lib.natToF64 self.count

def checkCapacity (self : ConcurrentHashIndex) : Except HashIndexError Unit :=
  if self.overloaded then .error (.capacityExceeded self.capacity) else .ok ()

def setBucket (self : ConcurrentHashIndex) (idx : ℕ) (b : HashIndexBucket) : ConcurrentHashIndex :=
  { self with buckets := self.buckets.set idx b }

/-- `(idx + 1) & self.mask`. -/
def nextIdx (self : ConcurrentHashIndex) (idx : ℕ) : ℕ := (idx + 1) &&& self.mask

def insertLoop : ℕ → ConcurrentHashIndex → ℕ → KvBlockKey → IndexSlotValue → UInt16 →
    Option (Except HashIndexError Unit × ConcurrentHashIndex)
  | 0, _, _, _, _, _ => none
  | fuel + 1, self, idx, currKey, currVal, currDist =>
    match self.buckets[idx]? with
    | none => none
    | some bucket =>
      if !bucket.occupied then
        some (.ok (),
          { self.setBucket idx ⟨currKey, currVal, true, currDist⟩ with count := self.count + 1 })
      else if bucket.key = currKey then
        some (.ok (), self.setBucket idx { bucket with value := currVal })
      -- the farther travelled entry takes the bucket and the other one moves on
      else if bucket.probeDistance < currDist then
        let self := self.setBucket idx
          { bucket with key := currKey, value := currVal, probeDistance := currDist }
        if self.capacity.toUInt16 < bucket.probeDistance + 1 then
          some (.error (.capacityExceeded self.capacity), self)
        else
          insertLoop fuel self (self.nextIdx idx) bucket.key bucket.value (bucket.probeDistance + 1)
      else if self.capacity.toUInt16 < currDist + 1 then
        some (.error (.capacityExceeded self.capacity), self)
      else
        insertLoop fuel self (self.nextIdx idx) currKey currVal (currDist + 1)

/-- The part of `insert` that runs under the write lock. -/
def insertLocked (hash : KvBlockKey → ℕ) (self : ConcurrentHashIndex) (key : KvBlockKey)
    (value : IndexSlotValue) : Option (Except HashIndexError Unit × ConcurrentHashIndex) :=
  insertLoop self.capacity self (hash key &&& self.mask) key value 0

def insert (hash : KvBlockKey → ℕ) (self : ConcurrentHashIndex) (key : KvBlockKey)
    (value : IndexSlotValue) : Option (Except HashIndexError Unit × ConcurrentHashIndex) :=
  match self.checkCapacity with
  | .error e => some (.error e, self)
  | .ok () => insertLocked hash self key value

def getLoop (self : ConcurrentHashIndex) (key : KvBlockKey) :
    ℕ → ℕ → UInt16 → Option (Except HashIndexError IndexSlotValue)
  | 0, _, _ => none
  | fuel + 1, idx, dist =>
    match self.buckets[idx]? with
    | none => none
    | some bucket =>
      if !bucket.occupied ∨ bucket.probeDistance < dist then some (.error (.keyNotFound key))
      else if bucket.key = key then some (.ok bucket.value)
      else if self.capacity.toUInt16 < dist + 1 then some (.error (.keyNotFound key))
      else getLoop self key fuel (self.nextIdx idx) (dist + 1)

def get (hash : KvBlockKey → ℕ) (self : ConcurrentHashIndex) (key : KvBlockKey) :
    Option (Except HashIndexError IndexSlotValue) :=
  getLoop self key self.capacity (hash key &&& self.mask) 0

/-- Backward-shift deletion: `prevIdx` is the bucket to fill, `currIdx` the one behind it. -/
def shiftLoop : ℕ → ConcurrentHashIndex → ℕ → ℕ → Option ConcurrentHashIndex
  | 0, _, _, _ => none
  | fuel + 1, self, prevIdx, currIdx =>
    match self.buckets[currIdx]? with
    | none => none
    | some nextBucket =>
      if !nextBucket.occupied ∨ nextBucket.probeDistance = 0 then
        some (self.setBucket prevIdx HashIndexBucket.empty)
      else
        let moved := { nextBucket with probeDistance := nextBucket.probeDistance - 1 }
        let self := (self.setBucket currIdx moved).setBucket prevIdx moved
        shiftLoop fuel self currIdx (self.nextIdx currIdx)

def removeLoop (self : ConcurrentHashIndex) (key : KvBlockKey) :
    ℕ → ℕ → UInt16 → Option (Except HashIndexError IndexSlotValue × ConcurrentHashIndex)
  | 0, _, _ => none
  | fuel + 1, idx, dist =>
    match self.buckets[idx]? with
    | none => none
    | some bucket =>
      if !bucket.occupied ∨ bucket.probeDistance < dist then
        some (.error (.keyNotFound key), self)
      else if bucket.key = key then
        (shiftLoop self.capacity self idx (self.nextIdx idx)).map fun self =>
          (.ok bucket.value, { self with count := self.count - 1 })
      else removeLoop self key fuel (self.nextIdx idx) (dist + 1)

def remove (hash : KvBlockKey → ℕ) (self : ConcurrentHashIndex) (key : KvBlockKey) :
    Option (Except HashIndexError IndexSlotValue × ConcurrentHashIndex) :=
  removeLoop self key self.capacity (hash key &&& self.mask) 0

def len (self : ConcurrentHashIndex) : ℕ := self.count

def iter (self : ConcurrentHashIndex) : List (KvBlockKey × IndexSlotValue) :=
  (self.buckets.filter (·.occupied)).map fun b => (b.key, b.value)

end ConcurrentHashIndex

inductive IndexCall where
  | insert (key : KvBlockKey) (value : IndexSlotValue)
  | get (key : KvBlockKey)
  | remove (key : KvBlockKey)
  | len
  | iter
  deriving DecidableEq

inductive IndexAnswer where
  | inserted (r : Except HashIndexError Unit)
  | got (r : Except HashIndexError IndexSlotValue)
  | removed (r : Except HashIndexError IndexSlotValue)
  | len (n : ℕ)
  | pairs (l : List (KvBlockKey × IndexSlotValue))

/-- The outcome of a call that changes the index; `none` if the call does not return. -/
def answered {ρ : Type} (self : ConcurrentHashIndex) (wrap : ρ → IndexAnswer) :
    Option (ρ × ConcurrentHashIndex) → Option IndexAnswer × ConcurrentHashIndex
  | some (r, self') => (some (wrap r), self')
  | none => (none, self)

open ConcurrentHashIndex in
/-- One call, run alone. -/
def step (hash : KvBlockKey → ℕ) (self : ConcurrentHashIndex) :
    IndexCall → Option IndexAnswer × ConcurrentHashIndex
  | .insert k v => answered self .inserted (insert hash self k v)
  | .get k => ((get hash self k).map .got, self)
  | .remove k => answered self .removed (remove hash self k)
  | .len => (some (.len self.len), self)
  | .iter => (some (.pairs self.iter), self)

end Virthub.Index
