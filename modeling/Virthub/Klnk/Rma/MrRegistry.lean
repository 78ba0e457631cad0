import Virthub.Klnk.Core.Domain
import Virthub.Lib.Map

/-! The registry of memory regions: a table by remote key, and an index by address and size. -/
namespace Virthub.Klnk.Rma
open Virthub.Lib

structure MemoryRegion where
  rkey : UInt32
  lkey : UInt32
  vaddr : UInt64
  size : UInt64
  flags : UInt32
  nodeId : UInt32
  deriving DecidableEq, Repr

def MemoryRegion.containsRange (self : MemoryRegion) (targetVaddr length : UInt64) : Bool :=
  rangeWithin self.vaddr self.size targetVaddr length

inductive MemoryRegionError where
  | alreadyExists (rkey : UInt32)
  | notFound (rkey : UInt32)
  | invalidDescriptor (reason : String)
  deriving DecidableEq, Repr

/-- The digits of `{:x}`. -/
def lowerHex (n : ℕ) : String := String.ofList (Nat.toDigits 16 n)

def MemoryRegionError.display : MemoryRegionError → String
  | alreadyExists rkey => "Memory region key 0x" ++ lowerHex rkey.toNat ++ " already registered"
  | notFound rkey => "Memory region key 0x" ++ lowerHex rkey.toNat ++ " not found in registry"
  | invalidDescriptor reason => "Invalid memory region descriptor: " ++ reason

structure MemoryRegionRegistry where
  regions : AList fun _ : UInt32 => MemoryRegion
  vaddrIndex : AList fun _ : UInt64 × UInt64 => UInt32

namespace MemoryRegionRegistry

def new : MemoryRegionRegistry := ⟨∅, ∅⟩

def register (self : MemoryRegionRegistry) (region : MemoryRegion) :
    Except MemoryRegionError Unit × MemoryRegionRegistry :=
  if region.vaddr = 0 ∨ region.size = 0 then
    (.error (.invalidDescriptor "Base address and size must be non‑zero"), self)
  else if region.rkey ∈ self.regions then (.error (.alreadyExists region.rkey), self)
  else
    (.ok (), ⟨self.regions.insert region.rkey region,
      self.vaddrIndex.insert (region.vaddr, region.size) region.rkey⟩)

def get (self : MemoryRegionRegistry) (rkey : UInt32) : Option MemoryRegion := self.regions.lookup rkey

def getByVaddrSize (self : MemoryRegionRegistry) (vaddr size : UInt64) : Option MemoryRegion :=
  match self.vaddrIndex.lookup (vaddr, size) with
  | some rkey => self.regions.lookup rkey
  | none => none

def deregister (self : MemoryRegionRegistry) (rkey : UInt32) :
    Except MemoryRegionError MemoryRegion × MemoryRegionRegistry :=
  match self.regions.lookup rkey with
  | some region =>
    (.ok region, ⟨self.regions.erase rkey, self.vaddrIndex.erase (region.vaddr, region.size)⟩)
  | none => (.error (.notFound rkey), self)

/-- Regions are kept under their own keys, and the index is the inverse of the table. -/
structure Consistent (registry : MemoryRegionRegistry) : Prop where
  rkey_eq : ∀ {k m}, registry.regions.lookup k = some m → m.rkey = k
  index_iff : ∀ {v s k}, registry.vaddrIndex.lookup (v, s) = some k ↔
    ∃ m, registry.regions.lookup k = some m ∧ m.vaddr = v ∧ m.size = s

theorem Consistent.new : Consistent new := by
  constructor
  · intro k m h
    cases h
  · intro v s k
    constructor
    · intro h
      cases h
    · rintro ⟨m, h, -⟩
      cases h

theorem Consistent.getByVaddrSize_some {self : MemoryRegionRegistry} (h : self.Consistent)
    {vaddr size : UInt64} {m : MemoryRegion} (hm : self.getByVaddrSize vaddr size = some m) :
    self.regions.lookup m.rkey = some m ∧ m.vaddr = vaddr ∧ m.size = size := by
  unfold getByVaddrSize at hm
  cases hk : self.vaddrIndex.lookup (vaddr, size) with
  | none =>
    rw [hk] at hm
    cases hm
  | some k =>
    rw [hk] at hm
    obtain ⟨m', hm', hv, hs⟩ := h.index_iff.mp hk
    obtain rfl : m' = m := Option.some.inj (hm'.symm.trans hm)
    rw [h.rkey_eq hm']
    exact ⟨hm', hv, hs⟩

theorem Consistent.getByVaddrSize_none {self : MemoryRegionRegistry} (h : self.Consistent)
    {vaddr size : UInt64} (hm : self.getByVaddrSize vaddr size = none) :
    self.vaddrIndex.lookup (vaddr, size) = none := by
  cases hk : self.vaddrIndex.lookup (vaddr, size) with
  | none => rfl
  | some k =>
    obtain ⟨m, hl, -⟩ := h.index_iff.mp hk
    unfold getByVaddrSize at hm
    rw [hk] at hm
    have hnone : self.regions.lookup k = none := hm
    rw [hl] at hnone
    cases hnone

/-- A region with a new key and a new address keeps the registry consistent. -/
theorem Consistent.insert {self : MemoryRegionRegistry} (h : self.Consistent) {m : MemoryRegion}
    (hkey : self.regions.lookup m.rkey = none) (hindex : self.vaddrIndex.lookup (m.vaddr, m.size) = none) :
    Consistent ⟨self.regions.insert m.rkey m, self.vaddrIndex.insert (m.vaddr, m.size) m.rkey⟩ := by
  constructor
  · intro k m' hm'
    rcases lookup_insert_eq_some_iff.mp hm' with ⟨rfl, rfl⟩ | ⟨-, hm'⟩
    · rfl
    · exact h.rkey_eq hm'
  · intro v s k
    simp only [lookup_insert_eq_some_iff, h.index_iff]
    constructor
    · rintro (⟨hvs, rfl⟩ | ⟨-, m', hm', hv, hs⟩)
      · obtain ⟨rfl, rfl⟩ := Prod.mk.inj hvs
        exact ⟨m, .inl ⟨rfl, rfl⟩, rfl, rfl⟩
      · refine ⟨m', .inr ⟨?_, hm'⟩, hv, hs⟩
        rintro rfl
        rw [hkey] at hm'
        cases hm'
    · rintro ⟨m', ⟨rfl, rfl⟩ | ⟨-, hm'⟩, rfl, rfl⟩
      · exact .inl ⟨rfl, rfl⟩
      · -- another region at this address would be in the index
        have hold := h.index_iff.mpr ⟨m', hm', rfl, rfl⟩
        refine .inr ⟨?_, m', hm', rfl, rfl⟩
        intro hvs
        rw [hvs, hindex] at hold
        cases hold

theorem Consistent.deregister {self : MemoryRegionRegistry} (h : self.Consistent) (rkey : UInt32) :
    (self.deregister rkey).2.Consistent := by
  unfold MemoryRegionRegistry.deregister
  cases hl : self.regions.lookup rkey with
  | none => exact h
  | some m =>
    have hindex := h.index_iff.mpr ⟨m, hl, rfl, rfl⟩
    constructor
    · intro k m' hm'
      exact h.rkey_eq (lookup_erase_eq_some_iff.mp hm').2
    · intro v s k
      simp only [lookup_erase_eq_some_iff, h.index_iff]
      constructor
      · rintro ⟨hne, m', hm', rfl, rfl⟩
        refine ⟨m', ⟨?_, hm'⟩, rfl, rfl⟩
        rintro rfl
        obtain rfl : m = m' := Option.some.inj (hl.symm.trans hm')
        exact hne rfl
      · rintro ⟨m', ⟨hk, hm'⟩, rfl, rfl⟩
        refine ⟨?_, m', hm', rfl, rfl⟩
        intro hvs
        -- the only region at the address of the erased one is the erased one
        have hold := h.index_iff.mpr ⟨m', hm', rfl, rfl⟩
        rw [hvs, hindex] at hold
        exact hk (Option.some.inj hold).symm

end MemoryRegionRegistry

end Virthub.Klnk.Rma
