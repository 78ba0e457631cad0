import Virthub.Klnk.Rma.MrRegistry
import Mathlib.Algebra.Ring.Nat

/-! The bounds checks of region descriptors and memory regions, read as intervals of natural numbers. The
sums in the checks wrap, so a range whose end passes `2 ^ 64` can be taken for one inside the region. -/
namespace Virthub.Klnk.Rma

def Within (b n a l : UInt64) : Prop :=
  b.toNat ≤ a.toNat ∧ a.toNat + l.toNat ≤ b.toNat + n.toNat

/-- The checks of all regions of `n` bytes at `b` say for `l` bytes at `a` what the intervals say. -/
structure ChecksExact (b n a l : UInt64) : Prop where
  descriptor : ∀ d : MemoryRegionDescriptor, d.mainVaddr = b → d.regionSize = n →
    (d.containsRange a l = true ↔ Within b n a l)
  region : ∀ r : MemoryRegion, r.vaddr = b → r.size = n → (r.containsRange a l = true ↔ Within b n a l)
  offset : ∀ d : MemoryRegionDescriptor, d.mainVaddr = b → d.regionSize = n →
    (d.offsetOf a = some (a - b) ↔ b.toNat ≤ a.toNat ∧ a.toNat < b.toNat + n.toNat)

theorem rangeWithin_iff (b n a l : UInt64) :
    rangeWithin b n a l = true ↔
      b.toNat ≤ a.toNat ∧ (a.toNat + l.toNat) % 2 ^ 64 ≤ (b.toNat + n.toNat) % 2 ^ 64 := by
  rw [rangeWithin, Bool.and_eq_true, decide_eq_true_iff, decide_eq_true_iff, ge_iff_le,
    UInt64.le_iff_toNat_le, UInt64.le_iff_toNat_le, UInt64.toNat_add, UInt64.toNat_add]

theorem offsetOf_iff (d : MemoryRegionDescriptor) (a : UInt64) :
    d.offsetOf a = some (a - d.mainVaddr) ↔ d.mainVaddr.toNat ≤ a.toNat ∧
      a.toNat < (d.mainVaddr.toNat + d.regionSize.toNat) % 2 ^ 64 := by
  rw [← UInt64.toNat_add, ← UInt64.le_iff_toNat_le, ← UInt64.lt_iff_toNat_lt,
    MemoryRegionDescriptor.offsetOf]
  split_ifs with h
  · exact iff_of_true rfl h
  · exact iff_of_false (by simp) h

/-- The wrapped range check is right exactly if nothing wraps that could be taken for an address of the
region. -/
theorem rangeWithin_exact_iff {b n : UInt64} (hfit : b.toNat + n.toNat < 2 ^ 64) (a l : UInt64) :
    (rangeWithin b n a l = true ↔ Within b n a l) ↔
      a.toNat < b.toNat ∨ a.toNat + l.toNat < 2 ^ 64 ∨
        b.toNat + n.toNat + 2 ^ 64 < a.toNat + l.toNat := by
  have ha := a.toNat_lt
  have hl := l.toNat_lt
  rw [rangeWithin_iff, Within, Nat.mod_eq_of_lt hfit]
  by_cases hsum : a.toNat + l.toNat < 2 ^ 64
  · rw [Nat.mod_eq_of_lt hsum]
    exact iff_of_true Iff.rfl (.inr (.inl hsum))
  · have hwrap : (a.toNat + l.toNat) % 2 ^ 64 = a.toNat + l.toNat - 2 ^ 64 := by omega
    rw [hwrap]
    omega

theorem offsetOf_exact_iff {d : MemoryRegionDescriptor}
    (hfit : d.mainVaddr.toNat + d.regionSize.toNat ≤ 2 ^ 64) (a : UInt64) :
    (d.offsetOf a = some (a - d.mainVaddr) ↔
        d.mainVaddr.toNat ≤ a.toNat ∧ a.toNat < d.mainVaddr.toNat + d.regionSize.toNat) ↔
      a.toNat < d.mainVaddr.toNat ∨ d.mainVaddr.toNat + d.regionSize.toNat < 2 ^ 64 := by
  have ha := a.toNat_lt
  rw [offsetOf_iff]
  by_cases hlt : d.mainVaddr.toNat + d.regionSize.toNat < 2 ^ 64
  · rw [Nat.mod_eq_of_lt hlt]
    exact iff_of_true Iff.rfl (.inr hlt)
  · -- the end of the region is taken for zero
    have hzero : (d.mainVaddr.toNat + d.regionSize.toNat) % 2 ^ 64 = 0 := by omega
    rw [hzero]
    omega

def descriptorAt (b n : UInt64) : MemoryRegionDescriptor := ⟨⟨0, 0⟩, b, n, 0, 0, 4096, ⟨3⟩, 0, 0⟩

/-- The checks are exact for the addresses below the region, and for the others if the region ends below `2
^ 64` and the range ends there too or wraps to behind the region. -/
theorem checksExact_iff {b n : UInt64} (hfit : b.toNat + n.toNat ≤ 2 ^ 64) (a l : UInt64) :
    ChecksExact b n a l ↔ a.toNat < b.toNat ∨ b.toNat + n.toNat < 2 ^ 64 ∧
      (a.toNat + l.toNat < 2 ^ 64 ∨ b.toNat + n.toNat + 2 ^ 64 < a.toNat + l.toNat) := by
  constructor
  · intro h
    have hoffset := (offsetOf_exact_iff (d := descriptorAt b n) hfit a).mp
      (h.offset (descriptorAt b n) rfl rfl)
    rcases hoffset with hbelow | hlt
    · exact .inl hbelow
    · rcases (rangeWithin_exact_iff hlt a l).mp (h.descriptor (descriptorAt b n) rfl rfl) with
        hbelow | hrange
      · exact .inl hbelow
      · exact .inr ⟨hlt, hrange⟩
  · intro h
    have hrange : rangeWithin b n a l = true ↔ Within b n a l := by
      rcases h with hbelow | ⟨hlt, hends⟩
      · rw [rangeWithin_iff, Within]
        omega
      · exact (rangeWithin_exact_iff hlt a l).mpr (.inr hends)
    refine ⟨?_, ?_, ?_⟩
    · intro d hb hn
      rw [MemoryRegionDescriptor.containsRange, hb, hn]
      exact hrange
    · intro r hb hn
      rw [MemoryRegion.containsRange, hb, hn]
      exact hrange
    · intro d hb hn
      subst hb hn
      exact (offsetOf_exact_iff hfit a).mpr (h.imp_right And.left)

theorem checksExact_first_page :
    (0x1000 : UInt64).toNat + (0x1000 : UInt64).toNat ≤ 2 ^ 64 ∧ ChecksExact 0x1000 0x1000 0x1800 0x800 :=
  ⟨by decide, (checksExact_iff (by decide) 0x1800 0x800).mpr (.inr ⟨by decide, .inl (by decide)⟩)⟩

/-- A range that runs over the whole address space is taken for one of the page at its start. -/
theorem wrapped_range_contained :
    MemoryRegion.containsRange ⟨1, 1, 0x1000, 0x1000, 0, 0⟩ 0x1000 0xFFFFFFFFFFFFFFFF = true ∧
      ¬ Within 0x1000 0x1000 0x1000 0xFFFFFFFFFFFFFFFF ∧
      ¬ ChecksExact 0x1000 0x1000 0x1000 0xFFFFFFFFFFFFFFFF := by
  have hnot : ¬ Within 0x1000 0x1000 0x1000 0xFFFFFFFFFFFFFFFF := by
    intro h
    exact absurd h.2 (by decide)
  refine ⟨by decide, hnot, ?_⟩
  intro h
  exact hnot ((h.region ⟨1, 1, 0x1000, 0x1000, 0, 0⟩ rfl rfl).mp (by decide))

end Virthub.Klnk.Rma
