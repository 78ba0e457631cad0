import Virthub.Index.RadixTree
import Virthub.Lib.Sweep

/-! Range queries on the radix tree. The cursor of `lookup_range` wraps at `2 ^ 64`; what it meets after
that is not part of the range. -/
namespace Virthub.Index
open Virthub.Lib.Sweep

namespace ConcurrentRadixTree

/-- The query ends with the mapped addresses `start + k * step < end`, in increasing order. -/
def RangeExact (tree : ConcurrentRadixTree) (startVaddr endVaddr step : UInt64) : Prop :=
  ∃ results, tree.lookupRange startVaddr endVaddr step = some results ∧
    results.Pairwise (fun r s => r.1 < s.1) ∧
    ∀ a v, (a, v) ∈ results ↔
      (∃ k, a.toNat = startVaddr.toNat + k * step.toNat ∧ a.toNat < endVaddr.toNat) ∧
        tree.lookup a = .ok v

/-- The cursor gets out of the range, and after it has wrapped it meets no mapped address before. -/
def WrapsUnmapped (tree : ConcurrentRadixTree) (startVaddr endVaddr step : UInt64) : Prop :=
  ∃ m, Leaves startVaddr step endVaddr m ∧
    ∀ j < m, 2 ^ 64 ≤ startVaddr.toNat + j * step.toNat →
      ∃ e, tree.lookup (cursor startVaddr step j) = .error e

section Queries
variable {tree : ConcurrentRadixTree} {startVaddr endVaddr step : UInt64}

theorem mappedAt_eq_some_iff {curr a : UInt64} {v : RadixLeafValue} :
    tree.mappedAt curr = some (a, v) ↔ curr = a ∧ tree.lookup curr = .ok v := by
  unfold mappedAt
  cases tree.lookup curr with
  | ok val => simp
  | error e => simp

theorem lookupRangeFrom_eq (tree : ConcurrentRadixTree) (endVaddr step : UInt64) (fuel : ℕ)
    (curr : UInt64) (results : List (UInt64 × RadixLeafValue)) :
    tree.lookupRangeFrom endVaddr step fuel curr results =
      (sweep step endVaddr fuel curr).map fun visited => results ++ visited.filterMap tree.mappedAt := by
  induction fuel generalizing curr results with
  | zero => rfl
  | succ fuel ih =>
    rw [lookupRangeFrom, sweep]
    split_ifs
    · rw [ih, Option.map_map]
      congr 1
      funext visited
      cases hm : tree.mappedAt curr <;> simp [hm]
    · simp

theorem lookupRange_eq_some_iff {results : List (UInt64 × RadixLeafValue)} :
    tree.lookupRange startVaddr endVaddr step = some results ↔ ∃ m,
      Leaves startVaddr step endVaddr m ∧
        results = (List.range m).filterMap fun j => tree.mappedAt (cursor startVaddr step j) := by
  rw [lookupRange, lookupRangeFrom_eq, Option.map_eq_some_iff]
  constructor
  · rintro ⟨visited, hv, rfl⟩
    obtain ⟨m, hleaves, rfl⟩ := sweep_full_eq_some_iff.mp hv
    exact ⟨m, hleaves, by rw [List.nil_append, List.filterMap_map]; rfl⟩
  · rintro ⟨m, hleaves, rfl⟩
    refine ⟨_, sweep_full_eq_some_iff.mpr ⟨m, hleaves, rfl⟩, ?_⟩
    rw [List.nil_append, List.filterMap_map]
    rfl

theorem mem_results_iff {m : ℕ} {a : UInt64} {v : RadixLeafValue} :
    (a, v) ∈ (List.range m).filterMap (fun j => tree.mappedAt (cursor startVaddr step j)) ↔
      (∃ j < m, cursor startVaddr step j = a) ∧ tree.lookup a = .ok v := by
  simp only [List.mem_filterMap, List.mem_range, mappedAt_eq_some_iff]
  constructor
  · rintro ⟨j, hj, rfl, hv⟩
    exact ⟨⟨j, hj, rfl⟩, hv⟩
  · rintro ⟨⟨j, hj, rfl⟩, hv⟩
    exact ⟨j, hj, rfl, hv⟩

theorem pairwise_results_iff {m : ℕ} :
    ((List.range m).filterMap fun j => tree.mappedAt (cursor startVaddr step j)).Pairwise
        (fun r s => r.1 < s.1) ↔
      ∀ i j, i < j → j < m → ∀ v w, tree.lookup (cursor startVaddr step i) = .ok v →
        tree.lookup (cursor startVaddr step j) = .ok w →
          cursor startVaddr step i < cursor startVaddr step j := by
  rw [List.pairwise_filterMap, List.pairwise_iff_getElem]
  constructor
  · intro h i j hij hj v w hv hw
    have hpair := h i j (by simp; omega) (by simpa using hj) hij (cursor startVaddr step i, v)
      (by simpa [mappedAt_eq_some_iff] using hv) (cursor startVaddr step j, w)
    simpa [mappedAt_eq_some_iff, hw] using hpair
  · intro h i j hi hj hij r hr s hs
    rw [List.getElem_range] at hr hs
    obtain ⟨hra, hrv⟩ := mappedAt_eq_some_iff.mp hr
    obtain ⟨hsa, hsv⟩ := mappedAt_eq_some_iff.mp hs
    rw [← hra, ← hsa]
    exact h i j hij (by simpa using hj) r.2 s.2 hrv hsv

/-- A query is exact exactly if its cursor gets out of the range and meets nothing after a wrap. -/
theorem rangeExact_iff_wrapsUnmapped (tree : ConcurrentRadixTree) (startVaddr endVaddr : UInt64)
    {step : UInt64} (hstep : 1 ≤ step) :
    tree.RangeExact startVaddr endVaddr step ↔ tree.WrapsUnmapped startVaddr endVaddr step := by
  have hpos : 0 < step.toNat := UInt64.le_iff_toNat_le.mp hstep
  constructor
  · intro h
    obtain ⟨results, hresults, hsorted, hexact⟩ := h
    obtain ⟨m, hleaves, heq⟩ := lookupRange_eq_some_iff.mp hresults
    subst heq
    refine ⟨m, hleaves, fun j hj hwrap => ?_⟩
    cases hl : tree.lookup (cursor startVaddr step j) with
    | error e => exact ⟨e, rfl⟩
    | ok v =>
      -- the address is in the range, so an earlier round has already found it
      obtain ⟨⟨k, hk, hkend⟩, -⟩ := (hexact _ v).mp (mem_results_iff.mpr ⟨⟨j, hj, rfl⟩, hl⟩)
      have hend := endVaddr.toNat_lt
      have hkj : k < j := by
        by_contra hge
        have hmul : j * step.toNat ≤ k * step.toNat := Nat.mul_le_mul_right _ (by omega)
        omega
      have hsame : cursor startVaddr step k = cursor startVaddr step j := by
        rw [← UInt64.toNat_inj, hk, toNat_cursor_of_lt (by omega)]
      have hlt := pairwise_results_iff.mp hsorted k j hkj hj v v (hsame ▸ hl) hl
      rw [hsame] at hlt
      exact absurd hlt (UInt64.lt_irrefl _)
  · intro h
    obtain ⟨m, hleaves, hunmapped⟩ := h
    have hin : ∀ j < m, ∀ v, tree.lookup (cursor startVaddr step j) = .ok v →
        startVaddr.toNat + j * step.toNat < 2 ^ 64 := by
      intro j hj v hv
      by_contra hwrap
      obtain ⟨e, he⟩ := hunmapped j hj (by omega)
      rw [hv] at he
      cases he
    refine ⟨_, lookupRange_eq_some_iff.mpr ⟨m, hleaves, rfl⟩, ?_, fun a v => ?_⟩
    · apply pairwise_results_iff.mpr
      intro i j hij hj v w hv hw
      have hmul : i * step.toNat < j * step.toNat := Nat.mul_lt_mul_of_pos_right hij hpos
      rw [UInt64.lt_iff_toNat_lt, toNat_cursor_of_lt (hin i (by omega) v hv),
        toNat_cursor_of_lt (hin j hj w hw)]
      omega
    · rw [mem_results_iff]
      constructor
      · intro hmem
        obtain ⟨⟨j, hj, rfl⟩, hv⟩ := hmem
        have hbelow := UInt64.lt_iff_toNat_lt.mp (hleaves.1 j hj)
        exact ⟨⟨j, toNat_cursor_of_lt (hin j hj v hv), hbelow⟩, hv⟩
      · intro hmem
        obtain ⟨⟨k, hk, hkend⟩, hv⟩ := hmem
        have hend := endVaddr.toNat_lt
        refine ⟨⟨k, hleaves.lt_of_below (by omega), ?_⟩, hv⟩
        rw [← UInt64.toNat_inj, toNat_cursor_of_lt (by omega), hk]

end Queries

def twoPages : ConcurrentRadixTree :=
  ((new.insert 0x1000 ⟨⟨1, 1⟩, 0, 0⟩).2.insert 0x3000 ⟨⟨1, 2⟩, 64, 0⟩).2

/-- The range of four pages, of which the second and the last one are mapped. -/
theorem rangeExact_two_pages :
    (1 : UInt64) ≤ 0x1000 ∧ twoPages.RangeExact 0 0x4000 0x1000 ∧
      twoPages.lookupRange 0 0x4000 0x1000 =
        some [(0x1000, ⟨⟨1, 1⟩, 0, 0⟩), (0x3000, ⟨⟨1, 2⟩, 64, 0⟩)] := by
  have hleaves : Leaves 0 0x1000 0x4000 4 := ⟨by decide, by decide⟩
  refine ⟨by decide, (rangeExact_iff_wrapsUnmapped twoPages 0 0x4000 (by decide)).mpr ⟨4, hleaves, ?_⟩, ?_⟩
  · intro j hj hwrap
    have hsmall : (0 : UInt64).toNat + j * (0x1000 : UInt64).toNat < 2 ^ 64 := by
      change 0 + j * 4096 < 2 ^ 64
      omega
    omega
  · exact lookupRange_eq_some_iff.mpr ⟨4, hleaves, by decide⟩

/-- Half the address space is a step that comes back to its start: the cursor never gets out of a range that
ends above it. -/
theorem upper_half_never_ends :
    (1 : UInt64) ≤ 0x8000000000000000 ∧
      new.lookupRange 0x8000000000000000 0xFFFFFFFFFFFFFFFF 0x8000000000000000 = none ∧
      ¬ new.RangeExact 0x8000000000000000 0xFFFFFFFFFFFFFFFF 0x8000000000000000 := by
  have hnone : new.lookupRange 0x8000000000000000 0xFFFFFFFFFFFFFFFF 0x8000000000000000 = none := by
    rw [Option.eq_none_iff_forall_ne_some]
    intro results hresults
    obtain ⟨m, hleaves, -⟩ := lookupRange_eq_some_iff.mp hresults
    have hleft := UInt64.le_iff_toNat_le.mp hleaves.2
    rw [toNat_cursor] at hleft
    have hstep : (0x8000000000000000 : UInt64).toNat = 2 ^ 63 := rfl
    have hend : (0xFFFFFFFFFFFFFFFF : UInt64).toNat = 2 ^ 64 - 1 := rfl
    rw [hstep, hend] at hleft
    omega
  refine ⟨by decide, hnone, fun h => ?_⟩
  obtain ⟨results, hresults, -⟩ := h
  rw [hnone] at hresults
  cases hresults

end ConcurrentRadixTree

end Virthub.Index
