import Virthub.Klnk.Rma.TransportEngine
import Virthub.Lib.Trace

/-! Concurrent registrations with the provider. The lookup and the insertion take the locks of the registry
one after the other, so that another caller may come between them. -/
namespace Virthub.Klnk.Rma
open Virthub.Lib

/-- A call of `register_region` between its two steps. -/
structure PendingRegistration where
  vaddr : UInt64
  size : UInt64
  flags : UInt32

/-- The provider and its callers. -/
structure SharedProvider where
  provider : RdmaProvider
  pending : ℕ → Option PendingRegistration

inductive SharedCall where
  | lookup (caller : ℕ) (vaddr size : UInt64) (flags : UInt32)
  | insert (caller : ℕ)
  | deregister (rkey : UInt32)

/-- `waiting` is the answer to a step that does not end a call. -/
inductive SharedAnswer where
  | waiting
  | registered (result : Except RdmaProviderError MemoryRegion)
  | deregistered (result : Except RdmaProviderError Unit)

namespace SharedProvider

def new : SharedProvider := ⟨.new, fun _ => none⟩

def lookup (self : SharedProvider) (caller : ℕ) (vaddr size : UInt64) (flags : UInt32) :
    SharedAnswer × SharedProvider :=
  match self.pending caller, self.provider.mrRegistry.getByVaddrSize vaddr size with
  | some _, _ => (.waiting, self)
  | none, some existing => (.registered (.ok existing), self)
  | none, none =>
    (.waiting, { self with pending := Function.update self.pending caller (some ⟨vaddr, size, flags⟩) })

def insert (self : SharedProvider) (caller : ℕ) : SharedAnswer × SharedProvider :=
  match self.pending caller with
  | none => (.waiting, self)
  | some p =>
    let inserted := self.provider.insertRegion p.vaddr p.size p.flags
    (.registered inserted.1, ⟨inserted.2, Function.update self.pending caller none⟩)

def step (self : SharedProvider) : SharedCall → SharedAnswer × SharedProvider
  | .lookup caller vaddr size flags => self.lookup caller vaddr size flags
  | .insert caller => self.insert caller
  | .deregister rkey =>
    let removed := self.provider.deregisterRegion rkey
    (.deregistered removed.1, { self with provider := removed.2 })

/-- An idle caller whose two steps follow each other has made one call of `register_region`. -/
theorem lookup_insert_eq (self : SharedProvider) (caller : ℕ) (vaddr size : UInt64) (flags : UInt32)
    (h : self.pending caller = none) :
    (exec step self [.lookup caller vaddr size flags, .insert caller]).provider =
      (self.provider.registerRegion vaddr size flags).2 := by
  simp only [exec_cons, exec_nil, step, lookup, insert, RdmaProvider.registerRegion, h]
  cases self.provider.mrRegistry.getByVaddrSize vaddr size with
  | some existing => simp only [h]
  | none => simp only [Function.update_self]

theorem lookup_provider (self : SharedProvider) (caller : ℕ) (vaddr size : UInt64) (flags : UInt32) :
    (self.lookup caller vaddr size flags).2.provider = self.provider := by
  unfold lookup
  cases self.pending caller with
  | some p => rfl
  | none => cases self.provider.mrRegistry.getByVaddrSize vaddr size <;> rfl

end SharedProvider

namespace MemoryRegionRegistry

/-- A live region has the buffer. -/
def Has (registry : MemoryRegionRegistry) (vaddr size : UInt64) : Prop :=
  ∃ k m, registry.regions.lookup k = some m ∧ m.vaddr = vaddr ∧ m.size = size

/-- A buffer has at most one live region, and is found exactly if it has one. -/
structure Deduplicated (registry : MemoryRegionRegistry) : Prop where
  unique : ∀ {j k m n}, registry.regions.lookup j = some m → registry.regions.lookup k = some n →
    m.vaddr = n.vaddr → m.size = n.size → j = k
  found_iff : ∀ {vaddr size}, (registry.getByVaddrSize vaddr size).isSome ↔ registry.Has vaddr size

theorem Consistent.index_eq_none_iff {self : MemoryRegionRegistry} (h : self.Consistent)
    {vaddr size : UInt64} : self.vaddrIndex.lookup (vaddr, size) = none ↔ ¬ self.Has vaddr size := by
  rw [Option.eq_none_iff_forall_ne_some]
  simp only [ne_eq, h.index_iff, Has, not_exists]

theorem Consistent.deduplicated {self : MemoryRegionRegistry} (h : self.Consistent) :
    self.Deduplicated := by
  constructor
  · intro j k m n hm hn hv hs
    have hj := h.index_iff.mpr ⟨m, hm, hv, hs⟩
    rw [h.index_iff.mpr ⟨n, hn, rfl, rfl⟩] at hj
    exact (Option.some.inj hj).symm
  · intro vaddr size
    cases hg : self.getByVaddrSize vaddr size with
    | none =>
      refine iff_of_false (by simp) ?_
      exact h.index_eq_none_iff.mp (h.getByVaddrSize_none hg)
    | some m => exact iff_of_true rfl ⟨m.rkey, m, h.getByVaddrSize_some hg⟩

end MemoryRegionRegistry

namespace SharedProvider

/-- An insertion that succeeds finds no live region with its buffer. -/
def InsertsAlone (self : SharedProvider) : SharedCall → Prop
  | .insert caller => ∀ p m, self.pending caller = some p →
    (self.provider.insertRegion p.vaddr p.size p.flags).1 = .ok m →
      ¬ self.provider.mrRegistry.Has p.vaddr p.size
  | _ => True

theorem consistent_step {self : SharedProvider} (h : self.provider.mrRegistry.Consistent)
    (call : SharedCall) (hc : self.InsertsAlone call) :
    (self.step call).2.provider.mrRegistry.Consistent := by
  cases call with
  | lookup caller vaddr size flags =>
    rw [step, lookup_provider]
    exact h
  | deregister rkey =>
    have hd := h.deregister rkey
    dsimp only [step, RdmaProvider.deregisterRegion]
    generalize self.provider.mrRegistry.deregister rkey = result at hd
    rcases result with ⟨e | m, registry⟩ <;> exact hd
  | insert caller =>
    dsimp only [step, insert]
    cases hp : self.pending caller with
    | none => exact h
    | some p =>
      have hnone := fun m => hc p m hp
      have hinsert := self.provider.insertion p.vaddr p.size p.flags
      dsimp only
      generalize self.provider.insertRegion p.vaddr p.size p.flags = result at hinsert hnone
      cases hinsert with
      | fresh hkey hvalid =>
        exact h.insert (m := ⟨_, _, p.vaddr, p.size, p.flags, 0⟩) hkey
          (h.index_eq_none_iff.mpr (hnone _ rfl))
      | failed e hfail => exact h

/-- A second live region with the buffer shows after the insertion. -/
theorem insertsAlone_of_deduplicated {self : SharedProvider} (call : SharedCall)
    (h : (self.step call).2.provider.mrRegistry.Deduplicated) : self.InsertsAlone call := by
  cases call with
  | lookup caller vaddr size flags => trivial
  | deregister rkey => trivial
  | insert caller =>
    intro p m hp hok ⟨k, n, hn, hv, hs⟩
    dsimp only [step, insert] at h
    rw [hp] at h
    dsimp only at h
    have hinsert := self.provider.insertion p.vaddr p.size p.flags
    generalize self.provider.insertRegion p.vaddr p.size p.flags = result at hinsert hok h
    cases hinsert with
    | failed e hfail => cases hok
    | fresh hkey hvalid =>
      have hne : k ≠ self.provider.nextQpNum := by
        rintro rfl
        rw [hkey] at hn
        cases hn
      exact hne (h.unique ((AList.lookup_insert_ne hne).trans hn) (AList.lookup_insert _) hv hs)

/-- Regions stay apart exactly if no caller inserts a buffer that another one has inserted since the
lookup. -/
theorem deduplicated_iff_insertsAlone (calls : List SharedCall) :
    (∀ as, as <+: calls → (exec step new as).provider.mrRegistry.Deduplicated) ↔
      Along (fun _ => InsertsAlone) step new calls := by
  apply forall_prefix_iff_along (I := fun s : SharedProvider => s.provider.mrRegistry.Consistent)
    (P := fun s => s.provider.mrRegistry.Deduplicated)
  · exact MemoryRegionRegistry.Consistent.new
  · intro s hs
    exact hs.deduplicated
  · intro s call hs hc
    exact consistent_step hs call hc
  · intro s call _ hp
    exact insertsAlone_of_deduplicated call hp

/-- Two callers that both miss give the buffer two regions; when one of them ends, the other is lost to the
index. -/
theorem two_regions_of_one_buffer :
    ¬ (exec step new [.lookup 0 4096 64 3, .lookup 1 4096 64 3, .insert 0,
        .insert 1]).provider.mrRegistry.Deduplicated ∧
      (exec step new [.lookup 0 4096 64 3, .lookup 1 4096 64 3, .insert 0, .insert 1,
        .deregister 2]).provider.mrRegistry.Has 4096 64 ∧
      (exec step new [.lookup 0 4096 64 3, .lookup 1 4096 64 3, .insert 0, .insert 1,
        .deregister 2]).provider.mrRegistry.getByVaddrSize 4096 64 = none := by
  refine ⟨fun h => ?_, ⟨1, _, rfl, rfl, rfl⟩, rfl⟩
  have hkeys : (1 : UInt32) = 2 := h.unique rfl rfl rfl rfl
  cases hkeys

end SharedProvider

end Virthub.Klnk.Rma
