import Virthub.Klnk.Core.ControlPlane
import Virthub.Lib.Trace

/-! One writer or many readers. An update to `ExclusiveWrite` empties the reader list of its page,
but `add_reader` does not look at the state, so the list of a page that a writer holds stays empty
only as long as no reader is added to it. -/
namespace Virthub.Klnk
open Virthub.Lib

/-- A page that is held for writing has no readers, and no reader is listed twice. -/
structure DistributedPageEntry.SingleWriter (entry : DistributedPageEntry) : Prop where
  exclusive : entry.coherenceState = .exclusiveWrite → entry.replicaHolders = []
  nodup : entry.replicaHolders.Nodup

namespace ControlPlaneManager

def SingleWriter (s : ControlPlaneManager) : Prop :=
  ∀ a entry, s.lookupPageState a = some entry → entry.SingleWriter

/-- The page at `a` is held for writing. -/
def Exclusive (s : ControlPlaneManager) (a : UInt64) : Prop :=
  (s.lookupPageState a).map (·.coherenceState) = some .exclusiveWrite

instance (s : ControlPlaneManager) (a : UInt64) : Decidable (s.Exclusive a) :=
  inferInstanceAs (Decidable (_ = _))

/-- The call adds no reader to a page that is held for writing. -/
def KeepsWriterAlone (s : ControlPlaneManager) : PageCall → Prop
  | .addReader a _ => ¬ s.Exclusive a
  | .addReadersBatch additions => ∀ u ∈ additions, ¬ s.Exclusive u.1
  | _ => True

theorem SingleWriter.modifyPage {s : ControlPlaneManager} (h : s.SingleWriter) {v : UInt64}
    {change : DistributedPageEntry → DistributedPageEntry}
    (hc : ∀ entry, s.lookupPageState v = some entry → entry.SingleWriter →
      (change entry).SingleWriter) : (s.modifyPage v change).2.SingleWriter := by
  intro a entry ha
  rw [lookup_modifyPage] at ha
  split_ifs at ha with hv
  · obtain ⟨old, hold, rfl⟩ := Option.map_eq_some_iff.mp ha
    exact hc old (hv ▸ hold) (h a old hold)
  · exact h a entry ha

theorem SingleWriter.updatePageState {s : ControlPlaneManager} (h : s.SingleWriter) (v : UInt64)
    (st : PageCoherenceState) (owner : NodeId) : (s.updatePageState v st owner).2.SingleWriter := by
  apply h.modifyPage
  intro entry _ hentry
  dsimp only
  split_ifs with hst
  · exact ⟨fun _ => rfl, List.nodup_nil⟩
  · exact ⟨fun hx => absurd hx hst, hentry.nodup⟩

theorem SingleWriter.addReader {s : ControlPlaneManager} (h : s.SingleWriter) {v : UInt64}
    (hv : ¬ s.Exclusive v) (reader : NodeId) : (s.addReader v reader).2.SingleWriter := by
  apply h.modifyPage
  intro entry hlookup hentry
  have hst : entry.coherenceState ≠ .exclusiveWrite := by
    intro hx
    exact hv (by simp [Exclusive, hlookup, hx])
  split_ifs with hr
  · exact hentry
  · refine ⟨fun hx => absurd hx hst, ?_⟩
    simpa using hentry.nodup.concat hr

theorem SingleWriter.removeReader {s : ControlPlaneManager} (h : s.SingleWriter) (v : UInt64)
    (reader : NodeId) : (s.removeReader v reader).2.SingleWriter := by
  apply h.modifyPage
  intro entry _ hentry
  refine ⟨fun hx => ?_, hentry.nodup.filter _⟩
  rw [hentry.exclusive hx]
  rfl

theorem SingleWriter.setPageMetadata {s : ControlPlaneManager} (h : s.SingleWriter) (v : UInt64)
    (metadata : List UInt8) : (s.setPageMetadata v metadata).2.SingleWriter := by
  apply h.modifyPage
  intro entry _ hentry
  exact ⟨hentry.exclusive, hentry.nodup⟩

theorem SingleWriter.batch {ι : Type} {op : ControlPlaneManager → ι → Bool × ControlPlaneManager}
    (hop : ∀ (t : ControlPlaneManager) x, t.SingleWriter → (op t x).2.SingleWriter)
    {s : ControlPlaneManager} (h : s.SingleWriter) (xs : List ι) :
    (ControlPlaneManager.batch op s xs).2.SingleWriter := by
  induction xs generalizing s with
  | nil => exact h
  | cons x xs ih => exact ih (hop s x h)

theorem exclusive_addReader (s : ControlPlaneManager) (v a : UInt64) (reader : NodeId) :
    (s.addReader v reader).2.Exclusive a ↔ s.Exclusive a := by
  unfold Exclusive
  rw [coherence_addReader]

theorem SingleWriter.addReadersBatch {s : ControlPlaneManager} (h : s.SingleWriter)
    {additions : List (UInt64 × NodeId)} (hu : ∀ u ∈ additions, ¬ s.Exclusive u.1) :
    (s.addReadersBatch additions).2.SingleWriter := by
  induction additions generalizing s with
  | nil => exact h
  | cons u us ih =>
    have hfirst : ¬ s.Exclusive u.1 := hu u List.mem_cons_self
    apply ih (h.addReader hfirst u.2)
    intro w hw
    rw [exclusive_addReader]
    exact hu w (List.mem_cons_of_mem u hw)

/-- Adding readers to a page lists them, and does nothing else to it. -/
theorem lookup_addReadersBatch {a : UInt64} {s : ControlPlaneManager} {entry : DistributedPageEntry}
    (h : s.lookupPageState a = some entry) (additions : List (UInt64 × NodeId)) :
    ∃ entry', (s.addReadersBatch additions).2.lookupPageState a = some entry' ∧
      entry'.coherenceState = entry.coherenceState ∧
      entry.replicaHolders ⊆ entry'.replicaHolders ∧
      ∀ u ∈ additions, u.1 = a → u.2 ∈ entry'.replicaHolders := by
  induction additions generalizing s entry with
  | nil => exact ⟨entry, h, rfl, List.Subset.refl _, by simp⟩
  | cons u us ih =>
    have hstep := s.lookup_modifyPage u.1 a fun entry =>
      if u.2 ∈ entry.replicaHolders then entry
      else { entry with replicaHolders := entry.replicaHolders ++ [u.2] }
    rw [h, Option.map_some] at hstep
    by_cases ha : a = u.1
    · rw [if_pos ha] at hstep
      obtain ⟨entry', hentry', hst, hsub, hmem⟩ := ih hstep
      refine ⟨entry', hentry', ?_, ?_, ?_⟩
      · rw [hst]
        split_ifs <;> rfl
      · refine List.Subset.trans ?_ hsub
        split_ifs
        · exact List.Subset.refl _
        · exact List.subset_append_left _ _
      · intro w hw hwa
        rcases List.mem_cons.mp hw with rfl | hw
        · apply hsub
          split_ifs with hr
          · exact hr
          · exact List.mem_append_right _ List.mem_cons_self
        · exact hmem w hw hwa
    · rw [if_neg ha] at hstep
      obtain ⟨entry', hentry', hst, hsub, hmem⟩ := ih hstep
      refine ⟨entry', hentry', hst, hsub, ?_⟩
      intro w hw hwa
      rcases List.mem_cons.mp hw with rfl | hw
      · exact absurd hwa.symm ha
      · exact hmem w hw hwa

/-- A reader that is added to a page held for writing stays in its list. -/
theorem not_exclusive_of_addReadersBatch {s : ControlPlaneManager}
    {additions : List (UInt64 × NodeId)} (h : (s.addReadersBatch additions).2.SingleWriter) :
    ∀ u ∈ additions, ¬ s.Exclusive u.1 := by
  intro u hu hx
  obtain ⟨entry, hentry, hst⟩ := Option.map_eq_some_iff.mp hx
  obtain ⟨entry', hentry', hst', -, hmem⟩ := lookup_addReadersBatch hentry additions
  have hnil : entry'.replicaHolders = [] := (h _ _ hentry').exclusive (hst'.trans hst)
  have hreader : u.2 ∈ entry'.replicaHolders := hmem u hu rfl
  rw [hnil] at hreader
  cases hreader

/-- The loop keeps what its body keeps. -/
theorem unitLoop_invariant {σ : Type} {I : σ → Prop} {body : UInt64 → σ → σ}
    (hbody : ∀ a s, I s → I (body a s)) {pageSize endAddr : UInt64} {fuel : ℕ} {currAddr : UInt64}
    {s s' : σ} (hs : I s) (h : unitLoop body pageSize endAddr fuel currAddr s = some s') : I s' := by
  induction fuel generalizing currAddr s with
  | zero => cases h
  | succ fuel ih =>
    unfold unitLoop at h
    split_ifs at h with hlt
    · exact ih (hbody currAddr s hs) h
    · cases h
      exact hs

theorem SingleWriter.regionAnswer {s : ControlPlaneManager} (h : s.SingleWriter)
    {r : Option (Except ControlPlaneError Unit × ControlPlaneManager)}
    (hr : ∀ p, r = some p → p.2.SingleWriter) : (s.regionAnswer r).2.SingleWriter := by
  cases r with
  | none => exact h
  | some p => exact hr p rfl

theorem SingleWriter.registerRegion {s : ControlPlaneManager} (h : s.SingleWriter)
    (d : MemoryRegionDescriptor) (metadata : List UInt8) :
    ∀ p, s.registerRegionWithMetadata d metadata = some p → p.2.SingleWriter := by
  intro p hp
  unfold registerRegionWithMetadata at hp
  cases hl : s.regions.lookup d.regionId with
  | some d' =>
    rw [hl] at hp
    cases hp
    exact h
  | none =>
    rw [hl] at hp
    obtain ⟨pages, hpages, rfl⟩ := Option.map_eq_some_iff.mp hp
    refine unitLoop_invariant (I := fun pages : AList fun _ : UInt64 => DistributedPageEntry =>
      ∀ a entry, pages.lookup a = some entry → entry.SingleWriter) ?_ h hpages
    intro v pages hi a entry ha
    by_cases hav : a = v
    · rw [hav, AList.lookup_insert] at ha
      cases ha
      exact ⟨fun _ => rfl, List.nodup_nil⟩
    · rw [AList.lookup_insert_ne hav] at ha
      exact hi a entry ha

theorem SingleWriter.deregisterRegion {s : ControlPlaneManager} (h : s.SingleWriter)
    (r : GlobalRegionId) : ∀ p, s.deregisterRegion r = some p → p.2.SingleWriter := by
  intro p hp
  unfold ControlPlaneManager.deregisterRegion at hp
  cases hl : s.regions.lookup r with
  | none =>
    rw [hl] at hp
    cases hp
    exact h
  | some d =>
    rw [hl] at hp
    obtain ⟨pages, hpages, rfl⟩ := Option.map_eq_some_iff.mp hp
    refine unitLoop_invariant (I := fun pages : AList fun _ : UInt64 => DistributedPageEntry =>
      ∀ a entry, pages.lookup a = some entry → entry.SingleWriter) ?_ h hpages
    intro v pages hi a entry ha
    by_cases hav : a = v
    · rw [hav, AList.lookup_erase] at ha
      cases ha
    · rw [AList.lookup_erase_ne hav] at ha
      exact hi a entry ha

theorem SingleWriter.pageStep {s : ControlPlaneManager} (h : s.SingleWriter) (c : PageCall)
    (hc : s.KeepsWriterAlone c) : (s.pageStep c).2.SingleWriter := by
  cases c with
  | registerRegion d metadata => exact h.regionAnswer (h.registerRegion d metadata)
  | deregisterRegion r => exact h.regionAnswer (h.deregisterRegion r)
  | updatePageState a st owner => exact h.updatePageState a st owner
  | updatePageStatesBatch updates =>
    exact h.batch (fun _ u ht => ht.updatePageState u.1 u.2.1 u.2.2) updates
  | addReader a reader => exact h.addReader hc reader
  | addReadersBatch additions => exact h.addReadersBatch hc
  | removeReader a reader => exact h.removeReader a reader
  | removeReadersBatch removals => exact h.batch (fun _ u ht => ht.removeReader u.1 u.2) removals
  | setPageMetadata a metadata => exact h.setPageMetadata a metadata

theorem keepsWriterAlone_of_pageStep {s : ControlPlaneManager} {c : PageCall}
    (h : (s.pageStep c).2.SingleWriter) : s.KeepsWriterAlone c := by
  cases c with
  | addReader a reader =>
    have hbatch : (s.addReadersBatch [(a, reader)]).2.SingleWriter := h
    exact not_exclusive_of_addReadersBatch hbatch (a, reader) List.mem_cons_self
  | addReadersBatch additions => exact not_exclusive_of_addReadersBatch h
  | _ => trivial

/-- Every state of a run keeps a writer alone exactly if no call of it adds a reader to a page
that is held for writing. -/
theorem singleWriter_iff (node : NodeId) (calls : List PageCall) :
    (∀ as, as <+: calls → (exec pageStep (new node) as).SingleWriter) ↔
      Along (fun _ => KeepsWriterAlone) pageStep (new node) calls := by
  apply forall_prefix_iff_along (I := SingleWriter)
  · intro a entry ha
    cases ha
  · exact fun _ h => h
  · exact fun _ c h hc => h.pageStep c hc
  · exact fun _ _ _ h => keepsWriterAlone_of_pageStep h

/-- A page that is registered, taken for writing and then given a reader. -/
theorem singleWriter_fails_on_addReader :
    ¬ ∀ (node : NodeId) (calls : List PageCall), (exec pageStep (new node) calls).SingleWriter := by
  intro h
  have hs := h ⟨1⟩ [.registerRegion ⟨⟨7, 1⟩, 0x1000, 4096, 0, 0, 4096, ⟨3⟩, 0, 0⟩ [],
    .updatePageState 0x1000 .exclusiveWrite ⟨1⟩, .addReader 0x1000 ⟨2⟩]
  have hnil : [(⟨2⟩ : NodeId)] = [] := (hs 0x1000 ⟨0x1000, 4096, .exclusiveWrite, ⟨1⟩, [⟨2⟩], 1, []⟩
    rfl).exclusive rfl
  cases hnil

end ControlPlaneManager

end Virthub.Klnk
