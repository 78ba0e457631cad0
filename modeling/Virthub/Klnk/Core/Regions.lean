import Virthub.Klnk.Core.Units
import Virthub.Lib.Trace

/-! Frames of the region operations. All regions share one table of page states, so a region
keeps its entries as long as no two registered regions have a unit base in common. -/
namespace Virthub.Klnk
open Virthub.Lib

variable {d : MemoryRegionDescriptor}

namespace ControlPlaneManager

def SameUnits (s t : ControlPlaneManager) : Prop :=
  t.regions = s.regions ∧
    ∀ a, (t.pageStates.lookup a).isSome = (s.pageStates.lookup a).isSome

theorem sameUnits_modifyPage (self : ControlPlaneManager) (v : UInt64)
    (change : DistributedPageEntry → DistributedPageEntry) :
    SameUnits self (self.modifyPage v change).2 := by
  constructor
  · unfold modifyPage
    cases self.pageStates.lookup v <;> rfl
  · intro a
    have hlookup := self.lookup_modifyPage v a change
    unfold lookupPageState at hlookup
    rw [hlookup]
    split_ifs
    · exact Option.isSome_map
    · rfl

theorem sameUnits_batch {ι : Type} {op : ControlPlaneManager → ι → Bool × ControlPlaneManager}
    (hop : ∀ s x, SameUnits s (op s x).2) (self : ControlPlaneManager) (xs : List ι) :
    SameUnits self (batch op self xs).2 := by
  induction xs generalizing self with
  | nil => exact ⟨rfl, fun _ => rfl⟩
  | cons x xs ih =>
    have h1 := hop self x
    have h2 := ih (op self x).2
    exact ⟨h2.1.trans h1.1, fun a => (h2.2 a).trans (h1.2 a)⟩

/-- Every unit base of every registered region has an entry. -/
def UnitsPresent (s : ControlPlaneManager) : Prop :=
  ∀ r d, s.regions.lookup r = some d → ∀ a, IsUnit d a → (s.pageStates.lookup a).isSome = true

def regionOf : PageCall → Option GlobalRegionId
  | .registerRegion d _ => some d.regionId
  | .deregisterRegion r => some r
  | _ => none

/-- After the call the units of all registered regions have entries, and a region call has left
the entries of every other registered region as they were. -/
def Framed (e : Event ControlPlaneManager PageCall (Option PageAnswer)) : Prop :=
  UnitsPresent e.post ∧
    ∀ r r' d, regionOf e.call = some r → r' ≠ r → e.pre.regions.lookup r' = some d →
      ∀ a, IsUnit d a → e.post.pageStates.lookup a = e.pre.pageStates.lookup a

/-- A region that is registered anew fits below `2 ^ 64` and shares no unit base with a region
that is registered at the time. -/
def KeepsUnits (s : ControlPlaneManager) : PageCall → Prop
  | .registerRegion d _ => (s.regions.lookup d.regionId).isSome = true ∨
      Fits d ∧ ∀ r d', s.regions.lookup r = some d' → ∀ a, IsUnit d a → ¬ IsUnit d' a
  | _ => True

/-- The registered regions fit, have no unit base in common and have all their entries. -/
structure Separate (s : ControlPlaneManager) : Prop where
  fits : ∀ r d, s.regions.lookup r = some d → Fits d
  apart : ∀ r r' d d', r ≠ r' → s.regions.lookup r = some d → s.regions.lookup r' = some d' →
    ∀ a, IsUnit d a → ¬ IsUnit d' a
  present : UnitsPresent s

theorem separate_new (node : NodeId) : Separate (new node) :=
  ⟨by simp [new], by simp [new], by simp [UnitsPresent, new]⟩

theorem Separate.of_sameUnits {s t : ControlPlaneManager} (h : Separate s) (hst : SameUnits s t) :
    Separate t := by
  obtain ⟨hreg, hpages⟩ := hst
  refine ⟨?_, ?_, ?_⟩
  · rw [hreg]
    exact h.fits
  · rw [hreg]
    exact h.apart
  · intro r d hd a ha
    rw [hreg] at hd
    rw [hpages a]
    exact h.present r d hd a ha

theorem Separate.framed_of_sameUnits {s t : ControlPlaneManager} (h : Separate s)
    (hst : SameUnits s t) {c : PageCall} (hc : regionOf c = none) (ans : PageAnswer) :
    Separate t ∧ (some ans).isSome = true ∧ Framed ⟨s, c, some ans, t⟩ := by
  have ht := h.of_sameUnits hst
  refine ⟨ht, rfl, ht.present, fun r r' d hr => ?_⟩
  rw [hc] at hr
  cases hr

theorem Separate.register {s s' : ControlPlaneManager} (h : Separate s) (hf : Fits d)
    (hnew : s.regions.lookup d.regionId = none)
    (hapart : ∀ r d', s.regions.lookup r = some d' → ∀ a, IsUnit d a → ¬ IsUnit d' a)
    (hreg : s'.regions = s.regions.insert d.regionId d) {m : List UInt8}
    (hpages : ∀ a, s'.pageStates.lookup a = if a ∈ unitBases d then
      some (.newWithMetadata a d.pageSize s.localNodeId m) else s.pageStates.lookup a) :
    Separate s' ∧ ∀ r' d', s.regions.lookup r' = some d' →
      ∀ a, IsUnit d' a → s'.pageStates.lookup a = s.pageStates.lookup a := by
  have hold : ∀ r d', s'.regions.lookup r = some d' →
      (r = d.regionId ∧ d' = d) ∨ (r ≠ d.regionId ∧ s.regions.lookup r = some d') := by
    intro r d' hr
    rw [hreg] at hr
    by_cases hrd : r = d.regionId
    · rw [hrd, AList.lookup_insert] at hr
      exact Or.inl ⟨hrd, (Option.some.inj hr).symm⟩
    · rw [AList.lookup_insert_ne hrd] at hr
      exact Or.inr ⟨hrd, hr⟩
  have hframe : ∀ r' d', s.regions.lookup r' = some d' →
      ∀ a, IsUnit d' a → s'.pageStates.lookup a = s.pageStates.lookup a := by
    intro r' d' hr' a ha
    have hnot : a ∉ unitBases d := fun hmem =>
      hapart r' d' hr' a ((mem_unitBases hf a).mp hmem) ha
    rw [hpages a, if_neg hnot]
  refine ⟨⟨?_, ?_, ?_⟩, hframe⟩
  · intro r d' hr
    rcases hold r d' hr with ⟨-, rfl⟩ | ⟨-, hr⟩
    · exact hf
    · exact h.fits r d' hr
  · intro r r' d₁ d₂ hne h₁ h₂ a ha₁ ha₂
    rcases hold r d₁ h₁ with ⟨hr, rfl⟩ | ⟨-, h₁⟩ <;> rcases hold r' d₂ h₂ with ⟨hr', rfl⟩ | ⟨-, h₂⟩
    · exact hne (hr.trans hr'.symm)
    · exact hapart r' d₂ h₂ a ha₁ ha₂
    · exact hapart r d₁ h₁ a ha₂ ha₁
    · exact h.apart r r' d₁ d₂ hne h₁ h₂ a ha₁ ha₂
  · intro r d' hr a ha
    rcases hold r d' hr with ⟨-, rfl⟩ | ⟨-, hr⟩
    · rw [hpages a, if_pos ((mem_unitBases hf a).mpr ha)]
      rfl
    · rw [hframe r d' hr a ha]
      exact h.present r d' hr a ha

theorem Separate.deregister {s s' : ControlPlaneManager} (h : Separate s) {r : GlobalRegionId}
    (hreg : s.regions.lookup r = some d) (hregs : s'.regions = s.regions.erase r)
    (hpages : ∀ a, s'.pageStates.lookup a =
      if a ∈ unitBases d then none else s.pageStates.lookup a) :
    Separate s' ∧ ∀ r' d', r' ≠ r → s.regions.lookup r' = some d' →
      ∀ a, IsUnit d' a → s'.pageStates.lookup a = s.pageStates.lookup a := by
  have hold : ∀ r' d', s'.regions.lookup r' = some d' → r' ≠ r ∧ s.regions.lookup r' = some d' := by
    intro r' d' hr'
    rw [hregs] at hr'
    by_cases hrr : r' = r
    · rw [hrr, AList.lookup_erase] at hr'
      cases hr'
    · rw [AList.lookup_erase_ne hrr] at hr'
      exact ⟨hrr, hr'⟩
  have hframe : ∀ r' d', r' ≠ r → s.regions.lookup r' = some d' →
      ∀ a, IsUnit d' a → s'.pageStates.lookup a = s.pageStates.lookup a := by
    intro r' d' hne hr' a ha
    have hnot : a ∉ unitBases d := fun hmem =>
      h.apart r r' d d' hne.symm hreg hr' a ((mem_unitBases (h.fits r d hreg) a).mp hmem) ha
    rw [hpages a, if_neg hnot]
  refine ⟨⟨?_, ?_, ?_⟩, hframe⟩
  · exact fun r' d' hr' => h.fits r' d' (hold r' d' hr').2
  · intro r₁ r₂ d₁ d₂ hne h₁ h₂
    exact h.apart r₁ r₂ d₁ d₂ hne (hold r₁ d₁ h₁).2 (hold r₂ d₂ h₂).2
  · intro r' d' hr' a ha
    obtain ⟨hne, hr'⟩ := hold r' d' hr'
    rw [hframe r' d' hne hr' a ha]
    exact h.present r' d' hr' a ha

/-- A call that meets the condition keeps the regions separate, returns and is framed. -/
theorem Separate.pageStep {s : ControlPlaneManager} (h : Separate s) (c : PageCall)
    (hc : KeepsUnits s c) : Separate (s.pageStep c).2 ∧
      (event pageStep s c).answer.isSome = true ∧ Framed (event pageStep s c) := by
  cases c with
  | registerRegion d m =>
    cases hreg : s.regions.lookup d.regionId with
    | some d' =>
      have hstep : s.pageStep (.registerRegion d m) =
          (some (.region (.error (.regionAlreadyExists d.regionId))), s) := by
        rw [ControlPlaneManager.pageStep, registerRegionWithMetadata, hreg, regionAnswer]
      rw [event_eq hstep, hstep]
      exact ⟨h, rfl, h.present, fun _ _ _ _ _ _ _ _ => rfl⟩
    | none =>
      rcases hc with hsome | ⟨hf, hapart⟩
      · rw [hreg] at hsome
        cases hsome
      obtain ⟨s', hcall, hregs, hpages⟩ := register_of_fits hf hreg m
      have hstep : s.pageStep (.registerRegion d m) = (some (.region (.ok ())), s') := by
        rw [ControlPlaneManager.pageStep, hcall, regionAnswer]
      obtain ⟨hsep, hframe⟩ := h.register hf hreg hapart hregs hpages
      rw [event_eq hstep, hstep]
      exact ⟨hsep, rfl, hsep.present, fun _ r' d' _ _ hr' => hframe r' d' hr'⟩
  | deregisterRegion r =>
    cases hreg : s.regions.lookup r with
    | none =>
      have hstep : s.pageStep (.deregisterRegion r) =
          (some (.region (.error (.regionNotFound r))), s) := by
        rw [ControlPlaneManager.pageStep, deregisterRegion, hreg, regionAnswer]
      rw [event_eq hstep, hstep]
      exact ⟨h, rfl, h.present, fun _ _ _ _ _ _ _ _ => rfl⟩
    | some d =>
      obtain ⟨s', hcall, hregs, hpages⟩ := deregister_of_fits (h.fits r d hreg) hreg
      have hstep : s.pageStep (.deregisterRegion r) = (some (.region (.ok ())), s') := by
        rw [ControlPlaneManager.pageStep, hcall, regionAnswer]
      obtain ⟨hsep, hframe⟩ := h.deregister hreg hregs hpages
      rw [event_eq hstep, hstep]
      refine ⟨hsep, rfl, hsep.present, fun r₁ r' d' hr₁ hne hr' => ?_⟩
      obtain rfl := Option.some.inj hr₁
      exact hframe r' d' hne hr'
  | updatePageState a st o => exact h.framed_of_sameUnits (sameUnits_modifyPage s a _) rfl _
  | addReader a r => exact h.framed_of_sameUnits (sameUnits_modifyPage s a _) rfl _
  | removeReader a r => exact h.framed_of_sameUnits (sameUnits_modifyPage s a _) rfl _
  | setPageMetadata a m => exact h.framed_of_sameUnits (sameUnits_modifyPage s a _) rfl _
  | updatePageStatesBatch us =>
    refine h.framed_of_sameUnits (c := .updatePageStatesBatch us) ?_ rfl _
    exact sameUnits_batch (fun s u => sameUnits_modifyPage s u.1 _) s us
  | addReadersBatch us =>
    refine h.framed_of_sameUnits (c := .addReadersBatch us) ?_ rfl _
    exact sameUnits_batch (fun s u => sameUnits_modifyPage s u.1 _) s us
  | removeReadersBatch us =>
    refine h.framed_of_sameUnits (c := .removeReadersBatch us) ?_ rfl _
    exact sameUnits_batch (fun s u => sameUnits_modifyPage s u.1 _) s us

/-- In a run whose registered regions fit and never share a unit base, every call returns and is
framed. -/
theorem framed_of_keepsUnits (node : NodeId) (calls : List PageCall)
    (h : Along (fun _ => KeepsUnits) pageStep (new node) calls) :
    ∀ e ∈ trace pageStep (new node) calls, e.answer.isSome = true ∧ Framed e :=
  (forall_event_of_invariant (separate_new node) (fun _ c hs hc => hs.pageStep c hc) calls h).2

private def pageOf (pid : UInt32) (vaddr : UInt64) : MemoryRegionDescriptor :=
  ⟨⟨pid, 1⟩, vaddr, 4096, 0, 0, 4096, ⟨3⟩, 0, 0⟩

private def twoPages : List PageCall :=
  [.registerRegion (pageOf 100 0x1000) [7], .registerRegion (pageOf 200 0x2000) [],
    .updatePageState 0x1000 .exclusiveWrite ⟨1⟩, .deregisterRegion ⟨200, 1⟩]

private theorem twoPages_keepsUnits :
    Along (fun _ => KeepsUnits) pageStep (new ⟨1⟩) twoPages := by
  have hf₁ : Fits (pageOf 100 0x1000) := by decide
  have hf₂ : Fits (pageOf 200 0x2000) := by decide
  have hregs : (pageStep (new ⟨1⟩) (.registerRegion (pageOf 100 0x1000) [7])).2.regions =
      AList.insert ⟨100, 1⟩ (pageOf 100 0x1000) ∅ := rfl
  have hb₁ : unitBases (pageOf 100 0x1000) = [0x1000] := rfl
  have hb₂ : unitBases (pageOf 200 0x2000) = [0x2000] := rfl
  simp only [twoPages, along_cons, along_nil, and_true]
  refine ⟨Or.inr ⟨hf₁, by simp [new]⟩, Or.inr ⟨hf₂, fun r d' hr a ha hb => ?_⟩, trivial, trivial⟩
  rw [hregs] at hr
  by_cases hrr : r = ⟨100, 1⟩
  · rw [hrr, AList.lookup_insert] at hr
    obtain rfl := Option.some.inj hr
    rw [← mem_unitBases hf₂, hb₂, List.mem_singleton] at ha
    rw [← mem_unitBases hf₁, hb₁, List.mem_singleton, ha] at hb
    exact absurd hb (by decide)
  · rw [AList.lookup_insert_ne hrr] at hr
    cases hr

theorem framed_of_keepsUnits_two_pages :
    Along (fun _ => KeepsUnits) pageStep (new ⟨1⟩) twoPages ∧
      ∀ e ∈ trace pageStep (new ⟨1⟩) twoPages, e.answer.isSome = true ∧ Framed e :=
  ⟨twoPages_keepsUnits, framed_of_keepsUnits ⟨1⟩ twoPages twoPages_keepsUnits⟩

/-- The range of the region does not wrap around `2 ^ 64`. -/
def NoWrap (d : MemoryRegionDescriptor) : Prop :=
  d.mainVaddr.toNat + d.regionSize.toNat ≤ 2 ^ 64

/-- Two processes register the same address range; when the second one deregisters, the first
one's unit has lost its entry. -/
theorem framed_fails_on_overlap :
    ¬ ∀ (node : NodeId) (calls : List PageCall),
      (∀ d m, .registerRegion d m ∈ calls → NoWrap d) →
        ∀ e ∈ trace pageStep (new node) calls, Framed e := by
  intro h
  let calls : List PageCall :=
    [.registerRegion (pageOf 100 0x1000) [], .registerRegion (pageOf 200 0x1000) []]
  have hwrap : ∀ d m, .registerRegion d m ∈ calls ++ [.deregisterRegion ⟨200, 1⟩] → NoWrap d := by
    intro d m hmem
    simp only [calls, List.cons_append, List.nil_append, List.mem_cons, PageCall.registerRegion.injEq,
      reduceCtorEq, List.not_mem_nil, or_false] at hmem
    rcases hmem with ⟨rfl, -⟩ | ⟨rfl, -⟩ <;> unfold NoWrap <;> decide
  have hpresent := (h ⟨1⟩ _ hwrap _ (event_mem_trace pageStep (new ⟨1⟩) calls _ [])).1
  have hreg : (pageStep (exec pageStep (new ⟨1⟩) calls)
      (.deregisterRegion ⟨200, 1⟩)).2.regions.lookup ⟨100, 1⟩ = some (pageOf 100 0x1000) := by
    decide +kernel
  have hpage : (pageStep (exec pageStep (new ⟨1⟩) calls)
      (.deregisterRegion ⟨200, 1⟩)).2.pageStates.lookup 0x1000 = none := by
    decide +kernel
  have hsome := hpresent _ _ hreg 0x1000 ⟨0, by decide, by decide⟩
  dsimp only [event] at hsome
  rw [hpage] at hsome
  cases hsome

end ControlPlaneManager

end Virthub.Klnk
