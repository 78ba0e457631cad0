import Virthub.Klnk.Core.Units
import Virthub.Lib.Trace

/-! Versions of pages over a run. A write raises the version of an entry, and a registration starts the
entries of its units over from zero, whatever versions their addresses had before. -/
namespace Virthub.Klnk
open Virthub.Lib

abbrev PageEvent := Event ControlPlaneManager PageCall (Option PageAnswer)

/-- The call is not the batch form of another one. -/
def PageCall.Single : PageCall → Prop
  | .updatePageStatesBatch _ | .addReadersBatch _ | .removeReadersBatch _ => False
  | _ => True

instance : DecidablePred PageCall.Single := fun call => by
  cases call <;> unfold PageCall.Single <;> infer_instance

/-- The event is a write of the page that has returned `true`. -/
def Writes (a : UInt64) (e : PageEvent) : Prop :=
  (∃ owner, e.call = .updatePageState a .exclusiveWrite owner) ∧ e.answer = some (.flag true)

theorem not_writes {a : UInt64} {e : PageEvent}
    (h : ∀ owner, e.call ≠ .updatePageState a .exclusiveWrite owner) : ¬ Writes a e := by
  rintro ⟨⟨owner, hcall⟩, -⟩
  exact h owner hcall

namespace ControlPlaneManager

/-- A version that a page has had before a write of it is not its version after the write. -/
def VersionsSound (h : List PageEvent) (s : ControlPlaneManager) : Prop :=
  ∀ a n, s.getPageVersion a = some n → ∀ past e rest, h = past ++ e :: rest → Writes a e →
    ∀ f ∈ past ++ [e], f.pre.getPageVersion a ≠ some n

/-- No registration starts over a page that has been written, and no version is the last one. -/
def KeepsVersions (h : List PageEvent) (s : ControlPlaneManager) : PageCall → Prop
  | .registerRegion d _ => s.regions.lookup d.regionId = none → ∀ units, visitedUnits d = some units →
    ∀ a ∈ units, ¬ Once (Writes a) h
  | .updatePageState a .exclusiveWrite _ => ∀ n, s.getPageVersion a = some n → n.toNat < 2 ^ 64 - 1
  | _ => True

/-- What an event can do to the version of a page. -/
inductive VersionStep (a : UInt64) (e : PageEvent) : Prop where
  | same (hno : ¬ Writes a e) (hsame : e.post.getPageVersion a = e.pre.getPageVersion a)
  | dropped (hno : ¬ Writes a e) (hnone : e.post.getPageVersion a = none)
  | reset (hno : ¬ Writes a e) (d : MemoryRegionDescriptor) (m : List UInt8) (units : List UInt64)
      (hcall : e.call = .registerRegion d m) (hnew : e.pre.regions.lookup d.regionId = none)
      (hunits : visitedUnits d = some units) (ha : a ∈ units)
      (hzero : e.post.getPageVersion a = some 0)
  | raised (hw : Writes a e) (n : UInt64) (hpre : e.pre.getPageVersion a = some n)
      (hpost : e.post.getPageVersion a = some (n + 1))

theorem getPageVersion_modifyPage (self : ControlPlaneManager) (v a : UInt64)
    (change : DistributedPageEntry → DistributedPageEntry)
    (hc : ∀ entry, (change entry).version = entry.version) :
    (self.modifyPage v change).2.getPageVersion a = self.getPageVersion a :=
  map_lookup_modifyPage (·.version) self v a hc

theorem versionStep_register (s : ControlPlaneManager) (d : MemoryRegionDescriptor) (m : List UInt8)
    (a : UInt64) : VersionStep a (event pageStep s (.registerRegion d m)) := by
  have hno : ¬ Writes a (event pageStep s (.registerRegion d m)) := not_writes (by simp [event])
  cases hr : s.regions.lookup d.regionId with
  | some r =>
    refine .same hno ?_
    dsimp only [event, pageStep, registerRegionWithMetadata]
    rw [hr]
    rfl
  | none =>
    cases hu : visitedUnits d with
    | none =>
      refine .same hno ?_
      dsimp only [event, pageStep]
      rw [register_of_endless hr hu]
      rfl
    | some units =>
      obtain ⟨pages, hreg, hpages⟩ := register_of_visited hr hu m
      have hpost : (pageStep s (.registerRegion d m)).2.getPageVersion a =
          (if a ∈ units then some (.newWithMetadata a d.pageSize s.localNodeId m)
            else s.pageStates.lookup a).map (·.version) := by
        dsimp only [pageStep]
        rw [hreg, ← hpages]
        rfl
      by_cases ha : a ∈ units
      · rw [if_pos ha] at hpost
        exact .reset hno d m units rfl hr hu ha hpost
      · rw [if_neg ha] at hpost
        exact .same hno hpost

theorem versionStep_deregister (s : ControlPlaneManager) (r : GlobalRegionId) (a : UInt64) :
    VersionStep a (event pageStep s (.deregisterRegion r)) := by
  have hno : ¬ Writes a (event pageStep s (.deregisterRegion r)) := not_writes (by simp [event])
  cases hr : s.regions.lookup r with
  | none =>
    refine .same hno ?_
    dsimp only [event, pageStep, deregisterRegion]
    rw [hr]
    rfl
  | some d =>
    cases hu : visitedUnits d with
    | none =>
      refine .same hno ?_
      dsimp only [event, pageStep]
      rw [deregister_of_endless hr hu]
      rfl
    | some units =>
      obtain ⟨pages, hdereg, hpages⟩ := deregister_of_visited hr hu
      have hpost : (pageStep s (.deregisterRegion r)).2.getPageVersion a =
          (if a ∈ units then none else s.pageStates.lookup a).map (·.version) := by
        dsimp only [pageStep]
        rw [hdereg, ← hpages]
        rfl
      by_cases ha : a ∈ units
      · rw [if_pos ha] at hpost
        exact .dropped hno hpost
      · rw [if_neg ha] at hpost
        exact .same hno hpost

/-- A write of a page that has an entry raises its version. -/
theorem writes_of_version {s : ControlPlaneManager} {a n : UInt64} (hn : s.getPageVersion a = some n)
    (owner : NodeId) : Writes a (event pageStep s (.updatePageState a .exclusiveWrite owner)) ∧
      (pageStep s (.updatePageState a .exclusiveWrite owner)).2.getPageVersion a = some (n + 1) := by
  obtain ⟨entry, hentry, rfl⟩ := Option.map_eq_some_iff.mp hn
  refine ⟨⟨⟨owner, rfl⟩, ?_⟩, ?_⟩
  · simp [event, pageStep, updatePageState, modifyPage, hentry]
  · simp [pageStep, updatePageState, modifyPage, getPageVersion, hentry]

theorem versionStep_updatePageState (s : ControlPlaneManager) (v : UInt64) (newState : PageCoherenceState)
    (owner : NodeId) (a : UInt64) :
    VersionStep a (event pageStep s (.updatePageState v newState owner)) := by
  by_cases hw : newState = .exclusiveWrite ∧ a = v
  · obtain ⟨rfl, rfl⟩ := hw
    cases hl : s.pageStates.lookup a with
    | none =>
      refine .same ?_ ?_
      · rintro ⟨-, hanswer⟩
        simp [event, pageStep, updatePageState, modifyPage, hl] at hanswer
      · simp [event, pageStep, updatePageState, modifyPage, hl]
    | some entry =>
      have hn : s.getPageVersion a = some entry.version := by
        rw [getPageVersion, hl]
        rfl
      obtain ⟨hw, hpost⟩ := writes_of_version hn owner
      exact .raised hw entry.version hn hpost
  · refine .same ?_ ?_
    · rintro ⟨⟨owner', hcall⟩, -⟩
      cases hcall
      exact hw ⟨rfl, rfl⟩
    · by_cases hstate : newState = .exclusiveWrite
      · -- a write of another page
        have hne : a ≠ v := fun hav => hw ⟨hstate, hav⟩
        have hlookup := s.lookup_modifyPage v a
        unfold lookupPageState at hlookup
        dsimp only [event, pageStep, updatePageState, getPageVersion, Prod.map_snd, id]
        rw [hlookup, if_neg hne]
      · refine getPageVersion_modifyPage s v a _ fun entry => ?_
        dsimp only
        rw [if_neg hstate]

theorem versionStep (s : ControlPlaneManager) (call : PageCall) (hsingle : call.Single) (a : UInt64) :
    VersionStep a (event pageStep s call) := by
  have hsame : ∀ v change, (∀ entry : DistributedPageEntry, (change entry).version = entry.version) →
      (∀ st o, call ≠ .updatePageState a st o) →
      (pageStep s call).2 = (s.modifyPage v change).2 → VersionStep a (event pageStep s call) := by
    intro v change hc hcall hpost
    refine .same (not_writes (hcall .exclusiveWrite)) ?_
    rw [event, hpost]
    exact getPageVersion_modifyPage s v a change hc
  cases call with
  | registerRegion d m => exact versionStep_register s d m a
  | deregisterRegion r => exact versionStep_deregister s r a
  | updatePageState v newState owner => exact versionStep_updatePageState s v newState owner a
  | addReader v reader =>
    refine hsame v _ (fun entry => ?_) (by simp) rfl
    split_ifs <;> rfl
  | removeReader v reader =>
    exact hsame v (fun entry => { entry with
      replicaHolders := entry.replicaHolders.filter (· ≠ reader) }) (fun _ => rfl) (by simp) rfl
  | setPageMetadata v metadata =>
    exact hsame v (fun entry => { entry with metadata }) (fun _ => rfl) (by simp) rfl
  | updatePageStatesBatch updates => exact hsingle.elim
  | addReadersBatch additions => exact hsingle.elim
  | removeReadersBatch removals => exact hsingle.elim

/-- The invariant of a run, for one page: its versions have not fallen, they are zero until the first write,
and a write has raised them. -/
structure VersionInv (a : UInt64) (h : List PageEvent) (s : ControlPlaneManager) : Prop where
  le : ∀ n, s.getPageVersion a = some n → ∀ f ∈ h, ∀ m, f.pre.getPageVersion a = some m → m ≤ n
  unwritten : ¬ Once (Writes a) h → ∀ n, s.getPageVersion a = some n → n = 0
  unwritten_past : ¬ Once (Writes a) h → ∀ f ∈ h, ∀ m, f.pre.getPageVersion a = some m → m = 0
  lt : ∀ n, s.getPageVersion a = some n → ∀ past e rest, h = past ++ e :: rest → Writes a e →
    ∀ f ∈ past ++ [e], ∀ m, f.pre.getPageVersion a = some m → m < n
  first : Once (Writes a) h → ∃ past e rest, h = past ++ e :: rest ∧ Writes a e ∧
    e.pre.getPageVersion a = some 0

theorem versionInv_new (node : NodeId) (a : UInt64) : VersionInv a [] (new node) := by
  constructor
  · intro n hn
    cases hn
  · intro _ n hn
    cases hn
  · intro _ f hf
    cases hf
  · intro n hn
    cases hn
  · intro hw
    exact absurd hw once_nil

/-- Without a write all versions so far are zero, the one before the event included. -/
theorem VersionInv.past_concat {a : UInt64} {h : List PageEvent} {e : PageEvent}
    (hi : VersionInv a h e.pre) (hno : ¬ Once (Writes a) (h ++ [e])) :
    ∀ f ∈ h ++ [e], ∀ m, f.pre.getPageVersion a = some m → m = 0 := by
  have hold : ¬ Once (Writes a) h := fun hw => hno (once_concat.mpr (.inl hw))
  intro f hf m hm
  rcases List.mem_append.mp hf with hf | hf
  · exact hi.unwritten_past hold f hf m hm
  · rw [List.mem_singleton.mp hf] at hm
    exact hi.unwritten hold m hm

/-- The version before an event is the highest so far. -/
theorem VersionInv.le_concat {a : UInt64} {h : List PageEvent} {e : PageEvent} (hi : VersionInv a h e.pre)
    {n : UInt64} (hpre : e.pre.getPageVersion a = some n) :
    ∀ f ∈ h ++ [e], ∀ m, f.pre.getPageVersion a = some m → m ≤ n := by
  intro f hf m hm
  rcases List.mem_append.mp hf with hf | hf
  · exact hi.le n hpre f hf m hm
  · rw [List.mem_singleton.mp hf, hpre] at hm
    rw [Option.some.inj hm]
    exact UInt64.le_refl m

theorem VersionInv.first_concat {a : UInt64} {h : List PageEvent} {e : PageEvent}
    (hi : VersionInv a h e.pre) (hpre : Writes a e → ∃ n, e.pre.getPageVersion a = some n)
    (hw : Once (Writes a) (h ++ [e])) :
    ∃ past f rest, h ++ [e] = past ++ f :: rest ∧ Writes a f ∧ f.pre.getPageVersion a = some 0 := by
  by_cases hold : Once (Writes a) h
  · obtain ⟨past, f, rest, rfl, hf, hzero⟩ := hi.first hold
    exact ⟨past, f, rest ++ [e], by simp, hf, hzero⟩
  · -- the first write finds the version of a page that has not been written
    have he := (once_concat.mp hw).resolve_left hold
    obtain ⟨n, hn⟩ := hpre he
    rw [hi.unwritten hold n hn] at hn
    exact ⟨h, e, [], rfl, he, hn⟩

/-- An event after which the page has the version of before, or none. -/
theorem VersionInv.of_same {a : UInt64} {h : List PageEvent} {e : PageEvent} (hi : VersionInv a h e.pre)
    (hno : ¬ Writes a e)
    (hsame : ∀ n, e.post.getPageVersion a = some n → e.pre.getPageVersion a = some n) :
    VersionInv a (h ++ [e]) e.post := by
  constructor
  · intro n hn
    exact hi.le_concat (hsame n hn)
  · intro hw n hn
    exact hi.unwritten (fun hold => hw (once_concat.mpr (.inl hold))) n (hsame n hn)
  · exact hi.past_concat
  · intro n hn past f rest heq hf g hg m hm
    rcases concat_eq_split.mp heq with ⟨-, rfl, -⟩ | ⟨rest', -, hh⟩
    · exact absurd hf hno
    · exact hi.lt n (hsame n hn) past f rest' hh hf g hg m hm
  · exact hi.first_concat fun he => absurd he hno

theorem VersionInv.of_reset {a : UInt64} {h : List PageEvent} {e : PageEvent} (hi : VersionInv a h e.pre)
    (hno : ¬ Writes a e) (hunwritten : ¬ Once (Writes a) h) (hzero : e.post.getPageVersion a = some 0) :
    VersionInv a (h ++ [e]) e.post := by
  have hnone : ¬ Once (Writes a) (h ++ [e]) := by
    rw [once_concat]
    exact not_or.mpr ⟨hunwritten, hno⟩
  constructor
  · intro n hn f hf m hm
    rw [hi.past_concat hnone f hf m hm]
    exact UInt64.zero_le
  · intro _ n hn
    exact (Option.some.inj (hzero.symm.trans hn)).symm
  · exact hi.past_concat
  · intro n hn past f rest heq hf
    exact absurd ⟨f, by rw [heq]; simp, hf⟩ hnone
  · intro hw
    exact absurd hw hnone

theorem VersionInv.of_raised {a : UInt64} {h : List PageEvent} {e : PageEvent} (hi : VersionInv a h e.pre)
    (hw : Writes a e) {n : UInt64} (hlast : n.toNat < 2 ^ 64 - 1) (hpre : e.pre.getPageVersion a = some n)
    (hpost : e.post.getPageVersion a = some (n + 1)) : VersionInv a (h ++ [e]) e.post := by
  have honce : Once (Writes a) (h ++ [e]) := once_concat.mpr (.inr hw)
  have hone : (1 : UInt64).toNat = 1 := rfl
  have hnext : n < n + 1 := by
    rw [UInt64.lt_iff_toNat_lt, UInt64.toNat_add, hone]
    omega
  have hle := hi.le_concat hpre
  constructor
  · intro k hk f hf m hm
    rw [← Option.some.inj (hpost.symm.trans hk)]
    exact UInt64.le_of_lt (UInt64.lt_of_le_of_lt (hle f hf m hm) hnext)
  · intro hno
    exact absurd honce hno
  · intro hno
    exact absurd honce hno
  · intro k hk past f rest heq hf g hg m hm
    rw [← Option.some.inj (hpost.symm.trans hk)]
    rcases concat_eq_split.mp heq with ⟨rfl, rfl, -⟩ | ⟨rest', -, hh⟩
    · exact UInt64.lt_of_le_of_lt (hle g hg m hm) hnext
    · exact UInt64.lt_trans (hi.lt n hpre past f rest' hh hf g hg m hm) hnext
  · exact hi.first_concat fun _ => ⟨n, hpre⟩

theorem VersionInv.step {a : UInt64} {h : List PageEvent} {s : ControlPlaneManager} (hi : VersionInv a h s)
    {call : PageCall} (hsingle : call.Single) (hc : KeepsVersions h s call) :
    VersionInv a (h ++ [event pageStep s call]) (pageStep s call).2 := by
  cases versionStep s call hsingle a with
  | same hno hsame => exact hi.of_same hno fun n hn => hsame.symm.trans hn
  | dropped hno hnone =>
    refine hi.of_same hno fun n hn => ?_
    rw [hnone] at hn
    cases hn
  | reset hno d m units hcall hnew hunits ha hzero =>
    obtain rfl : call = .registerRegion d m := hcall
    exact hi.of_reset hno (hc hnew units hunits a ha) hzero
  | raised hw n hpre hpost =>
    obtain ⟨owner, hcall⟩ := hw.1
    obtain rfl : call = .updatePageState a .exclusiveWrite owner := hcall
    exact hi.of_raised hw (hc n hpre) hpre hpost

/-- A page that has been written and shows version zero again shows it twice with the write between. -/
theorem VersionInv.not_sound {a : UInt64} {h : List PageEvent} {s t : ControlPlaneManager}
    (hi : VersionInv a h s) (hw : Once (Writes a) h) {e : PageEvent}
    (hzero : t.getPageVersion a = some 0) : ¬ VersionsSound (h ++ [e]) t := by
  intro hsound
  obtain ⟨past, f, rest, rfl, hf, hpre⟩ := hi.first hw
  exact hsound a 0 hzero past f (rest ++ [e]) (by simp) hf f (by simp) hpre

theorem keepsVersions_of_sound {h : List PageEvent} {s : ControlPlaneManager}
    (hi : ∀ a, VersionInv a h s) (call : PageCall)
    (hsound : VersionsSound (h ++ [event pageStep s call]) (pageStep s call).2) :
    KeepsVersions h s call := by
  cases call with
  | registerRegion d m =>
    intro hnew units hunits a ha hw
    obtain ⟨pages, hreg, hpages⟩ := register_of_visited hnew hunits m
    refine (hi a).not_sound hw ?_ hsound
    dsimp only [pageStep, getPageVersion]
    rw [hreg]
    dsimp only [regionAnswer]
    rw [hpages, if_pos ha]
    rfl
  | updatePageState a newState owner =>
    cases newState with
    | exclusiveWrite =>
      intro n hn
      by_contra hlast
      have hmax : n + 1 = 0 := by
        have hlt := n.toNat_lt
        have hone : (1 : UInt64).toNat = 1 := rfl
        rw [← UInt64.toNat_inj, UInt64.toNat_add, hone]
        have hzero : (0 : UInt64).toNat = 0 := rfl
        omega
      obtain ⟨-, hpost⟩ := writes_of_version hn owner
      rw [hmax] at hpost
      by_cases hold : Once (Writes a) h
      · exact (hi a).not_sound hold hpost hsound
      · rw [(hi a).unwritten hold n hn] at hlast
        exact hlast (by decide)
    | _ => trivial
  | _ => trivial

/-- Versions are sound exactly if no registration starts over a page that has been written and no version
runs out. -/
theorem versionsSound_iff_keepsVersions (node : NodeId) (calls : List PageCall)
    (hsingle : ∀ call ∈ calls, call.Single) :
    (∀ as, as <+: calls → VersionsSound (trace pageStep (new node) as) (exec pageStep (new node) as)) ↔
      Along KeepsVersions pageStep (new node) calls := by
  have hD : Along (fun _ _ call => call.Single) pageStep (new node) calls := by
    intro as call bs heq
    exact hsingle call (by simp [heq])
  refine forall_prefix_iff_along_history (I := fun h s => ∀ a, VersionInv a h s)
    (fun a => versionInv_new node a) ?_ ?_ ?_ calls hD
  · intro h s hi a n hn past e rest heq he f hf hpre
    exact absurd ((hi a).lt n hn past e rest heq he f hf n hpre) (UInt64.lt_irrefl n)
  · intro h s call hi hcall hc a
    exact (hi a).step hcall hc
  · intro h s call hi _ hsound
    exact keepsVersions_of_sound hi call hsound

private def onePage : MemoryRegionDescriptor := ⟨⟨7, 1⟩, 0x1000, 4096, 0, 0, 4096, ⟨3⟩, 0, 0⟩

private def writtenTwice : List PageCall :=
  [.registerRegion onePage [], .updatePageState 0x1000 .exclusiveWrite ⟨1⟩,
    .updatePageState 0x1000 .exclusiveWrite ⟨2⟩, .deregisterRegion ⟨7, 1⟩]

/-- A page that is registered, written twice and dropped. -/
theorem versionsSound_iff_keepsVersions_dropped :
    VersionsSound (trace pageStep (new ⟨1⟩) writtenTwice) (exec pageStep (new ⟨1⟩) writtenTwice) := by
  refine (versionsSound_iff_keepsVersions ⟨1⟩ writtenTwice (by decide)).mpr ?_ _ List.prefix_rfl
  simp only [writtenTwice, along_cons, along_nil, and_true]
  refine ⟨?_, ?_, ?_, trivial⟩
  · intro _ units _ a _
    exact once_nil
  · intro n hn
    obtain rfl : 0 = n := Option.some.inj (Eq.trans (by decide +kernel) hn)
    decide
  · intro n hn
    obtain rfl : 1 = n := Option.some.inj (Eq.trans (by decide +kernel) hn)
    decide

/-- A page that is written, dropped and registered again has its first version again. -/
theorem version_returns_after_registration :
    ¬ ∀ (node : NodeId) (calls : List PageCall), (∀ call ∈ calls, call.Single) →
      VersionsSound (trace pageStep (new node) calls) (exec pageStep (new node) calls) := by
  intro h
  let register : PageCall := .registerRegion onePage []
  let write : PageCall := .updatePageState 0x1000 .exclusiveWrite ⟨1⟩
  have hsound := h ⟨1⟩ [register, write, .deregisterRegion ⟨7, 1⟩, register] (by decide)
  have hlast : (exec pageStep (new ⟨1⟩) [register, write, .deregisterRegion ⟨7, 1⟩, register]).getPageVersion
      0x1000 = some 0 := by decide +kernel
  have hfirst : (exec pageStep (new ⟨1⟩) [register]).getPageVersion 0x1000 = some 0 := by decide +kernel
  exact hsound 0x1000 0 hlast [_] _ _ rfl ⟨⟨_, rfl⟩, rfl⟩ _
    (List.mem_append_right _ List.mem_cons_self) hfirst

end ControlPlaneManager

end Virthub.Klnk
