import Virthub.Klnk.Core.ControlPlane
import Virthub.Klnk.Rma.TransportEngine
import Virthub.Lib.Bincode
import Virthub.Lib.Map
import Virthub.Lib.Trace

/-! The metadata snapshot that peers read by RDMA. A snapshot carries the version that the publisher has
when the snapshot is built. The registration leaves that version as it is, and a refresh adds one to it only
after it has written the buffer. -/
namespace Virthub.Klnk.Daemon
open Virthub.Lib Virthub.Lib.Bincode Virthub.Klnk.Rma

structure SerializedPageEntry where
  pageVaddr : UInt64
  pageSize : UInt32
  coherenceState : UInt8
  primaryOwner : UInt64
  replicaHoldersCount : UInt32
  version : UInt64
  deriving DecidableEq, Repr

structure MetadataSnapshot where
  version : UInt64
  entries : List SerializedPageEntry
  deriving DecidableEq, Repr

/-- The size and the number of holders lose their high bits. -/
def SerializedPageEntry.from (entry : DistributedPageEntry) : SerializedPageEntry where
  pageVaddr := entry.pageVaddr
  pageSize := entry.pageSize.toUInt32
  coherenceState := match entry.coherenceState with
    | .invalid => 0
    | .sharedRead => 1
    | .exclusiveWrite => 2
    | .inFlight => 3
  primaryOwner := entry.primaryOwner.id
  replicaHoldersCount := UInt32.ofNat entry.replicaHolders.length
  version := entry.version

section Format

def putEntry (e : SerializedPageEntry) : List UInt8 :=
  putU64 e.pageVaddr ++ (putU32 e.pageSize ++ (putU8 e.coherenceState ++ (putU64 e.primaryOwner ++
    (putU32 e.replicaHoldersCount ++ putU64 e.version))))

def getEntry : Get SerializedPageEntry := do
  let pageVaddr ← getU64
  let pageSize ← getU32
  let coherenceState ← getU8
  let primaryOwner ← getU64
  let replicaHoldersCount ← getU32
  let version ← getU64
  pure ⟨pageVaddr, pageSize, coherenceState, primaryOwner, replicaHoldersCount, version⟩

def putSnapshot (s : MetadataSnapshot) : List UInt8 := putU64 s.version ++ putVec putEntry s.entries

def getSnapshot : Get MetadataSnapshot := do
  let version ← getU64
  let entries ← getVec getEntry
  pure ⟨version, entries⟩

theorem reads_getEntry (e : SerializedPageEntry) : Reads getEntry (putEntry e) e := by
  refine (reads_getU64 e.pageVaddr).bind ?_
  refine (reads_getU32 e.pageSize).bind ?_
  refine (reads_getU8 e.coherenceState).bind ?_
  refine (reads_getU64 e.primaryOwner).bind ?_
  refine (reads_getU32 e.replicaHoldersCount).bind ?_
  exact (reads_getU64 e.version).bind_pure

theorem reads_getSnapshot {s : MetadataSnapshot} (h : s.entries.length < 2 ^ 64) :
    Reads getSnapshot (putSnapshot s) s := by
  refine (reads_getU64 s.version).bind ?_
  exact (reads_getVec h fun e _ => reads_getEntry e).bind_pure

/-- The version in a buffer; it comes first. -/
def versionField (buffer : List UInt8) : Option UInt64 := decode getU64 buffer

def entriesField (buffer : List UInt8) : Option (List SerializedPageEntry) :=
  (decode getSnapshot buffer).map MetadataSnapshot.entries

@[simp] theorem versionField_putSnapshot (s : MetadataSnapshot) :
    versionField (putSnapshot s) = some s.version :=
  (reads_getU64 s.version).decode_append _

theorem entriesField_putSnapshot {s : MetadataSnapshot} (h : s.entries.length < 2 ^ 64) :
    entriesField (putSnapshot s) = some s.entries := by
  have hdecode := (reads_getSnapshot h).decode_append []
  rw [List.append_nil] at hdecode
  rw [entriesField, hdecode]
  rfl

end Format

/-- Writing a snapshot to memory does not fail. -/
inductive RdmaMetadataError where
  | registrationFailed (reason : String)
  deriving DecidableEq, Repr

structure RdmaMetadataPublisher where
  controlPlane : ControlPlaneManager
  rmaEngine : RmaTransportEngine
  metadataRegion : Option RegisteredRegion
  version : UInt64
  buffer : List UInt8

namespace RdmaMetadataPublisher

def new (controlPlane : ControlPlaneManager) (rmaEngine : RmaTransportEngine) :
    RdmaMetadataPublisher := ⟨controlPlane, rmaEngine, none, 0, []⟩

/-- The page states come in the order of a map, that of `rank`. -/
def buildSnapshot (self : RdmaMetadataPublisher) (rank : UInt64 → ℕ) : MetadataSnapshot where
  version := self.version
  entries := (visit rank self.controlPlane.pageStates).map fun entry => .from entry.2

/-- The buffer is written before the region is registered, at the address `vaddr` of its bytes. -/
def registerMetadata (self : RdmaMetadataPublisher) (rank : UInt64 → ℕ) (vaddr : UInt64) :
    Except RdmaMetadataError Unit × RdmaMetadataPublisher :=
  let serialized := putSnapshot (self.buildSnapshot rank)
  let self := { self with buffer := serialized }
  match self.rmaEngine.registerMemoryRegion vaddr (UInt64.ofNat serialized.length) none with
  | (.error e, engine) => (.error (.registrationFailed e.display), { self with rmaEngine := engine })
  | (.ok region, engine) =>
    (.ok (), { self with rmaEngine := engine, metadataRegion := some region })

def metadataVersion (self : RdmaMetadataPublisher) : UInt64 := self.version

def refreshMetadata (self : RdmaMetadataPublisher) (rank : UInt64 → ℕ) :
    Except RdmaMetadataError Unit × RdmaMetadataPublisher :=
  (.ok (), { self with
    buffer := putSnapshot (self.buildSnapshot rank)
    version := self.version + 1 })

end RdmaMetadataPublisher

/-- What happens after the registration. Of the calls that update the control plane only the outcome matters,
which may be any. -/
inductive PublisherCall where
  | refreshMetadata (rank : UInt64 → ℕ)
  | updateControlPlane (after : ControlPlaneManager)

def PublisherCall.IsRefresh : PublisherCall → Prop
  | refreshMetadata _ => True
  | updateControlPlane _ => False

instance : DecidablePred PublisherCall.IsRefresh
  | .refreshMetadata _ => inferInstanceAs (Decidable True)
  | .updateControlPlane _ => inferInstanceAs (Decidable False)

namespace RdmaMetadataPublisher

def publisherStep (self : RdmaMetadataPublisher) :
    PublisherCall → Except RdmaMetadataError Unit × RdmaMetadataPublisher
  | .refreshMetadata rank => self.refreshMetadata rank
  | .updateControlPlane after => (.ok (), { self with controlPlane := after })

abbrev PublisherEvent := Event RdmaMetadataPublisher PublisherCall (Except RdmaMetadataError Unit)

/-- The contents that the refreshes of a history have written. -/
def refreshed (h : List PublisherEvent) : List (List UInt8) :=
  (h.filter fun e => e.call.IsRefresh).map fun e => e.post.buffer

/-- The contents of the buffer that were published in a run: by the registration, and by each refresh. -/
def published (start : RdmaMetadataPublisher) (calls : List PublisherCall) : List (List UInt8) :=
  start.buffer :: refreshed (trace publisherStep start calls)

/-- Two contents with other entries have other versions. -/
def ToldApart (c d : List UInt8) : Prop :=
  entriesField c ≠ entriesField d → versionField c ≠ versionField d

structure VersionsIdentify (start : RdmaMetadataPublisher) (calls : List PublisherCall) : Prop where
  current : ∀ as, as <+: calls →
    versionField (exec publisherStep start as).buffer =
      some (exec publisherStep start as).metadataVersion
  distinct : (published start calls).Pairwise ToldApart

section Run
variable (start : RdmaMetadataPublisher) {calls : List PublisherCall}

/-- A registration publishes its version, whether or not the region is registered. -/
theorem registerMetadata_spec (self : RdmaMetadataPublisher) (rank : UInt64 → ℕ) (vaddr : UInt64) :
    versionField (self.registerMetadata rank vaddr).2.buffer = some self.version ∧
      (self.registerMetadata rank vaddr).2.version = self.version := by
  unfold registerMetadata
  dsimp only
  rcases self.rmaEngine.registerMemoryRegion vaddr _ none with ⟨r, engine⟩
  cases r <;> exact ⟨versionField_putSnapshot _, rfl⟩

theorem refreshed_refreshMetadata (h : List PublisherEvent) (t : RdmaMetadataPublisher)
    (rank : UInt64 → ℕ) :
    refreshed (h ++ [event publisherStep t (.refreshMetadata rank)]) =
      refreshed h ++ [putSnapshot (t.buildSnapshot rank)] := by
  rw [refreshed, List.filter_append, List.map_append]
  rfl

theorem refreshed_updateControlPlane (h : List PublisherEvent) (t : RdmaMetadataPublisher)
    (after : ControlPlaneManager) :
    refreshed (h ++ [event publisherStep t (.updateControlPlane after)]) = refreshed h := by
  rw [refreshed, List.filter_append, List.map_append]
  exact List.append_nil _

/-- The refreshes number their contents from the version at the start, and the version is the one that the
next refresh will write. -/
structure Numbered (h : List PublisherEvent) (t : RdmaMetadataPublisher) : Prop where
  fields : (refreshed h).map versionField =
    (List.range (refreshed h).length).map fun i => some (start.version + UInt64.ofNat i)
  version : t.version = start.version + UInt64.ofNat (refreshed h).length

theorem Numbered.step {h : List PublisherEvent} {t : RdmaMetadataPublisher} (hn : Numbered start h t)
    (call : PublisherCall) :
    Numbered start (h ++ [event publisherStep t call]) (publisherStep t call).2 := by
  cases call with
  | refreshMetadata rank =>
    constructor
    · rw [refreshed_refreshMetadata]
      simp [hn.fields, List.range_succ, buildSnapshot, hn.version]
    · change t.version + 1 = _
      rw [refreshed_refreshMetadata, hn.version, List.length_append, List.length_singleton,
        UInt64.ofNat_add, UInt64.add_assoc]
      rfl
  | updateControlPlane after =>
    constructor
    · rw [refreshed_updateControlPlane]
      exact hn.fields
    · rw [refreshed_updateControlPlane]
      exact hn.version

theorem numbered (calls : List PublisherCall) :
    Numbered start (trace publisherStep start calls) (exec publisherStep start calls) :=
  history_induction ⟨rfl, (UInt64.add_zero _).symm⟩ (fun _ _ call hn _ => hn.step start call) calls
    (along_true _ _ _)

theorem refreshed_eq_nil (h : ∀ call ∈ calls, ¬ call.IsRefresh) :
    refreshed (trace publisherStep start calls) = [] := by
  rw [refreshed, List.map_eq_nil_iff, List.filter_eq_nil_iff]
  intro e he hrefresh
  have hmem : e.call ∈ calls := by
    rw [← map_call_trace publisherStep start calls]
    exact List.mem_map_of_mem he
  exact h e.call hmem (of_decide_eq_true hrefresh)

theorem exec_of_no_refresh (h : ∀ call ∈ calls, ¬ call.IsRefresh) :
    (exec publisherStep start calls).buffer = start.buffer ∧
      (exec publisherStep start calls).version = start.version := by
  induction calls using List.reverseRecOn with
  | nil => exact ⟨rfl, rfl⟩
  | append_singleton as call ih =>
    have hprev := ih fun c hc => h c (List.mem_append_left _ hc)
    rw [exec_concat]
    cases call with
    | refreshMetadata rank => exact absurd trivial (h (.refreshMetadata rank) (by simp))
    | updateControlPlane after => exact hprev

end Run

/-- After a registration the versions identify the snapshots exactly if nothing is refreshed: a refresh adds
one to the version and leaves the old one in the buffer. -/
theorem versionsIdentify_iff (self : RdmaMetadataPublisher) (rank : UInt64 → ℕ) (vaddr : UInt64)
    (calls : List PublisherCall) :
    VersionsIdentify (self.registerMetadata rank vaddr).2 calls ↔
      ∀ call ∈ calls, ¬ call.IsRefresh := by
  obtain ⟨hfield, hversion⟩ := self.registerMetadata_spec rank vaddr
  constructor
  · intro h call hmem hrefresh
    obtain ⟨as, bs, rfl⟩ := List.append_of_mem hmem
    have hcurrent := h.current (as ++ [call]) ⟨bs, by simp⟩
    rw [exec_concat] at hcurrent
    cases call with
    | updateControlPlane after => exact hrefresh
    | refreshMetadata newRank =>
      generalize exec publisherStep _ as = t at hcurrent
      have hold : versionField (t.publisherStep (.refreshMetadata newRank)).2.buffer =
          some t.version := versionField_putSnapshot _
      have heq : t.version = t.version + 1 := Option.some.inj (hold.symm.trans hcurrent)
      simp at heq
  · intro h
    refine ⟨?_, ?_⟩
    · rintro as ⟨bs, rfl⟩
      obtain ⟨hbuffer, hkept⟩ := exec_of_no_refresh (self.registerMetadata rank vaddr).2
        fun call hc => h call (List.mem_append_left bs hc)
      rw [hbuffer, metadataVersion, hkept, hfield, hversion]
    · rw [published, refreshed_eq_nil _ h]
      exact List.pairwise_singleton _ _

/-- No two refreshes write the same version until the versions run out. -/
theorem nodup_versionField_refreshed {start : RdmaMetadataPublisher} {calls : List PublisherCall}
    (hn : (refreshed (trace publisherStep start calls)).length ≤ 2 ^ 64) :
    ((refreshed (trace publisherStep start calls)).map versionField).Nodup := by
  rw [(numbered start calls).fields]
  refine List.nodup_range.map_on fun i hi j hj heq => ?_
  rw [List.mem_range] at hi hj
  have hofNat : UInt64.ofNat i = UInt64.ofNat j := UInt64.add_right_inj _ |>.mp (Option.some.inj heq)
  have hmod := congrArg UInt64.toNat hofNat
  rwa [UInt64.toNat_ofNat', UInt64.toNat_ofNat', Nat.mod_eq_of_lt (by omega),
    Nat.mod_eq_of_lt (by omega)] at hmod

/-- Contents with other entries are told apart exactly if the first refresh finds the pages as the
registration did: only these two share a version. -/
theorem published_toldApart_iff (self : RdmaMetadataPublisher) (rank : UInt64 → ℕ) (vaddr : UInt64)
    {calls : List PublisherCall}
    (hn : (refreshed (trace publisherStep (self.registerMetadata rank vaddr).2 calls)).length ≤ 2 ^ 64) :
    (published (self.registerMetadata rank vaddr).2 calls).Pairwise ToldApart ↔
      ∀ c ∈ (refreshed (trace publisherStep (self.registerMetadata rank vaddr).2 calls)).head?,
        entriesField c = entriesField (self.registerMetadata rank vaddr).2.buffer := by
  obtain ⟨hfield, hversion⟩ := self.registerMetadata_spec rank vaddr
  generalize (self.registerMetadata rank vaddr).2 = start at *
  have hfields := (numbered start calls).fields
  have hnodup := nodup_versionField_refreshed hn
  rw [published, List.pairwise_cons]
  generalize refreshed (trace publisherStep start calls) = contents at *
  have hlater : contents.Pairwise ToldApart := by
    refine (List.pairwise_map.mp hnodup).imp ?_
    intro c d hne _
    exact hne
  cases contents with
  | nil => simp
  | cons c rest =>
    have hfirst : versionField c = versionField start.buffer := by
      rw [List.length_cons, List.range_succ_eq_map, List.map_cons, List.map_cons] at hfields
      rw [hfield, (List.cons.inj hfields).1, hversion]
      simp
    have hrest : ∀ d ∈ rest, ToldApart start.buffer d := by
      intro d hd _
      rw [← hfirst]
      exact (List.pairwise_cons.mp (List.pairwise_map.mp hnodup)).1 d hd
    constructor
    · rintro ⟨hapart, -⟩ d hd
      obtain rfl : c = d := Option.some.inj hd
      by_contra hne
      exact hapart c List.mem_cons_self (Ne.symm hne) hfirst.symm
    · intro h
      refine ⟨fun d hd => ?_, hlater⟩
      rcases List.mem_cons.mp hd with rfl | hd
      · exact fun hne => absurd (h d rfl).symm hne
      · exact hrest d hd

private def onePageRegion : MemoryRegionDescriptor := ⟨⟨7, 1⟩, 0x1000, 4096, 0, 0, 4096, ⟨1⟩, 0, 0⟩

/-- The publisher of a node without pages, with its region registered. -/
def registered : RdmaMetadataPublisher :=
  ((new (.new ⟨1⟩) .autoDetect).registerMetadata UInt64.toNat 0x8000).2

/-- A page is registered, and the snapshot refreshed. -/
def pageThenRefresh : List PublisherCall :=
  [.updateControlPlane ((ControlPlaneManager.new ⟨1⟩).pageStep (.registerRegion onePageRegion [])).2,
    .refreshMetadata UInt64.toNat]

/-- The registration and the first refresh publish different pages under version zero, and the version is then
one. -/
theorem refresh_repeats_version :
    registered.metadataRegion.isSome = true ∧
      (exec publisherStep registered pageThenRefresh).metadataVersion = 1 ∧
      (published registered pageThenRefresh).map versionField = [some 0, some 0] ∧
      (published registered pageThenRefresh).map entriesField =
        [some [], some [⟨0x1000, 4096, 0, 1, 0, 0⟩]] ∧
      ¬ VersionsIdentify registered pageThenRefresh := by
  refine ⟨by decide +kernel, by decide +kernel, by decide +kernel, by decide +kernel, ?_⟩
  intro h
  have hcurrent := h.current pageThenRefresh List.prefix_rfl
  have hstale : versionField (exec publisherStep registered pageThenRefresh).buffer ≠
      some (exec publisherStep registered pageThenRefresh).metadataVersion := by decide +kernel
  exact hstale hcurrent

end RdmaMetadataPublisher

end Virthub.Klnk.Daemon
