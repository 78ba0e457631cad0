import Virthub.Klnk.Core.Units
import Virthub.Klnk.Daemon.Control
import Virthub.Lib.Map

/-! The regions that the daemon has registered. A message names a region by its process and address, while the
control plane keeps it under the process and the low half of the address. -/
namespace Virthub.Klnk.Daemon
open Virthub.Lib

/-- The message has been acknowledged. -/
def Succeeds (e : DaemonEvent) : Prop := e.answer = some (.responseAck true "OK")

instance : DecidablePred Succeeds := fun _ => inferInstanceAs (Decidable (_ = _))

/-- The registered regions and their sizes as a client counts them, by the acknowledgements. -/
def recordRegion (regions : UInt32 × UInt64 → Option UInt64) (e : DaemonEvent) :
    UInt32 × UInt64 → Option UInt64 :=
  match e.call.payload with
  | .regionRegister pid vaddr size _ =>
    if Succeeds e then Function.update regions (pid, vaddr) (some size) else regions
  | .regionDeregister pid vaddr =>
    if Succeeds e then Function.update regions (pid, vaddr) none else regions
  | _ => regions

def registered (h : List DaemonEvent) : UInt32 × UInt64 → Option UInt64 :=
  h.foldl recordRegion fun _ => none

theorem registered_concat (h : List DaemonEvent) (e : DaemonEvent) :
    registered (h ++ [e]) = recordRegion (registered h) e := by
  simp [registered]

def InRange (vaddr size a : UInt64) : Prop :=
  vaddr.toNat ≤ a.toNat ∧ a.toNat < vaddr.toNat + size.toNat

instance (vaddr size a : UInt64) : Decidable (InRange vaddr size a) :=
  inferInstanceAs (Decidable (_ ∧ _))

/-- A registration is acknowledged unless the region is registered. A deregistration is acknowledged exactly
if the region is registered, and then removes the page entries in its range. -/
def IdentitySound (past : List DaemonEvent) (e : DaemonEvent) : Prop :=
  match e.call.payload with
  | .regionRegister pid vaddr _ _ => registered past (pid, vaddr) = none → Succeeds e
  | .regionDeregister pid vaddr =>
    (Succeeds e ↔ (registered past (pid, vaddr)).isSome = true) ∧
      ∀ size, registered past (pid, vaddr) = some size → ∀ a, e.post.pageStates.lookup a =
        if InRange vaddr size a then none else e.pre.pageStates.lookup a
  | _ => True

/-- No other registered region of the process has the low half of this address. -/
def Alone (h : List DaemonEvent) (pid : UInt32) (vaddr : UInt64) : Prop :=
  ∀ w, (registered h (pid, w)).isSome = true → w.toUInt32 = vaddr.toUInt32 → w = vaddr

/-- The region of a message is alone. A new region reaches the top of the address space, where the loop over
its units has no round, or fits below it. A region that is dropped ends below the top, and the page entries
in its range lie at its units. -/
def KeepsIdentity (h : List DaemonEvent) (s : ControlPlaneManager) (m : ClientMessage) : Prop :=
  match m.payload with
  | .regionRegister pid vaddr size flags => Alone h pid vaddr ∧ (registered h (pid, vaddr) = none →
      ReachesTop (regionDescriptor pid vaddr size flags) ∨ Fits (regionDescriptor pid vaddr size flags))
  | .regionDeregister pid vaddr => Alone h pid vaddr ∧ ∀ size, registered h (pid, vaddr) = some size →
      ∀ a, (s.pageStates.lookup a).isSome = true → InRange vaddr size a →
        vaddr.toNat + size.toNat < 2 ^ 64 ∧ a.toNat % 4096 = vaddr.toNat % 4096
  | _ => True

section Key

theorem regionIdOf_eq_iff {pid pid' : UInt32} {v w : UInt64} :
    regionIdOf pid v = regionIdOf pid' w ↔ pid = pid' ∧ v.toUInt32 = w.toUInt32 := by
  constructor
  · intro h
    exact ⟨congrArg GlobalRegionId.ownerPid h, congrArg (fun r => r.shmid.toUInt32) h⟩
  · rintro ⟨rfl, h⟩
    rw [regionIdOf, h, regionIdOf]

theorem pageSize_regionDescriptor (pid : UInt32) (v size : UInt64) (flags : UInt32) :
    (regionDescriptor pid v size flags).pageSize.toNat = 4096 := by
  change (max 4096 4096 : UInt64).toNat = 4096
  decide

theorem isUnit_regionDescriptor {pid : UInt32} {v size : UInt64} {flags : UInt32} {a : UInt64} :
    IsUnit (regionDescriptor pid v size flags) a ↔
      InRange v size a ∧ a.toNat % 4096 = v.toNat % 4096 := by
  unfold IsUnit InRange
  rw [pageSize_regionDescriptor]
  dsimp only [regionDescriptor]
  constructor
  · rintro ⟨k, ha, hk⟩
    omega
  · rintro ⟨⟨hle, hlt⟩, hmod⟩
    refine ⟨(a.toNat - v.toNat) / 4096, ?_, ?_⟩ <;> omega

end Key

/-- What a registration can do. -/
inductive RegisterStep (d : MemoryRegionDescriptor) (e : DaemonEvent) : Prop where
  | taken (d' : MemoryRegionDescriptor) (hkey : e.pre.regions.lookup d.regionId = some d')
      (hno : ¬ Succeeds e) (hpost : e.post = e.pre)
  | endless (hkey : e.pre.regions.lookup d.regionId = none) (hends : ¬ (ReachesTop d ∨ Fits d))
      (hno : ¬ Succeeds e) (hpost : e.post = e.pre)
  | added (hkey : e.pre.regions.lookup d.regionId = none) (hends : ReachesTop d ∨ Fits d)
      (hok : Succeeds e) (hregions : e.post.regions = e.pre.regions.insert d.regionId d)

inductive DeregisterStep (r : GlobalRegionId) (e : DaemonEvent) : Prop where
  | unknown (hkey : e.pre.regions.lookup r = none) (hno : ¬ Succeeds e) (hpost : e.post = e.pre)
  | endless (d : MemoryRegionDescriptor) (hkey : e.pre.regions.lookup r = some d)
      (hunits : visitedUnits d = none) (hno : ¬ Succeeds e) (hpost : e.post = e.pre)
  | removed (d : MemoryRegionDescriptor) (hkey : e.pre.regions.lookup r = some d) (units : List UInt64)
      (hunits : visitedUnits d = some units) (hok : Succeeds e)
      (hregions : e.post.regions = e.pre.regions.erase r)
      (hpages : ∀ a, e.post.pageStates.lookup a = if a ∈ units then none else e.pre.pageStates.lookup a)

theorem not_succeeds_of_error {s t : ControlPlaneManager} {m : ClientMessage} (err : ControlPlaneError) :
    ¬ Succeeds ⟨s, m, some (ack (.error err)), t⟩ := by
  simp [Succeeds, ack]

theorem daemonStep_of_returns {s s' : ControlPlaneManager} {m : ClientMessage}
    {response : ControlMessagePayload}
    (h : processControlPayload m.payload s = some (response, s')) : daemonStep s m = (some response, s') := by
  rw [daemonStep, h]

theorem daemonStep_of_endless {s : ControlPlaneManager} {m : ClientMessage}
    (h : processControlPayload m.payload s = none) : daemonStep s m = (none, s) := by
  rw [daemonStep, h]

theorem processControlPayload_register {s : ControlPlaneManager} {pid : UInt32} {v size : UInt64}
    {flags : UInt32} {r : Option (Except ControlPlaneError Unit × ControlPlaneManager)}
    (h : s.registerRegionWithMetadata (regionDescriptor pid v size flags) [] = r) :
    processControlPayload (.regionRegister pid v size flags) s = r.map (Prod.map ack id) := by
  rw [← h]
  rfl

theorem processControlPayload_deregister {s : ControlPlaneManager} {pid : UInt32} {v : UInt64}
    {r : Option (Except ControlPlaneError Unit × ControlPlaneManager)}
    (h : s.deregisterRegion (regionIdOf pid v) = r) :
    processControlPayload (.regionDeregister pid v) s = r.map (Prod.map ack id) := by
  rw [← h]
  rfl

theorem registerStep (s : ControlPlaneManager) (connection : ℕ) (pid : UInt32) (v size : UInt64)
    (flags : UInt32) : RegisterStep (regionDescriptor pid v size flags)
      (event daemonStep s ⟨connection, .regionRegister pid v size flags⟩) := by
  set d := regionDescriptor pid v size flags with hd
  cases hkey : s.regions.lookup d.regionId with
  | some d' =>
    have herr : s.registerRegionWithMetadata d [] = some (.error (.regionAlreadyExists d.regionId), s) := by
      rw [ControlPlaneManager.registerRegionWithMetadata, hkey]
    rw [event_eq (daemonStep_of_returns (processControlPayload_register herr))]
    exact .taken d' hkey (not_succeeds_of_error _) rfl
  | none =>
    by_cases hends : ReachesTop d ∨ Fits d
    · obtain ⟨units, hu⟩ := exists_visitedUnits hends
      obtain ⟨pages, hreg, -⟩ := ControlPlaneManager.register_of_visited hkey hu []
      rw [event_eq (daemonStep_of_returns (processControlPayload_register hreg))]
      exact .added hkey hends rfl rfl
    · have hdvd : d.pageSize.toNat ∣ 2 ^ 64 := by
        rw [hd, pageSize_regionDescriptor]
        decide
      have hnone := visitedUnits_of_not_fits hdvd (fun ht => hends (.inl ht)) fun hf => hends (.inr hf)
      have hloop := ControlPlaneManager.register_of_endless hkey hnone []
      rw [event_eq (daemonStep_of_endless (processControlPayload_register hloop))]
      exact .endless hkey hends (by simp [Succeeds]) rfl

theorem deregisterStep (s : ControlPlaneManager) (connection : ℕ) (pid : UInt32) (v : UInt64) :
    DeregisterStep (regionIdOf pid v) (event daemonStep s ⟨connection, .regionDeregister pid v⟩) := by
  cases hkey : s.regions.lookup (regionIdOf pid v) with
  | none =>
    have herr : s.deregisterRegion (regionIdOf pid v) =
        some (.error (.regionNotFound (regionIdOf pid v)), s) := by
      rw [ControlPlaneManager.deregisterRegion, hkey]
    rw [event_eq (daemonStep_of_returns (processControlPayload_deregister herr))]
    exact .unknown hkey (not_succeeds_of_error _) rfl
  | some d =>
    cases hu : visitedUnits d with
    | none =>
      have hloop := ControlPlaneManager.deregister_of_endless hkey hu
      rw [event_eq (daemonStep_of_endless (processControlPayload_deregister hloop))]
      exact .endless d hkey hu (by simp [Succeeds]) rfl
    | some units =>
      obtain ⟨pages, hdereg, hpages⟩ := ControlPlaneManager.deregister_of_visited hkey hu
      rw [event_eq (daemonStep_of_returns (processControlPayload_deregister hdereg))]
      exact .removed d hkey units hu rfl rfl hpages

/-- The control plane has the regions that the clients count, each under its key. -/
structure IdentityInv (h : List DaemonEvent) (s : ControlPlaneManager) : Prop where
  listed : ∀ pid v size, registered h (pid, v) = some size → ∃ flags,
    s.regions.lookup (regionIdOf pid v) = some (regionDescriptor pid v size flags)
  known : ∀ r d, s.regions.lookup r = some d → (ReachesTop d ∨ Fits d) ∧
    ∃ pid v size flags, r = regionIdOf pid v ∧ d = regionDescriptor pid v size flags ∧
      registered h (pid, v) = some size

theorem identityInv_new (node : NodeId) : IdentityInv [] (.new node) := by
  constructor
  · intro pid v size hsize
    cases hsize
  · intro r d hr
    cases hr

namespace IdentityInv

variable {h : List DaemonEvent} {s : ControlPlaneManager}

theorem of_same (hi : IdentityInv h s) {e : DaemonEvent} {t : ControlPlaneManager}
    (hregistered : registered (h ++ [e]) = registered h) (hregions : t.regions = s.regions) :
    IdentityInv (h ++ [e]) t := by
  constructor
  · rw [hregistered, hregions]
    exact hi.listed
  · rw [hregistered, hregions]
    exact hi.known

/-- A region is alone exactly if its key is free unless it is registered itself. -/
theorem alone_iff (hi : IdentityInv h s) (pid : UInt32) (v : UInt64) :
    Alone h pid v ↔ (registered h (pid, v) = none → s.regions.lookup (regionIdOf pid v) = none) := by
  constructor
  · intro halone hv
    cases hkey : s.regions.lookup (regionIdOf pid v) with
    | none => rfl
    | some d =>
      obtain ⟨-, pid', w, size, flags, hr, -, hw⟩ := hi.known _ d hkey
      obtain ⟨rfl, hlow⟩ := regionIdOf_eq_iff.mp hr
      rw [halone w (by rw [hw]; rfl) hlow.symm, hv] at hw
      cases hw
  · intro hfree w hw hlow
    obtain ⟨size, hw⟩ := Option.isSome_iff_exists.mp hw
    obtain ⟨flags, hlookup⟩ := hi.listed pid w size hw
    rw [regionIdOf_eq_iff.mpr ⟨rfl, hlow⟩] at hlookup
    cases hv : registered h (pid, v) with
    | none =>
      rw [hfree hv] at hlookup
      cases hlookup
    | some size' =>
      -- one key holds one descriptor, and that has the address
      obtain ⟨flags', hlookup'⟩ := hi.listed pid v size' hv
      exact congrArg MemoryRegionDescriptor.mainVaddr (Option.some.inj (hlookup.symm.trans hlookup'))

theorem added (hi : IdentityInv h s) {pid : UInt32} {v size : UInt64} {flags : UInt32}
    {e : DaemonEvent} {t : ControlPlaneManager}
    (hregistered : registered (h ++ [e]) = Function.update (registered h) (pid, v) (some size))
    (hkey : s.regions.lookup (regionIdOf pid v) = none)
    (hends : ReachesTop (regionDescriptor pid v size flags) ∨ Fits (regionDescriptor pid v size flags))
    (hregions : t.regions = s.regions.insert (regionIdOf pid v) (regionDescriptor pid v size flags)) :
    IdentityInv (h ++ [e]) t := by
  have hother : ∀ pid' w size', registered h (pid', w) = some size' →
      regionIdOf pid' w ≠ regionIdOf pid v := by
    intro pid' w size' hw heq
    obtain ⟨flags', hlookup⟩ := hi.listed pid' w size' hw
    rw [heq, hkey] at hlookup
    cases hlookup
  constructor
  · intro pid' w size' hw
    rw [hregistered, Function.update_apply] at hw
    rw [hregions]
    split_ifs at hw with hpair
    · cases hpair
      cases hw
      exact ⟨flags, AList.lookup_insert _⟩
    · rw [AList.lookup_insert_ne (hother pid' w size' hw)]
      exact hi.listed pid' w size' hw
  · intro r d hr
    rw [hregions, lookup_insert_eq_some_iff] at hr
    rw [hregistered]
    rcases hr with ⟨rfl, rfl⟩ | ⟨-, hr⟩
    · exact ⟨hends, pid, v, size, flags, rfl, rfl, Function.update_self _ _ _⟩
    · obtain ⟨hends', pid', w, size', flags', rfl, hd, hw⟩ := hi.known r d hr
      refine ⟨hends', pid', w, size', flags', rfl, hd, ?_⟩
      rw [Function.update_of_ne, hw]
      intro hpair
      cases hpair
      exact hother pid v size' hw rfl

theorem removed (hi : IdentityInv h s) {pid : UInt32} {v : UInt64} {e : DaemonEvent}
    {t : ControlPlaneManager} (halone : Alone h pid v)
    (hregistered : registered (h ++ [e]) = Function.update (registered h) (pid, v) none)
    (hregions : t.regions = s.regions.erase (regionIdOf pid v)) : IdentityInv (h ++ [e]) t := by
  constructor
  · intro pid' w size' hw
    rw [hregistered, Function.update_apply] at hw
    split_ifs at hw with hpair
    have hne : regionIdOf pid' w ≠ regionIdOf pid v := by
      intro heq
      obtain ⟨rfl, hlow⟩ := regionIdOf_eq_iff.mp heq
      exact hpair (by rw [halone w (by rw [hw]; rfl) hlow])
    rw [hregions, AList.lookup_erase_ne hne]
    exact hi.listed pid' w size' hw
  · intro r d hr
    rw [hregions, lookup_erase_eq_some_iff] at hr
    obtain ⟨hne, hr⟩ := hr
    obtain ⟨hends, pid', w, size', flags', rfl, hd, hw⟩ := hi.known r d hr
    refine ⟨hends, pid', w, size', flags', rfl, hd, ?_⟩
    rw [hregistered, Function.update_of_ne, hw]
    intro hpair
    cases hpair
    exact hne rfl

theorem register (hi : IdentityInv h s) (connection : ℕ) {pid : UInt32} {v size : UInt64} {flags : UInt32} :
    IdentityInv (h ++ [event daemonStep s ⟨connection, .regionRegister pid v size flags⟩])
      (daemonStep s ⟨connection, .regionRegister pid v size flags⟩).2 := by
  have hrec := registered_concat h (event daemonStep s ⟨connection, .regionRegister pid v size flags⟩)
  dsimp only [recordRegion, event] at hrec
  cases registerStep s connection pid v size flags with
  | taken d' hkey hno hpost => exact hi.of_same (hrec.trans (if_neg hno)) (congrArg _ hpost)
  | endless hkey hends hno hpost => exact hi.of_same (hrec.trans (if_neg hno)) (congrArg _ hpost)
  | added hkey hends hok hregions => exact hi.added (hrec.trans (if_pos hok)) hkey hends hregions

theorem deregister (hi : IdentityInv h s) (connection : ℕ) {pid : UInt32} {v : UInt64}
    (halone : Alone h pid v) :
    IdentityInv (h ++ [event daemonStep s ⟨connection, .regionDeregister pid v⟩])
      (daemonStep s ⟨connection, .regionDeregister pid v⟩).2 := by
  have hrec := registered_concat h (event daemonStep s ⟨connection, .regionDeregister pid v⟩)
  dsimp only [recordRegion, event] at hrec
  cases deregisterStep s connection pid v with
  | unknown hkey hno hpost => exact hi.of_same (hrec.trans (if_neg hno)) (congrArg _ hpost)
  | endless d hkey hunits hno hpost => exact hi.of_same (hrec.trans (if_neg hno)) (congrArg _ hpost)
  | removed d hkey units hunits hok hregions hpages =>
    exact hi.removed halone (hrec.trans (if_pos hok)) hregions

theorem regions_acquireLock (s : ControlPlaneManager) (r : UInt64) (pid : UInt32) :
    (s.acquireLock r pid).2.regions = s.regions := by
  unfold ControlPlaneManager.acquireLock
  dsimp only
  split
  · rfl
  · split_ifs <;> rfl

theorem regions_releaseLock (s : ControlPlaneManager) (r : UInt64) (pid : UInt32) :
    (s.releaseLock r pid).2.regions = s.regions := by
  unfold ControlPlaneManager.releaseLock
  split
  · rfl
  · split_ifs <;> rfl

theorem step (hi : IdentityInv h s) (m : ClientMessage) (hc : KeepsIdentity h s m) :
    IdentityInv (h ++ [event daemonStep s m]) (daemonStep s m).2 := by
  obtain ⟨connection, payload⟩ := m
  have hrec := registered_concat h (event daemonStep s ⟨connection, payload⟩)
  cases payload with
  | regionRegister pid v size flags => exact hi.register connection
  | regionDeregister pid v => exact hi.deregister connection hc.1
  | lockAcquire r offset len => exact hi.of_same hrec (regions_acquireLock s r _)
  | lockRelease r offset len => exact hi.of_same hrec (regions_releaseLock s r _)
  | heartbeat node timestamp => exact hi.of_same hrec rfl
  | responseAck success message => exact hi.of_same hrec rfl

theorem register_sound_iff (hi : IdentityInv h s) (connection : ℕ) (pid : UInt32) (v size : UInt64)
    (flags : UInt32) :
    IdentitySound h (event daemonStep s ⟨connection, .regionRegister pid v size flags⟩) ↔
      KeepsIdentity h s ⟨connection, .regionRegister pid v size flags⟩ := by
  dsimp only [KeepsIdentity]
  rw [hi.alone_iff]
  change (registered h (pid, v) = none → Succeeds _) ↔ _
  cases registerStep s connection pid v size flags with
  | taken d' hkey hno hpost =>
    constructor
    · intro hsound
      exact ⟨fun hv => absurd (hsound hv) hno, fun hv => absurd (hsound hv) hno⟩
    · rintro ⟨hfree, -⟩ hv
      exact absurd ((hfree hv).symm.trans hkey) (by simp)
  | endless hkey hends hno hpost =>
    constructor
    · intro hsound
      exact ⟨fun _ => hkey, fun hv => absurd (hsound hv) hno⟩
    · rintro ⟨-, hnew⟩ hv
      exact absurd (hnew hv) hends
  | added hkey hends hok hregions =>
    exact ⟨fun _ => ⟨fun _ => hkey, fun _ => hends⟩, fun _ _ => hok⟩

/-- The loop of a deregistration removes the entries in the range exactly if they lie at its units. -/
theorem removes_range_iff {pid : UInt32} {v size : UInt64} {flags : UInt32} {units : List UInt64}
    (hends : ReachesTop (regionDescriptor pid v size flags) ∨ Fits (regionDescriptor pid v size flags))
    (hunits : visitedUnits (regionDescriptor pid v size flags) = some units)
    {pages pages' : AList fun _ : UInt64 => DistributedPageEntry}
    (hpages : ∀ a, pages'.lookup a = if a ∈ units then none else pages.lookup a) :
    (∀ a, pages'.lookup a = if InRange v size a then none else pages.lookup a) ↔
      ∀ a, (pages.lookup a).isSome = true → InRange v size a →
        v.toNat + size.toNat < 2 ^ 64 ∧ a.toNat % 4096 = v.toNat % 4096 := by
  have htop : ¬ ReachesTop (regionDescriptor pid v size flags) ↔ v.toNat + size.toNat < 2 ^ 64 := Nat.not_le
  have hmem : ∀ a, a ∈ units ↔ v.toNat + size.toNat < 2 ^ 64 ∧
      InRange v size a ∧ a.toNat % 4096 = v.toNat % 4096 := by
    intro a
    rw [mem_visitedUnits hends hunits, htop, isUnit_regionDescriptor]
  constructor
  · intro hrange a hentry hin
    have hnone := (hpages a).symm.trans (hrange a)
    rw [if_pos hin] at hnone
    by_cases ha : a ∈ units
    · exact ⟨((hmem a).mp ha).1, ((hmem a).mp ha).2.2⟩
    · rw [if_neg ha] at hnone
      rw [hnone] at hentry
      cases hentry
  · intro hat a
    rw [hpages]
    by_cases hin : InRange v size a
    · rw [if_pos hin]
      by_cases ha : a ∈ units
      · rw [if_pos ha]
      · rw [if_neg ha, ← Option.not_isSome_iff_eq_none]
        intro hentry
        obtain ⟨hend, hmod⟩ := hat a hentry hin
        exact ha ((hmem a).mpr ⟨hend, hin, hmod⟩)
    · rw [if_neg hin, if_neg fun ha => hin ((hmem a).mp ha).2.1]

theorem deregister_sound_iff (hi : IdentityInv h s) (connection : ℕ) (pid : UInt32) (v : UInt64) :
    IdentitySound h (event daemonStep s ⟨connection, .regionDeregister pid v⟩) ↔
      KeepsIdentity h s ⟨connection, .regionDeregister pid v⟩ := by
  dsimp only [KeepsIdentity]
  rw [hi.alone_iff]
  change ((Succeeds _ ↔ (registered h (pid, v)).isSome = true) ∧ _) ↔ _
  have hlisted : ∀ {size}, registered h (pid, v) = some size →
      s.regions.lookup (regionIdOf pid v) ≠ none := by
    intro size hv hnone
    obtain ⟨flags, hlookup⟩ := hi.listed pid v size hv
    rw [hnone] at hlookup
    cases hlookup
  cases deregisterStep s connection pid v with
  | unknown hkey hno hpost =>
    have hv : registered h (pid, v) = none := by
      rw [Option.eq_none_iff_forall_ne_some]
      exact fun size hv => hlisted hv hkey
    have hfree : s.regions.lookup (regionIdOf pid v) = none := hkey
    simp [hv, hno, hfree]
  | endless d hkey hunits hno hpost =>
    obtain ⟨units, hu⟩ := exists_visitedUnits (hi.known _ d hkey).1
    exact absurd (hu.symm.trans hunits) (by simp)
  | removed d hkey units hunits hok hregions hpages =>
    refine and_congr ?_ (forall_congr' fun size => forall_congr' fun hv => ?_)
    · constructor
      · intro hiff hv
        have hsome := hiff.mp hok
        rw [hv] at hsome
        cases hsome
      · intro hfree
        refine ⟨fun _ => ?_, fun _ => hok⟩
        rw [← Option.ne_none_iff_isSome]
        intro hv
        exact absurd ((hfree hv).symm.trans hkey) (by simp)
    · obtain ⟨flags, hlookup⟩ := hi.listed pid v size hv
      obtain rfl := Option.some.inj (hkey.symm.trans hlookup)
      exact removes_range_iff (hi.known _ _ hkey).1 hunits hpages

theorem sound_iff (hi : IdentityInv h s) (m : ClientMessage) :
    IdentitySound h (event daemonStep s m) ↔ KeepsIdentity h s m := by
  obtain ⟨connection, payload⟩ := m
  cases payload with
  | regionRegister pid v size flags => exact hi.register_sound_iff connection pid v size flags
  | regionDeregister pid v => exact hi.deregister_sound_iff connection pid v
  | _ => exact Iff.rfl

end IdentityInv

/-- The regions of a run have an identity exactly if every message meets the condition. -/
theorem identitySound_iff_keepsIdentity (node : NodeId) (messages : List ClientMessage) :
    Along (fun h s m => IdentitySound h (event daemonStep s m)) daemonStep (.new node) messages ↔
      Along KeepsIdentity daemonStep (.new node) messages := by
  apply along_iff_along (I := IdentityInv)
  · exact identityInv_new node
  · intro h s m hi hc
    exact hi.step m hc
  · intro h s m hi
    exact hi.sound_iff m

/-- Two pages of one process that are `2 ^ 32` bytes apart. -/
theorem second_page_is_refused :
    ¬ ∀ (node : NodeId) (messages : List ClientMessage),
      Along (fun h s m => IdentitySound h (event daemonStep s m)) daemonStep (.new node) messages := by
  intro h
  let first : ClientMessage := ⟨0, .regionRegister 7 0x1000 4096 3⟩
  let second : ClientMessage := ⟨0, .regionRegister 7 0x100001000 4096 3⟩
  have hsound := h ⟨1⟩ [first, second] [first] second [] rfl
  have hno : ¬ Succeeds (event daemonStep (exec daemonStep (.new ⟨1⟩) [first]) second) := by decide +kernel
  exact hno (hsound (by decide +kernel))

end Virthub.Klnk.Daemon
