import Virthub.Klnk.Daemon.Control

/-! Mutual exclusion of the daemon's locks between client connections. The lock table knows an
owner by the low half of a message's offset, so connections exclude each other as long as the
owner's messages come from the connection that acquired under that name. -/
namespace Virthub.Klnk
open Virthub.Lib

namespace ControlPlaneManager

theorem acquireLock_spec (self : ControlPlaneManager) (r : UInt64) (pid : UInt32) :
    ((self.acquireLock r pid).1 = .ok () ↔ (self.lockOwner r).getD pid = pid) ∧
      ∀ r', (self.acquireLock r pid).2.lockOwner r' =
        if r' = r then some ((self.lockOwner r).getD pid) else self.lockOwner r' := by
  unfold acquireLock
  dsimp only
  cases ho : (self.lockEntry r).currentOwnerPid with
  | none =>
    have howner : self.lockOwner r = none := ho
    refine ⟨by simp [howner], fun r' => ?_⟩
    dsimp only
    rw [lockOwner, lockEntry_insert, howner]
    split_ifs <;> rfl
  | some q =>
    have howner : self.lockOwner r = some q := ho
    rw [howner]
    dsimp only [Option.getD_some]
    by_cases hq : q = pid
    · rw [if_pos hq]
      refine ⟨by simp [hq], fun r' => ?_⟩
      split_ifs with hr
      · rw [hr, howner]
      · rfl
    · rw [if_neg hq]
      refine ⟨by simp [hq], fun r' => ?_⟩
      dsimp only
      rw [lockOwner, lockEntry_insert]
      by_cases hr : r' = r
      · rw [if_pos hr, if_pos hr]
      · rw [if_neg hr, if_neg hr]
        rfl

theorem releaseLock_spec (self : ControlPlaneManager) (r : UInt64) (pid : UInt32) :
    ((self.releaseLock r pid).1 = .ok () ↔ self.lockOwner r = some pid) ∧
      (self.lockOwner r ≠ some pid → (self.releaseLock r pid).2 = self) ∧
      ∀ r' ≠ r, (self.releaseLock r pid).2.lockOwner r' = self.lockOwner r' := by
  unfold releaseLock
  cases hl : self.locks.lookup r with
  | none =>
    have howner : self.lockOwner r = none := by
      rw [lockOwner, lockEntry, hl]
      rfl
    rw [howner]
    exact ⟨by simp, fun _ => rfl, fun _ _ => rfl⟩
  | some lock =>
    have howner : self.lockOwner r = lock.currentOwnerPid := by
      rw [lockOwner, lockEntry, hl]
      rfl
    rw [howner]
    dsimp only
    by_cases hpid : lock.currentOwnerPid = some pid
    · rw [if_pos hpid]
      refine ⟨by simp [hpid], fun hne => absurd hpid hne, fun r' hr => ?_⟩
      dsimp only
      rw [lockOwner, lockEntry_insert, if_neg hr]
      rfl
    · rw [if_neg hpid]
      exact ⟨by simp [hpid], fun _ => rfl, fun _ _ => rfl⟩

theorem locks_registerRegion {self self' : ControlPlaneManager} {d : MemoryRegionDescriptor}
    {res : Except ControlPlaneError Unit} (h : self.registerRegion d = some (res, self')) :
    self'.locks = self.locks := by
  unfold registerRegion registerRegionWithMetadata at h
  cases hl : self.regions.lookup d.regionId with
  | some d' =>
    rw [hl] at h
    cases h
    rfl
  | none =>
    rw [hl] at h
    obtain ⟨pages, -, hp⟩ := Option.map_eq_some_iff.mp h
    cases hp
    rfl

theorem locks_deregisterRegion {self self' : ControlPlaneManager} {r : GlobalRegionId}
    {res : Except ControlPlaneError Unit} (h : self.deregisterRegion r = some (res, self')) :
    self'.locks = self.locks := by
  unfold deregisterRegion at h
  cases hl : self.regions.lookup r with
  | none =>
    rw [hl] at h
    cases h
    rfl
  | some d =>
    rw [hl] at h
    obtain ⟨pages, -, hp⟩ := Option.map_eq_some_iff.mp h
    cases hp
    rfl

end ControlPlaneManager

namespace Daemon

def Granted (e : DaemonEvent) (regionId offset len : UInt64) : Prop :=
  e.call.payload = .lockAcquire regionId offset len ∧
    ∃ msg, e.answer = some (.responseAck true msg)

def Released (e : DaemonEvent) (regionId : UInt64) : Prop :=
  (∃ offset len, e.call.payload = .lockRelease regionId offset len) ∧
    ∃ msg, e.answer = some (.responseAck true msg)

def Overlap (offset len offset' len' : UInt64) : Prop :=
  offset.toNat < offset'.toNat + len'.toNat ∧ offset'.toNat < offset.toNat + len.toNat ∧
    0 < len.toNat ∧ 0 < len'.toNat

/-- Two connections are granted overlapping ranges of a region only with a release by the first
one in between. -/
def MutualExclusion (h : List DaemonEvent) : Prop :=
  ∀ past e mid f rest, h = past ++ e :: (mid ++ f :: rest) →
    e.call.connection ≠ f.call.connection →
    ∀ r o l o' l', Granted e r o l → Granted f r o' l' → Overlap o l o' l' →
      ∃ g ∈ mid, g.call.connection = e.call.connection ∧ Released g r

/-- The connection that last asked for the lock of a region under the name `pid`. -/
def lastAcquirer (h : List DaemonEvent) (regionId : UInt64) (pid : UInt32) : Option ℕ :=
  h.foldl (fun c e =>
    match e.call.payload with
    | .lockAcquire r offset _ =>
      if r = regionId ∧ offset.toUInt32 = pid then some e.call.connection else c
    | _ => c) none

/-- A lock message under the name of the region's owner comes from the connection that last
asked for the lock under that name. -/
def OwnerSpeaks (h : List DaemonEvent) (s : ControlPlaneManager) (m : ClientMessage) : Prop :=
  match m.payload with
  | .lockAcquire r offset _ | .lockRelease r offset _ =>
    s.lockOwner r = some offset.toUInt32 →
      lastAcquirer h r offset.toUInt32 = some m.connection
  | _ => True

instance (h : List DaemonEvent) (s : ControlPlaneManager) (m : ClientMessage) :
    Decidable (OwnerSpeaks h s m) :=
  match m with
  | ⟨_, .lockAcquire _ _ _⟩ => inferInstanceAs (Decidable (_ → _))
  | ⟨_, .lockRelease _ _ _⟩ => inferInstanceAs (Decidable (_ → _))
  | ⟨_, .regionRegister _ _ _ _⟩ => .isTrue trivial
  | ⟨_, .regionDeregister _ _⟩ => .isTrue trivial
  | ⟨_, .heartbeat _ _⟩ => .isTrue trivial
  | ⟨_, .responseAck _ _⟩ => .isTrue trivial

theorem ack_success {res : Except ControlPlaneError Unit} :
    (∃ msg, some (ack res) = some (.responseAck true msg)) ↔ res = .ok () := by
  cases res with
  | ok u => simp [ack]
  | error e => simp [ack]

theorem lockOwner_of_locks {s t : ControlPlaneManager} (h : t.locks = s.locks) (r : UInt64) :
    t.lockOwner r = s.lockOwner r := by
  rw [ControlPlaneManager.lockOwner, ControlPlaneManager.lockEntry, h]
  rfl

theorem lastAcquirer_concat (h : List DaemonEvent) (e : DaemonEvent) (r : UInt64) (pid : UInt32) :
    lastAcquirer (h ++ [e]) r pid =
      match e.call.payload with
      | .lockAcquire r' offset _ =>
        if r' = r ∧ offset.toUInt32 = pid then some e.call.connection else lastAcquirer h r pid
      | _ => lastAcquirer h r pid := by
  rw [lastAcquirer, List.foldl_append]
  rfl

theorem lockOwner_daemonStep {s : ControlPlaneManager} {r : UInt64} {pid : UInt32}
    (ho : s.lockOwner r = some pid) (m : ClientMessage)
    (hm : ∀ offset len, m.payload = .lockRelease r offset len → offset.toUInt32 ≠ pid) :
    (daemonStep s m).2.lockOwner r = some pid := by
  obtain ⟨c, payload⟩ := m
  cases payload with
  | regionRegister p vaddr size flags =>
    cases hreg : s.registerRegion (regionDescriptor p vaddr size flags) with
    | none => simpa [daemonStep, processControlPayload, hreg] using ho
    | some out =>
      have hlocks := ControlPlaneManager.locks_registerRegion hreg
      simpa [daemonStep, processControlPayload, hreg, lockOwner_of_locks hlocks] using ho
  | regionDeregister p vaddr =>
    cases hreg : s.deregisterRegion (regionIdOf p vaddr) with
    | none => simpa [daemonStep, processControlPayload, hreg] using ho
    | some out =>
      have hlocks := ControlPlaneManager.locks_deregisterRegion hreg
      simpa [daemonStep, processControlPayload, hreg, lockOwner_of_locks hlocks] using ho
  | lockAcquire r' offset len =>
    have hspec := (s.acquireLock_spec r' offset.toUInt32).2 r
    change (s.acquireLock r' offset.toUInt32).2.lockOwner r = some pid
    rw [hspec]
    split_ifs with hr
    · rw [← hr, ho]
      rfl
    · exact ho
  | lockRelease r' offset len =>
    obtain ⟨-, hkeep, hother⟩ := s.releaseLock_spec r' offset.toUInt32
    change (s.releaseLock r' offset.toUInt32).2.lockOwner r = some pid
    by_cases hr : r = r'
    · subst hr
      have hne := hm offset len rfl
      rw [hkeep (by rw [ho]; exact fun h => hne (Option.some.inj h).symm)]
      exact ho
    · rw [hother r hr]
      exact ho
  | heartbeat n t => exact ho
  | responseAck b msg => exact ho

/-- While `c` holds the lock under the name `pid`, a message is its release or leaves it the
holder. -/
theorem holder_step {h : List DaemonEvent} {s : ControlPlaneManager} {m : ClientMessage}
    (hs : OwnerSpeaks h s m) {r : UInt64} {pid : UInt32} {c : ℕ}
    (ho : s.lockOwner r = some pid) (hc : lastAcquirer h r pid = some c) :
    (m.connection = c ∧ Released (event daemonStep s m) r) ∨
      ((daemonStep s m).2.lockOwner r = some pid ∧
        lastAcquirer (h ++ [event daemonStep s m]) r pid = some c) := by
  by_cases hm : ∃ offset len, m.payload = .lockRelease r offset len ∧ offset.toUInt32 = pid
  · obtain ⟨offset, len, hpay, rfl⟩ := hm
    obtain ⟨conn, payload⟩ := m
    subst hpay
    have hconn := (hs ho).symm.trans hc
    have hok := (s.releaseLock_spec r offset.toUInt32).1.mpr ho
    exact Or.inl ⟨Option.some.inj hconn, ⟨offset, len, rfl⟩, ack_success.mpr hok⟩
  · have hm' : ∀ offset len, m.payload = .lockRelease r offset len → offset.toUInt32 ≠ pid :=
      fun offset len hpay hpid => hm ⟨offset, len, hpay, hpid⟩
    refine Or.inr ⟨lockOwner_daemonStep ho m hm', ?_⟩
    rw [lastAcquirer_concat]
    obtain ⟨conn, payload⟩ := m
    cases payload with
    | lockAcquire r' offset len =>
      dsimp only [event]
      split_ifs with hr
      · obtain ⟨rfl, rfl⟩ := hr
        exact (hs ho).symm.trans hc
      · exact hc
    | _ => exact hc

theorem holder_of_granted {h : List DaemonEvent} {s : ControlPlaneManager} {m : ClientMessage}
    {r o l : UInt64} (hg : Granted (event daemonStep s m) r o l) :
    (s.lockOwner r).getD o.toUInt32 = o.toUInt32 ∧
      (daemonStep s m).2.lockOwner r = some o.toUInt32 ∧
      lastAcquirer (h ++ [event daemonStep s m]) r o.toUInt32 = some m.connection := by
  obtain ⟨hpay, hans⟩ := hg
  obtain ⟨conn, payload⟩ := m
  dsimp only [event] at hpay
  subst hpay
  obtain ⟨hok, howner⟩ := s.acquireLock_spec r o.toUInt32
  have hsame := hok.mp (ack_success.mp hans)
  refine ⟨hsame, ?_, ?_⟩
  · change (s.acquireLock r o.toUInt32).2.lockOwner r = _
    rw [howner r, if_pos rfl, hsame]
  · rw [lastAcquirer_concat]
    exact if_pos ⟨rfl, rfl⟩

def Holding (h : List DaemonEvent) (s : ControlPlaneManager) : Prop :=
  ∀ past e mid, h = past ++ e :: mid → ∀ r o l, Granted e r o l →
    (∃ g ∈ mid, g.call.connection = e.call.connection ∧ Released g r) ∨
      s.lockOwner r = some o.toUInt32 ∧
        lastAcquirer h r o.toUInt32 = some e.call.connection

theorem Holding.step {h : List DaemonEvent} {s : ControlPlaneManager} {m : ClientMessage}
    (hh : Holding h s) (hs : OwnerSpeaks h s m) :
    Holding (h ++ [event daemonStep s m]) (daemonStep s m).2 := by
  intro past e mid heq r o l hg
  rcases concat_eq_split.mp heq with ⟨rfl, rfl, -⟩ | ⟨mid', rfl, hpast⟩
  · exact Or.inr (holder_of_granted hg).2
  · rcases hh past e mid' hpast r o l hg with ⟨g, hgm, hrel⟩ | ⟨ho, hc⟩
    · exact Or.inl ⟨g, by simp [hgm], hrel⟩
    · rcases holder_step hs ho hc with ⟨hconn, hrel⟩ | hkeep
      · exact Or.inl ⟨_, by simp, hconn, hrel⟩
      · exact Or.inr hkeep

/-- In a run whose lock owners speak only through their own connections, the locks exclude. -/
theorem mutualExclusion_of_ownerSpeaks (node : NodeId) (calls : List ClientMessage)
    (hcalls : Along OwnerSpeaks daemonStep (.new node) calls) :
    MutualExclusion (trace daemonStep (.new node) calls) := by
  have hrun := (history_forall (C := OwnerSpeaks) (s := .new node) (P := Holding)
    (Q := fun h f => ∀ past e mid, h = past ++ e :: mid →
      e.call.connection ≠ f.call.connection → ∀ r o l o' l', Granted e r o l →
        Granted f r o' l' → ∃ g ∈ mid, g.call.connection = e.call.connection ∧ Released g r)
    (by intro past e mid h; simp at h) ?_ calls hcalls).2
  · intro past e mid f rest heq hne r o l o' l' he hf _
    exact hrun (past ++ e :: mid) f rest (by simpa using heq) past e mid rfl hne r o l o' l' he hf
  · intro h s m hh hs
    refine ⟨hh.step hs, fun past e mid heq hne r o l o' l' he hf => ?_⟩
    rcases hh past e mid heq r o l he with hrel | ⟨ho, hc⟩
    · exact hrel
    · -- the second grant is under the owner's name, so it came from the holder itself
      obtain ⟨hsame, -, -⟩ := holder_of_granted (h := h) hf
      rw [ho, Option.getD_some] at hsame
      obtain ⟨conn, payload⟩ := m
      obtain rfl : payload = _ := hf.1
      rw [hsame] at ho hc
      exact absurd (Option.some.inj (hc.symm.trans (hs ho))) hne

theorem mutualExclusion_of_ownerSpeaks_turns :
    MutualExclusion (trace daemonStep (.new ⟨1⟩)
      [⟨1, .lockAcquire 7 0 100⟩, ⟨2, .lockAcquire 7 50 100⟩, ⟨1, .lockRelease 7 0 100⟩,
        ⟨2, .lockAcquire 7 50 100⟩]) := by
  apply mutualExclusion_of_ownerSpeaks
  simp only [along_cons, along_nil, and_true]
  decide +kernel

def IsLockMessage : ControlMessagePayload → Prop
  | .lockAcquire _ _ _ | .lockRelease _ _ _ => True
  | _ => False

/-- Two connections that ask for the same offset of a region are both granted the lock. -/
theorem mutualExclusion_fails_on_same_offset :
    ¬ ∀ (node : NodeId) (calls : List ClientMessage), (∀ m ∈ calls, IsLockMessage m.payload) →
      MutualExclusion (trace daemonStep (.new node) calls) := by
  intro h
  let calls : List ClientMessage := [⟨1, .lockAcquire 7 0 100⟩, ⟨2, .lockAcquire 7 0 100⟩]
  have hlock : ∀ m ∈ calls, IsLockMessage m.payload := by
    intro m hm
    simp only [calls, List.mem_cons, List.not_mem_nil, or_false] at hm
    rcases hm with rfl | rfl <;> trivial
  have hex := h ⟨1⟩ calls hlock [] _ [] _ [] rfl (by decide) 7 0 100 0 100 ⟨rfl, "OK", rfl⟩
    ⟨rfl, "OK", rfl⟩ ⟨by decide, by decide, by decide, by decide⟩
  obtain ⟨g, hg, -⟩ := hex
  cases hg

end Daemon

end Virthub.Klnk
