import Virthub.Klnk.Daemon.SlotHolders

/-! Where the bytes come from that faults on a remote page install, and who owns the page meanwhile. A run
is given a ledger that follows every read into its staging slot and every slot into the page. The faults
fetch from the owner and leave the page to it, with one exception: a fault that finds the page in flight
maps a zero page and takes the page. -/
namespace Virthub.Klnk.Daemon
open Virthub.Store Virthub.Lib Virthub.Klnk.Uffd

/-- What memory holds, by its origin. -/
inductive Content where
  | unknown
  /-- A read from the peer is under way. -/
  | arriving (peerAddr : SocketAddr) (remoteVaddr : UInt64)
  | read (peerAddr : SocketAddr) (remoteVaddr : UInt64)
  | zeroPage
  deriving DecidableEq, Repr

def Content.completed : Content → Content
  | .arriving peerAddr remoteVaddr => .read peerAddr remoteVaddr
  | _ => .unknown

structure Ledger where
  /-- The content of each staging slot. -/
  staged : ℕ → Content
  /-- What each task has put at the address of its fault. -/
  installed : ℕ → Option Content

def Task.stages (ok : Bool) (staged : ℕ → Content) : Task → ℕ → Content
  | .fault (.rdmaRead _ _ slot request) | .prefetch (.rdmaRead _ slot request) =>
    Function.update staged slot.slotIdx (.arriving request.peerAddr request.remoteVaddr)
  | .fault (.awaitRead _ _ slot) | .prefetch (.awaitRead _ slot) =>
    Function.update staged slot.slotIdx (if ok then (staged slot.slotIdx).completed else .unknown)
  | _ => staged

/-- What the next call of a task puts at the address of its fault. -/
def Task.installs (ok : Bool) (staged : ℕ → Content) : Task → Option Content
  | .fault (.movePrefetched _ _ slot) | .fault (.moveSlot _ _ slot) | .fault (.moveLocalSlot _ slot) =>
    if ok then some (staged slot.slotIdx) else none
  | .fault (.zeropage _) => if ok then some .zeroPage else none
  | _ => none

namespace Ledger

/-- The ledger after the next call of the task with this number. -/
def after (l : Ledger) (i : ℕ) (t : Task) (ok : Bool) : Ledger where
  staged := t.stages ok l.staged
  installed := Function.update l.installed i ((t.installs ok l.staged).or (l.installed i))

def note (l : Ledger) (e : TurnEvent) : Ledger :=
  match e.ran with
  | none => l
  | some t => l.after e.call.task t e.call.ok

/-- The ledger of a run that starts with this content of the staging slots. -/
def ofRun (staged : ℕ → Content) (h : List TurnEvent) : Ledger := h.foldl note ⟨staged, fun _ => none⟩

theorem note_some {l : Ledger} {s : FetchState} {a : Turn} {t : Task} (ht : s.tasks[a.task]? = some t) :
    l.note (event turnStep s a) = l.after a.task t a.ok := by
  have hran : TurnEvent.ran (event turnStep s a) = some t := ht
  rw [note, hran]
  rfl

theorem note_none {l : Ledger} {s : FetchState} {a : Turn} (ht : s.tasks[a.task]? = none) :
    l.note (event turnStep s a) = l := by
  have hran : TurnEvent.ran (event turnStep s a) = none := ht
  rw [note, hran]

theorem ofRun_concat (staged : ℕ → Content) (h : List TurnEvent) (e : TurnEvent) :
    ofRun staged (h ++ [e]) = (ofRun staged h).note e := by
  rw [ofRun, List.foldl_concat]
  rfl

end Ledger

theorem Task.stages_of_ne {t : Task} {ok : Bool} {staged : ℕ → Content} {slotIdx : ℕ}
    (h : ∀ slot, t.slot = some slot → slot.slotIdx ≠ slotIdx) :
    t.stages ok staged slotIdx = staged slotIdx := by
  cases t with
  | fault pc =>
    cases pc with
    | rdmaRead w o slot request => exact Function.update_of_ne (h slot rfl).symm _ _
    | awaitRead w o slot => exact Function.update_of_ne (h slot rfl).symm _ _
    | _ => rfl
  | prefetch pc =>
    cases pc with
    | rdmaRead w slot request => exact Function.update_of_ne (h slot rfl).symm _ _
    | awaitRead w slot => exact Function.update_of_ne (h slot rfl).symm _ _
    | _ => rfl
  | poller pc => rfl

/-! The owner of a page. -/

def ownerOf (c : FetchContext) (v : UInt64) : Option NodeId :=
  (c.controlPlane.lookupPageState v).map (·.primaryOwner)

/-- The owner that the next call of a task gives the page at `v`. -/
def Task.assigns (localNode : NodeId) (v : UInt64) : Task → Option NodeId
  | .fault (.markInFlight w o) | .fault (.markShared w o) | .poller (.markInvalid w o) =>
    if v = w then some o else none
  | .fault (.markZeroShared w) => if v = w then some localNode else none
  | _ => none

theorem owner_updatePageState {cp : ControlPlaneManager} {v : UInt64} {o : NodeId}
    (h : (cp.lookupPageState v).map (·.primaryOwner) = some o) (w : UInt64)
    (st : PageCoherenceState) (o' : NodeId) :
    ((cp.updatePageState w st o').2.lookupPageState v).map (·.primaryOwner) =
      some ((if v = w then some o' else none).getD o) := by
  rw [ControlPlaneManager.updatePageState, ControlPlaneManager.lookup_modifyPage]
  obtain ⟨entry, hentry, rfl⟩ := Option.map_eq_some_iff.mp h
  by_cases hv : v = w
  · rw [if_pos hv, if_pos hv, hentry]
    dsimp only [Option.map_some, Option.getD_some]
    split_ifs <;> rfl
  · rw [if_neg hv, if_neg hv, hentry]
    rfl

theorem owner_step {c : FetchContext} {v : UInt64} {o : NodeId} (h : ownerOf c v = some o) (t : Task)
    (ok : Bool) :
    ownerOf (t.step c ok).2 v = some ((t.assigns c.controlPlane.localNodeId v).getD o) := by
  obtain ⟨pool, hctx⟩ := t.step_context c ok
  rw [hctx]
  cases t with
  | fault pc =>
    cases pc with
    | markInFlight w o' => exact owner_updatePageState h w .inFlight o'
    | markShared w o' => exact owner_updatePageState h w .sharedRead o'
    | markZeroShared w => exact owner_updatePageState h w .sharedRead _
    | addReader w =>
      refine (ControlPlaneManager.map_lookup_modifyPage _ _ w v ?_).trans h
      intro entry
      split_ifs <;> rfl
    | _ => exact h
  | poller pc =>
    cases pc with
    | markInvalid w o' => exact owner_updatePageState h w .invalid o'
    | removeReader w =>
      refine (ControlPlaneManager.map_lookup_modifyPage _ _ w v ?_).trans h
      intro entry
      rfl
    | _ => exact h
  | prefetch pc => exact h

theorem nodes_step (c : FetchContext) (t : Task) (ok : Bool) :
    (t.step c ok).2.controlPlane.localNodeId = c.controlPlane.localNodeId ∧
      (t.step c ok).2.controlPlane.remoteNodes = c.controlPlane.remoteNodes := by
  obtain ⟨pool, hctx⟩ := t.step_context c ok
  rw [hctx]
  have hmodify : ∀ w change,
      (c.controlPlane.modifyPage w change).2.localNodeId = c.controlPlane.localNodeId ∧
        (c.controlPlane.modifyPage w change).2.remoteNodes = c.controlPlane.remoteNodes :=
    fun w change => ⟨ControlPlaneManager.localNodeId_modifyPage _ w change,
      ControlPlaneManager.remoteNodes_modifyPage _ w change⟩
  cases t with
  | fault pc =>
    cases pc with
    | markInFlight w o => exact hmodify w _
    | markShared w o => exact hmodify w _
    | markZeroShared w => exact hmodify w _
    | addReader w => exact hmodify w _
    | _ => exact ⟨rfl, rfl⟩
  | poller pc =>
    cases pc with
    | markInvalid w o => exact hmodify w _
    | removeReader w => exact hmodify w _
    | _ => exact ⟨rfl, rfl⟩
  | prefetch pc => exact ⟨rfl, rfl⟩

theorem prefetched_step {c : FetchContext} {t : Task} {ok : Bool} {v : UInt64} {slot : StagingSlotHandle}
    (h : (t.step c ok).2.prefetchedPages.lookup v = some slot) :
    c.prefetchedPages.lookup v = some slot ∨ t = .prefetch (.insert v slot) := by
  obtain ⟨pool, hctx⟩ := t.step_context c ok
  rw [hctx] at h
  cases t with
  | fault pc =>
    cases pc with
    | takePrefetched w o =>
      simp only [Task.prefetchedPages] at h
      split at h
      · exact .inl (lookup_erase_eq_some_iff.mp h).2
      · exact .inl h
    | _ => exact .inl h
  | prefetch pc =>
    cases pc with
    | insert w b =>
      rcases lookup_insert_eq_some_iff.mp h with ⟨rfl, rfl⟩ | ⟨-, h⟩
      · exact .inr rfl
      · exact .inl h
    | _ => exact .inl h
  | poller pc => exact .inl h

section
variable (v : UInt64) (owner : NodeId) (home : SocketAddr)

/-- The page at `v` belongs to a remote node that listens at `home`, and what is prefetched of it was read
there. -/
structure Served (staged : ℕ → Content) (c : FetchContext) : Prop where
  owned : ownerOf c v = some owner
  remote : owner ≠ c.controlPlane.localNodeId
  endpoint : ∀ info, c.controlPlane.getRemoteNode owner = some info → info.socketAddr = home
  prefetched : ∀ slot, c.prefetchedPages.lookup v = some slot → staged slot.slotIdx = .read home v

/-- What the ledger says of a fault on the page, by where the fault stands. -/
def FaultSound (l : Ledger) (i : ℕ) : FaultPc → Prop
  | .lookup w | .zeropage w | .markZeroShared w => w = v
  | .markInFlight w o | .takePrefetched w o | .getRemoteNode w o => w = v ∧ o = owner
  | .movePrefetched w o slot | .moveSlot w o slot =>
    w = v ∧ o = owner ∧ l.staged slot.slotIdx = .read home v
  | .popSlot w o remote => w = v ∧ o = owner ∧ remote.socketAddr = home
  | .rdmaRead w o _ request =>
    w = v ∧ o = owner ∧ request.peerAddr = home ∧ request.remoteVaddr = v
  | .awaitRead w o slot => w = v ∧ o = owner ∧ l.staged slot.slotIdx = .arriving home v
  | .markShared w o => w = v ∧ o = owner ∧ l.installed i = some (.read home v)
  | .addReader _ | .finished (.ok ()) => l.installed i = some (.read home v)
  -- the page is never found to be a local one
  | .popLocalSlot _ | .moveLocalSlot _ _ => False
  | .pushSlot _ | .finished (.error _) => True

/-- As `FaultSound`, for a prefetch of any page. -/
def PrefetchSound (l : Ledger) : PrefetchPc → Prop
  | .popSlot w _ peerAddr _ => w = v → peerAddr = home
  | .rdmaRead w _ request => w = v → request.peerAddr = home ∧ request.remoteVaddr = v
  | .awaitRead w slot => w = v → l.staged slot.slotIdx = .arriving home v
  | .insert w slot => w = v → l.staged slot.slotIdx = .read home v
  | .pushSlot _ | .finished => True

def TaskSound (l : Ledger) (i : ℕ) : Task → Prop
  | .fault pc => FaultSound v owner home l i pc
  | .prefetch pc => PrefetchSound v home l pc
  | .poller (.markInvalid w o) => w = v → o = owner
  | .poller _ => True

structure Sound (l : Ledger) (s : FetchState) : Prop where
  served : Served v owner home l.staged s.ctx
  exclusive : Exclusive s
  tasks : ∀ i t, s.tasks[i]? = some t → TaskSound v owner home l i t

end

variable {v : UInt64} {owner : NodeId} {home : SocketAddr}

theorem TaskSound.frame {l l' : Ledger} {i : ℕ} {t : Task} (h : TaskSound v owner home l i t)
    (hstaged : ∀ slot, t.slot = some slot → l'.staged slot.slotIdx = l.staged slot.slotIdx)
    (hinstalled : l'.installed i = l.installed i) : TaskSound v owner home l' i t := by
  cases t with
  | fault pc =>
    cases pc with
    | movePrefetched w o slot => exact ⟨h.1, h.2.1, (hstaged slot rfl).trans h.2.2⟩
    | moveSlot w o slot => exact ⟨h.1, h.2.1, (hstaged slot rfl).trans h.2.2⟩
    | awaitRead w o slot => exact ⟨h.1, h.2.1, (hstaged slot rfl).trans h.2.2⟩
    | markShared w o => exact ⟨h.1, h.2.1, hinstalled.trans h.2.2⟩
    | addReader w => exact hinstalled.trans h
    | finished result =>
      cases result with
      | ok u => exact hinstalled.trans h
      | error e => trivial
    | _ => exact h
  | prefetch pc =>
    cases pc with
    | awaitRead w slot => exact fun hw => (hstaged slot rfl).trans (h hw)
    | insert w slot => exact fun hw => (hstaged slot rfl).trans (h hw)
    | _ => exact h
  | poller pc => cases pc <;> exact h

theorem faultSound_dispatchFault {l : Ledger} {i : ℕ} {c : FetchContext} {staged : ℕ → Content}
    (hc : Served v owner home staged c) : FaultSound v owner home l i (dispatchFault c v) := by
  obtain ⟨entry, hentry, howner⟩ := Option.map_eq_some_iff.mp hc.owned
  have hne : entry.primaryOwner ≠ c.controlPlane.localNodeId := howner ▸ hc.remote
  rw [dispatchFault, hentry]
  cases hst : entry.coherenceState with
  | inFlight => simp only [hst]; exact rfl
  | _ =>
    simp only [hst, if_pos hne]
    exact ⟨rfl, howner⟩

theorem FaultSound.step {l : Ledger} {i : ℕ} {c : FetchContext} {pc : FaultPc} (ok : Bool)
    (hc : Served v owner home l.staged c) (h : FaultSound v owner home l i pc)
    (hzero : ∀ w, pc ≠ .markZeroShared w) :
    FaultSound v owner home (l.after i (.fault pc) ok) i (faultStep c pc ok).1 := by
  cases pc with
  | lookup w =>
    cases h
    exact faultSound_dispatchFault hc
  | markInFlight w o => exact h
  | takePrefetched w o =>
    obtain ⟨rfl, rfl⟩ := h
    simp only [faultStep]
    split
    case h_1 slot _ hslot => exact ⟨rfl, rfl, hc.prefetched slot hslot⟩
    case h_2 => exact ⟨rfl, rfl⟩
  | movePrefetched w o slot =>
    cases ok with
    | true => exact ⟨h.1, h.2.1, (Function.update_self i _ _).trans (congrArg some h.2.2)⟩
    | false => trivial
  | getRemoteNode w o =>
    obtain ⟨rfl, rfl⟩ := h
    simp only [faultStep]
    split
    case h_1 => trivial
    case h_2 remote hremote => exact ⟨rfl, rfl, hc.endpoint remote hremote⟩
  | popSlot w o remote =>
    simp only [faultStep]
    split
    case h_1 => trivial
    case h_2 => exact ⟨h.1, h.2.1, h.2.2, h.1⟩
  | rdmaRead w o slot request =>
    obtain ⟨rfl, rfl, hpeer, hvaddr⟩ := h
    refine ⟨rfl, rfl, (Function.update_self slot.slotIdx _ _).trans ?_⟩
    rw [hpeer, hvaddr]
  | awaitRead w o slot =>
    cases ok with
    | true =>
      refine ⟨h.1, h.2.1, (Function.update_self slot.slotIdx _ _).trans ?_⟩
      rw [if_pos rfl, h.2.2]
      rfl
    | false => trivial
  | moveSlot w o slot =>
    cases ok with
    | true => exact ⟨h.1, h.2.1, (Function.update_self i _ _).trans (congrArg some h.2.2)⟩
    | false => trivial
  | pushSlot slot => trivial
  | markShared w o => exact (Function.update_self i _ _).trans h.2.2
  | addReader w => exact (Function.update_self i _ _).trans h
  | popLocalSlot w => exact h.elim
  | moveLocalSlot w slot => exact h.elim
  | zeropage w =>
    cases ok with
    | true => exact h
    | false => trivial
  | markZeroShared w => exact absurd rfl (hzero w)
  | finished result =>
    cases result with
    | ok u => exact (Function.update_self i _ _).trans h
    | error e => trivial

theorem PrefetchSound.step {l : Ledger} {i : ℕ} {c : FetchContext} {pc : PrefetchPc} (ok : Bool)
    (h : PrefetchSound v home l pc) :
    PrefetchSound v home (l.after i (.prefetch pc) ok) (prefetchStep c pc ok).1 := by
  cases pc with
  | popSlot w pageSize peerAddr rkey =>
    simp only [prefetchStep]
    split
    case h_1 => trivial
    case h_2 => exact fun hw => ⟨h hw, hw⟩
  | rdmaRead w slot request =>
    intro hw
    obtain ⟨hpeer, hvaddr⟩ := h hw
    refine (Function.update_self slot.slotIdx _ _).trans ?_
    rw [hpeer, hvaddr]
  | awaitRead w slot =>
    cases ok with
    | true =>
      intro hw
      refine (Function.update_self slot.slotIdx _ _).trans ?_
      rw [if_pos rfl, h hw]
      rfl
    | false => trivial
  | _ => trivial

theorem TaskSound.step {l : Ledger} {i : ℕ} {c : FetchContext} {t : Task} (ok : Bool)
    (hc : Served v owner home l.staged c) (h : TaskSound v owner home l i t)
    (hzero : ∀ w, t ≠ .fault (.markZeroShared w)) :
    TaskSound v owner home (l.after i t ok) i (t.step c ok).1 := by
  cases t with
  | fault pc => exact FaultSound.step ok hc h fun w hw => hzero w (congrArg Task.fault hw)
  | prefetch pc => exact PrefetchSound.step ok h
  | poller pc =>
    cases pc with
    | lookup w =>
      simp only [Task.step, pollerStep]
      cases hl : c.controlPlane.lookupPageState w with
      | none => trivial
      | some entry =>
        dsimp only
        split_ifs
        · intro hw
          have howned := hc.owned
          rw [ownerOf, ← hw, hl] at howned
          exact Option.some.inj howned
        · trivial
    | _ => trivial

theorem TaskSound.assigns {l : Ledger} {i : ℕ} {localNode : NodeId} {t : Task}
    (h : TaskSound v owner home l i t) (hzero : ∀ w, t ≠ .fault (.markZeroShared w)) :
    (t.assigns localNode v).getD owner = owner := by
  cases t with
  | fault pc =>
    cases pc with
    | markInFlight w o => simp [Task.assigns, h.1, h.2]
    | markShared w o => simp [Task.assigns, h.1, h.2.1]
    | markZeroShared w => exact absurd rfl (hzero w)
    | _ => rfl
  | poller pc =>
    cases pc with
    | markInvalid w o =>
      rw [Task.assigns]
      split_ifs with hw
      · exact h hw.symm
      · rfl
    | _ => rfl
  | prefetch pc => rfl

/-- The slot that is prefetched for the page is in no other hands. -/
theorem Served.step {l : Ledger} {s : FetchState} {i : ℕ} {t : Task} (ok : Bool)
    (hs : Sound v owner home l s) (ht : s.tasks[i]? = some t)
    (hzero : ∀ w, t ≠ .fault (.markZeroShared w)) :
    Served v owner home (l.after i t ok).staged (t.step s.ctx ok).2 := by
  have hsound := hs.tasks i t ht
  obtain ⟨hlocal, hnodes⟩ := nodes_step s.ctx t ok
  constructor
  · rw [owner_step hs.served.owned, hsound.assigns hzero]
  · rw [hlocal]
    exact hs.served.remote
  · intro info hinfo
    rw [ControlPlaneManager.getRemoteNode, hnodes] at hinfo
    exact hs.served.endpoint info hinfo
  · intro slot hslot
    rcases prefetched_step hslot with hslot | rfl
    · refine (Task.stages_of_ne ?_).trans (hs.served.prefetched slot hslot)
      intro b hb hidx
      cases hs.exclusive slot.slotIdx (.task i) (.page v) ⟨t, b, ht, hb, hidx⟩ ⟨slot, hslot, rfl⟩
    · exact hsound rfl

theorem Sound.turn {l : Ledger} {s : FetchState} {a : Turn} (hs : Sound v owner home l s)
    (hzero : ∀ w, s.tasks[a.task]? ≠ some (.fault (.markZeroShared w))) :
    Sound v owner home (l.note (event turnStep s a)) (turnStep s a).2 := by
  cases ht : s.tasks[a.task]? with
  | none =>
    rw [Ledger.note_none ht, turnStep_none ht]
    exact hs
  | some t =>
    have hzero' : ∀ w, t ≠ .fault (.markZeroShared w) := fun w hw => hzero w (hw ▸ ht)
    have hexclusive := hs.exclusive.turn a
    rw [Ledger.note_some ht]
    rw [turnStep_some ht] at hexclusive ⊢
    refine ⟨Served.step a.ok hs ht hzero', hexclusive, fun j u hu => ?_⟩
    by_cases hj : j = a.task
    · subst hj
      rw [List.getElem?_set_self (List.getElem?_eq_some_iff.mp ht).1] at hu
      cases hu
      exact (hs.tasks _ t ht).step a.ok hs.served hzero'
    · rw [List.getElem?_set_ne (Ne.symm hj)] at hu
      apply (hs.tasks j u hu).frame
      · intro slot hslot
        apply Task.stages_of_ne
        intro b hb hidx
        cases hs.exclusive slot.slotIdx (.task a.task) (.task j) ⟨t, b, ht, hb, hidx⟩
          ⟨u, slot, hu, hslot, rfl⟩
        exact hj rfl
      · exact Function.update_of_ne hj _ _

/-- The task is at its start; a prefetch of the page goes to its owner. -/
def Task.Starts (v : UInt64) (home : SocketAddr) : Task → Prop
  | .fault pc => pc = .lookup v
  | .prefetch pc => ∃ w pageSize peerAddr rkey,
    pc = .popSlot w pageSize peerAddr rkey ∧ (w = v → peerAddr = home)
  | .poller pc => ∃ w, pc = .lookup w

/-- Any number of faults on the remote page, beside prefetches and poller callbacks for any pages. -/
structure RemoteFaults (v : UInt64) (owner : NodeId) (home : SocketAddr) (staged : ℕ → Content)
    (s : FetchState) : Prop where
  served : Served v owner home staged s.ctx
  exclusive : Exclusive s
  tasks : ∀ t ∈ s.tasks, t.Starts v home

theorem RemoteFaults.sound {staged : ℕ → Content} {s : FetchState}
    (hs : RemoteFaults v owner home staged s) : Sound v owner home (Ledger.ofRun staged []) s := by
  refine ⟨hs.served, hs.exclusive, fun i t ht => ?_⟩
  have hstart := hs.tasks t (List.mem_of_getElem? ht)
  cases t with
  | fault pc =>
    cases hstart
    exact rfl
  | prefetch pc =>
    obtain ⟨w, pageSize, peerAddr, rkey, rfl, hpeer⟩ := hstart
    exact hpeer
  | poller pc =>
    obtain ⟨w, rfl⟩ := hstart
    trivial

/-- The page is still its owner's, and what a fault has installed when it returns `Ok` was read from there. -/
structure FetchedFromOwner (v : UInt64) (owner : NodeId) (home : SocketAddr) (staged : ℕ → Content)
    (h : List TurnEvent) (s : FetchState) : Prop where
  owned : ownerOf s.ctx v = some owner
  installed : ∀ i, s.tasks[i]? = some (.fault (.finished (.ok ()))) →
    (Ledger.ofRun staged h).installed i = some (.read home v)

/-- The task has mapped a zero page and is about to record that in the control plane. -/
def Task.recordsZeroPage : Task → Bool
  | .fault (.markZeroShared _) => true
  | _ => false

theorem Task.eq_of_recordsZeroPage {t : Task} (h : t.recordsZeroPage = true) :
    ∃ w, t = .fault (.markZeroShared w) := by
  cases t with
  | fault pc =>
    cases pc with
    | markZeroShared w => exact ⟨w, rfl⟩
    | _ => cases h
  | prefetch pc => cases h
  | poller pc => cases h

theorem FetchedFromOwner.of_sound {staged : ℕ → Content} {h : List TurnEvent} {s : FetchState}
    (hs : Sound v owner home (Ledger.ofRun staged h) s) :
    FetchedFromOwner v owner home staged h s :=
  ⟨hs.served.owned, fun i hi => hs.tasks i _ hi⟩

/-- Faults on a remote page leave it to its owner and install what was read from the owner exactly if none
of them records a zero page, which one does that has found the page in flight. -/
theorem fetchedFromOwner_iff (staged : ℕ → Content) (s : FetchState) (turns : List Turn)
    (hs : RemoteFaults v owner home staged s) :
    (∀ as, as <+: turns →
        FetchedFromOwner v owner home staged (trace turnStep s as) (exec turnStep s as)) ↔
      ∀ e ∈ trace turnStep s turns, ¬ Ran (fun t => t.recordsZeroPage = true) e := by
  rw [forall_mem_trace_iff_along]
  apply forall_prefix_iff_along_history (D := fun _ _ _ => True)
    (I := fun h t => Sound v owner home (Ledger.ofRun staged h) t) hs.sound
  · intro h t ht
    exact .of_sound ht
  · intro h t a ht _ hzero
    rw [Ledger.ofRun_concat]
    apply ht.turn
    intro w hw
    exact hzero ⟨_, hw, rfl⟩
  · intro h t a ht _ hpost hran
    obtain ⟨u, hu, hrecords⟩ := hran
    obtain ⟨w, rfl⟩ := Task.eq_of_recordsZeroPage hrecords
    -- the update makes the local node the owner
    have hw : w = v := ht.tasks a.task _ hu
    have howned := hpost.owned
    have htask : t.tasks[a.task]? = some (.fault (.markZeroShared w)) := hu
    rw [turnStep_some htask, owner_step ht.served.owned, Task.assigns, if_pos hw.symm] at howned
    exact ht.served.remote (Option.some.inj howned).symm
  · exact along_true turnStep s turns

def twoFaults : FetchState := ⟨remotePage, [.fault (.lookup 0x1000), .fault (.lookup 0x1000)]⟩

theorem twoFaults_remoteFaults :
    RemoteFaults 0x1000 ⟨2⟩ ⟨[10, 0, 0, 2], 19001⟩ (fun _ => .unknown) twoFaults := by
  refine ⟨⟨rfl, by decide, ?_, ?_⟩, ?_, ?_⟩
  · intro info hinfo
    cases hinfo
    rfl
  · intro slot hslot
    cases hslot
  · exact exclusive_of_fresh (by decide) rfl (by simp [twoFaults, Task.slot, borrowed])
  · simp [twoFaults, Task.Starts]

/-- One fault after the other: the first one fetches the page. -/
theorem twoFaults_fetched_in_sequence :
    RemoteFaults 0x1000 ⟨2⟩ ⟨[10, 0, 0, 2], 19001⟩ (fun _ => .unknown) twoFaults ∧
      ∀ as, as <+: List.replicate 10 ⟨0, true⟩ ++ List.replicate 4 ⟨1, true⟩ →
        FetchedFromOwner 0x1000 ⟨2⟩ ⟨[10, 0, 0, 2], 19001⟩ (fun _ => .unknown)
          (trace turnStep twoFaults as) (exec turnStep twoFaults as) := by
  refine ⟨twoFaults_remoteFaults, ?_⟩
  exact (fetchedFromOwner_iff _ twoFaults _ twoFaults_remoteFaults).mpr (by decide +kernel)

/-- The second fault comes while the first one fetches: it maps a zero page, takes the page and returns
`Ok`. -/
theorem twoFaults_overlap_takes_page :
    let turns : List Turn := [⟨0, true⟩, ⟨0, true⟩, ⟨1, true⟩, ⟨1, true⟩, ⟨1, true⟩]
    let s := exec turnStep twoFaults turns
    RemoteFaults 0x1000 ⟨2⟩ ⟨[10, 0, 0, 2], 19001⟩ (fun _ => .unknown) twoFaults ∧
      ownerOf s.ctx 0x1000 = some ⟨1⟩ ∧
      s.tasks[1]? = some (.fault (.finished (.ok ()))) ∧
      (Ledger.ofRun (fun _ => .unknown) (trace turnStep twoFaults turns)).installed 1 = some .zeroPage ∧
      ¬ FetchedFromOwner 0x1000 ⟨2⟩ ⟨[10, 0, 0, 2], 19001⟩ (fun _ => .unknown)
        (trace turnStep twoFaults turns) s := by
  intro turns s
  have howner : ownerOf s.ctx 0x1000 = some ⟨1⟩ := rfl
  refine ⟨twoFaults_remoteFaults, howner, rfl, rfl, fun h => ?_⟩
  have howned := howner.symm.trans h.owned
  exact absurd howned (by decide)

end Virthub.Klnk.Daemon
