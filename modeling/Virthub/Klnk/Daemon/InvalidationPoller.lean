import Mathlib.Data.List.TakeWhile
import Virthub.Klnk.Daemon.InvalidationQueue
import Virthub.Klnk.Daemon.Tasks

/-! The invalidation poller. It takes messages off the ring until its callback rejects one, and the
callback rejects every message for a page that is not known or that the node itself owns. -/
namespace Virthub.Klnk.Daemon
open Virthub.Lib.Ring Virthub.Klnk.Uffd

/-- The closure that the poller passes to `process_pending`. The node's own id never changes, so it
is read here and not once at the start. -/
def onInvalidation (cp : ControlPlaneManager) (m : Invalidation) : Bool × ControlPlaneManager :=
  match cp.lookupPageState m.vaddr with
  | some entry =>
    if entry.primaryOwner ≠ cp.localNodeId then
      let cp' := (cp.updatePageState m.vaddr .invalid entry.primaryOwner).2
      (true, (cp'.removeReader m.vaddr cp.localNodeId).2)
    else (false, cp)
  | none => (false, cp)

def afterMessages (cp : ControlPlaneManager) (ms : List Invalidation) : ControlPlaneManager :=
  ms.foldl (fun cp m => (onInvalidation cp m).2) cp

structure PollerState where
  buffer : InvalidationBuffer
  controlPlane : ControlPlaneManager

/-- One round of the poller's loop. -/
def pollerIteration (s : PollerState) : PollerState :=
  if s.buffer.tail > s.buffer.head then
    let (out, buffer) := s.buffer.processPending fun accepted m =>
      (onInvalidation (afterMessages s.controlPlane accepted) m).1
    ⟨buffer, afterMessages s.controlPlane out.offered⟩
  else s

def RemotePage (cp : ControlPlaneManager) (v : UInt64) : Prop :=
  ∃ entry, cp.lookupPageState v = some entry ∧ entry.primaryOwner ≠ cp.localNodeId

instance (cp : ControlPlaneManager) (v : UInt64) : Decidable (RemotePage cp v) :=
  inferInstanceAs (Decidable (∃ entry ∈ cp.lookupPageState v, entry.primaryOwner ≠ cp.localNodeId))

def invalidatedEntry (localNode : NodeId) (entry : DistributedPageEntry) :
    DistributedPageEntry :=
  { entry with
    coherenceState := .invalid
    replicaHolders := entry.replicaHolders.filter (· ≠ localNode) }

section Callback
variable (cp : ControlPlaneManager) (m : Invalidation) (v : UInt64)

theorem onInvalidation_of_not {cp : ControlPlaneManager} {m : Invalidation}
    (h : ¬ RemotePage cp m.vaddr) : onInvalidation cp m = (false, cp) := by
  unfold onInvalidation
  cases hl : cp.lookupPageState m.vaddr with
  | none => rfl
  | some entry =>
    have howner : ¬ entry.primaryOwner ≠ cp.localNodeId := fun hne => h ⟨entry, hl, hne⟩
    exact if_neg howner

theorem onInvalidation_accepts : (onInvalidation cp m).1 = decide (RemotePage cp m.vaddr) := by
  by_cases h : RemotePage cp m.vaddr
  · obtain ⟨entry, hl, howner⟩ := id h
    rw [decide_eq_true h, onInvalidation, hl]
    dsimp only
    rw [if_pos howner]
  · rw [decide_eq_false h, onInvalidation_of_not h]

theorem onInvalidation_localNodeId : (onInvalidation cp m).2.localNodeId = cp.localNodeId := by
  by_cases h : RemotePage cp m.vaddr
  · obtain ⟨entry, hl, howner⟩ := h
    rw [onInvalidation, hl]
    dsimp only
    rw [if_pos howner, ControlPlaneManager.removeReader,
      ControlPlaneManager.localNodeId_modifyPage, ControlPlaneManager.updatePageState,
      ControlPlaneManager.localNodeId_modifyPage]
  · rw [onInvalidation_of_not h]

theorem lookup_onInvalidation :
    (onInvalidation cp m).2.lookupPageState v =
      if v = m.vaddr ∧ RemotePage cp v then
        (cp.lookupPageState v).map (invalidatedEntry cp.localNodeId)
      else cp.lookupPageState v := by
  by_cases h : RemotePage cp m.vaddr
  · obtain ⟨entry, hl, howner⟩ := id h
    rw [onInvalidation, hl]
    dsimp only
    rw [if_pos howner, ControlPlaneManager.removeReader, ControlPlaneManager.lookup_modifyPage,
      ControlPlaneManager.updatePageState, ControlPlaneManager.lookup_modifyPage]
    by_cases hv : v = m.vaddr
    · rw [if_pos hv, if_pos hv, if_pos ⟨hv, hv ▸ h⟩, hv, hl]
      rfl
    · rw [if_neg hv, if_neg hv, if_neg fun hc => hv hc.1]
  · rw [onInvalidation_of_not h, if_neg]
    intro ⟨hv, hr⟩
    exact h (hv ▸ hr)

theorem remotePage_onInvalidation : RemotePage (onInvalidation cp m).2 v ↔ RemotePage cp v := by
  unfold RemotePage
  rw [lookup_onInvalidation, onInvalidation_localNodeId]
  split_ifs
  · cases cp.lookupPageState v with
    | none => simp
    | some entry => simp [invalidatedEntry]
  · rfl

/-- The callback with nobody in between: three steps of the task that the poller is among the
tasks of the daemon. -/
theorem onInvalidation_eq_pollerStep (c : FetchContext) :
    ∃ n ≤ 3, (fun p : PollerPc × FetchContext => pollerStep p.2 p.1)^[n] (.lookup m.vaddr, c) =
      (.finished (onInvalidation c.controlPlane m).1,
        { c with controlPlane := (onInvalidation c.controlPlane m).2 }) := by
  cases hl : c.controlPlane.lookupPageState m.vaddr with
  | none =>
    refine ⟨1, by decide, ?_⟩
    simp [pollerStep, onInvalidation, hl]
  | some entry =>
    by_cases howner : entry.primaryOwner = c.controlPlane.localNodeId
    · refine ⟨1, by decide, ?_⟩
      simp [pollerStep, onInvalidation, hl, howner]
    · refine ⟨3, le_refl 3, ?_⟩
      simp [pollerStep, onInvalidation, hl, howner, ControlPlaneManager.updatePageState,
        ControlPlaneManager.localNodeId_modifyPage]

end Callback

/-- The page is invalid and the node is not among its readers. -/
def Invalidated (cp : ControlPlaneManager) (v : UInt64) : Prop :=
  ∃ entry, cp.lookupPageState v = some entry ∧ entry.coherenceState = .invalid ∧
    cp.localNodeId ∉ entry.replicaHolders

section Messages
variable {cp : ControlPlaneManager} {v : UInt64}

theorem invalidated_onInvalidation {m : Invalidation} (h : RemotePage cp m.vaddr) :
    Invalidated (onInvalidation cp m).2 m.vaddr := by
  obtain ⟨entry, hl, -⟩ := id h
  refine ⟨invalidatedEntry cp.localNodeId entry, ?_, rfl, ?_⟩
  · rw [lookup_onInvalidation, if_pos ⟨rfl, h⟩, hl]
    rfl
  · rw [onInvalidation_localNodeId]
    simp [invalidatedEntry]

theorem Invalidated.onInvalidation (h : Invalidated cp v) (m : Invalidation) :
    Invalidated (onInvalidation cp m).2 v := by
  obtain ⟨entry, hl, hstate, hreader⟩ := h
  unfold Invalidated
  rw [lookup_onInvalidation, onInvalidation_localNodeId]
  split_ifs
  · refine ⟨invalidatedEntry cp.localNodeId entry, by rw [hl]; rfl, rfl, ?_⟩
    simp [invalidatedEntry]
  · exact ⟨entry, hl, hstate, hreader⟩

theorem afterMessages_cons (cp : ControlPlaneManager) (m : Invalidation) (ms : List Invalidation) :
    afterMessages cp (m :: ms) = afterMessages (onInvalidation cp m).2 ms := rfl

theorem remotePage_afterMessages (cp : ControlPlaneManager) (ms : List Invalidation) (v : UInt64) :
    RemotePage (afterMessages cp ms) v ↔ RemotePage cp v := by
  induction ms generalizing cp with
  | nil => rfl
  | cons m ms ih => rw [afterMessages_cons, ih, remotePage_onInvalidation]

theorem Invalidated.afterMessages (h : Invalidated cp v) (ms : List Invalidation) :
    Invalidated (afterMessages cp ms) v := by
  induction ms generalizing cp with
  | nil => exact h
  | cons m ms ih => exact ih (h.onInvalidation m)

theorem invalidated_afterMessages {ms : List Invalidation} {m : Invalidation} (hm : m ∈ ms)
    (h : RemotePage cp m.vaddr) : Invalidated (afterMessages cp ms) m.vaddr := by
  induction ms generalizing cp with
  | nil => cases hm
  | cons m' ms ih =>
    rw [afterMessages_cons]
    rcases List.mem_cons.mp hm with rfl | hm
    · exact (invalidated_onInvalidation h).afterMessages ms
    · exact ih hm ((remotePage_onInvalidation cp m' m.vaddr).mpr h)

end Messages

theorem offerTo_of_forall {callback : List Invalidation → Invalidation → Bool}
    {p : Invalidation → Bool} (h : ∀ accepted m, callback accepted m = p m)
    (accepted queue : List Invalidation) :
    offerTo callback accepted queue =
      ⟨accepted ++ queue.takeWhile p, (queue.dropWhile p).head?⟩ := by
  induction queue generalizing accepted with
  | nil => simp [offerTo]
  | cons m ms ih =>
    rw [offerTo, h, List.takeWhile_cons, List.dropWhile_cons]
    cases hp : p m with
    | true =>
      rw [if_pos rfl, if_pos rfl, if_pos rfl, ih]
      simp
    | false => simp

section Round
variable {s : PollerState} {queue : List Invalidation}

/-- A round on a queue takes off the messages before the first that is not for a remote page, and
gives the callback at least those. -/
theorem pollerIteration_represents (h : s.buffer.Represents queue) :
    (pollerIteration s).buffer.Represents
        (queue.dropWhile fun m => RemotePage s.controlPlane m.vaddr) ∧
      ∃ ms, (pollerIteration s).controlPlane = afterMessages s.controlPlane ms ∧
        queue.takeWhile (fun m => RemotePage s.controlPlane m.vaddr) <+: ms := by
  have htail := h.tail
  have hcallback : ∀ accepted m,
      (onInvalidation (afterMessages s.controlPlane accepted) m).1 =
        decide (RemotePage s.controlPlane m.vaddr) := by
    intro accepted m
    rw [onInvalidation_accepts]
    exact decide_eq_decide.mpr (remotePage_afterMessages ..)
  by_cases hlt : s.buffer.tail > s.buffer.head
  · obtain ⟨hout, hrep, -⟩ := h.processPending fun accepted m =>
      (onInvalidation (afterMessages s.controlPlane accepted) m).1
    rw [offerTo_of_forall hcallback, List.nil_append] at hout hrep
    have hdrop : ∀ p : Invalidation → Bool,
        queue.drop (queue.takeWhile p).length = queue.dropWhile p := by
      intro p
      have hleft : (queue.takeWhile p ++ queue.dropWhile p).drop (queue.takeWhile p).length =
          queue.dropWhile p := List.drop_left ..
      rwa [List.takeWhile_append_dropWhile] at hleft
    rw [pollerIteration, if_pos hlt]
    constructor
    · rw [← hdrop]
      exact hrep
    · refine ⟨_, rfl, ?_⟩
      rw [hout]
      exact List.prefix_append _ _
  · have hnil : queue = [] := by
      rw [gt_iff_lt, UInt64.lt_iff_toNat_lt] at hlt
      exact List.eq_nil_of_length_eq_zero (by omega)
    rw [pollerIteration, if_neg hlt]
    rw [hnil] at h ⊢
    exact ⟨h, [], rfl, List.prefix_rfl⟩

theorem remotePage_pollerIteration (h : s.buffer.Represents queue) (v : UInt64) :
    RemotePage (pollerIteration s).controlPlane v ↔ RemotePage s.controlPlane v := by
  obtain ⟨-, ms, hcp, -⟩ := pollerIteration_represents h
  rw [hcp, remotePage_afterMessages]

end Round

/-- The entries between head and tail are fully written and hold the queue. The counters wrap. -/
structure Queued (buffer : InvalidationBuffer) (queue : List Invalidation) : Prop where
  fits : queue.length ≤ numEntries
  tail : buffer.tail = buffer.head + UInt64.ofNat queue.length
  entry : ∀ i m, queue[i]? = some m →
    buffer.entries (slotOf (buffer.head + UInt64.ofNat i)) = m.entry

/-- The queue is empty, and every remote page of a message is invalid and not read by the node.
Which pages are remote is said by the control plane before. -/
structure TakenEffect (cp : ControlPlaneManager) (queue : List Invalidation) (s : PollerState) :
    Prop where
  empty : s.buffer.head = s.buffer.tail
  invalidated : ∀ m ∈ queue, RemotePage cp m.vaddr → Invalidated s.controlPlane m.vaddr

/-- After enough rounds of the poller the messages have taken effect. -/
def TakesEffect (s : PollerState) (queue : List Invalidation) : Prop :=
  ∃ n, ∀ k ≥ n, TakenEffect s.controlPlane queue (pollerIteration^[k] s)

section Effect
variable {s : PollerState} {queue : List Invalidation}

theorem Queued.represents {buffer : InvalidationBuffer} (h : Queued buffer queue)
    (hwrap : buffer.head.toNat + queue.length < 2 ^ 64) : buffer.Represents queue := by
  have hadd : ∀ i ≤ queue.length, (buffer.head + UInt64.ofNat i).toNat = buffer.head.toNat + i := by
    intro i hi
    rw [UInt64.toNat_add, UInt64.toNat_ofNat', Nat.mod_eq_of_lt (by omega : i < 2 ^ 64),
      Nat.mod_eq_of_lt (by omega)]
  refine ⟨⟨by rw [List.length_map]; exact h.fits, fun i x hx => ?_⟩, ?_⟩
  · rw [List.getElem?_map] at hx
    obtain ⟨m, hm, rfl⟩ := Option.map_eq_some_iff.mp hx
    have hlt : i < queue.length := (List.getElem?_eq_some_iff.mp hm).1
    rw [← h.entry i m hm, slotOf_eq, hadd i hlt.le]
  · rw [h.tail, hadd _ (le_refl _)]

/-- With indices that wrap the poller sees nothing to do. -/
theorem Queued.idle (h : Queued s.buffer queue)
    (hwrap : 2 ^ 64 ≤ s.buffer.head.toNat + queue.length) :
    pollerIteration s = s ∧ s.buffer.head ≠ s.buffer.tail := by
  have hfits : queue.length ≤ 1024 := h.fits
  have hhead := s.buffer.head.toNat_lt
  have htail : s.buffer.tail.toNat = (s.buffer.head.toNat + queue.length) % 2 ^ 64 := by
    rw [h.tail, UInt64.toNat_add, UInt64.toNat_ofNat', Nat.mod_eq_of_lt (by omega : queue.length < 2 ^ 64)]
  have hlt : s.buffer.tail.toNat < s.buffer.head.toNat := by omega
  constructor
  · rw [pollerIteration, if_neg]
    rw [gt_iff_lt, UInt64.lt_iff_toNat_lt]
    omega
  · intro heq
    rw [heq] at hlt
    exact absurd hlt (lt_irrefl _)

/-- A message that is not for a remote page stays in the queue for ever. -/
theorem blocked_iterate (h : s.buffer.Represents queue) {m : Invalidation} (hm : m ∈ queue)
    (hnot : ¬ RemotePage s.controlPlane m.vaddr) (n : ℕ) :
    ∃ queue', (pollerIteration^[n] s).buffer.Represents queue' ∧ m ∈ queue' := by
  induction n generalizing s queue with
  | zero => exact ⟨queue, h, hm⟩
  | succ n ih =>
    rw [Function.iterate_succ_apply]
    apply ih (pollerIteration_represents h).1
    · have hsplit := List.takeWhile_append_dropWhile
        (p := fun m => decide (RemotePage s.controlPlane m.vaddr)) (l := queue)
      rw [← hsplit] at hm
      rcases List.mem_append.mp hm with htake | hdrop
      · have hremote := List.mem_takeWhile_imp htake
        exact absurd (of_decide_eq_true hremote) hnot
      · exact hdrop
    · rw [remotePage_pollerIteration h]
      exact hnot

theorem InvalidationBuffer.Represents.eq_nil_of_empty {buffer : InvalidationBuffer}
    (h : buffer.Represents queue) (he : buffer.head = buffer.tail) : queue = [] := by
  have htail := h.tail
  rw [he] at htail
  exact List.eq_nil_of_length_eq_zero (by omega)

theorem takesEffect_of_remote (h : s.buffer.Represents queue)
    (hall : ∀ m ∈ queue, RemotePage s.controlPlane m.vaddr) : TakesEffect s queue := by
  obtain ⟨hrep, ms, hcp, htake⟩ := pollerIteration_represents h
  have hself : queue.takeWhile (fun m => RemotePage s.controlPlane m.vaddr) = queue :=
    List.takeWhile_eq_self_iff.mpr fun m hm => decide_eq_true (hall m hm)
  have hnil : queue.dropWhile (fun m => RemotePage s.controlPlane m.vaddr) = [] :=
    List.dropWhile_eq_nil_iff.mpr fun m hm => decide_eq_true (hall m hm)
  rw [hself] at htake
  rw [hnil] at hrep
  have hempty : (pollerIteration s).buffer.head = (pollerIteration s).buffer.tail := by
    have htail := hrep.tail
    exact UInt64.toNat_inj.mp htail.symm
  have hidle : pollerIteration (pollerIteration s) = pollerIteration s := by
    conv_lhs => rw [pollerIteration]
    rw [if_neg]
    rw [hempty]
    exact UInt64.lt_irrefl _
  refine ⟨1, fun k hk => ?_⟩
  obtain ⟨k, rfl⟩ := Nat.exists_eq_add_of_le' hk
  rw [Function.iterate_succ_apply, Function.iterate_fixed hidle]
  refine ⟨hempty, fun m hm hr => ?_⟩
  rw [hcp]
  exact invalidated_afterMessages (htake.subset hm) hr

/-- The messages take effect exactly if each is for a remote page and the indices do not wrap. -/
theorem takesEffect_iff (h : Queued s.buffer queue) :
    TakesEffect s queue ↔
      s.buffer.head.toNat + queue.length < 2 ^ 64 ∧
        ∀ m ∈ queue, RemotePage s.controlPlane m.vaddr := by
  constructor
  · intro ⟨n, hn⟩
    have hempty := (hn n (le_refl n)).empty
    have hwrap : s.buffer.head.toNat + queue.length < 2 ^ 64 := by
      by_contra hge
      obtain ⟨hfix, hne⟩ := h.idle (Nat.not_lt.mp hge)
      rw [Function.iterate_fixed hfix] at hempty
      exact hne hempty
    refine ⟨hwrap, fun m hm => ?_⟩
    by_contra hnot
    obtain ⟨queue', hrep, hmem⟩ := blocked_iterate (h.represents hwrap) hm hnot n
    rw [hrep.eq_nil_of_empty hempty] at hmem
    cases hmem
  · intro ⟨hwrap, hall⟩
    exact takesEffect_of_remote (h.represents hwrap) hall

end Effect

def ringOf (queue : List Invalidation) : InvalidationBuffer :=
  ⟨0, UInt64.ofNat queue.length, fun i => (queue[i]?.map Invalidation.entry).getD fun _ => 0⟩

theorem queued_ringOf {queue : List Invalidation} (h : queue.length ≤ numEntries) :
    Queued (ringOf queue) queue where
  fits := h
  tail := (UInt64.zero_add _).symm
  entry i m hm := by
    have hlt : i < queue.length := (List.getElem?_eq_some_iff.mp hm).1
    have hslot : slotOf (0 + UInt64.ofNat i) = i := by
      unfold numEntries at h
      rw [UInt64.zero_add, slotOf_eq, UInt64.toNat_ofNat', Nat.mod_eq_of_lt (by omega : i < 2 ^ 64),
        numEntries, Nat.mod_eq_of_lt (by omega)]
    change ((queue[slotOf (0 + UInt64.ofNat i)]?).map Invalidation.entry).getD _ = m.entry
    rw [hslot, hm]
    rfl

theorem takesEffect_iff_two_versions :
    Queued (ringOf [⟨0x1000, 1, 4096⟩, ⟨0x1000, 2, 4096⟩]) [⟨0x1000, 1, 4096⟩, ⟨0x1000, 2, 4096⟩] ∧
      TakesEffect ⟨ringOf [⟨0x1000, 1, 4096⟩, ⟨0x1000, 2, 4096⟩], remotePage.controlPlane⟩
        [⟨0x1000, 1, 4096⟩, ⟨0x1000, 2, 4096⟩] :=
  have hqueued : Queued (ringOf [⟨0x1000, 1, 4096⟩, ⟨0x1000, 2, 4096⟩])
      [⟨0x1000, 1, 4096⟩, ⟨0x1000, 2, 4096⟩] := queued_ringOf (by decide)
  ⟨hqueued, (takesEffect_iff (s := ⟨_, remotePage.controlPlane⟩) hqueued).mpr
    ⟨by decide, by decide⟩⟩

/-- A message for a page that is not known blocks the one behind it. -/
theorem takesEffect_fails_on_unknown_page :
    ¬ ∀ s queue, Queued s.buffer queue → TakesEffect s queue := by
  intro h
  have hqueued : Queued (ringOf [⟨0x9000, 1, 4096⟩, ⟨0x1000, 1, 4096⟩])
      [⟨0x9000, 1, 4096⟩, ⟨0x1000, 1, 4096⟩] := queued_ringOf (by decide)
  obtain ⟨n, hn⟩ := h ⟨_, remotePage.controlPlane⟩ _ hqueued
  have hunknown : ¬ RemotePage remotePage.controlPlane 0x9000 := by decide
  obtain ⟨queue, hrep, hmem⟩ := blocked_iterate (s := ⟨_, remotePage.controlPlane⟩)
    (hqueued.represents (by decide)) List.mem_cons_self hunknown n
  rw [hrep.eq_nil_of_empty (hn n (le_refl n)).empty] at hmem
  cases hmem

end Virthub.Klnk.Daemon
