import Virthub.Klnk.Core.ControlPlane
import Virthub.Lib.Trace

/-! The lock table as a queue for each resource: who holds a lock, and who gets it next. -/
namespace Virthub.Klnk
open Virthub.Lib

inductive LockCall where
  | acquire (resourceId : UInt64) (clientPid : UInt32)
  | release (resourceId : UInt64) (clientPid : UInt32)
  deriving DecidableEq, Repr

def LockCall.resourceId : LockCall → UInt64
  | .acquire r _ | .release r _ => r

def lockStep (self : ControlPlaneManager) :
    LockCall → Except ControlPlaneError Unit × ControlPlaneManager
  | .acquire r pid => self.acquireLock r pid
  | .release r pid => self.releaseLock r pid

abbrev LockEvent := Event ControlPlaneManager LockCall (Except ControlPlaneError Unit)

/-- What a call does to the lock it names. -/
inductive LockChange (r : UInt64) (pid : UInt32) :
    LockState → LockCall → Except ControlPlaneError Unit → LockState → Prop
  | take {l : LockState} (hfree : l.currentOwnerPid = none) :
      LockChange r pid l (.acquire r pid) (.ok ()) { l with currentOwnerPid := some pid }
  | again {l : LockState} (howner : l.currentOwnerPid = some pid) :
      LockChange r pid l (.acquire r pid) (.ok ()) l
  | wait {l : LockState} {owner : UInt32} (howner : l.currentOwnerPid = some owner)
      (hne : owner ≠ pid) (hnew : pid ∉ l.waitingPids) :
      LockChange r pid l (.acquire r pid) (.error (.lockConflict r pid))
        { l with waitingPids := l.waitingPids ++ [pid] }
  | waitOn {l : LockState} {owner : UInt32} (howner : l.currentOwnerPid = some owner)
      (hne : owner ≠ pid) (hold : pid ∈ l.waitingPids) :
      LockChange r pid l (.acquire r pid) (.error (.lockConflict r pid)) l
  | pass {l : LockState} (howner : l.currentOwnerPid = some pid) :
      LockChange r pid l (.release r pid) (.ok ())
        { l with currentOwnerPid := l.waitingPids.head?, waitingPids := l.waitingPids.tail }
  | refuse {l : LockState} (hother : l.currentOwnerPid ≠ some pid) :
      LockChange r pid l (.release r pid) (.error (.lockNotHeld r pid)) l

namespace LockChange
variable {r : UInt64} {pid : UInt32} {l l' : LockState} {c : LockCall}
  {answer : Except ControlPlaneError Unit}

theorem acquired {p : UInt32} (h : LockChange r pid l (.acquire r p) answer l') :
    answer = .ok () ↔ l'.currentOwnerPid = some p := by
  cases h with
  | take hfree => simp
  | again howner => simp [howner]
  | wait howner hne hnew => simp [howner, hne]
  | waitOn howner hne hold => simp [howner, hne]

theorem passed (h : LockChange r pid l c answer l') {o : UInt32} (ho : l.currentOwnerPid = some o)
    (ho' : l'.currentOwnerPid ≠ some o) : c = .release r o ∧ answer = .ok () := by
  cases h with
  | take hfree => cases ho.symm.trans hfree
  | pass howner =>
    obtain rfl : o = pid := Option.some.inj (ho.symm.trans howner)
    exact ⟨rfl, rfl⟩
  | _ => exact absurd ho ho'

theorem taken (h : LockChange r pid l c answer l') {p : UInt32} (ho : l.currentOwnerPid = none)
    (ho' : l'.currentOwnerPid = some p) : c = .acquire r p := by
  cases h with
  | take hfree =>
    obtain rfl : pid = p := Option.some.inj ho'
    rfl
  | pass howner => cases ho.symm.trans howner
  | _ => cases ho.symm.trans ho'

theorem released {o : UInt32} (h : LockChange r pid l (.release r o) (.ok ()) l') :
    l.currentOwnerPid = some o ∧ l'.currentOwnerPid = l.waitingPids.head? := by
  cases h with
  | pass howner => exact ⟨howner, rfl⟩

end LockChange

namespace ControlPlaneManager

theorem lookup_acquireLock_ne (self : ControlPlaneManager) {r r' : UInt64} (hr : r' ≠ r)
    (pid : UInt32) : (self.acquireLock r pid).2.locks.lookup r' = self.locks.lookup r' := by
  unfold acquireLock
  dsimp only
  split
  · exact AList.lookup_insert_ne hr
  · split_ifs
    all_goals first | rfl | exact AList.lookup_insert_ne hr

theorem lookup_releaseLock_ne (self : ControlPlaneManager) {r r' : UInt64} (hr : r' ≠ r)
    (pid : UInt32) : (self.releaseLock r pid).2.locks.lookup r' = self.locks.lookup r' := by
  unfold releaseLock
  split
  · rfl
  · split_ifs
    · exact AList.lookup_insert_ne hr
    · rfl

theorem acquireLock_change (self : ControlPlaneManager) (r : UInt64) (pid : UInt32) :
    LockChange r pid (self.lockEntry r) (.acquire r pid) (self.acquireLock r pid).1
      ((self.acquireLock r pid).2.lockEntry r) := by
  unfold acquireLock
  dsimp only
  cases ho : (self.lockEntry r).currentOwnerPid with
  | none =>
    dsimp only
    rw [lockEntry_insert, if_pos rfl]
    exact .take ho
  | some owner =>
    dsimp only
    by_cases hown : owner = pid
    · rw [if_pos hown]
      exact .again (hown ▸ ho)
    · rw [if_neg hown]
      dsimp only
      rw [lockEntry_insert, if_pos rfl]
      by_cases hmem : pid ∈ (self.lockEntry r).waitingPids
      · rw [if_pos hmem, ← ho]
        exact .waitOn ho hown hmem
      · rw [if_neg hmem, ← ho]
        exact .wait ho hown hmem

theorem releaseLock_change (self : ControlPlaneManager) (r : UInt64) (pid : UInt32) :
    LockChange r pid (self.lockEntry r) (.release r pid) (self.releaseLock r pid).1
      ((self.releaseLock r pid).2.lockEntry r) := by
  unfold releaseLock
  cases hl : self.locks.lookup r with
  | none =>
    have hentry : self.lockEntry r = ⟨r, none, []⟩ := by
      rw [lockEntry, hl]
      rfl
    dsimp only
    rw [hentry]
    exact .refuse (by simp)
  | some lock =>
    have hentry : self.lockEntry r = lock := by
      rw [lockEntry, hl]
      rfl
    dsimp only
    by_cases ho : lock.currentOwnerPid = some pid
    · rw [if_pos ho]
      dsimp only
      rw [lockEntry_insert, if_pos rfl, hentry]
      exact .pass ho
    · rw [if_neg ho, hentry]
      exact .refuse ho

theorem releaseLock_of_error (self : ControlPlaneManager) (r : UInt64) (pid : UInt32)
    (h : (self.releaseLock r pid).1 ≠ .ok ()) : (self.releaseLock r pid).2 = self := by
  unfold releaseLock at h ⊢
  split
  · rfl
  · split_ifs with ho
    · simp [*] at h
    · rfl

theorem lookup_lockStep_ne (self : ControlPlaneManager) (c : LockCall) {r : UInt64}
    (hr : r ≠ c.resourceId) : (lockStep self c).2.locks.lookup r = self.locks.lookup r := by
  cases c with
  | acquire r' pid => exact self.lookup_acquireLock_ne hr pid
  | release r' pid => exact self.lookup_releaseLock_ne hr pid

theorem lockEntry_lockStep_ne (self : ControlPlaneManager) (c : LockCall) {r : UInt64}
    (hr : r ≠ c.resourceId) : (lockStep self c).2.lockEntry r = self.lockEntry r := by
  rw [lockEntry, lookup_lockStep_ne self c hr]
  rfl

theorem lockStep_change (self : ControlPlaneManager) (c : LockCall) :
    ∃ pid, LockChange c.resourceId pid (self.lockEntry c.resourceId) c (lockStep self c).1
      ((lockStep self c).2.lockEntry c.resourceId) := by
  cases c with
  | acquire r pid => exact ⟨pid, self.acquireLock_change r pid⟩
  | release r pid => exact ⟨pid, self.releaseLock_change r pid⟩

end ControlPlaneManager

/-- An acquisition by `q` that is answered with a conflict. -/
def Conflict (r : UInt64) (q : UInt32) (e : LockEvent) : Prop :=
  e.call = .acquire r q ∧ e.answer = .error (.lockConflict r q)

/-- After the event the lock is held by `q`. -/
def Owns (r : UInt64) (q : UInt32) (e : LockEvent) : Prop := e.post.lockOwner r = some q

/-- `q` waits for the lock, and has done so since the conflict at time `t`: the first one since it
last owned the lock. -/
def WaitsSince (h : List LockEvent) (r : UInt64) (q : UInt32) (t : ℕ) : Prop :=
  IsLeast (Pending (Conflict r q) (Owns r q) h) t

/-- No one waits for the lock longer than `q`. -/
def LongestWaiting (h : List LockEvent) (r : UInt64) (q : UInt32) : Prop :=
  ∃ t, WaitsSince h r q t ∧ ∀ q' t', WaitsSince h r q' t' → t ≤ t'

/-- The owner does not wait, no one waits twice, and no one waits for a free lock. -/
structure LockState.Fair (l : LockState) : Prop where
  owner : ∀ o, l.currentOwnerPid = some o → o ∉ l.waitingPids
  nodup : l.waitingPids.Nodup
  free : l.currentOwnerPid = none → l.waitingPids = []

/-- The waiting list names those who wait, the longest waiting first. -/
structure Queued (h : List LockEvent) (r : UInt64) (l : LockState) : Prop extends l.Fair where
  waits : ∀ q, q ∈ l.waitingPids ↔ (Pending (Conflict r q) (Owns r q) h).Nonempty
  order : l.waitingPids.Pairwise fun q q' =>
    ∀ t t', WaitsSince h r q t → WaitsSince h r q' t' → t < t'

theorem Queued.waits_of_waitsSince {h : List LockEvent} {r : UInt64} {l : LockState} {q : UInt32}
    {t : ℕ} (hq : Queued h r l) (ht : WaitsSince h r q t) : q ∈ l.waitingPids :=
  (hq.waits q).mpr ⟨t, ht.1⟩

/-- The head of the list waits longest. -/
theorem Queued.head_iff {h : List LockEvent} {r : UInt64} {l : LockState} (hq : Queued h r l)
    (q : UInt32) : l.waitingPids.head? = some q ↔ LongestWaiting h r q := by
  have hwaits := hq.waits
  have horder := hq.order
  have hmem := fun q' t' => hq.waits_of_waitsSince (q := q') (t := t')
  cases hl : l.waitingPids with
  | nil =>
    rw [hl] at hmem
    simp only [List.head?_nil, reduceCtorEq, false_iff]
    intro ⟨t, ht, _⟩
    cases hmem q t ht
  | cons p ps =>
    rw [hl] at hwaits horder hmem
    obtain ⟨hfirst, -⟩ := List.pairwise_cons.mp horder
    obtain ⟨t, ht⟩ := exists_isLeast_pending ((hwaits p).mp (by simp))
    rw [List.head?_cons, Option.some.injEq]
    constructor
    · intro hp
      rw [← hp]
      refine ⟨t, ht, fun q' t' ht' => ?_⟩
      rcases List.mem_cons.mp (hmem q' t' ht') with rfl | hq'
      · exact (ht.unique ht').le
      · exact (hfirst q' hq' t t' ht ht').le
    · intro ⟨u, hu, hmin⟩
      rcases List.mem_cons.mp (hmem q u hu) with hqp | hq'
      · exact hqp.symm
      · have hlt := hfirst q hq' t u ht hu
        have hle := hmin p t ht
        omega

theorem queued_nil (r : UInt64) (resourceId : UInt64) : Queued [] r ⟨resourceId, none, []⟩ where
  owner o ho := by cases ho
  nodup := List.nodup_nil
  free _ := rfl
  waits q := by simp
  order := List.Pairwise.nil

section Step
variable {h : List LockEvent} {r : UInt64} {l l' : LockState} {x : LockEvent}

/-- Who is not told of a conflict, and gets the lock only if it did not wait, waits as before. -/
theorem Queued.pending_keep (hq : Queued h r l) {q : UInt32} (hc : ¬ Conflict r q x)
    (ho : x.post.lockOwner r = some q → q ∉ l.waitingPids) :
    Pending (Conflict r q) (Owns r q) (h ++ [x]) = Pending (Conflict r q) (Owns r q) h := by
  by_cases hown : x.post.lockOwner r = some q
  · have hempty : Pending (Conflict r q) (Owns r q) h = ∅ :=
      Set.not_nonempty_iff_eq_empty.mp fun hn => ho hown ((hq.waits q).mpr hn)
    rw [hempty]
    exact pending_concat_of_ends hc hown
  · exact pending_concat_of_not hc hown

/-- An event without a conflict for the lock that leaves the waiting list as it was. -/
theorem Queued.keep (hq : Queued h r l) (hl : l'.Fair) (hw : l'.waitingPids = l.waitingPids)
    (ho : x.post.lockOwner r = l'.currentOwnerPid) (hc : ∀ q, ¬ Conflict r q x) :
    Queued (h ++ [x]) r l' := by
  have hpending : ∀ q, Pending (Conflict r q) (Owns r q) (h ++ [x]) =
      Pending (Conflict r q) (Owns r q) h := by
    intro q
    apply hq.pending_keep (hc q)
    intro hown
    rw [← hw]
    exact hl.owner q (ho.symm.trans hown)
  refine ⟨hl, ?_, ?_⟩
  · intro q
    rw [hpending, hw, hq.waits]
  · simp only [WaitsSince, hpending, hw]
    exact hq.order

/-- The owner lets go of the lock, and the first in the list gets it. -/
theorem Queued.pass (hq : Queued h r l) (ho : x.post.lockOwner r = l.waitingPids.head?)
    (hc : ∀ q, ¬ Conflict r q x) :
    Queued (h ++ [x]) r
      { l with currentOwnerPid := l.waitingPids.head?, waitingPids := l.waitingPids.tail } := by
  cases hl : l.waitingPids with
  | nil =>
    have hfair : (LockState.mk l.resourceId none []).Fair := (queued_nil r l.resourceId).toFair
    rw [hl] at ho
    exact hq.keep hfair hl.symm ho hc
  | cons w ws =>
    have hnodup := hq.nodup
    have hwaits := hq.waits
    have horder := hq.order
    rw [hl] at ho hnodup hwaits horder
    rw [List.head?_cons] at ho
    obtain ⟨hnew, hnodup'⟩ := List.nodup_cons.mp hnodup
    have hend : Pending (Conflict r w) (Owns r w) (h ++ [x]) = ∅ :=
      pending_concat_of_ends (hc w) ho
    have hpending : ∀ q, q ≠ w → Pending (Conflict r q) (Owns r q) (h ++ [x]) =
        Pending (Conflict r q) (Owns r q) h := by
      intro q hne
      apply hq.pending_keep (hc q)
      intro hown
      exact absurd (Option.some.inj (ho.symm.trans hown)).symm hne
    refine ⟨⟨?_, hnodup', ?_⟩, ?_, ?_⟩
    · intro o hw
      obtain rfl : w = o := Option.some.inj hw
      exact hnew
    · intro hnone
      cases hnone
    · intro q
      by_cases hqw : q = w
      · rw [hqw, hend]
        simpa using hnew
      · rw [hpending q hqw, ← hwaits q]
        simp [hqw]
    · refine (List.pairwise_cons.mp horder).2.imp_of_mem ?_
      intro q q' hmem hmem' hlt
      have hne : q ≠ w := fun heq => hnew (heq ▸ hmem)
      have hne' : q' ≠ w := fun heq => hnew (heq ▸ hmem')
      simp only [WaitsSince, hpending q hne, hpending q' hne']
      exact hlt

/-- A conflict at a lock that stays with its owner concerns only the caller. -/
theorem Queued.pending_conflict (hq : Queued h r l) {pid : UInt32}
    (hcall : x.call = .acquire r pid) (ho : x.post.lockOwner r = l.currentOwnerPid) {q : UInt32}
    (hne : q ≠ pid) :
    Pending (Conflict r q) (Owns r q) (h ++ [x]) = Pending (Conflict r q) (Owns r q) h := by
  apply hq.pending_keep
  · intro ⟨hcall', _⟩
    have hcalls := hcall.symm.trans hcall'
    simp only [LockCall.acquire.injEq, true_and] at hcalls
    exact hne hcalls.symm
  · intro hown
    exact hq.owner q (ho.symm.trans hown)

/-- One who waits already asks again. -/
theorem Queued.waitOn (hq : Queued h r l) {pid owner : UInt32} (howner : l.currentOwnerPid = some owner)
    (hne : owner ≠ pid) (hold : pid ∈ l.waitingPids) (hcall : x.call = .acquire r pid)
    (ho : x.post.lockOwner r = l.currentOwnerPid) : Queued (h ++ [x]) r l := by
  have hnot : ¬ Owns r pid x := by
    intro hown
    rw [Owns, ho, howner] at hown
    exact hne (Option.some.inj hown)
  have hsince : ∀ q t, WaitsSince (h ++ [x]) r q t ↔ WaitsSince h r q t := by
    intro q t
    by_cases hqp : q = pid
    · rw [hqp]
      exact isLeast_pending_concat_of_nonempty hnot ((hq.waits pid).mp hold)
    · rw [WaitsSince, WaitsSince, hq.pending_conflict hcall ho hqp]
  refine ⟨hq.toFair, ?_, ?_⟩
  · intro q
    by_cases hqp : q = pid
    · obtain ⟨t, ht⟩ := (hq.waits pid).mp hold
      rw [hqp]
      exact iff_of_true hold ⟨t, mem_pending_concat.mpr (Or.inl ⟨ht, hnot⟩)⟩
    · rw [hq.pending_conflict hcall ho hqp, hq.waits]
  · simp only [hsince]
    exact hq.order

/-- A conflict puts a new one at the end of the list. -/
theorem Queued.wait (hq : Queued h r l) {pid owner : UInt32} (howner : l.currentOwnerPid = some owner)
    (hne : owner ≠ pid) (hnew : pid ∉ l.waitingPids) (hc : Conflict r pid x)
    (ho : x.post.lockOwner r = l.currentOwnerPid) :
    Queued (h ++ [x]) r { l with waitingPids := l.waitingPids ++ [pid] } := by
  have hempty : Pending (Conflict r pid) (Owns r pid) h = ∅ :=
    Set.not_nonempty_iff_eq_empty.mp fun hn => hnew ((hq.waits pid).mpr hn)
  have hlast : ∀ t, WaitsSince (h ++ [x]) r pid t ↔ t = h.length :=
    fun t => isLeast_pending_concat_of_empty hc hempty
  have hother : ∀ q, q ≠ pid → Pending (Conflict r q) (Owns r q) (h ++ [x]) =
      Pending (Conflict r q) (Owns r q) h := fun q => hq.pending_conflict hc.1 ho
  refine ⟨⟨?_, ?_, ?_⟩, ?_, ?_⟩
  · intro o hown
    have hoo : owner = o := Option.some.inj (howner.symm.trans hown)
    rw [List.mem_append, List.mem_singleton]
    intro hmem
    exact hmem.elim (hq.owner o hown) fun hop => hne (hoo.trans hop)
  · exact List.nodup_append.mpr ⟨hq.nodup, List.nodup_singleton pid, by
      intro q hmem q' hmem' heq
      exact hnew (List.mem_singleton.mp hmem' ▸ heq ▸ hmem)⟩
  · intro hnone
    cases howner.symm.trans hnone
  · intro q
    rw [List.mem_append, List.mem_singleton]
    by_cases hqp : q = pid
    · rw [hqp]
      exact iff_of_true (Or.inr rfl) ⟨h.length, ((hlast _).mpr rfl).1⟩
    · rw [hother q hqp, ← hq.waits q]
      simp [hqp]
  · have hne' : ∀ q ∈ l.waitingPids, q ≠ pid := fun q hmem heq => hnew (heq ▸ hmem)
    refine List.pairwise_append.mpr ⟨?_, List.pairwise_singleton .., ?_⟩
    · refine hq.order.imp_of_mem ?_
      intro q q' hmem hmem' hlt
      simp only [WaitsSince, hother q (hne' q hmem), hother q' (hne' q' hmem')]
      exact hlt
    · intro q hmem q' hmem' t t' ht ht'
      rw [List.mem_singleton.mp hmem', hlast] at ht'
      rw [WaitsSince, hother q (hne' q hmem)] at ht
      rw [ht']
      exact lt_of_mem_pending ht.1

/-- A call keeps the lock it names queued. -/
theorem Queued.change {pid : UInt32} (hq : Queued h r l)
    (hchange : LockChange r pid l x.call x.answer l') (ho : x.post.lockOwner r = l'.currentOwnerPid) :
    Queued (h ++ [x]) r l' := by
  obtain ⟨pre, call, answer, post⟩ := x
  dsimp only at hchange ho
  have hnone : ∀ q, call ≠ .acquire r q ∨ answer = .ok () →
      ¬ Conflict r q ⟨pre, call, answer, post⟩ := by
    intro q hor ⟨hcall, hans⟩
    rcases hor with hne | hok
    · exact hne hcall
    · cases hok.symm.trans hans
  cases hchange with
  | take hfree =>
    have hnil := hq.free hfree
    refine hq.keep ⟨?_, hq.nodup, ?_⟩ rfl ho fun q => hnone q (Or.inr rfl)
    · intro o _
      simp [hnil]
    · intro h
      cases h
  | again howner => exact hq.keep hq.toFair rfl ho fun q => hnone q (Or.inr rfl)
  | wait howner hne hnew => exact hq.wait howner hne hnew ⟨rfl, rfl⟩ ho
  | waitOn howner hne hold => exact hq.waitOn howner hne hold rfl ho
  | pass howner => exact hq.pass ho fun q => hnone q (Or.inr rfl)
  | refuse hother => exact hq.keep hq.toFair rfl ho fun q => hnone q (Or.inl (by simp))

end Step

/-- Every lock of the table is queued. -/
def QueueInv (h : List LockEvent) (s : ControlPlaneManager) : Prop :=
  ∀ r, Queued h r (s.lockEntry r)

theorem QueueInv.step {h : List LockEvent} {s : ControlPlaneManager} (hs : QueueInv h s)
    (c : LockCall) : QueueInv (h ++ [event lockStep s c]) (lockStep s c).2 := by
  intro r
  by_cases hr : r = c.resourceId
  · obtain ⟨pid, hchange⟩ := s.lockStep_change c
    rw [hr]
    exact (hs c.resourceId).change hchange rfl
  · rw [s.lockEntry_lockStep_ne c hr]
    refine (hs r).keep (hs r).toFair rfl ?_ ?_
    · exact congrArg LockState.currentOwnerPid (s.lockEntry_lockStep_ne c hr)
    · intro q ⟨hcall, _⟩
      have hc : c = .acquire r q := hcall
      rw [hc] at hr
      exact hr rfl

/-- What a call on the lock table does, after the history `past`. -/
structure FairEvent (past : List LockEvent) (e : LockEvent) : Prop where
  acquired : ∀ r p, e.call = .acquire r p → (e.answer = .ok () ↔ e.post.lockOwner r = some p)
  /-- A lock is taken from its owner only by the owner's release. -/
  passed : ∀ r o, e.pre.lockOwner r = some o → e.post.lockOwner r ≠ some o →
    e.call = .release r o ∧ e.answer = .ok ()
  /-- Then the one who waited longest has it. -/
  next : ∀ r o, e.call = .release r o → e.answer = .ok () →
    e.pre.lockOwner r = some o ∧ ∀ q, e.post.lockOwner r = some q ↔ LongestWaiting past r q
  /-- Whoever gets a free lock has called for it. -/
  taken : ∀ r p, e.pre.lockOwner r = none → e.post.lockOwner r = some p → e.call = .acquire r p
  refused : ∀ r p, e.call = .release r p → e.answer ≠ .ok () → e.post = e.pre
  frame : ∀ r, r ≠ e.call.resourceId → e.post.locks.lookup r = e.pre.locks.lookup r

theorem fairEvent_step {h : List LockEvent} {s : ControlPlaneManager} (hs : QueueInv h s)
    (c : LockCall) : FairEvent h (event lockStep s c) where
  acquired r p hcall := by
    obtain rfl : c = .acquire r p := hcall
    exact (s.acquireLock_change r p).acquired
  passed r o hpre hpost := by
    by_cases hr : r = c.resourceId
    · obtain ⟨pid, hchange⟩ := s.lockStep_change c
      rw [← hr] at hchange
      exact hchange.passed hpre hpost
    · -- another lock keeps its owner
      have hsame := congrArg LockState.currentOwnerPid (s.lockEntry_lockStep_ne c hr)
      exact absurd (hsame.trans hpre) hpost
  next r o hcall hok := by
    obtain rfl : c = .release r o := hcall
    have hans : (s.releaseLock r o).1 = .ok () := hok
    have hchange := s.releaseLock_change r o
    rw [hans] at hchange
    obtain ⟨hpre, hhead⟩ := hchange.released
    refine ⟨hpre, fun q => ?_⟩
    rw [← (hs r).head_iff q, ← hhead]
    rfl
  taken r p hpre hpost := by
    by_cases hr : r = c.resourceId
    · obtain ⟨pid, hchange⟩ := s.lockStep_change c
      rw [← hr] at hchange
      exact hchange.taken hpre hpost
    · have hsame := congrArg LockState.currentOwnerPid (s.lockEntry_lockStep_ne c hr)
      cases hpre.symm.trans (hsame.symm.trans hpost)
  refused r p hcall hans := by
    obtain rfl : c = .release r p := hcall
    exact s.releaseLock_of_error r p hans
  frame r hr := s.lookup_lockStep_ne c hr

/-- The lock table is a fair mutex for each resource: after every run of calls each lock is in a
fair state, and every call of the run is served in the order of the waiting. -/
theorem lockTable_fair (node : NodeId) (calls : List LockCall) :
    (∀ r, ((exec lockStep (.new node) calls).lockEntry r).Fair) ∧
      ∀ past e rest, trace lockStep (.new node) calls = past ++ e :: rest → FairEvent past e := by
  have hinit : QueueInv [] (.new node) := fun r => queued_nil r r
  have hrun := history_forall (P := QueueInv) (Q := FairEvent) hinit
    (fun h s c hs _ => ⟨hs.step c, fairEvent_step hs c⟩) calls (along_true _ _ _)
  exact ⟨fun r => (hrun.1 r).toFair, hrun.2⟩

end Virthub.Klnk
