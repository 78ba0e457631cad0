import Virthub.Lib.Ledger
import Virthub.Lib.TaskSum

/-! The refill manager of a receive queue, shared by threads. A post adds to the depth in one atomic step. A
completion loads the depth and stores what it computes from it, so that it may overwrite what other calls
did in between. -/
namespace Virthub.Klnk.Rma
open Virthub.Lib

inductive RqRefillError where
  | invalidConfig (capacity watermark : UInt64)
  deriving DecidableEq, Repr

structure ReceiveBufferSlot where
  slotId : UInt64
  bufVaddr : UInt64
  bufLen : UInt64
  lkey : UInt32
  deriving DecidableEq, Repr

structure RqConfig where
  capacity : UInt64
  lowWatermark : UInt64
  batchSize : UInt64
  deriving DecidableEq, Repr

def RqConfig.default : RqConfig := ⟨512, 128, 64⟩

structure RqRefillManager where
  config : RqConfig
  outstandingDepth : UInt64
  deriving DecidableEq, Repr

namespace RqRefillManager

def new (config : RqConfig) : Except RqRefillError RqRefillManager :=
  if config.lowWatermark ≥ config.capacity ∨ config.capacity = 0 then
    .error (.invalidConfig config.capacity config.lowWatermark)
  else .ok ⟨config, 0⟩

/-- The number of requests that a post of the buffers adds. -/
def batchLen (self : RqRefillManager) (buffers : List ReceiveBufferSlot) : ℕ :=
  min buffers.length self.config.batchSize.toNat

/-- The addition is atomic and wraps. -/
def postRefillBatch (self : RqRefillManager) (buffers : List ReceiveBufferSlot) :
    Except RqRefillError UInt64 × RqRefillManager :=
  if buffers.isEmpty then (.ok 0, self)
  else
    let batchLen := UInt64.ofNat (self.batchLen buffers)
    (.ok batchLen, { self with outstandingDepth := self.outstandingDepth + batchLen })

/-- The second half of `on_work_completion`, after it has loaded `current`. -/
def storeCompletion (self : RqRefillManager) (current count : UInt64) : RqRefillManager :=
  { self with outstandingDepth := if count ≤ current then current - count else 0 }

def onWorkCompletion (self : RqRefillManager) (count : UInt64) : RqRefillManager :=
  self.storeCompletion self.outstandingDepth count

def currentDepth (self : RqRefillManager) : UInt64 := self.outstandingDepth

theorem new_eq_ok {config : RqConfig} {manager : RqRefillManager} (h : new config = .ok manager) :
    manager = ⟨config, 0⟩ := by
  unfold new at h
  split_ifs at h with hinvalid
  exact (Except.ok.inj h).symm

/-- What a post adds, over the naturals. -/
theorem postRefillBatch_eq (self : RqRefillManager) (buffers : List ReceiveBufferSlot) :
    self.postRefillBatch buffers = (.ok (UInt64.ofNat (self.batchLen buffers)),
      { self with outstandingDepth := self.outstandingDepth + UInt64.ofNat (self.batchLen buffers) }) := by
  unfold postRefillBatch batchLen
  cases buffers with
  | nil => simp
  | cons b bs => rfl

theorem toNat_batchLen (self : RqRefillManager) (buffers : List ReceiveBufferSlot) :
    (UInt64.ofNat (self.batchLen buffers)).toNat = self.batchLen buffers := by
  have hle : self.batchLen buffers ≤ self.config.batchSize.toNat := Nat.min_le_right _ _
  have hlt := self.config.batchSize.toNat_lt
  rw [UInt64.toNat_ofNat', Nat.mod_eq_of_lt (by omega)]

theorem toNat_storeCompletion (self : RqRefillManager) (current count : UInt64) :
    (self.storeCompletion current count).outstandingDepth.toNat = current.toNat - count.toNat := by
  dsimp only [storeCompletion]
  split_ifs with hle
  · exact UInt64.toNat_sub_of_le _ _ hle
  · rw [UInt64.le_iff_toNat_le] at hle
    exact (Nat.sub_eq_zero_of_le (by omega)).symm

end RqRefillManager

/-- A call of `on_work_completion` between its load and its store. -/
structure Completion where
  count : UInt64
  current : UInt64
  deriving DecidableEq, Repr

/-- The manager and the completions in progress. -/
structure SharedQueue where
  manager : RqRefillManager
  inProgress : List Completion
  deriving DecidableEq, Repr

/-- One atomic step of some caller. -/
inductive QueueStep where
  | post (buffers : List ReceiveBufferSlot)
  | load (count : UInt64)
  | store (call : ℕ)

/-- `waiting` is the answer to a step that does not end a call. -/
inductive QueueAnswer where
  | posted (result : Except RqRefillError UInt64)
  | completed (count : UInt64)
  | waiting
  deriving DecidableEq

def queueStep (self : SharedQueue) : QueueStep → QueueAnswer × SharedQueue
  | .post buffers =>
    let result := self.manager.postRefillBatch buffers
    (.posted result.1, { self with manager := result.2 })
  | .load count =>
    (.waiting, { self with inProgress := self.inProgress ++ [⟨count, self.manager.outstandingDepth⟩] })
  | .store call =>
    match self.inProgress[call]? with
    | none => (.waiting, self)
    | some c =>
      (.completed c.count, ⟨self.manager.storeCompletion c.current c.count, self.inProgress.eraseIdx call⟩)

theorem queueStep_store_of_none {self : SharedQueue} {call : ℕ} (h : self.inProgress[call]? = none) :
    queueStep self (.store call) = (.waiting, self) := by
  simp only [queueStep, h]

theorem queueStep_store_of_some {self : SharedQueue} {call : ℕ} {c : Completion}
    (h : self.inProgress[call]? = some c) :
    queueStep self (.store call) =
      (.completed c.count, ⟨self.manager.storeCompletion c.current c.count,
        self.inProgress.eraseIdx call⟩) := by
  simp only [queueStep, h]

/-- A load and a store that follow each other are one call. -/
theorem load_store_eq (manager : RqRefillManager) (count : UInt64) :
    exec queueStep ⟨manager, []⟩ [.load count, .store 0] = ⟨manager.onWorkCompletion count, []⟩ := rfl

abbrev QueueEvent := Event SharedQueue QueueStep QueueAnswer

/-- The requests that the event has posted. -/
def posted (e : QueueEvent) : ℤ :=
  match e.answer with
  | .posted (.ok n) => n.toNat
  | _ => 0

/-- The requests that the event has completed. -/
def completed (e : QueueEvent) : ℤ :=
  match e.answer with
  | .completed count => count.toNat
  | _ => 0

/-- What the event loses: a sum that wraps loses the whole range, and a store the difference between the
depth it finds and the one it was computed from. -/
def lostDepth (e : QueueEvent) : ℤ :=
  match e.call with
  | .post buffers =>
    if e.pre.manager.outstandingDepth.toNat + e.pre.manager.batchLen buffers < 2 ^ 64 then 0 else 2 ^ 64
  | .load _ => 0
  | .store call =>
    match e.pre.inProgress[call]? with
    | none => 0
    | some c => e.pre.manager.outstandingDepth.toNat - max (c.current.toNat : ℤ) c.count.toNat

/-- No call is in progress. -/
def SharedQueue.Quiet (self : SharedQueue) : Prop := self.inProgress = []

/-- Whenever no call is in progress, the depth is the number of posted requests less that of the completed
ones. -/
def DepthExact (queue : SharedQueue) (calls : List QueueStep) : Prop :=
  ∀ as, as <+: calls → (exec queueStep queue as).Quiet →
    ((exec queueStep queue as).manager.currentDepth.toNat : ℤ) =
      total posted (trace queueStep queue as) - total completed (trace queueStep queue as)

theorem books_queueStep :
    Books queueStep (fun queue => (queue.manager.outstandingDepth.toNat : ℤ))
      (fun e => posted e - completed e)
      lostDepth := by
  intro queue step
  cases step with
  | post buffers =>
    have hlen := queue.manager.toNat_batchLen buffers
    have hdepth := queue.manager.outstandingDepth.toNat_lt
    have hbatch := (UInt64.ofNat (queue.manager.batchLen buffers)).toNat_lt
    simp only [queueStep, event, posted, completed, lostDepth, queue.manager.postRefillBatch_eq,
      UInt64.toNat_add, hlen]
    split_ifs with hfits
    · omega
    · omega
  | load count => simp [queueStep, event, posted, completed, lostDepth]
  | store call =>
    cases hcall : queue.inProgress[call]? with
    | none => simp [event, posted, completed, lostDepth, hcall, queueStep_store_of_none hcall]
    | some c =>
      simp only [event, posted, completed, lostDepth, hcall, queueStep_store_of_some hcall,
        RqRefillManager.toNat_storeCompletion]
      omega

/-- Completions are only reported for requests that have been posted. -/
def CompletesPosted (h : List QueueEvent) (queue : SharedQueue) : QueueStep → Prop
  | .load count =>
    total completed h + (queue.inProgress.map fun c => c.count.toNat).sum + count.toNat ≤ total posted h
  | _ => True

def exampleSlot : ReceiveBufferSlot := ⟨0, 0x1000, 4096, 0x1234⟩

/-- A post between the load and the store of a completion is lost. -/
def lostPost : List QueueStep :=
  [.post [exampleSlot, exampleSlot], .load 1, .post [exampleSlot], .store 0]

/-- Three requests are posted and one is completed, and the depth is one. -/
theorem lostPost_not_exact :
    RqRefillManager.new .default = .ok ⟨.default, 0⟩ ∧
      Along CompletesPosted queueStep ⟨⟨.default, 0⟩, []⟩ lostPost ∧
      (exec queueStep ⟨⟨.default, 0⟩, []⟩ lostPost).Quiet ∧
      (exec queueStep ⟨⟨.default, 0⟩, []⟩ lostPost).manager.currentDepth = 1 ∧
      ¬ DepthExact ⟨⟨.default, 0⟩, []⟩ lostPost := by
  refine ⟨rfl, ?_, rfl, rfl, ?_⟩
  · simp only [lostPost, along_cons, along_nil, and_true]
    refine ⟨trivial, ?_, trivial, trivial⟩
    dsimp only [CompletesPosted]
    decide
  · intro hexact
    have hlast := hexact lostPost List.prefix_rfl rfl
    revert hlast
    decide

/-- Every post fits, and every store finds the depth that its call has loaded. -/
def Undisturbed (_ : List QueueEvent) (queue : SharedQueue) : QueueStep → Prop
  | .post buffers => queue.manager.outstandingDepth.toNat + queue.manager.batchLen buffers < 2 ^ 64
  | .load _ => True
  | .store call => ∀ c, queue.inProgress[call]? = some c → c.current = queue.manager.outstandingDepth

/-- The depth counts the requests that are posted and not completed, and the calls in progress complete some
of them. -/
structure Accounted (h : List QueueEvent) (queue : SharedQueue) : Prop where
  depth : (queue.manager.outstandingDepth.toNat : ℤ) = total posted h - total completed h
  pending : (queue.inProgress.map fun c => c.count.toNat).sum ≤ queue.manager.outstandingDepth.toNat

namespace Accounted

variable {h : List QueueEvent} {queue : SharedQueue} {a : QueueStep}

theorem lostDepth_eq_zero (hacc : Accounted h queue) (hu : Undisturbed h queue a) :
    lostDepth (event queueStep queue a) = 0 := by
  cases a with
  | post buffers => exact if_pos hu
  | load count => rfl
  | store call =>
    cases hcall : queue.inProgress[call]? with
    | none => simp only [event, lostDepth, hcall]
    | some c =>
      have hcurrent := hu c hcall
      have hcount := le_sum_map (fun c : Completion => c.count.toNat) hcall
      have hpending := hacc.pending
      simp only [event, lostDepth, hcall, hcurrent]
      omega

theorem pending_step (hacc : Accounted h queue) (hp : CompletesPosted h queue a)
    (hu : Undisturbed h queue a) :
    ((queueStep queue a).2.inProgress.map fun c => c.count.toNat).sum ≤
      (queueStep queue a).2.manager.outstandingDepth.toNat := by
  have hpending := hacc.pending
  cases a with
  | post buffers =>
    have hfits : queue.manager.outstandingDepth.toNat + queue.manager.batchLen buffers < 2 ^ 64 := hu
    simp only [queueStep, queue.manager.postRefillBatch_eq, UInt64.toNat_add, queue.manager.toNat_batchLen]
    omega
  | load count =>
    have hdepth := hacc.depth
    dsimp only [CompletesPosted] at hp
    simp only [queueStep, List.map_append, List.sum_append, List.map_singleton, List.sum_singleton]
    omega
  | store call =>
    cases hcall : queue.inProgress[call]? with
    | none => simpa only [queueStep_store_of_none hcall] using hpending
    | some c =>
      have hcurrent := hu c hcall
      have herase := sum_map_eraseIdx_add (fun c : Completion => c.count.toNat) hcall
      simp only [queueStep_store_of_some hcall, RqRefillManager.toNat_storeCompletion, hcurrent]
      omega

theorem step (hacc : Accounted h queue) (hp : CompletesPosted h queue a) (hu : Undisturbed h queue a) :
    Accounted (h ++ [event queueStep queue a]) (queueStep queue a).2 := by
  refine ⟨?_, hacc.pending_step hp hu⟩
  have hbook := books_queueStep queue a
  have hdepth := hacc.depth
  rw [hacc.lostDepth_eq_zero hu] at hbook
  dsimp only at hbook
  rw [total_concat, total_concat]
  omega

end Accounted

/-- For every configuration and every interleaving of posts and completions of posted requests: if no other
call changes the depth between a load and its store, and no post wraps it, the depth is exact whenever no
call is in progress. -/
theorem depthExact_of_undisturbed {config : RqConfig} {manager : RqRefillManager}
    (hnew : RqRefillManager.new config = .ok manager) {calls : List QueueStep}
    (hposted : Along CompletesPosted queueStep ⟨manager, []⟩ calls)
    (hundisturbed : Along Undisturbed queueStep ⟨manager, []⟩ calls) : DepthExact ⟨manager, []⟩ calls := by
  obtain rfl := RqRefillManager.new_eq_ok hnew
  intro as has _
  have hcalls : Along (fun h queue a => CompletesPosted h queue a ∧ Undisturbed h queue a) queueStep
      ⟨⟨config, 0⟩, []⟩ as := by
    intro bs b cs hb
    exact ⟨hposted.of_prefix has bs b cs hb, hundisturbed.of_prefix has bs b cs hb⟩
  have hrun := history_induction (P := Accounted) ⟨by simp, by simp⟩ ?_ as hcalls
  · exact hrun.depth
  · intro h queue a hacc hC
    exact hacc.step hC.1 hC.2

/-- Two completions overlap. The first one stores, and a post makes up for it before the second one stores. -/
def overlapping : List QueueStep :=
  [.post [exampleSlot, exampleSlot, exampleSlot], .load 1, .load 1, .store 0, .post [exampleSlot], .store 0]

theorem depthExact_overlapping :
    (RqRefillManager.new .default = .ok ⟨.default, 0⟩ ∧
      Along CompletesPosted queueStep ⟨⟨.default, 0⟩, []⟩ overlapping ∧
      Along Undisturbed queueStep ⟨⟨.default, 0⟩, []⟩ overlapping) ∧
      (exec queueStep ⟨⟨.default, 0⟩, []⟩ overlapping).Quiet ∧
      DepthExact ⟨⟨.default, 0⟩, []⟩ overlapping := by
  have hnew : RqRefillManager.new .default = .ok ⟨.default, 0⟩ := rfl
  have hposted : Along CompletesPosted queueStep ⟨⟨.default, 0⟩, []⟩ overlapping := by
    simp only [overlapping, along_cons, along_nil, and_true]
    refine ⟨trivial, ?_, ?_, trivial, trivial, trivial⟩
    · dsimp only [CompletesPosted]
      decide
    · dsimp only [CompletesPosted]
      decide
  have hundisturbed : Along Undisturbed queueStep ⟨⟨.default, 0⟩, []⟩ overlapping := by
    simp only [overlapping, along_cons, along_nil, and_true, true_and, Undisturbed]
    refine ⟨by decide, ?_, by decide, ?_⟩
    · rintro c ⟨rfl⟩
      rfl
    · rintro c ⟨rfl⟩
      rfl
  exact ⟨⟨hnew, hposted, hundisturbed⟩, rfl, depthExact_of_undisturbed hnew hposted hundisturbed⟩

end Virthub.Klnk.Rma
