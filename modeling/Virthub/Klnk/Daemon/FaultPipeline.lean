import Virthub.Klnk.Daemon.Tasks
import Virthub.Lib.TaskSum

/-! The batch processor over the userfaultfd queue, with the tasks that it spawns. The kernel queues
events, the processor takes them off in batches and spawns a task for each page fault, and the
tasks run beside it in any order. The counters of the handler and of the processor are compared
with what has happened. -/
namespace Virthub.Klnk.Daemon
open Virthub.Store Virthub.Lib Virthub.Klnk.Uffd

/-- A message on the userfaultfd descriptor. One that the reader does not recognise makes the read
fail. -/
inductive UffdEvent where
  | pagefault (addr : UInt64)
  | other
  | unrecognised
  deriving DecidableEq, Repr

/-- The source keeps each counter in a 64-bit word, so a number stands for it as long as fewer than `2 ^ 64`
faults have been counted. -/
structure FaultStats where
  totalFaults : ℕ := 0
  remoteFaults : ℕ := 0
  localFaults : ℕ := 0
  zeroPageFaults : ℕ := 0
  moveOperations : ℕ := 0
  failedFaults : ℕ := 0
  deriving DecidableEq, Repr

/-- What a step counts before its call: a move out of a popped slot is counted whatever comes of
it, one out of a prefetched slot only if it succeeds. -/
def FaultStats.leave (self : FaultStats) (pc : FaultPc) (ok : Bool) : FaultStats :=
  match pc with
  | .movePrefetched .. =>
    if ok then { self with moveOperations := self.moveOperations + 1 } else self
  | .moveSlot .. | .moveLocalSlot .. => { self with moveOperations := self.moveOperations + 1 }
  | _ => self

/-- What a step counts on its way to `pc`; the spawned task counts a failure. -/
def FaultStats.enter (self : FaultStats) (pc : FaultPc) : FaultStats :=
  match pc with
  | .markInFlight .. => { self with remoteFaults := self.remoteFaults + 1 }
  | .popLocalSlot _ => { self with localFaults := self.localFaults + 1 }
  | .zeropage _ => { self with zeroPageFaults := self.zeroPageFaults + 1 }
  | .finished (.error _) => { self with failedFaults := self.failedFaults + 1 }
  | _ => self

/-- What the next step of a task counts. -/
def FaultStats.count (self : FaultStats) (c : FetchContext) (t : Task) (ok : Bool) : FaultStats :=
  match t with
  | .fault (.finished _) => self
  | .fault pc => (self.leave pc ok).enter (faultStep c pc ok).1
  | .poller _ | .prefetch _ => self

/-- As in `FaultStats`, the counters are those of a run that has counted fewer than `2 ^ 64` faults. -/
structure BatchStats where
  totalBatches : ℕ := 0
  totalFaultsProcessed : ℕ := 0
  avgBatchSize : ℕ := 0
  lastBatchDurationMs : ℕ := 0
  deriving DecidableEq, Repr

def BatchStats.recordBatch (self : BatchStats) (faults durationMs : ℕ) : BatchStats where
  totalBatches := self.totalBatches + 1
  totalFaultsProcessed := self.totalFaultsProcessed + faults
  avgBatchSize := if self.avgBatchSize = 0 then faults else (self.avgBatchSize * 7 + faults) / 8
  lastBatchDurationMs := durationMs

structure FaultPipeline where
  /-- What the kernel has queued, oldest first. -/
  queue : List UffdEvent
  /-- The events of the running batch. -/
  processed : ℕ
  batchStats : BatchStats
  stats : FaultStats
  fetch : FetchState

/-- The daemon before its first fault, with its other tasks. -/
def FaultPipeline.start (c : FetchContext) (pollers : List PollerPc) (prefetches : List PrefetchPc) :
    FaultPipeline where
  queue := []
  processed := 0
  batchStats := {}
  stats := {}
  fetch := ⟨c, pollers.map .poller ++ prefetches.map .prefetch⟩

/-- What `poll` and `read_event` find. -/
inductive PollOutcome where
  | fails
  | nothing
  | readable
  deriving DecidableEq, Repr

inductive PollError where
  | readFailed
  deriving DecidableEq, Repr

/-- The event that is read, if any, and what the call returns. -/
structure Polled where
  event : Option UffdEvent
  result : Except PollError Bool

/-- Only a page fault is acted on: it is counted, and a task is spawned for it. -/
def FaultPipeline.handle (self : FaultPipeline) : UffdEvent → FaultPipeline
  | .pagefault addr =>
    { self with
      stats := { self.stats with totalFaults := self.stats.totalFaults + 1 }
      fetch := ⟨self.fetch.ctx, self.fetch.tasks ++ [.fault (.lookup addr)]⟩ }
  | .other | .unrecognised => self

def FaultPipeline.pollAndHandle (self : FaultPipeline) (outcome : PollOutcome) : Polled × FaultPipeline :=
  match outcome with
  | .fails => (⟨none, .error .readFailed⟩, self)
  | .nothing => (⟨none, .ok false⟩, self)
  | .readable =>
    match self.queue with
    | [] => (⟨none, .ok false⟩, self)
    | event :: rest =>
      let s := { self with queue := rest }
      if event = .unrecognised then (⟨some event, .error .readFailed⟩, s)
      else (⟨some event, .ok true⟩, s.handle event)

def FaultPipeline.endBatch (self : FaultPipeline) (elapsedMs : ℕ) : FaultPipeline :=
  { self with
    processed := 0
    batchStats := self.batchStats.recordBatch self.processed elapsedMs }

/-- One round of the loop of `process_batch`; a batch that has ended is followed by the next. -/
def FaultPipeline.processBatch (self : FaultPipeline) (maxBatchSize : ℕ) (outcome : PollOutcome)
    (elapsedMs : ℕ) : Polled × FaultPipeline :=
  if self.processed < maxBatchSize then
    match self.pollAndHandle outcome with
    | (⟨event, .ok true⟩, s) => (⟨event, .ok true⟩, { s with processed := s.processed + 1 })
    | (⟨event, .ok false⟩, s) => (⟨event, .ok false⟩, s.endBatch elapsedMs)
    -- an error ends the batch without recording it
    | (⟨event, .error e⟩, s) => (⟨event, .error e⟩, { s with processed := 0 })
  else (⟨none, .ok false⟩, self.endBatch elapsedMs)

inductive PipelineCall where
  /-- The kernel queues an event. -/
  | raise (event : UffdEvent)
  | poll (outcome : PollOutcome) (elapsedMs : ℕ)
  | run (turn : Turn)

inductive PipelineAnswer where
  | raised
  | polled (p : Polled)
  /-- A fault took a step. -/
  | stepped (pc pc' : FaultPc)
  | ran

def Task.answer (c : FetchContext) (t : Task) (ok : Bool) : PipelineAnswer :=
  match t with
  | .fault pc => .stepped pc (faultStep c pc ok).1
  | .poller _ | .prefetch _ => .ran

/-- One step of a task, with what it counts. -/
def FaultPipeline.runTask (self : FaultPipeline) (turn : Turn) : PipelineAnswer × FaultPipeline :=
  match self.fetch.tasks[turn.task]? with
  | none => (.ran, self)
  | some t =>
    (t.answer self.fetch.ctx turn.ok, { self with
      fetch := (turnStep self.fetch turn).2
      stats := self.stats.count self.fetch.ctx t turn.ok })

def FaultPipeline.step (maxBatchSize : ℕ) (self : FaultPipeline) :
    PipelineCall → PipelineAnswer × FaultPipeline
  | .raise event => (.raised, { self with queue := self.queue ++ [event] })
  | .poll outcome elapsedMs =>
    Prod.map .polled id (self.processBatch maxBatchSize outcome elapsedMs)
  | .run turn => self.runTask turn

theorem step_run_some (maxBatchSize : ℕ) {s : FaultPipeline} {turn : Turn} {t : Task}
    (ht : s.fetch.tasks[turn.task]? = some t) :
    s.step maxBatchSize (.run turn) = (t.answer s.fetch.ctx turn.ok, { s with
      fetch := ⟨(t.step s.fetch.ctx turn.ok).2,
        s.fetch.tasks.set turn.task (t.step s.fetch.ctx turn.ok).1⟩
      stats := s.stats.count s.fetch.ctx t turn.ok }) := by
  simp only [FaultPipeline.step, FaultPipeline.runTask, ht, turnStep_some ht]

theorem step_run_none (maxBatchSize : ℕ) {s : FaultPipeline} {turn : Turn}
    (ht : s.fetch.tasks[turn.task]? = none) : s.step maxBatchSize (.run turn) = (.ran, s) := by
  simp only [FaultPipeline.step, FaultPipeline.runTask, ht]

/-- What a round of the batch loop can do. -/
inductive BatchStep (maxBatchSize : ℕ) (s : FaultPipeline) : Polled → FaultPipeline → Prop
  | ended (elapsedMs : ℕ) : BatchStep maxBatchSize s ⟨none, .ok false⟩ (s.endBatch elapsedMs)
  | failed : BatchStep maxBatchSize s ⟨none, .error .readFailed⟩ { s with processed := 0 }
  | unreadable (rest : List UffdEvent) (hqueue : s.queue = .unrecognised :: rest) :
      BatchStep maxBatchSize s ⟨some .unrecognised, .error .readFailed⟩
        { s with queue := rest, processed := 0 }
  | handled (event : UffdEvent) (rest : List UffdEvent) (hqueue : s.queue = event :: rest)
      (hevent : event ≠ .unrecognised) (hroom : s.processed < maxBatchSize) :
      BatchStep maxBatchSize s ⟨some event, .ok true⟩
        { ({ s with queue := rest }).handle event with processed := s.processed + 1 }

theorem processed_handle (s : FaultPipeline) (event : UffdEvent) :
    (s.handle event).processed = s.processed := by
  cases event <;> rfl

theorem processBatch_batchStep (maxBatchSize : ℕ) (s : FaultPipeline) (outcome : PollOutcome)
    (elapsedMs : ℕ) :
    BatchStep maxBatchSize s (s.processBatch maxBatchSize outcome elapsedMs).1
      (s.processBatch maxBatchSize outcome elapsedMs).2 := by
  unfold FaultPipeline.processBatch
  split_ifs with hroom
  · cases outcome with
    | fails => exact .failed
    | nothing => exact .ended elapsedMs
    | readable =>
      cases hqueue : s.queue with
      | nil =>
        simp only [FaultPipeline.pollAndHandle, hqueue]
        exact .ended elapsedMs
      | cons event rest =>
        by_cases hevent : event = .unrecognised
        · subst hevent
          simp only [FaultPipeline.pollAndHandle, hqueue, if_pos]
          exact .unreadable rest hqueue
        · simp only [FaultPipeline.pollAndHandle, hqueue, if_neg hevent, processed_handle]
          exact .handled event rest hqueue hevent hroom
  · exact .ended elapsedMs

/-- The page that a fault is about to look up. -/
def Task.awaitsLookup : Task → Option UInt64
  | .fault (.lookup vaddr) => some vaddr
  | _ => none

def Task.isFault : Task → Bool
  | .fault _ => true
  | _ => false

def Task.unfinished : Task → Bool
  | .fault (.finished _) => false
  | .fault _ => true
  | _ => false

def Task.succeeded : Task → Bool
  | .fault (.finished (.ok _)) => true
  | _ => false

def Task.failed : Task → Bool
  | .fault (.finished (.error _)) => true
  | _ => false

/-- Where a lookup that finds the page leads. -/
def dispatched : FaultPc → Bool
  | .markInFlight .. | .popLocalSlot _ | .zeropage _ => true
  | _ => false

def UffdEvent.fault? : UffdEvent → Option UInt64
  | .pagefault addr => some addr
  | _ => none

def PipelineCall.raised : PipelineCall → Option UffdEvent
  | .raise event => some event
  | _ => none

def PipelineAnswer.taken : PipelineAnswer → Option UffdEvent
  | .polled p => p.event
  | _ => none

def PipelineAnswer.lookedUp : PipelineAnswer → Option UInt64
  | .stepped (.lookup vaddr) _ => some vaddr
  | _ => none

/-- A lookup that did not find the page. -/
def PipelineAnswer.foundNothing : PipelineAnswer → Bool
  | .stepped (.lookup _) (.finished _) => true
  | _ => false

theorem dispatchFault_target (c : FetchContext) (vaddr : UInt64) :
    dispatched (dispatchFault c vaddr) = true ∨
      ∃ e, dispatchFault c vaddr = .finished (.error e) :=
  dispatchFault_cases (P := fun pc => dispatched pc = true ∨ ∃ e, pc = .finished (.error e)) c vaddr
    (fun e => .inr ⟨e, rfl⟩) (fun _ => .inl rfl) (.inl rfl) (.inl rfl)

/-- A fault is at none of the states that its lookup leads out of or into. -/
def PastLookup (pc : FaultPc) : Prop := (Task.fault pc).awaitsLookup = none ∧ dispatched pc = false

theorem past_faultStep (c : FetchContext) (pc : FaultPc) (ok : Bool)
    (hpc : (Task.fault pc).awaitsLookup = none) : PastLookup (faultStep c pc ok).1 := by
  cases pc with
  | lookup vaddr => simp [Task.awaitsLookup] at hpc
  | takePrefetched vaddr owner =>
    simp only [faultStep]
    split
    · exact ⟨rfl, rfl⟩
    · exact ⟨rfl, rfl⟩
  | getRemoteNode vaddr owner =>
    simp only [faultStep]
    split
    · exact ⟨rfl, rfl⟩
    · exact ⟨rfl, rfl⟩
  | popSlot vaddr owner remote =>
    simp only [faultStep]
    split
    · exact ⟨rfl, rfl⟩
    · exact ⟨rfl, rfl⟩
  | popLocalSlot vaddr =>
    simp only [faultStep]
    split
    · exact ⟨rfl, rfl⟩
    · exact ⟨rfl, rfl⟩
  | movePrefetched | awaitRead | moveSlot | moveLocalSlot | zeropage =>
    cases ok with
    | false => exact ⟨rfl, rfl⟩
    | true => exact ⟨rfl, rfl⟩
  | _ => exact ⟨rfl, rfl⟩

theorem awaitsLookup_of_dispatched {pc : FaultPc} (h : dispatched pc = true) :
    (Task.fault pc).awaitsLookup = none := by
  cases pc with
  | lookup vaddr => simp [dispatched] at h
  | _ => rfl

theorem awaitsLookup_faultStep (c : FetchContext) (pc : FaultPc) (ok : Bool) :
    (Task.fault (faultStep c pc ok).1).awaitsLookup = none := by
  cases pc with
  | lookup vaddr =>
    rcases dispatchFault_target c vaddr with h | ⟨e, h⟩
    · exact awaitsLookup_of_dispatched h
    · rw [faultStep, h]
      rfl
  | _ => exact (past_faultStep c _ ok rfl).1

def FaultStats.classified (self : FaultStats) : ℕ :=
  self.remoteFaults + self.localFaults + self.zeroPageFaults

/-- What the counters make of one step of a fault. -/
theorem FaultStats.enter_spec (s : FaultStats) (pc : FaultPc) (ok : Bool) (pc' : FaultPc) :
    ((s.leave pc ok).enter pc').totalFaults = s.totalFaults ∧
      ((s.leave pc ok).enter pc').failedFaults = s.failedFaults + (Task.fault pc').failed.toNat ∧
      ((s.leave pc ok).enter pc').classified = s.classified + (dispatched pc').toNat := by
  have hleave : (s.leave pc ok).totalFaults = s.totalFaults ∧
      (s.leave pc ok).failedFaults = s.failedFaults ∧ (s.leave pc ok).classified = s.classified := by
    cases pc with
    | movePrefetched =>
      cases ok with
      | false => exact ⟨rfl, rfl, rfl⟩
      | true => exact ⟨rfl, rfl, rfl⟩
    | _ => exact ⟨rfl, rfl, rfl⟩
  obtain ⟨htotal, hfailed, hclass⟩ := hleave
  rw [← htotal, ← hfailed, ← hclass]
  generalize s.leave pc ok = t
  cases pc' with
  | finished result =>
    cases result with
    | ok => exact ⟨rfl, rfl, rfl⟩
    | error => exact ⟨rfl, rfl, rfl⟩
  | markInFlight | popLocalSlot | zeropage =>
    refine ⟨rfl, rfl, ?_⟩
    simp only [FaultStats.enter, FaultStats.classified, dispatched, Bool.toNat_true]
    omega
  | _ => exact ⟨rfl, rfl, rfl⟩

/-- A lookup either dispatches the fault or ends it. -/
theorem dispatched_faultStep (c : FetchContext) (pc : FaultPc) (ok : Bool) :
    (dispatched (faultStep c pc ok).1).toNat +
        (PipelineAnswer.stepped pc (faultStep c pc ok).1).foundNothing.toNat =
      (Task.fault pc).awaitsLookup.toList.length := by
  cases pc with
  | lookup vaddr =>
    rcases dispatchFault_target c vaddr with h | ⟨e, h⟩
    · simp only [faultStep, h]
      cases hd : dispatchFault c vaddr with
      | finished result => simp [hd, dispatched] at h
      | _ => rfl
    · simp only [faultStep, h]
      rfl
  | _ =>
    rw [(past_faultStep c _ ok rfl).2]
    rfl

/-- What a step of the task `t` does: what it looks up, what is counted, and how it ends. -/
structure TaskStep (c : FetchContext) (ok : Bool) (s : FaultStats) (t : Task) : Prop where
  isFault : (t.step c ok).1.isFault = t.isFault
  lookedUp : (t.answer c ok).lookedUp = t.awaitsLookup
  awaits : (t.step c ok).1.awaitsLookup = none
  total : (s.count c t ok).totalFaults = s.totalFaults
  failed : (s.count c t ok).failedFaults + t.failed.toNat =
    s.failedFaults + (t.step c ok).1.failed.toNat
  classified : (s.count c t ok).classified + (t.answer c ok).foundNothing.toNat =
    s.classified + t.awaitsLookup.toList.length

theorem taskStep_fault (c : FetchContext) (ok : Bool) (s : FaultStats) (pc : FaultPc)
    (hcount : s.count c (.fault pc) ok = (s.leave pc ok).enter (faultStep c pc ok).1)
    (hpc : (Task.fault pc).failed = false) : TaskStep c ok s (.fault pc) := by
  obtain ⟨htotal, hfailed, hclass⟩ := s.enter_spec pc ok (faultStep c pc ok).1
  rw [← hcount] at htotal hfailed hclass
  have hlooked := dispatched_faultStep c pc ok
  constructor
  case isFault => rfl
  case lookedUp => cases pc <;> rfl
  case awaits => exact awaitsLookup_faultStep c pc ok
  case total => exact htotal
  case failed =>
    rw [hpc, hfailed]
    rfl
  case classified =>
    rw [hclass, ← hlooked, add_assoc]
    rfl

theorem taskStep (c : FetchContext) (ok : Bool) (s : FaultStats) (t : Task) : TaskStep c ok s t := by
  cases t with
  | poller pc => exact ⟨rfl, rfl, rfl, rfl, rfl, rfl⟩
  | prefetch pc => exact ⟨rfl, rfl, rfl, rfl, rfl, rfl⟩
  | fault pc =>
    cases pc with
    | finished result => exact ⟨rfl, rfl, rfl, rfl, rfl, rfl⟩
    | _ => exact taskStep_fault c ok s _ rfl rfl

abbrev PipelineEvent := Event FaultPipeline PipelineCall PipelineAnswer

/-- Every event that the kernel has raised is queued or has been taken off, in order, and every
page fault that has been taken off waits for its lookup or has had it, once. -/
structure Delivered (h : List PipelineEvent) (s : FaultPipeline) : Prop where
  taken : (h.map Event.call).filterMap PipelineCall.raised =
    h.filterMap (·.answer.taken) ++ s.queue
  lookedUp : ((h.filterMap (·.answer.taken)).filterMap UffdEvent.fault?).Perm
    (h.filterMap (·.answer.lookedUp) ++ s.fetch.tasks.filterMap Task.awaitsLookup)

theorem Delivered.start (c : FetchContext) (pollers : List PollerPc) (prefetches : List PrefetchPc) :
    Delivered [] (.start c pollers prefetches) := by
  constructor
  case taken => rfl
  case lookedUp =>
    have hnone : (pollers.map Task.poller ++ prefetches.map Task.prefetch).filterMap
        Task.awaitsLookup = [] := by
      simp [List.filterMap_eq_nil_iff, Task.awaitsLookup]
    simp [FaultPipeline.start, hnone]

theorem awaitsLookup_handle (s : FaultPipeline) (event : UffdEvent) :
    (s.handle event).fetch.tasks.filterMap Task.awaitsLookup =
      s.fetch.tasks.filterMap Task.awaitsLookup ++ event.fault?.toList := by
  cases event with
  | pagefault addr => exact filterMap_append_singleton _ _ _
  | other => exact (List.append_nil _).symm
  | unrecognised => exact (List.append_nil _).symm

theorem queue_handle (s : FaultPipeline) (event : UffdEvent) : (s.handle event).queue = s.queue := by
  cases event <;> rfl

/-- What a round of the batch loop does to the queue and to the waiting faults. -/
theorem BatchStep.delivers {maxBatchSize : ℕ} {s s' : FaultPipeline} {p : Polled}
    (h : BatchStep maxBatchSize s p s') :
    s.queue = p.event.toList ++ s'.queue ∧
      s'.fetch.tasks.filterMap Task.awaitsLookup =
        s.fetch.tasks.filterMap Task.awaitsLookup ++ (p.event.bind UffdEvent.fault?).toList := by
  cases h with
  | ended ms => exact ⟨rfl, (List.append_nil _).symm⟩
  | failed => exact ⟨rfl, (List.append_nil _).symm⟩
  | unreadable rest hqueue => exact ⟨hqueue, (List.append_nil _).symm⟩
  | handled event rest hqueue hevent hroom =>
    constructor
    · simp only [queue_handle]
      exact hqueue
    · exact awaitsLookup_handle _ event

theorem filterMap_fault_toList (event : Option UffdEvent) :
    event.toList.filterMap UffdEvent.fault? = (event.bind UffdEvent.fault?).toList := by
  cases event with
  | none => rfl
  | some e => cases e <;> rfl

/-- One event more: what it raises or takes moves the queue, and what it takes or looks up moves
the waiting faults. -/
theorem Delivered.concat {h : List PipelineEvent} {s s' : FaultPipeline} (hd : Delivered h s)
    {e : PipelineEvent}
    (hqueue : s.queue ++ e.call.raised.toList = e.answer.taken.toList ++ s'.queue)
    (hwait : ((e.answer.taken.bind UffdEvent.fault?).toList ++
        s.fetch.tasks.filterMap Task.awaitsLookup).Perm
      (e.answer.lookedUp.toList ++ s'.fetch.tasks.filterMap Task.awaitsLookup)) :
    Delivered (h ++ [e]) s' := by
  constructor
  case taken =>
    rw [List.map_append, List.map_singleton, filterMap_append_singleton, filterMap_append_singleton, hd.taken,
      List.append_assoc, hqueue, List.append_assoc]
  case lookedUp =>
    rw [filterMap_append_singleton, filterMap_append_singleton, List.filterMap_append,
      filterMap_fault_toList, List.append_assoc]
    have hpast := hd.lookedUp.append_right (e.answer.taken.bind UffdEvent.fault?).toList
    rw [List.append_assoc] at hpast
    exact hpast.trans ((List.perm_append_comm.trans hwait).append_left _)

theorem Task.taken_answer (c : FetchContext) (t : Task) (ok : Bool) : (t.answer c ok).taken = none := by
  cases t <;> rfl

theorem Delivered.step {maxBatchSize : ℕ} {h : List PipelineEvent} {s : FaultPipeline}
    (hd : Delivered h s) (a : PipelineCall) :
    Delivered (h ++ [event (FaultPipeline.step maxBatchSize) s a]) (s.step maxBatchSize a).2 := by
  cases a with
  | raise e => exact hd.concat rfl .rfl
  | poll outcome ms =>
    obtain ⟨hqueue, hwait⟩ := (processBatch_batchStep maxBatchSize s outcome ms).delivers
    apply hd.concat
    · exact (List.append_nil _).trans hqueue
    · exact List.perm_append_comm.trans (.of_eq hwait.symm)
  | run turn =>
    cases ht : s.fetch.tasks[turn.task]? with
    | none =>
      rw [event_eq (step_run_none maxBatchSize ht), step_run_none maxBatchSize ht]
      exact hd.concat (List.append_nil _) .rfl
    | some t =>
      have hstep := taskStep s.fetch.ctx turn.ok s.stats t
      have hset := filterMap_set_perm Task.awaitsLookup (t.step s.fetch.ctx turn.ok).1 ht
      rw [hstep.awaits] at hset
      rw [event_eq (step_run_some maxBatchSize ht), step_run_some maxBatchSize ht]
      apply hd.concat
      · simp only [Task.taken_answer, PipelineCall.raised, Option.toList_none, List.append_nil,
          List.nil_append]
      · simp only [Task.taken_answer, hstep.lookedUp]
        exact hset.symm

/-- No fault is lost or handled twice. Whatever the kernel raises, whenever polls and reads
fail and however the tasks interleave, what has been raised is what has been taken off the
descriptor followed by what is queued; the page faults among what was taken are, each once, the
pages that have been looked up and those whose task has not run yet. -/
theorem faults_delivered_once (maxBatchSize : ℕ) (c : FetchContext) (pollers : List PollerPc)
    (prefetches : List PrefetchPc) (calls : List PipelineCall) :
    Delivered (trace (FaultPipeline.step maxBatchSize) (.start c pollers prefetches) calls)
      (exec (FaultPipeline.step maxBatchSize) (.start c pollers prefetches) calls) :=
  history_induction (C := fun _ _ _ => True) (Delivered.start c pollers prefetches)
    (fun _ _ a hd _ => hd.step a) calls (along_true _ _ _)

/-- The counters of the handler against the tasks and the history. -/
structure Counted (h : List PipelineEvent) (s : FaultPipeline) : Prop where
  total : s.stats.totalFaults = s.fetch.tasks.countP Task.isFault
  taken : s.stats.totalFaults = ((h.filterMap (·.answer.taken)).filterMap UffdEvent.fault?).length
  failed : s.stats.failedFaults = s.fetch.tasks.countP Task.failed
  classified : s.stats.classified + h.countP (·.answer.foundNothing) =
    (h.filterMap (·.answer.lookedUp)).length

theorem Counted.start (c : FetchContext) (pollers : List PollerPc) (prefetches : List PrefetchPc) :
    Counted [] (.start c pollers prefetches) := by
  have hother : ∀ p : Task → Bool, (∀ pc, p (.poller pc) = false) → (∀ pc, p (.prefetch pc) = false) →
      (pollers.map Task.poller ++ prefetches.map Task.prefetch).countP p = 0 := by
    intro p hpoller hprefetch
    simp [List.countP_eq_zero, hpoller, hprefetch]
  constructor
  case total => exact (hother _ (fun _ => rfl) fun _ => rfl).symm
  case taken => rfl
  case failed => exact (hother _ (fun _ => rfl) fun _ => rfl).symm
  case classified => rfl

/-- What a round of the batch loop counts and spawns. -/
theorem BatchStep.counts {maxBatchSize : ℕ} {s s' : FaultPipeline} {p : Polled}
    (h : BatchStep maxBatchSize s p s') :
    s'.stats.totalFaults = s.stats.totalFaults + (p.event.bind UffdEvent.fault?).toList.length ∧
      s'.stats.failedFaults = s.stats.failedFaults ∧ s'.stats.classified = s.stats.classified ∧
      s'.fetch.tasks.countP Task.isFault =
        s.fetch.tasks.countP Task.isFault + (p.event.bind UffdEvent.fault?).toList.length ∧
      s'.fetch.tasks.countP Task.failed = s.fetch.tasks.countP Task.failed := by
  cases h with
  | ended ms => exact ⟨rfl, rfl, rfl, rfl, rfl⟩
  | failed => exact ⟨rfl, rfl, rfl, rfl, rfl⟩
  | unreadable rest hqueue => exact ⟨rfl, rfl, rfl, rfl, rfl⟩
  | handled event rest hqueue hevent hroom =>
    cases event with
    | pagefault addr => exact ⟨rfl, rfl, rfl, List.countP_append, List.countP_append⟩
    | other => exact ⟨rfl, rfl, rfl, rfl, rfl⟩
    | unrecognised => exact ⟨rfl, rfl, rfl, rfl, rfl⟩

/-- One event more: the faults that it takes are counted and spawned, and what it counts besides
agrees with the tasks and with its answer. -/
theorem Counted.concat {h : List PipelineEvent} {s s' : FaultPipeline} (hc : Counted h s)
    {e : PipelineEvent}
    (htotal : s'.stats.totalFaults =
      s.stats.totalFaults + (e.answer.taken.bind UffdEvent.fault?).toList.length)
    (htasks : s'.fetch.tasks.countP Task.isFault = s.fetch.tasks.countP Task.isFault +
      (e.answer.taken.bind UffdEvent.fault?).toList.length)
    (hfailed : s'.stats.failedFaults + s.fetch.tasks.countP Task.failed =
      s.stats.failedFaults + s'.fetch.tasks.countP Task.failed)
    (hclass : s'.stats.classified + e.answer.foundNothing.toNat =
      s.stats.classified + e.answer.lookedUp.toList.length) : Counted (h ++ [e]) s' := by
  constructor
  case total => rw [htotal, htasks, hc.total]
  case taken =>
    rw [htotal, filterMap_append_singleton, List.filterMap_append, List.length_append,
      filterMap_fault_toList, hc.taken]
  case failed =>
    rw [hc.failed] at hfailed
    omega
  case classified =>
    have hcount : [e].countP (·.answer.foundNothing) = e.answer.foundNothing.toNat := by
      cases he : e.answer.foundNothing <;> simp [he]
    rw [List.countP_append, hcount, filterMap_append_singleton, List.length_append, ← hc.classified]
    omega

theorem Counted.step {maxBatchSize : ℕ} {h : List PipelineEvent} {s : FaultPipeline}
    (hc : Counted h s) (a : PipelineCall) :
    Counted (h ++ [event (FaultPipeline.step maxBatchSize) s a]) (s.step maxBatchSize a).2 := by
  cases a with
  | raise e => exact hc.concat rfl rfl rfl rfl
  | poll outcome ms =>
    obtain ⟨htotal, hfailed, hclass, hspawned, hended⟩ :=
      (processBatch_batchStep maxBatchSize s outcome ms).counts
    exact hc.concat htotal hspawned (congrArg₂ (· + ·) hfailed hended.symm) hclass
  | run turn =>
    cases ht : s.fetch.tasks[turn.task]? with
    | none =>
      rw [event_eq (step_run_none maxBatchSize ht), step_run_none maxBatchSize ht]
      exact hc.concat rfl rfl rfl rfl
    | some t =>
      have hstep := taskStep s.fetch.ctx turn.ok s.stats t
      have hfault := countP_set_add Task.isFault (t.step s.fetch.ctx turn.ok).1 ht
      have hfailed := countP_set_add Task.failed (t.step s.fetch.ctx turn.ok).1 ht
      have hcounted := hstep.failed
      rw [hstep.isFault] at hfault
      rw [event_eq (step_run_some maxBatchSize ht), step_run_some maxBatchSize ht]
      apply hc.concat
      case htotal =>
        simp only [Task.taken_answer]
        exact hstep.total
      case htasks =>
        simp only [Task.taken_answer]
        exact Nat.add_right_cancel hfault
      case hfailed =>
        dsimp only
        omega
      case hclass =>
        simp only [hstep.lookedUp]
        exact hstep.classified

theorem countP_isFault (tasks : List Task) : tasks.countP Task.isFault =
    tasks.countP Task.unfinished + tasks.countP Task.succeeded + tasks.countP Task.failed := by
  induction tasks with
  | nil => rfl
  | cons t ts ih =>
    have ht : (if t.isFault then 1 else 0) = (if t.unfinished then 1 else 0) +
        (if t.succeeded then 1 else 0) + if t.failed then 1 else 0 := by
      cases t with
      | fault pc =>
        cases pc with
        | finished result => cases result <;> rfl
        | _ => rfl
      | poller pc => rfl
      | prefetch pc => rfl
    simp only [List.countP_cons, ih, ht]
    omega

/-- The fault counters are exact. After any run the faults that were counted are those taken
off the descriptor, and each of them is unfinished, resolved, or counted as failed; each has been
counted as remote, local or zero-page once, unless its page is unknown or its lookup is still to
come. -/
theorem fault_counters_exact (maxBatchSize : ℕ) (c : FetchContext) (pollers : List PollerPc)
    (prefetches : List PrefetchPc) (calls : List PipelineCall) :
    let h := trace (FaultPipeline.step maxBatchSize) (.start c pollers prefetches) calls
    let s := exec (FaultPipeline.step maxBatchSize) (.start c pollers prefetches) calls
    s.stats.totalFaults = ((h.filterMap (·.answer.taken)).filterMap UffdEvent.fault?).length ∧
      s.stats.totalFaults = s.fetch.tasks.countP Task.unfinished +
        s.fetch.tasks.countP Task.succeeded + s.stats.failedFaults ∧
      s.stats.totalFaults = s.stats.remoteFaults + s.stats.localFaults + s.stats.zeroPageFaults +
        h.countP (·.answer.foundNothing) + (s.fetch.tasks.filterMap Task.awaitsLookup).length := by
  intro h s
  have hc : Counted h s := history_induction (C := fun _ _ _ => True)
    (Counted.start c pollers prefetches) (fun _ _ a hc _ => hc.step a) calls (along_true _ _ _)
  have hd : Delivered h s := history_induction (C := fun _ _ _ => True)
    (Delivered.start c pollers prefetches) (fun _ _ a hd _ => hd.step a) calls (along_true _ _ _)
  refine ⟨hc.taken, ?_, ?_⟩
  · rw [hc.total, hc.failed, countP_isFault]
  · have hlength := hd.lookedUp.length_eq
    rw [List.length_append, ← hc.taken, ← hc.classified] at hlength
    exact hlength

/-- The events of a batch that an error ends, which no batch counts. -/
def PipelineEvent.uncounted (e : PipelineEvent) : ℕ :=
  match e.answer with
  | .polled ⟨_, .error _⟩ => e.pre.processed
  | _ => 0

def UffdEvent.recognised : UffdEvent → Bool
  | .unrecognised => false
  | _ => true

/-- The counters of the batch processor against the history. -/
structure Batched (maxBatchSize : ℕ) (h : List PipelineEvent) (s : FaultPipeline) : Prop where
  processed : s.batchStats.totalFaultsProcessed + s.processed + (h.map PipelineEvent.uncounted).sum =
    (h.filterMap (·.answer.taken)).countP UffdEvent.recognised
  room : s.processed ≤ maxBatchSize
  average : s.batchStats.avgBatchSize ≤ maxBatchSize
  bound : s.batchStats.totalFaultsProcessed ≤ s.batchStats.totalBatches * maxBatchSize

theorem Batched.concat {maxBatchSize : ℕ} {h : List PipelineEvent} {s s' : FaultPipeline}
    (hb : Batched maxBatchSize h s) {e : PipelineEvent}
    (hprocessed : s'.batchStats.totalFaultsProcessed + s'.processed + e.uncounted =
      s.batchStats.totalFaultsProcessed + s.processed +
        e.answer.taken.toList.countP UffdEvent.recognised)
    (hroom : s'.processed ≤ maxBatchSize)
    (haverage : s'.batchStats.avgBatchSize ≤ maxBatchSize)
    (hbound : s'.batchStats.totalFaultsProcessed ≤ s'.batchStats.totalBatches * maxBatchSize) :
    Batched maxBatchSize (h ++ [e]) s' := by
  refine ⟨?_, hroom, haverage, hbound⟩
  rw [List.map_append, List.sum_append, List.map_singleton, List.sum_singleton,
    filterMap_append_singleton, List.countP_append, ← hb.processed]
  omega

theorem BatchStats.recordBatch_le {s : BatchStats} {maxBatchSize faults : ℕ} (elapsedMs : ℕ)
    (haverage : s.avgBatchSize ≤ maxBatchSize) (hfaults : faults ≤ maxBatchSize) :
    (s.recordBatch faults elapsedMs).avgBatchSize ≤ maxBatchSize := by
  simp only [BatchStats.recordBatch]
  split_ifs
  · exact hfaults
  · omega

theorem Batched.poll {maxBatchSize : ℕ} {h : List PipelineEvent} {s s' : FaultPipeline} {p : Polled}
    (hb : Batched maxBatchSize h s) (hp : BatchStep maxBatchSize s p s') (a : PipelineCall) :
    Batched maxBatchSize (h ++ [⟨s, a, .polled p, s'⟩]) s' := by
  cases hp with
  | ended ms =>
    apply hb.concat
    case hprocessed => rfl
    case hroom => exact Nat.zero_le _
    case haverage => exact BatchStats.recordBatch_le ms hb.average hb.room
    case hbound =>
      change s.batchStats.totalFaultsProcessed + s.processed ≤
        (s.batchStats.totalBatches + 1) * maxBatchSize
      rw [add_one_mul]
      exact Nat.add_le_add hb.bound hb.room
  | failed => exact hb.concat rfl (Nat.zero_le _) hb.average hb.bound
  | unreadable rest hqueue => exact hb.concat rfl (Nat.zero_le _) hb.average hb.bound
  | handled event rest hqueue hevent hroom =>
    have hstats : ((({ s with queue := rest } : FaultPipeline).handle event).batchStats) =
        s.batchStats := by
      cases event <;> rfl
    apply hb.concat
    case hprocessed =>
      cases event with
      | unrecognised => exact absurd rfl hevent
      | _ => rfl
    case hroom => exact hroom
    case haverage =>
      rw [hstats]
      exact hb.average
    case hbound =>
      rw [hstats]
      exact hb.bound

theorem Batched.step {maxBatchSize : ℕ} {h : List PipelineEvent} {s : FaultPipeline}
    (hb : Batched maxBatchSize h s) (a : PipelineCall) :
    Batched maxBatchSize (h ++ [event (FaultPipeline.step maxBatchSize) s a])
      (s.step maxBatchSize a).2 := by
  cases a with
  | raise e => exact hb.concat rfl hb.room hb.average hb.bound
  | poll outcome ms =>
    exact hb.poll (processBatch_batchStep maxBatchSize s outcome ms) (.poll outcome ms)
  | run turn =>
    cases ht : s.fetch.tasks[turn.task]? with
    | none =>
      rw [event_eq (step_run_none maxBatchSize ht), step_run_none maxBatchSize ht]
      exact hb.concat rfl hb.room hb.average hb.bound
    | some t =>
      rw [event_eq (step_run_some maxBatchSize ht), step_run_some maxBatchSize ht]
      refine hb.concat ?_ hb.room hb.average hb.bound
      cases t <;> rfl

/-- What the batches count. After any run the events that the batches have counted, those of
the running batch and those of the batches that an error ended are the events taken off the
descriptor and recognised. No batch exceeds its limit, and neither does the moving average. -/
theorem batch_counters_exact (maxBatchSize : ℕ) (c : FetchContext) (pollers : List PollerPc)
    (prefetches : List PrefetchPc) (calls : List PipelineCall) :
    Batched maxBatchSize
      (trace (FaultPipeline.step maxBatchSize) (.start c pollers prefetches) calls)
      (exec (FaultPipeline.step maxBatchSize) (.start c pollers prefetches) calls) :=
  history_induction (C := fun _ _ _ => True)
    (⟨rfl, Nat.zero_le _, Nat.zero_le _, Nat.zero_le _⟩ :
      Batched maxBatchSize [] (.start c pollers prefetches))
    (fun _ _ a hb _ => hb.step a) calls (along_true _ _ _)

end Virthub.Klnk.Daemon
