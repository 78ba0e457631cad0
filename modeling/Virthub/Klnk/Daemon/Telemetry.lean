import Virthub.Klnk.Ebpf.StrideDetector
import Virthub.Lib.TaskSum

/-! The telemetry pipeline of the daemon: access events go through a channel to the stride detector,
its recommendations go through a second one to the prefetch engine, and the engine spawns a read for
each page. All stages run beside each other and beside the rest of the daemon. -/
namespace Virthub.Klnk.Daemon
open Virthub.Store Virthub.Lib Virthub.Klnk.Uffd Virthub.Klnk.Ebpf

structure Telemetry where
  /-- The room of the event channel. -/
  capacity : ℕ
  events : List AccessEvent
  detector : StrideDetector
  recommendations : List PrefetchRecommendation
  engine : PrefetchEngine

/-- The pipeline as the daemon starts it, with the map of prefetched pages given to the handler. -/
def Telemetry.new (capacity : ℕ) (detector : StrideDetector) (config : PrefetchConfig)
    (controlPlane : ControlPlaneManager) (stagingPool : StagingMemoryPool) : Telemetry :=
  ⟨capacity, [], detector, [], .new config ⟨controlPlane, stagingPool, ∅, true⟩⟩

inductive TelemetryCall where
  | submitEvent (event : AccessEvent)
  /-- The loop that owns the receiver takes the next event. -/
  | analyzeEvent (now created : ℕ)
  /-- The engine takes the next recommendation. -/
  | receive
  | handle (task : ℕ)
  | page (task : ℕ) (ok : Bool)
  | takePrefetchedSlot (vaddr : UInt64)
  /-- What the other tasks of the daemon do to the page table and to the slots. -/
  | others (controlPlane : ControlPlaneManager) (stagingPool : StagingMemoryPool)

/-- An event that has been analyzed, and what came of it. -/
structure Analysis where
  event : AccessEvent
  recommendation : Option PrefetchRecommendation

def Telemetry.step (self : Telemetry) : TelemetryCall → Option Analysis × Telemetry
  -- a sender waits while the channel is full
  | .submitEvent event =>
    (none, if self.events.length < self.capacity then { self with events := self.events ++ [event] }
      else self)
  | .analyzeEvent now created =>
    match self.events with
    | [] => (none, self)
    | event :: events =>
      let (recommendation, detector) := self.detector.processEvent event now created
      (some ⟨event, recommendation⟩, { self with
        events, detector
        recommendations := self.recommendations ++ recommendation.toList })
  | .receive =>
    match self.recommendations with
    | [] => (none, self)
    | recommendation :: recommendations =>
      if self.engine.config.enabled then
        (none, { self with
          recommendations
          engine := (self.engine.step (.recommend recommendation)).2 })
      else (none, self)
  | .handle task => (none, { self with engine := (self.engine.step (.handle task)).2 })
  | .page task ok => (none, { self with engine := (self.engine.step (.page task ok)).2 })
  | .takePrefetchedSlot vaddr =>
    (none, { self with engine := (self.engine.step (.takePrefetchedSlot vaddr)).2 })
  | .others controlPlane stagingPool =>
    (none, { self with
      engine := { self.engine with ctx := { self.engine.ctx with controlPlane, stagingPool } } })

abbrev TelemetryEvent := Event Telemetry TelemetryCall (Option Analysis)

/-- The addresses of a process, in the order in which they have been analyzed. -/
def analyzedAddresses (pid : UInt32) (h : List TelemetryEvent) : List UInt64 :=
  (h.filterMap (·.answer)).filterMap fun a => if a.event.pid = pid then some a.event.vaddr else none

/-- A process that has gone through `addresses` to `last` by the same stride at least
`minConfidence` times reaches `vaddr` within the next `limit` strides. -/
def Predicts (minConfidence limit : ℕ) (addresses : List UInt64) (last vaddr : UInt64) : Prop :=
  ∃ stride : Int64, stride ≠ 0 ∧
    max 1 minConfidence ≤ streak stride (nonzeroStrides (addresses ++ [last])) ∧
    ∃ i < limit, vaddr = (last.toInt64 + Int64.ofNat (i + 1) * stride).toUInt64

/-- An event of the history predicts the page. -/
def Predicted (minConfidence limit : ℕ) (h : List TelemetryEvent) (vaddr : UInt64) : Prop :=
  ∃ past e rest a, h = past ++ e :: rest ∧ e.answer = some a ∧
    Predicts minConfidence limit (analyzedAddresses a.event.pid past) a.event.vaddr vaddr

/-- The entry of a process against its addresses. Pauses only lower the confidence. -/
inductive Follows : List UInt64 → Option StrideState → Prop where
  | untracked : Follows [] none
  | tracked (addresses : List UInt64) (last : UInt64) (entry : StrideState)
    (hv : entry.lastVaddr = last)
    (hs : entry.lastStride = (nonzeroStrides (addresses ++ [last])).getLast?.getD 0)
    (hc : entry.confidence ≤ streak entry.lastStride (nonzeroStrides (addresses ++ [last]))) :
    Follows (addresses ++ [last]) (some entry)

/-- The pages of a recommendation are the addresses that the process is about to reach. -/
theorem pageVaddr_next (pid : UInt32) (vaddr : UInt64) (stride : Int64) (count i : ℕ) :
    (PrefetchRecommendation.mk pid (vaddr.toInt64 + stride).toUInt64 stride count).pageVaddr i =
      (vaddr.toInt64 + Int64.ofNat (i + 1) * stride).toUInt64 := by
  simp only [PrefetchRecommendation.pageVaddr, Int64.toInt64_toUInt64, Int64.ofNat_add]
  congr 1
  grind

/-- What an analyzed event yields, given the earlier addresses of its process. -/
structure Observed (detector : StrideDetector) (addresses : List UInt64) (event : AccessEvent)
    (result : Option PrefetchRecommendation × StrideState) : Prop where
  follows : Follows (addresses ++ [event.vaddr]) (some result.2)
  predicts : ∀ r, result.1 = some r → ∀ limit, ∀ i < min r.count limit,
    Predicts detector.minConfidence (min detector.maxPrefetchCount limit) addresses event.vaddr
      (r.pageVaddr i)

theorem observed_first (detector : StrideDetector) (event : AccessEvent) (now created : ℕ) :
    Observed detector [] event (detector.observe event now (.new event.vaddr created)) := by
  have h0 : event.vaddr.toInt64 - event.vaddr.toInt64 = 0 := Int64.sub_self _
  simp only [StrideDetector.observe, StrideState.new, h0, if_true]
  constructor
  case follows =>
    refine .tracked [] event.vaddr _ rfl rfl ?_
    simp
  case predicts =>
    intro r hr
    cases hr

theorem observed_next (detector : StrideDetector) (event : AccessEvent) (now : ℕ)
    {addresses : List UInt64} {last : UInt64} {entry : StrideState} (hv : entry.lastVaddr = last)
    (hs : entry.lastStride = (nonzeroStrides (addresses ++ [last])).getLast?.getD 0)
    (hc : entry.confidence ≤ streak entry.lastStride (nonzeroStrides (addresses ++ [last]))) :
    Observed detector (addresses ++ [last]) event (detector.observe event now entry) := by
  have happ : addresses ++ [last] ++ [event.vaddr] = addresses ++ [last, event.vaddr] := by simp
  unfold StrideDetector.observe
  rw [hv]
  -- a pause can only have lowered the confidence
  set c := if now - entry.lastAccessTime > detector.decayInterval then entry.confidence - 1
    else entry.confidence with hcdef
  have hle : c ≤ streak entry.lastStride (nonzeroStrides (addresses ++ [last])) := by
    rw [hcdef]
    split_ifs
    · omega
    · exact hc
  by_cases h0 : event.vaddr.toInt64 - last.toInt64 = 0
  · rw [if_pos h0]
    constructor
    case follows =>
      refine .tracked _ _ _ (sub_toInt64_eq_zero.mp h0).symm ?_ ?_
      · rw [happ, nonzeroStrides_concat_zero _ h0]
        exact hs
      · rw [happ, nonzeroStrides_concat_zero _ h0]
        exact hle
    case predicts =>
      intro r hr
      cases hr
  · rw [if_neg h0]
    set stride := event.vaddr.toInt64 - last.toInt64 with hstride
    set confidence := if stride = entry.lastStride then c + 1 else 1 with hconfidence
    have hconf : confidence ≤ streak stride (nonzeroStrides (addresses ++ [last, event.vaddr])) := by
      rw [nonzeroStrides_concat _ h0, ← hstride, streak_concat, hconfidence]
      split_ifs with heq
      · rw [heq]
        exact Nat.succ_le_succ hle
      · omega
    have hone : 1 ≤ confidence := by
      rw [hconfidence]
      split_ifs
      · omega
      · exact le_rfl
    constructor
    case follows =>
      refine .tracked _ _ _ rfl ?_ ?_
      · rw [happ, nonzeroStrides_concat _ h0, List.getLast?_concat]
        rfl
      · rw [happ]
        exact hconf
    case predicts =>
      intro r hr limit i hi
      dsimp only at hr
      split_ifs at hr with hmin
      obtain rfl := Option.some.inj hr
      dsimp only at hi
      refine ⟨stride, h0, ?_, i, by omega, pageVaddr_next _ _ _ _ _⟩
      rw [happ]
      exact (max_le hone hmin).trans hconf

theorem observed (detector : StrideDetector) (event : AccessEvent) (now created : ℕ)
    {addresses : List UInt64} {o : Option StrideState} (h : Follows addresses o) :
    Observed detector addresses event
      (detector.observe event now (o.getD (.new event.vaddr created))) := by
  cases h with
  | untracked => exact observed_first detector event now created
  | tracked addresses last entry hv hs hc => exact observed_next detector event now hv hs hc

/-- The index and the address that a recommendation is about to look at. -/
def HandlePc.target : HandlePc → Option (ℕ × UInt64)
  | .lookupPageState i vaddr | .getRemoteNode i vaddr _ | .acquireOwned i vaddr _ _ _ => some (i, vaddr)
  | _ => none

/-- The page that a task fetches. -/
def PrefetchPc.page : PrefetchPc → Option UInt64
  | .popSlot vaddr _ _ _ | .rdmaRead vaddr _ _ | .awaitRead vaddr _ | .insert vaddr _ => some vaddr
  | _ => none

/-- The recommendation is at one of its own pages. -/
def OnPage (config : PrefetchConfig) (r : PrefetchRecommendation) (pc : HandlePc) : Prop :=
  ∀ i vaddr, pc.target = some (i, vaddr) →
    vaddr = r.pageVaddr i ∧ i < min r.count config.maxPrefetchCount

/-- A task that is spawned is for a page of the recommendation. -/
def SpawnsPage (config : PrefetchConfig) (r : PrefetchRecommendation) (spawned : Option PrefetchPc) :
    Prop :=
  ∀ p vaddr, spawned = some p → p.page = some vaddr →
    ∃ i < min r.count config.maxPrefetchCount, vaddr = r.pageVaddr i

theorem onPage_handleRecommendation {s : PrefetchEngine} {r : PrefetchRecommendation} {pc : HandlePc}
    (h : OnPage s.config r pc) :
    OnPage s.config r (s.handleRecommendation r pc).1 ∧
      SpawnsPage s.config r (s.handleRecommendation r pc).2 := by
  have hnext : ∀ j, OnPage s.config r (.containsKey j) := by
    intro j i vaddr ht
    cases ht
  have hdone : OnPage s.config r .awaitTasks := by
    intro i vaddr ht
    cases ht
  have hnothing : SpawnsPage s.config r none := by
    intro p vaddr hp
    cases hp
  cases pc with
  | containsKey j =>
    simp only [PrefetchEngine.handleRecommendation]
    split_ifs with hend hmem
    · exact ⟨hdone, hnothing⟩
    · exact ⟨hnext _, hnothing⟩
    · refine ⟨?_, hnothing⟩
      intro i vaddr ht
      cases ht
      exact ⟨rfl, by omega⟩
  | lookupPageState j v =>
    simp only [PrefetchEngine.handleRecommendation]
    split
    · exact ⟨hnext _, hnothing⟩
    · split_ifs
      · exact ⟨hnext _, hnothing⟩
      · exact ⟨hnext _, hnothing⟩
      · exact ⟨h, hnothing⟩
  | getRemoteNode j v entry =>
    simp only [PrefetchEngine.handleRecommendation]
    split
    · exact ⟨hnext _, hnothing⟩
    · exact ⟨h, hnothing⟩
  | acquireOwned j v pageSize peerAddr remoteRkey =>
    simp only [PrefetchEngine.handleRecommendation]
    split_ifs
    · exact ⟨h, hnothing⟩
    · refine ⟨hnext _, ?_⟩
      intro p vaddr hp hpage
      obtain rfl := Option.some.inj hp
      obtain rfl := Option.some.inj hpage
      obtain ⟨hv, hj⟩ := h j v rfl
      exact ⟨j, hj, hv⟩
  | awaitTasks => exact ⟨h, hnothing⟩

/-- A page task stays with its page, and what it puts in the map is that page. -/
theorem page_prefetchStep (c : FetchContext) (pc : PrefetchPc) (ok : Bool) :
    (∀ vaddr, (prefetchStep c pc ok).1.page = some vaddr → pc.page = some vaddr) ∧
      ∀ vaddr ∈ (prefetchStep c pc ok).2.prefetchedPages,
        vaddr ∈ c.prefetchedPages ∨ pc.page = some vaddr := by
  have hkept : ∀ vaddr ∈ c.prefetchedPages, vaddr ∈ c.prefetchedPages ∨ pc.page = some vaddr :=
    fun vaddr hv => .inl hv
  have hended : ∀ vaddr : UInt64, none = some vaddr → pc.page = some vaddr := by
    intro vaddr hv
    cases hv
  cases pc with
  | popSlot v pageSize peerAddr remoteRkey =>
    simp only [prefetchStep]
    split
    · exact ⟨hended, hkept⟩
    · exact ⟨fun vaddr hv => hv, hkept⟩
  | rdmaRead v slot request => exact ⟨fun vaddr hv => hv, hkept⟩
  | awaitRead v slot =>
    cases ok with
    | true => exact ⟨fun vaddr hv => hv, hkept⟩
    | false => exact ⟨hended, hkept⟩
  | insert v slot =>
    refine ⟨hended, fun vaddr hv => ?_⟩
    rcases (AList.mem_insert _).mp hv with rfl | hold
    · exact .inr rfl
    · exact .inl hold
  | pushSlot slot => exact ⟨hended, hkept⟩
  | finished => exact ⟨hended, hkept⟩

theorem Predicted.concat {minConfidence limit : ℕ} {h : List TelemetryEvent} {vaddr : UInt64}
    (hp : Predicted minConfidence limit h vaddr) (e : TelemetryEvent) :
    Predicted minConfidence limit (h ++ [e]) vaddr := by
  obtain ⟨past, f, rest, a, rfl, hf, hv⟩ := hp
  exact ⟨past, f, rest ++ [e], a, by simp, hf, hv⟩

theorem analyzedAddresses_concat (pid : UInt32) (h : List TelemetryEvent) (e : TelemetryEvent) :
    analyzedAddresses pid (h ++ [e]) = analyzedAddresses pid h ++
      (e.answer.bind fun a => if a.event.pid = pid then some a.event.vaddr else none).toList := by
  unfold analyzedAddresses
  rw [filterMap_append_singleton, List.filterMap_append]
  cases e.answer with
  | none => rfl
  | some a => by_cases hpid : a.event.pid = pid <;> simp [hpid]

section Run

variable {detector : StrideDetector} {config : PrefetchConfig} {h : List TelemetryEvent}
  {s : Telemetry}

/-- The history predicts the page. -/
def Foreseen (detector : StrideDetector) (config : PrefetchConfig) (h : List TelemetryEvent)
    (vaddr : UInt64) : Prop :=
  Predicted detector.minConfidence (min detector.maxPrefetchCount config.maxPrefetchCount) h vaddr

/-- The history predicts the pages of the recommendation. -/
def ForeseenPages (detector : StrideDetector) (config : PrefetchConfig) (h : List TelemetryEvent)
    (r : PrefetchRecommendation) : Prop :=
  ∀ i < min r.count config.maxPrefetchCount, Foreseen detector config h (r.pageVaddr i)

/-- Every stage of the pipeline works on pages that the history predicts. -/
structure Justified (detector : StrideDetector) (config : PrefetchConfig) (h : List TelemetryEvent)
    (s : Telemetry) : Prop where
  minConfidence : s.detector.minConfidence = detector.minConfidence
  maxPrefetchCount : s.detector.maxPrefetchCount = detector.maxPrefetchCount
  configured : s.engine.config = config
  follows : ∀ pid, Follows (analyzedAddresses pid h) (s.detector.state.lookup pid)
  queued : ∀ r ∈ s.recommendations, ForeseenPages detector config h r
  handled : ∀ t ∈ s.engine.handling, ForeseenPages detector config h t.1 ∧ OnPage config t.1 t.2
  pages : ∀ pc ∈ s.engine.pages, ∀ vaddr, pc.page = some vaddr → Foreseen detector config h vaddr
  prefetched : ∀ vaddr ∈ s.engine.ctx.prefetchedPages, Foreseen detector config h vaddr

theorem ForeseenPages.concat {r : PrefetchRecommendation} (hr : ForeseenPages detector config h r)
    (e : TelemetryEvent) : ForeseenPages detector config (h ++ [e]) r :=
  fun i hi => (hr i hi).concat e

/-- A step that analyzes nothing leaves every prediction as it was. -/
theorem Justified.later (hj : Justified detector config h s) {e : TelemetryEvent}
    (he : e.answer = none) : Justified detector config (h ++ [e]) s where
  minConfidence := hj.minConfidence
  maxPrefetchCount := hj.maxPrefetchCount
  configured := hj.configured
  follows pid := by
    rw [analyzedAddresses_concat, he]
    simpa using hj.follows pid
  queued r hr := (hj.queued r hr).concat e
  handled t ht := ⟨(hj.handled t ht).1.concat e, (hj.handled t ht).2⟩
  pages pc hpc vaddr hv := (hj.pages pc hpc vaddr hv).concat e
  prefetched vaddr hv := (hj.prefetched vaddr hv).concat e

theorem Justified.recommend (hj : Justified detector config h s) {r : PrefetchRecommendation}
    {rest : List PrefetchRecommendation} (hqueue : s.recommendations = r :: rest) :
    Justified detector config h { s with
      recommendations := rest
      engine := (s.engine.step (.recommend r)).2 } := by
  have hr : ForeseenPages detector config h r := hj.queued r (by simp [hqueue])
  have hrest : ∀ q ∈ rest, ForeseenPages detector config h q := fun q hq => hj.queued q (by simp [hqueue, hq])
  simp only [PrefetchEngine.step]
  split_ifs
  · refine { hj with queued := hrest, handled := ?_ }
    intro t ht
    rcases List.mem_append.mp ht with ht | ht
    · exact hj.handled t ht
    · rw [List.mem_singleton.mp ht]
      refine ⟨hr, ?_⟩
      intro i vaddr hi
      cases hi
  · exact { hj with queued := hrest }

theorem Justified.handle (hj : Justified detector config h s) (task : ℕ) :
    Justified detector config h { s with engine := (s.engine.step (.handle task)).2 } := by
  simp only [PrefetchEngine.step]
  split
  · exact hj
  · rename_i r pc ht
    obtain ⟨hr, hpc⟩ := hj.handled _ (List.mem_of_getElem? ht)
    rw [← hj.configured] at hpc
    obtain ⟨hnext, hspawn⟩ := onPage_handleRecommendation hpc
    rw [hj.configured] at hnext hspawn
    refine { hj with handled := ?_, pages := ?_ }
    · intro t hmem
      rcases List.mem_or_eq_of_mem_set hmem with hmem | rfl
      · exact hj.handled t hmem
      · exact ⟨hr, hnext⟩
    · intro p hmem vaddr hv
      rcases List.mem_append.mp hmem with hmem | hmem
      · exact hj.pages p hmem vaddr hv
      · obtain ⟨i, hi, rfl⟩ := hspawn p vaddr (Option.mem_toList.mp hmem) hv
        exact hr i hi

theorem Justified.page (hj : Justified detector config h s) (task : ℕ) (ok : Bool) :
    Justified detector config h { s with engine := (s.engine.step (.page task ok)).2 } := by
  simp only [PrefetchEngine.step]
  split
  · exact hj
  · rename_i pc ht
    have hmem := List.mem_of_getElem? ht
    obtain ⟨hpage, hmap⟩ := page_prefetchStep s.engine.ctx pc ok
    refine { hj with pages := ?_, prefetched := ?_ }
    · intro p hp vaddr hv
      rcases List.mem_or_eq_of_mem_set hp with hp | rfl
      · exact hj.pages p hp vaddr hv
      · exact hj.pages pc hmem vaddr (hpage vaddr hv)
    · intro vaddr hv
      rcases hmap vaddr hv with hv | hv
      · exact hj.prefetched vaddr hv
      · exact hj.pages pc hmem vaddr hv

/-- An analyzed event extends the addresses of its process, and it predicts the pages of the
recommendation that it yields. -/
theorem Justified.analyze (hj : Justified detector config h s) (access : AccessEvent)
    (events : List AccessEvent) (now created : ℕ) {e : TelemetryEvent}
    (he : e.answer = some ⟨access, (s.detector.processEvent access now created).1⟩) :
    Justified detector config (h ++ [e]) { s with
      events
      detector := (s.detector.processEvent access now created).2
      recommendations :=
        s.recommendations ++ (s.detector.processEvent access now created).1.toList } := by
  obtain ⟨hfollows, hpredicts⟩ := observed s.detector access now created (hj.follows access.pid)
  rw [hj.minConfidence, hj.maxPrefetchCount] at hpredicts
  constructor
  case minConfidence => exact hj.minConfidence
  case maxPrefetchCount => exact hj.maxPrefetchCount
  case configured => exact hj.configured
  case follows =>
    intro pid
    rw [analyzedAddresses_concat, he]
    by_cases hpid : access.pid = pid
    · subst hpid
      simpa [StrideDetector.processEvent] using hfollows
    · simpa [StrideDetector.processEvent, hpid, AList.lookup_insert_ne (Ne.symm hpid)] using
        hj.follows pid
  case queued =>
    intro r hr
    rcases List.mem_append.mp hr with hr | hr
    · exact (hj.queued r hr).concat e
    · intro i hi
      exact ⟨h, e, [], _, rfl, he, hpredicts r (Option.mem_toList.mp hr) _ i hi⟩
  case handled => exact fun t ht => ⟨(hj.handled t ht).1.concat e, (hj.handled t ht).2⟩
  case pages => exact fun pc hpc vaddr hv => (hj.pages pc hpc vaddr hv).concat e
  case prefetched => exact fun vaddr hv => (hj.prefetched vaddr hv).concat e

theorem Justified.step (hj : Justified detector config h s) (a : TelemetryCall) :
    Justified detector config (h ++ [event Telemetry.step s a]) (s.step a).2 := by
  cases a with
  | submitEvent access =>
    have hlater := hj.later (e := event Telemetry.step s (.submitEvent access)) rfl
    simp only [Telemetry.step]
    split_ifs
    · exact { hlater with }
    · exact hlater
  | analyzeEvent now created =>
    cases hevents : s.events with
    | nil =>
      have hstep : s.step (.analyzeEvent now created) = (none, s) := by
        simp only [Telemetry.step, hevents]
      rw [event_eq hstep, hstep]
      exact hj.later rfl
    | cons access events =>
      have hanalyzed := hj.analyze access events now created
        (e := event Telemetry.step s (.analyzeEvent now created)) (by
          simp only [event, Telemetry.step, hevents])
      simpa only [Telemetry.step, hevents] using hanalyzed
  | receive =>
    cases hqueue : s.recommendations with
    | nil =>
      have hstep : s.step .receive = (none, s) := by
        simp only [Telemetry.step, hqueue]
      rw [event_eq hstep, hstep]
      exact hj.later rfl
    | cons r rest =>
      have hlater := hj.later (e := event Telemetry.step s .receive) (by
        simp only [event, Telemetry.step, hqueue]
        split_ifs <;> rfl)
      have hnext := hlater.recommend hqueue
      simp only [Telemetry.step, hqueue] at hnext ⊢
      split_ifs
      · exact hnext
      · exact hlater
  | handle task => exact (hj.later rfl).handle task
  | page task ok => exact (hj.later rfl).page task ok
  | takePrefetchedSlot vaddr =>
    have hlater := hj.later (e := event Telemetry.step s (.takePrefetchedSlot vaddr)) rfl
    refine { hlater with prefetched := ?_ }
    intro v hv
    exact hlater.prefetched v (AList.mem_erase.mp hv).2
  | others controlPlane stagingPool =>
    have hlater := hj.later (e := event Telemetry.step s (.others controlPlane stagingPool)) rfl
    exact { hlater with }

end Run

/-- Only predicted pages are prefetched. However the events of the processes, the stages of the
pipeline and the rest of the daemon interleave, each page that is being read or has been put in the
map lies ahead of an analyzed event: its process has come there by the same stride at least
`minConfidence` times, and the page is one of the next few strides away. -/
theorem prefetched_pages_predicted (capacity decayInterval minConfidence maxPrefetchCount : ℕ)
    (config : PrefetchConfig) (controlPlane : ControlPlaneManager) (stagingPool : StagingMemoryPool)
    (calls : List TelemetryCall) (vaddr : UInt64) :
    let start := Telemetry.new capacity (.withParams decayInterval minConfidence maxPrefetchCount)
      config controlPlane stagingPool
    vaddr ∈ (exec Telemetry.step start calls).engine.ctx.prefetchedPages ∨
        vaddr ∈ (exec Telemetry.step start calls).engine.pages.filterMap PrefetchPc.page →
      Predicted minConfidence (min maxPrefetchCount config.maxPrefetchCount)
        (trace Telemetry.step start calls) vaddr := by
  intro start
  have hstart : Justified (.withParams decayInterval minConfidence maxPrefetchCount) config []
      start := by
    constructor
    case minConfidence => rfl
    case maxPrefetchCount => rfl
    case configured => rfl
    case follows => exact fun pid => .untracked
    case queued => exact fun r hr => absurd hr List.not_mem_nil
    case handled => exact fun t ht => absurd ht List.not_mem_nil
    case pages => exact fun pc hpc => absurd hpc List.not_mem_nil
    case prefetched => exact fun v hv => absurd hv (AList.notMem_empty v)
  have hj := history_induction (C := fun _ _ _ => True) hstart (fun _ _ a hj _ => hj.step a) calls
    (along_true _ _ _)
  intro hv
  rcases hv with hv | hv
  · exact hj.prefetched vaddr hv
  · obtain ⟨pc, hpc, hpage⟩ := List.mem_filterMap.mp hv
    exact hj.pages pc hpc vaddr hpage

/-- A process walks up to the page of another node, and the page is recommended. -/
private def walkToPage : List TelemetryCall :=
  [.submitEvent ⟨0, 7, 0x400, false⟩, .submitEvent ⟨1, 7, 0x800, false⟩,
    .submitEvent ⟨2, 7, 0xC00, true⟩, .analyzeEvent 0 0, .analyzeEvent 1 1, .analyzeEvent 2 2,
    .receive, .handle 0, .handle 0, .handle 0, .handle 0]

theorem prefetched_pages_predicted_walk :
    let start := Telemetry.new 1024 (.withParams 100 2 16) {} remotePage.controlPlane
      remotePage.stagingPool
    (0x1000 : UInt64) ∈ (exec Telemetry.step start walkToPage).engine.pages.filterMap
        PrefetchPc.page ∧
      Predicted 2 (min 16 8) (trace Telemetry.step start walkToPage) 0x1000 := by
  have hread : (0x1000 : UInt64) ∈ (exec Telemetry.step (Telemetry.new 1024 (.withParams 100 2 16) {}
      remotePage.controlPlane remotePage.stagingPool) walkToPage).engine.pages.filterMap
        PrefetchPc.page := by
    decide
  have hall := prefetched_pages_predicted 1024 100 2 16 {} remotePage.controlPlane
    remotePage.stagingPool walkToPage 0x1000
  exact ⟨hread, hall (.inr hread)⟩

def PrefetchPc.running : PrefetchPc → Bool
  | .finished => false
  | _ => true

/-- How many steps a page task takes at most. -/
def PrefetchPc.stepsLeft : PrefetchPc → ℕ
  | .popSlot .. => 4
  | .rdmaRead .. => 3
  | .awaitRead .. => 2
  | .insert .. | .pushSlot _ => 1
  | .finished => 0

theorem stepsLeft_prefetchStep (c : FetchContext) (pc : PrefetchPc) (ok : Bool) :
    (prefetchStep c pc ok).1.stepsLeft ≤ pc.stepsLeft - 1 := by
  cases pc with
  | popSlot v pageSize peerAddr remoteRkey =>
    simp only [prefetchStep]
    split
    · exact Nat.zero_le _
    · exact le_rfl
  | awaitRead v slot =>
    cases ok with
    | true => exact le_rfl
    | false => exact le_rfl
  | _ => exact le_rfl

theorem running_eq_false_iff (pc : PrefetchPc) : pc.running = false ↔ pc.stepsLeft = 0 := by
  cases pc <;> simp [PrefetchPc.running, PrefetchPc.stepsLeft]

theorem returnsPermit_toNat (pc pc' : PrefetchPc) (h : pc = .finished → pc' = .finished) :
    (PrefetchEngine.returnsPermit pc pc').toNat + pc'.running.toNat = pc.running.toNat := by
  cases pc with
  | finished =>
    rw [h rfl]
    rfl
  | _ => cases pc' <;> rfl

/-- Each permit is free or with a running page task. -/
def PermitsKept (limit : ℕ) (s : PrefetchEngine) : Prop :=
  s.permits + s.pages.countP PrefetchPc.running = limit

/-- A task is spawned only with a permit. -/
theorem permits_of_spawn {s : PrefetchEngine} {r : PrefetchRecommendation} {pc : HandlePc}
    {p : PrefetchPc} (h : (s.handleRecommendation r pc).2 = some p) : s.permits ≠ 0 := by
  intro hzero
  cases pc with
  | containsKey i =>
    simp only [PrefetchEngine.handleRecommendation] at h
    split_ifs at h
  | lookupPageState i vaddr =>
    simp only [PrefetchEngine.handleRecommendation] at h
    split at h
    · cases h
    · split_ifs at h
  | getRemoteNode i vaddr entry =>
    simp only [PrefetchEngine.handleRecommendation] at h
    split at h
    · cases h
    · cases h
  | acquireOwned i vaddr pageSize peerAddr remoteRkey =>
    simp only [PrefetchEngine.handleRecommendation, hzero, if_true] at h
    cases h
  | awaitTasks => cases h

theorem permitsKept_handle {limit : ℕ} {s : PrefetchEngine} (h : PermitsKept limit s) (task : ℕ) :
    PermitsKept limit (s.step (.handle task)).2 := by
  unfold PermitsKept at h ⊢
  simp only [PrefetchEngine.step]
  split
  · exact h
  · rename_i r pc ht
    dsimp only
    cases hspawn : (s.handleRecommendation r pc).2 with
    | none => simpa using h
    | some p =>
      obtain ⟨v, pageSize, peerAddr, remoteRkey, rfl⟩ := s.handleRecommendation_spawns r pc hspawn
      have hfree := permits_of_spawn hspawn
      simp only [Option.toList_some, List.length_singleton, List.countP_append]
      simp only [List.countP_singleton, PrefetchPc.running, if_true]
      omega

theorem permitsKept_page {limit : ℕ} {s : PrefetchEngine} (h : PermitsKept limit s) (task : ℕ)
    (ok : Bool) : PermitsKept limit (s.step (.page task ok)).2 := by
  unfold PermitsKept at h ⊢
  simp only [PrefetchEngine.step]
  split
  · exact h
  · rename_i pc ht
    have hset := countP_set_add PrefetchPc.running (prefetchStep s.ctx pc ok).1 ht
    have hreturned := returnsPermit_toNat pc (prefetchStep s.ctx pc ok).1 (by
      rintro rfl
      rfl)
    dsimp only
    omega

theorem permitsKept_step {limit : ℕ} {s : Telemetry} (h : PermitsKept limit s.engine)
    (a : TelemetryCall) : PermitsKept limit (s.step a).2.engine := by
  cases a with
  | submitEvent access =>
    simp only [Telemetry.step]
    split_ifs
    · exact h
    · exact h
  | analyzeEvent now created =>
    simp only [Telemetry.step]
    split
    · exact h
    · exact h
  | receive =>
    simp only [Telemetry.step]
    split
    · exact h
    · simp only [PrefetchEngine.step]
      split_ifs
      · exact h
      · exact h
  | handle task => exact permitsKept_handle h task
  | page task ok => exact permitsKept_page h task ok
  | takePrefetchedSlot vaddr => exact h
  | others controlPlane stagingPool => exact h

/-- Turns of page tasks, each with the outcome of what the task waits for. -/
def runPages (s : PrefetchEngine) (turns : List (ℕ × Bool)) : PrefetchEngine :=
  turns.foldl (fun s turn => (s.step (.page turn.1 turn.2)).2) s

theorem permitsKept_runPages {limit : ℕ} {s : PrefetchEngine} (h : PermitsKept limit s)
    (turns : List (ℕ × Bool)) : PermitsKept limit (runPages s turns) := by
  induction turns generalizing s with
  | nil => exact h
  | cons turn turns ih => exact ih (permitsKept_page h turn.1 turn.2)

/-- Each turn takes its task one step on. -/
theorem stepsLeft_runPages (s : PrefetchEngine) (turns : List (ℕ × Bool)) (i : ℕ) {pc' : PrefetchPc}
    (h : (runPages s turns).pages[i]? = some pc') :
    ∃ pc, s.pages[i]? = some pc ∧
      pc'.stepsLeft ≤ pc.stepsLeft - turns.countP (fun turn => turn.1 = i) := by
  induction turns generalizing s with
  | nil => exact ⟨pc', h, le_rfl⟩
  | cons turn turns ih =>
    obtain ⟨pc, hpc, hle⟩ := ih _ h
    simp only [PrefetchEngine.step] at hpc
    rw [List.countP_cons]
    cases ht : s.pages[turn.1]? with
    | none =>
      rw [ht] at hpc
      have hne : turn.1 ≠ i := by
        rintro rfl
        rw [ht] at hpc
        cases hpc
      refine ⟨pc, hpc, ?_⟩
      simpa [hne] using hle
    | some old =>
      rw [ht] at hpc
      by_cases hi : turn.1 = i
      · have hnew : (prefetchStep s.ctx old turn.2).1 = pc := by
          rw [hi] at ht hpc
          have hlt := (List.getElem?_eq_some_iff.mp ht).1
          simpa [hlt] using hpc
        have hstep := stepsLeft_prefetchStep s.ctx old turn.2
        rw [hnew] at hstep
        refine ⟨old, hi ▸ ht, ?_⟩
        simp only [hi, decide_true, if_true]
        omega
      · refine ⟨pc, ?_, ?_⟩
        · simpa [hi] using hpc
        · simpa [hi] using hle

theorem permitsKept_run (capacity : ℕ) (detector : StrideDetector) (config : PrefetchConfig)
    (controlPlane : ControlPlaneManager) (stagingPool : StagingMemoryPool)
    (calls : List TelemetryCall) :
    PermitsKept config.maxConcurrentRequests
      (exec Telemetry.step (.new capacity detector config controlPlane stagingPool) calls).engine := by
  have hstart : PermitsKept config.maxConcurrentRequests
      (Telemetry.new capacity detector config controlPlane stagingPool).engine := rfl
  exact history_induction (C := fun _ _ _ => True)
    (P := fun _ (s : Telemetry) => PermitsKept config.maxConcurrentRequests s.engine) hstart
    (fun _ _ a h _ => permitsKept_step h a) calls (along_true _ _ _)

/-- Reads are bounded and never stuck. At most `maxConcurrentRequests` page tasks run at a time,
whatever is recommended; and wherever a run stands, any four turns of each page task end them all and
bring all permits back, whether the reads succeed or not. -/
theorem reads_bounded_and_drained (capacity : ℕ) (detector : StrideDetector)
    (config : PrefetchConfig) (controlPlane : ControlPlaneManager) (stagingPool : StagingMemoryPool)
    (calls : List TelemetryCall) (turns : List (ℕ × Bool)) :
    let s := (exec Telemetry.step (.new capacity detector config controlPlane stagingPool)
      calls).engine
    s.permits + s.pages.countP PrefetchPc.running = config.maxConcurrentRequests ∧
      ((∀ i < s.pages.length, 4 ≤ turns.countP (fun turn => turn.1 = i)) →
        (∀ pc ∈ (runPages s turns).pages, pc = .finished) ∧
          (runPages s turns).permits = config.maxConcurrentRequests) := by
  intro s
  have hkept := permitsKept_run capacity detector config controlPlane stagingPool calls
  refine ⟨hkept, fun hturns => ?_⟩
  have hdrained := permitsKept_runPages hkept turns
  have hidle : ∀ pc ∈ (runPages s turns).pages, pc.stepsLeft = 0 := by
    intro pc hpc
    obtain ⟨i, hi⟩ := List.mem_iff_getElem?.mp hpc
    obtain ⟨old, hold, hle⟩ := stepsLeft_runPages s turns i hi
    have hfour := hturns i (List.getElem?_eq_some_iff.mp hold).1
    have hmax : old.stepsLeft ≤ 4 := by
      cases old <;> simp [PrefetchPc.stepsLeft]
    omega
  constructor
  · intro pc hpc
    have hzero := hidle pc hpc
    cases pc with
    | finished => rfl
    | _ => simp [PrefetchPc.stepsLeft] at hzero
  · have hcount : (runPages s turns).pages.countP PrefetchPc.running = 0 := by
      rw [List.countP_eq_zero]
      intro pc hpc
      rw [(running_eq_false_iff pc).mpr (hidle pc hpc)]
      exact Bool.false_ne_true
    unfold PermitsKept at hdrained
    rwa [hcount] at hdrained

theorem reads_bounded_and_drained_walk :
    let s := (exec Telemetry.step (Telemetry.new 1024 (.withParams 100 2 16) {}
      remotePage.controlPlane remotePage.stagingPool) walkToPage).engine
    let turns := List.replicate 4 (0, true)
    (∀ i < s.pages.length, 4 ≤ turns.countP (fun turn => turn.1 = i)) ∧
      (runPages s turns).permits = 16 := by
  intro s turns
  have hall := (reads_bounded_and_drained 1024 (.withParams 100 2 16) {} remotePage.controlPlane
    remotePage.stagingPool walkToPage turns).2
  have hturns : ∀ i < s.pages.length, 4 ≤ turns.countP (fun turn => turn.1 = i) := by
    decide
  exact ⟨hturns, (hall hturns).2⟩

end Virthub.Klnk.Daemon
