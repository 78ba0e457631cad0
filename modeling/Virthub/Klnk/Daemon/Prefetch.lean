import Virthub.Klnk.Daemon.Tasks

/-! The prefetch engine: a task for each recommendation, which spawns a task for each of its pages, and the
calls that take prefetched slots away. -/
namespace Virthub.Klnk.Daemon
open Virthub.Store Virthub.Lib Virthub.Klnk.Uffd

structure PrefetchConfig where
  maxConcurrentRequests : ℕ := 16
  maxPrefetchCount : ℕ := 8
  enabled : Bool := true

structure PrefetchRecommendation where
  pid : UInt32
  baseVaddr : UInt64
  strideBytes : Int64
  count : ℕ

def PrefetchRecommendation.pageVaddr (self : PrefetchRecommendation) (i : ℕ) : UInt64 :=
  (self.baseVaddr.toInt64 + Int64.ofNat i * self.strideBytes).toUInt64

/-- Where a call of `handle_recommendation` stands in its loop over the pages. -/
inductive HandlePc where
  | containsKey (i : ℕ)
  | lookupPageState (i : ℕ) (vaddr : UInt64)
  | getRemoteNode (i : ℕ) (vaddr : UInt64) (pageEntry : DistributedPageEntry)
  | acquireOwned (i : ℕ) (vaddr pageSize : UInt64) (peerAddr : SocketAddr) (remoteRkey : UInt32)
  /-- The loop has ended, and the task waits for the pages that it has spawned. -/
  | awaitTasks

structure PrefetchEngine where
  config : PrefetchConfig
  ctx : FetchContext
  /-- The permits that the semaphore has left. -/
  permits : ℕ
  handling : List (PrefetchRecommendation × HandlePc)
  pages : List PrefetchPc

namespace PrefetchEngine

def new (config : PrefetchConfig) (ctx : FetchContext) : PrefetchEngine :=
  ⟨config, ctx, config.maxConcurrentRequests, [], []⟩

/-- The next step of a recommendation, with the page task that it spawns. -/
def handleRecommendation (self : PrefetchEngine) (recommendation : PrefetchRecommendation) :
    HandlePc → HandlePc × Option PrefetchPc
  | .containsKey i =>
    if min recommendation.count self.config.maxPrefetchCount ≤ i then (.awaitTasks, none)
    else if recommendation.pageVaddr i ∈ self.ctx.prefetchedPages then (.containsKey (i + 1), none)
    else (.lookupPageState i (recommendation.pageVaddr i), none)
  | .lookupPageState i vaddr =>
    match self.ctx.controlPlane.lookupPageState vaddr with
    | none => (.containsKey (i + 1), none)
    | some pageEntry =>
      if pageEntry.primaryOwner = self.ctx.controlPlane.localNodeId then (.containsKey (i + 1), none)
      else if pageEntry.coherenceState = .inFlight then (.containsKey (i + 1), none)
      else (.getRemoteNode i vaddr pageEntry, none)
  | .getRemoteNode i vaddr pageEntry =>
    match self.ctx.controlPlane.getRemoteNode pageEntry.primaryOwner with
    | none => (.containsKey (i + 1), none)
    | some info => (.acquireOwned i vaddr pageEntry.pageSize info.socketAddr info.metadataRkey, none)
  | .acquireOwned i vaddr pageSize peerAddr remoteRkey =>
    if self.permits = 0 then (.acquireOwned i vaddr pageSize peerAddr remoteRkey, none)
    else (.containsKey (i + 1), some (.popSlot vaddr pageSize peerAddr remoteRkey))
  | .awaitTasks => (.awaitTasks, none)

/-- A page task gives its permit back when it ends. -/
def returnsPermit : PrefetchPc → PrefetchPc → Bool
  | .finished, _ => false
  | _, .finished => true
  | _, _ => false

def takePrefetchedSlot (self : PrefetchEngine) (vaddr : UInt64) :
    Option StagingSlotHandle × PrefetchEngine :=
  (self.ctx.prefetchedPages.lookup vaddr,
    { self with ctx := { self.ctx with prefetchedPages := self.ctx.prefetchedPages.erase vaddr } })

end PrefetchEngine

/-- `ok` is the outcome of what a page task waits for. -/
inductive PrefetchCall where
  | recommend (recommendation : PrefetchRecommendation)
  | handle (task : ℕ)
  | page (task : ℕ) (ok : Bool)
  | takePrefetchedSlot (vaddr : UInt64)

namespace PrefetchEngine

/-- One step of one task. The answer is the slot that is taken. -/
def step (self : PrefetchEngine) : PrefetchCall → Option StagingSlotHandle × PrefetchEngine
  | .recommend recommendation =>
    (none, if self.config.enabled then
      { self with handling := self.handling ++ [(recommendation, .containsKey 0)] } else self)
  | .handle task =>
    match self.handling[task]? with
    | none => (none, self)
    | some (recommendation, pc) =>
      let next := self.handleRecommendation recommendation pc
      (none, { self with
        handling := self.handling.set task (recommendation, next.1)
        permits := self.permits - next.2.toList.length
        pages := self.pages ++ next.2.toList })
  | .page task ok =>
    match self.pages[task]? with
    | none => (none, self)
    | some pc =>
      let next := prefetchStep self.ctx pc ok
      (none, { self with
        ctx := next.2
        permits := self.permits + (returnsPermit pc next.1).toNat
        pages := self.pages.set task next.1 })
  | .takePrefetchedSlot vaddr => self.takePrefetchedSlot vaddr

/-- No page is being prefetched. -/
def Quiet (self : PrefetchEngine) : Prop := ∀ pc ∈ self.pages, pc = .finished

/-- A recommendation only ever adds a page task that has not begun. -/
theorem handleRecommendation_spawns (self : PrefetchEngine) (recommendation : PrefetchRecommendation)
    (pc : HandlePc) {page : PrefetchPc}
    (h : (self.handleRecommendation recommendation pc).2 = some page) :
    ∃ vaddr pageSize peerAddr remoteRkey, page = .popSlot vaddr pageSize peerAddr remoteRkey := by
  cases pc with
  | containsKey i =>
    simp only [handleRecommendation] at h
    split_ifs at h
  | lookupPageState i vaddr =>
    simp only [handleRecommendation] at h
    cases hl : self.ctx.controlPlane.lookupPageState vaddr with
    | none => simp [hl] at h
    | some pageEntry =>
      simp only [hl] at h
      split_ifs at h
  | getRemoteNode i vaddr pageEntry =>
    simp only [handleRecommendation] at h
    cases hn : self.ctx.controlPlane.getRemoteNode pageEntry.primaryOwner <;> simp [hn] at h
  | acquireOwned i vaddr pageSize peerAddr remoteRkey =>
    simp only [handleRecommendation] at h
    split_ifs at h
    cases h
    exact ⟨_, _, _, _, rfl⟩
  | awaitTasks => cases h

end PrefetchEngine

end Virthub.Klnk.Daemon
