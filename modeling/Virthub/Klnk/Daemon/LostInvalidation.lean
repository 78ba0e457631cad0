import Virthub.Klnk.Daemon.Tasks

/-! A fault on a remote page against the invalidation poller. The fault ends with an
unconditional update to `SharedRead`, so an invalidation that is processed while the page is
being fetched survives only if the fault fails or the poller comes last. -/
namespace Virthub.Klnk.Daemon
open Virthub.Store Virthub.Lib Virthub.Klnk.Uffd

/-- The coherence state of the page at `v`. -/
def coherenceOf (c : FetchContext) (v : UInt64) : Option PageCoherenceState :=
  (c.controlPlane.lookupPageState v).map (·.coherenceState)

/-- The coherence state that the next call of a task writes to the page at `v`. -/
def Task.writes (v : UInt64) : Task → Option PageCoherenceState
  | .fault (.markInFlight w _) => if v = w then some .inFlight else none
  | .fault (.markShared w _) => if v = w then some .sharedRead else none
  | .fault (.markZeroShared w) => if v = w then some .sharedRead else none
  | .poller (.markInvalid w _) => if v = w then some .invalid else none
  | _ => none

/-- The state of a page after a write, if there is one. -/
def afterWrite (written old : Option PageCoherenceState) : Option PageCoherenceState :=
  match written with
  | some st => old.map fun _ => st
  | none => old

theorem coherence_updatePageState (cp : ControlPlaneManager) (v w : UInt64)
    (st : PageCoherenceState) (o : NodeId) :
    ((cp.updatePageState w st o).2.lookupPageState v).map (·.coherenceState) =
      afterWrite (if v = w then some st else none)
        ((cp.lookupPageState v).map (·.coherenceState)) := by
  rw [ControlPlaneManager.updatePageState, ControlPlaneManager.lookup_modifyPage]
  by_cases hv : v = w
  · rw [if_pos hv, if_pos hv, afterWrite, Option.map_map, Option.map_map]
    congr 1
    funext entry
    dsimp only [Function.comp]
    split_ifs <;> rfl
  · rw [if_neg hv, if_neg hv]
    rfl

theorem coherence_removeReader (cp : ControlPlaneManager) (v w : UInt64) (n : NodeId) :
    ((cp.removeReader w n).2.lookupPageState v).map (·.coherenceState) =
      (cp.lookupPageState v).map (·.coherenceState) :=
  ControlPlaneManager.map_lookup_modifyPage _ cp w v fun _ => rfl

/-- A task changes the coherence state of a page only by the write that it is at. -/
theorem coherence_step (c : FetchContext) (t : Task) (ok : Bool) (v : UInt64) :
    coherenceOf (t.step c ok).2 v = afterWrite (t.writes v) (coherenceOf c v) := by
  obtain ⟨pool, hstep⟩ := t.step_context c ok
  rw [hstep]
  cases t with
  | fault pc =>
    cases pc with
    | markInFlight w o => exact coherence_updatePageState _ v w .inFlight o
    | markShared w o => exact coherence_updatePageState _ v w .sharedRead o
    | markZeroShared w => exact coherence_updatePageState _ v w .sharedRead _
    | addReader w => exact ControlPlaneManager.coherence_addReader _ v w _
    | _ => rfl
  | poller pc =>
    cases pc with
    | markInvalid w o => exact coherence_updatePageState _ v w .invalid o
    | removeReader w => exact coherence_removeReader _ v w _
    | _ => rfl
  | prefetch pc => rfl

@[simp] def Task.issuesRead (v : UInt64) : Task → Prop
  | .fault (.rdmaRead w _ _ _) => w = v
  | _ => False

@[simp] def Task.marksInFlight (v : UInt64) : Task → Prop
  | .fault (.markInFlight w _) => w = v
  | _ => False

@[simp] def Task.marksShared (v : UInt64) : Task → Prop
  | .fault (.markShared w _) => w = v
  | _ => False

@[simp] def Task.awaitsFetch (v : UInt64) : Task → Prop
  | .fault (.awaitRead w _ _) | .fault (.moveSlot w _ _) => w = v
  | _ => False

def Task.isFinished : Task → Bool
  | .fault (.finished _) | .poller (.finished _) | .prefetch .finished => true
  | _ => false

/-- The RDMA read or the move of the fault on `v` returns an error. -/
def FetchFails (v : UInt64) (e : TurnEvent) : Prop :=
  e.call.ok = false ∧ Ran (Task.awaitsFetch v) e

/-- What the history says about the fault on `v`, by where the fault stands. -/
def Phase (v : UInt64) (h : List TurnEvent) : FaultPc → Prop
  | .lookup w | .markInFlight w _ | .popLocalSlot w | .moveLocalSlot w _ | .zeropage w
  | .markZeroShared w =>
    w = v ∧ ¬ Once (Ran (Task.marksInFlight v)) h ∧ ¬ Once (Ran (Task.issuesRead v)) h ∧
      ¬ Once (Ran (Task.marksShared v)) h ∧ ¬ Once (FetchFails v) h
  | .takePrefetched w _ | .movePrefetched w _ _ | .getRemoteNode w _ | .popSlot w _ _
  | .rdmaRead w _ _ _ =>
    w = v ∧ Once (Ran (Task.marksInFlight v)) h ∧ ¬ Once (Ran (Task.issuesRead v)) h ∧
      ¬ Once (Ran (Task.marksShared v)) h ∧ ¬ Once (FetchFails v) h
  | .awaitRead w _ _ | .moveSlot w _ _ =>
    w = v ∧ Once (Ran (Task.marksInFlight v)) h ∧ ¬ Once (Ran (Task.marksShared v)) h ∧
      ¬ Once (FetchFails v) h
  | .pushSlot _ =>
    (Once (Ran (Task.issuesRead v)) h → Once (Ran (Task.marksInFlight v)) h ∧
      Once (FetchFails v) h) ∧ ¬ Once (Ran (Task.marksShared v)) h
  | .markShared w _ =>
    w = v ∧ (Once (Ran (Task.issuesRead v)) h → Once (Ran (Task.marksInFlight v)) h) ∧
      ¬ Once (Ran (Task.marksShared v)) h ∧ ¬ Once (FetchFails v) h
  | .addReader w =>
    w = v ∧ (Once (Ran (Task.issuesRead v)) h → Once (Ran (Task.marksInFlight v)) h) ∧
      Once (Ran (Task.marksShared v)) h ∧ ¬ Once (FetchFails v) h
  | .finished _ =>
    Once (Ran (Task.issuesRead v)) h → Once (Ran (Task.marksInFlight v)) h ∧
      (Once (Ran (Task.marksShared v)) h ↔ ¬ Once (FetchFails v) h)

theorem once_ran_concat {s : FetchState} {a : Turn} {t : Task} (ht : s.tasks[a.task]? = some t)
    (P : Task → Prop) (h : List TurnEvent) :
    Once (Ran P) (h ++ [event turnStep s a]) ↔ Once (Ran P) h ∨ P t := by
  rw [once_concat, ran_event_iff ht]

theorem once_fetchFails_concat {s : FetchState} {a : Turn} {t : Task}
    (ht : s.tasks[a.task]? = some t) (v : UInt64) (h : List TurnEvent) :
    Once (FetchFails v) (h ++ [event turnStep s a]) ↔
      Once (FetchFails v) h ∨ a.ok = false ∧ t.awaitsFetch v := by
  rw [once_concat, FetchFails, ran_event_iff ht]
  rfl

/-- A step of the fault brings it to its next phase. -/
theorem phase_step {v : UInt64} {h : List TurnEvent} {s : FetchState} {a : Turn} {pc : FaultPc}
    (ht : s.tasks[a.task]? = some (.fault pc)) (hp : Phase v h pc) :
    Phase v (h ++ [event turnStep s a]) (faultStep s.ctx pc a.ok).1 := by
  have hran := fun P => once_ran_concat ht P h
  have hfail := once_fetchFails_concat ht v h
  cases pc with
  | lookup w =>
    obtain ⟨rfl, hp⟩ := hp
    simp only [faultStep, dispatchFault]
    split
    · simp [Phase, hran, hp]
    · split <;> try split_ifs
      all_goals simp [Phase, hran, hfail, hp]
  | markInFlight w o =>
    obtain ⟨rfl, hp⟩ := hp
    simp [faultStep, Phase, hran, hfail, hp]
  | takePrefetched w o =>
    obtain ⟨rfl, hp⟩ := hp
    simp only [faultStep]
    split <;> simp [Phase, hran, hfail, hp]
  | movePrefetched w o slot =>
    obtain ⟨rfl, hp⟩ := hp
    simp only [faultStep]
    split_ifs <;> simp [Phase, hran, hfail, hp]
  | getRemoteNode w o =>
    obtain ⟨rfl, hp⟩ := hp
    simp only [faultStep]
    split <;> simp [Phase, hran, hfail, hp]
  | popSlot w o r =>
    obtain ⟨rfl, hp⟩ := hp
    simp only [faultStep]
    split <;> simp [Phase, hran, hfail, hp]
  | rdmaRead w o slot r =>
    obtain ⟨rfl, hp⟩ := hp
    simp [faultStep, Phase, hran, hfail, hp]
  | awaitRead w o slot =>
    obtain ⟨rfl, hp⟩ := hp
    simp only [faultStep]
    split_ifs with hok <;> simp [Phase, hran, hfail, hp, hok]
  | moveSlot w o slot =>
    obtain ⟨rfl, hp⟩ := hp
    simp only [faultStep]
    split_ifs with hok <;> simp [Phase, hran, hfail, hp, hok]
  | pushSlot slot =>
    obtain ⟨hissued, hshared⟩ := hp
    intro hi
    have hfailed := hissued (by simpa [hran] using hi)
    simp [hran, hfail, hfailed, hshared]
  | markShared w o =>
    obtain ⟨rfl, hissued, hp⟩ := hp
    simpa [faultStep, Phase, hran, hfail, hp] using hissued
  | addReader w =>
    obtain ⟨rfl, hissued, hp⟩ := hp
    simpa [faultStep, Phase, hran, hfail, hp] using hissued
  | popLocalSlot w =>
    obtain ⟨rfl, hp⟩ := hp
    simp only [faultStep]
    split <;> simp [Phase, hran, hfail, hp]
  | moveLocalSlot w slot =>
    obtain ⟨rfl, hp⟩ := hp
    simp only [faultStep]
    split_ifs <;> simp [Phase, hran, hfail, hp]
  | zeropage w =>
    obtain ⟨rfl, hp⟩ := hp
    simp only [faultStep]
    split_ifs <;> simp [Phase, hran, hfail, hp]
  | markZeroShared w =>
    obtain ⟨rfl, hp⟩ := hp
    simp [faultStep, Phase, hran, hp]
  | finished r => simpa [faultStep, Phase, hran, hfail] using hp

/-- An event that is none of the fault's leaves it in its phase. -/
theorem phase_other {v : UInt64} {h : List TurnEvent} {e : TurnEvent} {pc : FaultPc}
    (hm : ¬ Ran (Task.marksInFlight v) e) (hi : ¬ Ran (Task.issuesRead v) e)
    (hs : ¬ Ran (Task.marksShared v) e) (hf : ¬ FetchFails v e) (hp : Phase v h pc) :
    Phase v (h ++ [e]) pc := by
  cases pc <;> simpa [Phase, hm, hi, hs, hf] using hp

/-- One fault on the page at `v`, which a remote node owns and of which there is no prefetched
copy, beside any number of poller callbacks. -/
structure RemoteRace (s : FetchState) (v : UInt64) : Prop where
  fault : s.tasks.head? = some (.fault (.lookup v))
  pollers : ∀ t ∈ s.tasks.tail, ∃ w, t = .poller (.lookup w)
  remote : OwnedRemotely s.ctx v
  noPrefetched : s.ctx.prefetchedPages.lookup v = none

/-- The invariant of the race: once the fault has marked the page, the page is shared exactly
when the fault's last update came after all of the poller's. -/
structure RaceInv (v : UInt64) (h : List TurnEvent) (s : FetchState) : Prop where
  pollers : ∀ t ∈ s.tasks.tail, ∃ pp, t = .poller pp
  phase : ∃ pc, s.tasks.head? = some (.fault pc) ∧ Phase v h pc
  entry : (coherenceOf s.ctx v).isSome = true
  shared : Once (Ran (Task.marksInFlight v)) h →
    (coherenceOf s.ctx v = some .sharedRead ↔
      Since (Ran (Task.marksShared v)) (Ran (Task.marksInvalid v)) h)

theorem RemoteRace.inv {s : FetchState} {v : UInt64} (hs : RemoteRace s v) : RaceInv v [] s := by
  refine ⟨fun t ht => ?_, ⟨_, hs.fault, ?_⟩, ?_, fun h => absurd h once_nil⟩
  · obtain ⟨w, rfl⟩ := hs.pollers t ht
    exact ⟨_, rfl⟩
  · exact ⟨rfl, once_nil, once_nil, once_nil, once_nil⟩
  · obtain ⟨entry, hentry, -⟩ := hs.remote
    rw [coherenceOf, hentry]
    rfl

theorem afterWrite_isSome {written old : Option PageCoherenceState} (h : old.isSome = true) :
    (afterWrite written old).isSome = true := by
  cases written with
  | none => exact h
  | some st => simpa [afterWrite] using h

theorem afterWrite_some {st : PageCoherenceState} {old : Option PageCoherenceState}
    (h : old.isSome = true) : afterWrite (some st) old = some st := by
  obtain ⟨o, rfl⟩ := Option.isSome_iff_exists.mp h
  rfl

/-- The page is shared since the fault's update exactly if it was, or the fault just updated it. -/
theorem shared_fault {v : UInt64} {h : List TurnEvent} {s : FetchState} {a : Turn} {pc : FaultPc}
    (ht : s.tasks[a.task]? = some (.fault pc)) (hp : Phase v h pc)
    (hentry : (coherenceOf s.ctx v).isSome = true)
    (hshared : Once (Ran (Task.marksInFlight v)) h → (coherenceOf s.ctx v = some .sharedRead ↔
      Since (Ran (Task.marksShared v)) (Ran (Task.marksInvalid v)) h))
    (hmarked : Once (Ran (Task.marksInFlight v)) (h ++ [event turnStep s a])) :
    afterWrite ((Task.fault pc).writes v) (coherenceOf s.ctx v) = some .sharedRead ↔
      Since (Ran (Task.marksShared v)) (Ran (Task.marksInvalid v))
        (h ++ [event turnStep s a]) := by
  rw [since_concat, ran_event_iff ht, ran_event_iff ht]
  rw [once_ran_concat ht] at hmarked
  cases pc with
  | markInFlight w o =>
    obtain ⟨rfl, -, -, hnot, -⟩ := hp
    have hsince : ¬ Since (Ran (Task.marksShared w)) (Ran (Task.marksInvalid w)) h :=
      fun hs => hnot hs.once
    simp [Task.writes, afterWrite_some hentry, hsince]
  | markShared w o =>
    obtain ⟨rfl, -⟩ := hp
    simp [Task.writes, afterWrite_some hentry]
  | markZeroShared w =>
    obtain ⟨-, hnot, -⟩ := hp
    exact absurd hmarked (by simp [hnot])
  | _ =>
    have hh := hshared (by simpa using hmarked)
    simpa [Task.writes, afterWrite] using hh

theorem shared_poller {v : UInt64} {h : List TurnEvent} {s : FetchState} {a : Turn} {pp : PollerPc}
    (ht : s.tasks[a.task]? = some (.poller pp)) (hentry : (coherenceOf s.ctx v).isSome = true)
    (hshared : coherenceOf s.ctx v = some .sharedRead ↔
      Since (Ran (Task.marksShared v)) (Ran (Task.marksInvalid v)) h) :
    afterWrite ((Task.poller pp).writes v) (coherenceOf s.ctx v) = some .sharedRead ↔
      Since (Ran (Task.marksShared v)) (Ran (Task.marksInvalid v))
        (h ++ [event turnStep s a]) := by
  rw [since_concat, ran_event_iff ht, ran_event_iff ht]
  cases pp with
  | markInvalid w o =>
    by_cases hw : v = w
    · subst hw
      simp [Task.writes, afterWrite_some hentry]
    · simpa [Task.writes, hw, Ne.symm hw, afterWrite] using hshared
  | _ => simpa [Task.writes, afterWrite] using hshared

theorem RaceInv.step {v : UInt64} {h : List TurnEvent} {s : FetchState} (hinv : RaceInv v h s)
    (a : Turn) : RaceInv v (h ++ [event turnStep s a]) (turnStep s a).2 := by
  obtain ⟨hpollers, ⟨pc, hhead, hphase⟩, hentry, hshared⟩ := hinv
  cases ht : s.tasks[a.task]? with
  | none =>
    have hran := fun P => not_ran_of_none ht P
    rw [turnStep_none ht]
    refine ⟨hpollers, ⟨pc, hhead, ?_⟩, hentry, fun hm => ?_⟩
    · exact phase_other (hran _) (hran _) (hran _) (fun hf => hran _ hf.2) hphase
    · rw [since_concat]
      simpa [hran] using hshared (by simpa [hran] using hm)
  | some t =>
    rw [turnStep_some ht]
    have hcoh := coherence_step s.ctx t a.ok v
    obtain ⟨c, tasks⟩ := s
    obtain ⟨rest, rfl⟩ : ∃ rest, tasks = .fault pc :: rest := by
      cases tasks with
      | nil => cases hhead
      | cons t rest => exact ⟨rest, by rw [Option.some.inj hhead]⟩
    obtain ⟨i, ok⟩ := a
    cases i with
    | zero =>
      obtain rfl : .fault pc = t := Option.some.inj ht
      refine ⟨hpollers, ⟨_, rfl, phase_step ht hphase⟩, ?_, fun hm => ?_⟩
      · rw [hcoh]
        exact afterWrite_isSome hentry
      · rw [hcoh]
        exact shared_fault ht hphase hentry hshared hm
    | succ j =>
      have hmem : t ∈ rest := List.mem_of_getElem? ht
      obtain ⟨pp, rfl⟩ := hpollers t hmem
      have hran := fun P => ran_event_iff ht P
      refine ⟨fun u hu => ?_, ⟨pc, rfl, ?_⟩, ?_, fun hm => ?_⟩
      · rcases List.mem_or_eq_of_mem_set hu with hu | rfl
        · exact hpollers u hu
        · exact ⟨_, rfl⟩
      · refine phase_other ?_ ?_ ?_ (fun hf => ?_) hphase
        · simp [hran]
        · simp [hran]
        · simp [hran]
        · simpa [hran] using hf.2
      · rw [hcoh]
        exact afterWrite_isSome hentry
      · rw [hcoh]
        exact shared_poller ht hentry (hshared (by simpa [hran] using hm))

/-- The fault updates the page to `SharedRead` at most once. -/
theorem RaceInv.first_share {v : UInt64} {h : List TurnEvent} {s : FetchState}
    (hinv : RaceInv v h s) {a : Turn} (hshare : Ran (Task.marksShared v) (event turnStep s a)) :
    ¬ Once (Ran (Task.marksShared v)) h := by
  obtain ⟨t, hran, ht⟩ := hshare
  obtain ⟨hpollers, ⟨pc, hhead, hphase⟩, -, -⟩ := hinv
  have hmem : t ∈ s.tasks := List.mem_of_getElem? hran
  obtain ⟨c, tasks⟩ := s
  cases tasks with
  | nil => cases hhead
  | cons u rest =>
    obtain rfl := Option.some.inj hhead
    rcases List.mem_cons.mp hmem with rfl | hrest
    · cases pc <;> try exact absurd ht id
      obtain ⟨-, -, hnot, -⟩ := hphase
      exact hnot
    · obtain ⟨pp, rfl⟩ := hpollers t hrest
      exact absurd ht id

/-- When the poller has marked the page invalid after the fault's read was issued and all is
over, the page is not shared exactly if the fetch failed, or the poller marked the page once more
after the fault had shared it. -/
theorem not_shared_iff_poller_last (s : FetchState) (v : UInt64) (hs : RemoteRace s v)
    (turns : List Turn) (hdone : ∀ t ∈ (exec turnStep s turns).tasks, t.isFinished = true)
    (hinvalid : After (Ran (Task.issuesRead v)) (Ran (Task.marksInvalid v))
      (trace turnStep s turns)) :
    coherenceOf (exec turnStep s turns).ctx v ≠ some .sharedRead ↔
      Once (FetchFails v) (trace turnStep s turns) ∨
        After (Ran (Task.marksShared v)) (Ran (Task.marksInvalid v))
          (trace turnStep s turns) := by
  obtain ⟨hinv, hfirst⟩ := history_forall (P := RaceInv v)
    (Q := fun past e => Ran (Task.marksShared v) e → ¬ Once (Ran (Task.marksShared v)) past)
    hs.inv (fun h t a ht _ => ⟨ht.step a, ht.first_share⟩) turns (along_true _ _ _)
  obtain ⟨-, ⟨pc, hhead, hphase⟩, -, hshared⟩ := hinv
  have hpc := hdone _ (List.mem_of_mem_head? hhead)
  obtain ⟨hmarked, hended⟩ : Once (Ran (Task.marksInFlight v)) (trace turnStep s turns) ∧
      (Once (Ran (Task.marksShared v)) (trace turnStep s turns) ↔
        ¬ Once (FetchFails v) (trace turnStep s turns)) := by
    cases pc with
    | finished r => exact hphase hinvalid.once
    | _ => cases hpc
  rw [Ne, hshared hmarked]
  constructor
  · intro hnot
    by_cases hfail : Once (FetchFails v) (trace turnStep s turns)
    · exact Or.inl hfail
    · exact Or.inr ((since_or_after (hended.mpr hfail)).resolve_left hnot)
  · rintro (hfail | hafter) hsince
    · exact hended.mp hsince.once hfail
    · exact not_after_of_since hfirst hsince hafter

/-- A fault on the page and a poller callback for it. -/
private def raceStart : FetchState :=
  ⟨remotePage, [.fault (.lookup 0x1000), .poller (.lookup 0x1000)]⟩

private theorem raceStart_race : RemoteRace raceStart 0x1000 where
  fault := rfl
  pollers := by
    intro t ht
    exact ⟨0x1000, List.mem_singleton.mp ht⟩
  remote := remotePage_ownedRemotely
  noPrefetched := rfl

/-- The fault up to the issue of its read, then the poller up to its update of the page. -/
private def readThenInvalidate : List Turn :=
  List.replicate 5 ⟨0, true⟩ ++ ⟨0, true⟩ :: [⟨1, true⟩] ++ [⟨1, true⟩]

private theorem readThenInvalidate_after (rest : List Turn) :
    After (Ran (Task.issuesRead 0x1000)) (Ran (Task.marksInvalid 0x1000))
      (trace turnStep raceStart (readThenInvalidate ++ rest)) :=
  after_of_calls turnStep raceStart (List.replicate 5 ⟨0, true⟩) ⟨0, true⟩ [⟨1, true⟩] ⟨1, true⟩
    rest ⟨_, rfl, rfl⟩ ⟨_, rfl, rfl⟩

/-- A read that fails leaves the page invalid. -/
theorem not_shared_iff_poller_last_failed :
    coherenceOf (exec turnStep raceStart (readThenInvalidate ++ [⟨1, true⟩, ⟨0, false⟩])).ctx
        0x1000 ≠ some .sharedRead ↔
      Once (FetchFails 0x1000)
          (trace turnStep raceStart (readThenInvalidate ++ [⟨1, true⟩, ⟨0, false⟩])) ∨
        After (Ran (Task.marksShared 0x1000)) (Ran (Task.marksInvalid 0x1000))
          (trace turnStep raceStart (readThenInvalidate ++ [⟨1, true⟩, ⟨0, false⟩])) := by
  apply not_shared_iff_poller_last raceStart 0x1000 raceStart_race
  · decide
  · exact readThenInvalidate_after _

/-- The poller runs between the issue of the read and its completion: the fault then shares the
page that has just been invalidated. -/
theorem not_shared_fails_during_fetch :
    ¬ ∀ (s : FetchState) (v : UInt64), RemoteRace s v → ∀ turns : List Turn,
      (∀ t ∈ (exec turnStep s turns).tasks, t.isFinished = true) →
      After (Ran (Task.issuesRead v)) (Ran (Task.marksInvalid v)) (trace turnStep s turns) →
        coherenceOf (exec turnStep s turns).ctx v ≠ some .sharedRead := by
  intro h
  exact h raceStart 0x1000 raceStart_race
    (readThenInvalidate ++ ⟨1, true⟩ :: List.replicate 4 ⟨0, true⟩) (by decide)
    (readThenInvalidate_after _) (by decide)

end Virthub.Klnk.Daemon
