import Virthub.Connectors.LmCache
import Mathlib.Logic.Function.Basic

/-! The connector against a map from keys to payloads, which successful puts set and removes clear. A put that
fails has stored its payload all the same, and a remove fails if another chunk took the region with it. -/
namespace Virthub.Connectors
open Virthub.Index Virthub.Klnk.Rma Virthub.Lib Virthub.Precision Virthub.Store

def applyEvent (m : KvBlockKey → Option (List UInt8))
    (e : Event VirthubLmCacheConnector LmCacheCall LmCacheAnswer) : KvBlockKey → Option (List UInt8) :=
  match e.call, e.answer with
  | .putChunk key _ _ payload _ _ _ _, .stored (.ok _) => Function.update m key (some payload)
  | .removeChunk key, _ => Function.update m key none
  | _, _ => m

/-- The payload of the last successful put of each key that no remove of the key follows. -/
def storedPayloads (h : List (Event VirthubLmCacheConnector LmCacheCall LmCacheAnswer)) :
    KvBlockKey → Option (List UInt8) := h.foldl applyEvent fun _ => none

theorem storedPayloads_concat (h : List (Event VirthubLmCacheConnector LmCacheCall LmCacheAnswer))
    (e : Event VirthubLmCacheConnector LmCacheCall LmCacheAnswer) :
    storedPayloads (h ++ [e]) = applyEvent (storedPayloads h) e := by
  rw [storedPayloads, List.foldl_append]
  rfl

def fetch (m : KvBlockKey → Option (List UInt8)) (key : KvBlockKey) :
    Except LmCacheConnectorError (List UInt8) :=
  match m key with
  | some payload => .ok payload
  | none => .error (.chunkNotFound key)

/-- The answer to one call is one of the map: a put that fails leaves every payload, a get returns what is
stored, and a remove of a stored key succeeds and leaves the other keys. -/
def AnswersFor (m : KvBlockKey → Option (List UInt8))
    (e : Event VirthubLmCacheConnector LmCacheCall LmCacheAnswer) : Prop :=
  match e.call, e.answer with
  | .putChunk .., .stored (.error _) => ∀ k, e.post.getChunk k = e.pre.getChunk k
  | .getChunk key, .fetched answer => answer = fetch m key
  | .removeChunk key, .removed answer =>
    (m key).isSome → answer = .ok () ∧ ∀ k, k ≠ key → e.post.getChunk k = e.pre.getChunk k
  | _, _ => True

/-- The payloads are those of the map, and so was the last answer. -/
def RefinesStore (h : List (Event VirthubLmCacheConnector LmCacheCall LmCacheAnswer))
    (c : VirthubLmCacheConnector) : Prop :=
  (∀ k, c.getChunk k = fetch (storedPayloads h) k) ∧
    ∀ before e, h = before ++ [e] → AnswersFor (storedPayloads before) e

namespace VirthubLmCacheConnector

theorem getChunk_eq_fetch_iff {c : VirthubLmCacheConnector} {m : KvBlockKey → Option (List UInt8)}
    {key : KvBlockKey} : c.getChunk key = fetch m key ↔ c.localStore.lookup key = m key := by
  unfold getChunk fetch
  cases c.localStore.lookup key <;> cases m key <;> simp

theorem getChunk_eq_iff {c d : VirthubLmCacheConnector} {key : KvBlockKey} :
    c.getChunk key = d.getChunk key ↔ c.localStore.lookup key = d.localStore.lookup key :=
  getChunk_eq_fetch_iff (m := d.localStore.lookup)

/-- The call keeps to the map: a put that fails is one of the payload that is stored, and a chunk that is
removed has a live region or none. -/
def KeepsStore (self : VirthubLmCacheConnector) : LmCacheCall → Prop
  | .putChunk key _ gpuDeviceId payload vaddr len _ _ =>
    ∀ e, (self.rmaEngine.registerMemoryRegion vaddr len (self.gpuOpt gpuDeviceId)).1 = .error e →
      self.localStore.lookup key = some payload
  | .getChunk _ => True
  | .removeChunk key =>
    (self.localStore.lookup key).isSome → ∀ region, self.registeredChunks.lookup key = some region →
      self.rmaEngine.Live region.rkey

theorem coherent_step {self : VirthubLmCacheConnector} (h : self.rmaEngine.Coherent) (call : LmCacheCall) :
    (self.step call).2.rmaEngine.Coherent := by
  cases call with
  | putChunk key tier gpuDeviceId payload vaddr len precisionPolicy sidecar =>
    exact (putChunk_spec h key tier gpuDeviceId payload vaddr len precisionPolicy sidecar).1
  | getChunk key => exact h
  | removeChunk key => exact (removeChunk_spec h key).1

theorem putChunk_iff {self : VirthubLmCacheConnector} {m : KvBlockKey → Option (List UInt8)}
    (hm : ∀ k, self.localStore.lookup k = m k) (h : self.rmaEngine.Coherent) (key : KvBlockKey)
    (tier : StorageTier) (gpuDeviceId : UInt32) (payload : List UInt8) (vaddr len : UInt64)
    (precisionPolicy : Option PackedBlockPolicy) (sidecar : Option PspKvSidecarDescriptor) :
    let call := LmCacheCall.putChunk key tier gpuDeviceId payload vaddr len precisionPolicy sidecar
    (∀ k, (self.step call).2.getChunk k = fetch (applyEvent m (event step self call)) k) ∧
        AnswersFor m (event step self call) ↔ self.KeepsStore call := by
  intro call
  have hspec := putChunk_spec h key tier gpuDeviceId payload vaddr len precisionPolicy sidecar
  dsimp only at hspec
  rcases hresult : self.putChunkWithPolicy key tier gpuDeviceId payload vaddr len precisionPolicy sidecar
    with ⟨answer, c⟩
  rw [hresult] at hspec
  have hstep : self.step call = (.stored answer, c) := by
    simp only [call, step, hresult]
    rfl
  rw [event_eq hstep, hstep]
  obtain ⟨-, hstore, ⟨e, he, rfl⟩ | ⟨⟨region, hr⟩, chunk, rfl⟩⟩ := hspec
  · constructor
    · intro ⟨_, hanswer⟩ _ _
      have hkey := getChunk_eq_iff.mp (hanswer key)
      rw [hstore, AList.lookup_insert] at hkey
      exact hkey.symm
    · intro hkeeps
      have hsame : ∀ k, c.localStore.lookup k = self.localStore.lookup k := by
        intro k
        rw [hstore]
        by_cases hk : k = key
        · rw [hk, AList.lookup_insert, hkeeps e he]
        · rw [AList.lookup_insert_ne hk]
      exact ⟨fun k => getChunk_eq_fetch_iff.mpr ((hsame k).trans (hm k)),
        fun k => getChunk_eq_iff.mpr (hsame k)⟩
  · refine iff_of_true ⟨fun k => getChunk_eq_fetch_iff.mpr ?_, trivial⟩ fun e he => ?_
    · dsimp only [applyEvent, call]
      rw [hstore]
      by_cases hk : k = key
      · rw [hk, AList.lookup_insert, Function.update_self]
      · rw [AList.lookup_insert_ne hk, Function.update_of_ne hk, hm]
    · rw [hr] at he
      cases he

theorem removeChunk_iff {self : VirthubLmCacheConnector} {m : KvBlockKey → Option (List UInt8)}
    (hm : ∀ k, self.localStore.lookup k = m k) (h : self.rmaEngine.Coherent) (key : KvBlockKey) :
    let call := LmCacheCall.removeChunk key
    (∀ k, (self.step call).2.getChunk k = fetch (applyEvent m (event step self call)) k) ∧
        AnswersFor m (event step self call) ↔ self.KeepsStore call := by
  obtain ⟨-, hstore, hok⟩ := removeChunk_spec h key
  have hothers : ∀ k, k ≠ key → (self.removeChunk key).2.getChunk k = self.getChunk k := by
    intro k hk
    rw [getChunk_eq_iff, hstore, AList.lookup_erase_ne hk]
  have hpayloads : ∀ k, (self.removeChunk key).2.getChunk k = fetch (Function.update m key none) k := by
    intro k
    rw [getChunk_eq_fetch_iff, hstore]
    by_cases hk : k = key
    · rw [hk, AList.lookup_erase, Function.update_self]
    · rw [AList.lookup_erase_ne hk, Function.update_of_ne hk, hm]
  -- only the answer can go wrong
  refine (and_iff_right hpayloads).trans ?_
  dsimp only [KeepsStore]
  rw [hm, ← hok]
  exact imp_congr_right fun _ => and_iff_left hothers

/-- One call answers for the map and keeps its payloads exactly if it keeps to the map. -/
theorem step_iff {self : VirthubLmCacheConnector} {m : KvBlockKey → Option (List UInt8)}
    (hm : ∀ k, self.localStore.lookup k = m k) (h : self.rmaEngine.Coherent) (call : LmCacheCall) :
    (∀ k, (self.step call).2.getChunk k = fetch (applyEvent m (event step self call)) k) ∧
        AnswersFor m (event step self call) ↔ self.KeepsStore call := by
  cases call with
  | putChunk key tier gpuDeviceId payload vaddr len precisionPolicy sidecar =>
    exact putChunk_iff hm h key tier gpuDeviceId payload vaddr len precisionPolicy sidecar
  | getChunk key =>
    exact iff_of_true
      ⟨fun k => getChunk_eq_fetch_iff.mpr (hm k), getChunk_eq_fetch_iff.mpr (hm key)⟩ trivial
  | removeChunk key => exact removeChunk_iff hm h key

theorem refinesStore_concat_iff (h : List (Event VirthubLmCacheConnector LmCacheCall LmCacheAnswer))
    (e : Event VirthubLmCacheConnector LmCacheCall LmCacheAnswer) (c : VirthubLmCacheConnector) :
    RefinesStore (h ++ [e]) c ↔
      (∀ k, c.getChunk k = fetch (applyEvent (storedPayloads h) e) k) ∧
        AnswersFor (storedPayloads h) e := by
  unfold RefinesStore
  rw [storedPayloads_concat]
  refine and_congr_right fun _ => ⟨fun hlast => hlast h e rfl, fun hanswer before e' heq => ?_⟩
  obtain ⟨rfl, hlast⟩ := List.append_inj' heq rfl
  cases hlast
  exact hanswer

/-- The connector is a map from keys to payloads throughout a run exactly if every call of it keeps to the
map. -/
theorem refinesStore_run_iff (enableGdr : Bool) (calls : List LmCacheCall) :
    (∀ as, as <+: calls →
      RefinesStore (trace step (new enableGdr) as) (exec step (new enableGdr) as)) ↔
      Along (fun _ => KeepsStore) step (new enableGdr) calls := by
  have hstep : ∀ h (c : VirthubLmCacheConnector) call, RefinesStore h c → c.rmaEngine.Coherent →
      (RefinesStore (h ++ [event step c call]) (c.step call).2 ↔ c.KeepsStore call) := by
    intro h c call hrefines hcoherent
    rw [refinesStore_concat_iff]
    exact step_iff (fun k => getChunk_eq_fetch_iff.mp (hrefines.1 k)) hcoherent call
  refine forall_prefix_iff_along_history (I := fun h c => RefinesStore h c ∧ c.rmaEngine.Coherent)
    (P := RefinesStore) ?_ ?_ ?_ ?_ calls (along_true _ _ _)
  · refine ⟨⟨fun _ => rfl, fun before e heq => ?_⟩, RmaTransportEngine.coherent_autoDetect⟩
    simp at heq
  · exact fun _ _ hinv => hinv.1
  · exact fun h c call ⟨hrefines, hcoherent⟩ _ hkeeps =>
      ⟨(hstep h c call hrefines hcoherent).mpr hkeeps, coherent_step hcoherent call⟩
  · exact fun h c call ⟨hrefines, hcoherent⟩ _ hnext => (hstep h c call hrefines hcoherent).mp hnext

/-- A put with a region of no bytes fails, and its payload is stored. -/
theorem refinesStore_fails_on_empty_region :
    ¬ ∀ (enableGdr : Bool) (calls : List LmCacheCall),
      RefinesStore (trace step (new enableGdr) calls) (exec step (new enableGdr) calls) := by
  intro h
  have hget := (h false [.putChunk ⟨1, 100⟩ .dram 0 [0xab] 0x1000 0 none none]).1 ⟨1, 100⟩
  exact absurd hget (by decide)

end VirthubLmCacheConnector

end Virthub.Connectors
