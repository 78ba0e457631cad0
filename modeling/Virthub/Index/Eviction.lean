import Virthub.Index.HashIndex
import Mathlib.Data.List.Nodup
import Mathlib.Data.List.Perm.Basic

/-! The two-queue eviction policy. Each call is one step. The second queue is never filled, so the
policy evicts by recency alone; what its runs then guarantee is compared with how often and when
each key was touched. -/
namespace Virthub.Index
open Virthub.Lib

inductive EvictionError where
  | queueEmpty
  | keyNotFound
  deriving DecidableEq, Repr

structure TwoQEvictionPolicy where
  inQueue : List KvBlockKey
  lruQueue : List KvBlockKey
  deriving DecidableEq, Repr

namespace TwoQEvictionPolicy

def new : TwoQEvictionPolicy := ⟨[], []⟩

def touch (self : TwoQEvictionPolicy) (key : KvBlockKey) : TwoQEvictionPolicy :=
  if key ∈ self.lruQueue then { self with lruQueue := self.lruQueue.erase key ++ [key] }
  else if key ∈ self.inQueue then { self with inQueue := self.inQueue.erase key ++ [key] }
  else { self with inQueue := self.inQueue ++ [key] }

def evictNext (self : TwoQEvictionPolicy) : Except EvictionError KvBlockKey × TwoQEvictionPolicy :=
  match self.lruQueue with
  | key :: rest => (.ok key, { self with lruQueue := rest })
  | [] =>
    match self.inQueue with
    | key :: rest => (.ok key, { self with inQueue := rest })
    | [] => (.error .queueEmpty, self)

def remove (self : TwoQEvictionPolicy) (key : KvBlockKey) :
    Except EvictionError Unit × TwoQEvictionPolicy :=
  if key ∈ self.lruQueue then (.ok (), { self with lruQueue := self.lruQueue.erase key })
  else if key ∈ self.inQueue then (.ok (), { self with inQueue := self.inQueue.erase key })
  else (.error .keyNotFound, self)

end TwoQEvictionPolicy

inductive PolicyCall where
  | touch (key : KvBlockKey)
  | evictNext
  | remove (key : KvBlockKey)
  deriving DecidableEq, Repr

inductive PolicyAnswer where
  | touched
  | evicted (result : Except EvictionError KvBlockKey)
  | removed (result : Except EvictionError Unit)

def policyStep (policy : TwoQEvictionPolicy) : PolicyCall → PolicyAnswer × TwoQEvictionPolicy
  | .touch key => (.touched, policy.touch key)
  | .evictNext => (.evicted policy.evictNext.1, policy.evictNext.2)
  | .remove key => (.removed (policy.remove key).1, (policy.remove key).2)

abbrev PolicyEvent := Event TwoQEvictionPolicy PolicyCall PolicyAnswer

/-- How often each key was touched since it entered the policy, and when it was last touched; a count
of zero means that the policy does not track the key. -/
structure Usage where
  count : KvBlockKey → ℕ
  last : KvBlockKey → ℕ
  clock : ℕ

def Usage.touch (u : Usage) (key : KvBlockKey) : Usage :=
  ⟨Function.update u.count key (u.count key + 1), Function.update u.last key u.clock, u.clock + 1⟩

def Usage.forget (u : Usage) (key : KvBlockKey) : Usage :=
  { u with count := Function.update u.count key 0 }

def recordUsage (u : Usage) (e : PolicyEvent) : Usage :=
  match e.call, e.answer with
  | .touch key, _ => u.touch key
  | .evictNext, .evicted (.ok key) => u.forget key
  | .remove key, .removed (.ok ()) => u.forget key
  | _, _ => u

def usageOf (h : List PolicyEvent) : Usage := h.foldl recordUsage ⟨fun _ => 0, fun _ => 0, 0⟩

theorem usageOf_concat (h : List PolicyEvent) (e : PolicyEvent) :
    usageOf (h ++ [e]) = recordUsage (usageOf h) e := by
  simp [usageOf]

/-- What scan resistance asks of an eviction of `key`. -/
structure ResistsScan (u : Usage) (key : KvBlockKey) : Prop where
  once : 2 ≤ u.count key → ∀ other, u.count other ≠ 1
  leastRecent : 2 ≤ u.count key → ∀ other, 2 ≤ u.count other → u.last key ≤ u.last other

/-- The tracked key that was touched least recently. -/
def IsOldest (u : Usage) (key : KvBlockKey) : Prop :=
  0 < u.count key ∧ ∀ other, 0 < u.count other → u.last key ≤ u.last other

/-- The policy tracks the keys in use, in the order of their last touches, in its first queue. -/
structure Ordered (u : Usage) (policy : TwoQEvictionPolicy) : Prop where
  lru : policy.lruQueue = []
  mem : ∀ key, key ∈ policy.inQueue ↔ 0 < u.count key
  sorted : policy.inQueue.Pairwise fun a b => u.last a < u.last b
  below : ∀ key, 0 < u.count key → u.last key < u.clock

namespace Ordered

variable {u : Usage} {policy : TwoQEvictionPolicy}

theorem nodup (h : Ordered u policy) : policy.inQueue.Nodup :=
  h.sorted.imp fun hlt he => absurd hlt (by rw [he]; exact lt_irrefl _)

theorem touch (h : Ordered u policy) (key : KvBlockKey) :
    Ordered (u.touch key) (policy.touch key) := by
  have hq : policy.touch key = ⟨policy.inQueue.erase key ++ [key], []⟩ := by
    unfold TwoQEvictionPolicy.touch
    rw [h.lru]
    simp only [List.not_mem_nil, if_false]
    split_ifs with hm
    · rfl
    · rw [List.erase_of_not_mem hm]
  rw [hq]
  refine ⟨rfl, fun k => ?_, ?_, fun k hk => ?_⟩
  · rcases eq_or_ne k key with rfl | hne
    · simp [Usage.touch]
    · simp [Usage.touch, hne, List.mem_erase_of_ne hne, h.mem]
  · -- the touched key comes last, and its stamp is above all others
    refine List.pairwise_append.mpr ⟨?_, List.pairwise_singleton _ _, fun a ha b hb => ?_⟩
    · refine (h.sorted.sublist List.erase_sublist).imp_of_mem fun {a b} ha hb hab => ?_
      have ha' := (h.nodup.mem_erase_iff.mp ha).1
      have hb' := (h.nodup.mem_erase_iff.mp hb).1
      simpa [Usage.touch, ha', hb'] using hab
    · obtain ⟨hne, hm⟩ := h.nodup.mem_erase_iff.mp ha
      obtain rfl := List.mem_singleton.mp hb
      simpa [Usage.touch, hne] using h.below a ((h.mem a).mp hm)
  · rcases eq_or_ne k key with rfl | hne
    · simp [Usage.touch]
    · have hk : 0 < u.count k := by simpa [Usage.touch, hne] using hk
      have hlt := h.below k hk
      simp only [Usage.touch, Function.update_of_ne hne]
      omega

theorem forget (h : Ordered u policy) {key : KvBlockKey} {rest : List KvBlockKey}
    (hsub : rest.Sublist policy.inQueue)
    (hmem : ∀ k, k ∈ rest ↔ k ≠ key ∧ k ∈ policy.inQueue) :
    Ordered (u.forget key) ⟨rest, []⟩ := by
  refine ⟨rfl, fun k => ?_, h.sorted.sublist hsub, fun k hk => ?_⟩
  · rcases eq_or_ne k key with rfl | hne
    · simp [Usage.forget, hmem]
    · simp [Usage.forget, hmem, hne, h.mem]
  · rcases eq_or_ne k key with rfl | hne
    · simp [Usage.forget] at hk
    · exact h.below k (by simpa [Usage.forget, hne] using hk)

/-- An eviction takes the oldest key, or finds nothing to track. -/
theorem evictNext (h : Ordered u policy) :
    (policy.evictNext = (.error .queueEmpty, policy) ∧ ∀ key, u.count key = 0) ∨
      ∃ key, policy.evictNext.1 = .ok key ∧ IsOldest u key ∧
        Ordered (u.forget key) policy.evictNext.2 := by
  unfold TwoQEvictionPolicy.evictNext
  rw [h.lru]
  cases hq : policy.inQueue with
  | nil =>
    refine .inl ⟨rfl, fun key => ?_⟩
    have hnot : ¬ 0 < u.count key := by
      rw [← h.mem, hq]
      exact List.not_mem_nil
    omega
  | cons key rest =>
    have hnodup := hq ▸ h.nodup
    have hsorted := hq ▸ h.sorted
    refine .inr ⟨key, rfl, ⟨(h.mem key).mp (by simp [hq]), fun other ho => ?_⟩, ?_⟩
    · have hm : other ∈ key :: rest := hq ▸ (h.mem other).mpr ho
      rcases List.mem_cons.mp hm with rfl | hm
      · exact le_rfl
      · exact (List.rel_of_pairwise_cons hsorted hm).le
    · refine h.forget (hq ▸ List.sublist_cons_self key rest) fun k => ?_
      rw [hq, List.mem_cons]
      have hnot := (List.nodup_cons.mp hnodup).1
      constructor
      · intro hk
        exact ⟨fun he => hnot (he ▸ hk), .inr hk⟩
      · rintro ⟨hne, he | hk⟩
        · exact absurd he hne
        · exact hk

theorem remove (h : Ordered u policy) (key : KvBlockKey) :
    (policy.remove key = (.error .keyNotFound, policy) ∧ u.count key = 0) ∨
      (policy.remove key).1 = .ok () ∧ Ordered (u.forget key) (policy.remove key).2 := by
  unfold TwoQEvictionPolicy.remove
  simp only [h.lru, List.not_mem_nil, if_false]
  split_ifs with hm
  · exact .inr ⟨rfl, h.forget List.erase_sublist fun k => h.nodup.mem_erase_iff⟩
  · have hnot : ¬ 0 < u.count key := fun hc => hm ((h.mem key).mpr hc)
    exact .inl ⟨rfl, by omega⟩

theorem step (h : Ordered u policy) (call : PolicyCall) :
    Ordered (recordUsage u (event policyStep policy call)) (policyStep policy call).2 := by
  cases call with
  | touch key => exact h.touch key
  | evictNext =>
    rcases h.evictNext with ⟨he, -⟩ | ⟨key, ha, -, hpost⟩
    · simpa [event, policyStep, recordUsage, he] using h
    · simpa [event, policyStep, recordUsage, ha] using hpost
  | remove key =>
    rcases h.remove key with ⟨he, -⟩ | ⟨ha, hpost⟩
    · simpa [event, policyStep, recordUsage, he] using h
    · simpa [event, policyStep, recordUsage, ha] using hpost

end Ordered

theorem IsOldest.unique {u : Usage} {policy : TwoQEvictionPolicy} (h : Ordered u policy)
    {a b : KvBlockKey} (ha : IsOldest u a) (hb : IsOldest u b) : a = b := by
  have hstamps : (policy.inQueue.map u.last).Nodup :=
    List.pairwise_map.mpr (h.sorted.imp fun hlt => hlt.ne)
  have heq : u.last a = u.last b := le_antisymm (ha.2 b hb.1) (hb.2 a ha.1)
  exact List.inj_on_of_nodup_map hstamps ((h.mem a).mpr ha.1) ((h.mem b).mpr hb.1) heq

/-- An eviction after `h` that returns a key is scan resistant. -/
def EvictionResistsScan (h : List PolicyEvent) (policy : TwoQEvictionPolicy)
    (call : PolicyCall) : Prop :=
  ∀ key, (policyStep policy call).1 = .evicted (.ok key) → ResistsScan (usageOf h) key

/-- At an eviction the oldest key has been touched once, or no tracked key has. -/
def OldestTouchedOnce (h : List PolicyEvent) (_ : TwoQEvictionPolicy) (call : PolicyCall) : Prop :=
  call = .evictNext → ∀ key, IsOldest (usageOf h) key →
    (usageOf h).count key = 1 ∨ ∀ other, (usageOf h).count other ≠ 1

theorem resistsScan_iff {u : Usage} {key : KvBlockKey} (h : IsOldest u key) :
    ResistsScan u key ↔ u.count key = 1 ∨ ∀ other, u.count other ≠ 1 := by
  have hpos := h.1
  constructor
  · intro hr
    by_cases h1 : u.count key = 1
    · exact .inl h1
    · exact .inr (hr.once (by omega))
  · rintro hc
    refine ⟨fun h2 => hc.resolve_left (by omega), fun h2 other ho => h.2 other (by omega)⟩

/-- A run is scan resistant exactly if every eviction finds its oldest key touched once, or finds no
key touched once. -/
theorem evictions_resist_scan_iff (calls : List PolicyCall) :
    Along EvictionResistsScan policyStep .new calls ↔
      Along OldestTouchedOnce policyStep .new calls := by
  refine along_iff_along (I := fun h policy => Ordered (usageOf h) policy)
    ⟨rfl, by simp [TwoQEvictionPolicy.new, usageOf], .nil, by simp [usageOf]⟩ ?_ ?_ calls
  · intro h policy call ho _
    rw [usageOf_concat]
    exact ho.step call
  · intro h policy call ho
    cases call with
    | touch key =>
      constructor
      · intro _ he
        cases he
      · intro _ other he
        cases he
    | remove key =>
      constructor
      · intro _ he
        cases he
      · intro _ other he
        cases he
    | evictNext =>
      rcases ho.evictNext with ⟨he, hnone⟩ | ⟨oldest, ha, hold, -⟩
      · refine ⟨fun _ _ key hk => absurd hk.1 (by rw [hnone]; exact lt_irrefl 0), fun _ key hk => ?_⟩
        simp [policyStep, he] at hk
      · constructor
        · intro hr _ key hk
          obtain rfl := hk.unique ho hold
          exact (resistsScan_iff hk).mp (hr key (by rw [policyStep, ha]))
        · intro hc key hk
          obtain rfl : oldest = key := by simpa [policyStep, ha] using hk
          exact (resistsScan_iff hold).mpr (hc rfl oldest hold)

def scannedKey : KvBlockKey := ⟨1, 101⟩

def hotKey : KvBlockKey := ⟨1, 100⟩

/-- A key touched twice goes before one that was touched once after it. -/
theorem eviction_of_hotKey :
    ¬ Along EvictionResistsScan policyStep .new
      [.touch hotKey, .touch hotKey, .touch scannedKey, .evictNext] := by
  intro h
  have hr := h [.touch hotKey, .touch hotKey, .touch scannedKey] .evictNext [] rfl hotKey rfl
  exact hr.once (by decide) scannedKey (by decide)

end Virthub.Index
