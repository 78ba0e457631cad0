import Virthub.Index.HashIndex.Refinement

/-! Concurrent insertions. The load is checked before the write lock is taken, so that several callers may
pass the check for one free place. -/
namespace Virthub.Index
open Virthub.Lib
open Virthub.Lib.RobinHood

/-- The index, with the calls of `insert` that have passed the check and wait for the lock. -/
structure SharedIndex where
  index : ConcurrentHashIndex
  pending : ℕ → Option (KvBlockKey × IndexSlotValue)

inductive SharedIndexCall where
  | checkCapacity (caller : ℕ) (key : KvBlockKey) (value : IndexSlotValue)
  | insertLocked (caller : ℕ)
  | get (key : KvBlockKey)

namespace SharedIndex

def start (index : ConcurrentHashIndex) : SharedIndex := ⟨index, fun _ => none⟩

/-- A caller goes on to the lock if the check has passed. -/
def afterCheck (self : SharedIndex) (caller : ℕ) (key : KvBlockKey) (value : IndexSlotValue) :
    Except HashIndexError Unit → Option IndexAnswer × SharedIndex
  | .error e => (some (.inserted (.error e)), self)
  | .ok () => (none, { self with pending := Function.update self.pending caller (some (key, value)) })

def step (hash : KvBlockKey → ℕ) (self : SharedIndex) : SharedIndexCall → Option IndexAnswer × SharedIndex
  | .checkCapacity caller key value =>
    match self.pending caller with
    | some _ => (none, self)
    | none => self.afterCheck caller key value self.index.checkCapacity
  | .insertLocked caller =>
    match self.pending caller with
    | none => (none, self)
    | some (key, value) =>
      let updated := answered self.index .inserted (self.index.insertLocked hash key value)
      (updated.1, ⟨updated.2, Function.update self.pending caller none⟩)
  | .get key => ((self.index.get hash key).map .got, self)

/-- An idle caller whose two steps follow each other has made one call of `insert`. -/
theorem check_insert_eq (hash : KvBlockKey → ℕ) (self : SharedIndex) (caller : ℕ) (key : KvBlockKey)
    (value : IndexSlotValue) (h : self.pending caller = none) :
    (exec (step hash) self [.checkCapacity caller key value, .insertLocked caller]).index =
      (Index.step hash self.index (.insert key value)).2 := by
  have hcheck : step hash self (.checkCapacity caller key value) =
      self.afterCheck caller key value self.index.checkCapacity := by
    rw [step, h]
  rw [exec_cons, exec_cons, exec_nil, hcheck, Index.step]
  unfold ConcurrentHashIndex.insert
  generalize self.index.checkCapacity = check
  cases check with
  | error e => simp only [step, afterCheck, h, answered]
  | ok u => simp only [step, afterCheck, Function.update_self]

end SharedIndex

abbrev SharedIndexEvent := Event SharedIndex SharedIndexCall (Option IndexAnswer)

def InsertsOk (k : KvBlockKey) (e : SharedIndexEvent) : Prop :=
  ∃ caller v, e.call = .insertLocked caller ∧ e.pre.pending caller = some (k, v) ∧
    e.answer = some (.inserted (.ok ()))

/-- A key whose insertion has ended with `Ok` before is found. -/
def FindsInserted (past : List SharedIndexEvent) (e : SharedIndexEvent) : Prop :=
  ∀ k, e.call = .get k → (∃ f ∈ past, InsertsOk k f) → ∃ v, e.answer = some (.got (.ok v))

/-- The stored keys are within the limit, and every lookup has found the keys that were inserted. -/
structure LosesNothing (h : List SharedIndexEvent) (s : SharedIndex) : Prop where
  within : s.index.iter.length ≤ 3 * s.index.capacity / 4 + 1
  finds : ∀ past e rest, h = past ++ e :: rest → FindsInserted past e

/-- A locked update that adds a key does so in a table that would still pass the check. -/
def AddsBelowLimit (hash : KvBlockKey → ℕ) (s : SharedIndex) : SharedIndexCall → Prop
  | .insertLocked caller => ∀ k v index, s.pending caller = some (k, v) →
    s.index.insertLocked hash k v = some (.ok (), index) → (∀ w, (k, w) ∉ s.index.iter) →
      s.index.overloaded = false
  | _ => True

variable {hash : KvBlockKey → ℕ} {n : ℕ} {m : KvBlockKey → Option IndexSlotValue}

theorem overloaded_eq_false_iff {index : ConcurrentHashIndex} (h : Holds hash m index n)
    (hn : n < 2 ^ 53) : index.overloaded = false ↔ index.count ≤ 3 * n / 4 := by
  have hfree := h.free
  unfold ConcurrentHashIndex.overloaded
  rw [h.sound.capacity, natToF64_of_lt (by omega), natToF64_of_lt (by omega), decide_eq_false_iff_not]
  omega

theorem count_of_holds {index index' : ConcurrentHashIndex} {k : KvBlockKey} {v : IndexSlotValue}
    (h : Holds hash m index n) (h' : Holds hash (Function.update m k (some v)) index' n) :
    index'.count = index.count + if m k = none then 1 else 0 := by
  obtain ⟨keys, hkeys, hlen⟩ := h.len
  obtain ⟨keys', hkeys', hlen'⟩ := h'.len
  have hinsert : keys' = insert k keys := by
    ext l
    rw [hkeys', Finset.mem_insert, hkeys]
    by_cases hl : l = k
    · simp [hl]
    · simp [hl]
  unfold ConcurrentHashIndex.len at hlen hlen'
  rw [hlen', hlen, hinsert]
  by_cases hk : m k = none
  · rw [if_pos hk, Finset.card_insert_of_notMem]
    rw [hkeys, hk]
    decide
  · rw [if_neg hk, Finset.insert_eq_of_mem]
    · rfl
    · rw [hkeys]
      exact Option.isSome_iff_ne_none.mpr hk

theorem not_stored_iff {index : ConcurrentHashIndex} (h : Holds hash m index n) {k : KvBlockKey} :
    (∀ w, (k, w) ∉ index.iter) ↔ m k = none := by
  simp only [mem_iter_iff h.sound, h.stores]
  exact Option.eq_none_iff_forall_ne_some.symm

/-- The invariant of a run: the index holds a map with all keys that were inserted, and its count is
within the limit. -/
structure Keeps (hash : KvBlockKey → ℕ) (n : ℕ) (m : KvBlockKey → Option IndexSlotValue)
    (h : List SharedIndexEvent) (s : SharedIndex) : Prop where
  holds : Holds hash m s.index n
  within : s.index.count ≤ 3 * n / 4 + 1
  inserted : ∀ f ∈ h, ∀ k, InsertsOk k f → (m k).isSome
  finds : ∀ past e rest, h = past ++ e :: rest → FindsInserted past e

theorem Keeps.losesNothing {h : List SharedIndexEvent} {s : SharedIndex} (hk : Keeps hash n m h s) :
    LosesNothing h s := by
  refine ⟨?_, hk.finds⟩
  rw [length_iter hk.holds.sound, hk.holds.sound.capacity]
  exact hk.within

theorem Keeps.room {h : List SharedIndexEvent} {s : SharedIndex} (hk : Keeps hash n m h s) :
    s.index.count + 1 < n := by
  have hmin := hk.holds.size.min
  have hwithin := hk.within
  omega

theorem Keeps.insertLocked {h : List SharedIndexEvent} {s : SharedIndex} (hk : Keeps hash n m h s)
    {caller : ℕ} {k : KvBlockKey} {v : IndexSlotValue} (hp : s.pending caller = some (k, v)) :
    (∃ e, s.step hash (.insertLocked caller) =
        (some (.inserted (.error e)), ⟨s.index, Function.update s.pending caller none⟩)) ∨
      ∃ index, s.index.insertLocked hash k v = some (.ok (), index) ∧
        s.step hash (.insertLocked caller) =
          (some (.inserted (.ok ())), ⟨index, Function.update s.pending caller none⟩) ∧
        Holds hash (Function.update m k (some v)) index n := by
  dsimp only [SharedIndex.step]
  rw [hp]
  dsimp only
  rcases hk.holds.insertLocked hk.room k v with hrefused | ⟨index, hstored, hholds⟩
  · rw [hrefused]
    exact .inl ⟨_, rfl⟩
  · rw [hstored]
    exact .inr ⟨index, rfl, rfl, hholds⟩

theorem Keeps.quiet {h : List SharedIndexEvent} {s : SharedIndex} (hk : Keeps hash n m h s)
    {call : SharedIndexCall} (hindex : (s.step hash call).2.index = s.index)
    (hanswer : ∀ k, ¬ InsertsOk k (event (SharedIndex.step hash) s call))
    (hfinds : FindsInserted h (event (SharedIndex.step hash) s call)) :
    Keeps hash n m (h ++ [event (SharedIndex.step hash) s call]) (s.step hash call).2 := by
  refine ⟨?_, ?_, ?_, ?_⟩
  · rw [hindex]
    exact hk.holds
  · rw [hindex]
    exact hk.within
  · intro f hf k hok
    rcases List.mem_append.mp hf with hf | hf
    · exact hk.inserted f hf k hok
    · rw [List.mem_singleton.mp hf] at hok
      exact absurd hok (hanswer k)
  · intro past e rest heq
    rcases concat_eq_split.mp heq with ⟨rfl, rfl, -⟩ | ⟨rest', -, hh⟩
    · exact hfinds
    · exact hk.finds past e rest' hh

theorem Keeps.checkCapacity {h : List SharedIndexEvent} {s : SharedIndex} (hk : Keeps hash n m h s)
    (caller : ℕ) (key : KvBlockKey) (value : IndexSlotValue) :
    Keeps hash n m (h ++ [event (SharedIndex.step hash) s (.checkCapacity caller key value)])
      (s.step hash (.checkCapacity caller key value)).2 := by
  refine hk.quiet ?_ ?_ ?_
  · dsimp only [SharedIndex.step]
    cases s.pending caller with
    | some p => rfl
    | none =>
      dsimp only
      generalize s.index.checkCapacity = check
      cases check <;> rfl
  · rintro k ⟨caller', v, hcall, -⟩
    cases hcall
  · intro k hcall
    cases hcall

theorem Keeps.get {h : List SharedIndexEvent} {s : SharedIndex} (hk : Keeps hash n m h s) (key : KvBlockKey) :
    Keeps hash n m (h ++ [event (SharedIndex.step hash) s (.get key)]) (s.step hash (.get key)).2 := by
  refine hk.quiet rfl ?_ ?_
  · rintro k ⟨caller, v, hcall, -⟩
    cases hcall
  · rintro k hcall ⟨f, hf, hok⟩
    cases hcall
    obtain ⟨v, hv⟩ := Option.isSome_iff_exists.mp (hk.inserted f hf key hok)
    refine ⟨v, ?_⟩
    dsimp only [event, SharedIndex.step]
    rw [hk.holds.get, resultOf, hv]
    rfl

theorem Keeps.update {h : List SharedIndexEvent} {s : SharedIndex} (hk : Keeps hash n m h s)
    (hn : n < 2 ^ 53) (caller : ℕ) (hc : AddsBelowLimit hash s (.insertLocked caller)) :
    ∃ m', Keeps hash n m' (h ++ [event (SharedIndex.step hash) s (.insertLocked caller)])
      (s.step hash (.insertLocked caller)).2 := by
  cases hp : s.pending caller with
  | none =>
    have hstep : s.step hash (.insertLocked caller) = (none, s) := by rw [SharedIndex.step, hp]
    refine ⟨m, hk.quiet (by rw [hstep]) ?_ fun k hcall => (by cases hcall)⟩
    rintro k ⟨caller', v, hcall, hp', -⟩
    cases hcall
    rw [event, hp] at hp'
    cases hp'
  | some pair =>
    obtain ⟨k, v⟩ := pair
    rcases hk.insertLocked hp with ⟨e, hstep⟩ | ⟨index, hlocked, hstep, hholds⟩
    · refine ⟨m, hk.quiet (by rw [hstep]) ?_ fun k hcall => (by cases hcall)⟩
      rintro k ⟨caller', v, -, -, hanswer⟩
      rw [event_eq hstep] at hanswer
      cases hanswer
    · have hcount := count_of_holds hk.holds hholds
      have hwithin := hk.within
      rw [event_eq hstep, hstep]
      refine ⟨_, hholds, ?_, ?_, ?_⟩
      · dsimp only
        by_cases hnone : m k = none
        · have hload := hc k v index hp hlocked ((not_stored_iff hk.holds).mpr hnone)
          rw [overloaded_eq_false_iff hk.holds hn] at hload
          rw [if_pos hnone] at hcount
          omega
        · rw [if_neg hnone] at hcount
          omega
      · intro f hf l hok
        by_cases hl : l = k
        · rw [hl, Function.update_self]
          rfl
        · rw [Function.update_of_ne hl]
          rcases List.mem_append.mp hf with hf | hf
          · exact hk.inserted f hf l hok
          · -- the only key that the event inserts is its own
            rw [List.mem_singleton.mp hf] at hok
            obtain ⟨caller', v', hcall, hp', -⟩ := hok
            cases hcall
            rw [hp] at hp'
            cases hp'
            exact absurd rfl hl
      · intro past e rest heq
        rcases concat_eq_split.mp heq with ⟨rfl, rfl, -⟩ | ⟨rest', -, hh⟩
        · intro l hcall
          cases hcall
        · exact hk.finds past e rest' hh

theorem Keeps.addsBelowLimit {h : List SharedIndexEvent} {s : SharedIndex} (hk : Keeps hash n m h s)
    (hn : n < 2 ^ 53) (call : SharedIndexCall)
    (hwithin : (s.step hash call).2.index.iter.length ≤ 3 * (s.step hash call).2.index.capacity / 4 + 1) :
    AddsBelowLimit hash s call := by
  cases call with
  | checkCapacity caller key value => trivial
  | get key => trivial
  | insertLocked caller =>
    intro k v index hp hlocked hnew
    rw [overloaded_eq_false_iff hk.holds hn]
    rcases hk.insertLocked hp with ⟨e, hstep⟩ | ⟨index', hlocked', hstep, hholds⟩
    · -- a refusal is no success
      dsimp only [SharedIndex.step] at hstep
      rw [hp] at hstep
      dsimp only at hstep
      rw [hlocked] at hstep
      cases hstep
    · have hcount := count_of_holds hk.holds hholds
      rw [if_pos ((not_stored_iff hk.holds).mp hnew)] at hcount
      rw [hstep] at hwithin
      dsimp only at hwithin
      rw [length_iter hholds.sound, hholds.sound.capacity] at hwithin
      unfold ConcurrentHashIndex.len at hwithin
      omega

/-- The stored keys stay within the limit and are found exactly if each locked update that adds a key does so
in a table that would still pass the check. -/
theorem losesNothing_iff_addsBelowLimit (hash : KvBlockKey → ℕ) (capacity : ℕ)
    (index : ConcurrentHashIndex) (hnew : ConcurrentHashIndex.new capacity = .ok index)
    (hcapacity : index.capacity < 2 ^ 53) (calls : List SharedIndexCall) :
    (∀ as, as <+: calls → LosesNothing (trace (SharedIndex.step hash) (.start index) as)
        (exec (SharedIndex.step hash) (.start index) as)) ↔
      Along (fun _ => AddsBelowLimit hash) (SharedIndex.step hash) (.start index) calls := by
  cases hnew
  refine forall_prefix_iff_along_history
    (I := fun h s => ∃ m, Keeps hash (max (Nat.nextPowerOfTwo capacity % 2 ^ 64) 16) m h s)
    ?_ ?_ ?_ ?_ calls (along_true _ _ _)
  · refine ⟨fun _ => none, Holds.new hash capacity, Nat.zero_le _, ?_, ?_⟩
    · intro f hf
      cases hf
    · intro past e rest heq
      simp at heq
  · rintro h s ⟨m, hk⟩
    exact hk.losesNothing
  · rintro h s call ⟨m, hk⟩ - hc
    cases call with
    | checkCapacity caller key value => exact ⟨m, hk.checkCapacity caller key value⟩
    | insertLocked caller => exact hk.update hcapacity caller hc
    | get key => exact ⟨m, hk.get key⟩
  · rintro h s call ⟨m, hk⟩ - hp
    exact hk.addsBelowLimit hcapacity call hp.within

private def sixteen : ConcurrentHashIndex := ⟨List.replicate 16 HashIndexBucket.empty, 16, 15, 0⟩

private def insertAlone (blockId : ℕ) : List SharedIndexCall :=
  [.checkCapacity 0 ⟨1, blockId.toUInt64⟩ ⟨0, 0, 0⟩, .insertLocked 0]

/-- Two callers check one after the other and insert the other way round, with lookups in between. -/
theorem losesNothing_iff_addsBelowLimit_two_callers :
    ConcurrentHashIndex.new 16 = .ok sixteen ∧
      ∀ as, as <+: [.checkCapacity 0 ⟨1, 1⟩ ⟨0, 0, 0⟩, .checkCapacity 1 ⟨1, 2⟩ ⟨0, 64, 0⟩, .insertLocked 1,
          .get ⟨1, 2⟩, .insertLocked 0, .get ⟨1, 1⟩] →
        LosesNothing (trace (SharedIndex.step ConcurrentHashIndex.hashKey) (.start sixteen) as)
          (exec (SharedIndex.step ConcurrentHashIndex.hashKey) (.start sixteen) as) := by
  have hnew : ConcurrentHashIndex.new 16 = .ok sixteen := by decide +kernel
  refine ⟨hnew, (losesNothing_iff_addsBelowLimit _ 16 sixteen hnew (by decide) _).mpr ?_⟩
  simp only [along_cons, along_nil, and_true]
  refine ⟨trivial, trivial, ?_, trivial, ?_, trivial⟩
  · intro k v index _ _ _
    decide +kernel
  · intro k v index _ _ _
    decide +kernel

/-- Two callers that pass the check with twelve keys stored leave fourteen of them in sixteen buckets. -/
theorem two_checks_pass_together :
    ConcurrentHashIndex.new 16 = .ok sixteen ∧
      ¬ LosesNothing
        (trace (SharedIndex.step ConcurrentHashIndex.hashKey) (.start sixteen)
          ((List.range 12).flatMap insertAlone ++ [.checkCapacity 0 ⟨1, 12⟩ ⟨0, 0, 0⟩,
            .checkCapacity 1 ⟨1, 13⟩ ⟨0, 0, 0⟩, .insertLocked 0, .insertLocked 1]))
        (exec (SharedIndex.step ConcurrentHashIndex.hashKey) (.start sixteen)
          ((List.range 12).flatMap insertAlone ++ [.checkCapacity 0 ⟨1, 12⟩ ⟨0, 0, 0⟩,
            .checkCapacity 1 ⟨1, 13⟩ ⟨0, 0, 0⟩, .insertLocked 0, .insertLocked 1])) := by
  refine ⟨by decide +kernel, fun h => ?_⟩
  exact absurd h.within (by decide +kernel)

end Virthub.Index
