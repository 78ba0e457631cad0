import Virthub.Index.HashIndex.Insert
import Virthub.Index.HashIndex.Remove
import Mathlib.Data.Finset.Card

/-! The index refines a finite map: every answer of every run is the one that the map of the
successful insertions and removals so far gives. -/
namespace Virthub.Index
open Virthub.Lib
open Virthub.Lib.RobinHood

abbrev IndexEvent := Event ConcurrentHashIndex IndexCall (Option IndexAnswer)

/-- The map after one more event: an insertion and a removal count when they return `Ok`. -/
def record (m : KvBlockKey → Option IndexSlotValue) (e : IndexEvent) :
    KvBlockKey → Option IndexSlotValue :=
  match e.call, e.answer with
  | .insert k v, some (.inserted (.ok ())) => Function.update m k (some v)
  | .remove k, some (.removed (.ok _)) => Function.update m k none
  | _, _ => m

/-- The keys present after a history, with their values. -/
def present (h : List IndexEvent) : KvBlockKey → Option IndexSlotValue :=
  h.foldl record fun _ => none

/-- The result of looking a key up in the map. -/
def resultOf (m : KvBlockKey → Option IndexSlotValue) (k : KvBlockKey) :
    Except HashIndexError IndexSlotValue :=
  match m k with
  | some v => .ok v
  | none => .error (.keyNotFound k)

/-- What a call must answer when the map `m` is present. -/
def Correct (m : KvBlockKey → Option IndexSlotValue) (e : IndexEvent) : Prop :=
  match e.call with
  | .insert _ _ =>
    e.answer = some (.inserted (.ok ())) ∨
      e.answer = some (.inserted (.error (.capacityExceeded e.pre.capacity))) ∧ e.post = e.pre
  | .get k => e.answer = some (.got (resultOf m k))
  | .remove k => e.answer = some (.removed (resultOf m k))
  | .len => ∃ keys : Finset KvBlockKey,
      (∀ k, k ∈ keys ↔ (m k).isSome) ∧ e.answer = some (.len keys.card)
  | .iter => ∃ pairs, e.answer = some (.pairs pairs) ∧ pairs.Nodup ∧
      ∀ k v, (k, v) ∈ pairs ↔ m k = some v

variable {hash : KvBlockKey → ℕ} {n : ℕ} {self : ConcurrentHashIndex}

@[simp] theorem present_nil : present [] = fun _ => none := rfl

@[simp] theorem present_concat (h : List IndexEvent) (e : IndexEvent) :
    present (h ++ [e]) = record (present h) e := by
  simp [present]

theorem tableSize_new (capacity : ℕ) :
    TableSize (max (Nat.nextPowerOfTwo capacity % 2 ^ 64) 16) := by
  refine ⟨?_, Nat.le_max_right _ _⟩
  obtain ⟨k, hk⟩ := Nat.isPowerOfTwo_nextPowerOfTwo capacity
  rw [hk]
  by_cases hlt : k < 64
  · rw [Nat.mod_eq_of_lt (Nat.pow_lt_pow_right (by omega) hlt)]
    by_cases h4 : k ≤ 4
    · have : 2 ^ k ≤ 2 ^ 4 := Nat.pow_le_pow_right (by omega) h4
      exact ⟨4, by omega⟩
    · have : 2 ^ 4 ≤ 2 ^ k := Nat.pow_le_pow_right (by omega) (by omega)
      exact ⟨k, by omega⟩
  · rw [Nat.mod_eq_zero_of_dvd (Nat.pow_dvd_pow 2 (by omega))]
    exact ⟨4, by omega⟩

theorem sound_new (hash : KvBlockKey → ℕ) {n : ℕ} :
    Sound hash n ⟨List.replicate n HashIndexBucket.empty, n, n - 1, 0⟩ := by
  have hslots : slots n (List.replicate n HashIndexBucket.empty) = fun _ => none := by
    funext i
    rw [slots, List.getElem?_replicate]
    split_ifs <;> rfl
  refine ⟨rfl, rfl, List.length_replicate, ?_, ?_, ?_⟩
  · rw [hslots]
    exact wf_empty _
  · intro i s hi
    rw [hslots] at hi
    cases hi
  · dsimp only
    rw [List.countP_replicate]
    rfl

/-- An insertion that passes the load check leaves an empty bucket behind. -/
theorem count_lt_of_not_overloaded (h : Sound hash n self) (hn : TableSize n)
    (hfree : self.count < n) (hload : self.overloaded = false) : self.count + 1 < n := by
  have hmin := hn.min
  have hle := le_natToF64 self.count
  have hcap : natToF64 n = n := by
    obtain ⟨p, rfl⟩ := hn.pow
    exact natToF64_two_pow p
  unfold ConcurrentHashIndex.overloaded at hload
  rw [h.capacity, hcap] at hload
  have := of_decide_eq_false hload
  omega

theorem mem_iter_iff (h : Sound hash n self) (k : KvBlockKey) (v : IndexSlotValue) :
    (k, v) ∈ self.iter ↔ Stores (slots n self.buckets) k v := by
  unfold ConcurrentHashIndex.iter
  rw [List.mem_map]
  constructor
  · rintro ⟨b, hb, heq⟩
    obtain ⟨hmem, hocc⟩ := List.mem_filter.mp hb
    obtain ⟨i, hi⟩ := exists_slot_of_mem h.length hmem
    rw [slot_of_occupied hocc] at hi
    exact ⟨i, _, hi, congrArg Prod.fst heq, congrArg Prod.snd heq⟩
  · rintro ⟨i, s, hi, rfl, rfl⟩
    obtain ⟨b, hb, hs⟩ := Option.bind_eq_some_iff.mp hi
    by_cases hocc : b.occupied = true
    · rw [slot_of_occupied hocc] at hs
      refine ⟨b, List.mem_filter.mpr ⟨List.mem_of_getElem? hb, hocc⟩, ?_⟩
      rw [← Option.some.inj hs]
    · rw [slot_of_not_occupied (by simpa using hocc)] at hs
      cases hs

theorem iter_keys_nodup (h : Sound hash n self) : (self.iter.map Prod.fst).Nodup := by
  unfold ConcurrentHashIndex.iter List.Nodup
  rw [List.map_map, List.pairwise_map, List.pairwise_filter, List.pairwise_iff_getElem]
  intro i j hi hj hlt hocci hoccj heq
  have hsi := slots_of_getElem? h.length (List.getElem?_eq_getElem hi)
  have hsj := slots_of_getElem? h.length (List.getElem?_eq_getElem hj)
  rw [slot_of_occupied hocci] at hsi
  rw [slot_of_occupied hoccj] at hsj
  have hcast := congrArg ZMod.val (h.wf.unique _ _ _ _ hsi hsj heq)
  have hlen := h.length
  rw [ZMod.val_cast_of_lt (by omega), ZMod.val_cast_of_lt (by omega)] at hcast
  omega

theorem length_iter (h : Sound hash n self) : self.iter.length = self.len := by
  unfold ConcurrentHashIndex.iter ConcurrentHashIndex.len
  rw [List.length_map, h.count, List.countP_eq_length_filter]

/-- The index holds exactly the map `m`, and has an empty bucket. -/
structure Holds (hash : KvBlockKey → ℕ) (m : KvBlockKey → Option IndexSlotValue)
    (index : ConcurrentHashIndex) (n : ℕ) : Prop where
  size : TableSize n
  sound : Sound hash n index
  free : index.count < n
  stores : ∀ k v, Stores (slots n index.buckets) k v ↔ m k = some v

variable {m : KvBlockKey → Option IndexSlotValue}

theorem Holds.exists_empty (h : Holds hash m self n) : ∃ e, slots n self.buckets e = none := by
  have hfree := h.free
  rw [h.sound.count] at hfree
  exact exists_empty_slot h.sound.length hfree

theorem Holds.none_of_fresh (h : Holds hash m self n) {k : KvBlockKey}
    (hf : Fresh (slots n self.buckets) k) : m k = none := by
  cases hm : m k with
  | none => rfl
  | some v => exact absurd ((h.stores k v).mpr hm) (hf.not_stores v)

theorem Holds.get (h : Holds hash m self n) (k : KvBlockKey) :
    self.get hash k = some (resultOf m k) := by
  obtain ⟨e, he⟩ := h.exists_empty
  obtain ⟨r, hr, hlook⟩ := getLoop_spec h.sound h.size k he _ _ _ (h.sound.searching h.size k e)
  unfold ConcurrentHashIndex.get resultOf
  rw [hr]
  cases r with
  | ok v => rw [(h.stores k v).mp hlook]
  | error err =>
    obtain ⟨rfl, hf⟩ := hlook
    rw [h.none_of_fresh hf]

theorem Holds.remove (h : Holds hash m self n) (k : KvBlockKey) :
    ∃ self', self.remove hash k = some (resultOf m k, self') ∧
      Holds hash (Function.update m k none) self' n := by
  obtain ⟨e, he⟩ := h.exists_empty
  obtain ⟨out, hout, ho⟩ :=
    removeLoop_spec h.sound h.size k he _ _ _ (h.sound.searching h.size k e)
  unfold ConcurrentHashIndex.remove resultOf
  rw [hout]
  cases ho with
  | removed v self' stores sound drops count =>
    rw [(h.stores k v).mp stores]
    have hfree := h.free
    refine ⟨self', rfl, h.size, sound, by omega, fun l w => ?_⟩
    rw [drops l w, h.stores l w]
    by_cases hl : l = k
    · simp [hl]
    · simp [hl]
  | missing fresh =>
    have hnone := h.none_of_fresh fresh
    rw [hnone]
    refine ⟨self, rfl, ?_⟩
    rwa [← hnone, Function.update_eq_self]

/-- The first round of an insertion. -/
theorem Holds.inserting (h : Holds hash m self n) (k : KvBlockKey) (v : IndexSlotValue) :
    ∃ e, Inserting hash n self e self.capacity (hash k &&& self.mask) k v 0 := by
  have : NeZero n := h.size.neZero
  obtain ⟨e, he⟩ := h.exists_empty
  obtain ⟨hlt, hcast⟩ := h.sound.start h.size k
  have hcarry := carry_home (home hash n) (slots n self.buckets) k v
  rw [← hcast] at hcarry
  refine ⟨e, h.sound, hlt, hcarry, Nat.zero_le _, he, ?_⟩
  rw [h.sound.capacity]
  exact ahead_lt _ _

/-- The locked part of an insertion, into a table that has an empty bucket to spare. -/
theorem Holds.insertLocked (h : Holds hash m self n) (hroom : self.count + 1 < n) (k : KvBlockKey)
    (v : IndexSlotValue) :
    self.insertLocked hash k v = some (.error (.capacityExceeded self.capacity), self) ∨
      ∃ self', self.insertLocked hash k v = some (.ok (), self') ∧
        Holds hash (Function.update m k (some v)) self' n := by
  obtain ⟨e, hstart⟩ := h.inserting k v
  obtain ⟨out, hout, ho⟩ := insertLoop_spec h.size hstart
  unfold ConcurrentHashIndex.insertLocked
  rw [hout]
  cases ho with
  | stored self' sound puts count =>
    refine Or.inr ⟨self', rfl, h.size, sound, by omega, fun l w => ?_⟩
    rw [puts l w, h.stores l w]
    by_cases hl : l = k
    · simp [hl, eq_comm]
    · simp [hl]
  | refused limit =>
    rw [h.sound.capacity]
    exact Or.inl rfl

theorem Holds.insert (h : Holds hash m self n) (k : KvBlockKey) (v : IndexSlotValue) :
    self.insert hash k v = some (.error (.capacityExceeded self.capacity), self) ∨
      ∃ self', self.insert hash k v = some (.ok (), self') ∧
        Holds hash (Function.update m k (some v)) self' n := by
  unfold ConcurrentHashIndex.insert ConcurrentHashIndex.checkCapacity
  cases hload : self.overloaded with
  | true => exact Or.inl rfl
  | false => exact h.insertLocked (count_lt_of_not_overloaded h.sound h.size h.free hload) k v

theorem Holds.len (h : Holds hash m self n) :
    ∃ keys : Finset KvBlockKey, (∀ k, k ∈ keys ↔ (m k).isSome) ∧ self.len = keys.card := by
  refine ⟨(self.iter.map Prod.fst).toFinset, fun k => ?_, ?_⟩
  · rw [List.mem_toFinset, List.mem_map, Option.isSome_iff_exists]
    constructor
    · rintro ⟨⟨l, w⟩, hmem, rfl⟩
      exact ⟨w, (h.stores l w).mp ((mem_iter_iff h.sound l w).mp hmem)⟩
    · rintro ⟨v, hv⟩
      exact ⟨(k, v), (mem_iter_iff h.sound k v).mpr ((h.stores k v).mpr hv), rfl⟩
  · rw [List.toFinset_card_of_nodup (iter_keys_nodup h.sound), List.length_map,
      length_iter h.sound]

/-- One call on an index that holds `m` answers for `m` and leaves the recorded map. -/
theorem Holds.step (h : Holds hash m self n) (c : IndexCall) :
    Holds hash (record m (event (step hash) self c)) (step hash self c).2 n ∧
      Correct m (event (step hash) self c) := by
  cases c with
  | insert k v =>
    rcases h.insert k v with hins | ⟨self', hins, h'⟩
    · have hstep : Index.step hash self (.insert k v) =
          (some (.inserted (.error (.capacityExceeded self.capacity))), self) := by
        rw [Index.step, hins, answered]
      rw [event_eq hstep, hstep]
      exact ⟨h, Or.inr ⟨rfl, rfl⟩⟩
    · have hstep : Index.step hash self (.insert k v) = (some (.inserted (.ok ())), self') := by
        rw [Index.step, hins, answered]
      rw [event_eq hstep, hstep]
      exact ⟨h', Or.inl rfl⟩
  | get k =>
    have hstep : Index.step hash self (.get k) = (some (.got (resultOf m k)), self) := by
      rw [Index.step, h.get k]
      rfl
    rw [event_eq hstep, hstep]
    exact ⟨h, rfl⟩
  | remove k =>
    obtain ⟨self', hrem, h'⟩ := h.remove k
    have hstep : Index.step hash self (.remove k) = (some (.removed (resultOf m k)), self') := by
      rw [Index.step, hrem, answered]
    rw [event_eq hstep, hstep]
    refine ⟨?_, rfl⟩
    cases hm : m k with
    | none =>
      rw [← hm, Function.update_eq_self] at h'
      simpa [record, resultOf, hm] using h'
    | some v => simpa [record, resultOf, hm] using h'
  | len =>
    obtain ⟨keys, hkeys, hlen⟩ := h.len
    have hstep : Index.step hash self .len = (some (.len keys.card), self) := by
      rw [Index.step, hlen]
    rw [event_eq hstep, hstep]
    exact ⟨h, keys, hkeys, rfl⟩
  | iter =>
    have hstep : Index.step hash self .iter = (some (.pairs self.iter), self) := by
      rw [Index.step]
    rw [event_eq hstep, hstep]
    refine ⟨h, self.iter, rfl, (iter_keys_nodup h.sound).of_map, fun k v => ?_⟩
    rw [mem_iter_iff h.sound, h.stores]

theorem Holds.new (hash : KvBlockKey → ℕ) (capacity : ℕ) :
    Holds hash (fun _ => none)
      ⟨List.replicate (max (Nat.nextPowerOfTwo capacity % 2 ^ 64) 16) HashIndexBucket.empty,
        max (Nat.nextPowerOfTwo capacity % 2 ^ 64) 16, max (Nat.nextPowerOfTwo capacity % 2 ^ 64) 16 - 1, 0⟩
      (max (Nat.nextPowerOfTwo capacity % 2 ^ 64) 16) := by
  have hsize := tableSize_new capacity
  have hmin := hsize.min
  refine ⟨hsize, sound_new hash, by dsimp only; omega, fun k v => ?_⟩
  rw [← mem_iter_iff (sound_new hash)]
  simp [ConcurrentHashIndex.iter, HashIndexBucket.empty]

/-- For every requested capacity, hash function and sequence of calls, every call of the run
from `new` returns, and answers for the map of the calls before it. -/
theorem index_refines_map (hash : KvBlockKey → ℕ) (capacity : ℕ) (calls : List IndexCall) :
    ∃ index, ConcurrentHashIndex.new capacity = .ok index ∧
      ∀ past e rest, trace (step hash) index calls = past ++ e :: rest →
        Correct (present past) e := by
  refine ⟨_, rfl, ?_⟩
  refine (history_forall
    (P := fun h s => Holds hash (present h) s (max (Nat.nextPowerOfTwo capacity % 2 ^ 64) 16))
    (Holds.new hash capacity) ?_ calls (along_true _ _ _)).2
  intro h s c hholds _
  rw [present_concat]
  exact hholds.step c

end Virthub.Index
