import Virthub.Index.HashIndex.Refinement

/-! The probe loops are bounded. Each loop is run once more with a record of the buckets it visits and with
checked 16-bit arithmetic, where an overflow or an underflow ends in `none`. On every reachable table the
checked loops return what the loops of the source return, and no bucket is visited twice. -/
namespace Virthub.Index
open Virthub.Lib Virthub.Lib.RobinHood

/-- `d + 1` with an overflow check. -/
def checkedSucc (d : UInt16) : Option UInt16 := if d.toNat + 1 < 2 ^ 16 then some (d + 1) else none

/-- `d - 1` with an underflow check. -/
def checkedPred (d : UInt16) : Option UInt16 := if d = 0 then none else some (d - 1)

/-- A round that visits the bucket `idx` and goes on with the rest of the loop. -/
def visit {ρ : Type} (idx : ℕ) (rest : Option (List ℕ × ρ)) : Option (List ℕ × ρ) :=
  rest.map fun out => (idx :: out.1, out.2)

namespace ConcurrentHashIndex

def insertVisiting : ℕ → ConcurrentHashIndex → ℕ → KvBlockKey → IndexSlotValue → UInt16 →
    Option (List ℕ × Except HashIndexError Unit × ConcurrentHashIndex)
  | 0, _, _, _, _, _ => none
  | fuel + 1, self, idx, currKey, currVal, currDist =>
    match self.buckets[idx]? with
    | none => none
    | some bucket =>
      if !bucket.occupied then
        some ([idx], .ok (),
          { self.setBucket idx ⟨currKey, currVal, true, currDist⟩ with count := self.count + 1 })
      else if bucket.key = currKey then
        some ([idx], .ok (), self.setBucket idx { bucket with value := currVal })
      else if bucket.probeDistance < currDist then
        let self := self.setBucket idx
          { bucket with key := currKey, value := currVal, probeDistance := currDist }
        (checkedSucc bucket.probeDistance).bind fun dist =>
          if self.capacity.toUInt16 < dist then some ([idx], .error (.capacityExceeded self.capacity), self)
          else visit idx (insertVisiting fuel self (self.nextIdx idx) bucket.key bucket.value dist)
      else
        (checkedSucc currDist).bind fun dist =>
          if self.capacity.toUInt16 < dist then some ([idx], .error (.capacityExceeded self.capacity), self)
          else visit idx (insertVisiting fuel self (self.nextIdx idx) currKey currVal dist)

def getVisiting (self : ConcurrentHashIndex) (key : KvBlockKey) :
    ℕ → ℕ → UInt16 → Option (List ℕ × Except HashIndexError IndexSlotValue)
  | 0, _, _ => none
  | fuel + 1, idx, dist =>
    match self.buckets[idx]? with
    | none => none
    | some bucket =>
      if !bucket.occupied ∨ bucket.probeDistance < dist then some ([idx], .error (.keyNotFound key))
      else if bucket.key = key then some ([idx], .ok bucket.value)
      else
        (checkedSucc dist).bind fun dist =>
          if self.capacity.toUInt16 < dist then some ([idx], .error (.keyNotFound key))
          else visit idx (getVisiting self key fuel (self.nextIdx idx) dist)

def shiftVisiting : ℕ → ConcurrentHashIndex → ℕ → ℕ → Option (List ℕ × ConcurrentHashIndex)
  | 0, _, _, _ => none
  | fuel + 1, self, prevIdx, currIdx =>
    match self.buckets[currIdx]? with
    | none => none
    | some nextBucket =>
      if !nextBucket.occupied ∨ nextBucket.probeDistance = 0 then
        some ([currIdx], self.setBucket prevIdx HashIndexBucket.empty)
      else
        (checkedPred nextBucket.probeDistance).bind fun dist =>
          let moved := { nextBucket with probeDistance := dist }
          let self := (self.setBucket currIdx moved).setBucket prevIdx moved
          visit currIdx (shiftVisiting fuel self currIdx (self.nextIdx currIdx))

/-- The buckets that the search visits come first, then those that the backward shift visits. -/
def removeVisiting (self : ConcurrentHashIndex) (key : KvBlockKey) : ℕ → ℕ → UInt16 →
    Option (List ℕ × List ℕ × Except HashIndexError IndexSlotValue × ConcurrentHashIndex)
  | 0, _, _ => none
  | fuel + 1, idx, dist =>
    match self.buckets[idx]? with
    | none => none
    | some bucket =>
      if !bucket.occupied ∨ bucket.probeDistance < dist then
        some ([idx], [], .error (.keyNotFound key), self)
      else if bucket.key = key then
        (shiftVisiting self.capacity self idx (self.nextIdx idx)).map fun out =>
          ([idx], out.1, .ok bucket.value, { out.2 with count := out.2.count - 1 })
      else (checkedSucc dist).bind fun dist =>
        visit idx (removeVisiting self key fuel (self.nextIdx idx) dist)

end ConcurrentHashIndex

open ConcurrentHashIndex

theorem checkedSucc_eq {d : UInt16} (h : (d + 1).toNat = d.toNat + 1) : checkedSucc d = some (d + 1) := by
  have hlt := (d + 1).toNat_lt
  exact if_pos (by omega)

theorem checkedPred_eq {d : UInt16} (h : d ≠ 0) : checkedPred d = some (d - 1) := if_neg h

variable {hash : KvBlockKey → ℕ} {n : ℕ} {self : ConcurrentHashIndex} {e : ZMod n} {idx : ℕ}
  {visited : List ℕ}

/-- The buckets of a loop that starts at `idx` are a walk towards the empty bucket `e`. -/
def WalksTo (e : ZMod n) (idx : ℕ) (visited : List ℕ) : Prop :=
  Walk e (idx : ZMod n) (visited.map (Nat.cast : ℕ → ZMod n))

theorem WalksTo.nodup (h : WalksTo e idx visited) : visited.Nodup :=
  (Walk.nodup h).of_map

theorem walksTo_singleton (e : ZMod n) (idx : ℕ) : WalksTo e idx [idx] := walk_singleton e _

/-- One more round in front: it visits an occupied bucket. -/
theorem WalksTo.cons {T : Table n KvBlockKey IndexSlotValue} {s : Slot KvBlockKey IndexSlotValue} {next : ℕ}
    (h : WalksTo e next visited) (hn : TableSize n) (hslot : T (idx : ZMod n) = some s) (he : T e = none)
    (hnext : (next : ZMod n) = idx + 1) : WalksTo e idx (idx :: visited) := by
  have : NeZero n := hn.neZero
  unfold WalksTo at h
  rw [hnext] at h
  exact h.cons (ne_of_slot hslot he)

theorem getVisiting_spec (h : Sound hash n self) (hn : TableSize n) (k : KvBlockKey)
    (he : slots n self.buckets e = none) (fuel idx : ℕ) (dist : UInt16)
    (hs : Searching hash n (slots n self.buckets) k e fuel idx dist) :
    ∃ visited r, self.getVisiting k fuel idx dist = some (visited, r) ∧
      self.getLoop k fuel idx dist = some r ∧ WalksTo e idx visited := by
  induction fuel generalizing idx dist with
  | zero => exact absurd hs.rounds (Nat.not_lt_zero _)
  | succ fuel ih =>
    obtain ⟨b, hb, hslot⟩ := h.getElem? hs.idx_lt
    rw [getVisiting, getLoop, hb]
    dsimp only
    by_cases hstop : (!b.occupied) = true ∨ b.probeDistance < dist
    · rw [if_pos hstop, if_pos hstop]
      exact ⟨_, _, rfl, rfl, walksTo_singleton e idx⟩
    · obtain ⟨hocc, hle⟩ := occupied_of_not_stop hstop
      rw [slot_of_occupied hocc] at hslot
      rw [if_neg hstop, if_neg hstop]
      by_cases hk : b.key = k
      · rw [if_pos hk, if_pos hk]
        exact ⟨_, _, rfl, rfl, walksTo_singleton e idx⟩
      · rw [if_neg hk, if_neg hk, checkedSucc_eq (h.toNat_succ hn hslot hle), Option.bind_some]
        by_cases hlim : self.capacity.toUInt16 < dist + 1
        · rw [if_pos hlim, if_pos hlim]
          exact ⟨_, _, rfl, rfl, walksTo_singleton e idx⟩
        · obtain ⟨visited, r, hvisit, hloop, hwalk⟩ := ih _ _ (hs.next h hn he hslot hle hk)
          rw [if_neg hlim, if_neg hlim, hvisit]
          exact ⟨_, _, rfl, hloop, hwalk.cons hn hslot he (h.nextIdx hn idx).2⟩

theorem insertVisiting_spec (hn : TableSize n) {fuel : ℕ} {k : KvBlockKey} {v : IndexSlotValue}
    {dist : UInt16} (hs : Inserting hash n self e fuel idx k v dist) :
    ∃ visited out, insertVisiting fuel self idx k v dist = some (visited, out) ∧
      insertLoop fuel self idx k v dist = some out ∧ WalksTo e idx visited := by
  induction fuel generalizing self idx k v dist with
  | zero => exact absurd hs.rounds (Nat.not_lt_zero _)
  | succ fuel ih =>
    obtain ⟨b, hb, hslot⟩ := hs.sound.getElem? hs.idx_lt
    have hnext := (hs.sound.nextIdx hn idx).2
    rw [insertVisiting, insertLoop, hb]
    dsimp only
    by_cases hocc : b.occupied = true
    · have hfull : ¬ (!b.occupied) = true := by simp [hocc]
      rw [slot_of_occupied hocc] at hslot
      rw [if_neg hfull, if_neg hfull]
      by_cases hk : b.key = k
      · rw [if_pos hk, if_pos hk]
        exact ⟨_, _, rfl, rfl, walksTo_singleton e idx⟩
      · rw [if_neg hk, if_neg hk]
        by_cases hlt : b.probeDistance < dist
        · have hswap := hs.swap hn hb hocc hlt
          have hlim : ¬ self.capacity.toUInt16 < b.probeDistance + 1 := by
            have hd := hswap.dist_le
            rw [hs.sound.limit_lt_iff]
            omega
          obtain ⟨visited, out, hvisit, hloop, hwalk⟩ := ih hswap
          rw [if_pos hlt, if_pos hlt, checkedSucc_eq (hs.sound.toNat_succ hn hslot (Nat.le_refl _)),
            Option.bind_some]
          refine ⟨idx :: visited, out, ?_, (if_neg hlim).trans hloop, hwalk.cons hn hslot hs.empty hnext⟩
          exact (if_neg hlim).trans (congrArg (visit idx) hvisit)
        · have hle : dist.toNat ≤ b.probeDistance.toNat := by
            rw [UInt16.lt_iff_toNat_lt] at hlt
            omega
          rw [if_neg hlt, if_neg hlt, checkedSucc_eq (hs.sound.toNat_succ hn hslot hle), Option.bind_some]
          by_cases hlim : self.capacity.toUInt16 < dist + 1
          · rw [if_pos hlim, if_pos hlim]
            exact ⟨_, _, rfl, rfl, walksTo_singleton e idx⟩
          · obtain ⟨visited, out, hvisit, hloop, hwalk⟩ := ih (hs.next hn hb hocc hk hle hlim)
            rw [if_neg hlim, if_neg hlim, hvisit]
            exact ⟨_, _, rfl, hloop, hwalk.cons hn hslot hs.empty hnext⟩
    · have hfree : (!b.occupied) = true := by simpa using hocc
      rw [if_pos hfree, if_pos hfree]
      exact ⟨_, _, rfl, rfl, walksTo_singleton e idx⟩

theorem shiftVisiting_spec (hn : TableSize n) {fuel prev : ℕ} (hs : Shifting hash n self e fuel prev) :
    ∃ visited self', shiftVisiting fuel self prev (self.nextIdx prev) = some (visited, self') ∧
      shiftLoop fuel self prev (self.nextIdx prev) = some self' ∧ WalksTo e (self.nextIdx prev) visited := by
  induction fuel generalizing self prev with
  | zero => exact absurd hs.rounds (Nat.not_lt_zero _)
  | succ fuel ih =>
    obtain ⟨hlt, -⟩ := hs.nextIdx hn
    have hlen : self.nextIdx prev < self.buckets.length := by rwa [hs.length]
    obtain ⟨c, hc⟩ : ∃ c, self.buckets[self.nextIdx prev]? = some c := ⟨_, List.getElem?_eq_getElem hlen⟩
    have hslot := slots_of_getElem? hs.length hc
    rw [shiftVisiting, shiftLoop, hc]
    dsimp only
    by_cases hstop : (!c.occupied) = true ∨ c.probeDistance = 0
    · rw [if_pos hstop, if_pos hstop]
      exact ⟨_, _, rfl, rfl, walksTo_singleton e _⟩
    · have hocc : c.occupied = true := by simpa using (not_or.mp hstop).1
      have hpos := (not_or.mp hstop).2
      have hshift := hs.shift hn hc hocc hpos
      rw [slot_of_occupied hocc] at hslot
      obtain ⟨visited, self', hvisit, hloop, hwalk⟩ := ih hshift
      rw [if_neg hstop, if_neg hstop, checkedPred_eq hpos, Option.bind_some]
      refine ⟨self.nextIdx prev :: visited, self', congrArg (visit _) hvisit, hloop, ?_⟩
      exact hwalk.cons hn hslot hs.empty (hshift.nextIdx hn).2

theorem removeVisiting_spec (h : Sound hash n self) (hn : TableSize n) (k : KvBlockKey)
    (he : slots n self.buckets e = none) (fuel idx : ℕ) (dist : UInt16)
    (hs : Searching hash n (slots n self.buckets) k e fuel idx dist) :
    ∃ visited shifted out, self.removeVisiting k fuel idx dist = some (visited, shifted, out) ∧
      self.removeLoop k fuel idx dist = some out ∧ WalksTo e idx visited ∧ shifted.Nodup := by
  induction fuel generalizing idx dist with
  | zero => exact absurd hs.rounds (Nat.not_lt_zero _)
  | succ fuel ih =>
    obtain ⟨b, hb, hslot⟩ := h.getElem? hs.idx_lt
    rw [removeVisiting, removeLoop, hb]
    dsimp only
    by_cases hstop : (!b.occupied) = true ∨ b.probeDistance < dist
    · rw [if_pos hstop, if_pos hstop]
      exact ⟨_, _, _, rfl, rfl, walksTo_singleton e idx, List.nodup_nil⟩
    · obtain ⟨hocc, hle⟩ := occupied_of_not_stop hstop
      rw [slot_of_occupied hocc] at hslot
      rw [if_neg hstop, if_neg hstop]
      by_cases hk : b.key = k
      · obtain ⟨shifted, self', hvisit, hloop, hwalk⟩ :=
          shiftVisiting_spec hn (h.shifting hn hs.idx_lt hb hocc he)
        rw [if_pos hk, if_pos hk, hvisit, hloop]
        exact ⟨_, _, _, rfl, rfl, walksTo_singleton e idx, hwalk.nodup⟩
      · obtain ⟨visited, shifted, out, hvisit, hloop, hwalk, hnodup⟩ := ih _ _ (hs.next h hn he hslot hle hk)
        rw [if_neg hk, if_neg hk, checkedSucc_eq (h.toNat_succ hn hslot hle), Option.bind_some, hvisit]
        exact ⟨_, _, _, rfl, hloop, hwalk.cons hn hslot he (h.nextIdx hn idx).2, hnodup⟩

/-- What is bounded in a table: its fill, its distances and its loops. -/
structure ProbesBounded (hash : KvBlockKey → ℕ) (index : ConcurrentHashIndex) : Prop where
  gap : ∃ b ∈ index.buckets, b.occupied = false
  distance : ∀ i b, index.buckets[i]? = some b → b.occupied = true →
    b.probeDistance.toNat = (i + index.capacity - (hash b.key &&& index.mask)) % index.capacity ∧
      b.probeDistance.toNat < index.capacity
  insert : ∀ k v, ∃ visited out,
    insertVisiting index.capacity index (hash k &&& index.mask) k v 0 = some (visited, out) ∧
      index.insertLocked hash k v = some out ∧ visited.Nodup
  get : ∀ k, ∃ visited r, index.getVisiting k index.capacity (hash k &&& index.mask) 0 = some (visited, r) ∧
    index.get hash k = some r ∧ visited.Nodup
  remove : ∀ k, ∃ visited shifted out,
    index.removeVisiting k index.capacity (hash k &&& index.mask) 0 = some (visited, shifted, out) ∧
      index.remove hash k = some out ∧ visited.Nodup ∧ shifted.Nodup

/-- A stored distance is the cyclic distance from home. -/
theorem Holds.distance {m : KvBlockKey → Option IndexSlotValue} (h : Holds hash m self n) {i : ℕ}
    {b : HashIndexBucket} (hb : self.buckets[i]? = some b) (hocc : b.occupied = true) :
    b.probeDistance.toNat = (i + self.capacity - (hash b.key &&& self.mask)) % self.capacity ∧
      b.probeDistance.toNat < self.capacity := by
  have : NeZero n := h.size.neZero
  obtain ⟨e, he⟩ := h.exists_empty
  have hslot := slots_of_getElem? h.sound.length hb
  rw [slot_of_occupied hocc] at hslot
  have hlt : b.probeDistance.toNat + 1 < n := h.sound.wf.dist_lt he hslot
  have hplace : home hash n b.key + (b.probeDistance.toNat : ZMod n) = i := h.sound.wf.place _ _ hslot
  obtain ⟨hstart, hhome⟩ := h.sound.start h.size b.key
  rw [h.sound.capacity]
  refine ⟨?_, by omega⟩
  have hcast : ((i + n - (hash b.key &&& self.mask) : ℕ) : ZMod n) = (b.probeDistance.toNat : ZMod n) := by
    rw [Nat.cast_sub (by omega), Nat.cast_add, ZMod.natCast_self, hhome, ← hplace]
    ring
  have hmod := (ZMod.natCast_eq_natCast_iff' _ _ _).mp hcast
  rw [hmod, Nat.mod_eq_of_lt (by omega)]

theorem Holds.probesBounded {m : KvBlockKey → Option IndexSlotValue} (h : Holds hash m self n) :
    ProbesBounded hash self := by
  obtain ⟨e, he⟩ := h.exists_empty
  constructor
  · apply exists_not_occupied
    rw [← h.sound.count, h.sound.length]
    exact h.free
  · intro i b hb hocc
    exact h.distance hb hocc
  · intro k v
    obtain ⟨e, hstart⟩ := h.inserting k v
    obtain ⟨visited, out, hvisit, hloop, hwalk⟩ := insertVisiting_spec h.size hstart
    exact ⟨visited, out, hvisit, hloop, hwalk.nodup⟩
  · intro k
    obtain ⟨visited, r, hvisit, hloop, hwalk⟩ :=
      getVisiting_spec h.sound h.size k he _ _ _ (h.sound.searching h.size k e)
    exact ⟨visited, r, hvisit, hloop, hwalk.nodup⟩
  · intro k
    obtain ⟨visited, shifted, out, hvisit, hloop, hwalk, hnodup⟩ :=
      removeVisiting_spec h.sound h.size k he _ _ _ (h.sound.searching h.size k e)
    exact ⟨visited, shifted, out, hvisit, hloop, hwalk.nodup, hnodup⟩

/-- For every requested capacity, hash function and sequence of calls, in the table that the calls leave. -/
theorem index_probesBounded (hash : KvBlockKey → ℕ) (capacity : ℕ) (calls : List IndexCall) :
    ∃ index, ConcurrentHashIndex.new capacity = .ok index ∧
      ProbesBounded hash (exec (step hash) index calls) := by
  refine ⟨_, rfl, ?_⟩
  have hrun := history_induction
    (P := fun h s => Holds hash (present h) s (max (Nat.nextPowerOfTwo capacity % 2 ^ 64) 16))
    (Holds.new hash capacity) ?_ calls (along_true (step hash) _ calls)
  · exact hrun.probesBounded
  · intro h s c hholds _
    rw [present_concat]
    exact (hholds.step c).1

end Virthub.Index
