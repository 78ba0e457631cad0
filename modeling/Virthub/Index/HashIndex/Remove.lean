import Virthub.Index.HashIndex.Invariant

/-! The loops of `remove`: the search finds the key, and the backward shift closes the gap. -/
namespace Virthub.Index
open Virthub.Lib.RobinHood
open Function (update)

variable {hash : KvBlockKey → ℕ} {n : ℕ} {self : ConcurrentHashIndex}

/-- The index in the middle of a backward shift: the contents of bucket `prev` are stale, and
the table without them has its gap there. -/
structure Shifting (hash : KvBlockKey → ℕ) (n : ℕ) (index : ConcurrentHashIndex) (e : ZMod n)
    (fuel prev : ℕ) : Prop where
  capacity : index.capacity = n
  mask : index.mask = n - 1
  length : index.buckets.length = n
  limit : ∀ i s, slots n index.buckets i = some s → s.dist ≤ n % 2 ^ 16
  count : index.count = index.buckets.countP (·.occupied)
  prev_lt : prev < n
  stale : ∃ b, index.buckets[prev]? = some b ∧ b.occupied = true
  gap : ∃ d, Gap (home hash n) (update (slots n index.buckets) (prev : ZMod n) none) prev d
  empty : slots n index.buckets e = none
  rounds : ahead ((prev : ZMod n) + 1) e < fuel

variable {e : ZMod n} {fuel prev : ℕ} {b : HashIndexBucket}

theorem Sound.shifting (h : Sound hash n self) (hn : TableSize n) {idx : ℕ} (hidx : idx < n)
    (hb : self.buckets[idx]? = some b) (hocc : b.occupied = true)
    (he : slots n self.buckets e = none) : Shifting hash n self e self.capacity idx := by
  have : NeZero n := hn.neZero
  have hmin := hn.min
  have hslot := slots_of_getElem? h.length hb
  rw [slot_of_occupied hocc] at hslot
  refine ⟨h.capacity, h.mask, h.length, h.limit, h.count, hidx, ⟨b, hb, hocc⟩,
    ⟨_, h.wf.gap (by omega) hslot⟩, he, ?_⟩
  rw [h.capacity]
  exact ahead_lt _ _

theorem Shifting.nextIdx (hs : Shifting hash n self e fuel prev) (hn : TableSize n) :
    self.nextIdx prev < n ∧ ((self.nextIdx prev : ℕ) : ZMod n) = prev + 1 := by
  have hmin := hn.min
  rw [ConcurrentHashIndex.nextIdx, hs.mask, hn.and_mask]
  exact ⟨Nat.mod_lt _ (by omega), by rw [ZMod.natCast_mod, Nat.cast_succ]⟩

theorem Shifting.succ_ne (hn : TableSize n) (i : ZMod n) : i + 1 ≠ i := by
  have hmin := hn.min
  have h1 := one_ne_zero_of_lt (n := n) (by omega)
  intro h
  exact h1 (by linear_combination h)

/-- The shift ends by clearing the stale bucket. -/
theorem Shifting.stop (hs : Shifting hash n self e fuel prev) (hn : TableSize n)
    (hstop : ∀ s, slots n self.buckets ((prev : ZMod n) + 1) = some s → s.dist = 0) :
    Sound hash n { self.setBucket prev HashIndexBucket.empty with count := self.count - 1 } := by
  obtain ⟨b, hb, hocc⟩ := hs.stale
  obtain ⟨d, hgap⟩ := hs.gap
  obtain ⟨hlt, hget⟩ := List.getElem?_eq_some_iff.mp hb
  have hset := slots_set hs.length hs.prev_lt HashIndexBucket.empty
  rw [slot_of_not_occupied rfl] at hset
  refine ⟨hs.capacity, hs.mask, ?_, ?_, ?_, ?_⟩
  · simp [ConcurrentHashIndex.setBucket, hs.length]
  · dsimp only [ConcurrentHashIndex.setBucket]
    rw [hset]
    refine hgap.close fun s hsucc => hstop s ?_
    rwa [Function.update_of_ne (Shifting.succ_ne hn _)] at hsucc
  · intro j s hj
    dsimp only [ConcurrentHashIndex.setBucket] at hj
    rw [hset] at hj
    rcases update_eq_some.mp hj with ⟨-, hc⟩ | ⟨-, hj⟩
    · cases hc
    · exact hs.limit j s hj
  · dsimp only [ConcurrentHashIndex.setBucket]
    rw [List.countP_set hlt, hget, hocc, hs.count]
    simp [HashIndexBucket.empty]

theorem countP_set_occupied {bs : List HashIndexBucket} {i : ℕ} {b b' : HashIndexBucket}
    (hb : bs[i]? = some b) (hocc : b.occupied = true) (hocc' : b'.occupied = true) :
    (bs.set i b').countP (·.occupied) = bs.countP (·.occupied) := by
  obtain ⟨hlt, hget⟩ := List.getElem?_eq_some_iff.mp hb
  have hpos : 0 < bs.countP (·.occupied) :=
    List.countP_pos_iff.mpr ⟨b, List.mem_of_getElem? hb, hocc⟩
  rw [List.countP_set hlt, hget, hocc, hocc']
  simp
  omega

/-- The bucket behind the gap, moved one place back. -/
def HashIndexBucket.moved (c : HashIndexBucket) : HashIndexBucket :=
  { c with probeDistance := c.probeDistance - 1 }

theorem slot_moved {c : HashIndexBucket} (hocc : c.occupied = true) (hpos : c.probeDistance ≠ 0) :
    c.moved.slot = some ⟨c.key, c.value, c.probeDistance.toNat - 1⟩ := by
  have hle : (1 : UInt16) ≤ c.probeDistance := by
    rw [UInt16.le_iff_toNat_le]
    have hne : c.probeDistance.toNat ≠ 0 := fun h => hpos (UInt16.toNat_inj.mp h)
    have h1 : (1 : UInt16).toNat = 1 := rfl
    omega
  have hsub : (c.probeDistance - 1).toNat = c.probeDistance.toNat - 1 :=
    UInt16.toNat_sub_of_le _ _ hle
  rw [slot_of_occupied (b := c.moved) hocc]
  simp [HashIndexBucket.moved, hsub]

/-- One round of the shift, on the table without the stale bucket. -/
theorem Shifting.slots_shift (hs : Shifting hash n self e fuel prev) (hn : TableSize n)
    {c : HashIndexBucket} (hc : self.buckets[self.nextIdx prev]? = some c)
    (hocc : c.occupied = true) (hpos : c.probeDistance ≠ 0) :
    update (slots n self.buckets) (prev : ZMod n) none (prev + 1) =
        some ⟨c.key, c.value, c.probeDistance.toNat⟩ ∧
      update (slots n ((self.buckets.set (self.nextIdx prev) c.moved).set prev c.moved))
          (self.nextIdx prev : ZMod n) none =
        shiftBack (update (slots n self.buckets) (prev : ZMod n) none) prev
          ⟨c.key, c.value, c.probeDistance.toNat⟩ := by
  obtain ⟨hlt, hcast⟩ := hs.nextIdx hn
  have hne := Shifting.succ_ne hn (prev : ZMod n)
  have hslot := slots_of_getElem? hs.length hc
  rw [slot_of_occupied hocc, hcast] at hslot
  have hlen : (self.buckets.set (self.nextIdx prev) c.moved).length = n := by
    rw [List.length_set, hs.length]
  constructor
  · rw [Function.update_of_ne hne, hslot]
  · rw [slots_set hlen hs.prev_lt, slots_set hs.length hlt, hcast, Function.update_comm hne,
      Function.update_idem, slot_moved hocc hpos, shiftBack, Function.update_idem]

/-- The buckets after a round of the shift; the moved one stands in two places. -/
theorem Shifting.slots_moved (hs : Shifting hash n self e fuel prev) (hn : TableSize n)
    {c : HashIndexBucket} (hocc : c.occupied = true) (hpos : c.probeDistance ≠ 0) :
    slots n ((self.buckets.set (self.nextIdx prev) c.moved).set prev c.moved) =
      update (update (slots n self.buckets) (self.nextIdx prev : ZMod n)
        (some ⟨c.key, c.value, c.probeDistance.toNat - 1⟩)) (prev : ZMod n)
        (some ⟨c.key, c.value, c.probeDistance.toNat - 1⟩) := by
  have hlen : (self.buckets.set (self.nextIdx prev) c.moved).length = n := by
    rw [List.length_set, hs.length]
  rw [slots_set hlen hs.prev_lt, slots_set hs.length (hs.nextIdx hn).1, slot_moved hocc hpos]

theorem Shifting.limit_shift (hs : Shifting hash n self e fuel prev) (hn : TableSize n)
    {c : HashIndexBucket} (hc : self.buckets[self.nextIdx prev]? = some c)
    (hocc : c.occupied = true) (hpos : c.probeDistance ≠ 0) {i : ZMod n} {s : Slot KvBlockKey IndexSlotValue}
    (hi : slots n ((self.buckets.set (self.nextIdx prev) c.moved).set prev c.moved) i = some s) :
    s.dist ≤ n % 2 ^ 16 := by
  have hslot := slots_of_getElem? hs.length hc
  rw [slot_of_occupied hocc] at hslot
  have hlim : c.probeDistance.toNat ≤ n % 2 ^ 16 := hs.limit _ _ hslot
  rw [hs.slots_moved hn hocc hpos] at hi
  rcases update_eq_some.mp hi with ⟨-, hm⟩ | ⟨-, hi⟩
  · rw [← Option.some.inj hm]
    exact (Nat.sub_le _ _).trans hlim
  · rcases update_eq_some.mp hi with ⟨-, hm⟩ | ⟨-, hi⟩
    · rw [← Option.some.inj hm]
      exact (Nat.sub_le _ _).trans hlim
    · exact hs.limit i s hi

theorem Shifting.nextIdx_ne (hs : Shifting hash n self e fuel prev) (hn : TableSize n) :
    self.nextIdx prev ≠ prev := by
  intro h
  have hcast := (hs.nextIdx hn).2
  rw [h] at hcast
  exact Shifting.succ_ne hn _ hcast.symm

theorem Shifting.count_shift (hs : Shifting hash n self e fuel prev) (hn : TableSize n)
    {c : HashIndexBucket} (hc : self.buckets[self.nextIdx prev]? = some c) (hocc : c.occupied = true) :
    self.count =
      ((self.buckets.set (self.nextIdx prev) c.moved).set prev c.moved).countP (·.occupied) := by
  obtain ⟨b, hb, hbocc⟩ := hs.stale
  have hprev : (self.buckets.set (self.nextIdx prev) c.moved)[prev]? = some b := by
    rw [List.getElem?_set_ne (hs.nextIdx_ne hn), hb]
  have hmocc : c.moved.occupied = true := hocc
  rw [countP_set_occupied hprev hbocc hmocc, countP_set_occupied hc hocc hmocc, hs.count]

theorem Shifting.shift (hs : Shifting hash n self e (fuel + 1) prev) (hn : TableSize n)
    {c : HashIndexBucket} (hc : self.buckets[self.nextIdx prev]? = some c)
    (hocc : c.occupied = true) (hpos : c.probeDistance ≠ 0) :
    Shifting hash n ((self.setBucket (self.nextIdx prev) c.moved).setBucket prev c.moved) e fuel
      (self.nextIdx prev) := by
  have hmin := hn.min
  obtain ⟨b, hb, hbocc⟩ := hs.stale
  obtain ⟨d, hgap⟩ := hs.gap
  obtain ⟨hlt, hcast⟩ := hs.nextIdx hn
  have hslot := slots_of_getElem? hs.length hc
  rw [slot_of_occupied hocc] at hslot
  have hdist : 0 < c.probeDistance.toNat := Nat.pos_of_ne_zero fun h => hpos (UInt16.toNat_inj.mp h)
  refine ⟨hs.capacity, hs.mask, ?_, ?_, hs.count_shift hn hc hocc, hlt, ?_, ?_, ?_, ?_⟩
  · simp [ConcurrentHashIndex.setBucket, hs.length]
  · intro i s hi
    exact hs.limit_shift hn hc hocc hpos hi
  · refine ⟨c.moved, ?_, hocc⟩
    dsimp only [ConcurrentHashIndex.setBucket]
    rw [List.getElem?_set_ne (hs.nextIdx_ne hn).symm, List.getElem?_set_self (by rw [hs.length]; exact hlt)]
  · obtain ⟨hnext, htable⟩ := hs.slots_shift hn hc hocc hpos
    refine ⟨c.probeDistance.toNat, ?_⟩
    dsimp only [ConcurrentHashIndex.setBucket]
    rw [htable, hcast]
    exact hgap.shift (by omega) hnext hdist
  · dsimp only [ConcurrentHashIndex.setBucket]
    rw [hs.slots_moved hn hocc hpos, Function.update_of_ne, Function.update_of_ne]
    · exact hs.empty
    · exact fun h => ne_of_slot hslot hs.empty h.symm
    · have hprev := slots_of_getElem? hs.length hb
      rw [slot_of_occupied hbocc] at hprev
      exact fun h => ne_of_slot hprev hs.empty h.symm
  · have hahead := ahead_next hn hslot hs.empty
    have hrounds := hs.rounds
    rw [← hcast] at hrounds
    omega

/-- A round of the shift keeps the stored pairs. -/
theorem Shifting.shift_stores (hs : Shifting hash n self e fuel prev) (hn : TableSize n)
    {c : HashIndexBucket} (hc : self.buckets[self.nextIdx prev]? = some c)
    (hocc : c.occupied = true) (hpos : c.probeDistance ≠ 0) (k : KvBlockKey) (v : IndexSlotValue) :
    Stores (update (slots n
      ((self.setBucket (self.nextIdx prev) c.moved).setBucket prev c.moved).buckets)
        (self.nextIdx prev : ZMod n) none) k v ↔
      Stores (update (slots n self.buckets) (prev : ZMod n) none) k v := by
  have hmin := hn.min
  obtain ⟨d, hgap⟩ := hs.gap
  obtain ⟨hnext, htable⟩ := hs.slots_shift hn hc hocc hpos
  dsimp only [ConcurrentHashIndex.setBucket]
  rw [htable]
  exact hgap.shift_stores (by omega) hnext k v

/-- The shift ends with a sound index that holds what the table without the gap held. -/
theorem shiftLoop_spec (hn : TableSize n) (hs : Shifting hash n self e fuel prev) :
    ∃ self', ConcurrentHashIndex.shiftLoop fuel self prev (self.nextIdx prev) = some self' ∧
      Sound hash n { self' with count := self'.count - 1 } ∧ self'.count = self.count ∧
      ∀ k v, Stores (slots n self'.buckets) k v ↔
        Stores (update (slots n self.buckets) (prev : ZMod n) none) k v := by
  induction fuel generalizing self prev with
  | zero => exact absurd hs.rounds (Nat.not_lt_zero _)
  | succ fuel ih =>
    obtain ⟨hlt, hcast⟩ := hs.nextIdx hn
    have hlen : self.nextIdx prev < self.buckets.length := by rwa [hs.length]
    obtain ⟨c, hc⟩ : ∃ c, self.buckets[self.nextIdx prev]? = some c :=
      ⟨_, List.getElem?_eq_getElem hlen⟩
    have hslot := slots_of_getElem? hs.length hc
    rw [hcast] at hslot
    rw [ConcurrentHashIndex.shiftLoop, hc]
    dsimp only
    by_cases hstop : (!c.occupied) = true ∨ c.probeDistance = 0
    · refine ⟨_, if_pos hstop, hs.stop hn fun s hsucc => ?_, rfl, fun k v => ?_⟩
      · rw [hslot] at hsucc
        by_cases hocc : c.occupied = true
        · rw [slot_of_occupied hocc] at hsucc
          have h0 : c.probeDistance = 0 := by simpa [hocc] using hstop
          rw [← Option.some.inj hsucc, h0]
          rfl
        · rw [slot_of_not_occupied (by simpa using hocc)] at hsucc
          cases hsucc
      · have hset := slots_set hs.length hs.prev_lt HashIndexBucket.empty
        rw [slot_of_not_occupied rfl] at hset
        dsimp only [ConcurrentHashIndex.setBucket]
        rw [hset]
    · have hocc : c.occupied = true := by simpa using (not_or.mp hstop).1
      have hpos := (not_or.mp hstop).2
      obtain ⟨self', hloop, hsound, hcount, hstores⟩ := ih (hs.shift hn hc hocc hpos)
      rw [if_neg hstop]
      refine ⟨self', hloop, hsound, hcount, fun k v => ?_⟩
      rw [hstores k v]
      exact hs.shift_stores hn hc hocc hpos k v

/-- What `remove` ends with. -/
inductive RemoveOutcome (hash : KvBlockKey → ℕ) (n : ℕ) (self : ConcurrentHashIndex)
    (k : KvBlockKey) : Except HashIndexError IndexSlotValue × ConcurrentHashIndex → Prop
  | removed (v : IndexSlotValue) (self' : ConcurrentHashIndex)
      (stores : Stores (slots n self.buckets) k v) (sound : Sound hash n self')
      (drops : Drops (slots n self.buckets) k (slots n self'.buckets))
      (count : self'.count + 1 = self.count) : RemoveOutcome hash n self k (.ok v, self')
  | missing (fresh : Fresh (slots n self.buckets) k) :
      RemoveOutcome hash n self k (.error (.keyNotFound k), self)

theorem Sound.remove_found (h : Sound hash n self) (hn : TableSize n) {idx : ℕ} (hidx : idx < n)
    (hb : self.buckets[idx]? = some b) (hocc : b.occupied = true)
    (he : slots n self.buckets e = none) :
    ∃ self', ConcurrentHashIndex.shiftLoop self.capacity self idx (self.nextIdx idx) = some self' ∧
      RemoveOutcome hash n self b.key (.ok b.value, { self' with count := self'.count - 1 }) := by
  have hslot := slots_of_getElem? h.length hb
  rw [slot_of_occupied hocc] at hslot
  obtain ⟨self', hloop, hsound, hcount, hstores⟩ :=
    shiftLoop_spec hn (h.shifting hn hidx hb hocc he)
  have hpos : 0 < self.count := by
    rw [h.count]
    exact List.countP_pos_iff.mpr ⟨b, List.mem_of_getElem? hb, hocc⟩
  refine ⟨self', hloop, .removed _ _ ⟨idx, _, hslot, rfl, rfl⟩ hsound (fun k v => ?_) ?_⟩
  · rw [hstores k v]
    exact h.wf.gap_drops hslot k v
  · dsimp only
    omega

theorem removeLoop_spec (h : Sound hash n self) (hn : TableSize n) (k : KvBlockKey)
    (he : slots n self.buckets e = none) (fuel idx : ℕ) (dist : UInt16)
    (hs : Searching hash n (slots n self.buckets) k e fuel idx dist) :
    ∃ out, self.removeLoop k fuel idx dist = some out ∧ RemoveOutcome hash n self k out := by
  induction fuel generalizing idx dist with
  | zero => exact absurd hs.rounds (Nat.not_lt_zero _)
  | succ fuel ih =>
    obtain ⟨b, hb, hslot⟩ := h.getElem? hs.idx_lt
    rw [ConcurrentHashIndex.removeLoop, hb]
    dsimp only
    by_cases hstop : (!b.occupied) = true ∨ b.probeDistance < dist
    · exact ⟨_, if_pos hstop, .missing (hs.fresh_of_stop h hb hstop)⟩
    · obtain ⟨hocc, hle⟩ := occupied_of_not_stop hstop
      rw [slot_of_occupied hocc] at hslot
      rw [if_neg hstop]
      by_cases hk : b.key = k
      · obtain ⟨self', hloop, hout⟩ := h.remove_found hn hs.idx_lt hb hocc he
        rw [if_pos hk, hloop]
        rw [hk] at hout
        exact ⟨_, rfl, hout⟩
      · rw [if_neg hk]
        exact ih _ _ (hs.next h hn he hslot hle hk)

end Virthub.Index
