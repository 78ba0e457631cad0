import Virthub.Index.HashIndex
import Virthub.Lib.RobinHood

/-! The buckets of the index as a Robin Hood table, the invariant that every call keeps, and
the search that `get` and `remove` share. -/
namespace Virthub.Index
open Virthub.Lib.RobinHood
open Function (update)

def HashIndexBucket.slot (b : HashIndexBucket) : Option (Slot KvBlockKey IndexSlotValue) :=
  if b.occupied then some ⟨b.key, b.value, b.probeDistance.toNat⟩ else none

def slots (n : ℕ) (bs : List HashIndexBucket) : Table n KvBlockKey IndexSlotValue :=
  fun i => bs[i.val]?.bind HashIndexBucket.slot

def home (hash : KvBlockKey → ℕ) (n : ℕ) (k : KvBlockKey) : ZMod n := hash k

theorem slot_of_occupied {b : HashIndexBucket} (h : b.occupied = true) :
    b.slot = some ⟨b.key, b.value, b.probeDistance.toNat⟩ := by
  simp [HashIndexBucket.slot, h]

theorem slot_of_not_occupied {b : HashIndexBucket} (h : b.occupied = false) : b.slot = none := by
  simp [HashIndexBucket.slot, h]

/-- The capacities that `new` produces. -/
structure TableSize (n : ℕ) : Prop where
  pow : ∃ p, n = 2 ^ p
  min : 16 ≤ n

theorem TableSize.neZero {n : ℕ} (hn : TableSize n) : NeZero n := ⟨by have := hn.min; omega⟩

/-- The 16-bit distance limit is the capacity itself, or zero for large tables. -/
theorem TableSize.limit {n : ℕ} (hn : TableSize n) :
    (n % 2 ^ 16 = n ∧ n ≤ 2 ^ 15) ∨ n % 2 ^ 16 = 0 := by
  obtain ⟨p, rfl⟩ := hn.pow
  by_cases hp : p ≤ 15
  · have hle : 2 ^ p ≤ 2 ^ 15 := Nat.pow_le_pow_right (by omega) hp
    exact Or.inl ⟨Nat.mod_eq_of_lt (by omega), hle⟩
  · exact Or.inr (Nat.mod_eq_zero_of_dvd (Nat.pow_dvd_pow 2 (by omega)))

theorem TableSize.and_mask {n : ℕ} (hn : TableSize n) (x : ℕ) : x &&& (n - 1) = x % n := by
  obtain ⟨p, rfl⟩ := hn.pow
  exact Nat.and_two_pow_sub_one_eq_mod x p

theorem slots_natCast {n : ℕ} (bs : List HashIndexBucket) {i : ℕ} (hi : i < n) :
    slots n bs i = bs[i]?.bind HashIndexBucket.slot := by
  rw [slots, ZMod.val_cast_of_lt hi]

theorem slots_of_getElem? {n : ℕ} {bs : List HashIndexBucket} {i : ℕ} {b : HashIndexBucket}
    (hlen : bs.length = n) (hb : bs[i]? = some b) : slots n bs i = b.slot := by
  have hi := (List.getElem?_eq_some_iff.mp hb).1
  rw [slots_natCast bs (by omega), hb]
  rfl

theorem slots_set {n : ℕ} {bs : List HashIndexBucket} (hlen : bs.length = n) {i : ℕ} (hi : i < n)
    (b : HashIndexBucket) : slots n (bs.set i b) = update (slots n bs) (i : ZMod n) b.slot := by
  have : NeZero n := ⟨by omega⟩
  funext j
  by_cases hj : j = i
  · subst hj
    rw [Function.update_self, slots_natCast _ hi, List.getElem?_set_self (by omega)]
    rfl
  · have hne : i ≠ j.val := by
      rintro rfl
      exact hj (ZMod.natCast_zmod_val j).symm
    rw [Function.update_of_ne hj, slots, slots, List.getElem?_set_ne hne]

theorem exists_slot_of_mem {n : ℕ} {bs : List HashIndexBucket} (hlen : bs.length = n)
    {b : HashIndexBucket} (hb : b ∈ bs) : ∃ i, slots n bs i = b.slot := by
  obtain ⟨i, hi⟩ := List.mem_iff_getElem?.mp hb
  exact ⟨i, slots_of_getElem? hlen hi⟩

theorem exists_not_occupied {bs : List HashIndexBucket} (hfree : bs.countP (·.occupied) < bs.length) :
    ∃ b ∈ bs, b.occupied = false := by
  by_contra hall
  have hfull : bs.countP (·.occupied) = bs.length := by
    rw [List.countP_eq_length]
    intro b hb
    by_contra hocc
    exact hall ⟨b, hb, by simpa using hocc⟩
  omega

theorem exists_empty_slot {n : ℕ} {bs : List HashIndexBucket} (hlen : bs.length = n)
    (hfree : bs.countP (·.occupied) < n) : ∃ e, slots n bs e = none := by
  obtain ⟨b, hb, hocc⟩ := exists_not_occupied (hlen ▸ hfree)
  obtain ⟨i, hi⟩ := exists_slot_of_mem hlen hb
  exact ⟨i, hi.trans (slot_of_not_occupied hocc)⟩

/-- The invariant of the index between calls and between the rounds of an insertion. -/
structure Sound (hash : KvBlockKey → ℕ) (n : ℕ) (index : ConcurrentHashIndex) : Prop where
  capacity : index.capacity = n
  mask : index.mask = n - 1
  length : index.buckets.length = n
  wf : WF (home hash n) (slots n index.buckets)
  limit : ∀ i s, slots n index.buckets i = some s → s.dist ≤ n % 2 ^ 16
  count : index.count = index.buckets.countP (·.occupied)

variable {hash : KvBlockKey → ℕ} {n : ℕ} {self : ConcurrentHashIndex}

theorem Sound.getElem? (h : Sound hash n self) {idx : ℕ} (hidx : idx < n) :
    ∃ b, self.buckets[idx]? = some b ∧ slots n self.buckets idx = b.slot := by
  have hlt : idx < self.buckets.length := by rwa [h.length]
  have hb := List.getElem?_eq_getElem hlt
  exact ⟨_, hb, slots_of_getElem? h.length hb⟩

theorem Sound.start (h : Sound hash n self) (hn : TableSize n) (k : KvBlockKey) :
    hash k &&& self.mask < n ∧ ((hash k &&& self.mask : ℕ) : ZMod n) = home hash n k := by
  have hpos := hn.min
  rw [h.mask, hn.and_mask]
  exact ⟨Nat.mod_lt _ (by omega), by rw [ZMod.natCast_mod, home]⟩

theorem Sound.nextIdx (h : Sound hash n self) (hn : TableSize n) (idx : ℕ) :
    self.nextIdx idx < n ∧ ((self.nextIdx idx : ℕ) : ZMod n) = idx + 1 := by
  have hpos := hn.min
  rw [ConcurrentHashIndex.nextIdx, h.mask, hn.and_mask]
  exact ⟨Nat.mod_lt _ (by omega), by rw [ZMod.natCast_mod, Nat.cast_succ]⟩

/-- Writing an occupied bucket, with the count as the source adjusts it. -/
theorem Sound.put (h : Sound hash n self) {idx : ℕ} {b : HashIndexBucket}
    (hb : self.buckets[idx]? = some b) (b' : HashIndexBucket) (hocc : b'.occupied = true)
    (hwf : WF (home hash n) (update (slots n self.buckets) (idx : ZMod n) b'.slot))
    (hlim : b'.probeDistance.toNat ≤ n % 2 ^ 16) :
    Sound hash n { self.setBucket idx b' with
      count := self.count + if b.occupied then 0 else 1 } := by
  obtain ⟨hlt, hget⟩ := List.getElem?_eq_some_iff.mp hb
  have hset := slots_set h.length (by rwa [← h.length]) b'
  refine ⟨h.capacity, h.mask, ?_, ?_, ?_, ?_⟩
  · simp [ConcurrentHashIndex.setBucket, h.length]
  · dsimp only [ConcurrentHashIndex.setBucket]
    rwa [hset]
  · intro j s hj
    dsimp only [ConcurrentHashIndex.setBucket] at hj
    rw [hset] at hj
    rcases update_eq_some.mp hj with ⟨-, hs⟩ | ⟨-, hj⟩
    · rw [slot_of_occupied hocc] at hs
      rwa [← Option.some.inj hs]
    · exact h.limit j s hj
  · have hpos : b.occupied = true → 0 < self.buckets.countP (·.occupied) := fun ho =>
      List.countP_pos_iff.mpr ⟨b, List.mem_of_getElem? hb, ho⟩
    have hcount := h.count
    dsimp only [ConcurrentHashIndex.setBucket]
    rw [List.countP_set hlt, hget, hocc]
    cases ho : b.occupied
    · simp [hcount]
    · have := hpos ho
      simp
      omega

theorem Sound.overwrite (h : Sound hash n self) {idx : ℕ} {b : HashIndexBucket}
    (hb : self.buckets[idx]? = some b) (hocc : b.occupied = true) (b' : HashIndexBucket)
    (hocc' : b'.occupied = true)
    (hwf : WF (home hash n) (update (slots n self.buckets) (idx : ZMod n) b'.slot))
    (hlim : b'.probeDistance.toNat ≤ n % 2 ^ 16) : Sound hash n (self.setBucket idx b') := by
  have hput := h.put hb b' hocc' hwf hlim
  rw [if_pos hocc] at hput
  exact hput

theorem TableSize.limit_le {n : ℕ} (hn : TableSize n) : n % 2 ^ 16 ≤ 2 ^ 15 := by
  rcases hn.limit with ⟨h, hle⟩ | h <;> omega

/-- A probe distance that has not passed the stored one can be incremented. -/
theorem Sound.toNat_succ (h : Sound hash n self) (hn : TableSize n) {i : ZMod n}
    {s : Slot KvBlockKey IndexSlotValue} (hi : slots n self.buckets i = some s) {dist : UInt16}
    (hle : dist.toNat ≤ s.dist) : (dist + 1).toNat = dist.toNat + 1 := by
  have hs := h.limit i s hi
  have hl := hn.limit_le
  have h1 : (1 : UInt16).toNat = 1 := rfl
  rw [UInt16.toNat_add, h1]
  omega

theorem Sound.limit_lt_iff (h : Sound hash n self) {dist : UInt16} :
    self.capacity.toUInt16 < dist ↔ n % 2 ^ 16 < dist.toNat := by
  rw [UInt16.lt_iff_toNat_lt, h.capacity, Nat.toUInt16_eq, UInt16.toNat_ofNat']

theorem ne_of_slot {T : Table n KvBlockKey IndexSlotValue} {i e : ZMod n}
    {s : Slot KvBlockKey IndexSlotValue} (hi : T i = some s) (he : T e = none) : i ≠ e := by
  rintro rfl
  rw [hi] at he
  cases he

theorem ahead_next (hn : TableSize n) {T : Table n KvBlockKey IndexSlotValue} {i e : ZMod n}
    {s : Slot KvBlockKey IndexSlotValue} (hi : T i = some s) (he : T e = none) :
    ahead (i + 1) e + 1 = ahead i e := by
  have : NeZero n := hn.neZero
  exact ahead_succ (ne_of_slot hi he)

/-- What the loops of `get` and `remove` know in each round; `e` is an empty bucket. -/
structure Searching (hash : KvBlockKey → ℕ) (n : ℕ) (T : Table n KvBlockKey IndexSlotValue)
    (k : KvBlockKey) (e : ZMod n) (fuel idx : ℕ) (dist : UInt16) : Prop where
  idx_lt : idx < n
  probe : Probe (home hash n) T idx k dist.toNat
  rounds : ahead (idx : ZMod n) e < fuel

theorem Sound.searching (h : Sound hash n self) (hn : TableSize n) (k : KvBlockKey) (e : ZMod n) :
    Searching hash n (slots n self.buckets) k e self.capacity (hash k &&& self.mask) 0 := by
  have : NeZero n := hn.neZero
  obtain ⟨hlt, hcast⟩ := h.start hn k
  refine ⟨hlt, ?_, ?_⟩
  · rw [hcast]
    exact probe_home _ _ _
  · rw [h.capacity]
    exact ahead_lt _ _

theorem Searching.next (h : Sound hash n self) (hn : TableSize n) {k : KvBlockKey} {e : ZMod n}
    {fuel idx : ℕ} {dist : UInt16} {s : Slot KvBlockKey IndexSlotValue}
    (hs : Searching hash n (slots n self.buckets) k e (fuel + 1) idx dist)
    (he : slots n self.buckets e = none) (hi : slots n self.buckets idx = some s)
    (hle : dist.toNat ≤ s.dist) (hne : s.key ≠ k) :
    Searching hash n (slots n self.buckets) k e fuel (self.nextIdx idx) (dist + 1) := by
  obtain ⟨hlt, hcast⟩ := h.nextIdx hn idx
  refine ⟨hlt, ?_, ?_⟩
  · rw [hcast, h.toNat_succ hn hi hle]
    exact hs.probe.next h.wf hi hne
  · have hrounds := hs.rounds
    have hahead := ahead_next hn hi he
    rw [hcast]
    omega

theorem Searching.fresh_of_stop (h : Sound hash n self) {k : KvBlockKey} {e : ZMod n}
    {fuel idx : ℕ} {dist : UInt16} {b : HashIndexBucket}
    (hs : Searching hash n (slots n self.buckets) k e fuel idx dist)
    (hb : self.buckets[idx]? = some b)
    (hstop : (!b.occupied) = true ∨ b.probeDistance < dist) : Fresh (slots n self.buckets) k := by
  have hslot := slots_of_getElem? h.length hb
  refine hs.probe.fresh h.wf fun p hp => ?_
  rw [hslot] at hp
  by_cases hocc : b.occupied = true
  · rw [slot_of_occupied hocc] at hp
    have hlt : b.probeDistance < dist := by simpa [hocc] using hstop
    rw [← Option.some.inj hp]
    exact UInt16.lt_iff_toNat_lt.mp hlt
  · rw [slot_of_not_occupied (by simpa using hocc)] at hp
    cases hp

/-- A round of a search that goes on has found an occupied bucket whose distance is not shorter. -/
theorem occupied_of_not_stop {b : HashIndexBucket} {dist : UInt16}
    (hstop : ¬ ((!b.occupied) = true ∨ b.probeDistance < dist)) :
    b.occupied = true ∧ dist.toNat ≤ b.probeDistance.toNat := by
  obtain ⟨hocc, hlt⟩ := not_or.mp hstop
  rw [UInt16.lt_iff_toNat_lt] at hlt
  exact ⟨by simpa using hocc, Nat.not_lt.mp hlt⟩

/-- A result of `get`: the stored value, or `KeyNotFound` for a key that is not stored. -/
def Lookup (T : Table n KvBlockKey IndexSlotValue) (k : KvBlockKey) :
    Except HashIndexError IndexSlotValue → Prop
  | .ok v => Stores T k v
  | .error err => err = .keyNotFound k ∧ Fresh T k

theorem getLoop_spec (h : Sound hash n self) (hn : TableSize n) (k : KvBlockKey) {e : ZMod n}
    (he : slots n self.buckets e = none) (fuel idx : ℕ) (dist : UInt16)
    (hs : Searching hash n (slots n self.buckets) k e fuel idx dist) :
    ∃ r, self.getLoop k fuel idx dist = some r ∧ Lookup (slots n self.buckets) k r := by
  induction fuel generalizing idx dist with
  | zero => exact absurd hs.rounds (Nat.not_lt_zero _)
  | succ fuel ih =>
    obtain ⟨b, hb, hslot⟩ := h.getElem? hs.idx_lt
    rw [ConcurrentHashIndex.getLoop, hb]
    dsimp only
    by_cases hstop : (!b.occupied) = true ∨ b.probeDistance < dist
    · exact ⟨_, if_pos hstop, rfl, hs.fresh_of_stop h hb hstop⟩
    · obtain ⟨hocc, hle⟩ := occupied_of_not_stop hstop
      rw [slot_of_occupied hocc] at hslot
      rw [if_neg hstop]
      by_cases hk : b.key = k
      · exact ⟨_, if_pos hk, idx, _, hslot, hk, rfl⟩
      · have hnext := hs.next h hn he hslot hle hk
        rw [if_neg hk]
        by_cases hlim : self.capacity.toUInt16 < dist + 1
        · -- every stored distance is within the limit, so the search is over
          rw [if_pos hlim]
          rw [h.limit_lt_iff] at hlim
          refine ⟨_, rfl, rfl, fun j s hj hjk => ?_⟩
          have hfar := hnext.probe.ahead j s hj hjk
          have hnear := h.limit j s hj
          omega
        · rw [if_neg hlim]
          exact ih _ _ hnext

theorem Sound.slots_setBucket (h : Sound hash n self) {idx : ℕ} (hidx : idx < n)
    (b : HashIndexBucket) :
    slots n (self.setBucket idx b).buckets = update (slots n self.buckets) (idx : ZMod n) b.slot :=
  slots_set h.length hidx b

end Virthub.Index
