import Virthub.Index.HashIndex.Invariant

/-! The loop of `insert` stores the pair and keeps the invariant, round by round. -/
namespace Virthub.Index
open Virthub.Lib.RobinHood
open Function (update)

variable {hash : KvBlockKey → ℕ} {n : ℕ} {self : ConcurrentHashIndex}

/-- What an insertion ends with: the pair is stored, or a table whose distance limit has
wrapped to zero refuses it and stays as it was. -/
inductive InsertOutcome (hash : KvBlockKey → ℕ) (n : ℕ) (self : ConcurrentHashIndex)
    (k : KvBlockKey) (v : IndexSlotValue) :
    Except HashIndexError Unit × ConcurrentHashIndex → Prop
  | stored (self' : ConcurrentHashIndex) (sound : Sound hash n self')
      (puts : Puts (slots n self.buckets) k v (slots n self'.buckets))
      (count : self'.count ≤ self.count + 1) : InsertOutcome hash n self k v (.ok (), self')
  | refused (limit : n % 2 ^ 16 = 0) :
      InsertOutcome hash n self k v (.error (.capacityExceeded n), self)

/-- What the loop of `insert` knows in each round; `e` is an empty bucket. -/
structure Inserting (hash : KvBlockKey → ℕ) (n : ℕ) (index : ConcurrentHashIndex) (e : ZMod n)
    (fuel idx : ℕ) (k : KvBlockKey) (v : IndexSlotValue) (dist : UInt16) : Prop where
  sound : Sound hash n index
  idx_lt : idx < n
  carry : Carry (home hash n) (slots n index.buckets) idx ⟨k, v, dist.toNat⟩
  dist_le : dist.toNat ≤ n % 2 ^ 16
  empty : slots n index.buckets e = none
  rounds : ahead (idx : ZMod n) e < fuel

section Insert

variable {e : ZMod n} {fuel idx : ℕ} {k : KvBlockKey} {v : IndexSlotValue} {dist : UInt16}
  {b : HashIndexBucket}

theorem Inserting.put_empty (hs : Inserting hash n self e fuel idx k v dist)
    (hb : self.buckets[idx]? = some b) (hocc : b.occupied = false) :
    InsertOutcome hash n self k v (.ok (),
      { self.setBucket idx ⟨k, v, true, dist⟩ with count := self.count + 1 }) := by
  have hslot := slots_of_getElem? hs.sound.length hb
  rw [slot_of_not_occupied hocc] at hslot
  have hput := hs.sound.put hb ⟨k, v, true, dist⟩ rfl (hs.carry.put hs.sound.wf hslot)
    hs.dist_le
  rw [hocc] at hput
  have hf := hs.carry.toProbe.fresh hs.sound.wf (by simp [hslot])
  refine .stored _ hput ?_ (Nat.le_refl _)
  have hset := hs.sound.slots_setBucket hs.idx_lt ⟨k, v, true, dist⟩
  dsimp only
  rw [hset]
  exact Fresh.puts (c := ⟨k, v, dist.toNat⟩) hf hslot

theorem Inserting.put_update (hs : Inserting hash n self e fuel idx k v dist)
    (hb : self.buckets[idx]? = some b) (hocc : b.occupied = true) (hk : b.key = k) :
    InsertOutcome hash n self k v (.ok (), self.setBucket idx { b with value := v }) := by
  have hslot := slots_of_getElem? hs.sound.length hb
  rw [slot_of_occupied hocc] at hslot
  have hslot' : { b with value := v : HashIndexBucket }.slot =
      some ⟨b.key, v, b.probeDistance.toNat⟩ := slot_of_occupied hocc
  have hwf := hs.sound.wf.setValue hslot v
  have hput := hs.sound.overwrite hb hocc { b with value := v } hocc (by rwa [hslot'])
    (hs.sound.limit _ _ hslot)
  refine .stored _ hput ?_ (Nat.le_succ _)
  rw [hs.sound.slots_setBucket hs.idx_lt, hslot', ← hk]
  exact hs.sound.wf.setValue_puts hslot v

theorem Inserting.next (hs : Inserting hash n self e (fuel + 1) idx k v dist) (hn : TableSize n)
    (hb : self.buckets[idx]? = some b) (hocc : b.occupied = true) (hk : b.key ≠ k)
    (hle : dist.toNat ≤ b.probeDistance.toNat) (hlim : ¬ self.capacity.toUInt16 < dist + 1) :
    Inserting hash n self e fuel (self.nextIdx idx) k v (dist + 1) := by
  have hslot := slots_of_getElem? hs.sound.length hb
  rw [slot_of_occupied hocc] at hslot
  obtain ⟨hlt, hcast⟩ := hs.sound.nextIdx hn idx
  have hsucc := hs.sound.toNat_succ hn hslot hle
  rw [hs.sound.limit_lt_iff] at hlim
  refine ⟨hs.sound, hlt, ?_, by omega, hs.empty, ?_⟩
  · rw [hcast, hsucc]
    exact hs.carry.next hs.sound.wf hslot hk hle
  · have hahead := ahead_next hn hslot hs.empty
    have hrounds := hs.rounds
    rw [hcast]
    omega

/-- The distance limit of a small table is never reached: its probe distances stay below
the capacity. -/
theorem Inserting.limit_zero (hs : Inserting hash n self e fuel idx k v dist) (hn : TableSize n)
    (hb : self.buckets[idx]? = some b) (hocc : b.occupied = true)
    (hle : dist.toNat ≤ b.probeDistance.toNat) (hlim : self.capacity.toUInt16 < dist + 1) :
    n % 2 ^ 16 = 0 := by
  have : NeZero n := hn.neZero
  have hslot := slots_of_getElem? hs.sound.length hb
  rw [slot_of_occupied hocc] at hslot
  have hsucc := hs.sound.toNat_succ hn hslot hle
  have hlt := hs.sound.wf.dist_lt hs.empty hslot
  rw [hs.sound.limit_lt_iff] at hlim
  rcases hn.limit with ⟨heq, -⟩ | h0
  · dsimp only at hlt
    omega
  · exact h0

/-- A shorter stored distance shows that the carried key is new. -/
theorem Inserting.fresh_of_lt (hs : Inserting hash n self e fuel idx k v dist)
    (hb : self.buckets[idx]? = some b) (hocc : b.occupied = true)
    (hlt : b.probeDistance < dist) : Fresh (slots n self.buckets) k := by
  have hslot := slots_of_getElem? hs.sound.length hb
  rw [slot_of_occupied hocc] at hslot
  refine hs.carry.toProbe.fresh hs.sound.wf fun p hp => ?_
  rw [hslot] at hp
  rw [← Option.some.inj hp]
  exact UInt16.lt_iff_toNat_lt.mp hlt

theorem Inserting.slots_swap (hs : Inserting hash n self e fuel idx k v dist)
    (hocc : b.occupied = true) :
    slots n (self.setBucket idx { b with key := k, value := v, probeDistance := dist }).buckets =
      update (slots n self.buckets) (idx : ZMod n) (some ⟨k, v, dist.toNat⟩) := by
  have hslot : { b with key := k, value := v, probeDistance := dist : HashIndexBucket }.slot =
      some ⟨k, v, dist.toNat⟩ := slot_of_occupied hocc
  rw [hs.sound.slots_setBucket hs.idx_lt, hslot]

theorem Inserting.swap (hs : Inserting hash n self e (fuel + 1) idx k v dist) (hn : TableSize n)
    (hb : self.buckets[idx]? = some b) (hocc : b.occupied = true)
    (hlt : b.probeDistance < dist) :
    Inserting hash n (self.setBucket idx { b with key := k, value := v, probeDistance := dist }) e
      fuel (self.nextIdx idx) b.key b.value (b.probeDistance + 1) := by
  have hf := hs.fresh_of_lt hb hocc hlt
  have hset := hs.slots_swap hocc
  have hset' := hs.sound.slots_setBucket hs.idx_lt
    { b with key := k, value := v, probeDistance := dist }
  have hslot := slots_of_getElem? hs.sound.length hb
  rw [slot_of_occupied hocc] at hslot
  rw [UInt16.lt_iff_toNat_lt] at hlt
  obtain ⟨hwf, hcarry⟩ := hs.carry.swap hs.sound.wf hslot hf hlt
  have hsound := hs.sound.overwrite hb hocc
    { b with key := k, value := v, probeDistance := dist } hocc (by rwa [← hset', hset]) hs.dist_le
  obtain ⟨hidx, hcast⟩ := hs.sound.nextIdx hn idx
  have hsucc := hs.sound.toNat_succ hn hslot (Nat.le_refl _)
  have hd := hs.dist_le
  refine ⟨hsound, hidx, ?_, by omega, ?_, ?_⟩
  · rw [hset, hcast, hsucc]
    exact hcarry
  · rw [hset, Function.update_of_ne]
    · exact hs.empty
    · exact (ne_of_slot hslot hs.empty).symm
  · have hahead := ahead_next hn hslot hs.empty
    have hrounds := hs.rounds
    rw [hcast]
    omega

theorem Inserting.outcome_of_swap (hs : Inserting hash n self e fuel idx k v dist)
    (hb : self.buckets[idx]? = some b) (hocc : b.occupied = true) (hlt : b.probeDistance < dist)
    {out : Except HashIndexError Unit × ConcurrentHashIndex}
    (ho : InsertOutcome hash n
      (self.setBucket idx { b with key := k, value := v, probeDistance := dist }) b.key b.value out) :
    InsertOutcome hash n self k v out := by
  have hf := hs.fresh_of_lt hb hocc hlt
  have hslot := slots_of_getElem? hs.sound.length hb
  rw [slot_of_occupied hocc] at hslot
  cases ho with
  | stored self' sound puts count =>
    refine .stored self' sound ?_ count
    rw [hs.slots_swap hocc] at puts
    exact hs.sound.wf.swap_puts (c := ⟨k, v, dist.toNat⟩) hslot hf puts
  | refused limit =>
    -- a displacement needs a positive distance, which the limit zero excludes
    have hdist := hs.dist_le
    rw [UInt16.lt_iff_toNat_lt] at hlt
    omega

theorem insertLoop_spec (hn : TableSize n) (hs : Inserting hash n self e fuel idx k v dist) :
    ∃ out, ConcurrentHashIndex.insertLoop fuel self idx k v dist = some out ∧
      InsertOutcome hash n self k v out := by
  induction fuel generalizing self idx k v dist with
  | zero => exact absurd hs.rounds (Nat.not_lt_zero _)
  | succ fuel ih =>
    obtain ⟨b, hb, -⟩ := hs.sound.getElem? hs.idx_lt
    rw [ConcurrentHashIndex.insertLoop, hb]
    dsimp only
    by_cases hocc : b.occupied = true
    · rw [if_neg (by simp [hocc])]
      by_cases hk : b.key = k
      · exact ⟨_, if_pos hk, hs.put_update hb hocc hk⟩
      · rw [if_neg hk]
        by_cases hlt : b.probeDistance < dist
        · have hnext := hs.swap hn hb hocc hlt
          have hlim : ¬ self.capacity.toUInt16 < b.probeDistance + 1 := by
            have hd := hnext.dist_le
            rw [hs.sound.limit_lt_iff]
            omega
          obtain ⟨out, hout, ho⟩ := ih hnext
          rw [if_pos hlt]
          exact ⟨out, (if_neg hlim).trans hout, hs.outcome_of_swap hb hocc hlt ho⟩
        · have hle : dist.toNat ≤ b.probeDistance.toNat := by
            rw [UInt16.lt_iff_toNat_lt] at hlt
            omega
          rw [if_neg hlt]
          by_cases hlim : self.capacity.toUInt16 < dist + 1
          · have h0 := hs.limit_zero hn hb hocc hle hlim
            rw [if_pos hlim, hs.sound.capacity]
            exact ⟨_, rfl, .refused h0⟩
          · rw [if_neg hlim]
            exact ih (hs.next hn hb hocc hk hle hlim)
    · exact ⟨_, if_pos (by simp [hocc]), hs.put_empty hb (by simpa using hocc)⟩

end Insert

end Virthub.Index
