import Virthub.Index.HashIndex.Refinement

/-! When an insertion is refused. The limit of the probe loop is the capacity cut to 16 bits, which is zero
for the tables from 65536 buckets on: there an insertion below the load limit fails as soon as another key
has its bucket. -/
namespace Virthub.Index
open Virthub.Lib Virthub.Lib.RobinHood

/-- An insertion that fails for the capacity finds more than three quarters of the buckets in use. -/
def RefusesOnlyFull (e : IndexEvent) : Prop :=
  ∀ k v c, e.call = .insert k v → e.answer = some (.inserted (.error (.capacityExceeded c))) →
    3 * e.pre.capacity < 4 * e.pre.len

def HomeTaken (hash : KvBlockKey → ℕ) (s : ConcurrentHashIndex) (k : KvBlockKey) : Prop :=
  ∃ b, s.buckets[hash k &&& s.mask]? = some b ∧ b.occupied = true ∧ b.key ≠ k

/-- In a table of 65536 buckets or more, an insertion below the load limit finds its bucket free or with its
key. -/
def FindsHome (hash : KvBlockKey → ℕ) (s : ConcurrentHashIndex) : IndexCall → Prop
  | .insert k _ => 65536 ≤ s.capacity → 4 * s.len ≤ 3 * s.capacity → ¬ HomeTaken hash s k
  | _ => True

variable {hash : KvBlockKey → ℕ} {n : ℕ} {m : KvBlockKey → Option IndexSlotValue}
  {self : ConcurrentHashIndex}

/-- The quotient that is compared with the load limit is not rounded above it. -/
theorem lt_of_overloaded (h : Holds hash m self n) (hload : self.overloaded = true) :
    3 * n < 4 * self.count := by
  obtain ⟨p, rfl⟩ := h.size.pow
  have hmin := h.size.min
  have hp : 4 ≤ p := by
    by_contra hlt
    have hle : 2 ^ p ≤ 2 ^ 3 := Nat.pow_le_pow_right (by decide) (by omega)
    omega
  obtain ⟨q, rfl⟩ : ∃ q, p = q + 2 := ⟨p - 2, by omega⟩
  have hquarter : 2 ^ (q + 2) = 4 * 2 ^ q := by ring
  unfold ConcurrentHashIndex.overloaded at hload
  rw [h.sound.capacity, natToF64_two_pow, decide_eq_true_iff] at hload
  by_contra hle
  have hlog : Nat.log2 self.count - 52 ≤ q := by
    by_cases hzero : self.count = 0
    · simp [hzero]
    · have hlt := (Nat.log2_lt hzero).mpr h.free
      omega
  have hround : natToF64 self.count ≤ 3 * 2 ^ q :=
    natToF64_le ((Nat.pow_dvd_pow 2 hlog).mul_left 3) (by omega)
  omega

theorem limit_eq_zero_iff (hn : TableSize n) : n % 2 ^ 16 = 0 ↔ 65536 ≤ n := by
  have hmin := hn.min
  rcases hn.limit with ⟨heq, hle⟩ | hzero
  · omega
  · exact iff_of_true hzero (by omega)

theorem insertLocked_eq (h : Holds hash m self n) (k : KvBlockKey) (v : IndexSlotValue) :
    ∃ rounds, self.insertLocked hash k v =
      ConcurrentHashIndex.insertLoop (rounds + 1) self (hash k &&& self.mask) k v 0 := by
  have hmin := h.size.min
  refine ⟨self.capacity - 1, ?_⟩
  rw [ConcurrentHashIndex.insertLocked, h.sound.capacity, Nat.sub_add_cancel (by omega)]

theorem insertLocked_of_homeTaken (h : Holds hash m self n) (hlarge : 65536 ≤ n) {k : KvBlockKey}
    (htaken : HomeTaken hash self k) (v : IndexSlotValue) :
    self.insertLocked hash k v = some (.error (.capacityExceeded self.capacity), self) := by
  obtain ⟨b, hb, hocc, hk⟩ := htaken
  obtain ⟨rounds, hfirst⟩ := insertLocked_eq h k v
  have hlim : self.capacity.toUInt16 < 0 + 1 := by
    rw [h.sound.limit_lt_iff, (limit_eq_zero_iff h.size).mpr hlarge]
    decide
  rw [hfirst, ConcurrentHashIndex.insertLoop, hb]
  dsimp only
  rw [if_neg (by simp [hocc]), if_neg hk, if_neg (by simp), if_pos hlim]

theorem insertLocked_of_not_homeTaken (h : Holds hash m self n) {k : KvBlockKey}
    (hhome : ¬ (65536 ≤ n ∧ HomeTaken hash self k)) (v : IndexSlotValue) :
    ∃ self', self.insertLocked hash k v = some (.ok (), self') := by
  obtain ⟨e, hstart⟩ := h.inserting k v
  by_cases htaken : HomeTaken hash self k
  · obtain ⟨out, hout, ho⟩ := insertLoop_spec h.size hstart
    cases ho with
    | stored self' sound puts count => exact ⟨self', hout⟩
    | refused limit => exact absurd ⟨(limit_eq_zero_iff h.size).mp limit, htaken⟩ hhome
  · obtain ⟨rounds, hfirst⟩ := insertLocked_eq h k v
    obtain ⟨b, hb, -⟩ := h.sound.getElem? hstart.idx_lt
    rw [hfirst, ConcurrentHashIndex.insertLoop, hb]
    dsimp only
    by_cases hocc : b.occupied = true
    · have hk : b.key = k := by
        by_contra hne
        exact htaken ⟨b, hb, hocc, hne⟩
      exact ⟨_, by rw [if_neg (by simp [hocc]), if_pos hk]⟩
    · exact ⟨_, if_pos (by simp [hocc])⟩

/-- An insertion is refused for the load, or by the wrapped limit of a large table. -/
theorem insert_answer (h : Holds hash m self n) (k : KvBlockKey) (v : IndexSlotValue) :
    (event (step hash) self (.insert k v)).answer =
        some (.inserted (.error (.capacityExceeded self.capacity))) ∧
      (self.overloaded = true ∨ 65536 ≤ n ∧ HomeTaken hash self k) ∨
    (event (step hash) self (.insert k v)).answer = some (.inserted (.ok ())) ∧
      ¬ (self.overloaded = true ∨ 65536 ≤ n ∧ HomeTaken hash self k) := by
  dsimp only [event, step]
  unfold ConcurrentHashIndex.insert ConcurrentHashIndex.checkCapacity
  cases hload : self.overloaded with
  | true => exact .inl ⟨rfl, .inl rfl⟩
  | false =>
    by_cases hhome : 65536 ≤ n ∧ HomeTaken hash self k
    · left
      refine ⟨?_, .inr hhome⟩
      rw [if_neg (by simp)]
      dsimp only
      rw [insertLocked_of_homeTaken h hhome.1 hhome.2 v, answered]
    · right
      obtain ⟨self', hok⟩ := insertLocked_of_not_homeTaken h hhome v
      refine ⟨?_, by simpa using hhome⟩
      rw [if_neg (by simp)]
      dsimp only
      rw [hok, answered]

theorem refusesOnlyFull_event_iff (h : Holds hash m self n) (c : IndexCall) :
    RefusesOnlyFull (event (step hash) self c) ↔ FindsHome hash self c := by
  cases c with
  | insert k v =>
    have hcap := h.sound.capacity
    rcases insert_answer h k v with ⟨hans, hwhy⟩ | ⟨hans, hnot⟩
    · constructor
      · intro hfull _ hbelow _
        have := hfull k v _ rfl hans
        dsimp only [event] at this
        omega
      · intro hhome k' v' c hcall _
        cases hcall
        dsimp only [event]
        rw [hcap]
        rcases hwhy with hload | ⟨hlarge, htaken⟩
        · exact lt_of_overloaded h hload
        · by_contra hbelow
          exact hhome (by omega) (by rw [hcap]; omega) htaken
    · rw [not_or] at hnot
      constructor
      · intro _ hlarge _ htaken
        exact hnot.2 ⟨by omega, htaken⟩
      · intro _ k' v' c _ herr
        rw [hans] at herr
        cases herr
  | get k => exact iff_of_true (fun _ _ _ hcall => by cases hcall) trivial
  | remove k => exact iff_of_true (fun _ _ _ hcall => by cases hcall) trivial
  | len => exact iff_of_true (fun _ _ _ hcall => by cases hcall) trivial
  | iter => exact iff_of_true (fun _ _ _ hcall => by cases hcall) trivial

/-- For every requested capacity, hash function and sequence of calls: insertions fail only in a full table
exactly if, in a table of 65536 buckets or more, no insertion below the limit meets another key in its
bucket. -/
theorem refusesOnlyFull_iff (hash : KvBlockKey → ℕ) (capacity : ℕ) (index : ConcurrentHashIndex)
    (hnew : ConcurrentHashIndex.new capacity = .ok index) (calls : List IndexCall) :
    (∀ e ∈ trace (step hash) index calls, RefusesOnlyFull e) ↔
      Along (fun _ => FindsHome hash) (step hash) index calls := by
  cases hnew
  rw [forall_mem_trace_iff_along]
  apply along_iff_along (I := fun h s =>
    Holds hash (present h) s (max (Nat.nextPowerOfTwo capacity % 2 ^ 64) 16))
  · exact Holds.new hash capacity
  · intro h s c hholds _
    rw [present_concat]
    exact (hholds.step c).1
  · intro h s c hholds
    exact refusesOnlyFull_event_iff hholds c

theorem not_homeTaken_of_free {k : KvBlockKey}
    (hfree : (self.buckets[hash k &&& self.mask]?).map (·.occupied) = some false) :
    ¬ HomeTaken hash self k := by
  intro ⟨b, hb, hocc, _⟩
  rw [hb, Option.map_some, hocc] at hfree
  cases hfree

def largeTable : ConcurrentHashIndex :=
  ⟨List.replicate 65536 HashIndexBucket.empty, 65536, 65535, 0⟩

theorem new_largeTable : ConcurrentHashIndex.new 65536 = .ok largeTable := by
  have hcap : max (Nat.nextPowerOfTwo 65536 % 2 ^ 64) 16 = 65536 := by decide +kernel
  unfold ConcurrentHashIndex.new
  rw [hcap]
  rfl

/-- Two keys with buckets of their own, and the first one again after a removal. -/
theorem refusesOnlyFull_two_buckets :
    ConcurrentHashIndex.new 65536 = .ok largeTable ∧
      ∀ e ∈ trace (step ConcurrentHashIndex.hashKey) largeTable
          [.insert ⟨1, 12028⟩ ⟨0, 0, 0⟩, .insert ⟨1, 12029⟩ ⟨0, 64, 0⟩, .remove ⟨1, 12028⟩,
            .insert ⟨1, 12028⟩ ⟨0, 128, 0⟩],
        RefusesOnlyFull e := by
  refine ⟨new_largeTable, (refusesOnlyFull_iff _ 65536 largeTable new_largeTable _).mpr ?_⟩
  simp only [along_cons, along_nil, and_true]
  refine ⟨?_, ?_, trivial, ?_⟩
  all_goals
    intro _ _
    apply not_homeTaken_of_free
    decide +kernel

theorem answer_of_insert {k : KvBlockKey} {v : IndexSlotValue} {r : Except HashIndexError Unit}
    (h : (self.insert hash k v).map Prod.fst = some r) :
    (event (step hash) self (.insert k v)).answer = some (.inserted r) := by
  obtain ⟨out, hout, rfl⟩ := Option.map_eq_some_iff.mp h
  dsimp only [event, step]
  rw [hout, answered]

/-- Two keys with the same bucket: the second one does not fit into 65536 buckets. -/
theorem second_key_of_bucket_refused :
    ConcurrentHashIndex.new 65536 = .ok largeTable ∧
      ¬ ∀ e ∈ trace (step ConcurrentHashIndex.hashKey) largeTable
          [.insert ⟨1, 12028⟩ ⟨0, 0, 0⟩, .insert ⟨1, 78100⟩ ⟨0, 0, 0⟩], RefusesOnlyFull e := by
  refine ⟨new_largeTable, fun hall => ?_⟩
  have hlast := hall _ (List.mem_cons_of_mem _ List.mem_cons_self)
  have hans : (((step ConcurrentHashIndex.hashKey largeTable (.insert ⟨1, 12028⟩ ⟨0, 0, 0⟩)).2.insert
      ConcurrentHashIndex.hashKey ⟨1, 78100⟩ ⟨0, 0, 0⟩).map Prod.fst) =
        some (.error (.capacityExceeded 65536)) := by decide +kernel
  have hfull := hlast ⟨1, 78100⟩ ⟨0, 0, 0⟩ 65536 rfl (answer_of_insert hans)
  exact absurd hfull (by decide +kernel)

end Virthub.Index
