import Mathlib.Data.ZMod.Basic
import Mathlib.Tactic.LinearCombination
import Mathlib.Tactic.Ring

/-! Open addressing on a ring of `n` buckets with stored probe distances. A table is well
formed when every key sits at its distance from home and distances grow by at most one from
a bucket to the next; lookups may then stop at the first shorter distance. -/
namespace Virthub.Lib.RobinHood
open Function (update)

variable {n : ℕ} {K V : Type*}

structure Slot (K V : Type*) where
  key : K
  value : V
  dist : ℕ

abbrev Table (n : ℕ) (K V : Type*) := ZMod n → Option (Slot K V)

/-- The table holds `v` under `k`. -/
def Stores (T : Table n K V) (k : K) (v : V) : Prop := ∃ i s, T i = some s ∧ s.key = k ∧ s.value = v

/-- No bucket holds the key. -/
def Fresh (T : Table n K V) (k : K) : Prop := ∀ i s, T i = some s → s.key ≠ k

structure WF (home : K → ZMod n) (T : Table n K V) : Prop where
  place : ∀ i s, T i = some s → home s.key + s.dist = i
  chain : ∀ i s, T i = some s → 0 < s.dist → ∃ p, T (i - 1) = some p ∧ s.dist ≤ p.dist + 1
  unique : ∀ i j s t, T i = some s → T j = some t → s.key = t.key → i = j

variable {home : K → ZMod n} {T : Table n K V}

theorem wf_empty (home : K → ZMod n) : WF home (fun _ => none : Table n K V) :=
  ⟨by simp, by simp, by simp⟩

theorem Fresh.not_stores {k : K} (h : Fresh T k) (v : V) : ¬ Stores T k v := by
  rintro ⟨i, s, hi, hk, -⟩
  exact h i s hi hk

/-- Walking back towards home the buckets are occupied and their distances shrink slowly. -/
theorem WF.chain_back (h : WF home T) {i : ZMod n} {s : Slot K V} (hi : T i = some s) (j : ℕ)
    (hj : j ≤ s.dist) : ∃ p, T (i - j) = some p ∧ s.dist ≤ p.dist + j := by
  induction j with
  | zero => exact ⟨s, by simpa using hi, le_rfl⟩
  | succ j ih =>
    obtain ⟨p, hp, hd⟩ := ih (by omega)
    obtain ⟨q, hq, hd'⟩ := h.chain _ p hp (by omega)
    refine ⟨q, ?_, by omega⟩
    rw [← hq]
    congr 1
    push_cast
    ring

/-- A bucket at distance `d` from a key's home that is empty, or holds a shorter distance,
ends every search for the key: it can only be stored nearer to home. -/
theorem WF.dist_lt_of_stop (h : WF home T) {i : ZMod n} {s : Slot K V} (hi : T i = some s) {d : ℕ}
    (hstop : ∀ p, T (home s.key + d) = some p → p.dist < d) : s.dist < d := by
  by_contra hlt
  obtain ⟨p, hp, hd⟩ := h.chain_back hi (s.dist - d) (by omega)
  have hpos : i - ((s.dist - d : ℕ) : ZMod n) = home s.key + d := by
    rw [← h.place i s hi, Nat.cast_sub (by omega)]
    ring
  rw [hpos] at hp
  have := hstop p hp
  omega

/-- A search for `k` that has come to bucket `i`, `d` steps from home, without meeting it. -/
structure Probe (home : K → ZMod n) (T : Table n K V) (i : ZMod n) (k : K) (d : ℕ) : Prop where
  place : home k + d = i
  ahead : ∀ j s, T j = some s → s.key = k → d ≤ s.dist

theorem probe_home (home : K → ZMod n) (T : Table n K V) (k : K) : Probe home T (home k) k 0 :=
  ⟨by simp, fun _ _ _ _ => Nat.zero_le _⟩

/-- The key is not stored once the search meets an empty bucket or a shorter distance. -/
theorem Probe.fresh {i : ZMod n} {k : K} {d : ℕ} (hp : Probe home T i k d) (h : WF home T)
    (hstop : ∀ p, T i = some p → p.dist < d) : Fresh T k := by
  rintro j s hj rfl
  have hlt := h.dist_lt_of_stop hj (by rwa [hp.place])
  have hle := hp.ahead j s hj rfl
  omega

/-- Passing a bucket that holds another key brings the search one step further. -/
theorem Probe.next {i : ZMod n} {k : K} {d : ℕ} {p : Slot K V} (hp : Probe home T i k d)
    (h : WF home T) (hi : T i = some p) (hne : p.key ≠ k) : Probe home T (i + 1) k (d + 1) := by
  constructor
  · rw [← hp.place]
    push_cast
    ring
  · rintro j s hj rfl
    have hle := hp.ahead j s hj rfl
    by_contra hlt
    have hd : s.dist = d := by omega
    have hpos := h.place j s hj
    rw [hd, hp.place] at hpos
    rw [hpos, hj] at hi
    exact hne (congrArg Slot.key (Option.some.inj hi)).symm

/-- Cyclic distance from a bucket to another one. -/
def ahead (i e : ZMod n) : ℕ := (e - i).val

theorem ahead_lt [NeZero n] (i e : ZMod n) : ahead i e < n := ZMod.val_lt _

theorem ahead_succ [NeZero n] {i e : ZMod n} (h : i ≠ e) : ahead (i + 1) e + 1 = ahead i e := by
  have hpos : 0 < (e - i).val := by
    rw [ZMod.val_pos]
    exact sub_ne_zero.mpr (Ne.symm h)
  have hcast : e - (i + 1) = (((e - i).val - 1 : ℕ) : ZMod n) := by
    rw [Nat.cast_sub hpos, ZMod.natCast_zmod_val]
    push_cast
    ring
  have hlt := ZMod.val_lt (e - i)
  rw [ahead, hcast, ZMod.val_cast_of_lt (by omega), ahead]
  omega

/-- Buckets that are visited one after the other on the way from `i` to `e`. -/
structure Walk (e i : ZMod n) (visited : List (ZMod n)) : Prop where
  nodup : visited.Nodup
  between : ∀ j ∈ visited, ahead j e ≤ ahead i e

theorem walk_singleton (e i : ZMod n) : Walk e i [i] := ⟨List.nodup_singleton i, by simp⟩

/-- A bucket before `e` is not visited again later. -/
theorem Walk.cons [NeZero n] {e i : ZMod n} {visited : List (ZMod n)} (h : Walk e (i + 1) visited)
    (hi : i ≠ e) :
    Walk e i (i :: visited) := by
  have hahead := ahead_succ hi
  constructor
  · apply List.nodup_cons.mpr
    constructor
    · intro hmem
      have hle := h.between i hmem
      omega
    · exact h.nodup
  · intro j hj
    rcases List.mem_cons.mp hj with rfl | hj
    · exact Nat.le_refl _
    · have hle := h.between j hj
      omega

/-- A walk over occupied buckets is shorter than the ring, since it misses an empty one. -/
theorem walk_lt [NeZero n] {e b : ZMod n} (he : T e = none) {d : ℕ}
    (hocc : ∀ j ≤ d, T (b + (j : ℕ)) ≠ none) : d + 1 < n := by
  have hlt := ZMod.val_lt (e - b)
  by_contra hge
  have hle : (e - b).val ≤ d := by omega
  apply hocc _ hle
  rw [ZMod.natCast_zmod_val]
  simpa using he

theorem WF.dist_lt [NeZero n] (h : WF home T) {e : ZMod n} (he : T e = none) {i : ZMod n}
    {s : Slot K V} (hi : T i = some s) : s.dist + 1 < n := by
  refine walk_lt (b := home s.key) he fun j hj hnone => ?_
  obtain ⟨p, hp, -⟩ := h.chain_back hi (s.dist - j) (by omega)
  have hpos : i - ((s.dist - j : ℕ) : ZMod n) = home s.key + j := by
    rw [← h.place i s hi, Nat.cast_sub hj]
    ring
  rw [hpos, hnone] at hp
  cases hp

theorem update_eq_some {i j : ZMod n} {o : Option (Slot K V)} {s : Slot K V} :
    update T i o j = some s ↔ (j = i ∧ o = some s) ∨ (j ≠ i ∧ T j = some s) := by
  by_cases hji : j = i
  · subst hji
    simp
  · simp [hji]

/-- Writing a slot keeps a table well formed when the slot fits behind its predecessor and
before its successor, and its key stands nowhere else. -/
theorem WF.set (h : WF home T) {i : ZMod n} {c : Slot K V} (hplace : home c.key + c.dist = i)
    (hpred : 0 < c.dist → ∃ p, T (i - 1) = some p ∧ c.dist ≤ p.dist + 1)
    (hsucc : ∀ u, T (i + 1) = some u → u.dist ≤ c.dist + 1)
    (hkey : ∀ j s, T j = some s → s.key = c.key → j = i) : WF home (update T i (some c)) := by
  constructor
  · intro j s hj
    rcases update_eq_some.mp hj with ⟨rfl, hc⟩ | ⟨-, hj⟩
    · obtain rfl := Option.some.inj hc
      exact hplace
    · exact h.place j s hj
  · intro j s hj hs
    -- the predecessor in `T` serves unless it is the bucket just written
    rcases update_eq_some.mp hj with ⟨rfl, hc⟩ | ⟨hji, hj⟩
    · obtain rfl := Option.some.inj hc
      by_cases hpi : j - 1 = j
      · exact ⟨c, by rw [hpi, Function.update_self], by omega⟩
      · rw [Function.update_of_ne hpi]
        exact hpred hs
    · by_cases hpi : j - 1 = i
      · refine ⟨c, by rw [hpi, Function.update_self], hsucc s ?_⟩
        rw [← hpi, sub_add_cancel]
        exact hj
      · rw [Function.update_of_ne hpi]
        exact h.chain j s hj hs
  · intro j l s t hj hl hst
    rcases update_eq_some.mp hj with ⟨rfl, hc⟩ | ⟨hji, hj⟩
    · obtain rfl := Option.some.inj hc
      rcases update_eq_some.mp hl with ⟨rfl, -⟩ | ⟨-, hl⟩
      · rfl
      · exact (hkey l t hl hst.symm).symm
    · rcases update_eq_some.mp hl with ⟨hli, hc⟩ | ⟨-, hl⟩
      · obtain rfl := Option.some.inj hc
        rw [hli]
        exact hkey j s hj hst
      · exact h.unique j l s t hj hl hst

/-- A slot that an insertion carries to bucket `i`, ready to be put down there. -/
structure Carry (home : K → ZMod n) (T : Table n K V) (i : ZMod n) (c : Slot K V) : Prop extends
    Probe home T i c.key c.dist where
  pred : 0 < c.dist → ∃ p, T (i - 1) = some p ∧ c.dist ≤ p.dist + 1

theorem carry_home (home : K → ZMod n) (T : Table n K V) (k : K) (v : V) :
    Carry home T (home k) ⟨k, v, 0⟩ :=
  ⟨probe_home home T k, fun h => absurd h (Nat.lt_irrefl 0)⟩

theorem Carry.put (h : WF home T) {i : ZMod n} {c : Slot K V} (hc : Carry home T i c)
    (hi : T i = none) : WF home (update T i (some c)) := by
  have hf := hc.toProbe.fresh h (by simp [hi])
  refine h.set hc.place hc.pred ?_ fun j s hj hk => absurd hk (hf j s hj)
  intro u hu
  by_contra hlt
  obtain ⟨p, hp, -⟩ := h.chain _ u hu (by omega)
  rw [add_sub_cancel_right, hi] at hp
  cases hp

/-- The distance behind an occupied bucket is at most one more than its own. -/
theorem WF.succ_dist_le (h : WF home T) {i : ZMod n} {s u : Slot K V} (hi : T i = some s)
    (hu : T (i + 1) = some u) : u.dist ≤ s.dist + 1 := by
  by_cases hpos : 0 < u.dist
  · obtain ⟨p, hp, hd⟩ := h.chain _ u hu hpos
    rw [add_sub_cancel_right, hi] at hp
    rwa [← Option.some.inj hp] at hd
  · omega

/-- Overwriting the value of a stored key. -/
theorem WF.setValue (h : WF home T) {i : ZMod n} {s : Slot K V} (hi : T i = some s) (v : V) :
    WF home (update T i (some { s with value := v })) :=
  h.set (c := { s with value := v }) (h.place i s hi) (h.chain i s hi)
    (fun _ hu => h.succ_dist_le (s := s) hi hu) fun j t hj hk => h.unique j i t s hj hi hk

theorem Carry.swap (h : WF home T) {i : ZMod n} {c s : Slot K V} (hc : Carry home T i c)
    (hi : T i = some s) (hf : Fresh T c.key) (hlt : s.dist < c.dist) :
    WF home (update T i (some c)) ∧
      Carry home (update T i (some c)) (i + 1) { s with dist := s.dist + 1 } := by
  constructor
  · refine h.set hc.place hc.pred ?_ fun j t hj hk => absurd hk (hf j t hj)
    intro u hu
    have := h.succ_dist_le hi hu
    omega
  · refine ⟨⟨?_, ?_⟩, fun _ => ⟨c, ?_, by dsimp only; omega⟩⟩
    · dsimp only
      rw [← h.place i s hi]
      push_cast
      ring
    · intro j t hj hk
      rcases update_eq_some.mp hj with ⟨rfl, hct⟩ | ⟨hji, hj⟩
      · rw [← Option.some.inj hct] at hk
        exact absurd hk.symm (hf j s hi)
      · exact absurd (h.unique j i t s hj hi hk) hji
    · rw [add_sub_cancel_right, Function.update_self]

theorem Carry.next (h : WF home T) {i : ZMod n} {c s : Slot K V} (hc : Carry home T i c)
    (hi : T i = some s) (hne : s.key ≠ c.key) (hle : c.dist ≤ s.dist) :
    Carry home T (i + 1) { c with dist := c.dist + 1 } :=
  ⟨hc.toProbe.next h hi hne, fun _ => ⟨s, by rwa [add_sub_cancel_right], by dsimp only; omega⟩⟩

/-- `T'` holds what `T` holds, except for `v` under `k`. -/
def Puts (T : Table n K V) (k : K) (v : V) (T' : Table n K V) : Prop :=
  ∀ l w, Stores T' l w ↔ (l = k ∧ w = v) ∨ (l ≠ k ∧ Stores T l w)

/-- `T'` holds what `T` holds, except for the key `k`. -/
def Drops (T : Table n K V) (k : K) (T' : Table n K V) : Prop :=
  ∀ l w, Stores T' l w ↔ l ≠ k ∧ Stores T l w

theorem Fresh.puts {i : ZMod n} {c : Slot K V} (hf : Fresh T c.key) (hi : T i = none) :
    Puts T c.key c.value (update T i (some c)) := by
  intro l w
  constructor
  · rintro ⟨j, s, hj, rfl, rfl⟩
    rcases update_eq_some.mp hj with ⟨-, hc⟩ | ⟨-, hj⟩
    · rw [← Option.some.inj hc]
      exact Or.inl ⟨rfl, rfl⟩
    · exact Or.inr ⟨hf j s hj, j, s, hj, rfl, rfl⟩
  · rintro (⟨rfl, rfl⟩ | ⟨-, j, s, hj, hk, hv⟩)
    · exact ⟨i, c, Function.update_self .., rfl, rfl⟩
    · have hji : j ≠ i := by rintro rfl; rw [hi] at hj; cases hj
      exact ⟨j, s, by rw [Function.update_of_ne hji]; exact hj, hk, hv⟩

theorem WF.setValue_puts (h : WF home T) {i : ZMod n} {s : Slot K V} (hi : T i = some s) (v : V) :
    Puts T s.key v (update T i (some { s with value := v })) := by
  intro l w
  constructor
  · rintro ⟨j, t, hj, rfl, rfl⟩
    rcases update_eq_some.mp hj with ⟨-, hc⟩ | ⟨hji, hj⟩
    · rw [← Option.some.inj hc]
      exact Or.inl ⟨rfl, rfl⟩
    · exact Or.inr ⟨fun hk => hji (h.unique j i t s hj hi hk), j, t, hj, rfl, rfl⟩
  · rintro (⟨rfl, rfl⟩ | ⟨hne, j, t, hj, hk, hv⟩)
    · exact ⟨i, _, Function.update_self .., rfl, rfl⟩
    · have hji : j ≠ i := by
        rintro rfl
        rw [← Option.some.inj (hi.symm.trans hj)] at hk
        exact hne hk.symm
      exact ⟨j, t, by rw [Function.update_of_ne hji]; exact hj, hk, hv⟩

/-- Putting down the carried slot and inserting the displaced one again puts the carried one. -/
theorem WF.swap_puts (h : WF home T) {i : ZMod n} {c s : Slot K V} (hi : T i = some s)
    (hf : Fresh T c.key) {T' : Table n K V} (hp : Puts (update T i (some c)) s.key s.value T') :
    Puts T c.key c.value T' := by
  intro l w
  rw [hp l w]
  have hsc : s.key ≠ c.key := hf i s hi
  constructor
  · rintro (⟨rfl, rfl⟩ | ⟨hne, j, t, hj, rfl, rfl⟩)
    · exact Or.inr ⟨hsc, i, s, hi, rfl, rfl⟩
    · rcases update_eq_some.mp hj with ⟨-, hc⟩ | ⟨-, hj⟩
      · rw [← Option.some.inj hc]
        exact Or.inl ⟨rfl, rfl⟩
      · exact Or.inr ⟨hf j t hj, j, t, hj, rfl, rfl⟩
  · rintro (⟨rfl, rfl⟩ | ⟨hne, j, t, hj, rfl, rfl⟩)
    · exact Or.inr ⟨hsc.symm, i, c, Function.update_self .., rfl, rfl⟩
    · by_cases hts : t.key = s.key
      · obtain rfl := h.unique j i t s hj hi hts
        rw [Option.some.inj (hj.symm.trans hi)]
        exact Or.inl ⟨rfl, rfl⟩
      · have hji : j ≠ i := by
          rintro rfl
          rw [Option.some.inj (hj.symm.trans hi)] at hts
          exact hts rfl
        exact Or.inr ⟨hts, j, t, by rw [Function.update_of_ne hji]; exact hj, rfl, rfl⟩

/-- A table in the middle of a backward shift: bucket `i` has been emptied, a slot of
distance `d` would fit there, and only the bucket behind it may break the chain. -/
structure Gap (home : K → ZMod n) (T : Table n K V) (i : ZMod n) (d : ℕ) : Prop where
  place : ∀ j s, T j = some s → home s.key + s.dist = j
  chain : ∀ j s, T j = some s → j ≠ i + 1 → 0 < s.dist →
    ∃ p, T (j - 1) = some p ∧ s.dist ≤ p.dist + 1
  unique : ∀ j l s t, T j = some s → T l = some t → s.key = t.key → j = l
  empty : T i = none
  pred : 0 < d → ∃ p, T (i - 1) = some p ∧ d ≤ p.dist + 1
  succ : ∀ s, T (i + 1) = some s → s.dist ≤ d + 1

theorem one_ne_zero_of_lt (hn : 2 < n) : (1 : ZMod n) ≠ 0 := by
  have : Fact (1 < n) := ⟨by omega⟩
  exact one_ne_zero

theorem two_ne_zero_of_lt (hn : 2 < n) : (2 : ZMod n) ≠ 0 := by
  intro h
  have hv := congrArg ZMod.val h
  have : NeZero n := ⟨by omega⟩
  rw [show (2 : ZMod n) = ((2 : ℕ) : ZMod n) by norm_cast, ZMod.val_cast_of_lt hn,
    ZMod.val_zero] at hv
  omega

theorem WF.gap (h : WF home T) (hn : 2 < n) {i : ZMod n} {s : Slot K V} (hi : T i = some s) :
    Gap home (update T i none) i s.dist := by
  have hold : ∀ {j : ZMod n} {t : Slot K V}, update T i none j = some t → j ≠ i ∧ T j = some t := by
    intro j t hj
    rcases update_eq_some.mp hj with ⟨-, hc⟩ | hj
    · cases hc
    · exact hj
  constructor
  · exact fun j t hj => h.place j t (hold hj).2
  · intro j t hj hji hpos
    have hpi : j - 1 ≠ i := fun he => hji (by rw [← he, sub_add_cancel])
    rw [Function.update_of_ne hpi]
    exact h.chain j t (hold hj).2 hpos
  · exact fun j l t u hj hl => h.unique j l t u (hold hj).2 (hold hl).2
  · exact Function.update_self ..
  · intro hpos
    have hpi : i - 1 ≠ i := fun he => one_ne_zero_of_lt hn (by linear_combination -he)
    rw [Function.update_of_ne hpi]
    exact h.chain i s hi hpos
  · exact fun u hu => h.succ_dist_le hi (hold hu).2

/-- The shift may stop in front of a bucket that is empty or at home. -/
theorem Gap.close {i : ZMod n} {d : ℕ} (h : Gap home T i d)
    (hstop : ∀ s, T (i + 1) = some s → s.dist = 0) : WF home T := by
  refine ⟨h.place, fun j s hj hpos => ?_, h.unique⟩
  by_cases hji : j = i + 1
  · rw [hji] at hj
    have := hstop s hj
    omega
  · exact h.chain j s hj hji hpos

/-- The table with the slot behind bucket `i` moved one bucket back. -/
def shiftBack (T : Table n K V) (i : ZMod n) (s : Slot K V) : Table n K V :=
  update (update T i (some { s with dist := s.dist - 1 })) (i + 1) none

theorem shiftBack_eq_some {i j : ZMod n} {s t : Slot K V} (hj : shiftBack T i s j = some t) :
    j ≠ i + 1 ∧ ((j = i ∧ t = { s with dist := s.dist - 1 }) ∨ (j ≠ i ∧ T j = some t)) := by
  rcases update_eq_some.mp hj with ⟨-, hc⟩ | ⟨hji, hj⟩
  · cases hc
  · refine ⟨hji, ?_⟩
    rcases update_eq_some.mp hj with ⟨hj, hc⟩ | hj
    · exact Or.inl ⟨hj, (Option.some.inj hc).symm⟩
    · exact Or.inr hj

theorem shiftBack_self (hn : 2 < n) (i : ZMod n) (s : Slot K V) :
    shiftBack T i s i = some { s with dist := s.dist - 1 } := by
  have h1 := one_ne_zero_of_lt hn
  have hne : i ≠ i + 1 := fun he => h1 (by linear_combination -he)
  rw [shiftBack, Function.update_of_ne hne, Function.update_self]

theorem shiftBack_of_ne {i j : ZMod n} (hji : j ≠ i) (hji' : j ≠ i + 1) (s : Slot K V) :
    shiftBack T i s j = T j := by
  rw [shiftBack, Function.update_of_ne hji', Function.update_of_ne hji]

/-- Moving the next slot one bucket back moves the gap one bucket on. -/
theorem Gap.shift (hn : 2 < n) {i : ZMod n} {d : ℕ} (h : Gap home T i d) {s : Slot K V}
    (hs : T (i + 1) = some s) (hpos : 0 < s.dist) :
    Gap home (shiftBack T i s) (i + 1) s.dist := by
  have h1 := one_ne_zero_of_lt hn
  have h2 := two_ne_zero_of_lt hn
  constructor
  · intro j t hj
    rcases (shiftBack_eq_some hj).2 with ⟨rfl, rfl⟩ | ⟨-, hj⟩
    · have hp := h.place _ s hs
      dsimp only
      rw [Nat.cast_sub hpos]
      push_cast
      linear_combination hp
    · exact h.place j t hj
  · intro j t hj hj2 hpos'
    obtain ⟨hji1, ⟨rfl, rfl⟩ | ⟨hji, hj⟩⟩ := shiftBack_eq_some hj
    · -- the moved slot sits where one of distance `d` would fit
      dsimp only at hpos' ⊢
      have hd := h.succ s hs
      obtain ⟨p, hp, hle⟩ := h.pred (by omega)
      refine ⟨p, ?_, by omega⟩
      rw [shiftBack_of_ne (fun he => h1 (by linear_combination -he))
        (fun he => h2 (by linear_combination -he))]
      exact hp
    · rw [shiftBack_of_ne (fun he => hji1 (by linear_combination he))
        (fun he => hj2 (by linear_combination he))]
      exact h.chain j t hj hji1 hpos'
  · intro j l t u hj hl hk
    obtain ⟨hj1, ⟨hji, rfl⟩ | ⟨-, hj⟩⟩ := shiftBack_eq_some hj <;>
      obtain ⟨hl1, ⟨hli, rfl⟩ | ⟨-, hl⟩⟩ := shiftBack_eq_some hl
    · rw [hji, hli]
    · exact absurd (h.unique _ l s u hs hl hk).symm hl1
    · exact absurd (h.unique j _ t s hj hs hk) hj1
    · exact h.unique j l t u hj hl hk
  · exact Function.update_self ..
  · intro _
    rw [add_sub_cancel_right]
    exact ⟨_, shiftBack_self hn i s, by dsimp only; omega⟩
  · intro u hu
    obtain ⟨hne1, ⟨he, -⟩ | ⟨-, hu⟩⟩ := shiftBack_eq_some hu
    · exact absurd he fun he => h2 (by linear_combination he)
    by_cases hpos' : 0 < u.dist
    · obtain ⟨p, hp, hd⟩ := h.chain _ u hu hne1 hpos'
      rw [add_sub_cancel_right, hs] at hp
      rwa [← Option.some.inj hp] at hd
    · omega

theorem Gap.shift_stores (hn : 2 < n) {i : ZMod n} {d : ℕ} (h : Gap home T i d) {s : Slot K V}
    (hs : T (i + 1) = some s) (k : K) (v : V) : Stores (shiftBack T i s) k v ↔ Stores T k v := by
  constructor
  · rintro ⟨j, t, hj, hk, hv⟩
    rcases (shiftBack_eq_some hj).2 with ⟨-, rfl⟩ | ⟨-, hj⟩
    · exact ⟨i + 1, s, hs, hk, hv⟩
    · exact ⟨j, t, hj, hk, hv⟩
  · rintro ⟨j, t, hj, hk, hv⟩
    by_cases hji : j = i + 1
    · rw [hji, hs] at hj
      obtain rfl := Option.some.inj hj
      exact ⟨i, _, shiftBack_self hn i s, hk, hv⟩
    · have hi : j ≠ i := by
        rintro rfl
        rw [h.empty] at hj
        cases hj
      exact ⟨j, t, by rw [shiftBack_of_ne hi hji]; exact hj, hk, hv⟩

theorem WF.gap_drops (h : WF home T) {i : ZMod n} {s : Slot K V} (hi : T i = some s) :
    Drops T s.key (update T i none) := by
  intro l w
  constructor
  · rintro ⟨j, t, hj, rfl, rfl⟩
    rcases update_eq_some.mp hj with ⟨-, hc⟩ | ⟨hji, hj⟩
    · cases hc
    · exact ⟨fun hk => hji (h.unique j i t s hj hi hk), j, t, hj, rfl, rfl⟩
  · rintro ⟨hne, j, t, hj, hk, hv⟩
    have hji : j ≠ i := by
      rintro rfl
      rw [← Option.some.inj (hi.symm.trans hj)] at hk
      exact hne hk.symm
    exact ⟨j, t, by rw [Function.update_of_ne hji]; exact hj, hk, hv⟩

end Virthub.Lib.RobinHood
