import Mathlib.Data.Set.Card
import Mathlib.Data.Seq.Basic
import Mathlib.Order.Interval.Finset.Nat

/-! Sequences of states in which every step leaves the state alone or lowers a rank: such a sequence changes
finitely often, and never comes back to a state that it has left. -/
namespace Virthub.Lib

variable {σ : Type} {rank : σ → ℕ} {x : ℕ → σ}

/-- Every step leaves the state as it is, or goes to a state of lower rank. -/
def Descends (rank : σ → ℕ) (x : ℕ → σ) : Prop :=
  ∀ n, x (n + 1) = x n ∨ rank (x (n + 1)) < rank (x n)

def changes (x : ℕ → σ) : Set ℕ := {n | x (n + 1) ≠ x n}

theorem Descends.antitone (h : Descends rank x) : Antitone fun n => rank (x n) := by
  apply antitone_nat_of_succ_le
  intro n
  rcases h n with heq | hlt
  · rw [heq]
  · exact hlt.le

theorem Descends.lt_of_mem (h : Descends rank x) {n : ℕ} (hn : n ∈ changes x) :
    rank (x (n + 1)) < rank (x n) := (h n).resolve_left hn

theorem exists_change {i j : ℕ} (hij : i ≤ j) (hne : x j ≠ x i) : ∃ n ∈ changes x, i ≤ n ∧ n < j := by
  induction j, hij using Nat.le_induction with
  | base => exact absurd rfl hne
  | succ j hij ih =>
    by_cases hj : x (j + 1) = x j
    · rw [hj] at hne
      obtain ⟨n, hn, hin, hnj⟩ := ih hne
      exact ⟨n, hn, hin, hnj.trans (Nat.lt_succ_self j)⟩
    · exact ⟨j, hj, hij, Nat.lt_succ_self j⟩

theorem Descends.rank_lt (h : Descends rank x) {i j : ℕ} (hij : i ≤ j) (hne : x j ≠ x i) :
    rank (x j) < rank (x i) := by
  obtain ⟨n, hn, hin, hnj⟩ := exists_change hij hne
  calc
    rank (x j) ≤ rank (x (n + 1)) := h.antitone hnj
    _ < rank (x n) := h.lt_of_mem hn
    _ ≤ rank (x i) := h.antitone hin

/-- A state that has been left is not entered again. -/
theorem Descends.ne_of_left (h : Descends rank x) {i j k : ℕ} (hij : i ≤ j) (hjk : j ≤ k)
    (hne : x j ≠ x i) : x k ≠ x i := by
  intro hki
  have hlow := h.antitone hjk
  have hleft := h.rank_lt hij hne
  simp only [hki] at hlow
  exact absurd hleft (not_lt.mpr hlow)

/-- There are at most as many changes as the first rank. -/
theorem Descends.encard_changes_le (h : Descends rank x) : (changes x).encard ≤ rank (x 0) := by
  have hmaps : Set.MapsTo (fun n => rank (x n)) (changes x) (Finset.Ioc 0 (rank (x 0))) := by
    intro n hn
    rw [Finset.mem_coe, Finset.mem_Ioc]
    exact ⟨Nat.zero_lt_of_lt (h.lt_of_mem hn), h.antitone (Nat.zero_le n)⟩
  have hlt : ∀ m ∈ changes x, ∀ n, m < n → rank (x n) < rank (x m) := by
    intro m hm n hmn
    exact (h.antitone hmn).trans_lt (h.lt_of_mem hm)
  have hinj : Set.InjOn (fun n => rank (x n)) (changes x) := by
    intro m hm n hn heq
    rcases lt_trichotomy m n with hmn | hmn | hmn
    · exact absurd heq (hlt m hm n hmn).ne'
    · exact hmn
    · exact absurd heq (hlt n hn m hmn).ne
  have hcard := Set.encard_le_encard_of_injOn hmaps hinj
  rwa [Set.encard_coe_eq_coe_finsetCard, Nat.card_Ioc, Nat.sub_zero] at hcard

/-- A longer beginning of a finite or infinite sequence has the next element, if there is one. -/
theorem take_succ_seq {α : Type} (s : Stream'.Seq α) (n : ℕ) :
    s.take (n + 1) = s.take n ++ (s.get? n).toList := by
  induction n generalizing s with
  | zero =>
    cases s using Stream'.Seq.recOn with
    | nil => rfl
    | cons a s => simp
  | succ n ih =>
    cases s using Stream'.Seq.recOn with
    | nil => rfl
    | cons a s =>
      rw [Stream'.Seq.take_succ_cons, ih, Stream'.Seq.take_succ_cons, Stream'.Seq.get?_cons_succ]
      rfl

end Virthub.Lib
