import Virthub.Precision.Degradation
import Virthub.Lib.Descent

/-! Samples that keep within a narrow band do not make the pressure state oscillate: wherever the band lies
among the thresholds, it leads the state one way only. -/
namespace Virthub.Precision
open Virthub.Lib

namespace MemoryPressureState

/-- The state after the first `n` of some samples, or after all of them if they are fewer. -/
def after (s : MemoryPressureState) (samples : Stream'.Seq ℚ) (n : ℕ) : MemoryPressureState :=
  s.run (samples.take n)

theorem after_succ (s : MemoryPressureState) (samples : Stream'.Seq ℚ) (n : ℕ) :
    s.after samples (n + 1) = ((samples.get? n).toList).foldl update (s.after samples n) := by
  unfold after run
  rw [take_succ_seq, List.foldl_append]

theorem after_succ_cases (s : MemoryPressureState) (samples : Stream'.Seq ℚ) (n : ℕ) :
    s.after samples (n + 1) = s.after samples n ∨
      ∃ mu ∈ samples, s.after samples (n + 1) = (s.after samples n).update mu := by
  rw [after_succ]
  cases hget : samples.get? n with
  | none => exact Or.inl rfl
  | some mu => exact Or.inr ⟨mu, Stream'.Seq.get?_mem hget, rfl⟩

theorem update_critical_ne_nominal (mu : ℚ) : critical.update mu ≠ nominal := by
  unfold update
  split_ifs <;> decide

def climb : MemoryPressureState → ℕ
  | nominal => 2
  | elevated => 1
  | critical => 0

def offElevated : MemoryPressureState → ℕ
  | elevated => 0
  | _ => 1

theorem update_climbs {mu : ℚ} (hmu : 82 / 100 ≤ mu) (s : MemoryPressureState) :
    s.update mu = s ∨ (s.update mu).climb < s.climb := by
  have h82 : ¬ mu < 82 / 100 := not_lt.mpr hmu
  have h70 : ¬ mu < 70 / 100 := by linarith
  cases s with
  | nominal => unfold update; split_ifs <;> decide
  | elevated => unfold update; split_ifs <;> decide
  | critical => exact Or.inl (if_neg h82)

theorem update_sinks {mu : ℚ} (hmu : mu < 78 / 100) (s : MemoryPressureState) :
    s.update mu = s ∨ (s.update mu).asU8.toNat < s.asU8.toNat := by
  have h88 : ¬ mu ≥ 88 / 100 := by linarith
  have h78 : ¬ mu ≥ 78 / 100 := not_le.mpr hmu
  cases s with
  | nominal =>
    simp only [update, if_neg h88, if_neg h78]
    exact Or.inl trivial
  | elevated =>
    simp only [update, if_neg h88]
    split_ifs <;> decide
  | critical => unfold update; split_ifs <;> decide

theorem update_settles {mu : ℚ} (h70 : 70 / 100 ≤ mu) (h88 : mu < 88 / 100) (s : MemoryPressureState) :
    s.update mu = s ∨ (s.update mu).offElevated < s.offElevated := by
  have hhigh : ¬ mu ≥ 88 / 100 := not_le.mpr h88
  have hlow : ¬ mu < 70 / 100 := not_lt.mpr h70
  cases s with
  | nominal =>
    simp only [update, if_neg hhigh]
    split_ifs <;> decide
  | elevated =>
    simp only [update, if_neg hhigh, if_neg hlow]
    exact Or.inl trivial
  | critical => unfold update; split_ifs <;> decide

/-- A band of samples leads the state one way: a rank of at most two falls with every change. -/
theorem exists_rank {samples : Set ℚ} (hband : ∀ x ∈ samples, ∀ y ∈ samples, y - x ≤ 6 / 100) :
    ∃ rank : MemoryPressureState → ℕ, (∀ s, rank s ≤ 2) ∧
      ∀ s, ∀ mu ∈ samples, s.update mu = s ∨ rank (s.update mu) < rank s := by
  by_cases h88 : ∃ y ∈ samples, 88 / 100 ≤ y
  · obtain ⟨y, hy, hhigh⟩ := h88
    refine ⟨climb, fun s => by cases s <;> decide, fun s mu hmu => update_climbs ?_ s⟩
    linarith [hband mu hmu y hy]
  · by_cases h78 : ∃ y ∈ samples, 78 / 100 ≤ y
    · obtain ⟨y, hy, hmid⟩ := h78
      refine ⟨offElevated, fun s => by cases s <;> decide, fun s mu hmu => update_settles ?_ ?_ s⟩
      · linarith [hband mu hmu y hy]
      · by_contra hmu88
        exact h88 ⟨mu, hmu, not_lt.mp hmu88⟩
    · refine ⟨fun s => s.asU8.toNat, fun s => by cases s <;> decide, fun s mu hmu => update_sinks ?_ s⟩
      by_contra hmu78
      exact h78 ⟨mu, hmu, not_lt.mp hmu78⟩

/-- The samples lie in a half-open interval of length 0.06. -/
def InBand (samples : Stream'.Seq ℚ) (a : ℚ) : Prop :=
  (∀ mu ∈ samples, mu ∈ Set.Ico a (a + 6 / 100)) ∨ ∀ mu ∈ samples, mu ∈ Set.Ioc a (a + 6 / 100)

theorem InBand.sub_le {samples : Stream'.Seq ℚ} {a : ℚ} (h : InBand samples a) :
    ∀ x ∈ {mu | mu ∈ samples}, ∀ y ∈ {mu | mu ∈ samples}, y - x ≤ 6 / 100 := by
  intro x hx y hy
  rcases h with h | h
  · obtain ⟨hax, -⟩ := h x hx
    obtain ⟨-, hya⟩ := h y hy
    linarith
  · obtain ⟨hax, -⟩ := h x hx
    obtain ⟨-, hya⟩ := h y hy
    linarith

theorem InBand.descends {samples : Stream'.Seq ℚ} {a : ℚ} (h : InBand samples a)
    (s : MemoryPressureState) :
    ∃ rank : MemoryPressureState → ℕ, (∀ t, rank t ≤ 2) ∧ Descends rank (s.after samples) := by
  obtain ⟨rank, htwo, hstep⟩ := exists_rank h.sub_le
  refine ⟨rank, htwo, fun n => ?_⟩
  rcases s.after_succ_cases samples n with heq | ⟨mu, hmu, heq⟩
  · exact Or.inl heq
  · rw [heq]
    exact hstep _ mu hmu

/-- Samples in a band of length 0.06, finitely or infinitely many, change the state at most twice and never
bring back a state that was left; and no samples at all lead from the critical state to the nominal one at
once. -/
theorem hysteresis_bounds_thrashing (s : MemoryPressureState) (samples : Stream'.Seq ℚ) :
    (∀ a, InBand samples a → (changes (s.after samples)).encard ≤ 2 ∧
      ∀ i j k, i ≤ j → j ≤ k → s.after samples j ≠ s.after samples i →
        s.after samples k ≠ s.after samples i) ∧
      ∀ n, ¬ (s.after samples n = critical ∧ s.after samples (n + 1) = nominal) := by
  constructor
  · intro a hband
    obtain ⟨rank, htwo, hdescends⟩ := hband.descends s
    constructor
    · calc
        (changes (s.after samples)).encard ≤ rank (s.after samples 0) := hdescends.encard_changes_le
        _ ≤ 2 := by exact_mod_cast htwo (s.after samples 0)
    · intro i j k hij hjk hleft
      exact hdescends.ne_of_left hij hjk hleft
  · intro n hdirect
    obtain ⟨hcritical, hnominal⟩ := hdirect
    rcases s.after_succ_cases samples n with heq | ⟨mu, -, heq⟩
    · rw [heq, hcritical] at hnominal
      cases hnominal
    · rw [heq, hcritical] at hnominal
      exact update_critical_ne_nominal mu hnominal

/-- Both changes happen when a nominal state meets a sample above each of the upper thresholds. -/
theorem hysteresis_bounds_thrashing_rising :
    let samples : Stream'.Seq ℚ := Stream'.Seq.ofList [83 / 100, 88 / 100]
    InBand samples (83 / 100) ∧ nominal.after samples 1 = elevated ∧ nominal.after samples 2 = critical ∧
      (changes (nominal.after samples)).encard ≤ 2 := by
  intro samples
  have hband : InBand samples (83 / 100) := by
    left
    intro mu hmu
    obtain ⟨i, hi⟩ := Stream'.Seq.mem_iff_exists_get?.mp hmu
    have hmem : mu ∈ [(83 / 100 : ℚ), 88 / 100] := List.mem_of_getElem? hi.symm
    rw [List.mem_pair] at hmem
    rw [Set.mem_Ico]
    rcases hmem with rfl | rfl
    all_goals norm_num
  refine ⟨hband, by decide +kernel, by decide +kernel, ?_⟩
  exact ((hysteresis_bounds_thrashing nominal samples).1 _ hband).1

end MemoryPressureState

end Virthub.Precision
