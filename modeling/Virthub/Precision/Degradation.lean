import Virthub.Precision.Predictor
import Mathlib.Order.Lattice
import Mathlib.Tactic.Linarith

/-! More pressure never gives more precision: two runs of the hysteresis whose samples are ordered
stay ordered, and the predictor turns a higher state into the same or a lower precision. -/
namespace Virthub.Precision

namespace MemoryPressureState

theorem toNat_asU8_injective : Function.Injective fun s : MemoryPressureState => s.asU8.toNat := by
  intro s t h
  cases s <;> cases t <;> first | rfl | cases h

/-- The order of the discriminants. -/
instance : LinearOrder MemoryPressureState :=
  LinearOrder.lift' (fun s => s.asU8.toNat) toNat_asU8_injective

theorem le_iff {s t : MemoryPressureState} :
    s ≤ t ↔ (elevated ≤ s → elevated ≤ t) ∧ (critical ≤ s → critical ≤ t) := by
  cases s <;> cases t <;> decide

theorem le_critical (s : MemoryPressureState) : s ≤ critical := by
  cases s <;> decide

theorem eq_critical_of_le {s t : MemoryPressureState} (hst : s ≤ t) (hs : s = critical) : t = critical := by
  rw [hs] at hst
  exact le_antisymm (le_critical t) hst

theorem critical_le_update {s : MemoryPressureState} {mu : ℚ} :
    critical ≤ s.update mu ↔ 88 / 100 ≤ mu ∨ critical ≤ s ∧ 82 / 100 ≤ mu := by
  have hlow : ¬ critical ≤ nominal := by decide
  have hmid : ¬ critical ≤ elevated := by decide
  have htop : critical ≤ critical := le_refl critical
  cases s with
  | nominal =>
    simp only [update, ge_iff_le]
    split_ifs
    all_goals grind
  | elevated =>
    simp only [update, ge_iff_le]
    split_ifs
    all_goals grind
  | critical =>
    simp only [update]
    split_ifs with h82
    · have h88 : ¬ (88 / 100 : ℚ) ≤ mu := by linarith
      have h82' : ¬ (82 / 100 : ℚ) ≤ mu := not_le.mpr h82
      grind
    · have h82' : (82 / 100 : ℚ) ≤ mu := not_lt.mp h82
      grind

theorem elevated_le_update {s : MemoryPressureState} {mu : ℚ} :
    elevated ≤ s.update mu ↔
      78 / 100 ≤ mu ∨ elevated ≤ s ∧ 70 / 100 ≤ mu ∨ critical ≤ s := by
  have hlow : ¬ elevated ≤ nominal := by decide
  have hlow' : ¬ critical ≤ nominal := by decide
  have hmid : ¬ critical ≤ elevated := by decide
  have hmid' : elevated ≤ elevated := le_refl elevated
  have htop : elevated ≤ critical := by decide
  have htop' : critical ≤ critical := le_refl critical
  cases s with
  | nominal =>
    simp only [update, ge_iff_le]
    split_ifs with h88
    · have h78 : (78 / 100 : ℚ) ≤ mu := by linarith
      grind
    all_goals grind
  | elevated =>
    simp only [update, ge_iff_le]
    split_ifs with h88 h70
    · have h78 : (78 / 100 : ℚ) ≤ mu := by linarith
      grind
    · have h78 : ¬ (78 / 100 : ℚ) ≤ mu := by linarith
      have h70' : ¬ (70 / 100 : ℚ) ≤ mu := not_le.mpr h70
      grind
    · have h70' : (70 / 100 : ℚ) ≤ mu := not_lt.mp h70
      grind
  | critical =>
    simp only [update]
    split_ifs
    all_goals grind

/-- The thresholds depend on the state, so the order of the states is needed with that of the
samples. -/
theorem update_mono {s t : MemoryPressureState} (hst : s ≤ t) {mu nu : ℚ} (hmu : mu ≤ nu) :
    s.update mu ≤ t.update nu := by
  obtain ⟨helevated, hcritical⟩ := le_iff.mp hst
  rw [le_iff, elevated_le_update, elevated_le_update, critical_le_update, critical_le_update]
  constructor
  · intro h
    rcases h with h78 | ⟨hs, h70⟩ | hs
    · exact Or.inl (h78.trans hmu)
    · exact Or.inr (Or.inl ⟨helevated hs, h70.trans hmu⟩)
    · exact Or.inr (Or.inr (hcritical hs))
  · intro h
    rcases h with h88 | ⟨hs, h82⟩
    · exact Or.inl (h88.trans hmu)
    · exact Or.inr ⟨hcritical hs, h82.trans hmu⟩

/-- The state after some samples. -/
def run (s : MemoryPressureState) (samples : List ℚ) : MemoryPressureState :=
  samples.foldl update s

theorem run_mono {mus nus : List ℚ} (hsamples : List.Forall₂ (· ≤ ·) mus nus)
    {s t : MemoryPressureState} (hst : s ≤ t) : s.run mus ≤ t.run nus := by
  induction hsamples generalizing s t with
  | nil => exact hst
  | cons hmu _ ih => exact ih (update_mono hst hmu)

end MemoryPressureState

/-- From lossless storage to pruned heads. -/
def PrecisionLevel.fidelity : PrecisionLevel → ℕ
  | fp16 => 3
  | fp8Residual => 2
  | fp8 => 1
  | pruned => 0

namespace Predictor

/-- A higher state does not raise the precision of a score. -/
theorem fidelity_scoredPrecision_antitone {s t : MemoryPressureState} (hst : s ≤ t) (score : ℕ)
    (canPrune : Bool) :
    (scoredPrecision score t canPrune).fidelity ≤ (scoredPrecision score s canPrune).fidelity := by
  have hnominal : t = .nominal → s = .nominal := by
    cases s <;> cases t <;> first | decide | exact absurd hst (by decide)
  have hcritical := MemoryPressureState.eq_critical_of_le hst
  unfold scoredPrecision
  split_ifs
  all_goals first | decide | tauto

/-- A higher score does not lower it. -/
theorem fidelity_scoredPrecision_mono {m n : ℕ} (hmn : m ≤ n) (s : MemoryPressureState)
    (canPrune : Bool) :
    (scoredPrecision m s canPrune).fidelity ≤ (scoredPrecision n s canPrune).fidelity := by
  have hzero : n = 0 → m = 0 := by omega
  have hthree : m ≥ 3 → n ≥ 3 := by omega
  unfold scoredPrecision
  split_ifs
  all_goals first | decide | tauto

theorem precision_predictLayer (prof : LayerSensitivityProfile) (h : MemoryPressureState)
    (headMask : UInt32) (flag : Bool) :
    (predictLayer prof h headMask flag).precision =
      if prof.isCritical then if h = .critical then .fp8 else .fp16
      else scoredPrecision (prof.baseBonus.toNat + if flag then 2 else 0) h prof.canPrune := by
  unfold predictLayer
  by_cases hlayer : prof.isCritical = true
  · rw [if_pos hlayer, if_pos hlayer, PackedBlockPolicy.precision_new]
  · rw [if_neg hlayer, if_neg hlayer, PackedBlockPolicy.precision_new]

theorem fidelity_predictLayer_antitone {s t : MemoryPressureState} (hst : s ≤ t)
    (prof : LayerSensitivityProfile) (headMask : UInt32) (flag : Bool) :
    (predictLayer prof t headMask flag).precision.fidelity ≤
      (predictLayer prof s headMask flag).precision.fidelity := by
  rw [precision_predictLayer, precision_predictLayer]
  by_cases hlayer : prof.isCritical = true
  · have hcritical := MemoryPressureState.eq_critical_of_le hst
    rw [if_pos hlayer, if_pos hlayer]
    split_ifs
    all_goals first | decide | tauto
  · rw [if_neg hlayer, if_neg hlayer]
    exact fidelity_scoredPrecision_antitone hst _ _

/-- A retrieval head adds to the score. -/
theorem fidelity_predictLayer_flag (prof : LayerSensitivityProfile) (s : MemoryPressureState)
    (headMask : UInt32) :
    (predictLayer prof s headMask false).precision.fidelity ≤
      (predictLayer prof s headMask true).precision.fidelity := by
  rw [precision_predictLayer, precision_predictLayer]
  by_cases hlayer : prof.isCritical = true
  · rw [if_pos hlayer, if_pos hlayer]
  · rw [if_neg hlayer, if_neg hlayer]
    exact fidelity_scoredPrecision_mono (by simp) s prof.canPrune

variable {self : Predictor} {L l t s : UInt64}

/-- Whether a block is in a lossless window depends on its position only; otherwise its policy is
that of its layer. -/
theorem predict_cases (hnew : Predictor.new L = some self) (hl : l < L) (hts : t ≤ s) :
    (∀ h headMask flag, self.predict l t s h headMask flag = some (.new .fp16 false fullHeadMask)) ∨
      ∃ prof, ∀ h headMask flag,
        self.predict l t s h headMask flag = some (predictLayer prof h headMask flag) := by
  have hl' : l.toNat < self.profiles.length := by
    rw [length_profiles hnew]
    exact UInt64.lt_iff_toNat_lt.mp hl
  obtain ⟨lossless, hlossless⟩ : ∃ lossless, self.inLosslessWindow t s = some lossless := by
    unfold inLosslessWindow
    split_ifs
    · exact ⟨true, rfl⟩
    · rw [checkedSub_of_le hts]
      exact ⟨_, rfl⟩
  unfold predict
  rw [hlossless]
  cases lossless with
  | true => exact Or.inl fun _ _ _ => rfl
  | false =>
    refine Or.inr ⟨self.profiles[l.toNat], fun h headMask flag => ?_⟩
    rw [List.getElem?_eq_getElem hl']
    rfl

end Predictor

/-- More pressure, along all of a run, never gives a block a higher precision; and a retrieval flag
never gives it a lower one. -/
theorem fidelity_antitone {mus nus : List ℚ} (hsamples : List.Forall₂ (· ≤ ·) mus nus)
    {a b : MemoryPressureState} (hab : a ≤ b) :
    a.run mus ≤ b.run nus ∧
      ∀ (L l t s : UInt64) (self : Predictor) (headMask : UInt32),
        Predictor.new L = some self → l < L → t ≤ s →
        (∀ flag, ∃ p q, self.predict l t s (a.run mus) headMask flag = some p ∧
          self.predict l t s (b.run nus) headMask flag = some q ∧
          q.precision.fidelity ≤ p.precision.fidelity) ∧
        ∀ h, ∃ p q, self.predict l t s h headMask false = some p ∧
          self.predict l t s h headMask true = some q ∧
          p.precision.fidelity ≤ q.precision.fidelity := by
  have hrun := MemoryPressureState.run_mono hsamples hab
  refine ⟨hrun, fun L l t s self headMask hnew hl hts => ?_⟩
  rcases Predictor.predict_cases hnew hl hts with hlossless | ⟨prof, hprof⟩
  · constructor
    · intro flag
      exact ⟨_, _, hlossless _ _ _, hlossless _ _ _, le_refl _⟩
    · intro h
      exact ⟨_, _, hlossless _ _ _, hlossless _ _ _, le_refl _⟩
  · constructor
    · intro flag
      exact ⟨_, _, hprof _ _ _, hprof _ _ _,
        Predictor.fidelity_predictLayer_antitone hrun prof headMask flag⟩
    · intro h
      exact ⟨_, _, hprof _ _ _, hprof _ _ _, Predictor.fidelity_predictLayer_flag prof h headMask⟩

/-- Three samples, from a nominal and an elevated state, and a block in the middle of 32 layers. -/
theorem fidelity_antitone_three_samples :
    MemoryPressureState.run .nominal [75 / 100, 92 / 100, 80 / 100] ≤
        MemoryPressureState.run .elevated [76 / 100, 97 / 100, 93 / 100] ∧
      ∃ self, Predictor.new 32 = some self ∧ ∀ flag, ∃ p q,
        self.predict 12 1000 4096 (MemoryPressureState.run .nominal [75 / 100, 92 / 100, 80 / 100]) 1 flag =
            some p ∧
          self.predict 12 1000 4096 (MemoryPressureState.run .elevated [76 / 100, 97 / 100, 93 / 100])
            1 flag = some q ∧
          q.precision.fidelity ≤ p.precision.fidelity := by
  have hsamples : List.Forall₂ (· ≤ ·) [(75 / 100 : ℚ), 92 / 100, 80 / 100]
      [76 / 100, 97 / 100, 93 / 100] := by
    simp
    norm_num
  obtain ⟨hrun, hpredict⟩ := fidelity_antitone hsamples (a := .nominal) (b := .elevated) (by decide)
  obtain ⟨self, hself⟩ : ∃ self, Predictor.new 32 = some self :=
    Option.isSome_iff_exists.mp (by decide +kernel)
  exact ⟨hrun, self, hself, (hpredict 32 12 1000 4096 self 1 hself (by decide) (by decide)).1⟩

end Virthub.Precision
