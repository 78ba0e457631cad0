import Virthub.Precision.Predictor

/-! The decision in closed form, as the design document states it, and the predictor as its
implementation. -/
namespace Virthub.Precision

/-- The score of a block: one for a layer near a boundary and two for a retrieval head. -/
def specScore (L l : ℕ) (headMask : UInt32) : ℕ :=
  (if l < 4 ∨ L ≤ l + 4 then 1 else 0) + 2 * (headMask &&& 1).toNat

def specPrecision (L l t s : ℕ) (h : MemoryPressureState) (headMask : UInt32) : PrecisionLevel :=
  if t < 16 ∨ s - t < 64 then .fp16
  else if l < 2 ∨ L ≤ l + 2 then
    if h = .critical then .fp8 else .fp16
  else if 3 ≤ specScore L l headMask then
    if h = .nominal then .fp16 else .fp8Residual
  else if specScore L l headMask = 0 ∧ h = .critical ∧ L / 4 ≤ l ∧ l ≤ 3 * L / 4 then .pruned
  else .fp8

def specMask (p : PrecisionLevel) (headMask : UInt32) : UInt32 :=
  if p = .pruned then headMask &&& 0xFFFFFF else 0xFFFFFF

/-- The word decodes to the precision `p`, with the residual flag and the mask that belong to it. -/
structure Encodes (policy : PackedBlockPolicy) (p : PrecisionLevel) (headMask : UInt32) : Prop where
  precision : policy.precision = p
  residual : policy.useResidual = true ↔ p = .fp8Residual
  mask : policy.headMask = specMask p headMask
  reserved : policy.reserved = 0

theorem encodes_new {p : PrecisionLevel} {r : Bool} {m headMask : UInt32}
    (hr : r = decide (p = .fp8Residual)) (hm : m &&& 0xFFFFFF = specMask p headMask) :
    Encodes (.new p r m) p headMask where
  precision := PackedBlockPolicy.precision_new p r m
  residual := by
    rw [PackedBlockPolicy.useResidual_new, hr, decide_eq_true_eq]
  mask := by
    rw [PackedBlockPolicy.headMask_new, hm]
  reserved := PackedBlockPolicy.reserved_new p r m

/-- The profile of layer `l` of `L`. -/
def specProfile (L l : ℕ) : LayerSensitivityProfile :=
  ⟨if l < 4 ∨ L ≤ l + 4 then 1 else 0, decide (l < 2 ∨ L ≤ l + 2),
    decide (L / 4 ≤ l ∧ l ≤ 3 * L / 4)⟩

/-- The difference does not underflow: where it is formed the layer is behind the first `k`. -/
theorem atBoundary_eq {L l : UInt64} (hl : l.toNat < L.toNat) (k : UInt64) :
    atBoundary L l k = some (decide (l.toNat < k.toNat ∨ L.toNat ≤ l.toNat + k.toNat)) := by
  unfold atBoundary
  by_cases hlk : l < k
  · have hlk' := UInt64.lt_iff_toNat_lt.mp hlk
    rw [if_pos hlk, decide_eq_true (Or.inl hlk')]
  · have hlk' : k.toNat ≤ l.toNat := Nat.not_lt.mp (mt UInt64.lt_iff_toNat_lt.mpr hlk)
    have hle : k ≤ L := UInt64.le_iff_toNat_le.mpr (by omega)
    have hiff : l ≥ L - k ↔ l.toNat < k.toNat ∨ L.toNat ≤ l.toNat + k.toNat := by
      rw [ge_iff_le, UInt64.le_iff_toNat_le, UInt64.toNat_sub_of_le _ _ hle]
      omega
    rw [if_neg hlk, checkedSub_of_le hle, Option.map_some, decide_eq_decide.mpr hiff]

theorem inMiddle_eq {L : UInt64} (hL : 3 * L.toNat < 2 ^ 64) (l : UInt64) :
    inMiddle L l = some (decide (L.toNat / 4 ≤ l.toNat ∧ l.toNat ≤ 3 * L.toNat / 4)) := by
  have hmul : checkedMul 3 L = some (3 * L) := if_pos hL
  have hprod : (3 * L).toNat = 3 * L.toNat := by
    rw [UInt64.toNat_mul]
    exact Nat.mod_eq_of_lt hL
  have hquarter : l ≥ L / 4 ↔ L.toNat / 4 ≤ l.toNat := by
    rw [ge_iff_le, UInt64.le_iff_toNat_le, UInt64.toNat_div]
    rfl
  have hthree : l ≤ 3 * L / 4 ↔ l.toNat ≤ 3 * L.toNat / 4 := by
    rw [UInt64.le_iff_toNat_le, UInt64.toNat_div, hprod]
    rfl
  unfold inMiddle
  by_cases hq : l ≥ L / 4
  · have hiff : l ≤ 3 * L / 4 ↔ L.toNat / 4 ≤ l.toNat ∧ l.toNat ≤ 3 * L.toNat / 4 := by
      rw [hthree]
      exact (and_iff_right (hquarter.mp hq)).symm
    rw [if_pos hq, hmul, Option.map_some, decide_eq_decide.mpr hiff]
  · have hnot : ¬ (L.toNat / 4 ≤ l.toNat ∧ l.toNat ≤ 3 * L.toNat / 4) := fun h => hq (hquarter.mpr h.1)
    rw [if_neg hq, decide_eq_false hnot]

theorem layerProfile_eq {L l : UInt64} (hL : 3 * L.toNat < 2 ^ 64) (hl : l.toNat < L.toNat) :
    layerProfile L l = some (specProfile L.toNat l.toNat) := by
  rw [layerProfile, atBoundary_eq hl 2, atBoundary_eq hl 4, inMiddle_eq hL l, specProfile]
  simp

theorem mapM_eq_some {α β : Type} {f : α → Option β} {g : α → β} {as : List α}
    (h : ∀ a ∈ as, f a = some (g a)) : as.mapM f = some (as.map g) := by
  induction as with
  | nil => rfl
  | cons a as ih =>
    have hrest := ih fun b hb => h b (List.mem_cons_of_mem a hb)
    rw [List.mapM_cons, h a List.mem_cons_self, hrest]
    rfl

theorem buildLayerProfiles_eq {L : UInt64} (hL : 3 * L.toNat < 2 ^ 64) :
    buildLayerProfiles L = some ((List.range L.toNat).map (specProfile L.toNat)) := by
  apply mapM_eq_some
  intro l hl
  have hlt := List.mem_range.mp hl
  have hnat : (UInt64.ofNat l).toNat = l := by
    rw [UInt64.toNat_ofNat']
    exact Nat.mod_eq_of_lt (by omega)
  rw [layerProfile_eq hL (by omega), hnat]

/-- The flag that the predictor is given counts like the lowest bit of the mask. -/
theorem retrieval_score (headMask : UInt32) :
    (if (headMask &&& 1 != 0) = true then 2 else 0) = 2 * (headMask &&& 1).toNat := by
  have hbit : (headMask &&& 1).toNat = headMask.toNat % 2 := PackedBlockPolicy.toNat_and_mask (k := 1) rfl _
  by_cases h : headMask &&& 1 = 0
  · simp [h]
  · have hne : (headMask &&& 1).toNat ≠ 0 := fun hz => h (UInt32.toNat_inj.mp hz)
    rw [if_pos (by simpa using h)]
    omega

/-- Outside of the lossless windows. -/
theorem predictLayer_encodes {L l t s : ℕ} (hwindow : ¬ (t < 16 ∨ s - t < 64))
    (h : MemoryPressureState) (headMask : UInt32) :
    Encodes (Predictor.predictLayer (specProfile L l) h headMask (headMask &&& 1 != 0))
      (specPrecision L l t s h headMask) headMask := by
  have hscore : (specProfile L l).baseBonus.toNat +
      (if (headMask &&& 1 != 0) = true then 2 else 0) = specScore L l headMask := by
    rw [retrieval_score, specScore, specProfile]
    split_ifs
    · rfl
    · rfl
  unfold specPrecision Predictor.predictLayer
  rw [if_neg hwindow]
  dsimp only
  rw [hscore]
  by_cases hcritical : l < 2 ∨ L ≤ l + 2
  · rw [if_pos (by simpa [specProfile] using hcritical), if_pos hcritical]
    split_ifs
    · exact encodes_new rfl rfl
    · exact encodes_new rfl rfl
  · rw [if_neg (by simpa [specProfile] using hcritical), if_neg hcritical]
    have hprune : Predictor.scoredPrecision (specScore L l headMask) h (specProfile L l).canPrune =
        if 3 ≤ specScore L l headMask then
          if h = .nominal then .fp16 else .fp8Residual
        else if specScore L l headMask = 0 ∧ h = .critical ∧ L / 4 ≤ l ∧ l ≤ 3 * L / 4 then .pruned
        else .fp8 := by
      simp [Predictor.scoredPrecision, specProfile]
    rw [← hprune]
    apply encodes_new rfl
    unfold specMask
    split_ifs
    · rw [fullHeadMask, UInt32.and_assoc]
      rfl
    · rfl

theorem inLosslessWindow_eq {self : Predictor} (hsink : self.sinkWindow = 16)
    (hlocal : self.localWindow = 64) {t s : UInt64} (hts : t ≤ s) :
    self.inLosslessWindow t s = some (decide (t.toNat < 16 ∨ s.toNat - t.toNat < 64)) := by
  have hsink' : t < 16 ↔ t.toNat < 16 := UInt64.lt_iff_toNat_lt
  have hlocal' : s - t < 64 ↔ s.toNat - t.toNat < 64 := by
    rw [UInt64.lt_iff_toNat_lt, UInt64.toNat_sub_of_le _ _ hts]
    rfl
  unfold Predictor.inLosslessWindow
  rw [hsink, hlocal]
  by_cases ht : t < 16
  · rw [if_pos ht, decide_eq_true (Or.inl (hsink'.mp ht))]
  · have hiff : s - t < 64 ↔ t.toNat < 16 ∨ s.toNat - t.toNat < 64 := by
      rw [hlocal']
      exact (or_iff_right (mt hsink'.mpr ht)).symm
    rw [if_neg ht, checkedSub_of_le hts, Option.map_some, decide_eq_decide.mpr hiff]

/-- The table is built without an underflow, and every prediction is the one of the document. -/
theorem predict_implements_specification (L : UInt64) (hL : 3 * L.toNat < 2 ^ 64) :
    ∃ self, Predictor.new L = some self ∧
      ∀ (l t s : UInt64) (h : MemoryPressureState) (headMask : UInt32), l < L → t ≤ s →
        ∃ policy, self.predict l t s h headMask (headMask &&& 1 != 0) = some policy ∧
          Encodes policy (specPrecision L.toNat l.toNat t.toNat s.toNat h headMask) headMask := by
  refine ⟨⟨(List.range L.toNat).map (specProfile L.toNat), 16, 64⟩, ?_, ?_⟩
  · rw [Predictor.new, Predictor.withWindows, buildLayerProfiles_eq hL]
    rfl
  · intro l t s h headMask hl hts
    have hl' := UInt64.lt_iff_toNat_lt.mp hl
    have hprof : ((List.range L.toNat).map (specProfile L.toNat))[l.toNat]? =
        some (specProfile L.toNat l.toNat) := by
      rw [List.getElem?_map, List.getElem?_range hl']
      rfl
    rw [Predictor.predict, inLosslessWindow_eq rfl rfl hts, hprof]
    by_cases hwindow : t.toNat < 16 ∨ s.toNat - t.toNat < 64
    · refine ⟨.new .fp16 false fullHeadMask, by simp [hwindow], ?_⟩
      rw [specPrecision, if_pos hwindow]
      exact encodes_new rfl rfl
    · refine ⟨_, ?_, predictLayer_encodes hwindow h headMask⟩
      simp [hwindow]

/-- Layer 10 of 32 under critical pressure, with no retrieval head. -/
theorem predict_prunes_layer_ten :
    ∃ self policy, Predictor.new 32 = some self ∧
      self.predict 10 100 1000 .critical 0xF0 false = some policy ∧ Encodes policy .pruned 0xF0 := by
  obtain ⟨self, hnew, hpredict⟩ := predict_implements_specification 32 (by decide)
  obtain ⟨policy, hpolicy, hencodes⟩ :=
    hpredict 10 100 1000 .critical 0xF0 (by decide) (by decide)
  exact ⟨self, policy, hnew, hpolicy, hencodes⟩

end Virthub.Precision
