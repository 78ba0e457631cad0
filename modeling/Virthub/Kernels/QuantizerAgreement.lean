import Mathlib.Tactic.IntervalCases
import Virthub.Kernels.QuantizationUtils
import Virthub.Store.Quantization

/-! The quantisers of the host against those of the device. The FP8 quantisers compute the same code. For FP4
the host rounds to the nearest number and the device cuts subnormal numbers off and rounds ties to even. -/
namespace Virthub.Kernels
open Virthub.Lib Virthub.Lib.Binary32

theorem quantizeFp8_eq_quantize (F : MiniFormat) (value : UInt32) :
    Store.quantizeFp8 F value = QuantizationUtils.quantize F value := by
  by_cases hn : IsNaN value
  · rw [Store.quantizeFp8, QuantizationUtils.quantize, if_pos hn, if_pos hn]
  · by_cases hz : IsZero value
    · rw [Store.quantizeFp8, QuantizationUtils.quantize, if_neg hn, if_neg hn, if_pos hz, if_pos hz]
    · apply UInt8.toNat_inj.mp
      rw [Store.toNat_quantizeFp8 F hn hz, QuantizationUtils.toNat_quantize F hn hz]

/-- The FP4 code of a magnitude on the host: the bounds are the magnitudes of `0.25`, `0.75`, `1.25`, `1.75`,
`2.5` and `3.5`. -/
def hostFp4Code (n : ℕ) : ℕ :=
  if n < 0x3E800000 then 0
  else if n < 0x3F400000 then 1
  else if n < 0x3FA00000 then 2
  else if n < 0x3FE00000 then 3
  else if n < 0x40200000 then 4
  else if n < 0x40600000 then 5
  else 6

theorem magnitudeToRat_lt_iff {n m : ℕ} {x : ℚ} (hm : magnitudeToRat m = x) :
    magnitudeToRat n < x ↔ n < m := by
  rw [← hm]
  exact magnitudeToRat_strictMono.lt_iff_lt

theorem toNat_host_quantizeFp4 {value : UInt32} (hn : ¬ IsNaN value) (hz : ¬ IsZero value) :
    (Store.quantizeFp4E2m1 value).toNat = sign value * 8 + hostFp4Code (magnitude value) := by
  have hsign := toNat_sign_field value
  have hbound : ∀ {m : ℕ} {x : ℚ}, magnitudeToRat m = x →
      (toRat (value &&& 0x7FFFFFFF) < x ↔ magnitude value < m) := by
    intro m x hm
    rw [toRat_and]
    exact magnitudeToRat_lt_iff hm
  have h1 := hbound (m := 0x3E800000) (x := 1 / 4) (by norm_num [magnitudeToRat])
  have h2 := hbound (m := 0x3F400000) (x := 3 / 4) (by norm_num [magnitudeToRat])
  have h3 := hbound (m := 0x3FA00000) (x := 5 / 4) (by norm_num [magnitudeToRat])
  have h4 := hbound (m := 0x3FE00000) (x := 7 / 4) (by norm_num [magnitudeToRat])
  have h5 := hbound (m := 0x40200000) (x := 5 / 2) (by norm_num [magnitudeToRat])
  have h6 := hbound (m := 0x40600000) (x := 7 / 2) (by norm_num [magnitudeToRat])
  have hs : ((value >>> 31) &&& 0x1).toUInt8 = 0 ∨ ((value >>> 31) &&& 0x1).toUInt8 = 1 := by
    have hle := sign_le_one value
    rw [← hsign] at hle
    rw [← UInt8.toNat_inj, ← UInt8.toNat_inj, UInt8.toNat_zero, UInt8.toNat_one]
    omega
  unfold Store.quantizeFp4E2m1
  rw [if_neg hn, if_neg hz, ← hsign]
  by_cases hinf : IsInfinite (value &&& 0x7FFFFFFF)
  · have hfield : magnitude value = infinity := (magnitude_and value).symm.trans hinf
    rw [if_pos hinf, hfield]
    rcases hs with hs | hs
    all_goals
      rw [hs]
      rfl
  · rw [if_neg hinf]
    simp only [h1, h2, h3, h4, h5, h6, hostFp4Code]
    rcases hs with hs | hs
    all_goals
      rw [hs]
      simp only [apply_ite UInt8.toNat, add_ite]
      rfl

theorem e2m1_code_of_round (n : ℕ) :
    QuantizationUtils.e2m1.code n =
      if roundShift 22 n < 252 then 0
      else if roundShift 22 n < 254 then 1
      else if roundShift 22 n < 255 then 2
      else if roundShift 22 n < 256 then 3
      else if roundShift 22 n < 257 then 4
      else if roundShift 22 n < 258 then 5
      else 6 := by
  unfold MiniFormat.code MiniFormat.encode QuantizationUtils.e2m1
  dsimp only
  generalize roundShift (23 - 1) n = r
  by_cases hlow : r < 250
  · have hexp : ((r / 2 ^ 1 : ℕ) : ℤ) - 127 + 1 < -1 := by omega
    rw [if_neg (by omega), if_pos (by omega), if_pos hexp, if_pos (by omega)]
  · by_cases hhigh : r < 258
    · interval_cases r <;> rfl
    · rw [if_pos (by omega), if_neg (by omega), if_neg (by omega), if_neg (by omega), if_neg (by omega),
        if_neg (by omega), if_neg hhigh]

/-- Ties go to the even number. -/
theorem roundShift_lt_succ_iff (n m : ℕ) :
    roundShift 22 n < m + 1 ↔ n < m * 2 ^ 22 + 2 ^ 21 ∨ n = m * 2 ^ 22 + 2 ^ 21 ∧ m % 2 = 0 := by
  unfold roundShift
  split_ifs <;> omega

/-- The FP4 code of a magnitude on the device: the bounds are the magnitudes of `0.4375`, `0.875`, `1.25`,
`1.75`, `2.5` and `3.5`. -/
theorem e2m1_code (n : ℕ) :
    QuantizationUtils.e2m1.code n =
      if n < 0x3EE00000 then 0
      else if n < 0x3F600000 then 1
      else if n ≤ 0x3FA00000 then 2
      else if n < 0x3FE00000 then 3
      else if n ≤ 0x40200000 then 4
      else if n < 0x40600000 then 5
      else 6 := by
  have h1 : roundShift 22 n < 252 ↔ n < 0x3EE00000 := by
    rw [roundShift_lt_succ_iff]
    omega
  have h2 : roundShift 22 n < 254 ↔ n < 0x3F600000 := by
    rw [roundShift_lt_succ_iff]
    omega
  have h3 : roundShift 22 n < 255 ↔ n ≤ 0x3FA00000 := by
    rw [roundShift_lt_succ_iff]
    omega
  have h4 : roundShift 22 n < 256 ↔ n < 0x3FE00000 := by
    rw [roundShift_lt_succ_iff]
    omega
  have h5 : roundShift 22 n < 257 ↔ n ≤ 0x40200000 := by
    rw [roundShift_lt_succ_iff]
    omega
  have h6 : roundShift 22 n < 258 ↔ n < 0x40600000 := by
    rw [roundShift_lt_succ_iff]
    omega
  rw [e2m1_code_of_round]
  simp only [h1, h2, h3, h4, h5, h6]

theorem hostFp4Code_eq_iff (n : ℕ) :
    hostFp4Code n = QuantizationUtils.e2m1.code n ↔
      ¬ (0x3E800000 ≤ n ∧ n < 0x3EE00000 ∨ 0x3F400000 ≤ n ∧ n < 0x3F600000 ∨
        n = 0x3FA00000 ∨ n = 0x40200000) := by
  rw [e2m1_code]
  unfold hostFp4Code
  grind

/-- The magnitudes whose FP4 codes differ: the upper part of what the device cuts off to the next lower
subnormal number, and the two ties that it rounds down to the even mantissa. -/
def Fp4Differs (x : ℚ) : Prop :=
  1 / 4 ≤ |x| ∧ |x| < 7 / 16 ∨ 3 / 4 ≤ |x| ∧ |x| < 7 / 8 ∨ |x| = 5 / 4 ∨ |x| = 5 / 2

theorem fp4Differs_toRat (value : UInt32) :
    Fp4Differs (toRat value) ↔
      (0x3E800000 ≤ magnitude value ∧ magnitude value < 0x3EE00000 ∨
        0x3F400000 ≤ magnitude value ∧ magnitude value < 0x3F600000 ∨
        magnitude value = 0x3FA00000 ∨ magnitude value = 0x40200000) := by
  have h1 : magnitudeToRat 0x3E800000 = 1 / 4 := by norm_num [magnitudeToRat]
  have h2 : magnitudeToRat 0x3EE00000 = 7 / 16 := by norm_num [magnitudeToRat]
  have h3 : magnitudeToRat 0x3F400000 = 3 / 4 := by norm_num [magnitudeToRat]
  have h4 : magnitudeToRat 0x3F600000 = 7 / 8 := by norm_num [magnitudeToRat]
  have h5 : magnitudeToRat 0x3FA00000 = 5 / 4 := by norm_num [magnitudeToRat]
  have h6 : magnitudeToRat 0x40200000 = 5 / 2 := by norm_num [magnitudeToRat]
  have hmono := magnitudeToRat_strictMono
  unfold Fp4Differs
  rw [abs_toRat, ← h1, ← h2, ← h3, ← h4, ← h5, ← h6, hmono.le_iff_le, hmono.lt_iff_lt,
    hmono.le_iff_le, hmono.lt_iff_lt, hmono.injective.eq_iff, hmono.injective.eq_iff]

theorem quantizeFp4_eq_iff (value : UInt32) :
    Store.quantizeFp4E2m1 value = QuantizationUtils.quantizeFp4E2m1 value ↔
      ¬ Fp4Differs (toRat value) := by
  rw [fp4Differs_toRat, ← hostFp4Code_eq_iff]
  by_cases hn : IsNaN value
  · -- a NaN has one code on both sides, and its magnitude is above all others
    have hlt : 0x7F800000 < magnitude value := hn
    have hfp4 : Store.quantizeFp4E2m1 value = QuantizationUtils.quantizeFp4E2m1 value := by
      unfold Store.quantizeFp4E2m1 QuantizationUtils.quantizeFp4E2m1 QuantizationUtils.quantize
      rw [if_pos hn, if_pos hn]
      rfl
    exact iff_of_true hfp4 ((hostFp4Code_eq_iff _).mpr (by omega))
  · by_cases hz : IsZero value
    · have hzero : magnitude value = 0 := hz
      have hfp4 : Store.quantizeFp4E2m1 value = QuantizationUtils.quantizeFp4E2m1 value := by
        unfold Store.quantizeFp4E2m1 QuantizationUtils.quantizeFp4E2m1 QuantizationUtils.quantize
        rw [if_neg hn, if_neg hn, if_pos hz, if_pos hz]
      exact iff_of_true hfp4 ((hostFp4Code_eq_iff _).mpr (by omega))
    · have hdevice : (QuantizationUtils.quantizeFp4E2m1 value).toNat =
          sign value * 8 + QuantizationUtils.e2m1.code (magnitude value) :=
        QuantizationUtils.toNat_quantize QuantizationUtils.e2m1 hn hz
      rw [← UInt8.toNat_inj, toNat_host_quantizeFp4 hn hz, hdevice]
      exact Nat.add_left_cancel_iff

/-- The three quantisers of the host and the device agree on a pattern exactly if its FP4 codes do not
differ. -/
theorem quantizers_agree_iff (value : UInt32) :
    (Store.quantizeFp8E4m3 value = QuantizationUtils.quantizeFp8E4m3 value ∧
      Store.quantizeFp8E5m2 value = QuantizationUtils.quantizeFp8E5m2 value ∧
      Store.quantizeFp4E2m1 value = QuantizationUtils.quantizeFp4E2m1 value) ↔
      ¬ Fp4Differs (toRat value) := by
  have he4m3 : Store.quantizeFp8E4m3 value = QuantizationUtils.quantizeFp8E4m3 value :=
    quantizeFp8_eq_quantize Store.e4m3 value
  have he5m2 : Store.quantizeFp8E5m2 value = QuantizationUtils.quantizeFp8E5m2 value :=
    quantizeFp8_eq_quantize Store.e5m2 value
  rw [← quantizeFp4_eq_iff]
  exact ⟨fun h => h.2.2, fun h => ⟨he4m3, he5m2, h⟩⟩

/-- A quarter is half-way between zero and one half: the host goes up and the device goes down. -/
theorem quantizers_disagree_on_quarter :
    ¬ ∀ value : UInt32, Store.quantizeFp8E4m3 value = QuantizationUtils.quantizeFp8E4m3 value ∧
      Store.quantizeFp8E5m2 value = QuantizationUtils.quantizeFp8E5m2 value ∧
      Store.quantizeFp4E2m1 value = QuantizationUtils.quantizeFp4E2m1 value := by
  intro h
  have hhost : Store.quantizeFp4E2m1 0x3E800000 = 1 := by decide +kernel
  have hdevice : QuantizationUtils.quantizeFp4E2m1 0x3E800000 = 0 := by decide +kernel
  have heq := (h 0x3E800000).2.2
  rw [hhost, hdevice] at heq
  exact absurd heq (by decide)

end Virthub.Kernels
