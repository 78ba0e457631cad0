import Mathlib.Tactic.IntervalCases
import Virthub.Store.Quantization

/-! The dequantisation kernel of the Enhanced format. The host writes FP8 bytes, and the kernel scales the
byte as an unsigned integer: only the zero byte means the same to both. Arithmetic is exact, also for the
scale exponents from 128 on, for which `powf` is infinite. -/
namespace Virthub.Kernels
open Virthub.Lib Virthub.Lib.Binary32 Virthub.Store

/-- The number that the thread with index `idx` computes, before it is converted to half precision. A thread
behind the last element computes none. -/
def dequantEnhancedKernel (quantizedData scalesE8m0 : ℕ → UInt8) (numTokens headDim numHeads : ℕ)
    (isTransposed : Bool) (idx : ℕ) : Option ℚ :=
  let totalElements := numTokens * headDim * numHeads
  if idx ≥ totalElements then none
  else
    let head := if isTransposed then idx / (headDim * numTokens) else idx / (numTokens * headDim)
    let scale : ℚ := 2 ^ (scalesE8m0 head).toNat
    some (scale * (quantizedData idx).toNat)

theorem dequantEnhancedKernel_eq {quantizedData scalesE8m0 : ℕ → UInt8} {numTokens headDim numHeads idx : ℕ}
    (h : idx < numTokens * headDim * numHeads) (isTransposed : Bool) :
    dequantEnhancedKernel quantizedData scalesE8m0 numTokens headDim numHeads isTransposed idx =
      some ((2 : ℚ) ^ (scalesE8m0 (idx / (numTokens * headDim))).toNat * (quantizedData idx).toNat) := by
  unfold dequantEnhancedKernel
  dsimp only
  rw [if_neg (not_le.mpr h), mul_comm headDim numTokens, ite_self]

def e4m3Magnitude (exp mant : ℕ) : ℚ :=
  if exp = 0 then mant * 2 ^ (-6 : ℤ) else (1 + mant / 2 ^ 3) * 2 ^ (exp - 7 : ℤ)

theorem dequantizeFp8E4m3_eq (q : UInt8) :
    dequantizeFp8E4m3 q = if q.toNat / 2 ^ 7 % 2 = 1 then
        -e4m3Magnitude (q.toNat / 2 ^ 3 % 2 ^ 4) (q.toNat % 2 ^ 3)
      else e4m3Magnitude (q.toNat / 2 ^ 3 % 2 ^ 4) (q.toNat % 2 ^ 3) :=
  dequantizeFp8_eq e4m3 q

theorem e4m3Magnitude_nonneg (exp mant : ℕ) : 0 ≤ e4m3Magnitude exp mant := by
  unfold e4m3Magnitude
  split_ifs <;> positivity

/-- An exponent and a mantissa are never the number of their bits, zero apart. -/
theorem e4m3Magnitude_ne {exp mant : ℕ} (hexp : exp < 16) (hmant : mant < 8)
    (hpos : 0 < exp * 8 + mant) : e4m3Magnitude exp mant ≠ (exp * 8 + mant : ℕ) := by
  intro h
  unfold e4m3Magnitude at h
  split_ifs at h with hzero
  · have hscaled : (mant : ℚ) = mant * 64 := by
      subst hzero
      norm_num at h
      linarith
    have hnat : mant = mant * 64 := by exact_mod_cast hscaled
    omega
  · have hscaled : ((8 + mant) * 2 ^ exp : ℚ) = (exp * 8 + mant : ℕ) * 1024 := by
      rw [← h, zpow_sub₀ two_ne_zero, zpow_natCast]
      norm_num
      ring
    have hnat : (8 + mant) * 2 ^ exp = (exp * 8 + mant) * 1024 := by exact_mod_cast hscaled
    interval_cases exp <;> omega

theorem dequantizeFp8E4m3_ne {q : UInt8} (hq : q ≠ 0) : dequantizeFp8E4m3 q ≠ q.toNat := by
  have hlt := q.toNat_lt
  have hpos : 0 < q.toNat := by
    rw [Nat.pos_iff_ne_zero, Ne, ← UInt8.toNat_zero, UInt8.toNat_inj]
    exact hq
  rw [dequantizeFp8E4m3_eq]
  split_ifs with hsign
  · -- a byte with its sign set does not stand for a positive number
    have hnonneg := e4m3Magnitude_nonneg (q.toNat / 2 ^ 3 % 2 ^ 4) (q.toNat % 2 ^ 3)
    have hposq : (0 : ℚ) < q.toNat := by exact_mod_cast hpos
    linarith
  · have hbyte : q.toNat / 2 ^ 3 % 2 ^ 4 * 8 + q.toNat % 2 ^ 3 = q.toNat := by omega
    have hexp : q.toNat / 2 ^ 3 % 2 ^ 4 < 16 := by omega
    have hmant : q.toNat % 2 ^ 3 < 8 := by omega
    have hne := e4m3Magnitude_ne hexp hmant (by omega)
    rwa [hbyte] at hne

theorem quantizeFp8E4m3_ne_zero {value : UInt32} (hn : ¬ IsNaN value)
    (hlow : (2 : ℚ) ^ (-6 : ℤ) ≤ |toRat value|) : quantizeFp8E4m3 value ≠ 0 := by
  have hmagnitude : 0x3C800000 ≤ magnitude value := by
    have hmin : magnitudeToRat 0x3C800000 = 2 ^ (-6 : ℤ) := by norm_num [magnitudeToRat]
    rwa [abs_toRat, ← hmin, magnitudeToRat_strictMono.le_iff_le] at hlow
  have hz : ¬ IsZero value := by
    intro hz
    rw [hz] at hmagnitude
    exact absurd hmagnitude (by decide)
  have hround : 0x3C800000 / 2 ^ (23 - 3) ≤ roundShift (23 - 3) (magnitude value) :=
    (Nat.div_le_div_right hmagnitude).trans (div_le_roundShift _ _)
  have hcode : 0 < e4m3.code (magnitude value) := by
    unfold MiniFormat.code MiniFormat.encode e4m3
    dsimp only
    split_ifs with hlimit hsub
    · decide
    · exact absurd hsub (by omega)
    · exact absurd hsub (by omega)
    · omega
  have hquantize : (quantizeFp8E4m3 value).toNat = sign value * 2 ^ 7 + e4m3.code (magnitude value) :=
    toNat_quantizeFp8 e4m3 hn hz
  intro hzero
  rw [hzero, UInt8.toNat_zero] at hquantize
  omega

/-- The kernel never computes the number that the host wrote, for no number of the normal range and no
scale. -/
theorem dequantEnhancedKernel_ne_host {value : UInt32} (hn : ¬ IsNaN value)
    (hlow : (2 : ℚ) ^ (-6 : ℤ) ≤ |toRat value|) {quantizedData scalesE8m0 : ℕ → UInt8}
    {numTokens headDim numHeads idx : ℕ} (hidx : idx < numTokens * headDim * numHeads)
    (hbyte : quantizedData idx = quantizeFp8E4m3 value) (isTransposed : Bool) (s : UInt8)
    (hscale : scalesE8m0 (idx / (numTokens * headDim)) = s) :
    ∃ x, dequantEnhancedKernel quantizedData scalesE8m0 numTokens headDim numHeads isTransposed idx =
        some x ∧ x ≠ 2 ^ s.toNat * dequantizeFp8E4m3 (quantizeFp8E4m3 value) := by
  refine ⟨_, dequantEnhancedKernel_eq hidx isTransposed, ?_⟩
  rw [hbyte, hscale]
  have hpos : (2 : ℚ) ^ s.toNat ≠ 0 := by positivity
  intro h
  exact dequantizeFp8E4m3_ne (quantizeFp8E4m3_ne_zero hn hlow) (mul_left_cancel₀ hpos h).symm

/-- The kernel reads the byte of `1.0` as 56. -/
theorem dequantEnhancedKernel_ne_host_one :
    ¬ IsNaN 0x3F800000 ∧ ∃ x, dequantEnhancedKernel (fun _ => quantizeFp8E4m3 0x3F800000) (fun _ => 3)
      16 128 8 false 0 = some x ∧ x ≠ 2 ^ 3 * dequantizeFp8E4m3 (quantizeFp8E4m3 0x3F800000) := by
  have hn : ¬ IsNaN 0x3F800000 := by decide
  have hone : toRat 0x3F800000 = 1 := by
    have hsign : sign 0x3F800000 = 0 := by decide
    have hmagnitude : magnitude 0x3F800000 = 0x3F800000 := by decide
    rw [toRat, hsign, hmagnitude]
    norm_num [magnitudeToRat]
  refine ⟨hn, dequantEnhancedKernel_ne_host hn ?_ (by decide) rfl false 3 rfl⟩
  rw [hone]
  norm_num

theorem dequantEnhancedKernel_fails_on_one :
    dequantEnhancedKernel (fun _ => quantizeFp8E4m3 0x3F800000) (fun _ => 3) 16 128 8 false 0 = some 448 ∧
      2 ^ 3 * dequantizeFp8E4m3 (quantizeFp8E4m3 0x3F800000) = 8 := by
  decide +kernel

end Virthub.Kernels
