import Virthub.Store.Formats

/-! The quantisers of the device. Their bytes are widened to `int` by every operator and cut back to
`uint8_t` by every assignment. -/
namespace Virthub.Kernels.QuantizationUtils
open Virthub.Lib Virthub.Lib.Binary32

def roundMantissa (F : MiniFormat) (exp : ℤ) (f32Mant : UInt32) : ℤ × UInt8 :=
  let mant := (f32Mant >>> UInt32.ofNat (23 - F.mantBits)).toUInt8
  let roundBit := ((f32Mant >>> UInt32.ofNat (23 - F.mantBits - 1)) &&& 1).toUInt8
  let sticky : UInt8 :=
    if f32Mant &&& ((1 <<< UInt32.ofNat (23 - F.mantBits - 1)) - 1) ≠ 0 then 1 else 0
  if roundBit ≠ 0 ∧ (sticky ≠ 0 ∨ mant.toUInt32 &&& 1 ≠ 0) then
    if (mant + 1).toUInt32 = F.leadingBit then (exp + 1, 0) else (exp, mant + 1)
  else (exp, mant)

def pack (F : MiniFormat) (sign : UInt8) (exp : ℤ) (mant : UInt8) : UInt8 :=
  ((sign.toUInt32 <<< UInt32.ofNat F.signBit) |||
    (UInt32.ofNat (exp % 2 ^ (F.signBit - F.mantBits)).toNat <<< UInt32.ofNat F.mantBits) |||
    mant.toUInt32).toUInt8

def finish (F : MiniFormat) (sign : UInt8) (exp : ℤ) (mant : UInt8) : UInt8 :=
  if exp ≥ F.expLimit then
    ((sign.toUInt32 <<< UInt32.ofNat F.signBit) ||| UInt32.ofNat F.infinity).toUInt8
  else if exp ≤ 0 then
    if exp < F.lowest then (sign.toUInt32 <<< UInt32.ofNat F.signBit).toUInt8
    else
      pack F sign 0 (((F.leadingBit ||| mant.toUInt32) >>> UInt32.ofNat (1 - exp).toNat) &&&
        (F.leadingBit - 1)).toUInt8
  else pack F sign exp mant

/-- The body of the three quantisers. -/
def quantize (F : MiniFormat) (value : UInt32) : UInt8 :=
  if IsNaN value then UInt8.ofNat F.nan
  else if IsZero value then 0x00
  else
    let sign := ((value >>> 31) &&& 0x1).toUInt8
    if IsInfinite (value &&& 0x7FFFFFFF) then
      ((sign.toUInt32 <<< UInt32.ofNat F.signBit) ||| UInt32.ofNat F.infinity).toUInt8
    else
      let f32Exp : ℤ := ((value >>> 23) &&& 0xFF).toNat - 127
      let rounded := roundMantissa F (f32Exp + F.bias) (value &&& 0x7FFFFF)
      finish F sign rounded.1 rounded.2

def quantizeFp8E4m3 : UInt32 → UInt8 := quantize e4m3
def quantizeFp8E5m2 : UInt32 → UInt8 := quantize e5m2
def quantizeFp4E2m1 : UInt32 → UInt8 := quantize e2m1

theorem toNat_toUInt8_of_lt {a : UInt32} (h : a.toNat < 2 ^ 8) : a.toUInt8.toNat = a.toNat := by
  rw [UInt32.toNat_toUInt8, Nat.mod_eq_of_lt h]

theorem roundMantissa_spec (F : MiniFormat) (exp : ℤ) {f32Mant : UInt32} (h : f32Mant.toNat < 2 ^ 23) :
    ((roundMantissa F exp f32Mant).1, (roundMantissa F exp f32Mant).2.toNat) =
      (exp + (roundShift (23 - F.mantBits) f32Mant.toNat / 2 ^ F.mantBits : ℕ),
        roundShift (23 - F.mantBits) f32Mant.toNat % 2 ^ F.mantBits) := by
  obtain ⟨k, hk, hwidth, hle⟩ := F.exists_dropped
  have hbits : f32Mant.toNat < 2 ^ (F.mantBits + (k + 1)) := by rwa [hwidth]
  have hlt := div_two_pow_lt hbits
  have hmant : (f32Mant >>> UInt32.ofNat (k + 1)).toUInt8.toNat = f32Mant.toNat / 2 ^ (k + 1) := by
    rw [toNat_toUInt8_of_lt, toNat_shiftRight (by omega)]
    rw [toNat_shiftRight (by omega)]
    exact hlt.trans_le (hle.trans (by decide))
  have hsucc : ((f32Mant >>> UInt32.ofNat (k + 1)).toUInt8 + 1).toNat =
      f32Mant.toNat / 2 ^ (k + 1) + 1 := by
    rw [UInt8.toNat_add, hmant, UInt8.toNat_one]
    exact Nat.mod_eq_of_lt (by omega)
  have hbit : ((f32Mant >>> UInt32.ofNat k) &&& 1).toUInt8 ≠ 0 ↔ f32Mant.toNat / 2 ^ k % 2 = 1 := by
    rw [Ne, ← UInt8.toNat_inj, UInt32.toNat_toUInt8, toNat_and_one, toNat_shiftRight (by omega),
      UInt8.toNat_zero]
    omega
  have hodd : (f32Mant >>> UInt32.ofNat (k + 1)).toUInt8.toUInt32 &&& 1 ≠ 0 ↔
      f32Mant.toNat / 2 ^ (k + 1) % 2 = 1 := by
    rw [Ne, ← UInt32.toNat_inj, toNat_and_one, UInt8.toNat_toUInt32, hmant, UInt32.toNat_zero]
    omega
  have hsticky : (if f32Mant &&& ((1 <<< UInt32.ofNat k) - 1) ≠ 0 then (1 : UInt8) else 0) ≠ 0 ↔
      f32Mant.toNat % 2 ^ k ≠ 0 := by
    rw [← and_mask_ne_zero_iff (by omega) f32Mant]
    split_ifs with hs
    · exact iff_of_true (by decide) hs
    · exact iff_of_false (by decide) hs
  have hcarry : ((f32Mant >>> UInt32.ofNat (k + 1)).toUInt8 + 1).toUInt32 = F.leadingBit ↔
      f32Mant.toNat / 2 ^ (k + 1) + 1 = 2 ^ F.mantBits := by
    rw [← UInt32.toNat_inj, UInt8.toNat_toUInt32, hsucc, MiniFormat.leadingBit,
      toNat_one_shiftLeft (by omega)]
  have hup : (((f32Mant >>> UInt32.ofNat k) &&& 1).toUInt8 ≠ 0 ∧
      ((if f32Mant &&& ((1 <<< UInt32.ofNat k) - 1) ≠ 0 then (1 : UInt8) else 0) ≠ 0 ∨
        (f32Mant >>> UInt32.ofNat (k + 1)).toUInt8.toUInt32 &&& 1 ≠ 0)) ↔
      RoundsUp k f32Mant.toNat := by
    rw [hbit, hsticky, hodd]
    rfl
  unfold roundMantissa
  simp only [hk, Nat.add_sub_cancel, hup, hcarry]
  rw [roundShift_carry hbits]
  split_ifs
  · rfl
  · exact Prod.ext rfl hsucc
  · exact Prod.ext rfl hmant

theorem toNat_shiftLeft_of_lt {a : UInt32} {k : ℕ} (hk : k < 32) (h : a.toNat * 2 ^ k < 2 ^ 32) :
    (a <<< UInt32.ofNat k).toNat = a.toNat <<< k := by
  rw [UInt32.toNat_shiftLeft, toNat_ofNat_of_lt (by omega), Nat.mod_eq_of_lt hk, Nat.shiftLeft_eq,
    Nat.mod_eq_of_lt h]

theorem sign_mul_le (F : MiniFormat) {sign : UInt8} (hs : sign.toNat ≤ 1) :
    sign.toNat * 2 ^ F.signBit + 2 ^ F.signBit ≤ 2 ^ 8 := by
  have hle : 2 ^ F.signBit ≤ 2 ^ 7 := Nat.pow_le_pow_right two_pos (by have := F.signBit_lt; omega)
  have hmul : sign.toNat * 2 ^ F.signBit ≤ 1 * 2 ^ F.signBit := Nat.mul_le_mul_right _ hs
  omega

theorem toNat_sign_shiftLeft (F : MiniFormat) {sign : UInt8} (hs : sign.toNat ≤ 1) :
    (sign.toUInt32 <<< UInt32.ofNat F.signBit).toNat = sign.toNat <<< F.signBit := by
  have hlt : sign.toNat * 2 ^ F.signBit < 2 ^ 32 :=
    ((Nat.le_add_right _ _).trans (sign_mul_le F hs)).trans_lt (by decide)
  have hb := F.signBit_lt
  rw [toNat_shiftLeft_of_lt (by omega), UInt8.toNat_toUInt32]
  rwa [UInt8.toNat_toUInt32]

theorem toNat_sign_or (F : MiniFormat) {sign : UInt8} (hs : sign.toNat ≤ 1) {c : ℕ}
    (hc : c < 2 ^ F.signBit) :
    ((sign.toUInt32 <<< UInt32.ofNat F.signBit) ||| UInt32.ofNat c).toUInt8.toNat =
      sign.toNat * 2 ^ F.signBit + c := by
  have hle := sign_mul_le F hs
  have hor : ((sign.toUInt32 <<< UInt32.ofNat F.signBit) ||| UInt32.ofNat c).toNat =
      sign.toNat * 2 ^ F.signBit + c := by
    rw [UInt32.toNat_or, toNat_sign_shiftLeft F hs, toNat_ofNat_of_lt (by omega),
      ← Nat.shiftLeft_add_eq_or_of_lt hc, Nat.shiftLeft_eq]
  rw [toNat_toUInt8_of_lt (by omega), hor]

theorem toNat_pack (F : MiniFormat) {sign : UInt8} (hs : sign.toNat ≤ 1) {exp : ℤ} (he : 0 ≤ exp)
    {mant : UInt8} (hm : mant.toNat < 2 ^ F.mantBits)
    (hcode : exp.toNat * 2 ^ F.mantBits + mant.toNat < 2 ^ F.signBit) :
    (pack F sign exp mant).toNat =
      sign.toNat * 2 ^ F.signBit + (exp.toNat * 2 ^ F.mantBits + mant.toNat) := by
  have hle := sign_mul_le F hs
  have hw := F.mantBits_le
  have hb := F.signBit_lt
  -- the exponent fits into its field, so that the mask leaves it
  have hfield : exp.toNat < 2 ^ (F.signBit - F.mantBits) := by
    have hpow : 2 ^ (F.signBit - F.mantBits) * 2 ^ F.mantBits = 2 ^ F.signBit := by
      rw [← pow_add, Nat.sub_add_cancel hw]
    have hmul : exp.toNat * 2 ^ F.mantBits < 2 ^ (F.signBit - F.mantBits) * 2 ^ F.mantBits := by
      omega
    exact Nat.lt_of_mul_lt_mul_right hmul
  have hmask : (exp % 2 ^ (F.signBit - F.mantBits)).toNat = exp.toNat := by
    rw [Int.emod_eq_of_lt he]
    have hcast : (exp.toNat : ℤ) < 2 ^ (F.signBit - F.mantBits) := by exact_mod_cast hfield
    rwa [Int.toNat_of_nonneg he] at hcast
  have hexp_le : exp.toNat ≤ exp.toNat * 2 ^ F.mantBits :=
    Nat.le_mul_of_pos_right _ (Nat.two_pow_pos _)
  have hexp : (UInt32.ofNat exp.toNat).toNat = exp.toNat := toNat_ofNat_of_lt (by omega)
  have hword : ((sign.toUInt32 <<< UInt32.ofNat F.signBit) |||
      (UInt32.ofNat exp.toNat <<< UInt32.ofNat F.mantBits) ||| mant.toUInt32).toNat =
      sign.toNat * 2 ^ F.signBit + (exp.toNat * 2 ^ F.mantBits + mant.toNat) := by
    rw [UInt32.toNat_or, UInt32.toNat_or, toNat_sign_shiftLeft F hs,
      toNat_shiftLeft_of_lt (by omega) (by rw [hexp]; omega), hexp, UInt8.toNat_toUInt32,
      shiftLeft_or_or hm hcode]
  unfold pack
  rw [hmask, toNat_toUInt8_of_lt (by omega), hword]

theorem toNat_finish (F : MiniFormat) {sign : UInt8} (hs : sign.toNat ≤ 1) (exp : ℤ) {mant : UInt8}
    (hm : mant.toNat < 2 ^ F.mantBits) :
    (finish F sign exp mant).toNat = sign.toNat * 2 ^ F.signBit + F.encode exp mant.toNat := by
  have hlt := F.encode_lt hm exp
  have hle := sign_mul_le F hs
  unfold MiniFormat.encode at hlt ⊢
  unfold finish
  by_cases hlimit : (F.expLimit : ℤ) ≤ exp
  · rw [if_pos hlimit, if_pos hlimit, toNat_sign_or F hs F.infinity_lt]
  · rw [if_neg hlimit] at hlt
    rw [if_neg hlimit, if_neg hlimit]
    by_cases hsub : exp ≤ 0
    · rw [if_pos hsub] at hlt
      rw [if_pos hsub, if_pos hsub]
      by_cases hlow : exp < F.lowest
      · have hzero := toNat_sign_or F hs (Nat.two_pow_pos F.signBit)
        rw [if_pos hlow, if_pos hlow, ← hzero, show UInt32.ofNat 0 = 0 from rfl, UInt32.or_zero]
      · rw [if_neg hlow] at hlt
        have hgt := F.lowest_gt
        rw [← UInt8.toNat_toUInt32 mant] at hm hlt ⊢
        obtain ⟨hvalue, hbound⟩ := F.toNat_subnormal hm (k := (1 - exp).toNat) (by omega) (by omega)
        have hcut := hvalue
        rw [← toNat_toUInt8_of_lt (by omega)] at hcut
        rw [if_neg hlow, if_neg hlow, toNat_pack F hs le_rfl (by rwa [hcut])
          (by rwa [hcut, Int.toNat_zero, zero_mul, zero_add]), hcut, Int.toNat_zero, zero_mul, zero_add]
    · rw [if_neg hsub] at hlt
      rw [if_neg hsub, if_neg hsub, toNat_pack F hs (by omega) hm hlt]

/-- The code of a number that is neither zero nor a NaN: its sign, and the code of its magnitude. -/
theorem toNat_quantize (F : MiniFormat) {value : UInt32} (hn : ¬ IsNaN value) (hz : ¬ IsZero value) :
    (quantize F value).toNat = sign value * 2 ^ F.signBit + F.code (magnitude value) := by
  have hsign := toNat_sign_field value
  have hs : ((value >>> 31) &&& 0x1).toUInt8.toNat ≤ 1 := hsign ▸ sign_le_one value
  have hmant : (value &&& 0x7FFFFF).toNat < 2 ^ 23 := by
    rw [toNat_mantissa_field]
    exact Nat.mod_lt _ (by decide)
  obtain ⟨hexp, hround⟩ := Prod.mk.inj
    (roundMantissa_spec F (((value >>> 23) &&& 0xFF).toNat - 127 + F.bias : ℤ) hmant)
  unfold quantize
  rw [if_neg hn, if_neg hz]
  dsimp only
  split_ifs with hinf
  · have hfield : magnitude value = infinity := (magnitude_and value).symm.trans hinf
    rw [toNat_sign_or F hs F.infinity_lt, hsign, hfield, F.code_infinity]
  · have hm := Nat.mod_lt (roundShift (23 - F.mantBits) (value &&& 0x7FFFFF).toNat)
      (Nat.two_pow_pos F.mantBits)
    rw [← hround] at hm
    rw [toNat_finish F hs _ hm, hsign, hexp, hround, F.code_eq, toNat_exponent_field,
      toNat_mantissa_field]

end Virthub.Kernels.QuantizationUtils
