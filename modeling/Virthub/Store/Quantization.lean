import Virthub.Store.Formats

/-! The quantisers of the host. An `f32` is its bit pattern, and the results of dequantisation, which are
exact, are rational numbers. -/
namespace Virthub.Store
open Virthub.Lib Virthub.Lib.Binary32

/-- The mantissa cut to the bits of the format and rounded, with the exponent. -/
def roundMantissa (F : MiniFormat) (exp : ℤ) (f32Mant : UInt32) : ℤ × UInt32 :=
  let mant := f32Mant >>> UInt32.ofNat (23 - F.mantBits)
  let roundBit := (f32Mant >>> UInt32.ofNat (23 - F.mantBits - 1)) &&& 1
  let sticky := f32Mant &&& ((1 <<< UInt32.ofNat (23 - F.mantBits - 1)) - 1) ≠ 0
  if roundBit = 1 ∧ (sticky ∨ mant &&& 1 = 1) then
    if mant + 1 = F.leadingBit then (exp + 1, 0) else (exp, mant + 1)
  else (exp, mant)

def pack (F : MiniFormat) (sign : UInt8) (exp : ℤ) (mant : UInt32) : UInt8 :=
  (sign <<< UInt8.ofNat F.signBit) ||| (UInt8.ofInt exp <<< UInt8.ofNat F.mantBits) ||| mant.toUInt8

/-- The code of the rounded number: infinity, a subnormal number, zero or a normal one. -/
def finish (F : MiniFormat) (sign : UInt8) (fp8Exp : ℤ) (mant : UInt32) : UInt8 :=
  if fp8Exp ≥ F.expLimit then (sign <<< UInt8.ofNat F.signBit) ||| UInt8.ofNat F.infinity
  else if fp8Exp ≤ 0 then
    if fp8Exp < F.lowest then sign <<< UInt8.ofNat F.signBit
    else
      pack F sign 0 (((F.leadingBit ||| mant) >>> UInt32.ofNat (1 - fp8Exp).toNat) &&& (F.leadingBit - 1))
  else pack F sign fp8Exp mant

/-- The body of the two FP8 quantisers. -/
def quantizeFp8 (F : MiniFormat) (value : UInt32) : UInt8 :=
  if IsNaN value then UInt8.ofNat F.nan
  else if IsZero value then 0x00
  else
    let sign := ((value >>> 31) &&& 0x1).toUInt8
    if IsInfinite (value &&& 0x7FFFFFFF) then
      (sign <<< UInt8.ofNat F.signBit) ||| UInt8.ofNat F.infinity
    else
      let f32Exp : ℤ := ((value >>> 23) &&& 0xFF).toNat - 127
      let rounded := roundMantissa F (f32Exp + F.bias) (value &&& 0x7FFFFF)
      finish F sign rounded.1 rounded.2

def quantizeFp8E4m3 : UInt32 → UInt8 := quantizeFp8 e4m3
def quantizeFp8E5m2 : UInt32 → UInt8 := quantizeFp8 e5m2

/-- The body of the two FP8 dequantisers. -/
def dequantizeFp8 (F : MiniFormat) (q : UInt8) : ℚ :=
  let sign := (q >>> UInt8.ofNat F.signBit) &&& 0x1
  let exp := (q >>> UInt8.ofNat F.mantBits) &&& UInt8.ofNat (2 ^ (F.signBit - F.mantBits) - 1)
  let mant := q &&& UInt8.ofNat (2 ^ F.mantBits - 1)
  let value : ℚ :=
    if exp = 0 then mant.toNat * 2 ^ (1 - F.bias)
    else (1 + mant.toNat / 2 ^ F.mantBits) * 2 ^ ((exp.toNat : ℤ) - F.bias)
  if sign = 1 then -value else value

def dequantizeFp8E4m3 : UInt8 → ℚ := dequantizeFp8 e4m3
def dequantizeFp8E5m2 : UInt8 → ℚ := dequantizeFp8 e5m2

def packFp4 (sign exp mant : UInt8) : UInt8 := (sign <<< 3) ||| (exp <<< 1) ||| mant

/-- The FP4 quantiser compares with the midpoints of its numbers. -/
def quantizeFp4E2m1 (value : UInt32) : UInt8 :=
  if IsNaN value then 0x7
  else if IsZero value then 0x0
  else
    let sign := ((value >>> 31) &&& 0x1).toUInt8
    let absValue := value &&& 0x7FFFFFFF
    if IsInfinite absValue then (sign <<< 3) ||| 0x6
    else if toRat absValue < 1 / 4 then packFp4 sign 0 0
    else if toRat absValue < 3 / 4 then packFp4 sign 0 1
    else if toRat absValue < 5 / 4 then packFp4 sign 1 0
    else if toRat absValue < 7 / 4 then packFp4 sign 1 1
    else if toRat absValue < 5 / 2 then packFp4 sign 2 0
    else if toRat absValue < 7 / 2 then packFp4 sign 2 1
    else (sign <<< 3) ||| 0x6

/-- The mantissa and the exponent are those of the rounded number. -/
theorem roundMantissa_spec (F : MiniFormat) (exp : ℤ) {f32Mant : UInt32} (h : f32Mant.toNat < 2 ^ 23) :
    ((roundMantissa F exp f32Mant).1, (roundMantissa F exp f32Mant).2.toNat) =
      (exp + (roundShift (23 - F.mantBits) f32Mant.toNat / 2 ^ F.mantBits : ℕ),
        roundShift (23 - F.mantBits) f32Mant.toNat % 2 ^ F.mantBits) := by
  obtain ⟨k, hk, hwidth, hle⟩ := F.exists_dropped
  have hbits : f32Mant.toNat < 2 ^ (F.mantBits + (k + 1)) := by rwa [hwidth]
  have hlt := div_two_pow_lt hbits
  have hmant := toNat_shiftRight (k := k + 1) (by omega) f32Mant
  have hsucc : ((f32Mant >>> UInt32.ofNat (k + 1)) + 1).toNat = f32Mant.toNat / 2 ^ (k + 1) + 1 := by
    rw [UInt32.toNat_add, hmant, UInt32.toNat_one]
    omega
  have hup : ((f32Mant >>> UInt32.ofNat k) &&& 1 = 1 ∧
      (f32Mant &&& ((1 <<< UInt32.ofNat k) - 1) ≠ 0 ∨
        (f32Mant >>> UInt32.ofNat (k + 1)) &&& 1 = 1)) ↔ RoundsUp k f32Mant.toNat := by
    rw [and_one_eq_one_iff, and_one_eq_one_iff, and_mask_ne_zero_iff (by omega), hmant,
      toNat_shiftRight (by omega)]
    rfl
  have hcarry : (f32Mant >>> UInt32.ofNat (k + 1)) + 1 = F.leadingBit ↔
      f32Mant.toNat / 2 ^ (k + 1) + 1 = 2 ^ F.mantBits := by
    rw [← UInt32.toNat_inj, hsucc, MiniFormat.leadingBit, toNat_one_shiftLeft (by omega)]
  unfold roundMantissa
  simp only [hk, Nat.add_sub_cancel, hup, hcarry]
  rw [roundShift_carry hbits]
  split_ifs
  · rfl
  · exact Prod.ext rfl hsucc
  · exact Prod.ext rfl hmant

theorem toNat_shiftLeft_of_lt {a : UInt8} {k : ℕ} (hk : k < 8) (h : a.toNat * 2 ^ k < 2 ^ 8) :
    (a <<< UInt8.ofNat k).toNat = a.toNat <<< k := by
  have hshift : (UInt8.ofNat k).toNat = k := Nat.mod_eq_of_lt (by omega)
  rw [UInt8.toNat_shiftLeft, hshift, Nat.mod_eq_of_lt hk, Nat.shiftLeft_eq, Nat.mod_eq_of_lt h]

theorem sign_mul_lt (F : MiniFormat) {sign : UInt8} (hs : sign.toNat ≤ 1) :
    sign.toNat * 2 ^ F.signBit < 2 ^ 8 := by
  have hle : 2 ^ F.signBit ≤ 2 ^ 7 := Nat.pow_le_pow_right two_pos (by have := F.signBit_lt; omega)
  have hmul : sign.toNat * 2 ^ F.signBit ≤ 1 * 2 ^ F.signBit := Nat.mul_le_mul_right _ hs
  omega

theorem toNat_pack (F : MiniFormat) {sign : UInt8} (hs : sign.toNat ≤ 1) {exp : ℤ} (he : 0 ≤ exp)
    {mant : UInt32} (hm : mant.toNat < 2 ^ F.mantBits)
    (hcode : exp.toNat * 2 ^ F.mantBits + mant.toNat < 2 ^ F.signBit) :
    (pack F sign exp mant).toNat =
      sign.toNat * 2 ^ F.signBit + (exp.toNat * 2 ^ F.mantBits + mant.toNat) := by
  have hb := F.signBit_lt
  have hw := F.mantBits_le
  have hle : 2 ^ F.signBit ≤ 2 ^ 7 := Nat.pow_le_pow_right two_pos (by omega)
  have hexp_le : exp.toNat ≤ exp.toNat * 2 ^ F.mantBits :=
    Nat.le_mul_of_pos_right _ (Nat.two_pow_pos _)
  have hexp : (UInt8.ofInt exp).toNat = exp.toNat := by
    simp only [UInt8.ofInt, UInt8.toNat_ofNat']
    omega
  have hmant : mant.toUInt8.toNat = mant.toNat := by
    rw [UInt32.toNat_toUInt8]
    omega
  unfold pack
  rw [UInt8.toNat_or, UInt8.toNat_or, toNat_shiftLeft_of_lt hb (sign_mul_lt F hs),
    toNat_shiftLeft_of_lt (by omega) (by rw [hexp]; omega), hexp, hmant, shiftLeft_or_or hm hcode]

theorem toNat_sign_or (F : MiniFormat) {sign : UInt8} (hs : sign.toNat ≤ 1) {c : ℕ}
    (hc : c < 2 ^ F.signBit) :
    ((sign <<< UInt8.ofNat F.signBit) ||| UInt8.ofNat c).toNat = sign.toNat * 2 ^ F.signBit + c := by
  have hle : 2 ^ F.signBit ≤ 2 ^ 7 := Nat.pow_le_pow_right two_pos (by have := F.signBit_lt; omega)
  have hcode : (UInt8.ofNat c).toNat = c := Nat.mod_eq_of_lt (by omega)
  rw [UInt8.toNat_or, toNat_shiftLeft_of_lt F.signBit_lt (sign_mul_lt F hs), hcode,
    ← Nat.shiftLeft_add_eq_or_of_lt hc, Nat.shiftLeft_eq]

theorem toNat_finish (F : MiniFormat) {sign : UInt8} (hs : sign.toNat ≤ 1) (exp : ℤ) {mant : UInt32}
    (hm : mant.toNat < 2 ^ F.mantBits) :
    (finish F sign exp mant).toNat = sign.toNat * 2 ^ F.signBit + F.encode exp mant.toNat := by
  have hlt := F.encode_lt hm exp
  unfold MiniFormat.encode at hlt ⊢
  unfold finish
  by_cases hlimit : (F.expLimit : ℤ) ≤ exp
  · rw [if_pos hlimit, if_pos hlimit, toNat_sign_or F hs F.infinity_lt]
  · rw [if_neg hlimit] at hlt
    rw [if_neg hlimit, if_neg hlimit]
    by_cases hsub : exp ≤ 0
    · rw [if_pos hsub] at hlt
      rw [if_pos hsub, if_pos hsub]
      by_cases hlow : exp < F.lowest
      · rw [if_pos hlow, if_pos hlow, toNat_shiftLeft_of_lt F.signBit_lt (sign_mul_lt F hs),
          Nat.shiftLeft_eq, add_zero]
      · rw [if_neg hlow] at hlt
        have hgt := F.lowest_gt
        obtain ⟨hvalue, hbound⟩ := F.toNat_subnormal hm (k := (1 - exp).toNat) (by omega) (by omega)
        rw [if_neg hlow, if_neg hlow, toNat_pack F hs le_rfl (by rwa [hvalue])
          (by rwa [hvalue, Int.toNat_zero, zero_mul, zero_add]), hvalue, Int.toNat_zero, zero_mul, zero_add]
    · rw [if_neg hsub] at hlt
      rw [if_neg hsub, if_neg hsub, toNat_pack F hs (by omega) hm hlt]

/-- The code of a number that is neither zero nor a NaN: its sign, and the code of its magnitude. -/
theorem toNat_quantizeFp8 (F : MiniFormat) {value : UInt32} (hn : ¬ IsNaN value) (hz : ¬ IsZero value) :
    (quantizeFp8 F value).toNat = sign value * 2 ^ F.signBit + F.code (magnitude value) := by
  have hsign := toNat_sign_field value
  have hs : ((value >>> 31) &&& 0x1).toUInt8.toNat ≤ 1 := hsign ▸ sign_le_one value
  have hmant : (value &&& 0x7FFFFF).toNat < 2 ^ 23 := by
    rw [toNat_mantissa_field]
    exact Nat.mod_lt _ (by decide)
  obtain ⟨hexp, hround⟩ := Prod.mk.inj
    (roundMantissa_spec F (((value >>> 23) &&& 0xFF).toNat - 127 + F.bias : ℤ) hmant)
  unfold quantizeFp8
  rw [if_neg hn, if_neg hz]
  dsimp only
  split_ifs with hinf
  · have hfield : magnitude value = infinity := (magnitude_and value).symm.trans hinf
    rw [toNat_sign_or F hs F.infinity_lt, hsign, hfield, F.code_infinity]
  · have hm := Nat.mod_lt (roundShift (23 - F.mantBits) (value &&& 0x7FFFFF).toNat)
      (Nat.two_pow_pos F.mantBits)
    rw [← hround] at hm
    rw [toNat_finish F hs _ hm, hsign, hexp, hround, F.code_eq, toNat_exponent_field,
      toNat_mantissa_field]

theorem toNat_byte_field {k w : ℕ} (hk : k < 8) (hw : w ≤ 8) (q : UInt8) :
    ((q >>> UInt8.ofNat k) &&& UInt8.ofNat (2 ^ w - 1)).toNat = q.toNat / 2 ^ k % 2 ^ w := by
  have hpow : 2 ^ w ≤ 2 ^ 8 := Nat.pow_le_pow_right two_pos hw
  have hshift : (UInt8.ofNat k).toNat = k := Nat.mod_eq_of_lt (by omega)
  have hmask : (UInt8.ofNat (2 ^ w - 1)).toNat = 2 ^ w - 1 := Nat.mod_eq_of_lt (by omega)
  rw [UInt8.toNat_and, UInt8.toNat_shiftRight, hshift, hmask, Nat.mod_eq_of_lt hk,
    Nat.and_two_pow_sub_one_eq_mod, Nat.shiftRight_eq_div_pow]

/-- The number that a byte stands for, by its fields. -/
theorem dequantizeFp8_eq (F : MiniFormat) (q : UInt8) :
    dequantizeFp8 F q =
      let exp := q.toNat / 2 ^ F.mantBits % 2 ^ (F.signBit - F.mantBits)
      let mant := q.toNat % 2 ^ F.mantBits
      let value : ℚ :=
        if exp = 0 then mant * 2 ^ (1 - F.bias) else (1 + mant / 2 ^ F.mantBits) * 2 ^ (exp - F.bias)
      if q.toNat / 2 ^ F.signBit % 2 = 1 then -value else value := by
  have hb := F.signBit_lt
  have hw := F.mantBits_le
  have hsign : (q >>> UInt8.ofNat F.signBit) &&& 0x1 = 1 ↔ q.toNat / 2 ^ F.signBit % 2 = 1 := by
    rw [← UInt8.toNat_inj]
    exact Iff.of_eq (congrArg (· = 1) (toNat_byte_field hb (w := 1) (by decide) q))
  have hexp := toNat_byte_field (k := F.mantBits) (w := F.signBit - F.mantBits) (by omega) (by omega) q
  have hzero : (q >>> UInt8.ofNat F.mantBits) &&& UInt8.ofNat (2 ^ (F.signBit - F.mantBits) - 1) = 0 ↔
      q.toNat / 2 ^ F.mantBits % 2 ^ (F.signBit - F.mantBits) = 0 := by
    rw [← UInt8.toNat_inj, hexp, UInt8.toNat_zero]
  have hmant : (q &&& UInt8.ofNat (2 ^ F.mantBits - 1)).toNat = q.toNat % 2 ^ F.mantBits := by
    have hfield := toNat_byte_field (k := 0) (w := F.mantBits) (by decide) (by omega) q
    rwa [show UInt8.ofNat 0 = 0 from rfl, UInt8.shiftRight_zero, pow_zero, Nat.div_one] at hfield
  unfold dequantizeFp8
  simp only [hsign, hzero, hexp, hmant]

end Virthub.Store
