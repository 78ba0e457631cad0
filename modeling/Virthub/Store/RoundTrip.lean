import Virthub.Lib.NearestEven
import Virthub.Store.Quantization

/-! The way of a number through a quantiser and back. In the normal range of the format the result is the
nearest number of the format. -/
namespace Virthub.Store
open Virthub.Lib Virthub.Lib.Binary32

section Fields
variable {F : MiniFormat} {s E m : ℕ}

theorem mod_of_fields (F : MiniFormat) (s E : ℕ) (hm : m < 2 ^ F.mantBits) :
    (s * 2 ^ F.signBit + (E * 2 ^ F.mantBits + m)) % 2 ^ F.mantBits = m := by
  obtain ⟨c, hc⟩ := Nat.pow_dvd_pow 2 F.mantBits_le
  have hsplit : s * 2 ^ F.signBit + (E * 2 ^ F.mantBits + m) = m + 2 ^ F.mantBits * (s * c + E) := by
    rw [hc]
    ring
  rw [hsplit, Nat.add_mul_mod_self_left, Nat.mod_eq_of_lt hm]

theorem exponent_of_fields (s : ℕ) (hm : m < 2 ^ F.mantBits)
    (hcode : E * 2 ^ F.mantBits + m < 2 ^ F.signBit) :
    (s * 2 ^ F.signBit + (E * 2 ^ F.mantBits + m)) / 2 ^ F.mantBits %
      2 ^ (F.signBit - F.mantBits) = E := by
  have hpow : 2 ^ F.signBit = 2 ^ F.mantBits * 2 ^ (F.signBit - F.mantBits) := by
    rw [← pow_add, Nat.add_sub_cancel' F.mantBits_le]
  have hsplit : s * 2 ^ F.signBit + (E * 2 ^ F.mantBits + m) =
      m + 2 ^ F.mantBits * (s * 2 ^ (F.signBit - F.mantBits) + E) := by
    rw [hpow]
    ring
  have hE : E < 2 ^ (F.signBit - F.mantBits) := by
    apply Nat.lt_of_mul_lt_mul_left (a := 2 ^ F.mantBits)
    rw [← hpow, Nat.mul_comm]
    omega
  rw [hsplit, Nat.add_mul_div_left _ _ (Nat.two_pow_pos _), Nat.div_eq_of_lt hm, zero_add, add_comm,
    Nat.add_mul_mod_self_right, Nat.mod_eq_of_lt hE]

theorem sign_of_fields (hs : s ≤ 1) {c : ℕ} (hc : c < 2 ^ F.signBit) :
    (s * 2 ^ F.signBit + c) / 2 ^ F.signBit % 2 = s := by
  rw [add_comm, Nat.add_mul_div_right _ _ (Nat.two_pow_pos _), Nat.div_eq_of_lt hc]
  omega

theorem dequantizeFp8_of_fields {q : UInt8} (hs : s ≤ 1) (hE : 0 < E) (hm : m < 2 ^ F.mantBits)
    (hcode : E * 2 ^ F.mantBits + m < 2 ^ F.signBit)
    (hq : q.toNat = s * 2 ^ F.signBit + (E * 2 ^ F.mantBits + m)) :
    dequantizeFp8 F q =
      if s = 1 then -((1 + m / 2 ^ F.mantBits) * 2 ^ (E - F.bias) : ℚ)
      else (1 + m / 2 ^ F.mantBits) * 2 ^ (E - F.bias) := by
  rw [dequantizeFp8_eq]
  dsimp only
  rw [hq, mod_of_fields F s E hm, exponent_of_fields s hm hcode, sign_of_fields hs hcode, if_neg hE.ne']

end Fields

theorem code_of_normal (F : MiniFormat) {n E : ℕ} (hE : 0 < E) (hlimit : E < F.expLimit)
    (hexp : ((roundShift (23 - F.mantBits) n / 2 ^ F.mantBits : ℕ) : ℤ) - 127 + F.bias = E) :
    F.code n = E * 2 ^ F.mantBits + roundShift (23 - F.mantBits) n % 2 ^ F.mantBits := by
  unfold MiniFormat.code MiniFormat.encode
  dsimp only
  rw [hexp, if_neg (by omega), if_neg (by omega), Int.toNat_natCast]

/-- The rounded magnitude of a number, with the sign of the number. -/
def roundedTo (F : MiniFormat) (x : UInt32) : ℚ :=
  if sign x = 1 then
    -magnitudeToRat (roundShift (23 - F.mantBits) (magnitude x) * 2 ^ (23 - F.mantBits))
  else magnitudeToRat (roundShift (23 - F.mantBits) (magnitude x) * 2 ^ (23 - F.mantBits))

theorem mantBits_le_23 (F : MiniFormat) : F.mantBits ≤ 23 := by
  have h1 := F.mantBits_le
  have h2 := F.signBit_lt
  omega

/-- A number whose rounded exponent is in the normal range comes back rounded. -/
theorem dequantizeFp8_quantizeFp8 (F : MiniFormat) {x : UInt32} (hn : ¬ IsNaN x) (hz : ¬ IsZero x)
    (hpos : 0 < roundShift (23 - F.mantBits) (magnitude x) / 2 ^ F.mantBits)
    (hmin : 1 - F.bias ≤ (roundShift (23 - F.mantBits) (magnitude x) / 2 ^ F.mantBits : ℕ) - 127)
    (hmax : ((roundShift (23 - F.mantBits) (magnitude x) / 2 ^ F.mantBits : ℕ) : ℤ) - 127 ≤
      F.expLimit - 1 - F.bias) : dequantizeFp8 F (quantizeFp8 F x) = roundedTo F x := by
  obtain ⟨E, hE⟩ : ∃ E : ℕ, ((roundShift (23 - F.mantBits) (magnitude x) / 2 ^ F.mantBits : ℕ) : ℤ) -
      127 + F.bias = E := ⟨_, (Int.toNat_of_nonneg (by omega)).symm⟩
  have hm := Nat.mod_lt (roundShift (23 - F.mantBits) (magnitude x)) (Nat.two_pow_pos F.mantBits)
  have hcode := code_of_normal F (by omega) (by omega) hE
  have hlt : F.code (magnitude x) < 2 ^ F.signBit := F.encode_lt hm _
  have hgrid := grid_eq_magnitudeToRat (mantBits_le_23 F) hm hpos
  have hexp : ((roundShift (23 - F.mantBits) (magnitude x) / 2 ^ F.mantBits : ℕ) : ℤ) - 127 = E - F.bias := by
    omega
  rw [Nat.div_add_mod', hexp] at hgrid
  have hquant := toNat_quantizeFp8 F hn hz
  rw [hcode] at hquant hlt
  rw [dequantizeFp8_of_fields (sign_le_one x) (by omega) hm hlt hquant, hgrid]
  rfl

theorem abs_roundedTo (F : MiniFormat) (x : UInt32) :
    |roundedTo F x| =
      magnitudeToRat (roundShift (23 - F.mantBits) (magnitude x) * 2 ^ (23 - F.mantBits)) := by
  have hnonneg := magnitudeToRat_nonneg
    (roundShift (23 - F.mantBits) (magnitude x) * 2 ^ (23 - F.mantBits))
  unfold roundedTo
  split_ifs
  · rw [abs_neg, abs_of_nonneg hnonneg]
  · exact abs_of_nonneg hnonneg

theorem roundedTo_same_sign (F : MiniFormat) (x : UInt32) :
    0 ≤ toRat x ∧ 0 ≤ roundedTo F x ∨ toRat x ≤ 0 ∧ roundedTo F x ≤ 0 := by
  unfold toRat roundedTo
  split_ifs
  · exact .inr ⟨neg_nonpos.mpr (magnitudeToRat_nonneg _), neg_nonpos.mpr (magnitudeToRat_nonneg _)⟩
  · exact .inl ⟨magnitudeToRat_nonneg _, magnitudeToRat_nonneg _⟩

/-- In the normal range of a format a number comes back as the nearest one of the format. -/
theorem nearestEven_quantizeFp8 (F : MiniFormat) (hbias : F.bias ≤ 127) (hlimit : 2 ≤ F.expLimit)
    {x : UInt32} (hn : ¬ IsNaN x) (hlo : 2 ^ (1 - F.bias) ≤ |toRat x|)
    (hhi : |toRat x| ≤ (1 + (2 ^ F.mantBits - 1 : ℕ) / 2 ^ F.mantBits) * 2 ^ (F.expLimit - 1 - F.bias)) :
    NearestEven F.mantBits (1 - F.bias) (F.expLimit - 1 - F.bias) (toRat x)
      (dequantizeFp8 F (quantizeFp8 F x)) := by
  have hw := mantBits_le_23 F
  have hz : ¬ IsZero x := by
    intro hzero
    rw [abs_toRat, hzero] at hlo
    exact absurd hlo (not_le.mpr (by norm_num [magnitudeToRat]; positivity))
  obtain ⟨hpos, hmin, hmax⟩ :=
    roundShift_bounds hw (by omega) (by omega) (abs_toRat x) hlo hhi
  rw [dequantizeFp8_quantizeFp8 F hn hz hpos hmin hmax]
  exact nearestEven_of_roundShift hw F.mantBits_pos (by omega) (by omega) (abs_toRat x)
    (abs_roundedTo F x) (roundedTo_same_sign F x) hlo hhi

/-- Both FP8 quantisers round to nearest even in the normal range of their format. -/
theorem fp8_rounds_to_nearest_even (x : UInt32) (hfinite : magnitude x < infinity) :
    (2 ^ (-6 : ℤ) ≤ |toRat x| → |toRat x| ≤ 240 →
      NearestEven 3 (-6) 7 (toRat x) (dequantizeFp8E4m3 (quantizeFp8E4m3 x))) ∧
    (2 ^ (-14 : ℤ) ≤ |toRat x| → |toRat x| ≤ 57344 →
      NearestEven 2 (-14) 15 (toRat x) (dequantizeFp8E5m2 (quantizeFp8E5m2 x))) := by
  have hn : ¬ IsNaN x := not_lt.mpr hfinite.le
  constructor
  · intro hlo hhi
    refine nearestEven_quantizeFp8 e4m3 (by decide) (by decide) hn hlo (hhi.trans_eq ?_)
    norm_num [e4m3]
  · intro hlo hhi
    refine nearestEven_quantizeFp8 e5m2 (by decide) (by decide) hn hlo (hhi.trans_eq ?_)
    norm_num [e5m2]

/-- `1.0625` is halfway between two numbers of the first format. -/
theorem fp8_rounds_to_nearest_even_at_tie :
    magnitude 0x3F880000 < infinity ∧
      NearestEven 3 (-6) 7 (toRat 0x3F880000) (dequantizeFp8E4m3 (quantizeFp8E4m3 0x3F880000)) ∧
      NearestEven 2 (-14) 15 (toRat 0x3F880000) (dequantizeFp8E5m2 (quantizeFp8E5m2 0x3F880000)) := by
  have habs : |toRat 0x3F880000| = 17 / 16 := by
    have hmag : magnitude 0x3F880000 = 0x3F880000 := by decide
    rw [abs_toRat, hmag]
    norm_num [magnitudeToRat]
  have hfinite : magnitude 0x3F880000 < infinity := by decide
  obtain ⟨h4, h5⟩ := fp8_rounds_to_nearest_even 0x3F880000 hfinite
  refine ⟨hfinite, h4 ?_ ?_, h5 ?_ ?_⟩
  all_goals
    rw [habs]
    norm_num

end Virthub.Store
