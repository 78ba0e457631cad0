import Mathlib.Tactic.IntervalCases
import Virthub.Store.Quantization

/-! FP4 numbers in pairs: two numbers are quantised, packed into a byte, unpacked and dequantised. They come
back as the nearest FP4 numbers, and a number halfway between two of them as the one that is further from
zero. -/
namespace Virthub.Store
open Virthub.Lib Virthub.Lib.Binary32

/-- A decoded number. The two zeros are one number. -/
inductive Fp4Value where
  | finite (value : ℚ)
  | infinite (negative : Bool)
  deriving DecidableEq

def fp4Magnitude (exp mant : ℕ) : ℚ :=
  if exp = 0 then mant * (1 / 2) else (1 + mant / 2) * 2 ^ ((exp : ℤ) - 1)

/-- The number with the given fields. Exponent 3 stands for infinity, whatever the mantissa. -/
def fp4Value (sign exp mant : ℕ) : Fp4Value :=
  if exp = 3 then .infinite (sign = 1)
  else .finite (if sign = 1 then -fp4Magnitude exp mant else fp4Magnitude exp mant)

def dequantizeFp4E2m1 (q : UInt8) : Fp4Value :=
  let sign := (q >>> 3) &&& 0x1
  let exp := (q >>> 1) &&& 0x3
  let mant := q &&& 0x1
  fp4Value sign.toNat exp.toNat mant.toNat

def packFp4Pair (a b : UInt8) : UInt8 := (a <<< 4) ||| (b &&& 0x0F)

def unpackFp4Pair (packed : UInt8) : UInt8 × UInt8 := (packed >>> 4, packed &&& 0x0F)

theorem unpackFp4Pair_packFp4Pair {a b : UInt8} (ha : a < 16) (hb : b < 16) :
    unpackFp4Pair (packFp4Pair a b) = (a, b) := by
  have hall : ∀ m n : Fin 16, unpackFp4Pair (packFp4Pair (UInt8.ofNat m) (UInt8.ofNat n)) =
      (UInt8.ofNat m, UInt8.ofNat n) := by decide
  have hpair := hall ⟨a.toNat, ha⟩ ⟨b.toNat, hb⟩
  rwa [UInt8.ofNat_toNat, UInt8.ofNat_toNat] at hpair

theorem fp4Magnitude_nonneg (exp mant : ℕ) : 0 ≤ fp4Magnitude exp mant := by
  unfold fp4Magnitude
  split_ifs <;> positivity

/-- The magnitudes of the FP4 numbers. -/
def fp4Magnitudes : List ℚ := [0, 1 / 2, 1, 3 / 2, 2, 3]

theorem abs_of_fp4Value {sign exp mant : ℕ} (hexp : exp < 4) (hmant : mant < 2) {s : ℚ}
    (h : fp4Value sign exp mant = .finite s) : |s| ∈ fp4Magnitudes := by
  unfold fp4Value at h
  by_cases h3 : exp = 3
  · rw [if_pos h3] at h
    cases h
  · rw [if_neg h3] at h
    have hs : |s| = fp4Magnitude exp mant := by
      rw [← Fp4Value.finite.inj h]
      split_ifs
      · rw [abs_neg, abs_of_nonneg (fp4Magnitude_nonneg exp mant)]
      · exact abs_of_nonneg (fp4Magnitude_nonneg exp mant)
    have hlt : exp < 3 := by omega
    rw [hs]
    unfold fp4Magnitude fp4Magnitudes
    interval_cases exp <;> interval_cases mant <;> norm_num

theorem abs_of_dequantizeFp4E2m1 {q : UInt8} {s : ℚ} (h : dequantizeFp4E2m1 q = .finite s) :
    |s| ∈ fp4Magnitudes := by
  have hexp : ((q >>> 1) &&& 0x3).toNat = q.toNat / 2 % 4 :=
    toNat_byte_field (k := 1) (w := 2) (by decide) (by decide) q
  have hmant : (q &&& 0x1).toNat = q.toNat % 2 := by
    rw [UInt8.toNat_and]
    exact Nat.and_two_pow_sub_one_eq_mod q.toNat 1
  refine abs_of_fp4Value ?_ ?_ h
  · rw [hexp]
    omega
  · rw [hmant]
    omega

/-- The number `r` is the nearest of all FP4 numbers, and of two that are equally near the one further from
zero. -/
structure NearestAway (x r : ℚ) : Prop where
  nearest : ∀ (q : UInt8) (s : ℚ), dequantizeFp4E2m1 q = .finite s → |x - r| ≤ |x - s|
  tie : ∀ (q : UInt8) (s : ℚ), dequantizeFp4E2m1 q = .finite s → |x - r| = |x - s| → |s| ≤ |r|

/-- Between the midpoints to its neighbours a number is the nearest one, of nonnegative numbers. -/
theorem nearest_of_midpoints {below r above y s : ℚ} (hlo : below + r ≤ 2 * y) (hhi : 2 * y < r + above)
    (hs : s ≤ below ∨ s = r ∨ above ≤ s) (hbelow : below ≤ r) (habove : r < above) :
    |y - r| ≤ |y - s| ∧ (|y - r| = |y - s| → s ≤ r) := by
  rcases hs with hs | rfl | hs
  · refine ⟨?_, fun _ => hs.trans hbelow⟩
    rw [abs_le]
    have habs := le_abs_self (y - s)
    constructor <;> linarith
  · exact ⟨le_rfl, fun _ => le_rfl⟩
  · have hlt : |y - r| < |y - s| := by
      rw [abs_lt]
      have habs := neg_le_abs (y - s)
      constructor <;> linarith
    exact ⟨hlt.le, fun heq => absurd heq hlt.ne⟩

/-- Numbers of one sign are as far apart as their magnitudes, and others are further apart. -/
theorem nearestAway_of_magnitude {x r : ℚ} (hsame : |x - r| = |(|x| - |r|)|)
    (h : ∀ (q : UInt8) (s : ℚ), dequantizeFp4E2m1 q = .finite s →
      |(|x| - |r|)| ≤ |(|x| - |s|)| ∧ (|(|x| - |r|)| = |(|x| - |s|)| → |s| ≤ |r|)) : NearestAway x r := by
  constructor
  · intro q s hq
    rw [hsame]
    exact (h q s hq).1.trans (abs_abs_sub_abs_le_abs_sub x s)
  · intro q s hq heq
    rw [hsame] at heq
    apply (h q s hq).2
    exact le_antisymm (h q s hq).1 (heq ▸ abs_abs_sub_abs_le_abs_sub x s)

/-- A number whose magnitude is between the midpoints around `m`, against `m` with the sign of the number. -/
theorem nearestAway_signed {value : UInt32} {below m above : ℚ} (hm : 0 ≤ m)
    (hlo : below + m ≤ 2 * magnitudeToRat (magnitude value))
    (hhi : 2 * magnitudeToRat (magnitude value) < m + above) (hbelow : below ≤ m) (habove : m < above)
    (hlevels : ∀ level ∈ fp4Magnitudes, level ≤ below ∨ level = m ∨ above ≤ level) :
    NearestAway (toRat value) (if sign value = 1 then -m else m) := by
  have habs : |(if sign value = 1 then -m else m)| = m := by
    split_ifs
    · rw [abs_neg, abs_of_nonneg hm]
    · exact abs_of_nonneg hm
  apply nearestAway_of_magnitude
  · rw [habs, abs_toRat, toRat]
    split_ifs
    · rw [neg_sub_neg, abs_sub_comm]
    · rfl
  · intro q s hq
    rw [habs, abs_toRat]
    exact nearest_of_midpoints hlo hhi (hlevels _ (abs_of_dequantizeFp4E2m1 hq)) hbelow habove

theorem packFp4_fields {sign exp mant : UInt8} (hs : sign < 2) (he : exp < 4) (hm : mant < 2) :
    packFp4 sign exp mant < 16 ∧
      dequantizeFp4E2m1 (packFp4 sign exp mant) = fp4Value sign.toNat exp.toNat mant.toNat := by
  have hall : ∀ (s : Fin 2) (e : Fin 4) (m : Fin 2),
      let code := packFp4 (UInt8.ofNat s) (UInt8.ofNat e) (UInt8.ofNat m)
      code < 16 ∧ (code >>> 3) &&& 0x1 = UInt8.ofNat s ∧ (code >>> 1) &&& 0x3 = UInt8.ofNat e ∧
        code &&& 0x1 = UInt8.ofNat m := by decide
  have hcode := hall ⟨sign.toNat, hs⟩ ⟨exp.toNat, he⟩ ⟨mant.toNat, hm⟩
  simp only [UInt8.ofNat_toNat] at hcode
  obtain ⟨hlt, hsign, hexp, hmant⟩ := hcode
  refine ⟨hlt, ?_⟩
  rw [dequantizeFp4E2m1, hsign, hexp, hmant]

/-- What is expected of a number that has been quantised and dequantised: a NaN is positive infinity, and so
is, with its sign, a number from 3½ on. -/
def RoundsTo (value : UInt32) (result : Fp4Value) : Prop :=
  if IsNaN value then result = .infinite false
  else if IsInfinite value ∨ 7 / 2 ≤ |toRat value| then result = .infinite (sign value = 1)
  else ∃ r, result = .finite r ∧ NearestAway (toRat value) r

section Quantize

variable {value : UInt32}

theorem sign_field_lt (value : UInt32) : ((value >>> 31) &&& 0x1).toUInt8 < 2 := by
  rw [UInt8.lt_iff_toNat_lt, toNat_sign_field]
  exact Nat.lt_succ_of_le (sign_le_one value)

theorem sign_or_six (sign : UInt8) : (sign <<< 3) ||| 0x6 = packFp4 sign 3 0 := by
  rw [packFp4, UInt8.or_zero]
  rfl

theorem dequantize_infinity (value : UInt32) :
    dequantizeFp4E2m1 (packFp4 ((value >>> 31) &&& 0x1).toUInt8 3 0) = .infinite (sign value = 1) := by
  rw [(packFp4_fields (sign_field_lt value) (by decide) (by decide)).2, toNat_sign_field]
  rfl

/-- A number between the midpoints around the FP4 number with the fields `exp` and `mant`. -/
theorem roundsTo_of_midpoints (exp mant : ℕ) (he : exp < 3) (hm : mant < 2) (below m above : ℚ)
    (hmagnitude : fp4Magnitude exp mant = m)
    (hlevels : ∀ level ∈ fp4Magnitudes, level ≤ below ∨ level = m ∨ above ≤ level)
    (horder : below ≤ m ∧ m < above ∧ m + above ≤ 7) (hn : ¬ IsNaN value) (hinf : ¬ IsInfinite value)
    (hlo : below + m ≤ 2 * magnitudeToRat (magnitude value))
    (hhi : 2 * magnitudeToRat (magnitude value) < m + above) :
    let code := packFp4 ((value >>> 31) &&& 0x1).toUInt8 (UInt8.ofNat exp) (UInt8.ofNat mant)
    code < 16 ∧ RoundsTo value (dequantizeFp4E2m1 code) := by
  intro code
  have hexp : (UInt8.ofNat exp).toNat = exp := Nat.mod_eq_of_lt (by omega)
  have hmant : (UInt8.ofNat mant).toNat = mant := Nat.mod_eq_of_lt (by omega)
  have he4 : UInt8.ofNat exp < 4 := by
    rw [UInt8.lt_iff_toNat_lt, hexp]
    exact he.trans (by decide)
  have hm2 : UInt8.ofNat mant < 2 := by
    rw [UInt8.lt_iff_toNat_lt, hmant]
    exact hm
  have hsmall : ¬ 7 / 2 ≤ |toRat value| := by
    rw [abs_toRat]
    linarith [horder.2.2]
  obtain ⟨hlt, hvalue⟩ := packFp4_fields (sign_field_lt value) he4 hm2
  refine ⟨hlt, ?_⟩
  rw [RoundsTo, if_neg hn, if_neg (not_or.mpr ⟨hinf, hsmall⟩), hvalue, hexp, hmant, fp4Value, if_neg he.ne,
    hmagnitude, toNat_sign_field]
  have hnonneg : 0 ≤ m := hmagnitude ▸ fp4Magnitude_nonneg exp mant
  exact ⟨_, rfl, nearestAway_signed hnonneg hlo hhi horder.1 horder.2.1 hlevels⟩

theorem roundsTo_infinity (hn : ¬ IsNaN value) (hlarge : IsInfinite value ∨ 7 / 2 ≤ |toRat value|) :
    let code := (((value >>> 31) &&& 0x1).toUInt8 <<< 3) ||| 0x6
    code < 16 ∧ RoundsTo value (dequantizeFp4E2m1 code) := by
  dsimp only
  rw [sign_or_six, RoundsTo, if_neg hn, if_pos hlarge]
  exact ⟨(packFp4_fields (sign_field_lt value) (by decide) (by decide)).1, dequantize_infinity value⟩

theorem roundsTo_zero (hz : IsZero value) : RoundsTo value (dequantizeFp4E2m1 0) := by
  have hmagnitude : magnitudeToRat (magnitude value) = 0 := by
    rw [hz]
    norm_num [magnitudeToRat]
  have hsmall : ¬ 7 / 2 ≤ |toRat value| := by
    rw [abs_toRat, hmagnitude]
    norm_num
  have hn : ¬ IsNaN value := by
    rw [IsNaN, hz]
    decide
  have hinf : ¬ IsInfinite value := by
    rw [IsInfinite, hz]
    decide
  have hlo : -1 + 0 ≤ 2 * magnitudeToRat (magnitude value) := by
    rw [hmagnitude]
    norm_num
  have hhi : 2 * magnitudeToRat (magnitude value) < 0 + 1 / 2 := by
    rw [hmagnitude]
    norm_num
  have hnear := nearestAway_signed le_rfl hlo hhi (by norm_num) (by norm_num) (by norm_num [fp4Magnitudes])
  rw [neg_zero, ite_self] at hnear
  rw [RoundsTo, if_neg hn, if_neg (not_or.mpr ⟨hinf, hsmall⟩)]
  exact ⟨0, by decide +kernel, hnear⟩

theorem roundsTo_quantizeFp4E2m1 (value : UInt32) :
    quantizeFp4E2m1 value < 16 ∧ RoundsTo value (dequantizeFp4E2m1 (quantizeFp4E2m1 value)) := by
  unfold quantizeFp4E2m1
  by_cases hn : IsNaN value
  · rw [if_pos hn, RoundsTo, if_pos hn]
    exact ⟨by decide, rfl⟩
  · rw [if_neg hn]
    by_cases hz : IsZero value
    · rw [if_pos hz]
      exact ⟨by decide, roundsTo_zero hz⟩
    · rw [if_neg hz]
      have hinfinite : IsInfinite (value &&& 0x7FFFFFFF) ↔ IsInfinite value := by
        rw [IsInfinite, IsInfinite, magnitude_and]
      have hnonneg := magnitudeToRat_nonneg (magnitude value)
      simp only [hinfinite, toRat_and]
      split_ifs with hinf h1 h2 h3 h4 h5 h6
      · exact roundsTo_infinity hn (.inl hinf)
      · exact roundsTo_of_midpoints 0 0 (by decide) (by decide) (-1) 0 (1 / 2) (by norm_num [fp4Magnitude])
          (by norm_num [fp4Magnitudes]) (by norm_num) hn hinf (by linarith) (by linarith)
      · exact roundsTo_of_midpoints 0 1 (by decide) (by decide) 0 (1 / 2) 1 (by norm_num [fp4Magnitude])
          (by norm_num [fp4Magnitudes]) (by norm_num) hn hinf (by linarith) (by linarith)
      · exact roundsTo_of_midpoints 1 0 (by decide) (by decide) (1 / 2) 1 (3 / 2) (by norm_num [fp4Magnitude])
          (by norm_num [fp4Magnitudes]) (by norm_num) hn hinf (by linarith) (by linarith)
      · exact roundsTo_of_midpoints 1 1 (by decide) (by decide) 1 (3 / 2) 2 (by norm_num [fp4Magnitude])
          (by norm_num [fp4Magnitudes]) (by norm_num) hn hinf (by linarith) (by linarith)
      · exact roundsTo_of_midpoints 2 0 (by decide) (by decide) (3 / 2) 2 3 (by norm_num [fp4Magnitude])
          (by norm_num [fp4Magnitudes]) (by norm_num) hn hinf (by linarith) (by linarith)
      · exact roundsTo_of_midpoints 2 1 (by decide) (by decide) 2 3 4 (by norm_num [fp4Magnitude])
          (by norm_num [fp4Magnitudes]) (by norm_num) hn hinf (by linarith) (by linarith)
      · refine roundsTo_infinity hn (.inr ?_)
        rw [abs_toRat]
        linarith

end Quantize

/-- Two numbers in one byte come back as the nearest FP4 numbers. -/
theorem fp4_pair_roundTrip (a b : UInt32) :
    RoundsTo a (dequantizeFp4E2m1 (unpackFp4Pair (packFp4Pair (quantizeFp4E2m1 a) (quantizeFp4E2m1 b))).1) ∧
      RoundsTo b (dequantizeFp4E2m1 (unpackFp4Pair (packFp4Pair (quantizeFp4E2m1 a)
        (quantizeFp4E2m1 b))).2) := by
  obtain ⟨ha, hroundA⟩ := roundsTo_quantizeFp4E2m1 a
  obtain ⟨hb, hroundB⟩ := roundsTo_quantizeFp4E2m1 b
  rw [unpackFp4Pair_packFp4Pair ha hb]
  exact ⟨hroundA, hroundB⟩

end Virthub.Store
