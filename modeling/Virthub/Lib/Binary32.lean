import Mathlib.Algebra.Order.Ring.Rat
import Mathlib.Algebra.Order.Field.Power
import Mathlib.Data.Nat.Bitwise
import Mathlib.Order.Monotone.Basic
import Mathlib.Tactic.Linarith
import Mathlib.Tactic.NormNum
import Mathlib.Tactic.Positivity
import Mathlib.Tactic.Ring

/-! Binary32 numbers as bit patterns: the sign, and below it the magnitude, whose eight high bits are the
exponent. Magnitudes are ordered like the numbers they stand for. -/
namespace Virthub.Lib.Binary32

def sign (bits : UInt32) : ℕ := bits.toNat / 2 ^ 31

/-- The pattern without its sign. -/
def magnitude (bits : UInt32) : ℕ := bits.toNat % 2 ^ 31

/-- The magnitude of infinity. -/
def infinity : ℕ := 0x7F800000

def IsNaN (bits : UInt32) : Prop := infinity < magnitude bits
def IsInfinite (bits : UInt32) : Prop := magnitude bits = infinity
def IsZero (bits : UInt32) : Prop := magnitude bits = 0

instance (bits : UInt32) : Decidable (IsNaN bits) := inferInstanceAs (Decidable (_ < _))
instance (bits : UInt32) : Decidable (IsInfinite bits) := inferInstanceAs (Decidable (_ = _))
instance (bits : UInt32) : Decidable (IsZero bits) := inferInstanceAs (Decidable (_ = _))

/-- The number that a finite magnitude stands for. -/
def magnitudeToRat (n : ℕ) : ℚ :=
  if n / 2 ^ 23 = 0 then n * 2 ^ (-149 : ℤ)
  else (2 ^ 23 + n % 2 ^ 23 : ℕ) * 2 ^ ((n / 2 ^ 23 : ℕ) - 150 : ℤ)

/-- The number that a finite pattern stands for. -/
def toRat (bits : UInt32) : ℚ :=
  if sign bits = 1 then -magnitudeToRat (magnitude bits) else magnitudeToRat (magnitude bits)

theorem magnitudeToRat_nonneg (n : ℕ) : 0 ≤ magnitudeToRat n := by
  unfold magnitudeToRat
  split_ifs <;> positivity

theorem abs_toRat (bits : UInt32) : |toRat bits| = magnitudeToRat (magnitude bits) := by
  have hn := magnitudeToRat_nonneg (magnitude bits)
  unfold toRat
  split_ifs
  · rw [abs_neg, abs_of_nonneg hn]
  · exact abs_of_nonneg hn

/-- One formula for both cases: a subnormal number has the scale of the least normal ones. -/
theorem magnitudeToRat_eq (n : ℕ) :
    magnitudeToRat n = ((if n / 2 ^ 23 = 0 then 0 else 2 ^ 23) + n % 2 ^ 23 : ℕ) *
      2 ^ ((max (n / 2 ^ 23) 1 : ℕ) - 150 : ℤ) := by
  unfold magnitudeToRat
  split_ifs with h
  · have hmod : n % 2 ^ 23 = n := by omega
    rw [h, hmod, zero_add]
    norm_num
  · rw [max_eq_left (by omega)]

/-- Weight of the last place of a magnitude. -/
def scale (n : ℕ) : ℚ := 2 ^ ((max (n / 2 ^ 23) 1 : ℕ) - 150 : ℤ)

theorem scale_pos (n : ℕ) : 0 < scale n := by
  unfold scale
  positivity

/-- Up to the next power of two the numbers are equally spaced. -/
theorem magnitudeToRat_add {n t : ℕ} (h : n % 2 ^ 23 + t ≤ 2 ^ 23) :
    magnitudeToRat (n + t) = magnitudeToRat n + t * scale n := by
  rw [magnitudeToRat_eq, magnitudeToRat_eq, scale]
  by_cases hcarry : n % 2 ^ 23 + t = 2 ^ 23
  · have hdiv : (n + t) / 2 ^ 23 = n / 2 ^ 23 + 1 := by omega
    have hmod : (n + t) % 2 ^ 23 = 0 := by omega
    have hsum : ((n % 2 ^ 23 : ℕ) : ℚ) + t = 2 ^ 23 := by exact_mod_cast hcarry
    rw [hdiv, hmod, if_neg (Nat.succ_ne_zero _), max_eq_left (by omega), ← add_mul]
    by_cases hzero : n / 2 ^ 23 = 0
    · -- the subnormal numbers and the least normal ones have the same scale
      rw [hzero]
      push_cast at hsum ⊢
      norm_num at hsum ⊢
      linarith
    · have hscale : (2 : ℚ) ^ ((n / 2 ^ 23 + 1 : ℕ) - 150 : ℤ) =
          2 * 2 ^ ((n / 2 ^ 23 : ℕ) - 150 : ℤ) := by
        rw [← zpow_one_add₀ two_ne_zero]
        congr 1
        push_cast
        ring
      rw [if_neg hzero, max_eq_left (by omega), hscale]
      push_cast at hsum ⊢
      rw [add_assoc, hsum]
      ring
  · have hdiv : (n + t) / 2 ^ 23 = n / 2 ^ 23 := by omega
    have hmod : (n + t) % 2 ^ 23 = n % 2 ^ 23 + t := by omega
    rw [hdiv, hmod]
    push_cast
    ring

theorem magnitudeToRat_lt_succ (n : ℕ) : magnitudeToRat n < magnitudeToRat (n + 1) := by
  have hlow : n % 2 ^ 23 + 1 ≤ 2 ^ 23 := Nat.mod_lt _ (by decide)
  rw [magnitudeToRat_add hlow, Nat.cast_one, one_mul]
  exact lt_add_of_pos_right _ (scale_pos n)

theorem magnitudeToRat_strictMono : StrictMono magnitudeToRat :=
  strictMono_nat_of_lt_succ magnitudeToRat_lt_succ

/-! The fields of a pattern, as a program takes them out of it. -/

theorem toNat_and_two_pow_sub_one (bits : UInt32) {w : ℕ} (hw : w < 32) :
    (bits &&& UInt32.ofNat (2 ^ w - 1)).toNat = bits.toNat % 2 ^ w := by
  have hpow : 2 ^ w ≤ 2 ^ 31 := Nat.pow_le_pow_right two_pos (by omega)
  have hmask : (UInt32.ofNat (2 ^ w - 1)).toNat = 2 ^ w - 1 := Nat.mod_eq_of_lt (by omega)
  rw [UInt32.toNat_and, hmask, Nat.and_two_pow_sub_one_eq_mod]

theorem toNat_sign_field (bits : UInt32) : ((bits >>> 31) &&& 0x1).toUInt8.toNat = sign bits := by
  have hfield : ((bits >>> 31) &&& 0x1).toNat = bits.toNat / 2 ^ 31 % 2 :=
    (toNat_and_two_pow_sub_one (bits >>> 31) (w := 1) (by decide)).trans (by
      rw [UInt32.toNat_shiftRight, Nat.shiftRight_eq_div_pow]
      rfl)
  have hlt := bits.toNat_lt
  rw [UInt32.toNat_toUInt8, hfield, sign]
  omega

theorem toNat_exponent_field (bits : UInt32) :
    ((bits >>> 23) &&& 0xFF).toNat = magnitude bits / 2 ^ 23 := by
  have hfield : ((bits >>> 23) &&& 0xFF).toNat = bits.toNat / 2 ^ 23 % 2 ^ 8 :=
    (toNat_and_two_pow_sub_one (bits >>> 23) (w := 8) (by decide)).trans (by
      rw [UInt32.toNat_shiftRight, Nat.shiftRight_eq_div_pow]
      rfl)
  rw [hfield, magnitude]
  omega

theorem toNat_mantissa_field (bits : UInt32) :
    (bits &&& 0x7FFFFF).toNat = magnitude bits % 2 ^ 23 := by
  have hfield : (bits &&& 0x7FFFFF).toNat = bits.toNat % 2 ^ 23 :=
    toNat_and_two_pow_sub_one bits (w := 23) (by decide)
  rw [hfield, magnitude]
  omega

/-- Clearing the sign bit leaves the magnitude. -/
theorem toNat_magnitude_field (bits : UInt32) : (bits &&& 0x7FFFFFFF).toNat = magnitude bits :=
  toNat_and_two_pow_sub_one bits (w := 31) (by decide)

theorem magnitude_and (bits : UInt32) : magnitude (bits &&& 0x7FFFFFFF) = magnitude bits := by
  have hlt : magnitude bits < 2 ^ 31 := Nat.mod_lt _ (by decide)
  rw [magnitude, toNat_magnitude_field, Nat.mod_eq_of_lt hlt]

theorem toRat_and (bits : UInt32) :
    toRat (bits &&& 0x7FFFFFFF) = magnitudeToRat (magnitude bits) := by
  have hlt : magnitude bits < 2 ^ 31 := Nat.mod_lt _ (by decide)
  have hsign : sign (bits &&& 0x7FFFFFFF) = 0 := by
    rw [sign, toNat_magnitude_field]
    omega
  rw [toRat, hsign, if_neg (by decide), magnitude_and]

theorem sign_le_one (bits : UInt32) : sign bits ≤ 1 := by
  have hlt := bits.toNat_lt
  unfold sign
  omega

end Virthub.Lib.Binary32
