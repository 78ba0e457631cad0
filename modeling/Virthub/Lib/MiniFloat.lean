import Virthub.Lib.Binary32

/-! Number formats with few bits, and the code of a binary32 magnitude in one: the mantissa is rounded to
nearest even, and a carry out of it goes into the exponent. -/
namespace Virthub.Lib

/-- `n / 2 ^ k` rounded to the nearest integer, and to the even one of two that are equally near. -/
def roundShift (k n : ℕ) : ℕ :=
  n / 2 ^ k + if 2 ^ k < 2 * (n % 2 ^ k) ∨ (2 * (n % 2 ^ k) = 2 ^ k ∧ n / 2 ^ k % 2 = 1) then 1 else 0

/-- Whether the first bit that is dropped and the bits below it round `n` up, by `k + 1` bits. -/
def RoundsUp (k n : ℕ) : Prop :=
  n / 2 ^ k % 2 = 1 ∧ (n % 2 ^ k ≠ 0 ∨ n / 2 ^ (k + 1) % 2 = 1)

instance (k n : ℕ) : Decidable (RoundsUp k n) := inferInstanceAs (Decidable (_ ∧ _))

theorem roundShift_succ (k n : ℕ) :
    roundShift (k + 1) n = n / 2 ^ (k + 1) + if RoundsUp k n then 1 else 0 := by
  have hpos : 0 < 2 ^ k := Nat.two_pow_pos k
  have hlow : n % 2 ^ k < 2 ^ k := Nat.mod_lt n hpos
  have hmod : n % 2 ^ (k + 1) = n % 2 ^ k + 2 ^ k * (n / 2 ^ k % 2) := Nat.mod_pow_succ
  have hbit : n / 2 ^ k % 2 = 0 ∨ n / 2 ^ k % 2 = 1 := by omega
  unfold roundShift RoundsUp
  congr 1
  apply if_congr _ rfl rfl
  rw [hmod, pow_succ]
  rcases hbit with h | h
  · rw [h, mul_zero]
    omega
  · rw [h, mul_one]
    omega

/-- The bits above a field of `w + k` bits are kept. -/
theorem roundShift_add_mul {k w : ℕ} (hw : 0 < w) (e n : ℕ) :
    roundShift k (e * 2 ^ (w + k) + n) = e * 2 ^ w + roundShift k n := by
  have hsplit : e * 2 ^ (w + k) + n = n + 2 ^ k * (e * 2 ^ w) := by
    rw [pow_add]
    ring
  have heven : e * 2 ^ w % 2 = 0 := by
    obtain ⟨v, rfl⟩ := Nat.exists_eq_succ_of_ne_zero hw.ne'
    rw [pow_succ, ← mul_assoc]
    exact Nat.mul_mod_left _ _
  have hdiv : (e * 2 ^ (w + k) + n) / 2 ^ k = e * 2 ^ w + n / 2 ^ k := by
    rw [hsplit, Nat.add_mul_div_left _ _ (Nat.two_pow_pos k), add_comm]
  have hmod : (e * 2 ^ (w + k) + n) % 2 ^ k = n % 2 ^ k := by
    rw [hsplit, Nat.add_mul_mod_self_left]
  unfold roundShift
  rw [hdiv, hmod, add_assoc]
  congr 2
  apply if_congr _ rfl rfl
  omega

theorem div_le_roundShift (k n : ℕ) : n / 2 ^ k ≤ roundShift k n := Nat.le_add_right _ _

theorem roundShift_mono {k m n : ℕ} (h : m ≤ n) : roundShift k m ≤ roundShift k n := by
  have hm := Nat.div_add_mod m (2 ^ k)
  have hn := Nat.div_add_mod n (2 ^ k)
  have hquot : m / 2 ^ k ≤ n / 2 ^ k := Nat.div_le_div_right h
  unfold roundShift
  rcases hquot.lt_or_eq with hlt | heq
  · split_ifs <;> omega
  · rw [heq] at hm ⊢
    split_ifs <;> omega

theorem div_two_pow_lt {w k n : ℕ} (h : n < 2 ^ (w + k)) : n / 2 ^ k < 2 ^ w := by
  rwa [Nat.div_lt_iff_lt_mul (Nat.two_pow_pos _), ← pow_add]

/-- Rounding to `w` bits below an exponent: all bits set and rounded up give a carry. -/
theorem roundShift_carry {w k n : ℕ} (h : n < 2 ^ (w + (k + 1))) (exp : ℤ) :
    (exp + (roundShift (k + 1) n / 2 ^ w : ℕ), roundShift (k + 1) n % 2 ^ w) =
      if RoundsUp k n then
        if n / 2 ^ (k + 1) + 1 = 2 ^ w then (exp + 1, 0) else (exp, n / 2 ^ (k + 1) + 1)
      else (exp, n / 2 ^ (k + 1)) := by
  have hq := div_two_pow_lt h
  rw [roundShift_succ]
  split_ifs with hup hcarry
  · rw [hcarry, Nat.div_self (Nat.two_pow_pos w), Nat.mod_self, Nat.cast_one]
  · have hlt : n / 2 ^ (k + 1) + 1 < 2 ^ w := by omega
    rw [Nat.div_eq_of_lt hlt, Nat.mod_eq_of_lt hlt, Nat.cast_zero, add_zero]
  · rw [add_zero, Nat.div_eq_of_lt hq, Nat.mod_eq_of_lt hq, Nat.cast_zero, add_zero]

/-! Bit operations on words, in terms of the numbers they hold. -/

theorem toNat_ofNat_of_lt {k : ℕ} (hk : k < 2 ^ 32) : (UInt32.ofNat k).toNat = k :=
  Nat.mod_eq_of_lt hk

theorem toNat_shiftRight {k : ℕ} (hk : k < 32) (a : UInt32) :
    (a >>> UInt32.ofNat k).toNat = a.toNat / 2 ^ k := by
  rw [UInt32.toNat_shiftRight, toNat_ofNat_of_lt (by omega), Nat.mod_eq_of_lt hk,
    Nat.shiftRight_eq_div_pow]

theorem toNat_one_shiftLeft {k : ℕ} (hk : k < 32) : ((1 : UInt32) <<< UInt32.ofNat k).toNat = 2 ^ k := by
  have hlt : 2 ^ k < 2 ^ 32 := Nat.pow_lt_pow_right (by decide) hk
  rw [UInt32.toNat_shiftLeft, toNat_ofNat_of_lt (by omega), Nat.mod_eq_of_lt hk, UInt32.toNat_one,
    Nat.one_shiftLeft, Nat.mod_eq_of_lt hlt]

/-- Masking the low `k` bits. -/
theorem toNat_and_mask {k : ℕ} (hk : k < 32) (a : UInt32) :
    (a &&& (((1 : UInt32) <<< UInt32.ofNat k) - 1)).toNat = a.toNat % 2 ^ k := by
  have hone := toNat_one_shiftLeft hk
  have hpos : 0 < 2 ^ k := Nat.two_pow_pos k
  have hle : (1 : UInt32) ≤ (1 : UInt32) <<< UInt32.ofNat k := by
    rw [UInt32.le_iff_toNat_le, hone, UInt32.toNat_one]
    exact hpos
  rw [UInt32.toNat_and, UInt32.toNat_sub_of_le _ _ hle, hone, UInt32.toNat_one,
    Nat.and_two_pow_sub_one_eq_mod]

theorem toNat_and_one (a : UInt32) : (a &&& 1).toNat = a.toNat % 2 := by
  rw [UInt32.toNat_and, UInt32.toNat_one, Nat.and_one_is_mod]

theorem and_one_eq_one_iff (a : UInt32) : a &&& 1 = 1 ↔ a.toNat % 2 = 1 := by
  rw [← UInt32.toNat_inj, toNat_and_one, UInt32.toNat_one]

theorem and_mask_ne_zero_iff {k : ℕ} (hk : k < 32) (a : UInt32) :
    a &&& (((1 : UInt32) <<< UInt32.ofNat k) - 1) ≠ 0 ↔ a.toNat % 2 ^ k ≠ 0 := by
  rw [Ne, ← UInt32.toNat_inj, toNat_and_mask hk, UInt32.toNat_zero]

/-- The leading bit in front of a mantissa. -/
theorem toNat_one_shiftLeft_or {k : ℕ} (hk : k < 32) {a : UInt32} (ha : a.toNat < 2 ^ k) :
    (((1 : UInt32) <<< UInt32.ofNat k) ||| a).toNat = 2 ^ k + a.toNat := by
  have hor := Nat.two_pow_add_eq_or_of_lt ha 1
  rw [mul_one] at hor
  rw [UInt32.toNat_or, toNat_one_shiftLeft hk, ← hor]

/-- Three fields side by side. -/
theorem shiftLeft_or_or {s e m w b : ℕ} (hm : m < 2 ^ w) (he : e * 2 ^ w + m < 2 ^ b) :
    (s <<< b ||| e <<< w) ||| m = s * 2 ^ b + (e * 2 ^ w + m) := by
  have hlow : e <<< w ||| m = e * 2 ^ w + m := by
    rw [← Nat.shiftLeft_add_eq_or_of_lt hm, Nat.shiftLeft_eq]
  rw [Nat.or_assoc, hlow, ← Nat.shiftLeft_add_eq_or_of_lt he, Nat.shiftLeft_eq]

/-- A format with a sign, an exponent and a mantissa. `expLimit` is the exponent of infinity, and `lowest`
the least exponent of a number that is not flushed to zero. -/
structure MiniFormat where
  signBit : ℕ
  mantBits : ℕ
  bias : ℤ
  expLimit : ℕ
  lowest : ℤ
  infinity : ℕ
  nan : ℕ
  signBit_lt : signBit < 8 := by decide
  mantBits_pos : 0 < mantBits := by decide
  mantBits_le : mantBits ≤ signBit := by decide
  infinity_eq : infinity = expLimit * 2 ^ mantBits := by decide
  infinity_lt : infinity < 2 ^ signBit := by decide
  lowest_gt : -31 < lowest := by decide
  overflow : expLimit ≤ 128 + bias := by decide

namespace MiniFormat

/-- The leading bit of a normal number, as a word. -/
def leadingBit (F : MiniFormat) : UInt32 := 1 <<< UInt32.ofNat F.mantBits

/-- The mantissa of a number below the normal range. -/
theorem toNat_subnormal (F : MiniFormat) {mant : UInt32} (hm : mant.toNat < 2 ^ F.mantBits) {k : ℕ}
    (hpos : 0 < k) (hk : k < 32) :
    (((F.leadingBit ||| mant) >>> UInt32.ofNat k) &&& (F.leadingBit - 1)).toNat =
        (2 ^ F.mantBits + mant.toNat) / 2 ^ k ∧
      (2 ^ F.mantBits + mant.toNat) / 2 ^ k < 2 ^ F.mantBits := by
  have hw : F.mantBits < 32 := F.mantBits_le.trans_lt (F.signBit_lt.trans (by decide))
  have hlt : (2 ^ F.mantBits + mant.toNat) / 2 ^ k < 2 ^ F.mantBits := by
    have htwo : 2 ≤ 2 ^ k := by
      calc
        2 = 2 ^ 1 := rfl
        _ ≤ 2 ^ k := Nat.pow_le_pow_right two_pos hpos
    have hhalf : (2 ^ F.mantBits + mant.toNat) / 2 ^ k ≤ (2 ^ F.mantBits + mant.toNat) / 2 :=
      Nat.div_le_div_left htwo two_pos
    omega
  refine ⟨?_, hlt⟩
  unfold leadingBit
  rw [toNat_and_mask hw, toNat_shiftRight hk, toNat_one_shiftLeft_or hw hm, Nat.mod_eq_of_lt hlt]

/-- The code, without its sign, of a mantissa and an exponent. -/
def encode (F : MiniFormat) (exp : ℤ) (mant : ℕ) : ℕ :=
  if F.expLimit ≤ exp then F.infinity
  else if exp ≤ 0 then
    if exp < F.lowest then 0 else (2 ^ F.mantBits + mant) / 2 ^ (1 - exp).toNat
  else exp.toNat * 2 ^ F.mantBits + mant

/-- A mantissa of 23 bits keeps `F.mantBits` of them and drops at least one. -/
theorem exists_dropped (F : MiniFormat) :
    ∃ k, 23 - F.mantBits = k + 1 ∧ F.mantBits + (k + 1) = 23 ∧ 2 ^ F.mantBits ≤ 2 ^ 7 := by
  have hw : F.mantBits < 8 := F.mantBits_le.trans_lt F.signBit_lt
  exact ⟨22 - F.mantBits, by omega, by omega, Nat.pow_le_pow_right two_pos (by omega)⟩

theorem subnormal_lt {F : MiniFormat} {exp : ℤ} {mant : ℕ} (hexp : exp ≤ 0) (hm : mant < 2 ^ F.mantBits) :
    (2 ^ F.mantBits + mant) / 2 ^ (1 - exp).toNat < 2 ^ F.mantBits := by
  have hshift : 2 ^ 1 ≤ 2 ^ (1 - exp).toNat := Nat.pow_le_pow_right two_pos (by omega)
  have hhalf : (2 ^ F.mantBits + mant) / 2 ^ (1 - exp).toNat ≤ (2 ^ F.mantBits + mant) / 2 ^ 1 :=
    Nat.div_le_div_left hshift two_pos
  omega

theorem encode_lt (F : MiniFormat) {mant : ℕ} (hm : mant < 2 ^ F.mantBits) (exp : ℤ) :
    F.encode exp mant < 2 ^ F.signBit := by
  have hinf := F.infinity_lt
  have hle : 2 ^ F.mantBits ≤ 2 ^ F.signBit := Nat.pow_le_pow_right two_pos F.mantBits_le
  unfold encode
  split_ifs with hlimit hsub hlow
  · exact hinf
  · positivity
  · exact (subnormal_lt hsub hm).trans_le hle
  · -- a normal code is below the code of infinity
    have hexp : exp.toNat + 1 ≤ F.expLimit := by omega
    have hnormal : (exp.toNat + 1) * 2 ^ F.mantBits ≤ F.infinity := by
      rw [F.infinity_eq]
      exact Nat.mul_le_mul_right _ hexp
    rw [add_mul, one_mul] at hnormal
    omega

/-- The code of a binary32 magnitude. -/
def code (F : MiniFormat) (n : ℕ) : ℕ :=
  let r := roundShift (23 - F.mantBits) n
  F.encode ((r / 2 ^ F.mantBits : ℕ) - 127 + F.bias) (r % 2 ^ F.mantBits)

/-- The rounding touches the exponent only by its carry. -/
theorem code_eq (F : MiniFormat) (n : ℕ) :
    F.code n = F.encode ((n / 2 ^ 23 : ℕ) - 127 + F.bias +
        (roundShift (23 - F.mantBits) (n % 2 ^ 23) / 2 ^ F.mantBits : ℕ))
      (roundShift (23 - F.mantBits) (n % 2 ^ 23) % 2 ^ F.mantBits) := by
  have hw : F.mantBits < 8 := F.mantBits_le.trans_lt F.signBit_lt
  have hn : n / 2 ^ 23 * 2 ^ (F.mantBits + (23 - F.mantBits)) + n % 2 ^ 23 = n := by
    rw [Nat.add_sub_cancel' (by omega)]
    exact Nat.div_add_mod' n (2 ^ 23)
  have hround := roundShift_add_mul (k := 23 - F.mantBits) F.mantBits_pos (n / 2 ^ 23) (n % 2 ^ 23)
  rw [hn] at hround
  unfold code
  dsimp only
  rw [hround, add_comm (_ * _), Nat.add_mul_div_right _ _ (Nat.two_pow_pos _),
    Nat.add_mul_mod_self_right]
  congr 1
  push_cast
  ring

/-- Infinity overflows in every format. -/
theorem code_infinity (F : MiniFormat) : F.code Binary32.infinity = F.infinity := by
  rw [code_eq, encode, if_pos]
  calc
    (F.expLimit : ℤ) ≤ 128 + F.bias := F.overflow
    _ = (Binary32.infinity / 2 ^ 23 : ℕ) - 127 + F.bias := by norm_num [Binary32.infinity]
    _ ≤ _ := le_add_of_nonneg_right (Int.natCast_nonneg _)

section Monotone

variable {F : MiniFormat}

/-- A larger number below the normal range has a code that is no smaller. -/
theorem subnormal_mono {exp exp' : ℤ} {mant mant' : ℕ} (hm : mant < 2 ^ F.mantBits) (hexp' : exp' ≤ 0)
    (hexp : exp ≤ exp') (hmant : exp = exp' → mant ≤ mant') :
    (2 ^ F.mantBits + mant) / 2 ^ (1 - exp).toNat ≤ (2 ^ F.mantBits + mant') / 2 ^ (1 - exp').toNat := by
  rcases hexp.lt_or_eq with hlt | rfl
  · -- a smaller exponent costs at least the bit that a larger mantissa can add
    have hshift : 2 ^ ((1 - exp').toNat + 1) ≤ 2 ^ (1 - exp).toNat :=
      Nat.pow_le_pow_right two_pos (by omega)
    calc
      (2 ^ F.mantBits + mant) / 2 ^ (1 - exp).toNat ≤ (2 ^ F.mantBits + mant) / 2 ^ ((1 - exp').toNat + 1) :=
        Nat.div_le_div_left hshift (Nat.two_pow_pos _)
      _ = (2 ^ F.mantBits + mant) / 2 / 2 ^ (1 - exp').toNat := by
        rw [pow_succ', Nat.div_div_eq_div_mul]
      _ ≤ (2 ^ F.mantBits + mant') / 2 ^ (1 - exp').toNat := Nat.div_le_div_right (by omega)
  · exact Nat.div_le_div_right (Nat.add_le_add_left (hmant rfl) _)

theorem encode_le_infinity (hlimit : 1 ≤ F.expLimit) {exp : ℤ} {mant : ℕ} (hm : mant < 2 ^ F.mantBits) :
    F.encode exp mant ≤ F.infinity := by
  have hfirst : 1 * 2 ^ F.mantBits ≤ F.infinity := by
    rw [F.infinity_eq]
    exact Nat.mul_le_mul_right _ hlimit
  unfold encode
  split_ifs with hover hsub hlow
  · exact le_rfl
  · exact Nat.zero_le _
  · have hlt := subnormal_lt hsub hm
    omega
  · have hexp : (exp.toNat + 1) * 2 ^ F.mantBits ≤ F.infinity := by
      rw [F.infinity_eq]
      exact Nat.mul_le_mul_right _ (by omega)
    rw [Nat.succ_mul] at hexp
    omega

theorem encode_mono (hlimit : 1 ≤ F.expLimit) {exp exp' : ℤ} {mant mant' : ℕ} (hm : mant < 2 ^ F.mantBits)
    (hexp : exp ≤ exp') (hmant : exp = exp' → mant ≤ mant') : F.encode exp mant ≤ F.encode exp' mant' := by
  by_cases hover' : F.expLimit ≤ exp'
  · calc
      F.encode exp mant ≤ F.infinity := encode_le_infinity hlimit hm
      _ = F.encode exp' mant' := by rw [encode, if_pos hover']
  · have hover : ¬ F.expLimit ≤ exp := fun h => hover' (h.trans hexp)
    unfold encode
    rw [if_neg hover, if_neg hover']
    by_cases hsub' : exp' ≤ 0
    · rw [if_pos (hexp.trans hsub'), if_pos hsub']
      by_cases hlow : exp < F.lowest
      · rw [if_pos hlow]
        exact Nat.zero_le _
      · rw [if_neg hlow, if_neg fun h => hlow (hexp.trans_lt h)]
        exact subnormal_mono hm hsub' hexp hmant
    · rw [if_neg hsub']
      by_cases hsub : exp ≤ 0
      · have hnormal : 1 * 2 ^ F.mantBits ≤ exp'.toNat * 2 ^ F.mantBits :=
          Nat.mul_le_mul_right _ (by omega)
        rw [if_pos hsub]
        split_ifs
        · exact Nat.zero_le _
        · have hlt := subnormal_lt hsub hm
          omega
      · rw [if_neg hsub]
        rcases hexp.lt_or_eq with hlt | rfl
        · have hnext : (exp.toNat + 1) * 2 ^ F.mantBits ≤ exp'.toNat * 2 ^ F.mantBits :=
            Nat.mul_le_mul_right _ (by omega)
          rw [Nat.succ_mul] at hnext
          omega
        · exact Nat.add_le_add_left (hmant rfl) _

/-- A larger magnitude has a code that is no smaller. -/
theorem code_mono (hlimit : 1 ≤ F.expLimit) : Monotone F.code := by
  intro m n hmn
  have hround := roundShift_mono (k := 23 - F.mantBits) hmn
  have hm := Nat.div_add_mod (roundShift (23 - F.mantBits) m) (2 ^ F.mantBits)
  have hn := Nat.div_add_mod (roundShift (23 - F.mantBits) n) (2 ^ F.mantBits)
  have hexp := Nat.div_le_div_right (c := 2 ^ F.mantBits) hround
  unfold code
  dsimp only
  apply encode_mono hlimit (Nat.mod_lt _ (Nat.two_pow_pos _))
  · omega
  · intro heq
    have hsame : roundShift (23 - F.mantBits) m / 2 ^ F.mantBits =
        roundShift (23 - F.mantBits) n / 2 ^ F.mantBits := by omega
    rw [hsame] at hm
    omega

end Monotone

end MiniFormat

end Virthub.Lib
