import Mathlib.Tactic.IntervalCases
import Virthub.Store.RoundTrip

/-! Order on the way through a quantiser and back. The codes are in the order of the numbers. The decoder
takes the mantissa of a subnormal code for an integer, not for a fraction as it is for a normal one, so that
a subnormal code can stand for more than a normal one above it. Which numbers have such codes is then read
off the bounds between the codes. -/
namespace Virthub.Store
open Virthub.Lib Virthub.Lib.Binary32

/-- The number that a code without its sign is decoded to, as a multiple of the least normal number's last
place. -/
def decoded (F : MiniFormat) (c : ℕ) : ℕ :=
  if c / 2 ^ F.mantBits = 0 then 2 ^ F.mantBits * (c % 2 ^ F.mantBits)
  else (2 ^ F.mantBits + c % 2 ^ F.mantBits) * 2 ^ (c / 2 ^ F.mantBits - 1)

section Decoded

variable {F : MiniFormat} {c d : ℕ}

theorem decoded_of_lt (h : c < 2 ^ F.mantBits) : decoded F c = 2 ^ F.mantBits * c := by
  rw [decoded, if_pos (Nat.div_eq_of_lt h), Nat.mod_eq_of_lt h]

theorem decoded_zero (F : MiniFormat) : decoded F 0 = 0 := by
  rw [decoded_of_lt (Nat.two_pow_pos _), mul_zero]

theorem decoded_of_le (h : 2 ^ F.mantBits ≤ c) :
    decoded F c = (2 ^ F.mantBits + c % 2 ^ F.mantBits) * 2 ^ (c / 2 ^ F.mantBits - 1) := by
  rw [decoded, if_neg (Nat.div_pos h (Nat.two_pow_pos _)).ne']

theorem decoded_mono_of_normal (hc : 2 ^ F.mantBits ≤ c) (hcd : c ≤ d) : decoded F c ≤ decoded F d := by
  have hpos := Nat.div_pos hc (Nat.two_pow_pos F.mantBits)
  have hlt := Nat.mod_lt c (Nat.two_pow_pos F.mantBits)
  have hdiv : c / 2 ^ F.mantBits ≤ d / 2 ^ F.mantBits := Nat.div_le_div_right hcd
  rw [decoded_of_le hc, decoded_of_le (hc.trans hcd)]
  rcases hdiv.lt_or_eq with hexp | hexp
  · calc
      (2 ^ F.mantBits + c % 2 ^ F.mantBits) * 2 ^ (c / 2 ^ F.mantBits - 1)
          ≤ (2 ^ F.mantBits * 2) * 2 ^ (c / 2 ^ F.mantBits - 1) := Nat.mul_le_mul_right _ (by omega)
      _ = 2 ^ F.mantBits * 2 ^ (c / 2 ^ F.mantBits - 1 + 1) := by rw [mul_assoc, pow_succ']
      _ ≤ 2 ^ F.mantBits * 2 ^ (d / 2 ^ F.mantBits - 1) :=
        Nat.mul_le_mul_left _ (Nat.pow_le_pow_right two_pos (by omega))
      _ ≤ (2 ^ F.mantBits + d % 2 ^ F.mantBits) * 2 ^ (d / 2 ^ F.mantBits - 1) :=
        Nat.mul_le_mul_right _ (Nat.le_add_right _ _)
  · have hc' := Nat.div_add_mod c (2 ^ F.mantBits)
    have hd' := Nat.div_add_mod d (2 ^ F.mantBits)
    rw [hexp] at hc' ⊢
    exact Nat.mul_le_mul_right _ (by omega)

def Overtakes (F : MiniFormat) (c d : ℕ) : Prop :=
  c < 2 ^ F.mantBits ∧ 2 ^ F.mantBits ≤ d ∧
    (2 ^ F.mantBits + d % 2 ^ F.mantBits) * 2 ^ (d / 2 ^ F.mantBits - 1) < 2 ^ F.mantBits * c

theorem decoded_le_iff (hcd : c ≤ d) : decoded F c ≤ decoded F d ↔ ¬ Overtakes F c d := by
  unfold Overtakes
  by_cases hc : c < 2 ^ F.mantBits
  · by_cases hd : d < 2 ^ F.mantBits
    · refine iff_of_true ?_ fun h => absurd hd (not_lt.mpr h.2.1)
      rw [decoded_of_lt hc, decoded_of_lt hd]
      exact Nat.mul_le_mul_left _ hcd
    · have hnormal := not_lt.mp hd
      rw [decoded_of_lt hc, decoded_of_le hnormal]
      constructor
      · intro hle hover
        exact absurd hover.2.2 (not_lt.mpr hle)
      · intro hnot
        by_contra hlt
        exact hnot ⟨hc, hnormal, not_le.mp hlt⟩
  · exact iff_of_true (decoded_mono_of_normal (not_lt.mp hc) hcd) fun h => hc h.1

/-- The normal codes that stand for less than a number are those below one code. -/
theorem decoded_lt_iff {D v : ℕ} (hd : 2 ^ F.mantBits ≤ d) (hD : 2 ^ F.mantBits ≤ D)
    (hbelow : decoded F D < v) (hat : v ≤ decoded F (D + 1)) : decoded F d < v ↔ d ≤ D := by
  constructor
  · intro hlt
    by_contra hle
    have hmono : decoded F (D + 1) ≤ decoded F d :=
      decoded_mono_of_normal (hD.trans (Nat.le_succ D)) (not_le.mp hle)
    omega
  · intro hle
    exact (decoded_mono_of_normal hd hle).trans_lt hbelow

theorem value_eq_decoded (F : MiniFormat) (c : ℕ) :
    (if c / 2 ^ F.mantBits = 0 then ((c % 2 ^ F.mantBits : ℕ) : ℚ) * 2 ^ (1 - F.bias)
      else (1 + ((c % 2 ^ F.mantBits : ℕ) : ℚ) / 2 ^ F.mantBits) *
        2 ^ (((c / 2 ^ F.mantBits : ℕ) : ℤ) - F.bias)) =
      decoded F c * 2 ^ (1 - F.bias - F.mantBits) := by
  have hunit : (2 : ℚ) ^ (1 - F.bias) = 2 ^ F.mantBits * 2 ^ (1 - F.bias - F.mantBits) := by
    rw [← zpow_natCast, ← zpow_add₀ two_ne_zero]
    congr 1
    ring
  unfold decoded
  split_ifs with hzero
  · rw [hunit]
    push_cast
    ring
  · obtain ⟨E, hE⟩ := Nat.exists_eq_succ_of_ne_zero hzero
    have hscale : (2 : ℚ) ^ (((E + 1 : ℕ) : ℤ) - F.bias) = 2 ^ E * 2 ^ (1 - F.bias) := by
      rw [← zpow_natCast, ← zpow_add₀ two_ne_zero]
      congr 1
      push_cast
      ring
    have hmant : (1 + ((c % 2 ^ F.mantBits : ℕ) : ℚ) / 2 ^ F.mantBits) * 2 ^ F.mantBits =
        2 ^ F.mantBits + (c % 2 ^ F.mantBits : ℕ) := by
      rw [add_mul, one_mul, div_mul_cancel₀ _ (by positivity)]
    rw [hE, Nat.succ_eq_add_one, hscale, hunit, Nat.add_sub_cancel, Nat.cast_mul, Nat.cast_add,
      Nat.cast_pow, Nat.cast_pow, Nat.cast_ofNat, ← hmant]
    ring

end Decoded

theorem dequantizeFp8_quantizeFp8_eq (F : MiniFormat) (hzero : F.code 0 = 0) {x : UInt32} (hn : ¬ IsNaN x) :
    dequantizeFp8 F (quantizeFp8 F x) =
      if sign x = 1 then -(decoded F (F.code (magnitude x)) * 2 ^ (1 - F.bias - F.mantBits) : ℚ)
      else decoded F (F.code (magnitude x)) * 2 ^ (1 - F.bias - F.mantBits) := by
  by_cases hz : IsZero x
  · have hmag : magnitude x = 0 := hz
    have hcode : quantizeFp8 F x = 0 := by
      rw [quantizeFp8, if_neg hn, if_pos hz]
    rw [hcode, hmag, hzero, decoded_zero, dequantizeFp8_eq]
    simp
  · have hlt : F.code (magnitude x) < 2 ^ F.signBit := F.encode_lt (Nat.mod_lt _ (Nat.two_pow_pos _)) _
    have hmant := Nat.mod_lt (F.code (magnitude x)) (Nat.two_pow_pos F.mantBits)
    have hsplit := Nat.div_add_mod' (F.code (magnitude x)) (2 ^ F.mantBits)
    have hfields := toNat_quantizeFp8 F hn hz
    have hm := mod_of_fields F (sign x) (F.code (magnitude x) / 2 ^ F.mantBits) hmant
    have hE := exponent_of_fields (sign x) hmant (hsplit.symm ▸ hlt)
    rw [hsplit] at hm hE
    rw [dequantizeFp8_eq]
    dsimp only
    rw [hfields, hm, hE, sign_of_fields (sign_le_one x) hlt, value_eq_decoded]

theorem magnitude_eq_zero_of_nonpos {n : ℕ} (h : magnitudeToRat n ≤ 0) : n = 0 := by
  have hzero : magnitudeToRat 0 = 0 := by norm_num [magnitudeToRat]
  rw [← hzero, magnitudeToRat_strictMono.le_iff_le] at h
  exact Nat.le_zero.mp h

/-- Two numbers of one sign come back in the wrong order: the smaller one in magnitude gets a subnormal code
that overtakes the code of the larger one. -/
def Reversed (F : MiniFormat) (x y : UInt32) : Prop :=
  sign x = sign y ∧
    Overtakes F (F.code (min (magnitude x) (magnitude y))) (F.code (max (magnitude x) (magnitude y)))

theorem dequantizeFp8_le_iff (F : MiniFormat) (hzero : F.code 0 = 0) (hlimit : 1 ≤ F.expLimit) {x y : UInt32}
    (hx : ¬ IsNaN x) (hy : ¬ IsNaN y) (hxy : toRat x ≤ toRat y) :
    dequantizeFp8 F (quantizeFp8 F x) ≤ dequantizeFp8 F (quantizeFp8 F y) ↔ ¬ Reversed F x y := by
  have hunit : (0 : ℚ) < 2 ^ (1 - F.bias - F.mantBits) := by positivity
  have hvalue : ∀ c d, (decoded F c * 2 ^ (1 - F.bias - F.mantBits) : ℚ) ≤
      decoded F d * 2 ^ (1 - F.bias - F.mantBits) ↔ decoded F c ≤ decoded F d := by
    intro c d
    rw [mul_le_mul_iff_left₀ hunit, Nat.cast_le]
  have hnonneg : ∀ c, (0 : ℚ) ≤ decoded F c * 2 ^ (1 - F.bias - F.mantBits) := by
    intro c
    positivity
  rw [dequantizeFp8_quantizeFp8_eq F hzero hx, dequantizeFp8_quantizeFp8_eq F hzero hy]
  unfold Reversed
  unfold toRat at hxy
  have hsx := sign_le_one x
  have hsy := sign_le_one y
  by_cases hnegx : sign x = 1
  · by_cases hnegy : sign y = 1
    · -- below zero the larger number has the smaller magnitude
      rw [if_pos hnegx, if_pos hnegy, neg_le_neg_iff, magnitudeToRat_strictMono.le_iff_le] at hxy
      rw [if_pos hnegx, if_pos hnegy, neg_le_neg_iff, hvalue, decoded_le_iff (F.code_mono hlimit hxy),
        min_eq_right hxy, max_eq_left hxy, hnegx, hnegy]
      simp
    · rw [if_pos hnegx, if_neg hnegy]
      refine iff_of_true ((neg_nonpos.mpr (hnonneg _)).trans (hnonneg _)) fun h => ?_
      exact hnegy (h.1.symm.trans hnegx)
  · by_cases hnegy : sign y = 1
    · -- only the two zeros are in this order
      rw [if_neg hnegx, if_pos hnegy] at hxy
      have hmagx := magnitudeToRat_nonneg (magnitude x)
      have hmagy := magnitudeToRat_nonneg (magnitude y)
      have hx0 := magnitude_eq_zero_of_nonpos (n := magnitude x) (by linarith)
      have hy0 := magnitude_eq_zero_of_nonpos (n := magnitude y) (by linarith)
      rw [if_neg hnegx, if_pos hnegy, hx0, hy0, hzero, decoded_zero]
      refine iff_of_true (by simp) fun h => ?_
      exact hnegx (h.1.trans hnegy)
    · rw [if_neg hnegx, if_neg hnegy, magnitudeToRat_strictMono.le_iff_le] at hxy
      have hsign : sign x = sign y := by omega
      rw [if_neg hnegx, if_neg hnegy, hvalue, decoded_le_iff (F.code_mono hlimit hxy),
        min_eq_left hxy, max_eq_right hxy]
      simp [hsign]

/-- The codes from `k` on are those of the numbers from a bound on. -/
theorem le_code_iff (F : MiniFormat) (hlimit : 1 ≤ F.expLimit) (N : ℕ) {k : ℕ} {bound : ℚ}
    (hbound : magnitudeToRat (N + 1) = bound) (hstep : F.code N < k ∧ k ≤ F.code (N + 1)) (n : ℕ) :
    k ≤ F.code n ↔ bound ≤ magnitudeToRat n := by
  rw [← hbound, magnitudeToRat_strictMono.le_iff_le]
  constructor
  · intro hk
    by_contra hlt
    have hmono := F.code_mono hlimit (Nat.le_of_lt_succ (not_le.mp hlt))
    omega
  · intro hle
    exact hstep.2.trans (F.code_mono hlimit hle)

/-- Two magnitudes of which the smaller one comes back as more than the larger one. From `normal` on,
magnitudes have normal codes. Each of the `bounds` is the least magnitude of a subnormal code, and what
comes back for it is `factor` times too much. -/
def ComeBackReversed (factor normal : ℚ) (bounds : List ℚ) (a b : ℚ) : Prop :=
  a < normal ∧ normal ≤ b ∧ ∃ t ∈ bounds, t ≤ a ∧ b < factor * t

/-- Two numbers of one sign that E4M3 reverses. The least subnormal number is `2 ^ -9 = 1 / 512`. -/
def E4m3Reverses (x y : ℚ) : Prop :=
  0 < x * y ∧ ComeBackReversed 8 (31 / 2048)
    [31 / 8192, 23 / 4096, 31 / 4096, 19 / 2048, 23 / 2048, 27 / 2048] (min |x| |y|) (max |x| |y|)

/-- Two numbers of one sign that E5M2 reverses. The least subnormal number is `2 ^ -16 = 1 / 65536`. -/
def E5m2Reverses (x y : ℚ) : Prop :=
  0 < x * y ∧ ComeBackReversed 4 (15 / 262144) [15 / 524288, 11 / 262144] (min |x| |y|) (max |x| |y|)

theorem overtakes_e4m3_iff (c d : ℕ) :
    Overtakes e4m3 c d ↔ ¬ 8 ≤ c ∧ 8 ≤ d ∧ (2 ≤ c ∧ ¬ 16 ≤ d ∨ 3 ≤ c ∧ ¬ 20 ≤ d ∨ 4 ≤ c ∧ ¬ 24 ≤ d ∨
      5 ≤ c ∧ ¬ 26 ≤ d ∨ 6 ≤ c ∧ ¬ 28 ≤ d ∨ 7 ≤ c ∧ ¬ 30 ≤ d) := by
  by_cases hc : c < 8
  · by_cases hd : 8 ≤ d
    · have hdecoded : Overtakes e4m3 c d ↔ decoded e4m3 d < 8 * c := by
        rw [decoded_of_le (F := e4m3) hd]
        exact ⟨fun h => h.2.2, fun h => ⟨hc, hd, h⟩⟩
      have hlow : 8 ≤ decoded e4m3 d := decoded_mono_of_normal (F := e4m3) (le_refl 8) hd
      have h2 := decoded_lt_iff (F := e4m3) (D := 15) (v := 16) hd (by decide) (by decide) (by decide)
      have h3 := decoded_lt_iff (F := e4m3) (D := 19) (v := 24) hd (by decide) (by decide) (by decide)
      have h4 := decoded_lt_iff (F := e4m3) (D := 23) (v := 32) hd (by decide) (by decide) (by decide)
      have h5 := decoded_lt_iff (F := e4m3) (D := 25) (v := 40) hd (by decide) (by decide) (by decide)
      have h6 := decoded_lt_iff (F := e4m3) (D := 27) (v := 48) hd (by decide) (by decide) (by decide)
      have h7 := decoded_lt_iff (F := e4m3) (D := 29) (v := 56) hd (by decide) (by decide) (by decide)
      rw [hdecoded]
      interval_cases c <;> omega
    · exact iff_of_false (fun h => hd h.2.1) fun h => hd h.2.1
  · exact iff_of_false (fun h => hc h.1) fun h => h.1 (not_lt.mp hc)

theorem overtakes_e5m2_iff (c d : ℕ) :
    Overtakes e5m2 c d ↔ ¬ 4 ≤ c ∧ 4 ≤ d ∧ (2 ≤ c ∧ ¬ 8 ≤ d ∨ 3 ≤ c ∧ ¬ 10 ≤ d) := by
  by_cases hc : c < 4
  · by_cases hd : 4 ≤ d
    · have hdecoded : Overtakes e5m2 c d ↔ decoded e5m2 d < 4 * c := by
        rw [decoded_of_le (F := e5m2) hd]
        exact ⟨fun h => h.2.2, fun h => ⟨hc, hd, h⟩⟩
      have hlow : 4 ≤ decoded e5m2 d := decoded_mono_of_normal (F := e5m2) (le_refl 4) hd
      have h2 := decoded_lt_iff (F := e5m2) (D := 7) (v := 8) hd (by decide) (by decide) (by decide)
      have h3 := decoded_lt_iff (F := e5m2) (D := 9) (v := 12) hd (by decide) (by decide) (by decide)
      rw [hdecoded]
      interval_cases c <;> omega
    · exact iff_of_false (fun h => hd h.2.1) fun h => hd h.2.1
  · exact iff_of_false (fun h => hc h.1) fun h => h.1 (not_lt.mp hc)

theorem overtakes_code_e4m3_iff (n m : ℕ) :
    Overtakes e4m3 (e4m3.code n) (e4m3.code m) ↔ ComeBackReversed 8 (31 / 2048)
      [31 / 8192, 23 / 4096, 31 / 4096, 19 / 2048, 23 / 2048, 27 / 2048]
      (magnitudeToRat n) (magnitudeToRat m) := by
  have h2 : ∀ i, 2 ≤ e4m3.code i ↔ 31 / 8192 ≤ magnitudeToRat i :=
    le_code_iff e4m3 (by decide) 0x3B77FFFF (by norm_num [magnitudeToRat]) (by decide +kernel)
  have h3 : ∀ i, 3 ≤ e4m3.code i ↔ 23 / 4096 ≤ magnitudeToRat i :=
    le_code_iff e4m3 (by decide) 0x3BB7FFFF (by norm_num [magnitudeToRat]) (by decide +kernel)
  have h4 : ∀ i, 4 ≤ e4m3.code i ↔ 31 / 4096 ≤ magnitudeToRat i :=
    le_code_iff e4m3 (by decide) 0x3BF7FFFF (by norm_num [magnitudeToRat]) (by decide +kernel)
  have h5 : ∀ i, 5 ≤ e4m3.code i ↔ 19 / 2048 ≤ magnitudeToRat i :=
    le_code_iff e4m3 (by decide) 0x3C17FFFF (by norm_num [magnitudeToRat]) (by decide +kernel)
  have h6 : ∀ i, 6 ≤ e4m3.code i ↔ 23 / 2048 ≤ magnitudeToRat i :=
    le_code_iff e4m3 (by decide) 0x3C37FFFF (by norm_num [magnitudeToRat]) (by decide +kernel)
  have h7 : ∀ i, 7 ≤ e4m3.code i ↔ 27 / 2048 ≤ magnitudeToRat i :=
    le_code_iff e4m3 (by decide) 0x3C57FFFF (by norm_num [magnitudeToRat]) (by decide +kernel)
  have h8 : ∀ i, 8 ≤ e4m3.code i ↔ 31 / 2048 ≤ magnitudeToRat i :=
    le_code_iff e4m3 (by decide) 0x3C77FFFF (by norm_num [magnitudeToRat]) (by decide +kernel)
  have h16 : ∀ i, 16 ≤ e4m3.code i ↔ 31 / 1024 ≤ magnitudeToRat i :=
    le_code_iff e4m3 (by decide) 0x3CF7FFFF (by norm_num [magnitudeToRat]) (by decide +kernel)
  have h20 : ∀ i, 20 ≤ e4m3.code i ↔ 23 / 512 ≤ magnitudeToRat i :=
    le_code_iff e4m3 (by decide) 0x3D37FFFF (by norm_num [magnitudeToRat]) (by decide +kernel)
  have h24 : ∀ i, 24 ≤ e4m3.code i ↔ 31 / 512 ≤ magnitudeToRat i :=
    le_code_iff e4m3 (by decide) 0x3D77FFFF (by norm_num [magnitudeToRat]) (by decide +kernel)
  have h26 : ∀ i, 26 ≤ e4m3.code i ↔ 19 / 256 ≤ magnitudeToRat i :=
    le_code_iff e4m3 (by decide) 0x3D97FFFF (by norm_num [magnitudeToRat]) (by decide +kernel)
  have h28 : ∀ i, 28 ≤ e4m3.code i ↔ 23 / 256 ≤ magnitudeToRat i :=
    le_code_iff e4m3 (by decide) 0x3DB7FFFF (by norm_num [magnitudeToRat]) (by decide +kernel)
  have h30 : ∀ i, 30 ≤ e4m3.code i ↔ 27 / 256 ≤ magnitudeToRat i :=
    le_code_iff e4m3 (by decide) 0x3DD7FFFF (by norm_num [magnitudeToRat]) (by decide +kernel)
  rw [overtakes_e4m3_iff, ComeBackReversed]
  simp only [h2, h3, h4, h5, h6, h7, h8, h16, h20, h24, h26, h28, h30, not_le, List.mem_cons,
    List.not_mem_nil, or_false, exists_eq_or_imp, exists_eq_left]
  norm_num

theorem overtakes_code_e5m2_iff (n m : ℕ) :
    Overtakes e5m2 (e5m2.code n) (e5m2.code m) ↔ ComeBackReversed 4 (15 / 262144)
      [15 / 524288, 11 / 262144] (magnitudeToRat n) (magnitudeToRat m) := by
  have h2 : ∀ i, 2 ≤ e5m2.code i ↔ 15 / 524288 ≤ magnitudeToRat i :=
    le_code_iff e5m2 (by decide) 0x37EFFFFF (by norm_num [magnitudeToRat]) (by decide +kernel)
  have h3 : ∀ i, 3 ≤ e5m2.code i ↔ 11 / 262144 ≤ magnitudeToRat i :=
    le_code_iff e5m2 (by decide) 0x382FFFFF (by norm_num [magnitudeToRat]) (by decide +kernel)
  have h4 : ∀ i, 4 ≤ e5m2.code i ↔ 15 / 262144 ≤ magnitudeToRat i :=
    le_code_iff e5m2 (by decide) 0x386FFFFF (by norm_num [magnitudeToRat]) (by decide +kernel)
  have h8 : ∀ i, 8 ≤ e5m2.code i ↔ 15 / 131072 ≤ magnitudeToRat i :=
    le_code_iff e5m2 (by decide) 0x38EFFFFF (by norm_num [magnitudeToRat]) (by decide +kernel)
  have h10 : ∀ i, 10 ≤ e5m2.code i ↔ 11 / 65536 ≤ magnitudeToRat i :=
    le_code_iff e5m2 (by decide) 0x392FFFFF (by norm_num [magnitudeToRat]) (by decide +kernel)
  rw [overtakes_e5m2_iff, ComeBackReversed]
  simp only [h2, h3, h4, h8, h10, not_le, List.mem_cons, List.not_mem_nil, or_false, exists_eq_or_imp,
    exists_eq_left]
  norm_num

theorem mul_pos_iff_sign_eq {x y : UInt32} (hx : 0 < |toRat x|) (hy : 0 < |toRat y|) :
    0 < toRat x * toRat y ↔ sign x = sign y := by
  have hsx := sign_le_one x
  have hsy := sign_le_one y
  rw [abs_toRat] at hx hy
  unfold toRat
  by_cases hnegx : sign x = 1
  · by_cases hnegy : sign y = 1
    · rw [if_pos hnegx, if_pos hnegy, neg_mul_neg]
      exact iff_of_true (mul_pos hx hy) (hnegx.trans hnegy.symm)
    · rw [if_pos hnegx, if_neg hnegy, neg_mul]
      refine iff_of_false (not_lt.mpr (neg_nonpos.mpr (mul_pos hx hy).le)) fun h => ?_
      exact hnegy (h.symm.trans hnegx)
  · by_cases hnegy : sign y = 1
    · rw [if_neg hnegx, if_pos hnegy, mul_neg]
      refine iff_of_false (not_lt.mpr (neg_nonpos.mpr (mul_pos hx hy).le)) fun h => ?_
      exact hnegx (h.trans hnegy)
    · rw [if_neg hnegx, if_neg hnegy]
      exact iff_of_true (mul_pos hx hy) (by omega)

theorem reversed_iff {F : MiniFormat} {factor normal : ℚ} {bounds : List ℚ} (hpos : ∀ t ∈ bounds, 0 < t)
    (hcode : ∀ n m, Overtakes F (F.code n) (F.code m) ↔
      ComeBackReversed factor normal bounds (magnitudeToRat n) (magnitudeToRat m)) (x y : UInt32) :
    Reversed F x y ↔ 0 < toRat x * toRat y ∧
      ComeBackReversed factor normal bounds (min |toRat x| |toRat y|) (max |toRat x| |toRat y|) := by
  have hmono := magnitudeToRat_strictMono.monotone
  rw [Reversed, hcode, hmono.map_min, hmono.map_max, ← abs_toRat, ← abs_toRat]
  apply and_congr_left
  rintro ⟨-, -, t, ht, hle, -⟩
  have hmin := (hpos t ht).trans_le hle
  exact (mul_pos_iff_sign_eq (lt_min_iff.mp hmin).1 (lt_min_iff.mp hmin).2).symm

/-- Finite numbers in order come back from both formats in order exactly if neither format reverses them. -/
theorem fp8_monotone_iff (x y : UInt32) (hx : magnitude x < infinity) (hy : magnitude y < infinity)
    (hxy : toRat x ≤ toRat y) :
    (dequantizeFp8E4m3 (quantizeFp8E4m3 x) ≤ dequantizeFp8E4m3 (quantizeFp8E4m3 y) ∧
      dequantizeFp8E5m2 (quantizeFp8E5m2 x) ≤ dequantizeFp8E5m2 (quantizeFp8E5m2 y)) ↔
      ¬ E4m3Reverses (toRat x) (toRat y) ∧ ¬ E5m2Reverses (toRat x) (toRat y) := by
  have hnx : ¬ IsNaN x := not_lt.mpr hx.le
  have hny : ¬ IsNaN y := not_lt.mpr hy.le
  have h4 : Reversed e4m3 x y ↔ E4m3Reverses (toRat x) (toRat y) :=
    reversed_iff (by norm_num) overtakes_code_e4m3_iff x y
  have h5 : Reversed e5m2 x y ↔ E5m2Reverses (toRat x) (toRat y) :=
    reversed_iff (by norm_num) overtakes_code_e5m2_iff x y
  rw [← h4, ← h5]
  exact and_congr (dequantizeFp8_le_iff e4m3 (by decide) (by decide) hnx hny hxy)
    (dequantizeFp8_le_iff e5m2 (by decide) (by decide) hnx hny hxy)

/-- The largest number with the subnormal code 2 of E4M3 and the least one that is read as no less. -/
theorem fp8_monotone_at_bound :
    (magnitude 0x3BB7FFFF < infinity ∧ magnitude 0x3CF80000 < infinity ∧
      toRat 0x3BB7FFFF ≤ toRat 0x3CF80000) ∧
      dequantizeFp8E4m3 (quantizeFp8E4m3 0x3BB7FFFF) ≤ dequantizeFp8E4m3 (quantizeFp8E4m3 0x3CF80000) ∧
      dequantizeFp8E5m2 (quantizeFp8E5m2 0x3BB7FFFF) ≤ dequantizeFp8E5m2 (quantizeFp8E5m2 0x3CF80000) := by
  have hx : magnitude 0x3BB7FFFF < infinity := by decide
  have hy : magnitude 0x3CF80000 < infinity := by decide
  have hxy : toRat 0x3BB7FFFF ≤ toRat 0x3CF80000 := by decide +kernel
  refine ⟨⟨hx, hy, hxy⟩, (fp8_monotone_iff _ _ hx hy hxy).mpr ⟨?_, ?_⟩⟩
  · rintro ⟨-, -, -, t, ht, hle, hlt⟩
    have hsmall : min |toRat 0x3BB7FFFF| |toRat 0x3CF80000| < 23 / 4096 := by decide +kernel
    have hlarge : max |toRat 0x3BB7FFFF| |toRat 0x3CF80000| = 31 / 1024 := by decide +kernel
    rw [hlarge] at hlt
    simp only [List.mem_cons, List.not_mem_nil, or_false] at ht
    rcases ht with rfl | rfl | rfl | rfl | rfl | rfl
    all_goals
      linarith
  · rintro ⟨-, hsub, -⟩
    exact absurd hsub (by decide +kernel)

/-- `2 ^ -7` comes back as `2 ^ -4`, and `2 ^ -6` as itself. -/
theorem fp8_monotone_fails_below_normal_range :
    ¬ ∀ x y : UInt32, magnitude x < infinity → magnitude y < infinity → toRat x ≤ toRat y →
      dequantizeFp8E4m3 (quantizeFp8E4m3 x) ≤ dequantizeFp8E4m3 (quantizeFp8E4m3 y) ∧
        dequantizeFp8E5m2 (quantizeFp8E5m2 x) ≤ dequantizeFp8E5m2 (quantizeFp8E5m2 y) := by
  intro h
  have hle := (h 0x3C000000 0x3C800000 (by decide) (by decide) (by decide +kernel)).1
  exact absurd hle (by decide +kernel)

end Virthub.Store
