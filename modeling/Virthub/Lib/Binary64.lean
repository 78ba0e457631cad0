import Mathlib.Data.Int.Log
import Mathlib.Data.Rat.Floor
import Mathlib.Tactic.Linarith
import Mathlib.Tactic.Positivity

/-! Rounding to binary64: the nearest multiple of the last place, ties to the even significand. -/
namespace Virthub.Lib

/-- The value of a natural number converted to binary64. -/
def natToF64 (n : ℕ) : ℕ :=
  let ulp := 2 ^ (Nat.log2 n - 52)
  let q := n / ulp
  let r := n % ulp
  if 2 * r < ulp ∨ (2 * r = ulp ∧ q % 2 = 0) then q * ulp else (q + 1) * ulp

theorem natToF64_of_lt {n : ℕ} (h : n < 2 ^ 53) : natToF64 n = n := by
  have hlog : Nat.log2 n - 52 = 0 := by
    by_cases hn : n = 0
    · simp [hn]
    · have := (Nat.log2_lt hn).mpr h
      omega
  simp [natToF64, hlog, Nat.mod_one]

theorem natToF64_two_pow (p : ℕ) : natToF64 (2 ^ p) = 2 ^ p := by
  have hdvd : 2 ^ (p - 52) ∣ 2 ^ p := pow_dvd_pow 2 (Nat.sub_le _ _)
  have hmod : 2 ^ p % 2 ^ (p - 52) = 0 := Nat.mod_eq_zero_of_dvd hdvd
  unfold natToF64
  dsimp only
  rw [Nat.log2_two_pow, hmod, if_pos (Or.inl (by positivity)), Nat.div_mul_cancel hdvd]

theorem le_natToF64 (n : ℕ) : n ≤ natToF64 n + n / 2 ^ 52 := by
  by_cases h : n < 2 ^ 53
  · rw [natToF64_of_lt h]
    omega
  · have hn : n ≠ 0 := by omega
    have hlog : 53 ≤ Nat.log2 n := (Nat.le_log2 hn).mpr (by omega)
    have hulp : 2 ^ (Nat.log2 n - 52) ≤ n / 2 ^ 52 := by
      rw [Nat.le_div_iff_mul_le (by positivity), ← pow_add, Nat.sub_add_cancel (by omega)]
      exact Nat.log2_self_le hn
    have hpos : 0 < 2 ^ (Nat.log2 n - 52) := by positivity
    have hmod := Nat.mod_lt n hpos
    have hdiv := Nat.div_add_mod' n (2 ^ (Nat.log2 n - 52))
    unfold natToF64
    dsimp only
    split_ifs
    · omega
    · rw [Nat.succ_mul]
      omega

theorem natToF64_le {n m : ℕ} (hdvd : 2 ^ (Nat.log2 n - 52) ∣ m) (h : n ≤ m) : natToF64 n ≤ m := by
  obtain ⟨c, rfl⟩ := hdvd
  have hpos : 0 < 2 ^ (Nat.log2 n - 52) := by positivity
  have hmod := Nat.mod_lt n hpos
  have hdiv := Nat.div_add_mod' n (2 ^ (Nat.log2 n - 52))
  unfold natToF64
  dsimp only
  split_ifs with hr
  · omega
  · have hlt : n / 2 ^ (Nat.log2 n - 52) < c := by
      rw [Nat.div_lt_iff_lt_mul hpos, Nat.mul_comm]
      have hne : n ≠ 2 ^ (Nat.log2 n - 52) * c := by
        intro heq
        have hzero : n % 2 ^ (Nat.log2 n - 52) = 0 := Nat.mod_eq_zero_of_dvd ⟨c, heq⟩
        omega
      omega
    calc (n / 2 ^ (Nat.log2 n - 52) + 1) * 2 ^ (Nat.log2 n - 52)
        ≤ c * 2 ^ (Nat.log2 n - 52) := Nat.mul_le_mul_right _ hlt
      _ = 2 ^ (Nat.log2 n - 52) * c := Nat.mul_comm _ _

/-- The nearest integer, and the even one of two that are equally near. -/
def roundEven (x : ℚ) : ℤ :=
  let q := ⌊x⌋
  let r := x - q
  if 2 * r < 1 ∨ (2 * r = 1 ∧ q % 2 = 0) then q else q + 1

theorem abs_roundEven_sub_le (x : ℚ) : |(roundEven x : ℚ) - x| ≤ 1 / 2 := by
  have hfloor := Int.floor_le x
  have hlt := Int.lt_floor_add_one x
  unfold roundEven
  dsimp only
  rw [abs_le]
  split_ifs with h
  · have hhalf : 2 * (x - ⌊x⌋) ≤ 1 := h.elim le_of_lt fun h => h.1.le
    constructor <;> linarith
  · have hhalf : 1 ≤ 2 * (x - ⌊x⌋) := not_lt.mp fun hc => h (Or.inl hc)
    push_cast
    constructor <;> linarith

/-- The value of a rational number in binary64, for zero and numbers in the normal range. -/
def ratToF64 (q : ℚ) : ℚ :=
  if q = 0 then 0
  else
    let ulp : ℚ := 2 ^ (Int.log 2 |q| - 52)
    roundEven (q / ulp) * ulp

theorem ratToF64_one : ratToF64 1 = 1 := by
  decide +kernel

/-- Between zero and one the rounding moves a number by at most half of the largest last place. -/
theorem abs_ratToF64_sub_le {q : ℚ} (h0 : 0 ≤ q) (h1 : q ≤ 1) :
    |ratToF64 q - q| ≤ 2 ^ (-54 : ℤ) := by
  rcases h1.lt_or_eq with hlt | rfl
  · by_cases hq : q = 0
    · simp only [ratToF64, hq, if_true, sub_self, abs_zero]
      positivity
    · have hpos : 0 < q := lt_of_le_of_ne h0 (Ne.symm hq)
      have hlog : Int.log 2 |q| ≤ -1 := by
        have hsmall : q < ((2 : ℕ) : ℚ) ^ (0 : ℤ) := by simpa using hlt
        rw [abs_of_pos hpos]
        have hneg := (Int.lt_zpow_iff_log_lt one_lt_two hpos).mp hsmall
        omega
      have hulp : (2 : ℚ) ^ (Int.log 2 |q| - 52) ≤ 2 ^ (-53 : ℤ) :=
        zpow_le_zpow_right₀ one_le_two (by omega)
      have hulp0 : (0 : ℚ) < 2 ^ (Int.log 2 |q| - 52) := zpow_pos two_pos _
      have herror := abs_roundEven_sub_le (q / 2 ^ (Int.log 2 |q| - 52))
      simp only [ratToF64, if_neg hq]
      generalize (2 : ℚ) ^ (Int.log 2 |q| - 52) = ulp at hulp hulp0 herror ⊢
      calc
        |(roundEven (q / ulp) : ℚ) * ulp - q| = |(roundEven (q / ulp) : ℚ) - q / ulp| * ulp := by
          rw [← abs_of_pos hulp0, ← abs_mul, abs_of_pos hulp0, sub_mul, div_mul_cancel₀ _ hulp0.ne']
        _ ≤ 1 / 2 * 2 ^ (-53 : ℤ) := mul_le_mul herror hulp hulp0.le (by norm_num)
        _ = 2 ^ (-54 : ℤ) := by norm_num
  · rw [ratToF64_one, sub_self, abs_zero]
    positivity

theorem ratToF64_div_lt {a b n : ℕ} (hab : a < b) (hbn : b ≤ n) (hn : n < 2 ^ 53) :
    ratToF64 (a / n) < ratToF64 (b / n) := by
  have hn0 : (0 : ℚ) < n := by exact_mod_cast (Nat.zero_le a).trans_lt (hab.trans_le hbn)
  have hle : ∀ c : ℕ, c ≤ n → (c : ℚ) / n ≤ 1 := by
    intro c hc
    rw [div_le_one hn0]
    exact_mod_cast hc
  have ha := abs_le.mp (abs_ratToF64_sub_le (by positivity) (hle a (hab.le.trans hbn)))
  have hb := abs_le.mp (abs_ratToF64_sub_le (by positivity) (hle b hbn))
  have hgap : (2 : ℚ) ^ (-53 : ℤ) < b / n - a / n := by
    rw [← sub_div, lt_div_iff₀ hn0]
    have hone : (1 : ℚ) ≤ b - a := by
      rw [le_sub_iff_add_le]
      exact_mod_cast (by omega : 1 + a ≤ b)
    have hsmall : (2 : ℚ) ^ (-53 : ℤ) * n < 1 := by
      have hn' : (n : ℚ) < 2 ^ 53 := by exact_mod_cast hn
      rw [zpow_neg, inv_mul_lt_iff₀ (by positivity), mul_one]
      exact_mod_cast hn'
    exact hsmall.trans_le hone
  have htwice : (2 : ℚ) ^ (-54 : ℤ) + 2 ^ (-54 : ℤ) = 2 ^ (-53 : ℤ) := by norm_num
  linarith [ha.2, hb.1]

end Virthub.Lib
