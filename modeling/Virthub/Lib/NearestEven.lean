import Virthub.Lib.MiniFloat

/-! Dropping low bits of a binary32 magnitude, as rounding of the number: the magnitudes without low bits are
the candidates, `roundShift` takes the nearest one, and of two that are equally near the even one. -/
namespace Virthub.Lib
open Binary32

variable {k : ℕ}

/-- Distance to the nearest multiple of `2 ^ k`, in places. -/
def gap (k n : ℕ) : ℕ := min (n % 2 ^ k) (2 ^ k - n % 2 ^ k)

/-- The multiples of `2 ^ k` on both sides of a magnitude belong to its binade. -/
theorem mul_two_pow_mod_add_le (hk : k ≤ 23) (q : ℕ) : q * 2 ^ k % 2 ^ 23 + 2 ^ k ≤ 2 ^ 23 := by
  obtain ⟨w, hw⟩ : ∃ w, 23 = w + k := ⟨23 - k, by omega⟩
  have hlt : q % 2 ^ w + 1 ≤ 2 ^ w := Nat.mod_lt q (Nat.two_pow_pos w)
  calc q * 2 ^ k % 2 ^ 23 + 2 ^ k = (q % 2 ^ w + 1) * 2 ^ k := by
        rw [hw, pow_add, Nat.mul_mod_mul_right, Nat.succ_mul]
    _ ≤ 2 ^ w * 2 ^ k := Nat.mul_le_mul_right _ hlt
    _ = 2 ^ 23 := by rw [hw, pow_add]

theorem scale_mul_two_pow (hk : k ≤ 23) (n : ℕ) : scale (n / 2 ^ k * 2 ^ k) = scale n := by
  obtain ⟨w, hw⟩ : ∃ w, 23 = k + w := ⟨23 - k, by omega⟩
  have hdiv : n / 2 ^ k * 2 ^ k / 2 ^ 23 = n / 2 ^ 23 := by
    rw [hw, pow_add, ← Nat.div_div_eq_div_mul, ← Nat.div_div_eq_div_mul,
      Nat.mul_div_cancel _ (Nat.two_pow_pos k)]
  rw [scale, scale, hdiv]

theorem magnitudeToRat_eq_below (hk : k ≤ 23) (n : ℕ) :
    magnitudeToRat n = magnitudeToRat (n / 2 ^ k * 2 ^ k) + (n % 2 ^ k : ℕ) * scale n := by
  have hlow := Nat.mod_lt n (Nat.two_pow_pos k)
  have hcell := mul_two_pow_mod_add_le hk (n / 2 ^ k)
  have hadd := magnitudeToRat_add (n := n / 2 ^ k * 2 ^ k) (t := n % 2 ^ k) (by omega)
  rwa [Nat.div_add_mod', scale_mul_two_pow hk] at hadd

theorem magnitudeToRat_eq_above (hk : k ≤ 23) (n : ℕ) :
    magnitudeToRat ((n / 2 ^ k + 1) * 2 ^ k) =
      magnitudeToRat n + (2 ^ k - n % 2 ^ k : ℕ) * scale n := by
  have hlow := Nat.mod_lt n (Nat.two_pow_pos k)
  have hadd := magnitudeToRat_add (mul_two_pow_mod_add_le hk (n / 2 ^ k))
  rw [magnitudeToRat_eq_below hk n, Nat.succ_mul, hadd, scale_mul_two_pow hk, Nat.cast_sub hlow.le]
  ring

theorem magnitudeToRat_mul_lt {i j : ℕ} (h : i < j) :
    magnitudeToRat (i * 2 ^ k) < magnitudeToRat (j * 2 ^ k) :=
  magnitudeToRat_strictMono (Nat.mul_lt_mul_of_pos_right h (Nat.two_pow_pos k))

/-- A candidate below the magnitude is at least as far as the next one below, and only that one is as near. -/
theorem le_sub_of_le (hk : k ≤ 23) {n j : ℕ} (hj : j ≤ n / 2 ^ k) :
    (n % 2 ^ k : ℕ) * scale n ≤ magnitudeToRat n - magnitudeToRat (j * 2 ^ k) ∧
      (magnitudeToRat n - magnitudeToRat (j * 2 ^ k) = (n % 2 ^ k : ℕ) * scale n → j = n / 2 ^ k) := by
  have hbelow := magnitudeToRat_eq_below hk n
  rcases hj.lt_or_eq with hlt | rfl
  · have hfar := magnitudeToRat_mul_lt (k := k) hlt
    exact ⟨by linarith, fun heq => by linarith⟩
  · exact ⟨by linarith, fun _ => rfl⟩

theorem le_sub_of_lt (hk : k ≤ 23) {n j : ℕ} (hj : n / 2 ^ k < j) :
    (2 ^ k - n % 2 ^ k : ℕ) * scale n ≤ magnitudeToRat (j * 2 ^ k) - magnitudeToRat n ∧
      (magnitudeToRat (j * 2 ^ k) - magnitudeToRat n = (2 ^ k - n % 2 ^ k : ℕ) * scale n →
        j = n / 2 ^ k + 1) := by
  have habove := magnitudeToRat_eq_above hk n
  rcases (Nat.succ_le_of_lt hj).lt_or_eq with hlt | rfl
  · have hfar := magnitudeToRat_mul_lt (k := k) hlt
    exact ⟨by linarith, fun heq => by linarith⟩
  · exact ⟨by linarith, fun _ => rfl⟩

theorem abs_sub_of_le (hk : k ≤ 23) {n j : ℕ} (hj : j ≤ n / 2 ^ k) :
    |magnitudeToRat n - magnitudeToRat (j * 2 ^ k)| =
      magnitudeToRat n - magnitudeToRat (j * 2 ^ k) := by
  have hscale := scale_pos n
  exact abs_of_nonneg (le_trans (by positivity) (le_sub_of_le hk hj).1)

theorem abs_sub_of_lt (hk : k ≤ 23) {n j : ℕ} (hj : n / 2 ^ k < j) :
    |magnitudeToRat n - magnitudeToRat (j * 2 ^ k)| =
      magnitudeToRat (j * 2 ^ k) - magnitudeToRat n := by
  have hscale := scale_pos n
  rw [abs_sub_comm]
  exact abs_of_nonneg (le_trans (by positivity) (le_sub_of_lt hk hj).1)

theorem gap_mul_le {n c : ℕ} (h : gap k n ≤ c) : (gap k n : ℚ) * scale n ≤ c * scale n :=
  mul_le_mul_of_nonneg_right (by exact_mod_cast h) (scale_pos n).le

/-- No candidate is nearer than the gap. -/
theorem gap_le_abs_sub (hk : k ≤ 23) (n j : ℕ) :
    gap k n * scale n ≤ |magnitudeToRat n - magnitudeToRat (j * 2 ^ k)| := by
  by_cases hj : j ≤ n / 2 ^ k
  · rw [abs_sub_of_le hk hj]
    exact (gap_mul_le (min_le_left _ _)).trans (le_sub_of_le hk hj).1
  · rw [abs_sub_of_lt hk (not_le.mp hj)]
    exact (gap_mul_le (min_le_right _ _)).trans (le_sub_of_lt hk (not_le.mp hj)).1

/-- The rounded magnitude is as near as the gap. -/
theorem abs_sub_roundShift (hk : k ≤ 23) (n : ℕ) :
    |magnitudeToRat n - magnitudeToRat (roundShift k n * 2 ^ k)| = gap k n * scale n := by
  have hbelow := magnitudeToRat_eq_below hk n
  have habove := magnitudeToRat_eq_above hk n
  unfold roundShift gap
  split_ifs with hup
  · rw [abs_sub_of_lt hk (Nat.lt_succ_self _), min_eq_right (by omega)]
    linarith
  · rw [add_zero, abs_sub_of_le hk le_rfl, min_eq_left (by omega)]
    linarith

/-- If another candidate is as near, the rounded magnitude is even. -/
theorem even_roundShift_of_tie (hk : k ≤ 23) {n j : ℕ} (hj : j ≠ roundShift k n)
    (htie : |magnitudeToRat n - magnitudeToRat (j * 2 ^ k)| = gap k n * scale n) :
    roundShift k n % 2 = 0 := by
  have hscale := scale_pos n
  have hlow := Nat.mod_lt n (Nat.two_pow_pos k)
  by_cases hle : j ≤ n / 2 ^ k
  · rw [abs_sub_of_le hk hle] at htie
    obtain ⟨hfar, honly⟩ := le_sub_of_le hk hle
    have hgap := gap_mul_le (k := k) (n := n) (min_le_left _ _)
    have hnear : (n % 2 ^ k : ℕ) * scale n = gap k n * scale n := by linarith
    have hplaces : n % 2 ^ k = gap k n := by exact_mod_cast mul_right_cancel₀ hscale.ne' hnear
    have hbelow := honly (htie.trans hnear.symm)
    unfold gap at hplaces
    unfold roundShift at hj ⊢
    split_ifs at hj ⊢ with hup
    · omega
    · omega
  · rw [abs_sub_of_lt hk (not_le.mp hle)] at htie
    obtain ⟨hfar, honly⟩ := le_sub_of_lt hk (not_le.mp hle)
    have hgap := gap_mul_le (k := k) (n := n) (min_le_right _ _)
    have hnear : (2 ^ k - n % 2 ^ k : ℕ) * scale n = gap k n * scale n := by linarith
    have hplaces : 2 ^ k - n % 2 ^ k = gap k n := by exact_mod_cast mul_right_cancel₀ hscale.ne' hnear
    have habove := honly (htie.trans hnear.symm)
    unfold gap at hplaces
    unfold roundShift at hj ⊢
    split_ifs at hj ⊢ with hup
    · omega
    · omega

/-- The numbers `±(1 + m / 2 ^ w) * 2 ^ e` with `lo ≤ e ≤ hi`. -/
def OnGrid (w : ℕ) (lo hi : ℤ) (m : ℕ) (z : ℚ) : Prop :=
  m < 2 ^ w ∧ ∃ e : ℤ, lo ≤ e ∧ e ≤ hi ∧ |z| = (1 + m / 2 ^ w) * 2 ^ e

/-- `y` is the number of the grid that is nearest to `x`, with an even mantissa if another one is as near. -/
structure NearestEven (w : ℕ) (lo hi : ℤ) (x y : ℚ) : Prop where
  onGrid : ∃ m, OnGrid w lo hi m y
  nearest : ∀ m z, OnGrid w lo hi m z → |x - y| ≤ |x - z|
  even : ∀ m z, OnGrid w lo hi m z → z ≠ y → |x - z| = |x - y| →
    ∃ m', OnGrid w lo hi m' y ∧ m' % 2 = 0
  error : ∀ e : ℤ, 2 ^ e ≤ |x| → |x| < 2 ^ (e + 1) → |x - y| ≤ 2 ^ (e - w - 1)

/-- The numbers of the grid are the magnitudes without low bits. -/
theorem grid_eq_magnitudeToRat {w m : ℕ} (hw : w ≤ 23) (hm : m < 2 ^ w) {E : ℕ} (hE : 0 < E) :
    (1 + m / 2 ^ w : ℚ) * 2 ^ (E - 127 : ℤ) = magnitudeToRat ((E * 2 ^ w + m) * 2 ^ (23 - w)) := by
  have hpow : 2 ^ w * 2 ^ (23 - w) = 2 ^ 23 := by rw [← pow_add, Nat.add_sub_cancel' hw]
  have hlow : m * 2 ^ (23 - w) < 2 ^ 23 := hpow ▸ Nat.mul_lt_mul_of_pos_right hm (Nat.two_pow_pos _)
  have hsplit : (E * 2 ^ w + m) * 2 ^ (23 - w) = E * 2 ^ 23 + m * 2 ^ (23 - w) := by
    rw [add_mul, mul_assoc, hpow]
  have hdiv : (E * 2 ^ w + m) * 2 ^ (23 - w) / 2 ^ 23 = E := by omega
  have hmod : (E * 2 ^ w + m) * 2 ^ (23 - w) % 2 ^ 23 = m * 2 ^ (23 - w) := by omega
  have hscale : (2 : ℚ) ^ (E - 127 : ℤ) = 2 ^ 23 * 2 ^ (E - 150 : ℤ) := by
    rw [← zpow_natCast, ← zpow_add₀ two_ne_zero]
    congr 1
    push_cast
    ring
  have hmant : (m / 2 ^ w : ℚ) * 2 ^ 23 = m * 2 ^ (23 - w) := by
    have hq : (2 : ℚ) ^ 23 = 2 ^ w * 2 ^ (23 - w) := by exact_mod_cast hpow.symm
    rw [hq, ← mul_assoc, div_mul_cancel₀ _ (by positivity)]
  rw [magnitudeToRat, hdiv, hmod, if_neg hE.ne', hscale]
  calc (1 + m / 2 ^ w : ℚ) * (2 ^ 23 * 2 ^ (E - 150 : ℤ))
      = (2 ^ 23 + m / 2 ^ w * 2 ^ 23) * 2 ^ (E - 150 : ℤ) := by ring
    _ = ((2 ^ 23 + m * 2 ^ (23 - w) : ℕ) : ℚ) * 2 ^ (E - 150 : ℤ) := by
      rw [hmant]
      push_cast
      rfl

theorem two_zpow_eq_magnitudeToRat {E : ℕ} (hE : 0 < E) :
    (2 : ℚ) ^ (E - 127 : ℤ) = magnitudeToRat (E * 2 ^ 23) := by
  have h := grid_eq_magnitudeToRat (w := 0) (m := 0) (by decide) (by decide) hE
  simpa using h

theorem exists_exponent {e : ℤ} (he : -126 ≤ e) : ∃ E : ℕ, 0 < E ∧ e = E - 127 :=
  ⟨(e + 127).toNat, by omega, by omega⟩

/-- The weight of the last place of a number between two powers of two. -/
theorem scale_eq_zpow {n : ℕ} {e : ℤ} (he : -126 ≤ e) (hlo : 2 ^ e ≤ magnitudeToRat n)
    (hhi : magnitudeToRat n < 2 ^ (e + 1)) : scale n = 2 ^ (e - 23) := by
  obtain ⟨E, hE, rfl⟩ := exists_exponent he
  have hnext : (E : ℤ) - 127 + 1 = ((E + 1 : ℕ) : ℤ) - 127 := by
    push_cast
    ring
  rw [two_zpow_eq_magnitudeToRat hE, magnitudeToRat_strictMono.le_iff_le] at hlo
  rw [hnext, two_zpow_eq_magnitudeToRat (Nat.succ_pos E), magnitudeToRat_strictMono.lt_iff_lt] at hhi
  have hdiv : n / 2 ^ 23 = E := by omega
  rw [scale, hdiv, max_eq_left hE]
  congr 1
  ring

/-- The gap is at most half of the distance of two candidates. -/
theorem gap_mul_scale_le {w n : ℕ} (hw : w ≤ 23) {e : ℤ} (hscale : scale n = 2 ^ (e - 23)) :
    gap (23 - w) n * scale n ≤ 2 ^ (e - w - 1) := by
  have hhalf : (2 : ℚ) * gap (23 - w) n ≤ 2 ^ (23 - w) := by
    have hlow := Nat.mod_lt n (Nat.two_pow_pos (23 - w))
    have hplaces : 2 * gap (23 - w) n ≤ 2 ^ (23 - w) := by
      unfold gap
      omega
    exact_mod_cast hplaces
  have hcell : (2 : ℚ) ^ (23 - w) * 2 ^ (e - 23) = 2 * 2 ^ (e - w - 1) := by
    rw [← zpow_natCast, ← zpow_add₀ two_ne_zero, ← zpow_one_add₀ two_ne_zero, Nat.cast_sub hw]
    congr 1
    push_cast
    ring
  have hmul := mul_le_mul_of_nonneg_right hhalf (zpow_pos two_pos (e - 23)).le
  rw [hcell, mul_assoc] at hmul
  rw [hscale]
  exact le_of_mul_le_mul_left hmul two_pos

theorem OnGrid.exists_magnitude {w m : ℕ} {lo hi : ℤ} {z : ℚ} (h : OnGrid w lo hi m z) (hw : w ≤ 23)
    (hlo : -126 ≤ lo) : ∃ j, |z| = magnitudeToRat (j * 2 ^ (23 - w)) := by
  obtain ⟨hm, e, hle, -, hz⟩ := h
  obtain ⟨E, hE, rfl⟩ := exists_exponent (hlo.trans hle)
  exact ⟨E * 2 ^ w + m, hz.trans (grid_eq_magnitudeToRat hw hm hE)⟩

theorem onGrid_of_magnitude {w r : ℕ} {lo hi : ℤ} {y : ℚ} (hw : w ≤ 23)
    (hy : |y| = magnitudeToRat (r * 2 ^ (23 - w))) (hpos : 0 < r / 2 ^ w)
    (hlo : lo ≤ (r / 2 ^ w : ℕ) - 127) (hhi : ((r / 2 ^ w : ℕ) : ℤ) - 127 ≤ hi) :
    OnGrid w lo hi (r % 2 ^ w) y := by
  have hm := Nat.mod_lt r (Nat.two_pow_pos w)
  refine ⟨hm, _, hlo, hhi, ?_⟩
  rw [hy, grid_eq_magnitudeToRat hw hm hpos, Nat.div_add_mod']

theorem roundShift_le {k n c : ℕ} (h : n ≤ c * 2 ^ k) : roundShift k n ≤ c := by
  have hpos := Nat.two_pow_pos k
  have hdiv := Nat.div_add_mod' n (2 ^ k)
  unfold roundShift
  split_ifs with hup
  · have hlt : n / 2 ^ k * 2 ^ k < c * 2 ^ k := by omega
    exact Nat.lt_of_mul_lt_mul_right hlt
  · exact (Nat.div_le_div_right h).trans_eq (Nat.mul_div_cancel _ hpos)

theorem le_roundShift {k n c : ℕ} (h : c * 2 ^ k ≤ n) : c ≤ roundShift k n :=
  ((Nat.le_div_iff_mul_le (Nat.two_pow_pos k)).mpr h).trans (div_le_roundShift k n)

/-- Numbers of one sign are as far from each other as their absolute values. -/
theorem abs_sub_of_same_sign {x y : ℚ} (h : 0 ≤ x ∧ 0 ≤ y ∨ x ≤ 0 ∧ y ≤ 0) :
    |x - y| = |(|x| - |y|)| := by
  rcases h with ⟨hx, hy⟩ | ⟨hx, hy⟩
  · rw [abs_of_nonneg hx, abs_of_nonneg hy]
  · rw [abs_of_nonpos hx, abs_of_nonpos hy, neg_sub_neg, abs_sub_comm]

/-- Of two numbers with the same absolute value, only one is as far as the absolute values are. -/
theorem eq_of_abs_sub {x y z : ℚ} (hx : x ≠ 0) (hs : 0 ≤ x ∧ 0 ≤ y ∨ x ≤ 0 ∧ y ≤ 0) (hz : |z| = |y|)
    (hd : |x - z| = |x - y|) : z = y := by
  rcases abs_eq_abs.mp hz with heq | heq
  · exact heq
  · rw [heq] at hd ⊢
    rcases abs_eq_abs.mp hd with h | h
    · linarith
    · rcases hs with ⟨h1, h2⟩ | ⟨h1, h2⟩
      · exact absurd (show x = 0 by linarith) hx
      · exact absurd (show x = 0 by linarith) hx

section Grid
variable {w n : ℕ} {lo hi : ℤ} {x y : ℚ}

/-- The rounded magnitude of a number in the range of the grid is in that range. -/
theorem roundShift_bounds (hw : w ≤ 23) (hlo : -126 ≤ lo) (hlohi : lo ≤ hi) (hx : |x| = magnitudeToRat n)
    (hxlo : 2 ^ lo ≤ |x|) (hxhi : |x| ≤ (1 + (2 ^ w - 1 : ℕ) / 2 ^ w) * 2 ^ hi) :
    0 < roundShift (23 - w) n / 2 ^ w ∧ lo ≤ (roundShift (23 - w) n / 2 ^ w : ℕ) - 127 ∧
      ((roundShift (23 - w) n / 2 ^ w : ℕ) : ℤ) - 127 ≤ hi := by
  obtain ⟨L, hL, rfl⟩ := exists_exponent hlo
  obtain ⟨H, hH, rfl⟩ := exists_exponent (hlo.trans hlohi)
  have hpos := Nat.two_pow_pos w
  have hpow : 2 ^ w * 2 ^ (23 - w) = 2 ^ 23 := by rw [← pow_add, Nat.add_sub_cancel' hw]
  rw [hx, two_zpow_eq_magnitudeToRat hL, magnitudeToRat_strictMono.le_iff_le, ← hpow, ← mul_assoc] at hxlo
  rw [hx, grid_eq_magnitudeToRat hw (by omega) hH, magnitudeToRat_strictMono.le_iff_le] at hxhi
  have hge := (Nat.le_div_iff_mul_le hpos).mpr (le_roundShift hxlo)
  have hle : roundShift (23 - w) n / 2 ^ w < H + 1 := by
    have hround := roundShift_le hxhi
    rw [Nat.div_lt_iff_lt_mul hpos, Nat.succ_mul]
    omega
  omega

/-- Rounding the magnitude of a number in the range of the grid gives the nearest number of the grid. -/
theorem nearestEven_of_roundShift (hw : w ≤ 23) (hw0 : 0 < w) (hlo : -126 ≤ lo) (hlohi : lo ≤ hi)
    (hx : |x| = magnitudeToRat n) (hy : |y| = magnitudeToRat (roundShift (23 - w) n * 2 ^ (23 - w)))
    (hsign : 0 ≤ x ∧ 0 ≤ y ∨ x ≤ 0 ∧ y ≤ 0) (hxlo : 2 ^ lo ≤ |x|)
    (hxhi : |x| ≤ (1 + (2 ^ w - 1 : ℕ) / 2 ^ w) * 2 ^ hi) : NearestEven w lo hi x y := by
  obtain ⟨hpos, hmin, hmax⟩ := roundShift_bounds hw hlo hlohi hx hxlo hxhi
  have hk : 23 - w ≤ 23 := Nat.sub_le _ _
  have hgrid := onGrid_of_magnitude hw hy hpos hmin hmax
  have hdist : |x - y| = gap (23 - w) n * scale n := by
    rw [abs_sub_of_same_sign hsign, hx, hy, abs_sub_roundShift hk]
  have hne : x ≠ 0 := by
    intro hzero
    rw [hzero, abs_zero] at hxlo
    exact absurd hxlo (not_le.mpr (by positivity))
  constructor
  case onGrid => exact ⟨_, hgrid⟩
  case nearest =>
    intro m z hz
    obtain ⟨j, hj⟩ := hz.exists_magnitude hw hlo
    calc |x - y| ≤ |magnitudeToRat n - magnitudeToRat (j * 2 ^ (23 - w))| := by
          rw [hdist]
          exact gap_le_abs_sub hk n j
      _ = |(|x| - |z|)| := by rw [hx, hj]
      _ ≤ |x - z| := abs_abs_sub_abs_le x z
  case even =>
    intro m z hz hzy htie
    obtain ⟨j, hj⟩ := hz.exists_magnitude hw hlo
    have hjr : j ≠ roundShift (23 - w) n := by
      intro heq
      rw [heq, ← hy] at hj
      exact hzy (eq_of_abs_sub hne hsign hj htie)
    have hfar := gap_le_abs_sub hk n j
    have hnear := abs_abs_sub_abs_le x z
    rw [hx, hj, htie, hdist] at hnear
    have heven := even_roundShift_of_tie hk hjr (le_antisymm hnear hfar)
    refine ⟨_, hgrid, ?_⟩
    rw [Nat.mod_mod_of_dvd _ (dvd_pow_self 2 hw0.ne')]
    exact heven
  case error =>
    intro e helo hehi
    have hexp : lo < e + 1 := (zpow_lt_zpow_iff_right₀ one_lt_two).mp (hxlo.trans_lt hehi)
    rw [hx] at helo hehi
    rw [hdist]
    exact gap_mul_scale_le hw (scale_eq_zpow (by omega) helo hehi)

end Grid

end Virthub.Lib
