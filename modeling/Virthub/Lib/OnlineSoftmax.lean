import Mathlib.Algebra.BigOperators.Ring.List
import Mathlib.Algebra.Order.BigOperators.Group.List
import Mathlib.Algebra.Order.Field.Basic
import Mathlib.Data.List.MinMax
import Mathlib.Tactic.Ring

/-! Softmax means computed in one pass over the scores. The pass knows the maximum only of the
scores it has seen, so a sum of weights taken against that maximum has to be rescaled whenever
the maximum grows. -/
namespace Virthub.Lib

/-- A score with the value that it weighs, one component for each index. -/
structure Scored (K ι : Type*) where
  score : K
  value : ι → K

variable {K ι : Type*}

section Order
variable [LinearOrder K]

/-- The larger of the maximum so far and a score. -/
def fmax (m : WithBot K) (s : K) : K := max (m.unbotD s) s

@[simp] theorem fmax_bot (s : K) : fmax ⊥ s = s := max_self s

@[simp] theorem fmax_coe (m s : K) : fmax (m : WithBot K) s = max m s := rfl

theorem coe_fmax (m : WithBot K) (s : K) : ((fmax m s : K) : WithBot K) = max m (s : WithBot K) := by
  cases m with
  | bot => simp
  | coe a => simp

/-- The largest score, if there is one. -/
def topScore (xs : List (Scored K ι)) : WithBot K := (xs.map (·.score)).maximum

@[simp] theorem topScore_nil : topScore ([] : List (Scored K ι)) = ⊥ := rfl

theorem topScore_cons (x : Scored K ι) (xs : List (Scored K ι)) :
    topScore (x :: xs) = max (x.score : WithBot K) (topScore xs) := by
  rw [topScore, List.map_cons, List.maximum_cons]
  rfl

@[simp] theorem topScore_concat (xs : List (Scored K ι)) (x : Scored K ι) :
    topScore (xs ++ [x]) = (fmax (topScore xs) x.score : K) := by
  rw [coe_fmax, topScore, List.map_append, List.map_singleton, List.maximum_concat]
  rfl

/-- Every element with the maximum of the scores up to it, when `m` is the maximum before. -/
def peaks (m : WithBot K) : List (Scored K ι) → List (K × Scored K ι)
  | [] => []
  | x :: xs => (fmax m x.score, x) :: peaks (fmax m x.score : K) xs

theorem peaks_concat (m : WithBot K) (xs : List (Scored K ι)) (x : Scored K ι) :
    peaks m (xs ++ [x]) = peaks m xs ++ [(fmax (max m (topScore xs)) x.score, x)] := by
  induction xs generalizing m with
  | nil => simp [peaks]
  | cons y ys ih =>
    rw [List.cons_append, peaks, ih, peaks, topScore_cons, coe_fmax, max_assoc]
    rfl

@[simp] theorem peaks_bot_concat (xs : List (Scored K ι)) (x : Scored K ι) :
    peaks ⊥ (xs ++ [x]) = peaks ⊥ xs ++ [(fmax (topScore xs) x.score, x)] := by
  rw [peaks_concat, max_eq_right bot_le]

theorem map_snd_peaks (m : WithBot K) (xs : List (Scored K ι)) : (peaks m xs).map (·.2) = xs := by
  induction xs generalizing m with
  | nil => rfl
  | cons x xs ih => rw [peaks, List.map_cons, ih]

theorem peaks_le_topScore {xs : List (Scored K ι)} {y : K × Scored K ι} (hy : y ∈ peaks ⊥ xs) :
    (y.1 : WithBot K) ≤ topScore xs := by
  induction xs using List.reverseRecOn with
  | nil => cases hy
  | append_singleton xs x ih =>
    rw [topScore_concat]
    rw [peaks_bot_concat] at hy
    rcases List.mem_append.mp hy with hold | hnew
    · rw [coe_fmax]
      exact (ih hold).trans (le_max_left _ _)
    · rw [List.mem_singleton.mp hnew]

theorem le_of_mem_peaks {m : WithBot K} {xs : List (Scored K ι)} {y : K × Scored K ι}
    (hy : y ∈ peaks m xs) : m ≤ y.1 := by
  induction xs generalizing m with
  | nil => cases hy
  | cons x xs ih =>
    have hm : m ≤ ((fmax m x.score : K) : WithBot K) := by
      rw [coe_fmax]
      exact le_max_left _ _
    rcases List.mem_cons.mp hy with rfl | hrest
    · exact hm
    · exact hm.trans (ih hrest)

end Order

theorem sum_map_filter_of_zero {α M : Type*} [AddMonoid M] (p : α → Bool) (f : α → M)
    (l : List α)
    (h : ∀ y ∈ l, p y = false → f y = 0) : ((l.filter p).map f).sum = (l.map f).sum := by
  induction l with
  | nil => rfl
  | cons y ys ih =>
    have htail := ih fun z hz => h z (List.mem_cons_of_mem y hz)
    cases hp : p y with
    | true => simp [hp, htail]
    | false => simp [hp, htail, h y List.mem_cons_self hp]

variable [Field K] [LinearOrder K]

/-- A positive function that turns sums into products. -/
structure IsExp (e : K → K) : Prop where
  pos : ∀ a, 0 < e a
  add : ∀ a b, e (a + b) = e a * e b

theorem IsExp.sub_mul {e : K → K} (he : IsExp e) (a b : K) : e (a - b) * e b = e a := by
  rw [← he.add, sub_add_cancel]

theorem IsExp.sub_mul_sub {e : K → K} (he : IsExp e) (a b c : K) :
    e (a - b) * e (b - c) = e (a - c) := by
  rw [← he.add, sub_add_sub_cancel]

/-- The value of `e` at `m - b`, which is zero while there is no maximum. -/
def expDiff (e : K → K) (m : WithBot K) (b : K) : K := (m.map fun a => e (a - b)).unbotD 0

/-- The mean of the values with weights `e score`. -/
def softmaxMean (e : K → K) (xs : List (Scored K ι)) (d : ι) : K :=
  (xs.map fun x => e x.score * x.value d).sum / (xs.map fun x => e x.score).sum

/-- The largest score of a list that is not empty. -/
def top (xs : List (Scored K ι)) : K := (topScore xs).unbotD 0

@[simp] theorem top_concat (xs : List (Scored K ι)) (x : Scored K ι) :
    top (xs ++ [x]) = fmax (topScore xs) x.score := by
  rw [top, topScore_concat]
  rfl

theorem topScore_eq_coe {xs : List (Scored K ι)} (h : xs ≠ []) : topScore xs = (top xs : K) := by
  cases xs using List.reverseRecOn with
  | nil => exact absurd rfl h
  | append_singleton xs x => rw [topScore_concat, top_concat]

/-- The sum of the weights against the largest score. -/
def topSum (e : K → K) (xs : List (Scored K ι)) : K :=
  (xs.map fun x => e (x.score - top xs)).sum

/-- The sum of the values, each weighted against the maximum of the scores up to it. -/
def peakSum (e : K → K) (xs : List (Scored K ι)) (d : ι) : K :=
  ((peaks ⊥ xs).map fun y => e (y.2.score - y.1) * y.2.value d).sum

/-- The recurrence by which a pass keeps the sum of the weights. -/
theorem topSum_concat {e : K → K} (he : IsExp e) (xs : List (Scored K ι)) (x : Scored K ι) :
    topSum e (xs ++ [x]) = topSum e xs * expDiff e (topScore xs) (fmax (topScore xs) x.score) +
      e (x.score - fmax (topScore xs) x.score) := by
  by_cases hxs : xs = []
  · subst hxs
    simp [topSum, top, topScore]
  · have hold : expDiff e (topScore xs) (fmax (topScore xs) x.score) =
        e (top xs - fmax (topScore xs) x.score) := by
      rw [topScore_eq_coe hxs]
      rfl
    unfold topSum
    rw [List.map_append, List.sum_append, top_concat, hold, ← List.sum_map_mul_right]
    simp only [he.sub_mul_sub]
    simp

/-- The recurrence of a sum that is never rescaled. -/
theorem peakSum_concat (e : K → K) (xs : List (Scored K ι)) (x : Scored K ι) (d : ι) :
    peakSum e (xs ++ [x]) d =
      peakSum e xs d + e (x.score - fmax (topScore xs) x.score) * x.value d := by
  simp [peakSum]

/-- The softmax mean with weights against the largest score. -/
theorem softmaxMean_eq {e : K → K} (he : IsExp e) (xs : List (Scored K ι)) (d : ι) :
    softmaxMean e xs d =
      (xs.map fun x => e (x.score - top xs) * x.value d).sum / topSum e xs := by
  have hnum : (xs.map fun x => e x.score * x.value d).sum =
      (xs.map fun x => e (x.score - top xs) * x.value d).sum * e (top xs) := by
    rw [← List.sum_map_mul_right]
    simp only [mul_right_comm _ _ (e (top xs)), he.sub_mul]
  have hden : (xs.map fun x => e x.score).sum = topSum e xs * e (top xs) := by
    rw [topSum, ← List.sum_map_mul_right]
    simp only [he.sub_mul]
  rw [softmaxMean, hnum, hden, mul_div_mul_right _ _ (ne_of_gt (he.pos _))]

theorem topSum_pos [IsStrictOrderedRing K] {e : K → K} (he : IsExp e) {xs : List (Scored K ι)}
    (h : xs ≠ []) : 0 < topSum e xs := by
  apply List.sum_pos
  · intro a ha
    obtain ⟨x, -, rfl⟩ := List.mem_map.mp ha
    exact he.pos _
  · simpa using h

/-- The elements that a pass sees before it has seen the largest score. -/
def early (xs : List (Scored K ι)) : List (K × Scored K ι) :=
  (peaks ⊥ xs).filter fun y => y.1 < top xs

/-- Nothing is seen before a largest score that comes first. -/
theorem early_eq_nil {x : Scored K ι} {xs : List (Scored K ι)}
    (h : ∀ y ∈ xs, y.score ≤ x.score) : early (x :: xs) = [] := by
  have htop : topScore (x :: xs) = x.score := by
    rw [topScore, List.maximum_eq_coe_iff]
    simpa using h
  apply List.filter_eq_nil_iff.mpr
  intro y hy
  have hle : (x.score : WithBot K) ≤ y.1 := by
    rcases List.mem_cons.mp hy with rfl | hrest
    · simp
    · simpa using le_of_mem_peaks hrest
  simpa [top, htop] using hle

/-- The sum of the values seen early, each times the excess of the weight that it was given. -/
def earlyExcess (e : K → K) (xs : List (Scored K ι)) (d : ι) : K :=
  ((early xs).map fun y => (e (y.2.score - y.1) - e (y.2.score - top xs)) * y.2.value d).sum

theorem earlyExcess_eq (e : K → K) (xs : List (Scored K ι)) (d : ι) :
    earlyExcess e xs d =
      peakSum e xs d - (xs.map fun x => e (x.score - top xs) * x.value d).sum := by
  have hall : earlyExcess e xs d = ((peaks ⊥ xs).map fun y =>
      (e (y.2.score - y.1) - e (y.2.score - top xs)) * y.2.value d).sum := by
    apply sum_map_filter_of_zero
    intro y hy hlate
    -- the maximum up to a later element is the largest score, so its weight has no excess
    have hne : xs ≠ [] := by
      rintro rfl
      cases hy
    have hle : y.1 ≤ top xs := by
      have hy' := peaks_le_topScore hy
      rwa [topScore_eq_coe hne, WithBot.coe_le_coe] at hy'
    have heq : y.1 = top xs := le_antisymm hle (by simpa using hlate)
    rw [heq, sub_self, zero_mul]
  have hsnd : xs.map (fun x => e (x.score - top xs) * x.value d) =
      (peaks ⊥ xs).map fun y => e (y.2.score - top xs) * y.2.value d := by
    conv_lhs => rw [← map_snd_peaks ⊥ xs, List.map_map]
    rw [map_snd_peaks]
    rfl
  rw [hall, peakSum, hsnd, eq_sub_iff_add_eq, ← List.sum_map_add]
  simp only [sub_mul, sub_add_cancel]

/-- A sum that is never rescaled gives the softmax mean exactly if the excess of the weights given
early cancels. -/
theorem peakSum_div_eq_iff [IsStrictOrderedRing K] {e : K → K} (he : IsExp e)
    {xs : List (Scored K ι)} (h : xs ≠ []) (d : ι) :
    peakSum e xs d / topSum e xs = softmaxMean e xs d ↔ earlyExcess e xs d = 0 := by
  rw [softmaxMean_eq he, earlyExcess_eq, sub_eq_zero, div_left_inj' (ne_of_gt (topSum_pos he h))]

end Virthub.Lib
