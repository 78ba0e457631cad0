import Virthub.Kernels.PagedAttention
import Mathlib.Analysis.Complex.Exponential

/-! What the paged attention kernels compute. The running sum is rescaled when the maximum grows
and the accumulated values are not, so a value that is seen before the largest score keeps a
weight that is too large. -/
namespace Virthub.Kernels
open Virthub.Lib

variable {K : Type*} [Field K]

/-- The tokens in the order in which the loops visit them. -/
def Variant.visited (v : Variant K) (args : AttentionArgs K) (i : BlockIdx) : List (Scored K ℕ) :=
  (List.range (args.numBlocks i)).flatMap fun blockIdx =>
    (List.range (args.tokensInBlock i blockIdx)).map (v.token args i blockIdx)

theorem visited_ne_nil (v : Variant K) {args : AttentionArgs K} {i : BlockIdx}
    (h : i.tokenIdx < args.contextLens i.seqIdx) : v.visited args i ≠ [] := by
  have hblocks : 0 < args.numBlocks i := by
    apply Nat.div_pos
    · omega
    · decide
  have htokens : 0 < args.tokensInBlock i 0 := by
    apply lt_min
    · decide
    · omega
  have hmem : v.token args i 0 0 ∈ v.visited args i := by
    apply List.mem_flatMap.mpr
    exact ⟨0, by simpa using hblocks, List.mem_map_of_mem (by simpa using htokens)⟩
  exact List.ne_nil_of_mem hmem

theorem Launch.normalize_eq (l : Launch K) (acc sumExp : K) :
    l.variant.normalize acc sumExp = acc / sumExp := by
  cases l with
  | cudaBasic a => exact mul_one_div acc sumExp
  | cudaEnhanced a => exact mul_one_div acc sumExp
  | cudaBtkv a => exact mul_one_div acc sumExp
  | tritonBasic a => rfl
  | tritonEnhanced a => rfl
  | tritonBtkv a => rfl

variable [LinearOrder K]

theorem accumulate_eq_foldl (v : Variant K) (args : AttentionArgs K) (i : BlockIdx) (e : K → K) :
    v.accumulate args i e = (v.visited args i).foldl (Accum.update e) .init := by
  simp only [Variant.accumulate, Variant.visited, List.foldl_flatMap, List.foldl_map]

/-- The accumulators after any tokens: the sum is taken against the largest score, the values each
against the largest score so far. -/
theorem foldl_update {e : K → K} (he : IsExp e) (xs : List (Scored K ℕ)) :
    xs.foldl (Accum.update e) .init = ⟨peakSum e xs, topScore xs, topSum e xs⟩ := by
  induction xs using List.reverseRecOn with
  | nil => rfl
  | append_singleton xs x ih =>
    have hacc : peakSum e (xs ++ [x]) = fun d =>
        peakSum e xs d + e (x.score - fmax (topScore xs) x.score) * x.value d := by
      funext d
      exact peakSum_concat e xs x d
    rw [List.foldl_concat, ih, hacc, topScore_concat, topSum_concat he]
    rfl

/-- The stores that softmax attention over the visited tokens would make. -/
def Variant.softmax (v : Variant K) (args : AttentionArgs K) (i : BlockIdx) (e : K → K) :
    List (ℕ × K) :=
  (List.range v.dim).map fun d => (args.rowOffset i + d, softmaxMean e (v.visited args i) d)

theorem run_eq_softmax_iff [IsStrictOrderedRing K] {v : Variant K}
    (hv : ∀ acc sumExp, v.normalize acc sumExp = acc / sumExp) {args : AttentionArgs K}
    {i : BlockIdx} (h : i.tokenIdx < args.contextLens i.seqIdx) {e : K → K} (he : IsExp e) :
    v.run args i e = v.softmax args i e ↔
      ∀ d < v.dim, earlyExcess e (v.visited args i) d = 0 := by
  have hne := visited_ne_nil v h
  unfold Variant.run Variant.softmax
  rw [if_neg (not_le.mpr h), List.map_inj_left, accumulate_eq_foldl, foldl_update he]
  simp only [List.mem_range, Prod.mk.injEq, true_and, hv, peakSum_div_eq_iff he hne]

namespace Launch

theorem output_eq_run (l : Launch K) (e : K → K) (i : BlockIdx) :
    l.output e i = l.variant.run l.args i e := by
  cases l <;> rfl

/-- The stores of softmax attention over the tokens that the kernel visits. -/
def softmax (e : K → K) (i : BlockIdx) (l : Launch K) : List (ℕ × K) :=
  l.variant.softmax l.args i e

def visited (i : BlockIdx) (l : Launch K) : List (Scored K ℕ) := l.variant.visited l.args i

/-- Each kernel stores the softmax attention exactly if, in every dimension, the values that it
visits before the largest score cancel, each times the excess of its weight. -/
theorem output_eq_softmax_iff [IsStrictOrderedRing K] (l : Launch K) (i : BlockIdx)
    (h : i.tokenIdx < l.args.contextLens i.seqIdx) (e : K → K) (he : IsExp e) :
    l.output e i = l.softmax e i ↔ ∀ d < l.variant.dim, earlyExcess e (l.visited i) d = 0 := by
  rw [output_eq_run]
  exact run_eq_softmax_iff l.normalize_eq h he

/-- In particular when the first token that it visits has the largest score. -/
theorem output_eq_softmax_of_first [IsStrictOrderedRing K] (l : Launch K) (i : BlockIdx)
    (h : i.tokenIdx < l.args.contextLens i.seqIdx) {e : K → K} (he : IsExp e) {x : Scored K ℕ}
    {xs : List (Scored K ℕ)} (hx : l.visited i = x :: xs) (hfirst : ∀ y ∈ xs, y.score ≤ x.score) :
    l.output e i = l.softmax e i := by
  rw [output_eq_run]
  apply (run_eq_softmax_iff l.normalize_eq h he).mpr
  intro d _
  change earlyExcess e (l.visited i) d = 0
  rw [hx, earlyExcess, early_eq_nil hfirst]
  rfl

/-- Whatever the exponential, every instance that does not return early stores softmax attention. -/
def ComputesSoftmax (l : Launch K) : Prop :=
  ∀ (e : K → K), IsExp e → ∀ i : BlockIdx, i.tokenIdx < l.args.contextLens i.seqIdx →
    l.output e i = l.softmax e i

end Launch

/-- One block of two tokens with scores 0 and 1, of which the first has a value. -/
private def risingArgs : AttentionArgs ℝ where
  q n := if n = 0 then 1 else 0
  kCache n := if n = 128 then 1 else 0
  vCache n := if n = 0 then 1 else 0
  blockTables _ := 0
  contextLens _ := 2
  maxBlocksPerSeq := 1
  numHeads := 1
  numKvHeads := 1
  headDim := 128
  scale := 1

private def risingBasic : BasicArgs ℝ :=
  ⟨risingArgs, fun _ => 1, fun _ => 0, fun _ => 1, fun _ => 0⟩

private def risingE8m0 : E8m0Args ℝ := ⟨risingArgs, fun _ => 0, fun _ => 0⟩

theorem real_isExp : IsExp Real.exp := ⟨Real.exp_pos, Real.exp_add⟩

/-- The variant reads keys 0 and 1 and a first value of 1. -/
private structure Rising (v : Variant ℝ) : Prop where
  dim : 0 < v.dim
  key_zero : v.key 0 0 0 = 0
  key_one : v.key 0 1 0 = 1
  value : v.value 0 0 0 = 1

private theorem rising_basic (n : ℝ → ℝ → ℝ) : Rising (basic 128 n risingBasic) where
  dim := Nat.zero_lt_succ 127
  key_zero := by simp [basic, affine, tokenMajor, risingBasic, risingArgs]
  key_one := by simp [basic, affine, tokenMajor, risingBasic, risingArgs]
  value := by simp [basic, affine, tokenMajor, risingBasic, risingArgs]

private theorem rising_e8m0 (n : ℝ → ℝ → ℝ) : Rising (e8m0 128 n risingE8m0) where
  dim := Nat.zero_lt_succ 127
  key_zero := by simp [e8m0, powerOfTwo, tokenMajor, risingE8m0, risingArgs]
  key_one := by simp [e8m0, powerOfTwo, tokenMajor, risingE8m0, risingArgs]
  value := by simp [e8m0, powerOfTwo, transposed, risingE8m0, risingArgs]

private theorem Rising.visited {v : Variant ℝ} (hv : Rising v) :
    v.visited risingArgs ⟨0, 0, 0⟩ = [⟨0, v.value 0 0⟩, ⟨1, v.value 0 1⟩] := by
  have hblocks : risingArgs.numBlocks ⟨0, 0, 0⟩ = 1 := rfl
  have htokens : risingArgs.tokensInBlock ⟨0, 0, 0⟩ 0 = 2 := rfl
  have htoken : ∀ t, v.token risingArgs ⟨0, 0, 0⟩ 0 t = ⟨v.key 0 t 0, v.value 0 t⟩ := by
    intro t
    simp [Variant.token, risingArgs, AttentionArgs.rowOffset, AttentionArgs.scaleIdx,
      AttentionArgs.physicalBlock, AttentionArgs.kvHead, hv.dim]
  simp [Variant.visited, hblocks, htokens, htoken, hv.key_zero, hv.key_one, List.range_succ]

private theorem earlyExcess_rising (a b : ℕ → ℝ) :
    earlyExcess Real.exp [⟨0, a⟩, ⟨1, b⟩] 0 = (1 - Real.exp (-1)) * a 0 := by
  have htop : top [⟨0, a⟩, ⟨1, b⟩] = (1 : ℝ) := by
    have hscore : topScore [⟨0, a⟩, ⟨1, b⟩] = ((1 : ℝ) : WithBot ℝ) := by
      rw [topScore, List.maximum_eq_coe_iff]
      simp
    rw [top, hscore]
    rfl
  have hpeaks : peaks ⊥ [⟨0, a⟩, ⟨1, b⟩] = [((0 : ℝ), ⟨0, a⟩), ((1 : ℝ), ⟨1, b⟩)] := by
    rw [peaks, peaks, peaks, fmax_bot, fmax_coe, max_eq_right zero_le_one]
  simp [earlyExcess, early, htop, hpeaks]

private theorem Rising.not_computesSoftmax {l : Launch ℝ} (hl : Rising l.variant)
    (hargs : l.args = risingArgs) : ¬ l.ComputesSoftmax := by
  intro h
  have hrun := h Real.exp real_isExp ⟨0, 0, 0⟩ (by rw [hargs]; decide)
  rw [Launch.output_eq_run, Launch.softmax, hargs,
    run_eq_softmax_iff l.normalize_eq (by decide) real_isExp, hl.visited] at hrun
  have hexcess := hrun 0 hl.dim
  rw [earlyExcess_rising, hl.value, mul_one, sub_eq_zero] at hexcess
  have hlt : Real.exp (-1) < 1 := by
    rw [Real.exp_lt_one_iff]
    norm_num
  exact absurd hexcess (ne_of_gt hlt)

/-- Every one of the kernels fails on two tokens with rising scores. -/
theorem computesSoftmax_fails_on_rising_scores :
    (∀ mk ∈ [Launch.cudaBasic, Launch.tritonBasic],
      ¬ ∀ args : BasicArgs ℝ, (mk args).ComputesSoftmax) ∧
    ∀ mk ∈ [Launch.cudaEnhanced, Launch.cudaBtkv, Launch.tritonEnhanced, Launch.tritonBtkv],
      ¬ ∀ args : E8m0Args ℝ, (mk args).ComputesSoftmax := by
  constructor
  · intro mk hmk h
    have hl := h risingBasic
    simp only [List.mem_cons, List.not_mem_nil, or_false] at hmk
    rcases hmk with rfl | rfl
    all_goals
      refine Rising.not_computesSoftmax ?_ rfl hl
      exact rising_basic _
  · intro mk hmk h
    have hl := h risingE8m0
    simp only [List.mem_cons, List.not_mem_nil, or_false] at hmk
    rcases hmk with rfl | rfl | rfl | rfl
    all_goals
      refine Rising.not_computesSoftmax ?_ rfl hl
      exact rising_e8m0 _

/-- The condition at two tokens with rising scores. -/
theorem output_eq_softmax_iff_rising :
    (Launch.cudaEnhanced risingE8m0).output Real.exp ⟨0, 0, 0⟩ =
        (Launch.cudaEnhanced risingE8m0).softmax Real.exp ⟨0, 0, 0⟩ ↔
      ∀ d < 128, earlyExcess Real.exp ((Launch.cudaEnhanced risingE8m0).visited ⟨0, 0, 0⟩) d = 0 :=
  Launch.output_eq_softmax_iff _ ⟨0, 0, 0⟩ (by decide) Real.exp real_isExp

end Virthub.Kernels
