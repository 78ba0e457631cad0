import Mathlib.Logic.Equiv.Basic
import Virthub.Kernels.Addressing

/-! What the paged attention kernels do not depend on: bytes, scales and table entries outside the context
of an instance, where in the cache the blocks of the context lie, and whether query heads share the KV
heads. All this is for launches whose indices do not overflow, with contexts and caches within the bounds of
`IndexWidth` and a query tensor of at most `2 ^ 31` elements. -/
namespace Virthub.Kernels
open Virthub.Lib

variable {K : Type*} [Field K]

/-- What is stored for a block and a KV head besides the bytes. -/
inductive HeadParams (K : Type*) where
  | affine (kScale kZeroPoint vScale vZeroPoint : K)
  | exponents (k v : UInt8)
  deriving DecidableEq

namespace HeadParams

def key : HeadParams K → UInt8 → K
  | affine scale zeroPoint _ _, byte => scale * (byte.toNat - zeroPoint)
  | exponents k _, byte => ((2 : ℕ) : K) ^ k.toNat * (byte.toNat : K)

def value : HeadParams K → UInt8 → K
  | affine _ _ scale zeroPoint, byte => scale * (byte.toNat - zeroPoint)
  | exponents _ v, byte => ((2 : ℕ) : K) ^ v.toNat * (byte.toNat : K)

end HeadParams

namespace Kernel

def dim (headDim : ℕ) : Kernel → ℕ
  | cudaBasic | cudaEnhanced | cudaBtkv => Cuda.headDim
  | tritonBasic | tritonEnhanced | tritonBtkv => headDim

def normalize : Kernel → K → K → K
  | cudaBasic | cudaEnhanced | cudaBtkv => Cuda.normalize
  | tritonBasic | tritonEnhanced | tritonBtkv => Triton.normalize

end Kernel

namespace Launch

def params : Launch K → ℕ → HeadParams K
  | cudaBasic a | tritonBasic a =>
    fun s => .affine (a.kScales s) (a.kZeroPoints s) (a.vScales s) (a.vZeroPoints s)
  | cudaEnhanced a | cudaBtkv a | tritonEnhanced a | tritonBtkv a => fun s =>
    .exponents (a.kScalesE8m0 s) (a.vScalesE8m0 s)

theorem variant_dim (l : Launch K) : l.variant.dim = l.kernel.dim l.args.headDim := by
  cases l <;> rfl

theorem variant_normalize (l : Launch K) : l.variant.normalize = l.kernel.normalize := by
  cases l <;> rfl

theorem variant_key (l : Launch K) (scaleIdx t d : ℕ) :
    l.variant.key scaleIdx t d =
      (l.params scaleIdx).key (l.args.kCache (tokenMajor l.variant.dim scaleIdx t d)) := by
  cases l <;> rfl

theorem variant_value (l : Launch K) (scaleIdx t d : ℕ) :
    l.variant.value scaleIdx t d =
      (l.params scaleIdx).value (l.args.vCache (l.kernel.valueLayout l.variant.dim scaleIdx t d)) := by
  cases l <;> rfl

/-- Two launches of a kernel that are the same to the instance: they may differ in every byte, scale and
table entry that does not belong to its context, and in the blocks where the context lies. -/
structure SameContext (l l' : Launch K) (i : BlockIdx) : Prop where
  kernel : l'.kernel = l.kernel
  numHeads : l'.args.numHeads = l.args.numHeads
  headDim : l'.args.headDim = l.args.headDim
  scale : l'.args.scale = l.args.scale
  contextLen : l'.args.contextLens i.seqIdx = l.args.contextLens i.seqIdx
  query : ∀ d < l.variant.dim, l'.args.q (l.args.rowOffset i + d) = l.args.q (l.args.rowOffset i + d)
  params : ∀ b < l.args.numBlocks i, l'.params (l'.args.scaleIdx i b) = l.params (l.args.scaleIdx i b)
  key : ∀ b < l.args.numBlocks i, ∀ t < l.args.tokensInBlock i b, ∀ d < l.variant.dim,
    l'.args.kCache (tokenMajor l.variant.dim (l'.args.scaleIdx i b) t d) =
      l.args.kCache (tokenMajor l.variant.dim (l.args.scaleIdx i b) t d)
  value : ∀ b < l.args.numBlocks i, ∀ t < l.args.tokensInBlock i b, ∀ d < l.variant.dim,
    l'.args.vCache (l.kernel.valueLayout l.variant.dim (l'.args.scaleIdx i b) t d) =
      l.args.vCache (l.kernel.valueLayout l.variant.dim (l.args.scaleIdx i b) t d)

end Launch

/-- Tokens that are the same in the dimensions of a head. -/
structure SameToken (dim : ℕ) (x x' : Scored K ℕ) : Prop where
  score : x'.score = x.score
  value : ∀ d < dim, x'.value d = x.value d

namespace Launch.SameContext

variable {l l' : Launch K} {i : BlockIdx} (h : SameContext l l' i)
include h

theorem dim : l'.variant.dim = l.variant.dim := by
  rw [variant_dim, variant_dim, h.kernel, h.headDim]

theorem rowOffset : l'.args.rowOffset i = l.args.rowOffset i := by
  rw [AttentionArgs.rowOffset, AttentionArgs.rowOffset, h.numHeads, h.headDim]

theorem token {b t : ℕ} (hb : b < l.args.numBlocks i) (ht : t < l.args.tokensInBlock i b) :
    SameToken l.variant.dim (l.variant.token l.args i b t) (l'.variant.token l'.args i b t) := by
  constructor
  · dsimp only [Variant.token]
    rw [h.scale, h.dim, h.rowOffset]
    congr 1
    apply Finset.sum_congr rfl
    intro d hd
    have hlt := Finset.mem_range.mp hd
    rw [variant_key, variant_key, h.dim, h.query d hlt, h.params b hb, h.key b hb t ht d hlt]
  · intro d hd
    dsimp only [Variant.token]
    rw [variant_value, variant_value, h.dim, h.kernel, h.params b hb, h.value b hb t ht d hd]

end Launch.SameContext

variable [LinearOrder K]

/-- Accumulators that are the same in the dimensions of a head. -/
structure SameAccum (dim : ℕ) (st st' : Accum K) : Prop where
  acc : ∀ d < dim, st'.acc d = st.acc d
  maxScore : st'.maxScore = st.maxScore
  sumExp : st'.sumExp = st.sumExp

theorem SameAccum.update {dim : ℕ} {st st' : Accum K} {x x' : Scored K ℕ} (h : SameAccum dim st st')
    (hx : SameToken dim x x') (e : K → K) : SameAccum dim (st.update e x) (st'.update e x') := by
  constructor
  · intro d hd
    dsimp only [Accum.update]
    rw [h.acc d hd, h.maxScore, hx.score, hx.value d hd]
  · dsimp only [Accum.update]
    rw [h.maxScore, hx.score]
  · dsimp only [Accum.update]
    rw [h.maxScore, h.sumExp, hx.score]

section Variants

variable {v v' : Variant K} {args args' : AttentionArgs K} {i : BlockIdx} {dim : ℕ}

/-- Two runs over contexts of one length whose tokens are the same. -/
theorem sameAccum_accumulate (hlen : args'.contextLens i.seqIdx = args.contextLens i.seqIdx)
    (htoken : ∀ b < args.numBlocks i, ∀ t < args.tokensInBlock i b,
      SameToken dim (v.token args i b t) (v'.token args' i b t)) (e : K → K) :
    SameAccum dim (v.accumulate args i e) (v'.accumulate args' i e) := by
  have hblocks : args'.numBlocks i = args.numBlocks i := by
    rw [AttentionArgs.numBlocks, AttentionArgs.numBlocks, hlen]
  have htokens : ∀ b, args'.tokensInBlock i b = args.tokensInBlock i b := by
    intro b
    rw [AttentionArgs.tokensInBlock, AttentionArgs.tokensInBlock, hlen]
  rw [Variant.accumulate, Variant.accumulate, hblocks]
  simp only [htokens]
  -- the accumulators stay the same over the blocks, and within a block over its tokens
  apply List.foldl_rel
  · exact ⟨fun _ _ => rfl, rfl, rfl⟩
  · intro b hb st st' hst
    apply List.foldl_rel
    · exact hst
    · intro t ht st st' hst
      exact hst.update (htoken b (List.mem_range.mp hb) t (List.mem_range.mp ht)) e

theorem run_eq_of_sameToken (hdim : v'.dim = v.dim) (hnormalize : v'.normalize = v.normalize)
    (hlen : args'.contextLens i.seqIdx = args.contextLens i.seqIdx)
    (hrow : args'.rowOffset i = args.rowOffset i)
    (htoken : ∀ b < args.numBlocks i, ∀ t < args.tokensInBlock i b,
      SameToken v.dim (v.token args i b t) (v'.token args' i b t)) (e : K → K) :
    v'.run args' i e = v.run args i e := by
  have haccum := sameAccum_accumulate hlen htoken e
  rw [Variant.run, Variant.run, hlen, hdim, hrow]
  congr 1
  apply List.map_congr_left
  intro d hd
  rw [haccum.acc d (List.mem_range.mp hd), haccum.sumExp, hnormalize]

end Variants

namespace Launch

theorem SameContext.run_eq {l l' : Launch K} {i : BlockIdx} (h : SameContext l l' i) (e : K → K) :
    l'.variant.run l'.args i e = l.variant.run l.args i e := by
  apply run_eq_of_sameToken h.dim _ h.contextLen h.rowOffset
  · intro b hb t ht
    exact h.token hb ht
  · rw [variant_normalize, variant_normalize, h.kernel]

/-- What an instance stores depends on its query and on its context, and on nothing else in the arguments,
if no index of either launch overflows. -/
theorem output_eq_of_sameContext {l l' : Launch K} {i : BlockIdx} (h : SameContext l l' i) (e : K → K) :
    l'.output e i = l.output e i := by
  rw [output_eq_run, output_eq_run]
  exact h.run_eq e

end Launch

/-- One token in block `p`, and `junk` everywhere else. -/
private def oneTokenArgs (p : ℕ) (junk : UInt8) : E8m0Args ℚ where
  q _ := 1
  kCache n := if n / 32 = p then UInt8.ofNat (n % 32) else junk
  vCache n := if n / 32 = p then UInt8.ofNat (n % 32) else junk
  blockTables n := if n = 0 then p else junk.toNat
  contextLens s := if s = 0 then 1 else junk.toNat
  maxBlocksPerSeq := 1
  numHeads := 1
  numKvHeads := 1
  headDim := 2
  scale := 1
  kScalesE8m0 s := if s = p then 3 else junk
  vScalesE8m0 s := if s = p then 4 else junk

theorem Launch.output_eq_of_sameContext_junk :
    let l : Launch ℚ := .tritonEnhanced (oneTokenArgs 3 7)
    let l' : Launch ℚ := .tritonEnhanced (oneTokenArgs 5 200)
    SameContext l l' ⟨0, 0, 0⟩ ∧ l'.output (fun _ => 1) ⟨0, 0, 0⟩ = l.output (fun _ => 1) ⟨0, 0, 0⟩ := by
  intro l l'
  have hsame : SameContext l l' ⟨0, 0, 0⟩ :=
    { kernel := rfl, numHeads := rfl, headDim := rfl, scale := rfl, contextLen := rfl, query := fun _ _ => rfl
      params := by decide
      key := by decide
      value := by decide }
  exact ⟨hsame, output_eq_of_sameContext hsame _⟩

/-- A table of rows of `size` entries, where row `r` is row `f r` of another table. -/
def gatherRows {α : Type*} (f : ℕ → ℕ) (size : ℕ) (table : ℕ → α) : ℕ → α := fun n =>
  table (f (n / size) * size + n % size)

theorem gatherRows_apply {α : Type*} (f : ℕ → ℕ) {size c : ℕ} (hc : c < size) (table : ℕ → α) (r : ℕ) :
    gatherRows f size table (r * size + c) = table (f r * size + c) := by
  rw [gatherRows, rowMajor_div hc, rowMajor_mod hc]

/-- A byte of a row, by row and by its place in the row. -/
theorem exists_column_tokenMajor {dim t d : ℕ} (ht : t < blockSize) (hd : d < dim) :
    ∃ c < blockSize * dim, ∀ row, tokenMajor dim row t d = row * (blockSize * dim) + c := by
  refine ⟨t * dim + d, rowMajor_lt ht hd, ?_⟩
  intro row
  unfold tokenMajor
  ring

theorem exists_column_transposed {dim t d : ℕ} (ht : t < blockSize) (hd : d < dim) :
    ∃ c < blockSize * dim, ∀ row, transposed dim row t d = row * (blockSize * dim) + c := by
  refine ⟨d * blockSize + t, ?_, ?_⟩
  · rw [mul_comm blockSize]
    exact rowMajor_lt hd ht
  · intro row
    unfold transposed
    ring

theorem exists_column_valueLayout (kernel : Kernel) {dim t d : ℕ} (ht : t < blockSize) (hd : d < dim) :
    ∃ c < blockSize * dim, ∀ row, kernel.valueLayout dim row t d = row * (blockSize * dim) + c := by
  cases kernel with
  | cudaBasic | tritonBasic => exact exists_column_tokenMajor ht hd
  | cudaEnhanced | cudaBtkv | tritonEnhanced | tritonBtkv => exact exists_column_transposed ht hd

section Relocation

/-- A table of rows of `size` entries, with row `r` moved to `π r`. -/
def moveRows {α : Type*} (π : Equiv.Perm ℕ) (size : ℕ) (table : ℕ → α) : ℕ → α :=
  gatherRows π.symm size table

theorem moveRows_apply {α : Type*} (π : Equiv.Perm ℕ) {size c : ℕ} (hc : c < size) (table : ℕ → α) (r : ℕ) :
    moveRows π size table (π r * size + c) = table (r * size + c) := by
  rw [moveRows, gatherRows_apply _ hc, Equiv.symm_apply_apply]

variable {K : Type*}

/-- The caches and the block tables with block `p` moved to `π p`. -/
def AttentionArgs.relocate (π : Equiv.Perm ℕ) (dim : ℕ) (args : AttentionArgs K) : AttentionArgs K :=
  { args with
    kCache := moveRows π (args.numKvHeads * blockSize * dim) args.kCache
    vCache := moveRows π (args.numKvHeads * blockSize * dim) args.vCache
    blockTables := fun n => π (args.blockTables n) }

def BasicArgs.relocate (π : Equiv.Perm ℕ) (dim : ℕ) (args : BasicArgs K) : BasicArgs K where
  toAttentionArgs := args.toAttentionArgs.relocate π dim
  kScales := moveRows π args.numKvHeads args.kScales
  kZeroPoints := moveRows π args.numKvHeads args.kZeroPoints
  vScales := moveRows π args.numKvHeads args.vScales
  vZeroPoints := moveRows π args.numKvHeads args.vZeroPoints

def E8m0Args.relocate (π : Equiv.Perm ℕ) (dim : ℕ) (args : E8m0Args K) : E8m0Args K where
  toAttentionArgs := args.toAttentionArgs.relocate π dim
  kScalesE8m0 := moveRows π args.numKvHeads args.kScalesE8m0
  vScalesE8m0 := moveRows π args.numKvHeads args.vScalesE8m0

namespace Launch

/-- The launch after the blocks of the cache have been moved. -/
def relocate (π : Equiv.Perm ℕ) : Launch K → Launch K
  | cudaBasic a => cudaBasic (a.relocate π Cuda.headDim)
  | cudaEnhanced a => cudaEnhanced (a.relocate π Cuda.headDim)
  | cudaBtkv a => cudaBtkv (a.relocate π Cuda.headDim)
  | tritonBasic a => tritonBasic (a.relocate π a.headDim)
  | tritonEnhanced a => tritonEnhanced (a.relocate π a.headDim)
  | tritonBtkv a => tritonBtkv (a.relocate π a.headDim)

theorem kernel_relocate (π : Equiv.Perm ℕ) (l : Launch K) : (l.relocate π).kernel = l.kernel := by
  cases l <;> rfl

theorem params_relocate (π : Equiv.Perm ℕ) (l : Launch K) :
    (l.relocate π).params = moveRows π l.args.numKvHeads l.params := by
  cases l <;> rfl

variable [Field K]

theorem args_relocate (π : Equiv.Perm ℕ) (l : Launch K) :
    (l.relocate π).args = l.args.relocate π l.variant.dim := by
  cases l <;> rfl

theorem scaleIdx_relocate (π : Equiv.Perm ℕ) (l : Launch K) (i : BlockIdx) (b : ℕ) :
    (l.relocate π).args.scaleIdx i b =
      π (l.args.physicalBlock i b) * l.args.numKvHeads + l.args.kvHead i := by
  rw [args_relocate]
  rfl

end Launch

/-- A byte of a block, by block and by its place in the block. -/
theorem exists_place_of_column {layout : ℕ → ℕ} {numKvHeads dim head : ℕ} (hhead : head < numKvHeads)
    (hcolumn : ∃ c < blockSize * dim, ∀ row, layout row = row * (blockSize * dim) + c) :
    ∃ c < numKvHeads * blockSize * dim, ∀ p,
      layout (p * numKvHeads + head) = p * (numKvHeads * blockSize * dim) + c := by
  obtain ⟨c, hc, hlayout⟩ := hcolumn
  refine ⟨head * (blockSize * dim) + c, ?_, ?_⟩
  · rw [mul_assoc]
    exact rowMajor_lt hhead hc
  · intro p
    rw [hlayout]
    ring

namespace Launch

variable [Field K]

theorem sameContext_relocate (l : Launch K) {i : BlockIdx} (hhead : l.args.kvHead i < l.args.numKvHeads)
    (π : Equiv.Perm ℕ) : SameContext l (l.relocate π) i := by
  have hslot : ∀ {b t : ℕ}, t < l.args.tokensInBlock i b → t < blockSize :=
    fun ht => ht.trans_le (min_le_left _ _)
  constructor
  case kernel => exact kernel_relocate π l
  case numHeads | headDim | scale | contextLen => rw [args_relocate]; rfl
  case query =>
    intro d _
    rw [args_relocate]
    rfl
  case params =>
    intro b _
    rw [params_relocate, scaleIdx_relocate, moveRows_apply π hhead]
    rfl
  case key =>
    intro b _ t ht d hd
    obtain ⟨c, hc, hplace⟩ := exists_place_of_column hhead (exists_column_tokenMajor (hslot ht) hd)
    rw [scaleIdx_relocate, AttentionArgs.scaleIdx, hplace, hplace, args_relocate]
    exact moveRows_apply π hc l.args.kCache _
  case value =>
    intro b _ t ht d hd
    obtain ⟨c, hc, hplace⟩ := exists_place_of_column hhead (exists_column_valueLayout l.kernel (hslot ht) hd)
    rw [scaleIdx_relocate, AttentionArgs.scaleIdx, hplace, hplace, args_relocate]
    exact moveRows_apply π hc l.args.vCache _

/-- Blocks may be moved about in the cache: with the tables, the scales and the bytes moved along, every
kernel stores what it stored before, if the cache is within reach of the offsets with the blocks in either
place. -/
theorem output_relocate [LinearOrder K] (l : Launch K) (i : BlockIdx) (hkv : 1 ≤ l.args.numKvHeads)
    (hdvd : l.args.numKvHeads ∣ l.args.numHeads) (hhead : i.headIdx < l.args.numHeads) (π : Equiv.Perm ℕ)
    (e : K → K) :
    (l.relocate π).output e i = l.output e i := by
  rw [output_eq_run, output_eq_run]
  exact (l.sameContext_relocate (l.args.kvHead_lt i hkv hdvd hhead) π).run_eq e

end Launch

theorem Launch.output_relocate_swap :
    let l : Launch ℚ := .tritonEnhanced (oneTokenArgs 3 7)
    (1 ≤ l.args.numKvHeads ∧ l.args.numKvHeads ∣ l.args.numHeads ∧ 0 < l.args.numHeads) ∧
      (l.relocate (Equiv.swap 3 5)).output (fun _ => 1) ⟨0, 0, 0⟩ = l.output (fun _ => 1) ⟨0, 0, 0⟩ := by
  intro l
  have hdvd : l.args.numKvHeads ∣ l.args.numHeads := dvd_rfl
  exact ⟨⟨le_rfl, hdvd, Nat.one_pos⟩, l.output_relocate ⟨0, 0, 0⟩ le_rfl hdvd Nat.one_pos (Equiv.swap 3 5) _⟩

end Relocation

section Grouping

variable {K : Type*}

/-- The row of the KV head that the query head of row `r` uses, with a row for every block and head. -/
def AttentionArgs.sharedRow (args : AttentionArgs K) (r : ℕ) : ℕ :=
  r / args.numHeads * args.numKvHeads + r % args.numHeads / (args.numHeads / args.numKvHeads)

/-- A cache in which every query head has a KV head of its own: the KV heads of the cache, each of them once
for every query head that uses it. -/
def AttentionArgs.expandHeads (dim : ℕ) (args : AttentionArgs K) : AttentionArgs K :=
  { args with
    kCache := gatherRows args.sharedRow (blockSize * dim) args.kCache
    vCache := gatherRows args.sharedRow (blockSize * dim) args.vCache
    numKvHeads := args.numHeads }

def BasicArgs.expandHeads (dim : ℕ) (args : BasicArgs K) : BasicArgs K where
  toAttentionArgs := args.toAttentionArgs.expandHeads dim
  kScales := args.kScales ∘ args.sharedRow
  kZeroPoints := args.kZeroPoints ∘ args.sharedRow
  vScales := args.vScales ∘ args.sharedRow
  vZeroPoints := args.vZeroPoints ∘ args.sharedRow

def E8m0Args.expandHeads (dim : ℕ) (args : E8m0Args K) : E8m0Args K where
  toAttentionArgs := args.toAttentionArgs.expandHeads dim
  kScalesE8m0 := args.kScalesE8m0 ∘ args.sharedRow
  vScalesE8m0 := args.vScalesE8m0 ∘ args.sharedRow

namespace Launch

/-- The launch without groups: there are as many KV heads as query heads. -/
def expandHeads : Launch K → Launch K
  | cudaBasic a => cudaBasic (a.expandHeads Cuda.headDim)
  | cudaEnhanced a => cudaEnhanced (a.expandHeads Cuda.headDim)
  | cudaBtkv a => cudaBtkv (a.expandHeads Cuda.headDim)
  | tritonBasic a => tritonBasic (a.expandHeads a.headDim)
  | tritonEnhanced a => tritonEnhanced (a.expandHeads a.headDim)
  | tritonBtkv a => tritonBtkv (a.expandHeads a.headDim)

theorem kernel_expandHeads (l : Launch K) : l.expandHeads.kernel = l.kernel := by
  cases l <;> rfl

theorem params_expandHeads (l : Launch K) : l.expandHeads.params = l.params ∘ l.args.sharedRow := by
  cases l <;> rfl

variable [Field K]

theorem args_expandHeads (l : Launch K) : l.expandHeads.args = l.args.expandHeads l.variant.dim := by
  cases l <;> rfl

/-- Without groups the KV head is the query head, whose row is that of the KV head before. -/
theorem sharedRow_scaleIdx (l : Launch K) {i : BlockIdx} (hhead : i.headIdx < l.args.numHeads) (b : ℕ) :
    l.args.sharedRow (l.expandHeads.args.scaleIdx i b) = l.args.scaleIdx i b := by
  have hpos : 0 < l.args.numHeads := Nat.zero_lt_of_lt hhead
  have hrow : l.expandHeads.args.scaleIdx i b = l.args.physicalBlock i b * l.args.numHeads + i.headIdx := by
    rw [args_expandHeads, AttentionArgs.scaleIdx, AttentionArgs.kvHead]
    dsimp only [AttentionArgs.expandHeads]
    rw [Nat.div_self hpos, Nat.div_one]
    rfl
  rw [hrow, AttentionArgs.sharedRow, rowMajor_div hhead, rowMajor_mod hhead]
  rfl

end Launch

namespace Launch

variable [Field K]

theorem sameContext_expandHeads (l : Launch K) {i : BlockIdx} (hhead : i.headIdx < l.args.numHeads) :
    SameContext l l.expandHeads i := by
  have hslot : ∀ {b t : ℕ}, t < l.args.tokensInBlock i b → t < blockSize :=
    fun ht => ht.trans_le (min_le_left _ _)
  constructor
  case kernel => exact kernel_expandHeads l
  case numHeads | headDim | scale | contextLen => rw [args_expandHeads]; rfl
  case query =>
    intro d _
    rw [args_expandHeads]
    rfl
  case params =>
    intro b _
    rw [params_expandHeads, Function.comp_apply, sharedRow_scaleIdx l hhead]
  case key =>
    intro b _ t ht d hd
    obtain ⟨c, hc, hplace⟩ := exists_column_tokenMajor (hslot ht) hd
    rw [hplace, hplace, ← sharedRow_scaleIdx l hhead, args_expandHeads]
    exact gatherRows_apply _ hc l.args.kCache _
  case value =>
    intro b _ t ht d hd
    obtain ⟨c, hc, hplace⟩ := exists_column_valueLayout l.kernel (hslot ht) hd
    rw [hplace, hplace, ← sharedRow_scaleIdx l hhead, args_expandHeads]
    exact gatherRows_apply _ hc l.args.vCache _

/-- Grouped query attention is attention with one KV head for every query head, over the cache with its KV
heads repeated, if the larger one of the two caches is within reach of the offsets. -/
theorem output_expandHeads [LinearOrder K] (l : Launch K) (i : BlockIdx) (hhead : i.headIdx < l.args.numHeads)
    (e : K → K) : l.expandHeads.output e i = l.output e i := by
  rw [output_eq_run, output_eq_run]
  exact (l.sameContext_expandHeads hhead).run_eq e

end Launch

theorem Launch.output_expandHeads_pair :
    let l : Launch ℚ := .tritonEnhanced { oneTokenArgs 3 7 with numHeads := 2 }
    (1 < l.args.numHeads ∧ l.args.numKvHeads = 1) ∧
      l.expandHeads.output (fun _ => 1) ⟨0, 1, 0⟩ = l.output (fun _ => 1) ⟨0, 1, 0⟩ := by
  intro l
  exact ⟨⟨Nat.one_lt_two, rfl⟩, l.output_expandHeads ⟨0, 1, 0⟩ Nat.one_lt_two _⟩

end Grouping

end Virthub.Kernels
