import Virthub.Lib.OnlineSoftmax
import Mathlib.Algebra.BigOperators.Group.Finset.Basic

/-! The paged attention kernels over exact arithmetic, with `e` for the exponential. An instance of
a kernel serves one query token and one query head of one sequence. Conversions between half and
float are the identity here, and the minus infinity of the running maximum is `⊥`. -/
namespace Virthub.Kernels
open Virthub.Lib

/-- `BLOCK_SIZE`, the number of tokens of a cache block. -/
def blockSize : ℕ := 16

/-- Which instance of a kernel runs. -/
structure BlockIdx where
  tokenIdx : ℕ
  headIdx : ℕ
  seqIdx : ℕ

/-- The arguments that all the kernels have. -/
structure AttentionArgs (K : Type*) where
  q : ℕ → K
  kCache : ℕ → UInt8
  vCache : ℕ → UInt8
  blockTables : ℕ → ℕ
  contextLens : ℕ → ℕ
  maxBlocksPerSeq : ℕ
  numHeads : ℕ
  numKvHeads : ℕ
  headDim : ℕ
  scale : K

/-- The arguments of the Basic format, with a scale and a zero point for each block and head. -/
structure BasicArgs (K : Type*) extends AttentionArgs K where
  kScales : ℕ → K
  kZeroPoints : ℕ → K
  vScales : ℕ → K
  vZeroPoints : ℕ → K

/-- The arguments of the Enhanced and BT-KV formats, with E8M0 scale exponents. -/
structure E8m0Args (K : Type*) extends AttentionArgs K where
  kScalesE8m0 : ℕ → UInt8
  vScalesE8m0 : ℕ → UInt8

namespace AttentionArgs

variable {K : Type*} (args : AttentionArgs K) (i : BlockIdx)

def kvHead : ℕ := i.headIdx / (args.numHeads / args.numKvHeads)

/-- Where the query row of the instance starts, and also its output row. -/
def rowOffset : ℕ := (i.tokenIdx * args.numHeads + i.headIdx) * args.headDim

def numBlocks : ℕ := (args.contextLens i.seqIdx + blockSize - 1) / blockSize

def physicalBlock (blockIdx : ℕ) : ℕ := args.blockTables (i.seqIdx * args.maxBlocksPerSeq + blockIdx)

def tokensInBlock (blockIdx : ℕ) : ℕ :=
  min blockSize (args.contextLens i.seqIdx - blockIdx * blockSize)

/-- The position of the block and the KV head in the arrays of scales. -/
def scaleIdx (blockIdx : ℕ) : ℕ := args.physicalBlock i blockIdx * args.numKvHeads + args.kvHead i

end AttentionArgs

/-- The byte of token `t` and dimension `d` in a block stored token by token. -/
def tokenMajor (dim scaleIdx t d : ℕ) : ℕ := scaleIdx * blockSize * dim + t * dim + d

/-- The byte of token `t` and dimension `d` in a block stored dimension by dimension. -/
def transposed (dim scaleIdx t d : ℕ) : ℕ := scaleIdx * dim * blockSize + t + d * blockSize

variable {K : Type*} [Field K] [LinearOrder K]

/-- Affine dequantisation. -/
def affine (scales zeroPoints : ℕ → K) (cache : ℕ → UInt8) (offset : ℕ → ℕ → ℕ → ℕ)
    (scaleIdx t d : ℕ) : K :=
  scales scaleIdx * ((cache (offset scaleIdx t d)).toNat - zeroPoints scaleIdx)

/-- Symmetric dequantisation by a power of two. -/
def powerOfTwo (exponents : ℕ → UInt8) (cache : ℕ → UInt8) (offset : ℕ → ℕ → ℕ → ℕ)
    (scaleIdx t d : ℕ) : K :=
  2 ^ (exponents scaleIdx).toNat * ((cache (offset scaleIdx t d)).toNat : K)

/-- What the kernels differ in: the head dimension they are compiled for, how they read keys and
values, and how they divide by the sum of the weights. -/
structure Variant (K : Type*) where
  dim : ℕ
  key : ℕ → ℕ → ℕ → K
  value : ℕ → ℕ → ℕ → K
  normalize : K → K → K

/-- The accumulators of a kernel. -/
structure Accum (K : Type*) where
  acc : ℕ → K
  maxScore : WithBot K
  sumExp : K

def Accum.init : Accum K := ⟨fun _ => 0, ⊥, 0⟩

/-- The loop body once the score of a token is known. -/
def Accum.update (e : K → K) (st : Accum K) (x : Scored K ℕ) : Accum K :=
  let newMax := fmax st.maxScore x.score
  let expOld := expDiff e st.maxScore newMax
  let expNew := e (x.score - newMax)
  { sumExp := st.sumExp * expOld + expNew
    maxScore := newMax
    -- the sum is rescaled to the new maximum, the accumulated values are not
    acc := fun d => st.acc d + expNew * x.value d }

namespace Variant

variable (v : Variant K) (args : AttentionArgs K) (i : BlockIdx)

/-- The score and the value of token `t` of a block. -/
def token (blockIdx t : ℕ) : Scored K ℕ where
  score := (∑ d ∈ Finset.range v.dim,
    args.q (args.rowOffset i + d) * v.key (args.scaleIdx i blockIdx) t d) * args.scale
  value := v.value (args.scaleIdx i blockIdx) t

/-- The loops over the blocks and over the tokens of a block. -/
def accumulate (e : K → K) : Accum K :=
  (List.range (args.numBlocks i)).foldl (fun st blockIdx =>
    (List.range (args.tokensInBlock i blockIdx)).foldl (fun st t =>
      st.update e (v.token args i blockIdx t)) st) .init

/-- What an instance stores: positions in the output tensor with their values. -/
def run (e : K → K) : List (ℕ × K) :=
  if args.contextLens i.seqIdx ≤ i.tokenIdx then []
  else (List.range v.dim).map fun d =>
    (args.rowOffset i + d,
      v.normalize ((v.accumulate args i e).acc d) (v.accumulate args i e).sumExp)

end Variant

/-- The Basic format: affine bytes, keys and values both token by token. -/
def basic (dim : ℕ) (normalize : K → K → K) (args : BasicArgs K) : Variant K where
  dim := dim
  key := affine args.kScales args.kZeroPoints args.kCache (tokenMajor dim)
  value := affine args.vScales args.vZeroPoints args.vCache (tokenMajor dim)
  normalize := normalize

/-- The formats with E8M0 scales: keys token by token, values dimension by dimension. -/
def e8m0 (dim : ℕ) (normalize : K → K → K) (args : E8m0Args K) : Variant K where
  dim := dim
  key := powerOfTwo args.kScalesE8m0 args.kCache (tokenMajor dim)
  value := powerOfTwo args.vScalesE8m0 args.vCache (transposed dim)
  normalize := normalize

namespace Cuda

/-- `HEAD_DIM`, which the CUDA kernels use for the cache and for their loops. -/
def headDim : ℕ := 128

def normalize (acc sumExp : K) : K := acc * (1 / sumExp)

def pagedAttentionBasicKernel (e : K → K) (args : BasicArgs K) (i : BlockIdx) : List (ℕ × K) :=
  (basic headDim normalize args).run args.toAttentionArgs i e

def pagedAttentionEnhancedKernel (e : K → K) (args : E8m0Args K) (i : BlockIdx) : List (ℕ × K) :=
  (e8m0 headDim normalize args).run args.toAttentionArgs i e

def pagedAttentionBtkvKernel (e : K → K) (args : E8m0Args K) (i : BlockIdx) : List (ℕ × K) :=
  (e8m0 headDim normalize args).run args.toAttentionArgs i e

end Cuda

namespace Triton

def normalize (acc sumExp : K) : K := acc / sumExp

def pagedAttentionBasicKernel (e : K → K) (args : BasicArgs K) (i : BlockIdx) : List (ℕ × K) :=
  (basic args.headDim normalize args).run args.toAttentionArgs i e

def pagedAttentionEnhancedKernel (e : K → K) (args : E8m0Args K) (i : BlockIdx) : List (ℕ × K) :=
  (e8m0 args.headDim normalize args).run args.toAttentionArgs i e

def pagedAttentionBtkvKernel (e : K → K) (args : E8m0Args K) (i : BlockIdx) : List (ℕ × K) :=
  (e8m0 args.headDim normalize args).run args.toAttentionArgs i e

end Triton

/-- A kernel with its arguments. -/
inductive Launch (K : Type*) where
  | cudaBasic (args : BasicArgs K)
  | cudaEnhanced (args : E8m0Args K)
  | cudaBtkv (args : E8m0Args K)
  | tritonBasic (args : BasicArgs K)
  | tritonEnhanced (args : E8m0Args K)
  | tritonBtkv (args : E8m0Args K)

namespace Launch

def args : Launch K → AttentionArgs K
  | cudaBasic a | tritonBasic a => a.toAttentionArgs
  | cudaEnhanced a | cudaBtkv a | tritonEnhanced a | tritonBtkv a => a.toAttentionArgs

def variant : Launch K → Variant K
  | cudaBasic a => basic Cuda.headDim Cuda.normalize a
  | cudaEnhanced a | cudaBtkv a => e8m0 Cuda.headDim Cuda.normalize a
  | tritonBasic a => basic a.headDim Triton.normalize a
  | tritonEnhanced a | tritonBtkv a => e8m0 a.headDim Triton.normalize a

def output (e : K → K) (i : BlockIdx) : Launch K → List (ℕ × K)
  | cudaBasic a => Cuda.pagedAttentionBasicKernel e a i
  | cudaEnhanced a => Cuda.pagedAttentionEnhancedKernel e a i
  | cudaBtkv a => Cuda.pagedAttentionBtkvKernel e a i
  | tritonBasic a => Triton.pagedAttentionBasicKernel e a i
  | tritonEnhanced a => Triton.pagedAttentionEnhancedKernel e a i
  | tritonBtkv a => Triton.pagedAttentionBtkvKernel e a i

end Launch

end Virthub.Kernels
