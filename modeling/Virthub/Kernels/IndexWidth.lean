import Virthub.Kernels.Addressing

/-! The indices of the paged attention kernels in the integers that they are computed with. Counts,
positions and entries of the block table are `int`s; signed overflow, which CUDA leaves undefined, wraps
here as on the hardware. The offset of a block in a cache is a `size_t` in the CUDA kernels and an `int` in
the Triton kernels. -/
namespace Virthub.Kernels
open Virthub.Lib

/-- One round of the inner loop, with the entry of the block table that it has loaded. -/
structure IntVisit where
  position : Int32
  entry : Int32
  slot : Int32
  deriving DecidableEq

namespace AttentionArgs

variable {K : Type*} (args : AttentionArgs K) (i : BlockIdx)

def contextLen : Int32 := Int32.ofNat (args.contextLens i.seqIdx)

def intNumBlocks : Int32 := (args.contextLen i + 16 - 1) / 16

def intTokensInBlock (blockIdx : Int32) : Int32 :=
  let startToken := blockIdx * 16
  if args.contextLen i - startToken < 16 then args.contextLen i - startToken else 16

def intVisits : List IntVisit :=
  (List.range (args.intNumBlocks i).toInt.toNat).flatMap fun block =>
    let blockIdx := Int32.ofNat block
    (List.range (args.intTokensInBlock i blockIdx).toInt.toNat).map fun token =>
      let t := Int32.ofNat token
      ⟨blockIdx * 16 + t, Int32.ofNat i.seqIdx * Int32.ofNat args.maxBlocksPerSeq + blockIdx, t⟩

/-- The position, the physical block and the slot of a round. -/
def visitAt (v : IntVisit) : Visit :=
  ⟨v.position.toInt.toNat, args.blockTables v.entry.toInt.toNat, v.slot.toInt.toNat⟩

theorem toInt_intNumBlocks :
    (args.intNumBlocks i).toInt =
      ((Int32.ofNat (args.contextLens i.seqIdx + 15)).toInt.tdiv 16).bmod (2 ^ 32) := by
  have hsum : args.contextLen i + 16 - 1 = Int32.ofNat (args.contextLens i.seqIdx + 16 - 1) := by
    rw [Int32.ofNat_sub _ _ (by omega), Int32.ofNat_add]
    rfl
  rw [intNumBlocks, hsum, Int32.toInt_div]
  rfl

theorem toInt_intNumBlocks_of_lt (h : args.contextLens i.seqIdx + 15 < 2 ^ 31) :
    (args.intNumBlocks i).toInt = args.numBlocks i := by
  have hquot : ((args.contextLens i.seqIdx + 15 : ℕ) : ℤ) / 16 = args.numBlocks i := by
    unfold numBlocks blockSize
    omega
  rw [toInt_intNumBlocks, Int32.toInt_ofNat_of_lt h, Int.tdiv_eq_ediv_of_nonneg (by omega), hquot,
    Int.bmod_eq_of_le]
  · omega
  · omega

/-- Above the limit the sum wraps, and there is no block. -/
theorem toInt_intNumBlocks_of_le (h : 2 ^ 31 ≤ args.contextLens i.seqIdx + 15)
    (hint : args.contextLens i.seqIdx < 2 ^ 31) : (args.intNumBlocks i).toInt ≤ 0 := by
  have hsum : (Int32.ofNat (args.contextLens i.seqIdx + 15)).toInt =
      -(2 ^ 32 - 15 - args.contextLens i.seqIdx) := by
    rw [Int32.toInt_ofNat', Int.bmod_def]
    unfold Int32.size
    split_ifs with hlt
    · omega
    · omega
  rw [toInt_intNumBlocks, hsum, Int.neg_tdiv, Int.tdiv_eq_ediv_of_nonneg (by omega),
    Int.bmod_eq_of_le (by omega) (by omega)]
  omega

theorem toInt_intTokensInBlock {blockIdx : ℕ} (hle : blockIdx * blockSize ≤ args.contextLens i.seqIdx)
    (hint : args.contextLens i.seqIdx < 2 ^ 31) :
    (args.intTokensInBlock i (Int32.ofNat blockIdx)).toInt = args.tokensInBlock i blockIdx := by
  have hrest : args.contextLen i - Int32.ofNat blockIdx * 16 =
      Int32.ofNat (args.contextLens i.seqIdx - blockIdx * blockSize) := by
    rw [Int32.ofNat_sub _ _ hle, Int32.ofNat_mul]
    rfl
  have htoInt : (Int32.ofNat (args.contextLens i.seqIdx - blockIdx * blockSize)).toInt =
      (args.contextLens i.seqIdx - blockIdx * blockSize : ℕ) := Int32.toInt_ofNat_of_lt (by omega)
  have hsixteen : (16 : Int32).toInt = 16 := rfl
  unfold intTokensInBlock tokensInBlock
  dsimp only
  rw [hrest]
  split_ifs with hlt
  · rw [Int32.lt_iff_toInt_lt, htoInt, hsixteen] at hlt
    rw [htoInt]
    unfold blockSize at *
    omega
  · rw [Int32.lt_iff_toInt_lt, htoInt, hsixteen] at hlt
    rw [hsixteen]
    unfold blockSize at *
    omega

theorem intVisits_eq (h : args.contextLens i.seqIdx + 15 < 2 ^ 31) :
    args.intVisits i = (List.range (args.contextLens i.seqIdx)).map fun p =>
      ⟨Int32.ofNat p, Int32.ofNat (i.seqIdx * args.maxBlocksPerSeq + p / 16), Int32.ofNat (p % 16)⟩ := by
  have hsize : 0 < blockSize := by decide
  rw [← flatMap_rows_eq_range hsize, List.map_flatMap, intVisits, toInt_intNumBlocks_of_lt args i h,
    Int.toNat_natCast]
  unfold numBlocks
  refine List.flatMap_congr fun blockIdx hblock => ?_
  have hle : blockIdx * blockSize ≤ args.contextLens i.seqIdx := by
    have hlt := List.mem_range.mp hblock
    unfold blockSize at *
    omega
  dsimp only
  rw [toInt_intTokensInBlock args i hle (by omega), Int.toNat_natCast, List.map_map]
  refine List.map_congr_left fun t ht => ?_
  have hslot : t < blockSize := (List.mem_range.mp ht).trans_le (min_le_left _ _)
  have hdiv : (blockIdx * blockSize + t) / 16 = blockIdx := rowMajor_div hslot
  have hmod : (blockIdx * blockSize + t) % 16 = t := rowMajor_mod hslot
  dsimp only [Function.comp]
  rw [hdiv, hmod, Int32.ofNat_add, Int32.ofNat_add, Int32.ofNat_mul, Int32.ofNat_mul]
  rfl

/-- If the row of the block table is within reach, the rounds are those over exact numbers. -/
theorem map_visitAt_intVisits (h : args.contextLens i.seqIdx + 15 < 2 ^ 31)
    (hrow : i.seqIdx * args.maxBlocksPerSeq + (args.contextLens i.seqIdx - 1) / 16 < 2 ^ 31) :
    (args.intVisits i).map args.visitAt = args.visits i := by
  rw [intVisits_eq args i h, args.visits_eq i, List.map_map]
  refine List.map_congr_left fun p hp => ?_
  have hlt := List.mem_range.mp hp
  dsimp only [Function.comp, visitAt, visitOf]
  rw [Int32.toInt_ofNat_of_lt (by omega), Int32.toInt_ofNat_of_lt (by omega),
    Int32.toInt_ofNat_of_lt (by omega)]
  rfl

end AttentionArgs

section Bytes

def cacheBytes (numBlocks numKvHeads dim : ℕ) : Set CacheIndex :=
  {x | x.Valid numKvHeads dim ∧ x.physicalBlock < numBlocks}

/-- What a kernel loads from a cache of `numBlocks` blocks lies within the cache, at a place of its own for
each block, head, slot and dimension. -/
structure LoadsWithin {K : Type*} (read : ℕ → ℕ → ℕ → K) (cache : ℕ → UInt8) (numBlocks numKvHeads dim : ℕ)
    (byte : CacheIndex → ℤ) : Prop where
  reads : ReadsAt read cache numKvHeads (cacheBytes numBlocks numKvHeads dim) fun x => (byte x).toNat
  apart : Set.InjOn byte (cacheBytes numBlocks numKvHeads dim)
  inside : ∀ x ∈ cacheBytes numBlocks numKvHeads dim,
    0 ≤ byte x ∧ byte x < (numBlocks * numKvHeads * 16 * dim : ℕ)

theorem Addresses.loadsWithin {K : Type*} {read : ℕ → ℕ → ℕ → K} {cache : ℕ → UInt8}
    {numBlocks numKvHeads dim : ℕ} {layout : ℕ → ℕ → ℕ → ℕ → ℕ} {byte : CacheIndex → ℤ}
    (h : Addresses layout numKvHeads dim)
    (hreads : ReadsAt read cache numKvHeads (cacheBytes numBlocks numKvHeads dim)
      (CacheIndex.offset layout numKvHeads dim))
    (hbyte : ∀ x ∈ cacheBytes numBlocks numKvHeads dim, byte x = x.offset layout numKvHeads dim) :
    LoadsWithin read cache numBlocks numKvHeads dim byte where
  reads := hreads.congr fun x hx => by rw [hbyte x hx, Int.toNat_natCast]
  apart := by
    intro x hx y hy heq
    rw [hbyte x hx, hbyte y hy] at heq
    exact h.injOn hx.1 hy.1 (Int.natCast_inj.mp heq)
  inside := by
    intro x hx
    have hlt := h.lt hx.1 hx.2
    rw [hbyte x hx]
    omega

inductive Language where
  | cuda
  | triton
  deriving DecidableEq, Repr

namespace Language

/-- The offset of the head of a block, with `rows` rows of `columns` bytes for each head: a `size_t` in CUDA
and an `int` in Triton. -/
def blockStart (numKvHeads : ℕ) (x : CacheIndex) (rows columns : ℕ) : Language → ℤ
  | cuda =>
    ((UInt64.ofNat x.physicalBlock * UInt64.ofNat numKvHeads + UInt64.ofNat x.kvHead) * UInt64.ofNat rows *
      UInt64.ofNat columns).toNat
  | triton =>
    ((Int32.ofNat x.physicalBlock * Int32.ofNat numKvHeads + Int32.ofNat x.kvHead) * Int32.ofNat rows *
      Int32.ofNat columns).toInt

/-- The most bytes of a cache that the offsets of the blocks can reach. -/
def reach : Language → ℕ
  | cuda => 2 ^ 64
  | triton => 2 ^ 31

variable {numKvHeads : ℕ} {x : CacheIndex} {rows columns : ℕ}

theorem blockStart_cuda : cuda.blockStart numKvHeads x rows columns =
    ((x.physicalBlock * numKvHeads + x.kvHead) * rows * columns % 2 ^ 64 : ℕ) := by
  unfold blockStart
  rw [← UInt64.ofNat_mul, ← UInt64.ofNat_add, ← UInt64.ofNat_mul, ← UInt64.ofNat_mul, UInt64.toNat_ofNat']

theorem blockStart_triton : triton.blockStart numKvHeads x rows columns =
    (((x.physicalBlock * numKvHeads + x.kvHead) * rows * columns : ℕ) : ℤ).bmod (2 ^ 32) := by
  unfold blockStart
  rw [← Int32.ofNat_mul, ← Int32.ofNat_add, ← Int32.ofNat_mul, ← Int32.ofNat_mul, Int32.toInt_ofNat']
  rfl

theorem blockStart_of_lt {lang : Language}
    (h : (x.physicalBlock * numKvHeads + x.kvHead) * rows * columns < lang.reach) :
    lang.blockStart numKvHeads x rows columns =
      ((x.physicalBlock * numKvHeads + x.kvHead) * rows * columns : ℕ) := by
  cases lang with
  | cuda =>
    dsimp only [reach] at h
    rw [blockStart_cuda, Nat.mod_eq_of_lt h]
  | triton =>
    dsimp only [reach] at h
    rw [blockStart_triton, Int.bmod_eq_of_le (by omega) (by omega)]

theorem blockStart_of_eq {lang : Language}
    (h : (x.physicalBlock * numKvHeads + x.kvHead) * rows * columns = lang.reach) :
    lang.blockStart numKvHeads x rows columns ≤ 0 := by
  cases lang with
  | cuda =>
    rw [blockStart_cuda, h]
    decide
  | triton =>
    rw [blockStart_triton, h]
    decide

end Language

namespace Launch

variable {K : Type*} (l : Launch K)

def language : Launch K → Language
  | cudaBasic _ | cudaEnhanced _ | cudaBtkv _ => .cuda
  | tritonBasic _ | tritonEnhanced _ | tritonBtkv _ => .triton

variable [Field K]

def keyByte (x : CacheIndex) : ℤ :=
  l.language.blockStart l.args.numKvHeads x blockSize l.variant.dim + x.slot * l.variant.dim + x.dim

def valueByte (x : CacheIndex) : ℤ :=
  match l with
  | cudaBasic _ | tritonBasic _ =>
    l.language.blockStart l.args.numKvHeads x blockSize l.variant.dim + x.slot * l.variant.dim + x.dim
  | cudaEnhanced _ | cudaBtkv _ | tritonEnhanced _ | tritonBtkv _ =>
    l.language.blockStart l.args.numKvHeads x l.variant.dim blockSize + x.slot + x.dim * blockSize

variable {l} {numBlocks : ℕ} {x : CacheIndex}

theorem rowByte_eq (hreach : numBlocks * l.args.numKvHeads * 16 * l.variant.dim ≤ l.language.reach)
    (hx : x ∈ cacheBytes numBlocks l.args.numKvHeads l.variant.dim) :
    l.language.blockStart l.args.numKvHeads x blockSize l.variant.dim + x.slot * l.variant.dim + x.dim =
      x.offset tokenMajor l.args.numKvHeads l.variant.dim := by
  have hlt := (addresses_tokenMajor l.args.numKvHeads l.variant.dim).lt hx.1 hx.2
  unfold CacheIndex.offset tokenMajor at hlt ⊢
  rw [Language.blockStart_of_lt (by omega)]
  push_cast
  rfl

theorem columnByte_eq (hreach : numBlocks * l.args.numKvHeads * 16 * l.variant.dim ≤ l.language.reach)
    (hx : x ∈ cacheBytes numBlocks l.args.numKvHeads l.variant.dim) :
    l.language.blockStart l.args.numKvHeads x l.variant.dim blockSize + x.slot + x.dim * blockSize =
      x.offset transposed l.args.numKvHeads l.variant.dim := by
  have hlt := (addresses_transposed l.args.numKvHeads l.variant.dim).lt hx.1 hx.2
  unfold CacheIndex.offset transposed at hlt ⊢
  rw [Language.blockStart_of_lt (by omega)]
  push_cast
  rfl

theorem keyByte_eq (hreach : numBlocks * l.args.numKvHeads * 16 * l.variant.dim ≤ l.language.reach)
    (hx : x ∈ cacheBytes numBlocks l.args.numKvHeads l.variant.dim) : l.keyByte x = l.keyOffset x :=
  rowByte_eq hreach hx

theorem valueByte_eq (hreach : numBlocks * l.args.numKvHeads * 16 * l.variant.dim ≤ l.language.reach)
    (hx : x ∈ cacheBytes numBlocks l.args.numKvHeads l.variant.dim) : l.valueByte x = l.valueOffset x := by
  cases l with
  | cudaBasic a => exact rowByte_eq hreach hx
  | cudaEnhanced a => exact columnByte_eq hreach hx
  | cudaBtkv a => exact columnByte_eq hreach hx
  | tritonBasic a => exact rowByte_eq hreach hx
  | tritonEnhanced a => exact columnByte_eq hreach hx
  | tritonBtkv a => exact columnByte_eq hreach hx

variable (l) [LinearOrder K] (i : BlockIdx) (numBlocks : ℕ)

/-- The loops visit the positions of the context once and in order, and the kernel accumulates over these
visits. What they load is within caches of `numBlocks` blocks. -/
structure VisitsContext : Prop where
  visits : (l.args.intVisits i).map l.args.visitAt =
    (List.range (l.args.contextLens i.seqIdx)).map fun p =>
      ⟨p, l.args.blockTables (i.seqIdx * l.args.maxBlocksPerSeq + p / 16), p % 16⟩
  accumulate : ∀ e, l.variant.accumulate l.args i e =
    (((l.args.intVisits i).map l.args.visitAt).map (l.variant.tokenAt l.args i)).foldl (Accum.update e) .init
  kvHead : l.args.kvHead i < l.args.numKvHeads
  loads : (∀ p < l.args.contextLens i.seqIdx,
      l.args.blockTables (i.seqIdx * l.args.maxBlocksPerSeq + p / 16) < numBlocks) →
    ∀ visit ∈ (l.args.intVisits i).map l.args.visitAt, ∀ d < 128,
      ⟨visit.physicalBlock, l.args.kvHead i, visit.slot, d⟩ ∈ cacheBytes numBlocks l.args.numKvHeads 128
  keys : LoadsWithin l.variant.key l.args.kCache numBlocks l.args.numKvHeads 128 l.keyByte
  values : LoadsWithin l.variant.value l.args.vCache numBlocks l.args.numKvHeads 128 l.valueByte

variable {l i numBlocks}

theorem VisitsContext.context_lt (h : l.VisitsContext i numBlocks) (hn : 1 ≤ l.args.contextLens i.seqIdx)
    (hint : l.args.contextLens i.seqIdx < 2 ^ 31) : l.args.contextLens i.seqIdx + 15 < 2 ^ 31 := by
  by_contra hle
  have hblocks := l.args.toInt_intNumBlocks_of_le i (not_lt.mp hle) hint
  have hnone : l.args.intVisits i = [] := by
    rw [AttentionArgs.intVisits, Int.toNat_of_nonpos hblocks]
    rfl
  have hlen := congrArg List.length h.visits
  rw [hnone, List.map_nil, List.length_nil, List.length_map, List.length_range] at hlen
  omega

theorem VisitsContext.within_reach (h : l.VisitsContext i numBlocks) (hdim : l.variant.dim = 128) :
    numBlocks * l.args.numKvHeads * 16 * 128 ≤ l.language.reach := by
  by_contra hlt
  obtain ⟨heads, hheads, hpos⟩ : ∃ heads, heads * 16 * 128 = l.language.reach ∧ 0 < heads := by
    cases l.language with
    | cuda => exact ⟨2 ^ 53, rfl, by decide⟩
    | triton => exact ⟨2 ^ 20, rfl, by decide⟩
  have hmem : heads < numBlocks * l.args.numKvHeads := by omega
  have hkv : 0 < l.args.numKvHeads := Nat.pos_of_ne_zero fun hzero => by simp [hzero] at hmem
  let x : CacheIndex := ⟨heads / l.args.numKvHeads, heads % l.args.numKvHeads, 0, 0⟩
  let first : CacheIndex := ⟨0, 0, 0, 0⟩
  have hscale : x.physicalBlock * l.args.numKvHeads + x.kvHead = heads := Nat.div_add_mod' heads _
  have hslot : 0 < blockSize := by decide
  have hx : x ∈ cacheBytes numBlocks l.args.numKvHeads 128 :=
    ⟨⟨Nat.mod_lt _ hkv, hslot, Nat.zero_lt_succ _⟩, Nat.div_lt_of_lt_mul (by rwa [mul_comm])⟩
  have hfirst : first ∈ cacheBytes numBlocks l.args.numKvHeads 128 :=
    ⟨⟨hkv, hslot, Nat.zero_lt_succ _⟩, Nat.pos_of_ne_zero fun hzero => by simp [hzero] at hmem⟩
  have hstart : l.language.blockStart l.args.numKvHeads x blockSize 128 ≤ 0 :=
    Language.blockStart_of_eq (by rw [hscale]; exact hheads)
  have hzero : l.language.blockStart l.args.numKvHeads first blockSize 128 = 0 := by
    cases l.language with
    | cuda => simp [Language.blockStart_cuda, first]
    | triton => simp [Language.blockStart_triton, first]
  have hkey : l.keyByte x = l.language.blockStart l.args.numKvHeads x blockSize 128 := by
    simp [keyByte, hdim, x]
  have hkeyFirst : l.keyByte first = 0 := by
    simp [keyByte, hdim, hzero, first]
  have hinside := (h.keys.inside x hx).1
  have heq : x = first := h.keys.apart hx hfirst (by omega)
  rw [heq] at hscale
  dsimp only [first] at hscale
  omega

theorem visitsContext_of_lt (hdim : l.args.headDim = 128) (hkv : 1 ≤ l.args.numKvHeads)
    (hdvd : l.args.numKvHeads ∣ l.args.numHeads) (hhead : i.headIdx < l.args.numHeads)
    (hrow : i.seqIdx * l.args.maxBlocksPerSeq + (l.args.contextLens i.seqIdx - 1) / 16 < 2 ^ 31)
    (hcontext : l.args.contextLens i.seqIdx + 15 < 2 ^ 31)
    (hreach : numBlocks * l.args.numKvHeads * 16 * 128 ≤ l.language.reach) : l.VisitsContext i numBlocks := by
  have hvisits := l.args.map_visitAt_intVisits i hcontext hrow
  have hkvHead := l.args.kvHead_lt i hkv hdvd hhead
  rw [← l.dim_eq hdim] at hreach
  constructor
  · rw [hvisits]
    exact l.args.visits_eq i
  · intro e
    rw [hvisits, accumulate_eq_foldl, visited_eq_map_visits]
  · exact hkvHead
  · intro htable visit hvisit d hd
    rw [hvisits, l.args.visits_eq i] at hvisit
    obtain ⟨p, hp, rfl⟩ := List.mem_map.mp hvisit
    exact ⟨⟨hkvHead, Nat.mod_lt p (by decide), hd⟩, htable p (List.mem_range.mp hp)⟩
  · rw [← l.dim_eq hdim]
    exact (addresses_tokenMajor _ _).loadsWithin (l.readsAt_key _) fun x hx => keyByte_eq hreach hx
  · rw [← l.dim_eq hdim]
    exact l.addresses_valueLayout.loadsWithin (l.readsAt_value _) fun x hx => valueByte_eq hreach hx

variable (l i numBlocks)

/-- For an instance of any kernel with 128 dimensions and a KV head for each query head, whose row of the
block table is within reach of an `int`: the loops visit exactly the context, and the loads are apart and
within the caches, if and only if rounding the context up to blocks does not overflow and the offsets of all
the blocks fit. -/
theorem visitsContext_iff (hdim : l.args.headDim = 128) (hkv : 1 ≤ l.args.numKvHeads)
    (hdvd : l.args.numKvHeads ∣ l.args.numHeads) (hhead : i.headIdx < l.args.numHeads)
    (hn : 1 ≤ l.args.contextLens i.seqIdx) (hint : l.args.contextLens i.seqIdx < 2 ^ 31)
    (hrow : i.seqIdx * l.args.maxBlocksPerSeq + (l.args.contextLens i.seqIdx - 1) / 16 < 2 ^ 31) :
    l.VisitsContext i numBlocks ↔ l.args.contextLens i.seqIdx + 15 < 2 ^ 31 ∧
      numBlocks * l.args.numKvHeads * 16 * 128 ≤ l.language.reach := by
  constructor
  · intro h
    exact ⟨h.context_lt hn hint, h.within_reach (l.dim_eq hdim)⟩
  · rintro ⟨hcontext, hreach⟩
    exact visitsContext_of_lt hdim hkv hdvd hhead hrow hcontext hreach

/-- The last of the 17 tokens is alone in its block. -/
theorem visitsContext_partial_block :
    let l : Launch ℚ := .cudaEnhanced partialBlockArgs
    let i : BlockIdx := ⟨0, 7, 0⟩
    (l.args.headDim = 128 ∧ 1 ≤ l.args.numKvHeads ∧ l.args.numKvHeads ∣ l.args.numHeads ∧
      i.headIdx < l.args.numHeads) ∧ l.VisitsContext i 6 := by
  intro l i
  have hdvd : l.args.numKvHeads ∣ l.args.numHeads := by decide
  refine ⟨⟨rfl, by decide, hdvd, by decide⟩, ?_⟩
  exact (l.visitsContext_iff i 6 rfl (by decide) hdvd (by decide) (by decide) (by decide) (by decide)).mpr
    ⟨by decide, by decide⟩

/-- A sequence so long that rounding it up to blocks overflows. -/
def longContextArgs : E8m0Args ℚ :=
  { partialBlockArgs with contextLens := fun _ => 2 ^ 31 - 15, maxBlocksPerSeq := 2 ^ 27 }

def eightKvHeadsArgs : E8m0Args ℚ := { partialBlockArgs with numKvHeads := 8 }

/-- A context of 2^31 - 15 tokens is not visited at all, and a Triton kernel looks for the last block of a
cache of 131073 blocks before the start of the cache. -/
theorem visitsContext_fails_out_of_range :
    (Launch.cudaEnhanced longContextArgs).args.intVisits ⟨0, 0, 0⟩ = [] ∧
      ¬ (Launch.cudaEnhanced longContextArgs).VisitsContext ⟨0, 0, 0⟩ (2 ^ 27) ∧
      (Launch.tritonEnhanced eightKvHeadsArgs).keyByte ⟨131072, 0, 0, 0⟩ = -2 ^ 31 ∧
      ¬ (Launch.tritonEnhanced eightKvHeadsArgs).VisitsContext ⟨0, 0, 0⟩ 131073 := by
  have hnone : (Launch.cudaEnhanced longContextArgs).args.intVisits ⟨0, 0, 0⟩ = [] := by decide +kernel
  have hbyte : (Launch.tritonEnhanced eightKvHeadsArgs).keyByte ⟨131072, 0, 0, 0⟩ = -2 ^ 31 := by
    decide +kernel
  refine ⟨hnone, ?_, hbyte, ?_⟩
  · intro h
    have hlen := congrArg List.length h.visits
    rw [hnone, List.map_nil, List.length_nil, List.length_map, List.length_range] at hlen
    exact absurd hlen (by decide)
  · intro h
    have hinside := (h.keys.inside ⟨131072, 0, 0, 0⟩ ⟨⟨by decide, by decide, by decide⟩, by decide⟩).1
    rw [hbyte] at hinside
    exact absurd hinside (by decide)

end Launch

end Bytes

end Virthub.Kernels
