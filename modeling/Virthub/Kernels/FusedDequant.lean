import Virthub.Kernels.EnhancedDequant
import Virthub.Kernels.Paging
import Virthub.Lib.Scatter

/-! The dequantisation kernels write out a block of a cache, and the paged attention kernels dequantise the
same block on the fly. What is written out is compared with what attention computes with, with the threads
of the dequantisation in any order. Arithmetic is exact and the conversion to half precision is a parameter.
A block is to have fewer than `2 ^ 31` elements, which are counted by `int`s. -/
namespace Virthub.Kernels
open Virthub.Lib

/-- `launch_dequant_basic` and its siblings start as many blocks of 256 threads as cover the elements. -/
def launchThreads (totalElements : ℕ) : List ℕ :=
  let threads := 256
  gridThreads ((totalElements + threads - 1) / threads) threads

theorem mem_launchThreads {totalElements idx : ℕ} (h : idx < totalElements) :
    idx ∈ launchThreads totalElements := by
  rw [launchThreads, gridThreads_eq_range, List.mem_range]
  omega

theorem nodup_launchThreads (totalElements : ℕ) : (launchThreads totalElements).Nodup := by
  rw [launchThreads, gridThreads_eq_range]
  exact List.nodup_range

/-- The two caches of a launch. -/
inductive KvPart where
  | keys
  | values
  deriving DecidableEq, Repr

section Kernels

variable {H : Type*} (float2half : ℚ → H)

/-- The store of the thread with index `idx` in the Basic format. A thread behind the last element makes
none. -/
def dequantBasicKernel (quantizedData : ℕ → UInt8) (scales zeroPoints : ℕ → ℚ)
    (numTokens headDim numHeads idx : ℕ) : Option (ℕ × H) :=
  let totalElements := numTokens * headDim * numHeads
  if idx ≥ totalElements then none
  else
    let head := idx / (numTokens * headDim)
    some (idx, float2half (scales head * ((quantizedData idx).toNat - zeroPoints head)))

/-- The store of the thread with index `idx` in the Enhanced format. -/
def dequantEnhancedStore (quantizedData scalesE8m0 : ℕ → UInt8) (numTokens headDim numHeads : ℕ)
    (isTransposed : Bool) (idx : ℕ) : Option (ℕ × H) :=
  (dequantEnhancedKernel quantizedData scalesE8m0 numTokens headDim numHeads isTransposed idx).map fun x =>
    (idx, float2half x)

theorem dequantBasicKernel_eq (quantizedData : ℕ → UInt8) (scales zeroPoints : ℕ → ℚ)
    (numTokens headDim numHeads idx : ℕ) :
    dequantBasicKernel float2half quantizedData scales zeroPoints numTokens headDim numHeads idx =
      if idx < numTokens * headDim * numHeads then
        some (idx, float2half (scales (idx / (numTokens * headDim)) *
          ((quantizedData idx).toNat - zeroPoints (idx / (numTokens * headDim)))))
      else none := by
  unfold dequantBasicKernel
  dsimp only
  split_ifs with hge hlt hlt
  · omega
  · rfl
  · rfl
  · omega

theorem dequantEnhancedStore_eq (quantizedData scalesE8m0 : ℕ → UInt8) (numTokens headDim numHeads : ℕ)
    (isTransposed : Bool) (idx : ℕ) :
    dequantEnhancedStore float2half quantizedData scalesE8m0 numTokens headDim numHeads isTransposed idx =
      if idx < numTokens * headDim * numHeads then
        some (idx, float2half
          ((2 : ℚ) ^ (scalesE8m0 (idx / (numTokens * headDim))).toNat * (quantizedData idx).toNat))
      else none := by
  unfold dequantEnhancedStore
  split_ifs with hlt
  · rw [dequantEnhancedKernel_eq hlt]
    rfl
  · unfold dequantEnhancedKernel
    dsimp only
    rw [if_pos (Nat.not_lt.mp hlt)]
    rfl

end Kernels

/-- The thread of an element stores it in its place, and the threads that are left over store nothing. -/
def StoresInPlace {H : Type*} (size : ℕ) (write : ℕ → Option (ℕ × H)) (element : ℕ → H) : Prop :=
  ∀ idx, write idx = if idx < size then some (idx, element idx) else none

/-- Whatever the buffer held and in whatever order the threads run, the elements are in their places, and
nothing is stored behind them. -/
theorem StoresInPlace.scatter {H : Type*} {size : ℕ} {write : ℕ → Option (ℕ × H)} {element : ℕ → H}
    (h : StoresInPlace size write element) {order : List ℕ} (horder : order.Perm (launchThreads size))
    (buffer : ℕ → H) (c : ℕ) :
    scatter buffer (order.filterMap write) c = if c < size then element c else buffer c := by
  have hstore : ∀ idx store, write idx = some store → idx < size ∧ store = (idx, element idx) := by
    intro idx store hs
    rw [h] at hs
    split_ifs at hs with hlt
    cases hs
    exact ⟨hlt, rfl⟩
  split_ifs with hc
  · have hnodup : ((order.filterMap write).map Prod.fst).Nodup := by
      rw [List.map_filterMap]
      apply List.Nodup.filterMap
      · intro idx idx' cell hcell hcell'
        obtain ⟨store, hs, rfl⟩ := Option.map_eq_some_iff.mp hcell
        obtain ⟨store', hs', heq⟩ := Option.map_eq_some_iff.mp hcell'
        obtain ⟨-, rfl⟩ := hstore idx store hs
        obtain ⟨-, rfl⟩ := hstore idx' store' hs'
        exact heq.symm
      · exact horder.nodup_iff.mpr (nodup_launchThreads size)
    apply scatter_of_mem hnodup
    apply List.mem_filterMap.mpr
    refine ⟨c, horder.mem_iff.mpr (mem_launchThreads hc), ?_⟩
    rw [h, if_pos hc]
  · apply scatter_of_notMem
    intro hmem
    obtain ⟨store, hs, rfl⟩ := List.mem_map.mp hmem
    obtain ⟨idx, -, hidx⟩ := List.mem_filterMap.mp hs
    obtain ⟨hlt, rfl⟩ := hstore idx store hidx
    exact hc hlt

def BasicArgs.scalesOf (args : BasicArgs ℚ) : KvPart → ℕ → ℚ
  | .keys => args.kScales
  | .values => args.vScales

def BasicArgs.zeroPointsOf (args : BasicArgs ℚ) : KvPart → ℕ → ℚ
  | .keys => args.kZeroPoints
  | .values => args.vZeroPoints

def E8m0Args.scalesOf (args : E8m0Args ℚ) : KvPart → ℕ → UInt8
  | .keys => args.kScalesE8m0
  | .values => args.vScalesE8m0

def HeadParams.read (params : HeadParams ℚ) : KvPart → UInt8 → ℚ
  | .keys => params.key
  | .values => params.value

namespace Launch

/-- The elements of a block for all KV heads. -/
def blockElements (l : Launch ℚ) : ℕ := blockSize * l.variant.dim * l.args.numKvHeads

def cache (l : Launch ℚ) : KvPart → ℕ → UInt8
  | .keys => l.args.kCache
  | .values => l.args.vCache

/-- The number that the attention kernel computes with. -/
def read (l : Launch ℚ) : KvPart → ℕ → ℕ → ℕ → ℚ
  | .keys => l.variant.key
  | .values => l.variant.value

def layout (l : Launch ℚ) : KvPart → ℕ → ℕ → ℕ → ℕ → ℕ
  | .keys => tokenMajor
  | .values => l.valueLayout

variable {H : Type*} (float2half : ℚ → H)

/-- What the thread with index `idx` stores when block `p` of a cache is dequantised. The kernel of the
BT-KV format works on tiles and takes no part. -/
def dequantBlock (l : Launch ℚ) (part : KvPart) (p idx : ℕ) : Option (ℕ × H) :=
  let quantizedData := fun n => l.cache part (p * l.blockElements + n)
  match l with
  | cudaBasic a | tritonBasic a =>
    dequantBasicKernel float2half quantizedData (fun h => a.scalesOf part (p * a.numKvHeads + h))
      (fun h => a.zeroPointsOf part (p * a.numKvHeads + h)) blockSize l.variant.dim a.numKvHeads idx
  | cudaEnhanced a | tritonEnhanced a =>
    dequantEnhancedStore float2half quantizedData (fun h => a.scalesOf part (p * a.numKvHeads + h)) blockSize
      l.variant.dim a.numKvHeads (part = .values) idx
  | cudaBtkv _ | tritonBtkv _ => none

/-- The format has a kernel that dequantises blocks. -/
def DequantisesBlocks (l : Launch ℚ) : Prop := l.kernel ≠ .cudaBtkv ∧ l.kernel ≠ .tritonBtkv

instance (l : Launch ℚ) : Decidable l.DequantisesBlocks := inferInstanceAs (Decidable (_ ∧ _))

variable {l : Launch ℚ}

theorem storesInPlace_dequantBlock (hl : l.DequantisesBlocks) (part : KvPart) (p : ℕ) :
    StoresInPlace l.blockElements (l.dequantBlock float2half part p) fun idx =>
      float2half ((l.params (p * l.args.numKvHeads + idx / (blockSize * l.variant.dim))).read part
        (l.cache part (p * l.blockElements + idx))) := by
  intro idx
  cases l with
  | cudaBasic a =>
    simp only [dequantBlock, dequantBasicKernel_eq]
    cases part <;> rfl
  | tritonBasic a =>
    simp only [dequantBlock, dequantBasicKernel_eq]
    cases part <;> rfl
  | cudaEnhanced a =>
    simp only [dequantBlock, dequantEnhancedStore_eq]
    cases part <;> rfl
  | tritonEnhanced a =>
    simp only [dequantBlock, dequantEnhancedStore_eq]
    cases part <;> rfl
  | cudaBtkv a => exact absurd rfl hl.1
  | tritonBtkv a => exact absurd rfl hl.2

theorem read_eq (l : Launch ℚ) (part : KvPart) (scaleIdx t d : ℕ) :
    l.read part scaleIdx t d =
      (l.params scaleIdx).read part (l.cache part (l.layout part l.variant.dim scaleIdx t d)) := by
  cases part with
  | keys => exact l.variant_key scaleIdx t d
  | values => exact l.variant_value scaleIdx t d

theorem exists_column_layout (l : Launch ℚ) (part : KvPart) {dim t d : ℕ} (ht : t < blockSize)
    (hd : d < dim) :
    ∃ c < blockSize * dim, ∀ row, l.layout part dim row t d = row * (blockSize * dim) + c := by
  cases part with
  | keys => exact exists_column_tokenMajor ht hd
  | values => exact exists_column_valueLayout l.kernel ht hd

end Launch

/-- Two tokens in the only block of a cache. -/
private def oneBlockArgs : BasicArgs ℚ where
  q _ := 1
  kCache n := UInt8.ofNat n
  vCache n := UInt8.ofNat n
  blockTables _ := 0
  contextLens _ := 2
  maxBlocksPerSeq := 1
  numHeads := 1
  numKvHeads := 1
  headDim := 2
  scale := 1
  kScales _ := 1 / 2
  kZeroPoints _ := 3
  vScales _ := 2
  vZeroPoints _ := 5

end Virthub.Kernels
