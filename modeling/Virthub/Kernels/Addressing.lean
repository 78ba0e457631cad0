import Virthub.Kernels.AttentionSoftmax
import Virthub.Lib.RowMajor
import Mathlib.Order.CompletePartialOrder

/-! The addresses of the paged attention kernels: which positions of the context the loops visit and which
bytes of the caches they read for them, and which rows of the query and output tensors the instances of a
launch use. A row is found by token and head, whatever the sequence.

Indices are exact numbers. They are the indices of the code as long as contexts and caches are within the
bounds of `IndexWidth` and the query tensor has at most `2 ^ 31` elements, since the offset of a row is an
`int`. -/
namespace Virthub.Kernels
open Virthub.Lib

structure Visit where
  position : ℕ
  physicalBlock : ℕ
  slot : ℕ
  deriving DecidableEq, Repr

/-- A byte of a cache by what it stands for. -/
structure CacheIndex where
  physicalBlock : ℕ
  kvHead : ℕ
  slot : ℕ
  dim : ℕ
  deriving DecidableEq, Repr

section Visits

variable {K : Type*} (args : AttentionArgs K) (i : BlockIdx)

/-- The rounds of the loops over the blocks and over the tokens of a block, in order. -/
def AttentionArgs.visits : List Visit :=
  (List.range (args.numBlocks i)).flatMap fun blockIdx =>
    (List.range (args.tokensInBlock i blockIdx)).map fun t =>
      let startToken := blockIdx * blockSize
      ⟨startToken + t, args.physicalBlock i blockIdx, t⟩

/-- The visit that position `p` of the context should get. -/
def AttentionArgs.visitOf (p : ℕ) : Visit :=
  ⟨p, args.blockTables (i.seqIdx * args.maxBlocksPerSeq + p / 16), p % 16⟩

theorem AttentionArgs.visitOf_rowMajor {blockIdx t : ℕ} (ht : t < blockSize) :
    args.visitOf i (blockIdx * blockSize + t) =
      ⟨blockIdx * blockSize + t, args.physicalBlock i blockIdx, t⟩ := by
  have hdiv : (blockIdx * blockSize + t) / 16 = blockIdx := rowMajor_div ht
  have hmod : (blockIdx * blockSize + t) % 16 = t := rowMajor_mod ht
  rw [visitOf, hdiv, hmod]
  rfl

/-- The loops visit every position of the context once and in order. -/
theorem AttentionArgs.visits_eq :
    args.visits i = (List.range (args.contextLens i.seqIdx)).map (args.visitOf i) := by
  have hsize : 0 < blockSize := by decide
  rw [← flatMap_rows_eq_range hsize, List.map_flatMap]
  unfold visits numBlocks
  refine List.flatMap_congr fun blockIdx _ => ?_
  rw [List.map_map]
  refine List.map_congr_left fun t ht => ?_
  have hslot : t < blockSize := (List.mem_range.mp ht).trans_le (min_le_left _ _)
  exact (args.visitOf_rowMajor i hslot).symm

/-- With as many query heads for each KV head, a query head has a KV head. -/
theorem AttentionArgs.kvHead_lt (hkv : 1 ≤ args.numKvHeads) (hdvd : args.numKvHeads ∣ args.numHeads)
    (hhead : i.headIdx < args.numHeads) : args.kvHead i < args.numKvHeads := by
  obtain ⟨group, hgroup⟩ := hdvd
  have hquot : args.numHeads / args.numKvHeads = group := by
    rw [hgroup]
    exact Nat.mul_div_cancel_left group hkv
  unfold kvHead
  rw [hquot]
  apply Nat.div_lt_of_lt_mul
  rwa [mul_comm, ← hgroup]

end Visits

section Layouts

variable {numKvHeads dim : ℕ}

/-- The byte is one of a block with `numKvHeads` heads of `dim` dimensions. -/
structure CacheIndex.Valid (numKvHeads dim : ℕ) (x : CacheIndex) : Prop where
  kvHead : x.kvHead < numKvHeads
  slot : x.slot < blockSize
  dim : x.dim < dim

/-- The offset of a byte in a cache whose blocks are stored as `layout` says. -/
def CacheIndex.offset (layout : ℕ → ℕ → ℕ → ℕ → ℕ) (numKvHeads dim : ℕ) (x : CacheIndex) : ℕ :=
  layout dim (x.physicalBlock * numKvHeads + x.kvHead) x.slot x.dim

/-- A layout of the blocks gives every byte of a cache its own offset within the cache. -/
structure Addresses (layout : ℕ → ℕ → ℕ → ℕ → ℕ) (numKvHeads dim : ℕ) : Prop where
  injOn : Set.InjOn (CacheIndex.offset layout numKvHeads dim) {x | x.Valid numKvHeads dim}
  lt : ∀ {x : CacheIndex} {numBlocks : ℕ}, x.Valid numKvHeads dim → x.physicalBlock < numBlocks →
    x.offset layout numKvHeads dim < numBlocks * numKvHeads * 16 * dim

theorem CacheIndex.offset_tokenMajor (x : CacheIndex) :
    x.offset tokenMajor numKvHeads dim =
      ((x.physicalBlock * numKvHeads + x.kvHead) * blockSize + x.slot) * dim + x.dim := by
  unfold CacheIndex.offset tokenMajor
  ring

theorem CacheIndex.offset_transposed (x : CacheIndex) :
    x.offset transposed numKvHeads dim =
      ((x.physicalBlock * numKvHeads + x.kvHead) * dim + x.dim) * blockSize + x.slot := by
  unfold CacheIndex.offset transposed
  ring

theorem addresses_tokenMajor (numKvHeads dim : ℕ) : Addresses tokenMajor numKvHeads dim where
  injOn := by
    intro x hx y hy h
    rw [x.offset_tokenMajor, y.offset_tokenMajor] at h
    obtain ⟨h, hdim⟩ := rowMajor_inj hx.dim hy.dim h
    obtain ⟨h, hslot⟩ := rowMajor_inj hx.slot hy.slot h
    obtain ⟨hblock, hhead⟩ := rowMajor_inj hx.kvHead hy.kvHead h
    cases x
    cases y
    congr
  lt := by
    intro x numBlocks hx hblock
    rw [x.offset_tokenMajor]
    exact rowMajor_lt (rowMajor_lt (rowMajor_lt hblock hx.kvHead) hx.slot) hx.dim

theorem addresses_transposed (numKvHeads dim : ℕ) : Addresses transposed numKvHeads dim where
  injOn := by
    intro x hx y hy h
    rw [x.offset_transposed, y.offset_transposed] at h
    obtain ⟨h, hslot⟩ := rowMajor_inj hx.slot hy.slot h
    obtain ⟨h, hdim⟩ := rowMajor_inj hx.dim hy.dim h
    obtain ⟨hblock, hhead⟩ := rowMajor_inj hx.kvHead hy.kvHead h
    cases x
    cases y
    congr
  lt := by
    intro x numBlocks hx hblock
    rw [x.offset_transposed]
    have hlt := rowMajor_lt (rowMajor_lt (rowMajor_lt hblock hx.kvHead) hx.dim) hx.slot
    rwa [mul_right_comm] at hlt

end Layouts

inductive Kernel where
  | cudaBasic
  | cudaEnhanced
  | cudaBtkv
  | tritonBasic
  | tritonEnhanced
  | tritonBtkv
  deriving DecidableEq, Repr

/-- How the values are stored; the keys are always stored token by token. -/
def Kernel.valueLayout : Kernel → ℕ → ℕ → ℕ → ℕ → ℕ
  | cudaBasic | tritonBasic => tokenMajor
  | cudaEnhanced | cudaBtkv | tritonEnhanced | tritonBtkv => transposed

section Reads

variable {K : Type*}

/-- What a kernel reads for a block and a KV head depends on the byte at the offset only. -/
def ReadsAt (read : ℕ → ℕ → ℕ → K) (cache : ℕ → UInt8) (numKvHeads : ℕ) (bytes : Set CacheIndex)
    (offset : CacheIndex → ℕ) : Prop :=
  ∃ decode : ℕ → UInt8 → K, ∀ x ∈ bytes,
    read (x.physicalBlock * numKvHeads + x.kvHead) x.slot x.dim =
      decode (x.physicalBlock * numKvHeads + x.kvHead) (cache (offset x))

theorem ReadsAt.congr {read : ℕ → ℕ → ℕ → K} {cache : ℕ → UInt8} {numKvHeads : ℕ} {bytes : Set CacheIndex}
    {offset offset' : CacheIndex → ℕ} (h : ReadsAt read cache numKvHeads bytes offset)
    (heq : ∀ x ∈ bytes, offset' x = offset x) : ReadsAt read cache numKvHeads bytes offset' := by
  obtain ⟨decode, hdecode⟩ := h
  refine ⟨decode, fun x hx => ?_⟩
  rw [heq x hx]
  exact hdecode x hx

variable [Field K]

/-- The score and the value of the token of a visit. -/
def Variant.tokenAt (v : Variant K) (args : AttentionArgs K) (i : BlockIdx) (visit : Visit) : Scored K ℕ where
  score := (∑ d ∈ Finset.range v.dim, args.q (args.rowOffset i + d) *
    v.key (visit.physicalBlock * args.numKvHeads + args.kvHead i) visit.slot d) * args.scale
  value := v.value (visit.physicalBlock * args.numKvHeads + args.kvHead i) visit.slot

theorem visited_eq_map_visits (v : Variant K) (args : AttentionArgs K) (i : BlockIdx) :
    v.visited args i = (args.visits i).map (v.tokenAt args i) := by
  unfold Variant.visited AttentionArgs.visits
  simp only [List.map_flatMap, List.map_map]
  rfl

theorem readsAt_affine (scales zeroPoints : ℕ → K) (cache : ℕ → UInt8) (numKvHeads dim : ℕ)
    (bytes : Set CacheIndex) (layout : ℕ → ℕ → ℕ → ℕ → ℕ) :
    ReadsAt (affine scales zeroPoints cache (layout dim)) cache numKvHeads bytes
      (CacheIndex.offset layout numKvHeads dim) :=
  ⟨fun scaleIdx byte => scales scaleIdx * (byte.toNat - zeroPoints scaleIdx), fun _ _ => rfl⟩

theorem readsAt_powerOfTwo (exponents : ℕ → UInt8) (cache : ℕ → UInt8) (numKvHeads dim : ℕ)
    (bytes : Set CacheIndex) (layout : ℕ → ℕ → ℕ → ℕ → ℕ) :
    ReadsAt (powerOfTwo exponents cache (layout dim) : ℕ → ℕ → ℕ → K) cache numKvHeads bytes
      (CacheIndex.offset layout numKvHeads dim) :=
  ⟨fun scaleIdx byte => 2 ^ (exponents scaleIdx).toNat * (byte.toNat : K), fun _ _ => rfl⟩

namespace Launch

def kernel : Launch K → Kernel
  | cudaBasic _ => .cudaBasic
  | cudaEnhanced _ => .cudaEnhanced
  | cudaBtkv _ => .cudaBtkv
  | tritonBasic _ => .tritonBasic
  | tritonEnhanced _ => .tritonEnhanced
  | tritonBtkv _ => .tritonBtkv

def valueLayout (l : Launch K) : ℕ → ℕ → ℕ → ℕ → ℕ := l.kernel.valueLayout

def keyOffset (l : Launch K) : CacheIndex → ℕ :=
  CacheIndex.offset tokenMajor l.args.numKvHeads l.variant.dim

def valueOffset (l : Launch K) : CacheIndex → ℕ :=
  CacheIndex.offset l.valueLayout l.args.numKvHeads l.variant.dim

theorem readsAt_key (l : Launch K) (bytes : Set CacheIndex) :
    ReadsAt l.variant.key l.args.kCache l.args.numKvHeads bytes l.keyOffset := by
  cases l with
  | cudaBasic a => exact readsAt_affine ..
  | cudaEnhanced a => exact readsAt_powerOfTwo ..
  | cudaBtkv a => exact readsAt_powerOfTwo ..
  | tritonBasic a => exact readsAt_affine ..
  | tritonEnhanced a => exact readsAt_powerOfTwo ..
  | tritonBtkv a => exact readsAt_powerOfTwo ..

theorem readsAt_value (l : Launch K) (bytes : Set CacheIndex) :
    ReadsAt l.variant.value l.args.vCache l.args.numKvHeads bytes l.valueOffset := by
  cases l with
  | cudaBasic a => exact readsAt_affine ..
  | cudaEnhanced a => exact readsAt_powerOfTwo ..
  | cudaBtkv a => exact readsAt_powerOfTwo ..
  | tritonBasic a => exact readsAt_affine ..
  | tritonEnhanced a => exact readsAt_powerOfTwo ..
  | tritonBtkv a => exact readsAt_powerOfTwo ..

theorem addresses_valueLayout (l : Launch K) :
    Addresses l.valueLayout l.args.numKvHeads l.variant.dim := by
  cases l with
  | cudaBasic a => exact addresses_tokenMajor _ _
  | cudaEnhanced a => exact addresses_transposed _ _
  | cudaBtkv a => exact addresses_transposed _ _
  | tritonBasic a => exact addresses_tokenMajor _ _
  | tritonEnhanced a => exact addresses_transposed _ _
  | tritonBtkv a => exact addresses_transposed _ _

theorem dim_eq (l : Launch K) (h : l.args.headDim = 128) : l.variant.dim = 128 := by
  cases l with
  | cudaBasic a => rfl
  | cudaEnhanced a => rfl
  | cudaBtkv a => rfl
  | tritonBasic a => exact h
  | tritonEnhanced a => exact h
  | tritonBtkv a => exact h

end Launch

end Reads

/-- Eight query heads on two KV heads, and one sequence of 17 tokens in blocks 5 and 3. -/
def partialBlockArgs : E8m0Args ℚ where
  q _ := 1
  kCache _ := 1
  vCache _ := 1
  blockTables blockIdx := if blockIdx = 0 then 5 else 3
  contextLens _ := 17
  maxBlocksPerSeq := 4
  numHeads := 8
  numKvHeads := 2
  headDim := 128
  scale := 1
  kScalesE8m0 _ := 0
  vScalesE8m0 _ := 0

section Rows

variable {K : Type*} (l : Launch K) (numTokens numSeqs : ℕ)

namespace Launch

/-- The instance is in the grid of a launch and does not return early. -/
structure Runs (i : BlockIdx) : Prop where
  token : i.tokenIdx < numTokens
  head : i.headIdx < l.args.numHeads
  seq : i.seqIdx < numSeqs
  context : i.tokenIdx < l.args.contextLens i.seqIdx

def rows (s : ℕ) : ℕ := min numTokens (l.args.contextLens s) * l.args.numHeads

def rowIdx (i : BlockIdx) : ℕ := i.tokenIdx * l.args.numHeads + i.headIdx

variable {l numTokens numSeqs}

theorem Runs.rowIdx_lt {i : BlockIdx} (h : l.Runs numTokens numSeqs i) :
    l.rowIdx i < l.rows numTokens i.seqIdx :=
  rowMajor_lt (lt_min h.token h.context) h.head

theorem Runs.eq_of_rowIdx_eq {i j : BlockIdx} (hi : l.Runs numTokens numSeqs i)
    (hj : l.Runs numTokens numSeqs j) (hseq : i.seqIdx = j.seqIdx) (hrow : l.rowIdx i = l.rowIdx j) :
    i = j := by
  obtain ⟨htoken, hhead⟩ := rowMajor_inj hi.head hj.head hrow
  cases i
  cases j
  congr

theorem runs_first {s : ℕ} (hs : s < numSeqs) (hrows : l.rows numTokens s ≠ 0) :
    l.Runs numTokens numSeqs ⟨0, 0, s⟩ := by
  obtain ⟨hmin, hheads⟩ := mul_ne_zero_iff.mp hrows
  obtain ⟨htokens, hcontext⟩ := lt_min_iff.mp (Nat.pos_of_ne_zero hmin)
  exact ⟨htokens, Nat.pos_of_ne_zero hheads, hs, hcontext⟩

/-- The second row of a sequence is that of the second head or, with one head, of the second token. -/
theorem exists_runs_second {s : ℕ} (hs : s < numSeqs) (hrows : 1 < l.rows numTokens s) :
    ∃ j, l.Runs numTokens numSeqs j ∧ l.rowIdx j = 1 := by
  have hfirst := runs_first hs (Nat.ne_of_gt (Nat.zero_lt_of_lt hrows))
  by_cases hheads : 1 < l.args.numHeads
  · exact ⟨⟨0, 1, s⟩, ⟨hfirst.token, hheads, hs, hfirst.context⟩, by simp [rowIdx]⟩
  · have hone : l.args.numHeads = 1 := le_antisymm (not_lt.mp hheads) hfirst.head
    have htwo : 1 < min numTokens (l.args.contextLens s) := by
      rwa [rows, hone, mul_one] at hrows
    obtain ⟨htokens, hcontext⟩ := lt_min_iff.mp htwo
    exact ⟨⟨1, 0, s⟩, ⟨htokens, hfirst.head, hs, hcontext⟩, by simp [rowIdx, hone]⟩

variable [Field K] (l)

def written [LinearOrder K] (e : K → K) (i : BlockIdx) : Set ℕ := {p | ∃ x, (p, x) ∈ l.output e i}

def queried (i : BlockIdx) : Set ℕ := {p | ∃ d < l.variant.dim, p = l.args.rowOffset i + d}

variable {l}

/-- An instance stores to the row that it loads its query from. -/
theorem Runs.written_eq [LinearOrder K] {i : BlockIdx} (h : l.Runs numTokens numSeqs i) (e : K → K) :
    l.written e i = l.queried i := by
  ext p
  constructor
  · intro hp
    obtain ⟨x, hx⟩ := hp
    rw [l.output_eq_run, Variant.run, if_neg (not_le.mpr h.context)] at hx
    obtain ⟨d, hd, hpos⟩ := List.mem_map.mp hx
    exact ⟨d, List.mem_range.mp hd, (congrArg Prod.fst hpos).symm⟩
  · intro hp
    obtain ⟨d, hd, rfl⟩ := hp
    unfold written
    rw [l.output_eq_run, Variant.run, if_neg (not_le.mpr h.context)]
    exact ⟨_, List.mem_map_of_mem (List.mem_range.mpr hd)⟩

theorem mem_queried {i : BlockIdx} {p : ℕ} :
    p ∈ l.queried i ↔ ∃ d < l.variant.dim, p = l.rowIdx i * l.args.headDim + d := Iff.rfl

theorem rowIdx_eq_of_mem_queried (hdim : l.variant.dim ≤ l.args.headDim) {i j : BlockIdx} {p : ℕ}
    (hi : p ∈ l.queried i) (hj : p ∈ l.queried j) : l.rowIdx i = l.rowIdx j := by
  obtain ⟨c, hc, hp⟩ := mem_queried.mp hi
  obtain ⟨d, hd, hq⟩ := mem_queried.mp hj
  exact (rowMajor_inj (hc.trans_le hdim) (hd.trans_le hdim) (hp.symm.trans hq)).1

variable (l numTokens numSeqs)

/-- No two instances store to the same position, and the query tensor can be split among the sequences and
their tokens so that every instance loads from the part of its own. -/
structure SeparatesInstances [LinearOrder K] (e : K → K) : Prop where
  disjoint : ∀ i j, l.Runs numTokens numSeqs i → l.Runs numTokens numSeqs j → i ≠ j →
    Disjoint (l.written e i) (l.written e j)
  owned : ∃ owner : ℕ → ℕ × ℕ, ∀ i, l.Runs numTokens numSeqs i → ∀ p ∈ l.queried i,
    owner p = (i.seqIdx, i.tokenIdx)

/-- The condition on the sequences and on the stride of the rows. -/
structure RowsApart : Prop where
  one : ∀ s < numSeqs, ∀ t < numSeqs, l.rows numTokens s ≠ 0 → l.rows numTokens t ≠ 0 → s = t
  stride : l.variant.dim ≤ l.args.headDim ∨ ∀ s < numSeqs, l.rows numTokens s ≤ 1

variable {l numTokens numSeqs}

theorem RowsApart.eq_of_mem (h : l.RowsApart numTokens numSeqs) {i j : BlockIdx}
    (hi : l.Runs numTokens numSeqs i) (hj : l.Runs numTokens numSeqs j) {p : ℕ} (hip : p ∈ l.queried i)
    (hjp : p ∈ l.queried j) : i = j := by
  have hseq : i.seqIdx = j.seqIdx :=
    h.one _ hi.seq _ hj.seq (Nat.ne_zero_of_lt hi.rowIdx_lt) (Nat.ne_zero_of_lt hj.rowIdx_lt)
  apply hi.eq_of_rowIdx_eq hj hseq
  rcases h.stride with hdim | hone
  · exact rowIdx_eq_of_mem_queried hdim hip hjp
  · have hirow := hi.rowIdx_lt
    have hjrow := hj.rowIdx_lt
    have hirows := hone _ hi.seq
    have hjrows := hone _ hj.seq
    omega

theorem RowsApart.separatesInstances [LinearOrder K] (h : l.RowsApart numTokens numSeqs) (e : K → K) :
    l.SeparatesInstances numTokens numSeqs e := by
  constructor
  · intro i j hi hj hne
    rw [hi.written_eq e, hj.written_eq e, Set.disjoint_left]
    intro p hip hjp
    exact hne (h.eq_of_mem hi hj hip hjp)
  · have howner : ∀ p, ∃ owner : ℕ × ℕ, ∀ i, l.Runs numTokens numSeqs i → p ∈ l.queried i →
        owner = (i.seqIdx, i.tokenIdx) := by
      intro p
      by_cases hp : ∃ j, l.Runs numTokens numSeqs j ∧ p ∈ l.queried j
      · obtain ⟨j, hj, hjp⟩ := hp
        refine ⟨(j.seqIdx, j.tokenIdx), fun i hi hip => ?_⟩
        rw [h.eq_of_mem hj hi hjp hip]
      · exact ⟨(0, 0), fun i hi hip => absurd ⟨i, hi, hip⟩ hp⟩
    choose owner howner using howner
    exact ⟨owner, fun i hi p hip => howner p i hi hip⟩

theorem SeparatesInstances.rowsApart [LinearOrder K] {e : K → K}
    (h : l.SeparatesInstances numTokens numSeqs e) (hdim : 0 < l.variant.dim) :
    l.RowsApart numTokens numSeqs := by
  have hmeet : ∀ i j, l.Runs numTokens numSeqs i → l.Runs numTokens numSeqs j → ∀ p ∈ l.queried i,
      p ∈ l.queried j → i = j := by
    intro i j hi hj p hip hjp
    by_contra hne
    have hdisjoint := h.disjoint i j hi hj hne
    rw [hi.written_eq e, hj.written_eq e, Set.disjoint_left] at hdisjoint
    exact hdisjoint hip hjp
  constructor
  · -- the first instances of two sequences have the same row
    intro s hs t ht hsrows htrows
    have hrow : ∀ u, l.args.rowOffset ⟨0, 0, u⟩ ∈ l.queried ⟨0, 0, u⟩ := fun u => ⟨0, hdim, rfl⟩
    have heq := hmeet _ _ (runs_first hs hsrows) (runs_first ht htrows) _ (hrow s) (hrow t)
    exact congrArg BlockIdx.seqIdx heq
  · by_contra hstride
    obtain ⟨hdim', hrows⟩ := not_or.mp hstride
    push Not at hrows
    obtain ⟨s, hs, htwo⟩ := hrows
    have hfirst := runs_first hs (Nat.ne_of_gt (Nat.zero_lt_of_lt htwo))
    obtain ⟨j, hj, hrow⟩ := exists_runs_second hs htwo
    -- the second row starts within the first
    have hmem : l.args.headDim ∈ l.queried ⟨0, 0, s⟩ :=
      mem_queried.mpr ⟨l.args.headDim, not_le.mp hdim', by simp [rowIdx]⟩
    have hmem' : l.args.headDim ∈ l.queried j := mem_queried.mpr ⟨0, hdim, by rw [hrow, one_mul, add_zero]⟩
    have heq := hmeet _ _ hfirst hj _ hmem hmem'
    rw [← heq] at hrow
    simp [rowIdx] at hrow

variable (l numTokens numSeqs)

end Launch

end Rows

end Virthub.Kernels
