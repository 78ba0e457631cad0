import Mathlib.Algebra.Ring.Nat
import Mathlib.Data.Nat.Digits.Defs
import Mathlib.Data.Nat.Digits.Lemmas
import Virthub.Lib.Splice

/-! The page diff engine: a scan by 64-bit words with byte trimming and a byte-wise tail, and
the patch that replays its chunks. The scan reads the pages through slices of words, so that it needs their
addresses. -/
namespace Virthub.Klnk
open Virthub.Lib

inductive DiffError
  | sizeMismatch (dirtyLen baseLen : ℕ)
  | outOfBoundsPatch (offset len pageLen : ℕ)
  deriving DecidableEq, Repr

structure PageDiffChunk where
  offset : UInt32
  bytes : List UInt8
  deriving DecidableEq, Repr

structure PageDiffList where
  pageVaddr : UInt64
  pageSize : ℕ
  chunks : List PageDiffChunk
  deriving DecidableEq, Repr

/-- A borrowed slice of bytes: where it starts and what it holds. -/
structure ByteSlice where
  addr : UInt64
  bytes : List UInt8
  deriving DecidableEq, Repr

/-- What `slice::from_raw_parts` asks of an address that is read as 64-bit words, also when there are none. -/
def ByteSlice.WordAligned (self : ByteSlice) : Prop := self.addr % 8 = 0

instance (page : ByteSlice) : Decidable page.WordAligned :=
  inferInstanceAs (Decidable (page.addr % 8 = 0))

/-- Number of bytes in all chunks. -/
def PageDiffList.totalModifiedBytes (self : PageDiffList) : ℕ :=
  (self.chunks.map fun c => c.bytes.length).sum

namespace MemoryDiffEngine

def wordStride : ℕ := 8

/-- The byte at an index that the scan has already bounded by the page size. -/
def byteAt (page : List UInt8) (i : ℕ) : UInt8 := page.getD i 0

/-- The page read as little-endian 64-bit words. -/
def wordAt (page : List UInt8) (w : ℕ) : ℕ :=
  Nat.ofDigits 256 ((slice page (w * wordStride) ((w + 1) * wordStride)).map UInt8.toNat)

/-- First word from `wordIdx` on, among the `remaining` ones, that is not modified. -/
def lookAhead (dirty base : List UInt8) : ℕ → ℕ → ℕ
  | 0, wordIdx => wordIdx
  | remaining + 1, wordIdx =>
    if wordAt dirty wordIdx ≠ wordAt base wordIdx then lookAhead dirty base remaining (wordIdx + 1)
    else wordIdx

/-- Skip matching bytes forwards, at most `remaining` of them. -/
def trimLeading (dirty base : List UInt8) : ℕ → ℕ → ℕ
  | 0, realStart => realStart
  | remaining + 1, realStart =>
    if byteAt dirty realStart = byteAt base realStart then
      trimLeading dirty base remaining (realStart + 1)
    else realStart

/-- Skip matching bytes backwards from `realStart + count`, down to `realStart`. -/
def trimTrailing (dirty base : List UInt8) (realStart : ℕ) : ℕ → ℕ
  | 0 => realStart
  | count + 1 =>
    if byteAt dirty (realStart + count) = byteAt base (realStart + count) then
      trimTrailing dirty base realStart count
    else realStart + count + 1

/-- The byte range that a run of modified words contributes. -/
def trimmedRange (dirty base : List UInt8) (chunkStart chunkEnd : ℕ) : List (ℕ × ℕ) :=
  let realStart := trimLeading dirty base (chunkEnd - chunkStart) chunkStart
  let realEnd := trimTrailing dirty base realStart (chunkEnd - realStart)
  if realStart < realEnd then [(realStart, realEnd)] else []

/-- The word loop. Each turn moves `wordIdx` forwards, so `wordCount` turns are enough. -/
def scanWords (dirty base : List UInt8) (wordCount : ℕ) : ℕ → ℕ → List (ℕ × ℕ)
  | 0, _ => []
  | turns + 1, wordIdx =>
    if wordIdx < wordCount then
      if wordAt dirty wordIdx ≠ wordAt base wordIdx then
        let next := lookAhead dirty base (wordCount - (wordIdx + 1)) (wordIdx + 1)
        trimmedRange dirty base (wordIdx * wordStride) (next * wordStride) ++
          scanWords dirty base wordCount turns next
      else scanWords dirty base wordCount turns (wordIdx + 1)
    else []

/-- Single bytes behind the last full word. -/
def scanTail (dirty base : List UInt8) (processedTail pageSize : ℕ) : List (ℕ × ℕ) :=
  ((List.range' processedTail (pageSize - processedTail)).filter
    fun i => byteAt dirty i ≠ byteAt base i).map fun i => (i, i + 1)

def modifiedRanges (dirty base : List UInt8) : List (ℕ × ℕ) :=
  let pageSize := dirty.length
  let wordCount := pageSize / wordStride
  scanWords dirty base wordCount wordCount 0 ++
    scanTail dirty base (wordCount * wordStride) pageSize

/-- The chunk pushed for a byte range; its offset is cut to 32 bits. -/
def chunkOf (dirty : List UInt8) (r : ℕ × ℕ) : PageDiffChunk := ⟨r.1.toUInt32, slice dirty r.1 r.2⟩

/-- The list that the two loops leave for pages of one length. -/
def pageDiff (pageVaddr : UInt64) (dirty base : List UInt8) : PageDiffList :=
  ⟨pageVaddr, dirty.length, (modifiedRanges dirty base).map (chunkOf dirty)⟩

/-- There is no result where a slice of words starts at an address that is not one of a word: the behaviour is
undefined, and a build with debug assertions aborts. -/
def computeDiff (pageVaddr : UInt64) (dirtyPage baselinePage : ByteSlice) :
    Option (Except DiffError PageDiffList) :=
  let dirty := dirtyPage.bytes
  let base := baselinePage.bytes
  if dirty.length ≠ base.length then some (.error (.sizeMismatch dirty.length base.length))
  else if dirtyPage.WordAligned ∧ baselinePage.WordAligned then some (.ok (pageDiff pageVaddr dirty base))
  else none

/-- Chunks are written in order; the first one out of bounds ends the patch, with the
earlier ones in place. -/
def applyChunks (pageLen : ℕ) : List UInt8 → List PageDiffChunk → Except DiffError Unit × List UInt8
  | page, [] => (.ok (), page)
  | page, chunk :: chunks =>
    let start := chunk.offset.toNat
    if start + chunk.bytes.length > pageLen then
      (.error (.outOfBoundsPatch start chunk.bytes.length pageLen), page)
    else applyChunks pageLen (splice page start chunk.bytes) chunks

def applyPatch (targetPage : List UInt8) (diff : PageDiffList) :
    Except DiffError Unit × List UInt8 :=
  applyChunks targetPage.length targetPage diff.chunks

/-- The ranges lie within `lo ≤ i < hi` and cover every byte there that differs. -/
structure Covers (dirty base : List UInt8) (lo hi : ℕ) (rs : List (ℕ × ℕ)) : Prop where
  bounds : ∀ r ∈ rs, lo ≤ r.1 ∧ r.1 < r.2 ∧ r.2 ≤ hi
  cover : ∀ i, lo ≤ i → i < hi → byteAt dirty i ≠ byteAt base i → ∃ r ∈ rs, r.1 ≤ i ∧ i < r.2

theorem Covers.append {dirty base : List UInt8} {lo mid hi : ℕ} {rs ss : List (ℕ × ℕ)}
    (hr : Covers dirty base lo mid rs) (hs : Covers dirty base mid hi ss)
    (hlo : lo ≤ mid) (hhi : mid ≤ hi) : Covers dirty base lo hi (rs ++ ss) := by
  constructor
  · intro r hm
    rcases List.mem_append.mp hm with hm | hm
    · have hb := hr.bounds r hm
      omega
    · have hb := hs.bounds r hm
      omega
  · intro i hi1 hi2 hne
    by_cases him : i < mid
    · obtain ⟨r, hm, hri⟩ := hr.cover i hi1 him hne
      exact ⟨r, List.mem_append_left _ hm, hri⟩
    · obtain ⟨r, hm, hri⟩ := hs.cover i (by omega) hi2 hne
      exact ⟨r, List.mem_append_right _ hm, hri⟩

theorem covers_nil {dirty base : List UInt8} {lo hi : ℕ}
    (h : ∀ i, lo ≤ i → i < hi → byteAt dirty i = byteAt base i) : Covers dirty base lo hi [] :=
  ⟨by simp, fun i h1 h2 hne => absurd (h i h1 h2) hne⟩

/-- Equal words have equal bytes. -/
theorem byteAt_eq_of_wordAt_eq {dirty base : List UInt8} {w i : ℕ}
    (hl : dirty.length = base.length) (hw : (w + 1) * wordStride ≤ dirty.length)
    (he : wordAt dirty w = wordAt base w) (h1 : w * wordStride ≤ i)
    (h2 : i < (w + 1) * wordStride) : byteAt dirty i = byteAt base i := by
  have hs : slice dirty (w * wordStride) ((w + 1) * wordStride) =
      slice base (w * wordStride) ((w + 1) * wordStride) := by
    apply List.map_injective_iff.mpr (fun _ _ => UInt8.toNat_inj.mp)
    refine Nat.ofDigits_inj_of_len_eq (by omega) ?_ ?_ ?_ he
    · rw [List.length_map, List.length_map, length_slice hw, length_slice (hl ▸ hw)]
    all_goals
      intro d hd
      obtain ⟨b, -, rfl⟩ := List.mem_map.mp hd
      exact b.toNat_lt
  have hi := congrArg (fun l : List UInt8 => l[i - w * wordStride]?) hs
  simp only [getElem?_slice _ (show w * wordStride + (i - w * wordStride) < (w + 1) * wordStride by omega),
    show w * wordStride + (i - w * wordStride) = i by omega] at hi
  simp only [byteAt, List.getD_eq_getElem?_getD, hi]

theorem lookAhead_bounds (dirty base : List UInt8) (remaining w : ℕ) :
    w ≤ lookAhead dirty base remaining w ∧ lookAhead dirty base remaining w ≤ w + remaining := by
  induction remaining generalizing w with
  | zero => exact ⟨le_rfl, le_rfl⟩
  | succ n ih =>
    simp only [lookAhead]
    split_ifs
    · have := ih (w + 1)
      omega
    · omega

theorem trimLeading_spec (dirty base : List UInt8) (remaining s : ℕ) :
    s ≤ trimLeading dirty base remaining s ∧ trimLeading dirty base remaining s ≤ s + remaining ∧
      ∀ i, s ≤ i → i < trimLeading dirty base remaining s → byteAt dirty i = byteAt base i := by
  induction remaining generalizing s with
  | zero => exact ⟨le_rfl, le_rfl, fun i h1 h2 => absurd h2 (by simp only [trimLeading]; omega)⟩
  | succ n ih =>
    simp only [trimLeading]
    split_ifs with he
    · obtain ⟨h1, h2, h3⟩ := ih (s + 1)
      refine ⟨by omega, by omega, fun i hi1 hi2 => ?_⟩
      by_cases his : i = s
      · rw [his]; exact he
      · exact h3 i (by omega) hi2
    · exact ⟨le_rfl, by omega, fun i h1 h2 => by omega⟩

theorem trimTrailing_spec (dirty base : List UInt8) (s count : ℕ) :
    s ≤ trimTrailing dirty base s count ∧ trimTrailing dirty base s count ≤ s + count ∧
      ∀ i, trimTrailing dirty base s count ≤ i → i < s + count →
        byteAt dirty i = byteAt base i := by
  induction count with
  | zero => exact ⟨le_rfl, le_rfl, fun i h1 h2 => absurd h1 (by simp only [trimTrailing]; omega)⟩
  | succ n ih =>
    simp only [trimTrailing]
    split_ifs with he
    · obtain ⟨h1, h2, h3⟩ := ih
      refine ⟨h1, by omega, fun i hi1 hi2 => ?_⟩
      by_cases his : i = s + n
      · rw [his]; exact he
      · exact h3 i hi1 (by omega)
    · exact ⟨by omega, by omega, fun i h1 h2 => by omega⟩

theorem trimmedRange_covers (dirty base : List UInt8) (a b : ℕ) :
    Covers dirty base a b (trimmedRange dirty base a b) := by
  obtain ⟨l1, l2, l3⟩ := trimLeading_spec dirty base (b - a) a
  obtain ⟨t1, t2, t3⟩ := trimTrailing_spec dirty base (trimLeading dirty base (b - a) a)
    (b - trimLeading dirty base (b - a) a)
  unfold trimmedRange
  dsimp only
  split_ifs with hne
  · constructor
    · intro r hr
      rw [List.mem_singleton.mp hr]
      dsimp only
      omega
    · intro i h1 h2 hd
      refine ⟨_, List.mem_singleton.mpr rfl, ?_, ?_⟩
      · by_contra hlt
        exact hd (l3 i h1 (by omega))
      · by_contra hge
        exact hd (t3 i (by omega) (by omega))
  · -- nothing is left between the two ends, so all bytes of the run match
    refine covers_nil fun i h1 h2 => ?_
    by_cases hi : i < trimLeading dirty base (b - a) a
    · exact l3 i h1 hi
    · exact t3 i (by omega) (by omega)

theorem scanWords_covers {dirty base : List UInt8} (hl : dirty.length = base.length)
    {wordCount : ℕ} (hw : wordCount * wordStride ≤ dirty.length) (turns w : ℕ)
    (hle : w ≤ wordCount) (ht : wordCount - w ≤ turns) :
    Covers dirty base (w * wordStride) (wordCount * wordStride)
      (scanWords dirty base wordCount turns w) := by
  simp only [wordStride] at *
  induction turns generalizing w with
  | zero => exact covers_nil fun i h1 h2 => by omega
  | succ n ih =>
    simp only [scanWords, wordStride]
    split_ifs with hlt hne
    · obtain ⟨h1, h2⟩ := lookAhead_bounds dirty base (wordCount - (w + 1)) (w + 1)
      exact (trimmedRange_covers dirty base _ _).append
        (ih _ (by omega) (by omega)) (by omega) (by omega)
    · have hsame : Covers dirty base (w * 8) ((w + 1) * 8) [] := covers_nil fun i h1 h2 =>
        byteAt_eq_of_wordAt_eq hl (by simp only [wordStride]; omega) (not_not.mp hne) h1 h2
      exact hsame.append (ih (w + 1) (by omega) (by omega)) (by omega) (by omega)
    · exact covers_nil fun i h1 h2 => by omega

theorem scanTail_covers (dirty base : List UInt8) {a n : ℕ} (h : a ≤ n) :
    Covers dirty base a n (scanTail dirty base a n) := by
  constructor
  · intro r hr
    obtain ⟨i, hi, rfl⟩ := List.mem_map.mp hr
    have hm := List.mem_range'_1.mp (List.mem_filter.mp hi).1
    dsimp only
    omega
  · intro i h1 h2 hne
    refine ⟨(i, i + 1), List.mem_map.mpr ⟨i, ?_, rfl⟩, le_rfl, Nat.lt_succ_self i⟩
    exact List.mem_filter.mpr ⟨List.mem_range'_1.mpr (by omega), by simpa using hne⟩

theorem modifiedRanges_covers {dirty base : List UInt8} (hl : dirty.length = base.length) :
    Covers dirty base 0 dirty.length (modifiedRanges dirty base) := by
  have hw : dirty.length / wordStride * wordStride ≤ dirty.length := Nat.div_mul_le_self _ _
  have hs := scanWords_covers hl hw (dirty.length / wordStride) 0 (Nat.zero_le _)
    (Nat.sub_le _ _)
  rw [zero_mul] at hs
  exact hs.append (scanTail_covers dirty base hw) (Nat.zero_le _) hw

/-- The offset of a chunk of a page of at most `2 ^ 32` bytes is not cut. -/
theorem offset_chunkOf {dirty : List UInt8} (hn : dirty.length ≤ 2 ^ 32) {r : ℕ × ℕ} (h1 : r.1 < r.2)
    (h2 : r.2 ≤ dirty.length) : (chunkOf dirty r).offset.toNat = r.1 := by
  simp only [chunkOf, Nat.toUInt32_eq, UInt32.toNat_ofNat']
  exact Nat.mod_eq_of_lt (by omega)

/-- Applying the chunks of in-bounds ranges is writing those windows of the dirty page. -/
theorem applyChunks_chunkOf {dirty : List UInt8} (hn : dirty.length ≤ 2 ^ 32)
    {rs : List (ℕ × ℕ)} (hr : ∀ r ∈ rs, r.1 < r.2 ∧ r.2 ≤ dirty.length) {page : List UInt8}
    (hp : page.length = dirty.length) :
    applyChunks dirty.length page (rs.map (chunkOf dirty)) = (.ok (), overwrite dirty page rs) := by
  induction rs generalizing page with
  | nil => rfl
  | cons r rs ih =>
    obtain ⟨h1, h2⟩ := hr r (List.mem_cons_self ..)
    have hs := length_slice (a := r.1) h2
    have ho := offset_chunkOf hn h1 h2
    have hb : (chunkOf dirty r).bytes = slice dirty r.1 r.2 := rfl
    simp only [List.map_cons, applyChunks, ho, hb, hs]
    rw [if_neg (by omega)]
    refine ih (fun s hs => hr s (List.mem_cons_of_mem _ hs)) ?_
    rw [length_splice (by omega), hp]

theorem computeDiff_eq_ok_iff {pageVaddr : UInt64} {dirty base : ByteSlice} {diff : PageDiffList}
    (hl : dirty.bytes.length = base.bytes.length) :
    computeDiff pageVaddr dirty base = some (.ok diff) ↔
      (dirty.WordAligned ∧ base.WordAligned) ∧ pageDiff pageVaddr dirty.bytes base.bytes = diff := by
  simp only [computeDiff]
  rw [if_neg (not_not.mpr hl)]
  split_ifs with ha
  · simp [ha]
  · simp [ha]

theorem exists_computeDiff_iff {pageVaddr : UInt64} {dirty base : ByteSlice} {P : PageDiffList → Prop}
    (hl : dirty.bytes.length = base.bytes.length) (hdiff : P (pageDiff pageVaddr dirty.bytes base.bytes)) :
    (∃ diff, computeDiff pageVaddr dirty base = some (.ok diff) ∧ P diff) ↔
      dirty.WordAligned ∧ base.WordAligned := by
  constructor
  · rintro ⟨diff, heq, -⟩
    exact ((computeDiff_eq_ok_iff hl).mp heq).1
  · intro ha
    exact ⟨_, (computeDiff_eq_ok_iff hl).mpr ⟨ha, rfl⟩, hdiff⟩

/-- The diff of two pages of one length turns the baseline into the dirty page. -/
theorem applyPatch_pageDiff_base (pageVaddr : UInt64) {dirty base : List UInt8}
    (hl : dirty.length = base.length) (hn : dirty.length ≤ 2 ^ 32) :
    applyPatch base (pageDiff pageVaddr dirty base) = (.ok (), dirty) := by
  have hc := modifiedRanges_covers hl
  have hr : ∀ r ∈ modifiedRanges dirty base, r.1 < r.2 ∧ r.2 ≤ dirty.length :=
    fun r hm => (hc.bounds r hm).2
  rw [applyPatch, pageDiff, ← hl, applyChunks_chunkOf hn hr hl.symm]
  congr 1
  refine overwrite_eq_of_cover hl.symm (fun r hm => ⟨(hr r hm).1.le, (hr r hm).2⟩) fun i hne => ?_
  have hi : i < dirty.length := by
    by_contra hge
    exact hne (by rw [List.getElem?_eq_none (by omega), List.getElem?_eq_none (by omega)])
  refine hc.cover i (Nat.zero_le _) hi fun he => hne ?_
  rw [List.getElem?_eq_getElem hi, List.getElem?_eq_getElem (hl ▸ hi)]
  simpa [byteAt, hi, hl ▸ hi] using he.symm

/-- Diff and patch are inverse to each other on pages that both start at the address of a word. -/
theorem diff_roundTrips_iff (pageVaddr : UInt64) (dirty base : ByteSlice)
    (hl : dirty.bytes.length = base.bytes.length) (hn : dirty.bytes.length ≤ 2 ^ 32) :
    (∃ diff, computeDiff pageVaddr dirty base = some (.ok diff) ∧
        applyPatch base.bytes diff = (.ok (), dirty.bytes)) ↔
      dirty.WordAligned ∧ base.WordAligned :=
  exists_computeDiff_iff hl (applyPatch_pageDiff_base pageVaddr hl hn)

theorem diff_roundTrips_nine_bytes :
    ∃ diff, computeDiff 4096 ⟨0x10000, [0, 0, 7, 0, 0, 0, 0, 0, 9]⟩ ⟨0x20008, List.replicate 9 0⟩ =
        some (.ok diff) ∧
      applyPatch (List.replicate 9 0) diff = (.ok (), [0, 0, 7, 0, 0, 0, 0, 0, 9]) :=
  (diff_roundTrips_iff 4096 ⟨0x10000, [0, 0, 7, 0, 0, 0, 0, 0, 9]⟩ ⟨0x20008, List.replicate 9 0⟩ rfl
    (by decide)).mpr (by decide)

/-- A page that is borrowed from the second byte of a buffer on, and the empty page, which has the address
1. -/
theorem diff_undefined_at_odd_address :
    (¬ ∃ diff, computeDiff 4096 ⟨0x10001, [0, 0, 7, 0, 0, 0, 0, 0, 9]⟩ ⟨0x20008, List.replicate 9 0⟩ =
        some (.ok diff) ∧
      applyPatch (List.replicate 9 0) diff = (.ok (), [0, 0, 7, 0, 0, 0, 0, 0, 9])) ∧
    ¬ ∃ diff, computeDiff 4096 ⟨1, []⟩ ⟨1, []⟩ = some (.ok diff) ∧ applyPatch [] diff = (.ok (), []) := by
  constructor
  · rintro ⟨diff, heq, -⟩
    have hnone : computeDiff 4096 ⟨0x10001, [0, 0, 7, 0, 0, 0, 0, 0, 9]⟩ ⟨0x20008, List.replicate 9 0⟩ =
        none := by
      decide
    rw [hnone] at heq
    exact nomatch heq
  · rintro ⟨diff, heq, -⟩
    have hnone : computeDiff 4096 ⟨1, []⟩ ⟨1, []⟩ = none := by decide
    rw [hnone] at heq
    exact nomatch heq

end MemoryDiffEngine
end Virthub.Klnk
