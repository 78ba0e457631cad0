import Virthub.Klnk.Core.Diff

/-! Two diffs of one baseline. A chunk never reaches beyond the words its writer modified, so the
diffs of writers that modified different words do not disturb each other. -/
namespace Virthub.Klnk
open Virthub.Lib

namespace MemoryDiffEngine

/-- The aligned word at position `i` is modified, or the byte itself behind the last full word. -/
def Touched (dirty base : List UInt8) (i : ℕ) : Prop :=
  if i < base.length / wordStride * wordStride then
    wordAt dirty (i / wordStride) ≠ wordAt base (i / wordStride)
  else byteAt dirty i ≠ byteAt base i

/-- No aligned word, and no byte behind the last full one, is modified by both writers. -/
structure DisjointWriters (base first second : List UInt8) : Prop where
  words : ∀ w < base.length / wordStride,
    wordAt first w = wordAt base w ∨ wordAt second w = wordAt base w
  tail : ∀ i < base.length, base.length / wordStride * wordStride ≤ i →
    byteAt first i = byteAt base i ∨ byteAt second i = byteAt base i

theorem DisjointWriters.not_touched {base first second : List UInt8}
    (h : DisjointWriters base first second) {i : ℕ} (hi : i < base.length)
    (hf : Touched first base i) : ¬ Touched second base i := by
  unfold Touched at hf ⊢
  split_ifs at hf ⊢ with hw
  · have hword : i / wordStride < base.length / wordStride := Nat.div_lt_of_lt_mul (by rwa [mul_comm])
    exact not_not.mpr ((h.words _ hword).resolve_left hf)
  · exact not_not.mpr ((h.tail i hi (not_lt.mp hw)).resolve_left hf)

theorem wordAt_ne_of_lt_lookAhead {dirty base : List UInt8} {remaining w v : ℕ} (hv : w ≤ v)
    (hlt : v < lookAhead dirty base remaining w) : wordAt dirty v ≠ wordAt base v := by
  induction remaining generalizing w with
  | zero =>
    simp only [lookAhead] at hlt
    omega
  | succ n ih =>
    simp only [lookAhead] at hlt
    split_ifs at hlt with hne
    · rcases hv.eq_or_lt with rfl | hv
      · exact hne
      · exact ih hv hlt
    · omega

/-- A range of the word loop lies in modified words. -/
theorem wordAt_ne_of_mem_scanWords {dirty base : List UInt8} {wordCount turns w i : ℕ} {r : ℕ × ℕ}
    (hr : r ∈ scanWords dirty base wordCount turns w) (h1 : r.1 ≤ i) (h2 : i < r.2) :
    wordAt dirty (i / wordStride) ≠ wordAt base (i / wordStride) := by
  induction turns generalizing w with
  | zero => cases hr
  | succ n ih =>
    simp only [scanWords] at hr
    split_ifs at hr with hlt hne
    · rcases List.mem_append.mp hr with hr | hr
      · have hb := (trimmedRange_covers dirty base _ _).bounds r hr
        simp only [wordStride] at hb ⊢
        have hwi : w ≤ i / 8 := by omega
        rcases hwi.eq_or_lt with heq | hgt
        · rw [← heq]
          exact hne
        · have hnext : i / 8 < lookAhead dirty base (wordCount - (w + 1)) (w + 1) := by omega
          exact wordAt_ne_of_lt_lookAhead hgt hnext
      · exact ih hr
    · exact ih hr
    · cases hr

theorem touched_of_mem_modifiedRanges {dirty base : List UInt8} (hl : dirty.length = base.length)
    {i : ℕ} {r : ℕ × ℕ} (hr : r ∈ modifiedRanges dirty base) (h1 : r.1 ≤ i) (h2 : i < r.2) :
    Touched dirty base i := by
  have hw : dirty.length / wordStride * wordStride ≤ dirty.length := Nat.div_mul_le_self _ _
  unfold Touched
  rw [← hl]
  rcases List.mem_append.mp hr with hr | hr
  · have hb := (scanWords_covers hl hw (dirty.length / wordStride) 0 (Nat.zero_le _)
      (Nat.sub_le _ _)).bounds r hr
    rw [if_pos (by omega)]
    exact wordAt_ne_of_mem_scanWords hr h1 h2
  · have hb := (scanTail_covers dirty base hw).bounds r hr
    rw [if_neg (by omega)]
    obtain ⟨j, hj, rfl⟩ := List.mem_map.mp hr
    obtain rfl : i = j := by
      dsimp only at h1 h2
      omega
    simpa using (List.mem_filter.mp hj).2

/-- Positions that a diff of `dirty` writes. -/
def Written (dirty base : List UInt8) (i : ℕ) : Prop :=
  ∃ r ∈ modifiedRanges dirty base, r.1 ≤ i ∧ i < r.2

theorem Written.touched {dirty base : List UInt8} (hl : dirty.length = base.length) {i : ℕ}
    (h : Written dirty base i) : Touched dirty base i := by
  obtain ⟨r, hr, h1, h2⟩ := h
  exact touched_of_mem_modifiedRanges hl hr h1 h2

theorem getElem?_eq_of_not_written {dirty base : List UInt8} (hl : dirty.length = base.length)
    {i : ℕ} (h : ¬ Written dirty base i) : base[i]? = dirty[i]? := by
  by_cases hi : i < dirty.length
  · have hb : byteAt dirty i = byteAt base i := by
      by_contra hne
      exact h ((modifiedRanges_covers hl).cover i (Nat.zero_le _) hi hne)
    rw [List.getElem?_eq_getElem hi, List.getElem?_eq_getElem (hl ▸ hi)]
    simpa [byteAt, hi, hl ▸ hi] using hb.symm
  · rw [List.getElem?_eq_none (by omega), List.getElem?_eq_none (by omega)]

/-- The diff of a dirty page on any page of its length. -/
theorem applyPatch_pageDiff (pageVaddr : UInt64) {dirty base page : List UInt8}
    (hl : dirty.length = base.length) (hn : dirty.length ≤ 2 ^ 32) (hp : page.length = dirty.length) :
    ∃ result, applyPatch page (pageDiff pageVaddr dirty base) = (.ok (), result) ∧
      result.length = dirty.length ∧
      ∀ i, (Written dirty base i → result[i]? = dirty[i]?) ∧
        (¬ Written dirty base i → result[i]? = page[i]?) := by
  have hr : ∀ r ∈ modifiedRanges dirty base, r.1 < r.2 ∧ r.2 ≤ dirty.length :=
    fun r hm => ((modifiedRanges_covers hl).bounds r hm).2
  have hbounds : ∀ r ∈ modifiedRanges dirty base, r.1 ≤ r.2 ∧ r.2 ≤ dirty.length :=
    fun r hm => ⟨(hr r hm).1.le, (hr r hm).2⟩
  refine ⟨_, by rw [applyPatch, pageDiff, hp, applyChunks_chunkOf hn hr hp], length_overwrite hp hbounds,
    fun i => ⟨fun hw => ?_, fun hw => ?_⟩⟩
  · unfold Written at hw
    rw [getElem?_overwrite hp hbounds, if_pos hw]
  · unfold Written at hw
    rw [getElem?_overwrite hp hbounds, if_neg hw]

/-- Both diffs on the baseline, one after the other: each position shows the writer that modified its
word. -/
structure Merged (base first second merged : List UInt8) : Prop where
  length : merged.length = base.length
  ofFirst : ∀ i < base.length, Touched first base i → merged[i]? = first[i]?
  ofSecond : ∀ i < base.length, Touched second base i → merged[i]? = second[i]?
  untouched : ∀ i < base.length, ¬ Touched first base i → ¬ Touched second base i → merged[i]? = base[i]?

theorem Merged.symm {base first second merged : List UInt8} (h : Merged base first second merged) :
    Merged base second first merged :=
  ⟨h.length, h.ofSecond, h.ofFirst, fun i hi hs hf => h.untouched i hi hf hs⟩

theorem Merged.unique {base first second merged other : List UInt8}
    (h : Merged base first second merged) (h' : Merged base first second other) : merged = other := by
  apply List.ext_getElem?
  intro i
  by_cases hi : i < base.length
  · by_cases hf : Touched first base i
    · rw [h.ofFirst i hi hf, h'.ofFirst i hi hf]
    · by_cases hs : Touched second base i
      · rw [h.ofSecond i hi hs, h'.ofSecond i hi hs]
      · rw [h.untouched i hi hf hs, h'.untouched i hi hf hs]
  · rw [List.getElem?_eq_none (by rw [h.length]; omega),
      List.getElem?_eq_none (by rw [h'.length]; omega)]

theorem merged_of_applyPatch (vaddr : UInt64) {base first second : List UInt8}
    (hlf : first.length = base.length) (hls : second.length = base.length)
    (hn : base.length ≤ 2 ^ 32) (hd : DisjointWriters base first second) :
    ∃ middle merged, applyPatch base (pageDiff vaddr first base) = (.ok (), middle) ∧
      applyPatch middle (pageDiff vaddr second base) = (.ok (), merged) ∧
      Merged base first second merged := by
  obtain ⟨middle, happly, hlen, hmid⟩ := applyPatch_pageDiff vaddr hlf (hlf ▸ hn) hlf.symm
  have hmiddle : middle.length = second.length := by rw [hlen, hlf, hls]
  obtain ⟨merged, happly', hlen', hmer⟩ := applyPatch_pageDiff vaddr hls (hls ▸ hn) hmiddle
  refine ⟨middle, merged, happly, happly', hlen'.trans hls, fun i hi ht => ?_, fun i hi ht => ?_,
    fun i hi htf hts => ?_⟩
  · -- the second diff leaves the words of the first writer alone
    have hns : ¬ Written second base i := fun hw => hd.not_touched hi ht (hw.touched hls)
    rw [(hmer i).2 hns]
    by_cases hw : Written first base i
    · exact (hmid i).1 hw
    · rw [(hmid i).2 hw, getElem?_eq_of_not_written hlf hw]
  · by_cases hw : Written second base i
    · exact (hmer i).1 hw
    · have hnf : ¬ Written first base i := fun hw => hd.not_touched hi (hw.touched hlf) ht
      rw [(hmer i).2 hw, (hmid i).2 hnf, getElem?_eq_of_not_written hls hw]
  · have hnf : ¬ Written first base i := fun hw => htf (hw.touched hlf)
    have hns : ¬ Written second base i := fun hw => hts (hw.touched hls)
    rw [(hmer i).2 hns, (hmid i).2 hnf]

theorem DisjointWriters.symm {base first second : List UInt8}
    (h : DisjointWriters base first second) : DisjointWriters base second first :=
  ⟨fun w hw => (h.words w hw).symm, fun i hi ht => (h.tail i hi ht).symm⟩

/-- Diffs that the two writers have made can be applied to the baseline in either order. -/
def MergeInEitherOrder (base first second : List UInt8) (diff diff' : PageDiffList) : Prop :=
  ∃ middle middle' merged,
    applyPatch base diff = (.ok (), middle) ∧ applyPatch middle diff' = (.ok (), merged) ∧
      applyPatch base diff' = (.ok (), middle') ∧ applyPatch middle' diff = (.ok (), merged) ∧
      Merged base first second merged

theorem pageDiffs_merge (vaddr : UInt64) {base first second : List UInt8}
    (hlf : first.length = base.length) (hls : second.length = base.length)
    (hn : base.length ≤ 2 ^ 32) (hd : DisjointWriters base first second) :
    MergeInEitherOrder base first second (pageDiff vaddr first base) (pageDiff vaddr second base) := by
  obtain ⟨middle, merged, h1, h2, hm⟩ := merged_of_applyPatch vaddr hlf hls hn hd
  obtain ⟨middle', merged', h3, h4, hm'⟩ := merged_of_applyPatch vaddr hls hlf hn hd.symm
  obtain rfl : merged = merged' := hm.unique hm'.symm
  exact ⟨middle, middle', merged, h1, h2, h3, h4, hm⟩

/-- The diffs of writers of different words may be applied in either order, if the three pages start at the
addresses of words. -/
theorem diffs_of_disjoint_writers_merge_iff (vaddr : UInt64) (base first second : ByteSlice)
    (hlf : first.bytes.length = base.bytes.length) (hls : second.bytes.length = base.bytes.length)
    (hn : base.bytes.length ≤ 2 ^ 32) (hd : DisjointWriters base.bytes first.bytes second.bytes) :
    (∃ diff diff', computeDiff vaddr first base = some (.ok diff) ∧
        computeDiff vaddr second base = some (.ok diff') ∧
        MergeInEitherOrder base.bytes first.bytes second.bytes diff diff') ↔
      base.WordAligned ∧ first.WordAligned ∧ second.WordAligned := by
  constructor
  · rintro ⟨diff, diff', hfirst, hsecond, -⟩
    have hf := ((computeDiff_eq_ok_iff hlf).mp hfirst).1
    have hs := ((computeDiff_eq_ok_iff hls).mp hsecond).1
    exact ⟨hf.2, hf.1, hs.1⟩
  · rintro ⟨hb, hf, hs⟩
    exact ⟨_, _, (computeDiff_eq_ok_iff hlf).mpr ⟨⟨hf, hb⟩, rfl⟩, (computeDiff_eq_ok_iff hls).mpr
      ⟨⟨hs, hb⟩, rfl⟩, pageDiffs_merge vaddr hlf hls hn hd⟩

def blankPage : List UInt8 := List.replicate 18 0

/-- A write in the first word and one behind the last full word. -/
def outerWrites : List UInt8 := [0, 0, 7, 0, 0, 0, 0, 0, 0, 0, 0, 0, 0, 0, 0, 0, 9, 0]

/-- A write in the second word and one on the other byte behind it. -/
def innerWrites : List UInt8 := [0, 0, 0, 0, 0, 0, 0, 0, 1, 0, 0, 0, 0, 0, 0, 2, 0, 3]

theorem disjointWriters_blankPage : DisjointWriters blankPage outerWrites innerWrites :=
  ⟨by decide, by decide⟩

theorem diffs_merge_blankPage : DisjointWriters blankPage outerWrites innerWrites ∧
    ∃ diff diff', computeDiff 4096 ⟨0x10000, outerWrites⟩ ⟨0x30000, blankPage⟩ = some (.ok diff) ∧
      computeDiff 4096 ⟨0x20000, innerWrites⟩ ⟨0x30000, blankPage⟩ = some (.ok diff') ∧
      MergeInEitherOrder blankPage outerWrites innerWrites diff diff' :=
  ⟨disjointWriters_blankPage, (diffs_of_disjoint_writers_merge_iff 4096 ⟨0x30000, blankPage⟩
    ⟨0x10000, outerWrites⟩ ⟨0x20000, innerWrites⟩ rfl rfl (by decide) disjointWriters_blankPage).mpr
    (by decide)⟩

/-- The second writer's copy starts one byte behind the address of a word. -/
theorem diffs_undefined_at_odd_address : DisjointWriters blankPage outerWrites innerWrites ∧
    ¬ ∃ diff diff', computeDiff 4096 ⟨0x10000, outerWrites⟩ ⟨0x30000, blankPage⟩ = some (.ok diff) ∧
      computeDiff 4096 ⟨0x20001, innerWrites⟩ ⟨0x30000, blankPage⟩ = some (.ok diff') ∧
      MergeInEitherOrder blankPage outerWrites innerWrites diff diff' := by
  refine ⟨disjointWriters_blankPage, ?_⟩
  rintro ⟨diff, diff', -, heq, -⟩
  have hnone : computeDiff 4096 ⟨0x20001, innerWrites⟩ ⟨0x30000, blankPage⟩ = none := by decide
  rw [hnone] at heq
  exact nomatch heq

end MemoryDiffEngine
end Virthub.Klnk
