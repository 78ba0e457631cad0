import Mathlib.Algebra.BigOperators.Intervals
import Virthub.Klnk.Core.DiffMerge

/-! The chunks of a diff are canonical: they begin and end at modified bytes, stand in order with an
unchanged word between them, and have at most eight bytes for every byte that is modified. -/
namespace Virthub.Klnk.MemoryDiffEngine
open Virthub.Lib

variable {dirty base : List UInt8}

/-- The byte is modified. -/
def Differs (dirty base : List UInt8) (i : ℕ) : Prop := byteAt dirty i ≠ byteAt base i

instance (dirty base : List UInt8) (i : ℕ) : Decidable (Differs dirty base i) :=
  inferInstanceAs (Decidable (_ ≠ _))

/-- Number of modified bytes with `lo ≤ i < hi`. -/
def differing (dirty base : List UInt8) (lo hi : ℕ) : ℕ :=
  ((Finset.Ico lo hi).filter fun i => Differs dirty base i).card

theorem differing_add (dirty base : List UInt8) {lo mid hi : ℕ} (hlo : lo ≤ mid) (hhi : mid ≤ hi) :
    differing dirty base lo mid + differing dirty base mid hi = differing dirty base lo hi := by
  unfold differing
  rw [Finset.card_filter, Finset.card_filter, Finset.card_filter, Finset.sum_Ico_consecutive _ hlo hhi]

theorem differing_pos {lo hi i : ℕ} (hlo : lo ≤ i) (hhi : i < hi) (hd : Differs dirty base i) :
    1 ≤ differing dirty base lo hi :=
  Finset.card_pos.mpr ⟨i, Finset.mem_filter.mpr ⟨Finset.mem_Ico.mpr ⟨hlo, hhi⟩, hd⟩⟩

theorem getElem?_eq_some_byteAt {page : List UInt8} {i : ℕ} (hi : i < page.length) :
    page[i]? = some (byteAt page i) := by
  rw [byteAt, List.getD_eq_getElem?_getD, List.getElem?_eq_getElem hi]
  rfl

/-- A modified word has a modified byte. -/
theorem exists_differs_of_wordAt_ne (hl : dirty.length = base.length) {w : ℕ}
    (hw : (w + 1) * wordStride ≤ dirty.length) (hne : wordAt dirty w ≠ wordAt base w) :
    ∃ i, w * wordStride ≤ i ∧ i < (w + 1) * wordStride ∧ Differs dirty base i := by
  by_contra hnone
  apply hne
  have hslice : slice dirty (w * wordStride) ((w + 1) * wordStride) =
      slice base (w * wordStride) ((w + 1) * wordStride) := by
    apply List.ext_getElem?
    intro j
    by_cases hj : w * wordStride + j < (w + 1) * wordStride
    · have hsame : byteAt dirty (w * wordStride + j) = byteAt base (w * wordStride + j) := by
        by_contra hd
        exact hnone ⟨_, Nat.le_add_right _ _, hj, hd⟩
      rw [getElem?_slice dirty hj, getElem?_slice base hj, getElem?_eq_some_byteAt (by omega),
        getElem?_eq_some_byteAt (by omega), hsame]
    · have hlen := length_slice (a := w * wordStride) hw
      have hlen' := length_slice (a := w * wordStride) (hl ▸ hw)
      rw [List.getElem?_eq_none (by omega), List.getElem?_eq_none (by omega)]
  rw [wordAt, wordAt, hslice]

/-- A run of modified words has a modified byte for every word. -/
theorem le_differing_of_words (hl : dirty.length = base.length) {a b : ℕ} (hab : a ≤ b)
    (hb : b * wordStride ≤ dirty.length)
    (hne : ∀ v, a ≤ v → v < b → wordAt dirty v ≠ wordAt base v) :
    b - a ≤ differing dirty base (a * wordStride) (b * wordStride) := by
  induction b, hab using Nat.le_induction with
  | base => omega
  | succ b hab ih =>
    have hmul : (b + 1) * wordStride = b * wordStride + wordStride := Nat.succ_mul _ _
    have hlo : a * wordStride ≤ b * wordStride := Nat.mul_le_mul_right _ hab
    have hrest := ih (by omega) fun v h1 h2 => hne v h1 (by omega)
    obtain ⟨i, h1, h2, hd⟩ := exists_differs_of_wordAt_ne hl hb (hne b hab (by omega))
    have hlast := differing_pos h1 h2 hd
    rw [← differing_add dirty base hlo (by omega)]
    omega

/-- The ranges cover the modified bytes with `lo ≤ i < hi` and are no larger than they have to be: they
begin and end at modified bytes, stand in order, and have at most eight bytes for each modified one. -/
structure Exact (dirty base : List UInt8) (lo hi : ℕ) (rs : List (ℕ × ℕ)) : Prop extends
    Covers dirty base lo hi rs where
  ends : ∀ r ∈ rs, Differs dirty base r.1 ∧ Differs dirty base (r.2 - 1)
  ordered : rs.Pairwise fun r s => r.2 ≤ s.1
  weight : (rs.map fun r => r.2 - r.1).sum ≤ 8 * differing dirty base lo hi

theorem Exact.append {lo mid hi : ℕ} {rs ss : List (ℕ × ℕ)} (hr : Exact dirty base lo mid rs)
    (hs : Exact dirty base mid hi ss) (hlo : lo ≤ mid) (hhi : mid ≤ hi) :
    Exact dirty base lo hi (rs ++ ss) := by
  refine ⟨hr.toCovers.append hs.toCovers hlo hhi, ?_, ?_, ?_⟩
  · intro r hm
    rcases List.mem_append.mp hm with hm | hm
    · exact hr.ends r hm
    · exact hs.ends r hm
  · refine List.pairwise_append.mpr ⟨hr.ordered, hs.ordered, fun r hrm s hsm => ?_⟩
    have h1 := hr.bounds r hrm
    have h2 := hs.bounds s hsm
    omega
  · have h1 := hr.weight
    have h2 := hs.weight
    rw [List.map_append, List.sum_append, ← differing_add dirty base hlo hhi]
    omega

theorem exact_nil {lo hi : ℕ} (h : ∀ i, lo ≤ i → i < hi → byteAt dirty i = byteAt base i) :
    Exact dirty base lo hi [] :=
  ⟨covers_nil h, by simp, .nil, Nat.zero_le _⟩

/-- The trimming of leading bytes stops at a modified one. -/
theorem differs_trimLeading {remaining s : ℕ}
    (h : trimLeading dirty base remaining s < s + remaining) :
    Differs dirty base (trimLeading dirty base remaining s) := by
  induction remaining generalizing s with
  | zero =>
    simp only [trimLeading] at h
    omega
  | succ n ih =>
    simp only [trimLeading] at h ⊢
    split_ifs at h ⊢ with he
    · exact ih (by omega)
    · exact he

theorem differs_trimTrailing {s count : ℕ} (h : s < trimTrailing dirty base s count) :
    Differs dirty base (trimTrailing dirty base s count - 1) := by
  induction count with
  | zero =>
    simp only [trimTrailing] at h
    omega
  | succ n ih =>
    simp only [trimTrailing] at h ⊢
    split_ifs at h ⊢ with he
    · exact ih h
    · rw [Nat.add_sub_cancel]
      exact he

theorem trimmedRange_exact (hl : dirty.length = base.length) {a b : ℕ} (hab : a ≤ b)
    (hb : b * wordStride ≤ dirty.length)
    (hne : ∀ v, a ≤ v → v < b → wordAt dirty v ≠ wordAt base v) :
    Exact dirty base (a * wordStride) (b * wordStride)
      (trimmedRange dirty base (a * wordStride) (b * wordStride)) := by
  have hcovers := trimmedRange_covers dirty base (a * wordStride) (b * wordStride)
  have hwords := le_differing_of_words hl hab hb hne
  obtain ⟨l1, l2, -⟩ := trimLeading_spec dirty base (b * wordStride - a * wordStride) (a * wordStride)
  unfold trimmedRange at hcovers ⊢
  dsimp only at hcovers ⊢
  split_ifs at hcovers ⊢ with hlt
  · refine ⟨hcovers, ?_, List.pairwise_singleton _ _, ?_⟩
    · obtain ⟨-, hup⟩ := hcovers.bounds _ (List.mem_singleton_self _)
      intro r hr
      rw [List.mem_singleton.mp hr]
      dsimp only at hup ⊢
      exact ⟨differs_trimLeading (by omega), differs_trimTrailing hlt⟩
    · obtain ⟨hlo, -, hhi⟩ := hcovers.bounds _ (List.mem_singleton_self _)
      have hmul : (b - a) * wordStride = b * wordStride - a * wordStride := Nat.sub_mul _ _ _
      rw [List.map_singleton, List.sum_singleton]
      dsimp only [wordStride] at *
      omega
  · exact ⟨hcovers, by simp, .nil, Nat.zero_le _⟩

theorem scanWords_exact (hl : dirty.length = base.length) {wordCount : ℕ}
    (hw : wordCount * wordStride ≤ dirty.length) (turns w : ℕ) (hle : w ≤ wordCount)
    (ht : wordCount - w ≤ turns) :
    Exact dirty base (w * wordStride) (wordCount * wordStride)
      (scanWords dirty base wordCount turns w) := by
  induction turns generalizing w with
  | zero =>
    have hend : w = wordCount := by omega
    exact exact_nil fun i h1 h2 => by rw [hend] at h1; omega
  | succ n ih =>
    rw [scanWords]
    split_ifs with hlt hne
    · obtain ⟨h1, h2⟩ := lookAhead_bounds dirty base (wordCount - (w + 1)) (w + 1)
      have hmodified : ∀ v, w ≤ v → v < lookAhead dirty base (wordCount - (w + 1)) (w + 1) →
          wordAt dirty v ≠ wordAt base v := by
        intro v hv hvlt
        rcases Nat.eq_or_lt_of_le hv with rfl | hv
        · exact hne
        · exact wordAt_ne_of_lt_lookAhead hv hvlt
      have hlo := Nat.mul_le_mul_right wordStride (Nat.le_of_succ_le h1)
      have hhi : lookAhead dirty base (wordCount - (w + 1)) (w + 1) * wordStride ≤
          wordCount * wordStride := Nat.mul_le_mul_right _ (by omega)
      exact (trimmedRange_exact hl (by omega) (hhi.trans hw) hmodified).append
        (ih _ (by omega) (by omega)) hlo hhi
    · have hsame : Exact dirty base (w * wordStride) ((w + 1) * wordStride) [] := by
        refine exact_nil fun i h1 h2 => byteAt_eq_of_wordAt_eq hl ?_ (not_not.mp hne) h1 h2
        exact (Nat.mul_le_mul_right _ hlt).trans hw
      exact hsame.append (ih (w + 1) (by omega) (by omega)) (Nat.mul_le_mul_right _ (by omega))
        (Nat.mul_le_mul_right _ hlt)
    · have hend : w = wordCount := by omega
      exact exact_nil fun i h1 h2 => by rw [hend] at h1; omega

theorem scanTail_exact (dirty base : List UInt8) {a n : ℕ} (h : a ≤ n) :
    Exact dirty base a n (scanTail dirty base a n) := by
  refine ⟨scanTail_covers dirty base h, ?_, ?_, ?_⟩
  · intro r hr
    obtain ⟨i, hi, rfl⟩ := List.mem_map.mp hr
    have hd : byteAt dirty i ≠ byteAt base i := by simpa using (List.mem_filter.mp hi).2
    exact ⟨hd, hd⟩
  · apply List.pairwise_map.mpr
    exact (List.pairwise_lt_range').filter _
  · have hcount : ((List.range' a (n - a)).filter fun i => byteAt dirty i ≠ byteAt base i).length =
        differing dirty base a n := rfl
    have hone : (fun r : ℕ × ℕ => r.2 - r.1) ∘ (fun i => (i, i + 1)) = fun _ => 1 := by
      funext i
      exact Nat.add_sub_cancel_left i 1
    rw [scanTail, List.map_map, hone, List.map_const', List.sum_replicate_nat, hcount]
    omega

theorem modifiedRanges_exact (hl : dirty.length = base.length) :
    Exact dirty base 0 dirty.length (modifiedRanges dirty base) := by
  have hw : dirty.length / wordStride * wordStride ≤ dirty.length := Nat.div_mul_le_self _ _
  have hs := scanWords_exact hl hw (dirty.length / wordStride) 0 (Nat.zero_le _) (Nat.sub_le _ _)
  rw [zero_mul] at hs
  exact hs.append (scanTail_exact dirty base hw) (Nat.zero_le _) hw

/-- An unchanged word stands between the ranges. -/
def Apart (dirty base : List UInt8) (r s : ℕ × ℕ) : Prop :=
  ∃ w, r.2 ≤ w * wordStride ∧ (w + 1) * wordStride ≤ s.1 ∧ wordAt dirty w = wordAt base w

/-- A run of modified words that does not reach the end is followed by an unchanged one. -/
theorem wordAt_lookAhead {remaining w : ℕ} (h : lookAhead dirty base remaining w < w + remaining) :
    wordAt dirty (lookAhead dirty base remaining w) = wordAt base (lookAhead dirty base remaining w) := by
  induction remaining generalizing w with
  | zero =>
    simp only [lookAhead] at h
    omega
  | succ n ih =>
    simp only [lookAhead] at h ⊢
    split_ifs at h ⊢ with he
    · exact ih (by omega)
    · exact not_not.mp he

theorem le_of_mem_scanWords (hl : dirty.length = base.length) {wordCount : ℕ}
    (hw : wordCount * wordStride ≤ dirty.length) {turns w : ℕ} (hlt : w < wordCount)
    (ht : wordCount - w ≤ turns) (heq : wordAt dirty w = wordAt base w) {r : ℕ × ℕ}
    (hr : r ∈ scanWords dirty base wordCount turns w) : (w + 1) * wordStride ≤ r.1 := by
  obtain ⟨n, rfl⟩ : ∃ n, turns = n + 1 := ⟨turns - 1, by omega⟩
  rw [scanWords, if_pos hlt, if_neg (not_not.mpr heq)] at hr
  exact ((scanWords_covers hl hw n (w + 1) hlt (by omega)).bounds r hr).1

theorem scanWords_apart (hl : dirty.length = base.length) {wordCount : ℕ}
    (hw : wordCount * wordStride ≤ dirty.length) (turns w : ℕ) (ht : wordCount - w ≤ turns) :
    (scanWords dirty base wordCount turns w).Pairwise (Apart dirty base) := by
  induction turns generalizing w with
  | zero => exact .nil
  | succ n ih =>
    rw [scanWords]
    split_ifs with hlt hne
    · obtain ⟨h1, h2⟩ := lookAhead_bounds dirty base (wordCount - (w + 1)) (w + 1)
      refine List.pairwise_append.mpr ⟨?_, ih _ (by omega), fun r hr s hs => ?_⟩
      · unfold trimmedRange
        dsimp only
        split_ifs
        · exact List.pairwise_singleton _ _
        · exact .nil
      · have hend := ((trimmedRange_covers dirty base _ _).bounds r hr).2.2
        by_cases hstop : lookAhead dirty base (wordCount - (w + 1)) (w + 1) < wordCount
        · have hshort : lookAhead dirty base (wordCount - (w + 1)) (w + 1) <
              w + 1 + (wordCount - (w + 1)) := by omega
          have heq := wordAt_lookAhead hshort
          exact ⟨_, hend, le_of_mem_scanWords hl hw hstop (by omega) heq hs, heq⟩
        · have hbounds := (scanWords_covers hl hw n _ (by omega) (by omega)).bounds s hs
          have hmul := Nat.mul_le_mul_right wordStride (not_lt.mp hstop)
          omega
    · exact ih (w + 1) (by omega)
    · exact .nil

/-- Of two ranges the second of which ends with the full words, the first is apart from it. -/
theorem modifiedRanges_apart (hl : dirty.length = base.length) :
    (modifiedRanges dirty base).Pairwise fun r s =>
      s.2 ≤ dirty.length / wordStride * wordStride → Apart dirty base r s := by
  have hw : dirty.length / wordStride * wordStride ≤ dirty.length := Nat.div_mul_le_self _ _
  have hwords := scanWords_apart hl hw (dirty.length / wordStride) 0 (Nat.sub_le _ _)
  have htail := (scanTail_covers dirty base hw).bounds
  refine List.pairwise_append.mpr ⟨?_, ?_, fun r _ s hs hle => ?_⟩
  · apply hwords.imp
    intro r s hrs _
    exact hrs
  · refine (scanTail_exact dirty base hw).ordered.imp_of_mem fun _ hs _ hle => ?_
    have hb := htail _ hs
    omega
  · have hb := htail s hs
    omega

/-- Position behind the last byte of a chunk. -/
def chunkEnd (c : PageDiffChunk) : ℕ := c.offset.toNat + c.bytes.length

/-- The chunks are the canonical ones for the two pages. -/
structure Canonical (dirty base : List UInt8) (diff : PageDiffList) : Prop where
  nonempty : ∀ c ∈ diff.chunks, c.bytes ≠ []
  within : ∀ c ∈ diff.chunks, chunkEnd c ≤ dirty.length
  ends : ∀ c ∈ diff.chunks, Differs dirty base c.offset.toNat ∧ Differs dirty base (chunkEnd c - 1)
  carries : ∀ c ∈ diff.chunks, c.bytes = slice dirty c.offset.toNat (chunkEnd c)
  increasing : diff.chunks.Pairwise fun c c' => c.offset < c'.offset ∧ chunkEnd c ≤ c'.offset.toNat
  covered : ∀ i, i < dirty.length → Differs dirty base i →
    ∃ c ∈ diff.chunks, c.offset.toNat ≤ i ∧ i < chunkEnd c
  separated : diff.chunks.Pairwise fun c c' => chunkEnd c' ≤ dirty.length / 8 * 8 →
    ∃ w, chunkEnd c ≤ w * 8 ∧ (w + 1) * 8 ≤ c'.offset.toNat ∧
      ∀ i, w * 8 ≤ i → i < (w + 1) * 8 → ¬ Differs dirty base i
  empty : diff.chunks = [] ↔ dirty = base
  total : diff.totalModifiedBytes ≤ 8 * differing dirty base 0 dirty.length

/-- The range that a chunk overwrites. -/
def rangeOf (c : PageDiffChunk) : ℕ × ℕ := (c.offset.toNat, chunkEnd c)

theorem rangeOf_chunkOf (hn : dirty.length ≤ 2 ^ 32) {r : ℕ × ℕ} (h1 : r.1 < r.2)
    (h2 : r.2 ≤ dirty.length) : rangeOf (chunkOf dirty r) = r := by
  have hlen := length_slice (a := r.1) h2
  have hoff := offset_chunkOf hn h1 h2
  apply Prod.ext
  · exact hoff
  · dsimp only [rangeOf, chunkEnd]
    rw [hoff]
    dsimp only [chunkOf]
    omega

/-- The chunks overwrite the modified ranges. -/
theorem map_rangeOf_pageDiff (pageVaddr : UInt64) (hl : dirty.length = base.length)
    (hn : dirty.length ≤ 2 ^ 32) :
    (pageDiff pageVaddr dirty base).chunks.map rangeOf = modifiedRanges dirty base := by
  have hbounds := (modifiedRanges_covers hl).bounds
  rw [pageDiff, List.map_map]
  conv_rhs => rw [← List.map_id (modifiedRanges dirty base)]
  apply List.map_congr_left
  intro r hr
  exact rangeOf_chunkOf hn (hbounds r hr).2.1 (hbounds r hr).2.2

theorem bytes_of_mem_pageDiff {pageVaddr : UInt64} (hl : dirty.length = base.length)
    (hn : dirty.length ≤ 2 ^ 32) {c : PageDiffChunk}
    (hc : c ∈ (pageDiff pageVaddr dirty base).chunks) :
    c.bytes = slice dirty c.offset.toNat (chunkEnd c) := by
  obtain ⟨r, hr, rfl⟩ := List.mem_map.mp hc
  have hb := (modifiedRanges_covers hl).bounds r hr
  have hrange := rangeOf_chunkOf hn hb.2.1 hb.2.2
  calc (chunkOf dirty r).bytes = slice dirty r.1 r.2 := rfl
    _ = slice dirty (rangeOf (chunkOf dirty r)).1 (rangeOf (chunkOf dirty r)).2 := by rw [hrange]

theorem totalModifiedBytes_eq (diff : PageDiffList) :
    diff.totalModifiedBytes = ((diff.chunks.map rangeOf).map fun r => r.2 - r.1).sum := by
  rw [PageDiffList.totalModifiedBytes, List.map_map]
  apply congrArg List.sum
  apply List.map_congr_left
  intro c _
  exact (Nat.add_sub_cancel_left _ _).symm

theorem eq_of_not_differs (hl : dirty.length = base.length)
    (h : ∀ i, i < dirty.length → ¬ Differs dirty base i) : dirty = base := by
  apply List.ext_getElem?
  intro i
  by_cases hi : i < dirty.length
  · rw [getElem?_eq_some_byteAt hi, getElem?_eq_some_byteAt (hl ▸ hi), not_not.mp (h i hi)]
  · rw [List.getElem?_eq_none (by omega), List.getElem?_eq_none (by omega)]

theorem modifiedRanges_eq_nil_iff (hl : dirty.length = base.length) :
    modifiedRanges dirty base = [] ↔ dirty = base := by
  have hex := modifiedRanges_exact hl
  constructor
  · intro hnil
    refine eq_of_not_differs hl fun i hi hd => ?_
    obtain ⟨r, hr, -⟩ := hex.cover i (Nat.zero_le _) hi hd
    rw [hnil] at hr
    cases hr
  · intro heq
    apply List.eq_nil_iff_forall_not_mem.mpr
    intro r hr
    apply (hex.ends r hr).1
    rw [heq]

/-- The diff of two pages of equal length is canonical. -/
theorem canonical_pageDiff (pageVaddr : UInt64) (hl : dirty.length = base.length)
    (hn : dirty.length ≤ 2 ^ 32) : Canonical dirty base (pageDiff pageVaddr dirty base) := by
  have hex := modifiedRanges_exact hl
  have hapart := modifiedRanges_apart hl
  have hnil := modifiedRanges_eq_nil_iff hl
  have hranges := map_rangeOf_pageDiff pageVaddr hl hn
  have hmem : ∀ c ∈ (pageDiff pageVaddr dirty base).chunks, rangeOf c ∈ modifiedRanges dirty base :=
    fun c hc => hranges ▸ List.mem_map_of_mem hc
  rw [← hranges] at hapart hnil
  constructor
  case nonempty =>
    intro c hc hempty
    have hlt := (hex.bounds _ (hmem c hc)).2.1
    rw [rangeOf, chunkEnd, hempty] at hlt
    exact lt_irrefl _ hlt
  case within =>
    intro c hc
    exact (hex.bounds _ (hmem c hc)).2.2
  case ends =>
    intro c hc
    exact hex.ends _ (hmem c hc)
  case carries =>
    intro c hc
    exact bytes_of_mem_pageDiff hl hn hc
  case increasing =>
    have hordered := hex.ordered
    rw [← hranges] at hordered
    refine (List.pairwise_map.mp hordered).imp_of_mem fun hc _ hle => ⟨?_, hle⟩
    exact UInt32.lt_iff_toNat_lt.mpr ((hex.bounds _ (hmem _ hc)).2.1.trans_le hle)
  case covered =>
    intro i hi hd
    obtain ⟨r, hr, h1, h2⟩ := hex.cover i (Nat.zero_le _) hi hd
    rw [← hranges] at hr
    obtain ⟨c, hc, rfl⟩ := List.mem_map.mp hr
    exact ⟨c, hc, h1, h2⟩
  case separated =>
    refine (List.pairwise_map.mp hapart).imp_of_mem fun _ hc' hsep hle => ?_
    obtain ⟨w, h1, h2, heq⟩ := hsep hle
    have hb := hex.bounds _ (hmem _ hc')
    refine ⟨w, h1, h2, fun i hi1 hi2 hd => hd (byteAt_eq_of_wordAt_eq hl ?_ heq hi1 hi2)⟩
    omega
  case empty =>
    rw [← hnil, List.map_eq_nil_iff]
  case total =>
    rw [totalModifiedBytes_eq, hranges]
    exact hex.weight

/-- Pages that start at the addresses of words have the canonical chunks. -/
theorem computeDiff_canonical_iff (pageVaddr : UInt64) (dirtyPage basePage : ByteSlice)
    (hl : dirtyPage.bytes.length = basePage.bytes.length) (hn : dirtyPage.bytes.length ≤ 2 ^ 32) :
    (∃ diff, computeDiff pageVaddr dirtyPage basePage = some (.ok diff) ∧
        Canonical dirtyPage.bytes basePage.bytes diff) ↔
      dirtyPage.WordAligned ∧ basePage.WordAligned :=
  exists_computeDiff_iff hl (canonical_pageDiff pageVaddr hl hn)

/-- A page with two modified words, one word between them, and a modified byte behind the last word. -/
def threeChunkPage : List UInt8 :=
  [0, 0, 7, 0, 0, 0, 0, 0, 0, 0, 0, 0, 0, 0, 0, 0, 5, 0, 5, 0, 0, 0, 0, 0, 9]

theorem computeDiff_canonical_threeChunkPage :
    ∃ diff, computeDiff 4096 ⟨0x10000, threeChunkPage⟩ ⟨0x20000, List.replicate 25 0⟩ = some (.ok diff) ∧
      Canonical threeChunkPage (List.replicate 25 0) diff :=
  (computeDiff_canonical_iff 4096 ⟨0x10000, threeChunkPage⟩ ⟨0x20000, List.replicate 25 0⟩ rfl
    (by decide)).mpr (by decide)

/-- The baseline starts in the middle of a word. -/
theorem computeDiff_not_canonical_at_half_word :
    ¬ ∃ diff, computeDiff 4096 ⟨0x10000, threeChunkPage⟩ ⟨0x20004, List.replicate 25 0⟩ = some (.ok diff) ∧
      Canonical threeChunkPage (List.replicate 25 0) diff := by
  rintro ⟨diff, heq, -⟩
  have hnone : computeDiff 4096 ⟨0x10000, threeChunkPage⟩ ⟨0x20004, List.replicate 25 0⟩ = none := by decide
  rw [hnone] at heq
  exact nomatch heq

end Virthub.Klnk.MemoryDiffEngine
