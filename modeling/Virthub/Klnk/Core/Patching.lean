import Virthub.Klnk.Core.Diff

/-! Patches with arbitrary chunks. Every chunk is checked just before it is written, so a patch that fails has
already written the chunks in front of the one that is out of bounds. -/
namespace Virthub.Klnk.MemoryDiffEngine
open Virthub.Lib

def InBounds (pageLen : ℕ) (chunk : PageDiffChunk) : Prop :=
  chunk.offset.toNat + chunk.bytes.length ≤ pageLen

instance (pageLen : ℕ) (chunk : PageDiffChunk) : Decidable (InBounds pageLen chunk) :=
  inferInstanceAs (Decidable (_ ≤ _))

/-- The chunks in front of the first one that is out of bounds. -/
def accepted (pageLen : ℕ) (chunks : List PageDiffChunk) : List PageDiffChunk :=
  chunks.takeWhile fun chunk => InBounds pageLen chunk

def byteFor (chunk : PageDiffChunk) (i : ℕ) : Option UInt8 :=
  if chunk.offset.toNat ≤ i then chunk.bytes[i - chunk.offset.toNat]? else none

/-- The byte that the last of the chunks with one for this place has for it. -/
def lastWrite : List PageDiffChunk → ℕ → Option UInt8
  | [], _ => none
  | chunk :: chunks, i => (lastWrite chunks i).or (byteFor chunk i)

theorem getElem?_splice_chunk {page : List UInt8} {chunk : PageDiffChunk}
    (h : InBounds page.length chunk) (i : ℕ) :
    (splice page chunk.offset.toNat chunk.bytes)[i]? = (byteFor chunk i).or page[i]? := by
  rw [getElem?_splice h, byteFor]
  by_cases hlo : chunk.offset.toNat ≤ i
  · by_cases hhi : i < chunk.offset.toNat + chunk.bytes.length
    · rw [if_pos ⟨hlo, hhi⟩, if_pos hlo, List.getElem?_eq_getElem (by omega), Option.some_or]
    · have hnone : chunk.bytes[i - chunk.offset.toNat]? = none := List.getElem?_eq_none (by omega)
      rw [if_neg (fun h => hhi h.2), if_pos hlo, hnone, Option.none_or]
  · rw [if_neg (fun h => hlo h.1), if_neg hlo, Option.none_or]

/-- A patch leaves every place with the last byte that an accepted chunk has for it. -/
theorem getElem?_applyChunks (page : List UInt8) (chunks : List PageDiffChunk) (i : ℕ) :
    (applyChunks page.length page chunks).2[i]? =
      (lastWrite (accepted page.length chunks) i).or page[i]? := by
  induction chunks generalizing page with
  | nil => rfl
  | cons chunk chunks ih =>
    unfold applyChunks accepted
    by_cases h : InBounds page.length chunk
    · have hlen := length_splice h
      have hrest := ih (splice page chunk.offset.toNat chunk.bytes)
      rw [hlen, getElem?_splice_chunk h] at hrest
      rw [if_neg (not_lt.mpr h), List.takeWhile_cons_of_pos (by simpa using h), lastWrite,
        Option.or_assoc]
      exact hrest
    · rw [if_pos (not_le.mp h), List.takeWhile_cons_of_neg (by simpa using h)]
      rfl

theorem applyChunks_eq_ok_iff (page : List UInt8) (chunks : List PageDiffChunk) :
    (applyChunks page.length page chunks).1 = .ok () ↔
      ∀ chunk ∈ chunks, InBounds page.length chunk := by
  induction chunks generalizing page with
  | nil => simp [applyChunks]
  | cons chunk chunks ih =>
    unfold applyChunks
    rw [List.forall_mem_cons]
    by_cases h : InBounds page.length chunk
    · have hlen := length_splice h
      have hrest := ih (splice page chunk.offset.toNat chunk.bytes)
      rw [hlen] at hrest
      rw [if_neg (not_lt.mpr h), and_iff_right h]
      exact hrest
    · rw [if_pos (not_le.mp h)]
      simp [h]

def AllOrNothing (page : List UInt8) (diff : PageDiffList) : Prop :=
  ((applyPatch page diff).1 = .ok () ↔ ∀ chunk ∈ diff.chunks, InBounds page.length chunk) ∧
    ∀ e, (applyPatch page diff).1 = .error e → (applyPatch page diff).2 = page

/-- A patch is all or nothing exactly if all its chunks are in bounds, or those in front of the first one
that is not bring no byte that the page does not have. -/
theorem allOrNothing_iff (page : List UInt8) (diff : PageDiffList) :
    AllOrNothing page diff ↔ (∀ chunk ∈ diff.chunks, InBounds page.length chunk) ∨
      ∀ i b, lastWrite (accepted page.length diff.chunks) i = some b → page[i]? = some b := by
  have hok := applyChunks_eq_ok_iff page diff.chunks
  have hread := getElem?_applyChunks page diff.chunks
  constructor
  · intro h
    by_cases hall : ∀ chunk ∈ diff.chunks, InBounds page.length chunk
    · exact .inl hall
    · right
      intro i b hwrite
      cases hres : (applyPatch page diff).1 with
      | ok u => exact absurd (hok.mp hres) hall
      | error e =>
        have hsame := hread i
        rw [hwrite, Option.some_or, ← applyPatch, h.2 e hres] at hsame
        exact hsame
  · intro h
    refine ⟨hok, fun e he => ?_⟩
    rcases h with hall | hsame
    · rw [applyPatch, hok.mpr hall] at he
      cases he
    · apply List.ext_getElem?
      intro i
      rw [applyPatch, hread]
      cases hwrite : lastWrite (accepted page.length diff.chunks) i with
      | none => rfl
      | some b => exact (hsame i b hwrite).symm

def halfGoodPatch : PageDiffList := ⟨0x1000, 4, [⟨0, [7]⟩, ⟨4, [9]⟩]⟩

/-- The first chunk is written before the second one is refused. -/
theorem halfGoodPatch_changes_page :
    applyPatch [0, 0, 0, 0] halfGoodPatch = (.error (.outOfBoundsPatch 4 1 4), [7, 0, 0, 0]) ∧
      ¬ AllOrNothing [0, 0, 0, 0] halfGoodPatch := by
  have hpatch : applyPatch [0, 0, 0, 0] halfGoodPatch =
      (.error (.outOfBoundsPatch 4 1 4), [7, 0, 0, 0]) := rfl
  refine ⟨hpatch, fun h => ?_⟩
  have hsame := h.2 (.outOfBoundsPatch 4 1 4) (by rw [hpatch])
  rw [hpatch] at hsame
  cases hsame

end Virthub.Klnk.MemoryDiffEngine
