import Virthub.Lib.SharedHeap
import Virthub.Lib.Simulation
import Virthub.Store.KvBlock

/-! Blocks that share memory. A clone of a block points to the payload and to the counter of the original
and has a header, a policy and a sidecar of its own. A payload is copied by the first write through a block
that is not its only owner, so that to its users a payload is a value, while the counter is one for all
clones. -/
namespace Virthub.Store
open Virthub.Lib Virthub.Index Virthub.Precision Virthub.Connectors

/-- A block as its owner holds it: `payload` and `refCount` are pointers. -/
structure BlockRef where
  header : KvBlockHeader
  payload : ℕ
  refCount : ℕ
  precisionPolicy : Option PackedBlockPolicy
  sidecar : Option PspKvSidecarDescriptor

/-- The memory of the blocks that are held. -/
structure BlockHeap where
  payloads : SharedHeap (List UInt8)
  counts : SharedHeap UInt32
  held : List BlockRef

/-- The methods that change a block's own fields. -/
inductive BlockEdit where
  | updateChecksum
  | setPrecisionPolicy (policy : Option PackedBlockPolicy)
  | setSidecar (sidecar : Option PspKvSidecarDescriptor)

/-- The methods that only read. The counter is what `Debug` prints of it. -/
inductive BlockQuery where
  | header
  | payload
  | precisionPolicy
  | sidecar
  | refCount
  | verifyChecksum
  | serialize

/-- Blocks are named by their place among those held. -/
inductive BlockCall where
  | new (key : KvBlockKey) (payload : List UInt8)
  | newWithPolicy (key : KvBlockKey) (payload : List UInt8) (policy : Option PackedBlockPolicy)
    (sidecar : Option PspKvSidecarDescriptor)
  | deserialize (bytes : List UInt8)
  | clone (i : ℕ)
  | drop (i : ℕ)
  | writePayload (i offset : ℕ) (byte : UInt8)
  | edit (i : ℕ) (e : BlockEdit)
  | retain (i : ℕ)
  | release (i : ℕ)
  | query (i : ℕ) (q : BlockQuery)

inductive BlockAnswer (ε : Type) where
  | done
  | noBlock
  | indexPanic
  | failed (error : KvBlockError ε)
  | header (header : KvBlockHeader)
  | bytes (bytes : List UInt8)
  | policy (policy : Option PackedBlockPolicy)
  | sidecar (sidecar : Option PspKvSidecarDescriptor)
  | count (n : UInt32)
  deriving DecidableEq

variable {ε : Type} (codec : BlockCodec ε)

def BlockEdit.apply (self : KvBlock) : BlockEdit → KvBlock
  | .updateChecksum => self.updateChecksum codec
  | .setPrecisionPolicy policy => { self with precisionPolicy := policy }
  | .setSidecar sidecar => { self with sidecar := sidecar }

def BlockQuery.answer (self : KvBlock) : BlockQuery → BlockAnswer ε
  | .header => .header self.header
  | .payload => .bytes self.payload
  | .precisionPolicy => .policy self.precisionPolicy
  | .sidecar => .sidecar self.sidecar
  | .refCount => .count self.refCount
  | .verifyChecksum => match self.verifyChecksum codec with
    | .ok () => .done
    | .error e => .failed e
  | .serialize => match self.serialize codec with
    | .ok bytes => .bytes bytes
    | .error e => .failed e

theorem BlockEdit.payload_apply (e : BlockEdit) (block : KvBlock) :
    (e.apply codec block).payload = block.payload ∧ (e.apply codec block).refCount = block.refCount := by
  cases e <;> exact ⟨rfl, rfl⟩

namespace BlockHeap

def empty : BlockHeap := ⟨.empty, .empty, []⟩

/-- What a block reads through its pointers. -/
def view (self : BlockHeap) (r : BlockRef) : KvBlock where
  header := r.header
  payload := (self.payloads.value? r.payload).getD []
  refCount := (self.counts.value? r.refCount).getD 0
  precisionPolicy := r.precisionPolicy
  sidecar := r.sidecar

/-- A block with a payload and a counter that nobody else points to. -/
def hold (self : BlockHeap) (block : KvBlock) : BlockHeap :=
  let (payload, payloads) := self.payloads.alloc block.payload
  let (refCount, counts) := self.counts.alloc block.refCount
  ⟨payloads, counts, self.held ++ [⟨block.header, payload, refCount, block.precisionPolicy, block.sidecar⟩]⟩

def step (self : BlockHeap) : BlockCall → BlockAnswer ε × BlockHeap
  | .new key payload => (.done, self.hold (.new codec key payload))
  | .newWithPolicy key payload policy sidecar =>
    (.done, self.hold (.newWithPolicy codec key payload policy sidecar))
  | .deserialize bytes => match KvBlock.deserialize codec bytes with
    | .ok block => (.done, self.hold block)
    | .error e => (.failed e, self)
  | .clone i => match self.held[i]? with
    | some r => (.done, ⟨self.payloads.clone r.payload, self.counts.clone r.refCount, self.held ++ [r]⟩)
    | none => (.noBlock, self)
  | .drop i => match self.held[i]? with
    | some r => (.done, ⟨self.payloads.drop r.payload, self.counts.drop r.refCount, self.held.eraseIdx i⟩)
    | none => (.noBlock, self)
  | .writePayload i offset byte => match self.held[i]? with
    | some r =>
      -- the payload is the block's own before the index is checked
      let (payload, payloads) := self.payloads.makeMut r.payload
      let held := self.held.set i { r with payload := payload }
      if offset < ((payloads.value? payload).getD []).length then
        (.done, ⟨payloads.modify payload (·.set offset byte), self.counts, held⟩)
      else (.indexPanic, ⟨payloads, self.counts, held⟩)
    | none => (.noBlock, self)
  | .edit i e => match self.held[i]? with
    | some r =>
      let block := e.apply codec (self.view r)
      let r' : BlockRef := ⟨block.header, r.payload, r.refCount, block.precisionPolicy, block.sidecar⟩
      (.done, { self with held := self.held.set i r' })
    | none => (.noBlock, self)
  | .retain i => match self.held[i]? with
    | some r => (.done, { self with counts := self.counts.modify r.refCount (· + 1) })
    | none => (.noBlock, self)
  | .release i => match self.held[i]? with
    | some r => (.count (self.view r).refCount, { self with counts := self.counts.modify r.refCount (· - 1) })
    | none => (.noBlock, self)
  | .query i q => match self.held[i]? with
    | some r => (q.answer codec (self.view r), self)
    | none => (.noBlock, self)

end BlockHeap

/-- Blocks as values, each with the number of the family of clones that it belongs to. -/
structure BlockValues where
  blocks : List (KvBlock × ℕ)
  families : ℕ

namespace BlockValues

def empty : BlockValues := ⟨[], 0⟩

def hold (self : BlockValues) (block : KvBlock) : BlockValues :=
  ⟨self.blocks ++ [(block, self.families)], self.families + 1⟩

def set (self : BlockValues) (i : ℕ) (block : KvBlock) (family : ℕ) : BlockValues :=
  { self with blocks := self.blocks.set i (block, family) }

/-- The counter of a family, at all its members. -/
def count (self : BlockValues) (family : ℕ) (f : UInt32 → UInt32) : BlockValues :=
  { self with blocks := self.blocks.map fun b =>
      if b.2 = family then ({ b.1 with refCount := f b.1.refCount }, b.2) else b }

def step (self : BlockValues) : BlockCall → BlockAnswer ε × BlockValues
  | .new key payload => (.done, self.hold (.new codec key payload))
  | .newWithPolicy key payload policy sidecar =>
    (.done, self.hold (.newWithPolicy codec key payload policy sidecar))
  | .deserialize bytes => match KvBlock.deserialize codec bytes with
    | .ok block => (.done, self.hold block)
    | .error e => (.failed e, self)
  | .clone i => match self.blocks[i]? with
    | some b => (.done, { self with blocks := self.blocks ++ [b] })
    | none => (.noBlock, self)
  | .drop i => match self.blocks[i]? with
    | some _ => (.done, { self with blocks := self.blocks.eraseIdx i })
    | none => (.noBlock, self)
  | .writePayload i offset byte => match self.blocks[i]? with
    | some (block, family) =>
      if offset < block.payload.length then
        (.done, self.set i { block with payload := block.payload.set offset byte } family)
      else (.indexPanic, self)
    | none => (.noBlock, self)
  | .edit i e => match self.blocks[i]? with
    | some (block, family) => (.done, self.set i (e.apply codec block) family)
    | none => (.noBlock, self)
  | .retain i => match self.blocks[i]? with
    | some (_, family) => (.done, self.count family (· + 1))
    | none => (.noBlock, self)
  | .release i => match self.blocks[i]? with
    | some (block, family) => (.count block.refCount, self.count family (· - 1))
    | none => (.noBlock, self)
  | .query i q => match self.blocks[i]? with
    | some (block, _) => (q.answer codec block, self)
    | none => (.noBlock, self)

end BlockValues

namespace BlockHeap

/-- The strong counts are the numbers of blocks that hold the cells. -/
structure Owned (s : BlockHeap) : Prop where
  payloads : s.payloads.Owned (s.held.map BlockRef.payload)
  counts : s.counts.Owned (s.held.map BlockRef.refCount)

/-- A block's value, with its counter as its family. -/
def item (self : BlockHeap) (r : BlockRef) : KvBlock × ℕ := (self.view r, r.refCount)

def values (self : BlockHeap) : BlockValues := ⟨self.held.map self.item, self.counts.next⟩

theorem item_congr {s t : BlockHeap} {r : BlockRef}
    (hpayload : s.payloads.value? r.payload = t.payloads.value? r.payload)
    (hcount : s.counts.value? r.refCount = t.counts.value? r.refCount) : s.item r = t.item r := by
  rw [item, item, view, view, hpayload, hcount]

theorem getElem?_values (self : BlockHeap) (i : ℕ) : self.values.blocks[i]? = self.held[i]?.map self.item :=
  List.getElem?_map

variable {s : BlockHeap}

/-- The blocks held, with one of them in front. -/
theorem perm_owners {γ : Type} (f : BlockRef → γ) {held : List BlockRef} {i : ℕ} {r : BlockRef}
    (hr : held[i]? = some r) :
    (held.map f).Perm (f r :: (held.eraseIdx i).map f) := by
  obtain ⟨hi, rfl⟩ := List.getElem?_eq_some_iff.mp hr
  exact ((List.getElem_cons_eraseIdx_perm hi).map f).symm

theorem perm_owners_set {γ : Type} (f : BlockRef → γ) {held : List BlockRef} {i : ℕ} {r : BlockRef}
    (hr : held[i]? = some r) (r' : BlockRef) :
    (f r' :: (held.eraseIdx i).map f).Perm ((held.set i r').map f) := by
  obtain ⟨hi, -⟩ := List.getElem?_eq_some_iff.mp hr
  exact ((List.set_perm_cons_eraseIdx hi r').map f).symm

/-- A change at one place of a list that nothing else notices. -/
theorem map_set_of_frame {γ : Type} {f g : BlockRef → γ} {held : List BlockRef} {i : ℕ}
    (hframe : ∀ r ∈ held.eraseIdx i, g r = f r) (r' : BlockRef) :
    (held.set i r').map g = (held.map f).set i (g r') := by
  rw [List.map_set]
  apply List.ext_getElem?
  intro j
  by_cases hj : i = j
  · subst hj
    rw [List.getElem?_set_self', List.getElem?_set_self', List.getElem?_map, List.getElem?_map]
    cases held[i]? <;> rfl
  · rw [List.getElem?_set_ne hj, List.getElem?_set_ne hj, List.getElem?_map, List.getElem?_map]
    cases hr : held[j]? with
    | none => rfl
    | some r =>
      obtain ⟨hlt, hget⟩ := List.getElem?_eq_some_iff.mp hr
      have hmem : r ∈ held.eraseIdx i := List.mem_eraseIdx_iff_getElem.mpr ⟨j, hlt, Ne.symm hj, hget⟩
      exact congrArg some (hframe r hmem)

theorem Owned.hold (h : s.Owned) (block : KvBlock) :
    (s.hold block).Owned ∧ (s.hold block).values = s.values.hold block := by
  have hpayloads := h.payloads.alloc block.payload
  have hcounts := h.counts.alloc block.refCount
  constructor
  · constructor
    · change SharedHeap.Owned _ ((s.held ++ [_]).map BlockRef.payload)
      rw [List.map_append]
      exact hpayloads.perm (List.perm_append_singleton _ _).symm
    · change SharedHeap.Owned _ ((s.held ++ [_]).map BlockRef.refCount)
      rw [List.map_append]
      exact hcounts.perm (List.perm_append_singleton _ _).symm
  · have hold : s.held.map (s.hold block).item = s.held.map s.item := by
      apply List.map_congr_left
      intro r hr
      exact item_congr (h.payloads.value?_alloc _ (List.mem_map_of_mem hr))
        (h.counts.value?_alloc _ (List.mem_map_of_mem hr))
    have hnew : (s.hold block).item ⟨block.header, s.payloads.next, s.counts.next, block.precisionPolicy,
        block.sidecar⟩ =
        (block, s.counts.next) := by
      rw [item, view]
      dsimp only [BlockHeap.hold]
      rw [SharedHeap.value?_alloc_self, SharedHeap.value?_alloc_self]
      rfl
    rw [values]
    change BlockValues.mk ((s.held ++ [_]).map (s.hold block).item) _ = _
    rw [List.map_append, hold]
    change BlockValues.mk (_ ++ [(s.hold block).item _]) _ = _
    rw [hnew]
    rfl

theorem Owned.clone (h : s.Owned) {i : ℕ} {r : BlockRef} (hr : s.held[i]? = some r) :
    let t : BlockHeap := ⟨s.payloads.clone r.payload, s.counts.clone r.refCount, s.held ++ [r]⟩
    t.Owned ∧ t.values = { s.values with blocks := s.values.blocks ++ [s.item r] } := by
  have hmem : r ∈ s.held := List.mem_of_getElem? hr
  constructor
  · constructor
    · dsimp only
      rw [List.map_append]
      exact (h.payloads.clone (List.mem_map_of_mem hmem)).perm (List.perm_append_singleton _ _).symm
    · dsimp only
      rw [List.map_append]
      exact (h.counts.clone (List.mem_map_of_mem hmem)).perm (List.perm_append_singleton _ _).symm
  · have hitem : ∀ r', item ⟨s.payloads.clone r.payload, s.counts.clone r.refCount, s.held ++ [r]⟩ r' =
        s.item r' :=
      fun r' => item_congr (SharedHeap.value?_clone _) (SharedHeap.value?_clone _)
    rw [values]
    dsimp only
    rw [List.map_congr_left (fun r' _ => hitem r'), List.map_append]
    rfl

theorem Owned.drop (h : s.Owned) {i : ℕ} {r : BlockRef} (hr : s.held[i]? = some r) :
    let t : BlockHeap := ⟨s.payloads.drop r.payload, s.counts.drop r.refCount, s.held.eraseIdx i⟩
    t.Owned ∧ t.values = { s.values with blocks := s.values.blocks.eraseIdx i } := by
  have hpayloads := h.payloads.perm (perm_owners BlockRef.payload hr)
  have hcounts := h.counts.perm (perm_owners BlockRef.refCount hr)
  refine ⟨⟨hpayloads.drop, hcounts.drop⟩, ?_⟩
  have hitem : ∀ r' ∈ s.held.eraseIdx i,
      item ⟨s.payloads.drop r.payload, s.counts.drop r.refCount, s.held.eraseIdx i⟩ r' = s.item r' := by
    intro r' hr'
    exact item_congr (hpayloads.value?_drop (List.mem_map_of_mem hr'))
      (hcounts.value?_drop (List.mem_map_of_mem hr'))
  rw [values]
  dsimp only
  rw [List.map_congr_left hitem, ← List.eraseIdx_map]
  rfl

/-- The block that writes gets a payload of its own, and every block has the value it had. -/
theorem Owned.makeMut (h : s.Owned) {i : ℕ} {r : BlockRef} (hr : s.held[i]? = some r) :
    let m := s.payloads.makeMut r.payload
    let r' := { r with payload := m.1 }
    let t : BlockHeap := ⟨m.2, s.counts, s.held.set i r'⟩
    t.Owned ∧ t.values = s.values ∧ t.view r' = s.view r ∧ t.held[i]? = some r' ∧
      m.1 ∉ (t.held.eraseIdx i).map BlockRef.payload := by
  intro m r' t
  have hpayloads := h.payloads.perm (perm_owners BlockRef.payload hr)
  obtain ⟨howned, hfresh, hvalue, hframe⟩ := hpayloads.makeMut
  obtain ⟨hi, hget⟩ := List.getElem?_eq_some_iff.mp hr
  have hview : t.view r' = s.view r := by
    rw [view, view]
    dsimp only [t, r']
    rw [hvalue]
  refine ⟨⟨?_, ?_⟩, ?_, hview, ?_, ?_⟩
  · exact howned.perm (perm_owners_set BlockRef.payload hr r')
  · exact (h.counts.perm (perm_owners BlockRef.refCount hr)).perm (perm_owners_set BlockRef.refCount hr r')
  · have hother : ∀ q ∈ s.held.eraseIdx i, t.item q = s.item q := fun q hq =>
      item_congr (hframe _ (List.mem_map_of_mem hq)) rfl
    have hset : (s.held.map s.item).set i (s.item r) = s.held.map s.item := by
      rw [← List.map_set, ← hget, List.set_getElem_self]
    have hsame : t.item r' = s.item r := by rw [item, item, hview]
    have hmap := map_set_of_frame hother r'
    rw [hsame, hset] at hmap
    exact congrArg (BlockValues.mk · s.counts.next) hmap
  · exact List.getElem?_set_self hi
  · rw [List.eraseIdx_set_eq]
    exact hfresh

theorem Owned.write (h : s.Owned) {i : ℕ} {r : BlockRef} (hr : s.held[i]? = some r)
    (hown : r.payload ∉ (s.held.eraseIdx i).map BlockRef.payload) (f : List UInt8 → List UInt8) :
    let t : BlockHeap := ⟨s.payloads.modify r.payload f, s.counts, s.held⟩
    t.Owned ∧ t.values = s.values.set i { s.view r with payload := f (s.view r).payload } r.refCount := by
  intro t
  have hmem : r.payload ∈ s.held.map BlockRef.payload := List.mem_map_of_mem (List.mem_of_getElem? hr)
  refine ⟨⟨h.payloads.modify hmem f, h.counts⟩, ?_⟩
  obtain ⟨c, hc, -⟩ := h.payloads.exists_cell hmem
  have hvalue : s.payloads.value? r.payload = some c.value := by
    rw [SharedHeap.value?, hc]
    rfl
  have hself : t.item r = ({ s.view r with payload := f (s.view r).payload }, r.refCount) := by
    rw [item, view, view]
    dsimp only [t]
    rw [SharedHeap.value?_modify_self, hvalue]
    rfl
  have hother : ∀ q ∈ s.held.eraseIdx i, t.item q = s.item q := by
    intro q hq
    have hne : q.payload ≠ r.payload := fun heq => hown (heq ▸ List.mem_map_of_mem hq)
    exact item_congr (SharedHeap.value?_modify_of_ne hne f) rfl
  obtain ⟨hi, hget⟩ := List.getElem?_eq_some_iff.mp hr
  have hset := map_set_of_frame hother r
  rw [← hget, List.set_getElem_self, hget, hself] at hset
  exact congrArg (BlockValues.mk · s.counts.next) hset

theorem Owned.edit (h : s.Owned) {i : ℕ} {r : BlockRef} (hr : s.held[i]? = some r) (e : BlockEdit) :
    let block := e.apply codec (s.view r)
    let r' : BlockRef := ⟨block.header, r.payload, r.refCount, block.precisionPolicy, block.sidecar⟩
    let t : BlockHeap := { s with held := s.held.set i r' }
    t.Owned ∧ t.values = s.values.set i block r.refCount := by
  intro block r' t
  refine ⟨⟨?_, ?_⟩, ?_⟩
  · exact (h.payloads.perm (perm_owners BlockRef.payload hr)).perm (perm_owners_set BlockRef.payload hr r')
  · exact (h.counts.perm (perm_owners BlockRef.refCount hr)).perm (perm_owners_set BlockRef.refCount hr r')
  · have hself : t.item r' = (block, r.refCount) := by
      obtain ⟨hpayload, hcount⟩ := e.payload_apply codec (s.view r)
      rw [item, view]
      change (KvBlock.mk _ (s.view r).payload (s.view r).refCount _ _, _) = _
      rw [← hpayload, ← hcount]
    have hother : ∀ q ∈ s.held.eraseIdx i, t.item q = s.item q := fun q _ => item_congr rfl rfl
    have hmap := map_set_of_frame hother r'
    rw [hself] at hmap
    exact congrArg (BlockValues.mk · s.counts.next) hmap

theorem Owned.count (h : s.Owned) {i : ℕ} {r : BlockRef} (hr : s.held[i]? = some r) (f : UInt32 → UInt32) :
    let t : BlockHeap := { s with counts := s.counts.modify r.refCount f }
    t.Owned ∧ t.values = s.values.count r.refCount f := by
  intro t
  have hmem : r.refCount ∈ s.held.map BlockRef.refCount := List.mem_map_of_mem (List.mem_of_getElem? hr)
  refine ⟨⟨h.payloads, h.counts.modify hmem f⟩, ?_⟩
  obtain ⟨c, hc, -⟩ := h.counts.exists_cell hmem
  have hvalue : s.counts.value? r.refCount = some c.value := by
    rw [SharedHeap.value?, hc]
    rfl
  have hitem : ∀ q ∈ s.held, t.item q =
      if q.refCount = r.refCount then ({ s.view q with refCount := f (s.view q).refCount }, q.refCount)
      else s.item q := by
    intro q _
    split_ifs with heq
    · rw [item, view, view]
      dsimp only [t]
      rw [heq, SharedHeap.value?_modify_self, hvalue]
      rfl
    · exact item_congr rfl (SharedHeap.value?_modify_of_ne heq f)
  rw [values, values, BlockValues.count]
  dsimp only
  rw [List.map_map]
  exact congrArg (BlockValues.mk · s.counts.next) (List.map_congr_left hitem)

/-- One call, in memory and on values. -/
theorem step_values (h : s.Owned) (call : BlockCall) :
    (s.step codec call).1 = (s.values.step codec call).1 ∧ (s.step codec call).2.Owned ∧
      (s.step codec call).2.values = (s.values.step codec call).2 := by
  cases call with
  | new key payload => exact ⟨rfl, h.hold _⟩
  | newWithPolicy key payload policy sidecar => exact ⟨rfl, h.hold _⟩
  | deserialize bytes =>
    rw [step, BlockValues.step]
    cases KvBlock.deserialize codec bytes with
    | ok block => exact ⟨rfl, h.hold block⟩
    | error e => exact ⟨rfl, h, rfl⟩
  | clone i =>
    rw [step, BlockValues.step, getElem?_values]
    cases hr : s.held[i]? with
    | none => exact ⟨rfl, h, rfl⟩
    | some r => exact ⟨rfl, h.clone hr⟩
  | drop i =>
    rw [step, BlockValues.step, getElem?_values]
    cases hr : s.held[i]? with
    | none => exact ⟨rfl, h, rfl⟩
    | some r => exact ⟨rfl, h.drop hr⟩
  | writePayload i offset byte =>
    rw [step, BlockValues.step, getElem?_values]
    cases hr : s.held[i]? with
    | none => exact ⟨rfl, h, rfl⟩
    | some r =>
      obtain ⟨howned, hvalues, hview, hself, hfresh⟩ := h.makeMut hr
      have hpayload : ((s.payloads.makeMut r.payload).2.value? (s.payloads.makeMut r.payload).1).getD [] =
          (s.view r).payload := congrArg KvBlock.payload hview
      dsimp only [Option.map_some, item]
      rw [hpayload]
      by_cases hin : offset < (s.view r).payload.length
      · have hwrite := howned.write hself hfresh (·.set offset byte)
        rw [hvalues, hview] at hwrite
        rw [if_pos hin, if_pos hin]
        exact ⟨rfl, hwrite⟩
      · rw [if_neg hin, if_neg hin]
        exact ⟨rfl, howned, hvalues⟩
  | edit i e =>
    rw [step, BlockValues.step, getElem?_values]
    cases hr : s.held[i]? with
    | none => exact ⟨rfl, h, rfl⟩
    | some r => exact ⟨rfl, h.edit codec hr e⟩
  | retain i =>
    rw [step, BlockValues.step, getElem?_values]
    cases hr : s.held[i]? with
    | none => exact ⟨rfl, h, rfl⟩
    | some r => exact ⟨rfl, h.count hr _⟩
  | release i =>
    rw [step, BlockValues.step, getElem?_values]
    cases hr : s.held[i]? with
    | none => exact ⟨rfl, h, rfl⟩
    | some r => exact ⟨rfl, h.count hr _⟩
  | query i q =>
    rw [step, BlockValues.step, getElem?_values]
    cases s.held[i]? with
    | none => exact ⟨rfl, h, rfl⟩
    | some r => exact ⟨rfl, h, rfl⟩

theorem run_values (calls : List BlockCall) :
    (trace (step codec) empty calls).map Event.answer =
        (trace (BlockValues.step codec) BlockValues.empty calls).map Event.answer ∧
      (exec (step codec) empty calls).Owned ∧
        (exec (step codec) empty calls).values = exec (BlockValues.step codec) BlockValues.empty calls := by
  have hstep : ∀ s t call, s.Owned ∧ s.values = t →
      (step codec s call).1 = (BlockValues.step codec t call).1 ∧
        (step codec s call).2.Owned ∧ (step codec s call).2.values = (BlockValues.step codec t call).2 := by
    intro s t call hs
    rw [← hs.2]
    exact step_values codec hs.1 call
  have hempty : empty.Owned := ⟨SharedHeap.owned_empty, SharedHeap.owned_empty⟩
  exact answers_eq_of_simulation (R := fun (s : BlockHeap) t => s.Owned ∧ s.values = t) hstep
    ⟨hempty, rfl⟩ calls

/-- Whatever is done with any number of blocks and their clones, each block answers as a value of its own
would, up to the counter, which is one for all clones of a block. -/
theorem answers_eq_values (calls : List BlockCall) :
    (trace (step codec) empty calls).map Event.answer =
      (trace (BlockValues.step codec) BlockValues.empty calls).map Event.answer :=
  (run_values codec calls).1

/-- At any time the strong count of a payload or a counter is the number of blocks that point to it, and it
is freed exactly when the last of them is gone. -/
theorem cells_live_iff_held (calls : List BlockCall) (p : ℕ) :
    let s := exec (step codec) empty calls
    (s.payloads.strong p = (s.held.map BlockRef.payload).count p ∧
      ((s.payloads.value? p).isSome ↔ ∃ r ∈ s.held, r.payload = p)) ∧
    (s.counts.strong p = (s.held.map BlockRef.refCount).count p ∧
      ((s.counts.value? p).isSome ↔ ∃ r ∈ s.held, r.refCount = p)) := by
  intro s
  obtain ⟨-, hs, -⟩ := run_values codec calls
  constructor
  · exact ⟨hs.payloads.strong p, hs.payloads.isSome_value?.trans List.mem_map⟩
  · exact ⟨hs.counts.strong p, hs.counts.isSome_value?.trans List.mem_map⟩

end BlockHeap

end Virthub.Store
