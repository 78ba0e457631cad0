import Virthub.Index.HashIndex
import Virthub.Lib.Trie
import Mathlib.Data.Finset.Card

/-! The radix tree over 64-bit addresses: four levels of sixteen bits, one lock around each call.
A loop over the levels is a recursion on the levels that are left. The entry count is a natural
number, since every counted leaf occupies memory of its own. -/
namespace Virthub.Index
open Virthub.Lib

inductive RadixTreeError where
  | addressUnmapped (vaddr : UInt64)
  deriving DecidableEq, Repr

structure RadixLeafValue where
  blockKey : KvBlockKey
  frameOffset : UInt64
  flags : UInt32
  deriving DecidableEq, Repr

/-- The hash map of a branch is used as a finite map only, so it is one here. -/
abbrev RadixNode := Trie UInt16 RadixLeafValue

structure ConcurrentRadixTree where
  root : RadixNode
  entryCount : ℕ

namespace ConcurrentRadixTree

def radixBitsPerLevel : ℕ := 16

def levels : List ℕ := [0, 1, 2, 3]

def new : ConcurrentRadixTree := ⟨.newBranch, 0⟩

def extractChunk (vaddr : UInt64) (level : ℕ) : UInt16 :=
  let shift := (3 - level) * radixBitsPerLevel
  ((vaddr >>> shift.toUInt64) &&& 0xFFFF).toUInt16

/-- The loop of `insert`; a success says whether a leaf was added. -/
def insertFrom (vaddr : UInt64) (value : RadixLeafValue) :
    List ℕ → RadixNode → Except RadixTreeError Bool × RadixNode
  | [], node => (.ok false, node)
  | level :: levels, .branch children =>
    let chunk := extractChunk vaddr level
    if level = 3 then
      (.ok (children chunk).isNone, .branch (Function.update children chunk (some (.leaf value))))
    else
      -- an error further down leaves the branches that were created for it
      let (answer, child) := insertFrom vaddr value levels ((children chunk).getD .newBranch)
      (answer, .branch (Function.update children chunk (some child)))
  | _ :: _, .leaf old => (.error (.addressUnmapped vaddr), .leaf old)

def insert (tree : ConcurrentRadixTree) (vaddr : UInt64) (value : RadixLeafValue) :
    Except RadixTreeError Unit × ConcurrentRadixTree :=
  match insertFrom vaddr value levels tree.root with
  | (.ok added, root) => (.ok (), ⟨root, tree.entryCount + added.toNat⟩)
  | (.error e, root) => (.error e, ⟨root, tree.entryCount⟩)

/-- The loop of `lookup`, and the test for a leaf after it. -/
def lookupFrom (vaddr : UInt64) : List ℕ → RadixNode → Except RadixTreeError RadixLeafValue
  | [], .leaf value => .ok value
  | [], .branch _ => .error (.addressUnmapped vaddr)
  | level :: levels, .branch children =>
    match children (extractChunk vaddr level) with
    | some child => lookupFrom vaddr levels child
    | none => .error (.addressUnmapped vaddr)
  | _ :: _, .leaf _ => .error (.addressUnmapped vaddr)

def lookup (tree : ConcurrentRadixTree) (vaddr : UInt64) : Except RadixTreeError RadixLeafValue :=
  lookupFrom vaddr levels tree.root

/-- What a round of `lookup_range` pushes. -/
def mappedAt (tree : ConcurrentRadixTree) (curr : UInt64) : Option (UInt64 × RadixLeafValue) :=
  match tree.lookup curr with
  | .ok val => some (curr, val)
  | .error _ => none

/-- The loop of `lookup_range`; `none` if it is not over after `fuel` rounds. -/
def lookupRangeFrom (tree : ConcurrentRadixTree) (endVaddr step : UInt64) :
    ℕ → UInt64 → List (UInt64 × RadixLeafValue) → Option (List (UInt64 × RadixLeafValue))
  | 0, _, _ => none
  | fuel + 1, curr, results =>
    if curr < endVaddr then
      lookupRangeFrom tree endVaddr step fuel (curr + step) (results ++ (tree.mappedAt curr).toList)
    else some results

/-- No address comes up twice in a loop that ends, so one that is not over after `2 ^ 64` rounds never
ends. -/
def lookupRange (tree : ConcurrentRadixTree) (startVaddr endVaddr step : UInt64) :
    Option (List (UInt64 × RadixLeafValue)) :=
  tree.lookupRangeFrom endVaddr step (2 ^ 64) startVaddr []

def len (tree : ConcurrentRadixTree) : ℕ := tree.entryCount

/-- The path of an address from the root. -/
def path (vaddr : UInt64) : List UInt16 := levels.map (extractChunk vaddr)

theorem length_path (vaddr : UInt64) : (path vaddr).length = levels.length := List.length_map _

theorem toNat_extractChunk (vaddr : UInt64) {level : ℕ} (h : level ≤ 3) :
    (extractChunk vaddr level).toNat = vaddr.toNat / 2 ^ ((3 - level) * 16) % 2 ^ 16 := by
  have hshift : ((3 - level) * radixBitsPerLevel).toUInt64.toNat % 64 = (3 - level) * 16 := by
    rw [radixBitsPerLevel, Nat.toUInt64_eq, UInt64.toNat_ofNat']
    omega
  have hmask : (0xFFFF : UInt64).toNat = 2 ^ 16 - 1 := rfl
  rw [extractChunk, UInt64.toNat_toUInt16, UInt64.toNat_and, hmask, Nat.and_two_pow_sub_one_eq_mod,
    Nat.mod_mod, UInt64.toNat_shiftRight, hshift, Nat.shiftRight_eq_div_pow]

/-- The four chunks are the address. -/
theorem path_inj {a b : UInt64} : path a = path b ↔ a = b := by
  refine ⟨fun h => ?_, congrArg path⟩
  have hchunk : ∀ level ∈ levels, extractChunk a level = extractChunk b level := by
    simpa [path] using h
  have hdigit : ∀ level ∈ levels, a.toNat / 2 ^ ((3 - level) * 16) % 2 ^ 16 =
      b.toNat / 2 ^ ((3 - level) * 16) % 2 ^ 16 := by
    intro level hl
    have h3 : level ≤ 3 := by
      simp only [levels, List.mem_cons, List.not_mem_nil, or_false] at hl
      omega
    rw [← toNat_extractChunk a h3, ← toNat_extractChunk b h3, hchunk level hl]
  have h0 := hdigit 0 (by simp [levels])
  have h1 := hdigit 1 (by simp [levels])
  have h2 := hdigit 2 (by simp [levels])
  have h3 := hdigit 3 (by simp [levels])
  have ha := a.toNat_lt
  have hb := b.toNat_lt
  apply UInt64.toNat_inj.mp
  norm_num at h0 h1 h2 h3
  omega

theorem lookupFrom_eq (vaddr : UInt64) (ls : List ℕ) (node : RadixNode) :
    lookupFrom vaddr ls node =
      (node.get (ls.map (extractChunk vaddr))).elim (.error (.addressUnmapped vaddr)) .ok := by
  induction ls generalizing node with
  | nil => cases node <;> rfl
  | cons level ls ih =>
    cases node with
    | leaf old => rfl
    | branch children =>
      cases hc : children (extractChunk vaddr level) with
      | none => simp [lookupFrom, Trie.get, hc]
      | some child => simp [lookupFrom, Trie.get, hc, ih]

/-- From a level to the last one, on a subtree of the height that is left. -/
theorem insertFrom_eq (vaddr : UInt64) (value : RadixLeafValue) (n : ℕ) {level : ℕ}
    (hl : level + n = 3) {node : RadixNode} (h : node.Uniform (n + 1)) :
    insertFrom vaddr value (List.range' level (n + 1)) node =
      (.ok (node.get ((List.range' level (n + 1)).map (extractChunk vaddr))).isNone,
        node.put ((List.range' level (n + 1)).map (extractChunk vaddr)) value) := by
  cases node with
  | leaf old => exact h.elim
  | branch children =>
    induction n generalizing level children with
    | zero =>
      obtain rfl : level = 3 := hl
      cases hc : children (extractChunk vaddr 3) with
      | none => simp [insertFrom, Trie.get, Trie.put, hc]
      | some child =>
        cases child with
        | leaf old => simp [insertFrom, Trie.get, Trie.put, hc]
        | branch below => exact (h _ _ hc).elim
    | succ n ih =>
      have hne : level ≠ 3 := by omega
      have hchild := Trie.uniform_getD h (extractChunk vaddr level)
      have hget := Trie.get_getD children (extractChunk vaddr level)
        ((List.range' (level + 1) (n + 1)).map (extractChunk vaddr))
      cases hc : (children (extractChunk vaddr level)).getD .newBranch with
      | leaf old =>
        rw [hc] at hchild
        exact hchild.elim
      | branch below =>
        rw [hc] at hchild hget
        rw [List.range'_succ, insertFrom, if_neg hne, hc, ih (by omega) below hchild, hget]
        simp [Trie.put, hc]

/-- `insert` on a tree whose leaves all stand at the fourth level. -/
theorem insert_eq {tree : ConcurrentRadixTree} (h : tree.root.Uniform levels.length)
    (vaddr : UInt64) (value : RadixLeafValue) :
    tree.insert vaddr value =
      (.ok (), ⟨tree.root.put (path vaddr) value,
        tree.entryCount + (tree.root.get (path vaddr)).isNone.toNat⟩) := by
  have hrun := insertFrom_eq vaddr value 3 (Nat.zero_add 3) h
  have hlevels : List.range' 0 (3 + 1) = levels := rfl
  rw [hlevels] at hrun
  rw [insert, hrun]
  rfl

def insertStep (tree : ConcurrentRadixTree) (entry : UInt64 × RadixLeafValue) :
    Except RadixTreeError Unit × ConcurrentRadixTree := tree.insert entry.1 entry.2

/-- The tree holds exactly `entries`, the last one for each address. -/
structure Holds (tree : ConcurrentRadixTree) (entries : List (UInt64 × RadixLeafValue)) : Prop where
  uniform : tree.root.Uniform levels.length
  get : ∀ vaddr, tree.root.get (path vaddr) = entries.reverse.lookup vaddr
  count : tree.entryCount = (entries.map Prod.fst).toFinset.card

theorem holds_new : new.Holds [] where
  uniform := Trie.uniform_newBranch 3
  get vaddr := Trie.get_newBranch (path vaddr)
  count := rfl

theorem Holds.get_eq_none_iff {tree : ConcurrentRadixTree}
    {entries : List (UInt64 × RadixLeafValue)} (h : tree.Holds entries) (vaddr : UInt64) :
    tree.root.get (path vaddr) = none ↔ vaddr ∉ entries.map Prod.fst := by
  rw [h.get, List.lookup_eq_none_iff]
  constructor
  · intro hall hmem
    obtain ⟨entry, he, rfl⟩ := List.mem_map.mp hmem
    simpa using hall entry (List.mem_reverse.mpr he)
  · intro hnot entry he
    have hne : vaddr ≠ entry.1 := fun heq =>
      hnot (heq ▸ List.mem_map_of_mem (List.mem_reverse.mp he))
    simpa using hne

theorem Holds.insert {tree : ConcurrentRadixTree} {entries : List (UInt64 × RadixLeafValue)}
    (h : tree.Holds entries) (vaddr : UInt64) (value : RadixLeafValue) :
    (tree.insert vaddr value).1 = .ok () ∧
      (tree.insert vaddr value).2.Holds (entries ++ [(vaddr, value)]) := by
  rw [insert_eq h.uniform]
  refine ⟨rfl, Trie.uniform_put (path vaddr) value h.uniform, fun a => ?_, ?_⟩
  · have hlen : (path a).length = (path vaddr).length := by rw [length_path, length_path]
    rw [Trie.get_put value h.uniform hlen, h.get]
    by_cases ha : a = vaddr
    · subst ha
      simp
    · have hpath : path a ≠ path vaddr := fun heq => ha (path_inj.mp heq)
      have hbeq : (a == vaddr) = false := by simpa using ha
      simp [List.lookup_cons, hpath, hbeq]
  · have hset : ((entries ++ [(vaddr, value)]).map Prod.fst).toFinset =
        Insert.insert vaddr (entries.map Prod.fst).toFinset := by
      ext a
      simp
    rw [hset]
    have hnone := h.get_eq_none_iff vaddr
    -- the count moves exactly for an address that was absent
    by_cases hmem : vaddr ∈ entries.map Prod.fst
    · obtain ⟨old, hold⟩ := Option.ne_none_iff_exists'.mp fun hn => hnone.mp hn hmem
      rw [Finset.card_insert_of_mem (List.mem_toFinset.mpr hmem), hold, h.count]
      exact Nat.add_zero _
    · rw [Finset.card_insert_of_notMem (mt List.mem_toFinset.mp hmem), hnone.mpr hmem, h.count]
      rfl

/-- A fresh tree refines a map from addresses: every insert succeeds, a lookup answers with the last
insert at its address, and the length is the number of addresses inserted. -/
theorem insert_run_refines_map (entries : List (UInt64 × RadixLeafValue)) :
    (∀ e ∈ trace insertStep new entries, e.answer = .ok ()) ∧
      (∀ vaddr, (exec insertStep new entries).lookup vaddr =
        (entries.reverse.lookup vaddr).elim (.error (.addressUnmapped vaddr)) .ok) ∧
      (exec insertStep new entries).len = (entries.map Prod.fst).toFinset.card := by
  have hall := along_true insertStep new entries
  have hrun : (∀ e ∈ trace insertStep new entries, e.answer = .ok ()) ∧
      (exec insertStep new entries).Holds ((trace insertStep new entries).map Event.call) := by
    refine history_induction (P := fun h tree =>
      (∀ e ∈ h, e.answer = .ok ()) ∧ tree.Holds (h.map Event.call)) ⟨by simp, holds_new⟩ ?_ entries hall
    rintro h tree entry ⟨hok, hholds⟩ -
    obtain ⟨hanswer, hpost⟩ := hholds.insert entry.1 entry.2
    refine ⟨fun e he => ?_, by simpa [event, insertStep] using hpost⟩
    rcases List.mem_append.mp he with he | he
    · exact hok e he
    · rw [List.mem_singleton.mp he]
      exact hanswer
  obtain ⟨hok, hholds⟩ := hrun
  rw [map_call_trace] at hholds
  refine ⟨hok, fun vaddr => ?_, hholds.count⟩
  rw [lookup, lookupFrom_eq, ← hholds.get]
  rfl

end ConcurrentRadixTree
end Virthub.Index
