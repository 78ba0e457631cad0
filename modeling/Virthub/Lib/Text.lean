import Mathlib.Algebra.Ring.Nat
import Mathlib.Data.List.Basic

/-! Text as lists of characters: stripping a repeated beginning, and reading a 64-bit number. -/
namespace Virthub.Lib

def trimAtMost (pat : List Char) : ℕ → List Char → List Char
  | 0, s => s
  | n + 1, s => if pat.isPrefixOf s then trimAtMost pat n (s.drop pat.length) else s

/-- Strip a pattern from the front as often as it stands there. Every turn shortens the text, so its
length bounds the turns. -/
def trimStartMatches (pat s : List Char) : List Char := trimAtMost pat s.length s

def digit (c : Char) : Option ℕ := if c.isDigit then some (c.toNat - '0'.toNat) else none

/-- Decimal digits after `acc`, as long as the number fits 64 bits. -/
def parseDigits : List Char → ℕ → Option ℕ
  | [], acc => some acc
  | c :: cs, acc =>
    match digit c with
    | none => none
    | some d => if acc * 10 + d < 2 ^ 64 then parseDigits cs (acc * 10 + d) else none

/-- An unsigned 64-bit number: digits, with at most one plus sign before them. -/
def parseU64 : List Char → Option UInt64
  | [] => none
  | '+' :: cs => if cs = [] then none else (parseDigits cs 0).map UInt64.ofNat
  | c :: cs => (parseDigits (c :: cs) 0).map UInt64.ofNat

theorem parseU64_cons_eq_none {c : Char} (hd : c.isDigit = false) (hp : c ≠ '+') (cs : List Char) :
    parseU64 (c :: cs) = none := by
  have hdigits : parseDigits (c :: cs) 0 = none := by simp [parseDigits, digit, hd]
  unfold parseU64
  split
  · rfl
  · rename_i heq
    exact absurd (List.cons.inj heq).1 hp
  · rename_i heq
    obtain ⟨rfl, rfl⟩ := List.cons.inj heq
    rw [hdigits]
    rfl

theorem trimAtMost_replicate {pat rest : List Char} (h : ¬ pat <+: rest) (k n : ℕ) :
    trimAtMost pat (k + n) ((List.replicate k pat).flatten ++ rest) = rest := by
  induction k with
  | zero =>
    have hnot : pat.isPrefixOf rest = false := by simpa [← List.isPrefixOf_iff_prefix] using h
    cases n with
    | zero => rfl
    | succ n => simp [trimAtMost, hnot]
  | succ k ih =>
    rw [Nat.add_right_comm, List.replicate_succ, List.flatten_cons, List.append_assoc, trimAtMost]
    have hpre : pat.isPrefixOf (pat ++ ((List.replicate k pat).flatten ++ rest)) = true := by
      rw [List.isPrefixOf_iff_prefix]
      exact List.prefix_append _ _
    rw [if_pos hpre, List.drop_left, ih]

theorem trimStartMatches_replicate {pat rest : List Char} (hpat : pat ≠ []) (h : ¬ pat <+: rest)
    (k : ℕ) : trimStartMatches pat ((List.replicate k pat).flatten ++ rest) = rest := by
  have hlen : k ≤ ((List.replicate k pat).flatten ++ rest).length := by
    have hpos := List.length_pos_iff.mpr hpat
    have hmul : k ≤ k * pat.length := Nat.le_mul_of_pos_right k hpos
    simp
    omega
  obtain ⟨n, hn⟩ := Nat.exists_eq_add_of_le hlen
  rw [trimStartMatches, hn]
  exact trimAtMost_replicate h k n

end Virthub.Lib
