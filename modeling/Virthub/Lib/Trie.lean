import Mathlib.Data.List.Basic
import Mathlib.Logic.Function.Basic

/-! A trie whose values stand at the ends of paths of one length. -/
namespace Virthub.Lib

inductive Trie (κ ν : Type*) where
  | branch (children : κ → Option (Trie κ ν))
  | leaf (value : ν)

namespace Trie

variable {κ ν : Type*}

def newBranch : Trie κ ν := .branch fun _ => none

/-- The value at the end of a path; a path that ends early or late finds none. -/
def get : List κ → Trie κ ν → Option ν
  | [], .leaf value => some value
  | k :: ks, .branch children => (children k).bind (get ks)
  | _, _ => none

/-- Every path to a value has length `n`. -/
def Uniform : ℕ → Trie κ ν → Prop
  | 0, .leaf _ => True
  | n + 1, .branch children => ∀ k child, children k = some child → Uniform n child
  | _, _ => False

theorem uniform_newBranch (n : ℕ) : Uniform (n + 1) (newBranch : Trie κ ν) := by
  intro k child h
  cases h

@[simp] theorem get_newBranch (ks : List κ) : get ks (newBranch : Trie κ ν) = none := by
  cases ks <;> rfl

theorem uniform_getD {n : ℕ} {children : κ → Option (Trie κ ν)}
    (h : Uniform (n + 2) (.branch children)) (k : κ) : Uniform (n + 1) ((children k).getD newBranch) := by
  cases hc : children k with
  | none => exact uniform_newBranch n
  | some child => exact h k child hc

theorem get_getD (children : κ → Option (Trie κ ν)) (k : κ) (ks : List κ) :
    get ks ((children k).getD newBranch) = get (k :: ks) (.branch children) := by
  cases hc : children k <;> simp [get, hc]

variable [DecidableEq κ]

/-- Branches that a path needs are created; a value met too early stops the descent. -/
def put : List κ → ν → Trie κ ν → Trie κ ν
  | [], value, _ => .leaf value
  | k :: ks, value, .branch children =>
    .branch (Function.update children k (some (put ks value ((children k).getD newBranch))))
  | _ :: _, _, .leaf old => .leaf old

theorem uniform_put (ks : List κ) (value : ν) {t : Trie κ ν} (h : Uniform ks.length t) :
    Uniform ks.length (put ks value t) := by
  induction ks generalizing t with
  | nil => trivial
  | cons k ks ih =>
    cases t with
    | leaf old => exact h.elim
    | branch children =>
      intro j child hj
      rcases eq_or_ne j k with rfl | hne
      · obtain rfl : put ks value ((children j).getD newBranch) = child := by simpa using hj
        cases ks with
        | nil => trivial
        | cons i ks => exact ih (uniform_getD h j)
      · rw [Function.update_of_ne hne] at hj
        exact h j child hj

/-- A put is read back on its own path and on no other path of its length. -/
theorem get_put {ks js : List κ} (value : ν) {t : Trie κ ν} (h : Uniform ks.length t)
    (hl : js.length = ks.length) :
    get js (put ks value t) = if js = ks then some value else get js t := by
  induction ks generalizing js t with
  | nil =>
    obtain rfl : js = [] := List.length_eq_zero_iff.mp hl
    rfl
  | cons k ks ih =>
    cases t with
    | leaf old => exact h.elim
    | branch children =>
      cases js with
      | nil => cases hl
      | cons j js =>
        have hjs : js.length = ks.length := by simpa using hl
        rcases eq_or_ne j k with rfl | hne
        · have hread : get (j :: js) (put (j :: ks) value (.branch children)) =
              get js (put ks value ((children j).getD newBranch)) := by simp [put, get]
          rw [hread, ← get_getD]
          cases ks with
          | nil =>
            obtain rfl : js = [] := List.length_eq_zero_iff.mp hjs
            simp [put, get]
          | cons i ks => simp [ih (uniform_getD h j) hjs]
        · simp [put, get, hne]

end Trie
end Virthub.Lib
