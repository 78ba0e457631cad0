import Mathlib.Algebra.Ring.Nat
import Mathlib.Data.List.Basic

/-! The loop `while curr < stop` that adds `step` to a 64-bit cursor in each round. The cursor wraps at `2 ^
64`, so the loop may come back below its start and may go on forever. -/
namespace Virthub.Lib.Sweep

/-- The addresses that the loop visits, if it ends in fewer than `fuel` rounds. -/
def sweep (step stop : UInt64) : ℕ → UInt64 → Option (List UInt64)
  | 0, _ => none
  | fuel + 1, curr =>
    if curr < stop then (sweep step stop fuel (curr + step)).map fun rest => curr :: rest
    else some []

/-- The cursor after `j` rounds. -/
def cursor (start step : UInt64) (j : ℕ) : UInt64 := start + UInt64.ofNat j * step

/-- The cursor is below `stop` for `m` rounds, and then is not. -/
def Leaves (start step stop : UInt64) (m : ℕ) : Prop :=
  (∀ j < m, cursor start step j < stop) ∧ stop ≤ cursor start step m

variable {start step stop : UInt64}

theorem toNat_cursor (start step : UInt64) (j : ℕ) :
    (cursor start step j).toNat = (start.toNat + j * step.toNat) % 2 ^ 64 := by
  rw [cursor, UInt64.toNat_add, UInt64.toNat_mul, UInt64.toNat_ofNat', Nat.mod_mul_mod,
    Nat.add_mod_mod]

/-- Before it wraps the cursor is the sum. -/
theorem toNat_cursor_of_lt {j : ℕ} (h : start.toNat + j * step.toNat < 2 ^ 64) :
    (cursor start step j).toNat = start.toNat + j * step.toNat := by
  rw [toNat_cursor, Nat.mod_eq_of_lt h]

theorem cursor_zero (start step : UInt64) : cursor start step 0 = start := by
  rw [← UInt64.toNat_inj, toNat_cursor, zero_mul, add_zero]
  exact Nat.mod_eq_of_lt start.toNat_lt

theorem cursor_succ (start step : UInt64) (j : ℕ) :
    cursor (start + step) step j = cursor start step (j + 1) := by
  rw [← UInt64.toNat_inj, toNat_cursor, toNat_cursor, UInt64.toNat_add, Nat.mod_add_mod, add_mul,
    one_mul]
  congr 1
  omega

theorem cursor_add_period (start step : UInt64) (j : ℕ) :
    cursor start step (j + 2 ^ 64) = cursor start step j := by
  rw [← UInt64.toNat_inj, toNat_cursor, toNat_cursor, add_mul, ← add_assoc, Nat.add_mul_mod_self_left]

theorem map_cursor_succ (start step : UInt64) (m : ℕ) :
    (List.range (m + 1)).map (cursor start step) =
      start :: (List.range m).map (cursor (start + step) step) := by
  rw [List.range_succ_eq_map, List.map_cons, List.map_map, cursor_zero]
  congr 1
  exact List.map_congr_left fun j _ => (cursor_succ start step j).symm

theorem leaves_zero : Leaves start step stop 0 ↔ stop ≤ start := by
  simp [Leaves, cursor_zero]

theorem leaves_succ {m : ℕ} :
    Leaves start step stop (m + 1) ↔ start < stop ∧ Leaves (start + step) step stop m := by
  simp only [Leaves, cursor_succ]
  constructor
  · rintro ⟨hbelow, hleft⟩
    have h0 := hbelow 0 (Nat.succ_pos m)
    rw [cursor_zero] at h0
    exact ⟨h0, fun j hj => hbelow (j + 1) (by omega), hleft⟩
  · rintro ⟨hstart, hbelow, hleft⟩
    refine ⟨fun j hj => ?_, hleft⟩
    cases j with
    | zero => rwa [cursor_zero]
    | succ j => exact hbelow j (by omega)

/-- The cursor is periodic, so it leaves within `2 ^ 64` rounds or never. -/
theorem Leaves.lt {m : ℕ} (h : Leaves start step stop m) : m < 2 ^ 64 := by
  by_contra hge
  obtain ⟨j, rfl⟩ : ∃ j, m = j + 2 ^ 64 := ⟨m - 2 ^ 64, by omega⟩
  have hbelow := h.1 j (by omega)
  have hleft := h.2
  rw [cursor_add_period] at hleft
  exact absurd hbelow (UInt64.not_lt.mpr hleft)

theorem sweep_eq_some_iff {fuel : ℕ} {visited : List UInt64} :
    sweep step stop fuel start = some visited ↔
      ∃ m < fuel, Leaves start step stop m ∧ visited = (List.range m).map (cursor start step) := by
  induction fuel generalizing start visited with
  | zero => simp [sweep]
  | succ fuel ih =>
    rw [sweep]
    by_cases hs : start < stop
    · rw [if_pos hs, Option.map_eq_some_iff]
      constructor
      · rintro ⟨rest, hrest, rfl⟩
        obtain ⟨m, hm, hleaves, rfl⟩ := ih.mp hrest
        exact ⟨m + 1, by omega, leaves_succ.mpr ⟨hs, hleaves⟩, (map_cursor_succ start step m).symm⟩
      · rintro ⟨m, hm, hleaves, rfl⟩
        cases m with
        | zero => exact absurd hs (UInt64.not_lt.mpr (leaves_zero.mp hleaves))
        | succ m =>
          exact ⟨_, ih.mpr ⟨m, by omega, (leaves_succ.mp hleaves).2, rfl⟩,
            (map_cursor_succ start step m).symm⟩
    · rw [if_neg hs]
      constructor
      · intro h
        exact ⟨0, by omega, leaves_zero.mpr (UInt64.not_lt.mp hs), (Option.some.inj h).symm⟩
      · rintro ⟨m, -, hleaves, rfl⟩
        cases m with
        | zero => rfl
        | succ m => exact absurd (leaves_succ.mp hleaves).1 hs

/-- `2 ^ 64` rounds are enough for every loop that ends. -/
theorem sweep_full_eq_some_iff {visited : List UInt64} :
    sweep step stop (2 ^ 64) start = some visited ↔
      ∃ m, Leaves start step stop m ∧ visited = (List.range m).map (cursor start step) := by
  rw [sweep_eq_some_iff]
  constructor
  · rintro ⟨m, -, h⟩
    exact ⟨m, h⟩
  · rintro ⟨m, hleaves, hvisited⟩
    exact ⟨m, hleaves.lt, hleaves, hvisited⟩

/-- An address below `stop` that the cursor reaches before it wraps is visited. -/
theorem Leaves.lt_of_below {m k : ℕ} (h : Leaves start step stop m)
    (hk : start.toNat + k * step.toNat < stop.toNat) : k < m := by
  by_contra hge
  have hle : m * step.toNat ≤ k * step.toNat := Nat.mul_le_mul_right _ (by omega)
  have hstop := stop.toNat_lt
  have hleft := UInt64.le_iff_toNat_le.mp h.2
  rw [toNat_cursor_of_lt (by omega)] at hleft
  omega

end Virthub.Lib.Sweep
