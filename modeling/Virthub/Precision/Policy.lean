import Mathlib.Data.Nat.Bitwise

/-! The policy of a block: its precision level, a residual flag and a mask of active heads, packed
into one word. -/
namespace Virthub.Precision

inductive PrecisionLevel where
  | fp16
  | fp8
  | fp8Residual
  | pruned
  deriving DecidableEq, Repr

namespace PrecisionLevel

/-- The discriminant. -/
def toU32 : PrecisionLevel → UInt32
  | fp16 => 0
  | fp8 => 1
  | fp8Residual => 2
  | pruned => 3

def fromU8 (v : UInt8) : PrecisionLevel :=
  if v = 0 then fp16 else if v = 1 then fp8 else if v = 2 then fp8Residual else pruned

theorem toNat_toU32_lt (p : PrecisionLevel) : p.toU32.toNat < 4 := by
  cases p <;> decide

end PrecisionLevel

/-- Bits 0 and 1 are the precision level, bit 2 is the residual flag, bits 3 to 7 are reserved and
bits 8 to 31 are the mask of active heads. -/
structure PackedBlockPolicy where
  raw : UInt32
  deriving DecidableEq, Repr

namespace PackedBlockPolicy

def new (precision : PrecisionLevel) (residual : Bool) (headMask : UInt32) : PackedBlockPolicy :=
  let pBits := precision.toU32
  let rBit : UInt32 := if residual then 1 else 0
  let mask := headMask &&& 0xFFFFFF
  ⟨pBits ||| (rBit <<< 2) ||| (mask <<< 8)⟩

def precision (self : PackedBlockPolicy) : PrecisionLevel :=
  PrecisionLevel.fromU8 (self.raw &&& 0x3).toUInt8

def useResidual (self : PackedBlockPolicy) : Bool := (self.raw >>> 2) &&& 1 == 1

def headMask (self : PackedBlockPolicy) : UInt32 := (self.raw >>> 8) &&& 0xFFFFFF

/-- Bits 3 to 7. -/
def reserved (self : PackedBlockPolicy) : UInt32 := (self.raw >>> 3) &&& 0x1F

theorem toNat_and_mask {mask : UInt32} {k : ℕ} (hk : mask.toNat = 2 ^ k - 1) (w : UInt32) :
    (w &&& mask).toNat = w.toNat % 2 ^ k := by
  rw [UInt32.toNat_and, hk, Nat.and_two_pow_sub_one_eq_mod]

/-- The field of `k` bits behind the lowest `n`. -/
theorem toNat_field {mask n : UInt32} {k : ℕ} (hk : mask.toNat = 2 ^ k - 1) (hn : n.toNat < 32)
    (w : UInt32) : ((w >>> n) &&& mask).toNat = w.toNat / 2 ^ n.toNat % 2 ^ k := by
  rw [toNat_and_mask hk, UInt32.toNat_shiftRight, Nat.mod_eq_of_lt hn, Nat.shiftRight_eq_div_pow]

/-- The fields of a packed word do not overlap, so the word is their sum. -/
theorem toNat_raw_new (p : PrecisionLevel) (r : Bool) (m : UInt32) :
    (new p r m).raw.toNat = p.toU32.toNat + 4 * r.toNat + 256 * (m.toNat % 2 ^ 24) := by
  have hp : p.toU32.toNat < 2 ^ 2 := p.toNat_toU32_lt
  have hr := r.toNat_lt
  have hmask : (m &&& 0xFFFFFF).toNat = m.toNat % 2 ^ 24 := toNat_and_mask rfl m
  have hlow : p.toU32.toNat ||| r.toNat <<< 2 = r.toNat <<< 2 + p.toU32.toNat := by
    rw [Nat.or_comm, Nat.shiftLeft_add_eq_or_of_lt hp]
  have hlow' : r.toNat <<< 2 + p.toU32.toNat < 2 ^ 8 := by
    rw [Nat.shiftLeft_eq]
    omega
  have hrs : ((if r then (1 : UInt32) else 0) <<< 2).toNat = r.toNat <<< 2 := by
    cases r <;> rfl
  have hms : ((m &&& 0xFFFFFF) <<< 8).toNat = (m.toNat % 2 ^ 24) <<< 8 := by
    rw [UInt32.toNat_shiftLeft, hmask]
    apply Nat.mod_eq_of_lt
    have hlt := Nat.mod_lt m.toNat (Nat.two_pow_pos 24)
    change (m.toNat % 2 ^ 24) <<< 8 < 2 ^ 32
    rw [Nat.shiftLeft_eq]
    omega
  unfold new
  dsimp only
  rw [UInt32.toNat_or, UInt32.toNat_or, hrs, hms, hlow, Nat.or_comm,
    ← Nat.shiftLeft_add_eq_or_of_lt hlow', Nat.shiftLeft_eq, Nat.shiftLeft_eq]
  omega

@[simp] theorem precision_new (p : PrecisionLevel) (r : Bool) (m : UInt32) :
    (new p r m).precision = p := by
  have hraw : ((new p r m).raw &&& 0x3).toNat = p.toU32.toNat := by
    have hp := p.toNat_toU32_lt
    rw [toNat_and_mask (k := 2) rfl, toNat_raw_new]
    omega
  have hlevel : (new p r m).raw &&& 0x3 = p.toU32 := UInt32.toNat_inj.mp hraw
  rw [precision, hlevel]
  cases p <;> rfl

@[simp] theorem useResidual_new (p : PrecisionLevel) (r : Bool) (m : UInt32) :
    (new p r m).useResidual = r := by
  have hraw : (((new p r m).raw >>> 2) &&& 1).toNat = r.toNat := by
    have hp := p.toNat_toU32_lt
    have hr := r.toNat_lt
    rw [toNat_field (k := 1) rfl (by decide), toNat_raw_new]
    change _ / 4 % 2 = _
    omega
  have hflag : ((new p r m).raw >>> 2) &&& 1 = if r then 1 else 0 := by
    apply UInt32.toNat_inj.mp
    rw [hraw]
    cases r <;> rfl
  rw [useResidual, hflag]
  cases r <;> rfl

@[simp] theorem headMask_new (p : PrecisionLevel) (r : Bool) (m : UInt32) :
    (new p r m).headMask = m &&& 0xFFFFFF := by
  have hp := p.toNat_toU32_lt
  have hr := r.toNat_lt
  apply UInt32.toNat_inj.mp
  rw [headMask, toNat_field (k := 24) rfl (by decide), toNat_and_mask (k := 24) rfl, toNat_raw_new]
  change _ / 256 % 2 ^ 24 = _
  omega

@[simp] theorem reserved_new (p : PrecisionLevel) (r : Bool) (m : UInt32) :
    (new p r m).reserved = 0 := by
  have hp := p.toNat_toU32_lt
  have hr := r.toNat_lt
  apply UInt32.toNat_inj.mp
  rw [reserved, toNat_field (k := 5) rfl (by decide), toNat_raw_new]
  change _ / 8 % 32 = 0
  omega

end PackedBlockPolicy

/-- What the predictor knows of a layer. -/
structure LayerSensitivityProfile where
  baseBonus : UInt8
  isCritical : Bool
  canPrune : Bool
  deriving DecidableEq, Repr

end Virthub.Precision
