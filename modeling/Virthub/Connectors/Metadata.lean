import Mathlib.Data.List.AList
import Virthub.Precision.Policy

/-! The metadata that the connectors keep beside a registered region. -/
namespace Virthub.Connectors

structure PspKvSidecarDescriptor where
  dataPageBasePtr : UInt64
  residualPagePtr : UInt64
  headPresenceMask : UInt64
  basePrecision : UInt8
  compressionLevel : UInt8
  headGroupSize : UInt8
  reservedFlags : UInt8
  perHeadScaleE8m0 : Vector UInt8 8
  reservedPadding : Vector UInt8 28
  deriving DecidableEq

variable {κ β : Type*} [DecidableEq κ]

/-- A value that is given replaces the one in the map, and a value that is not given leaves it. -/
def attach (m : AList fun _ : κ => β) (key : κ) : Option β → AList fun _ : κ => β
  | some value => m.insert key value
  | none => m

theorem lookup_attach (m : AList fun _ : κ => β) (key : κ) (value : Option β) :
    (attach m key value).lookup key = value.or (m.lookup key) := by
  cases value with
  | none => rfl
  | some value => exact AList.lookup_insert m

theorem lookup_attach_ne (m : AList fun _ : κ => β) {key k : κ} (h : k ≠ key) (value : Option β) :
    (attach m key value).lookup k = m.lookup k := by
  cases value with
  | none => rfl
  | some value => exact AList.lookup_insert_ne h

end Virthub.Connectors
