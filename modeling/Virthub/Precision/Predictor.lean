import Virthub.Precision.Policy
import Mathlib.Data.Rat.Defs
import Mathlib.Order.Basic

/-! The allocation-time precision predictor: a table of layer profiles, the pressure state with its
hysteresis, and the decision. A `usize` is 64 bits, and an operation that would overflow or an index
out of bounds is `none`. -/
namespace Virthub.Precision

/-- Memory pressure, from normal serving to starvation. -/
inductive MemoryPressureState where
  | nominal
  | elevated
  | critical
  deriving DecidableEq, Repr

namespace MemoryPressureState

def asU8 : MemoryPressureState → UInt8
  | nominal => 0
  | elevated => 1
  | critical => 2

/-- The next state when the share `mu` of the memory is in use. -/
def update (self : MemoryPressureState) (mu : ℚ) : MemoryPressureState :=
  match self with
  | nominal =>
    if mu ≥ 88 / 100 then critical
    else if mu ≥ 78 / 100 then elevated
    else nominal
  | elevated =>
    if mu ≥ 88 / 100 then critical
    else if mu < 70 / 100 then nominal
    else elevated
  | critical => if mu < 82 / 100 then elevated else critical

end MemoryPressureState

def checkedSub (a b : UInt64) : Option UInt64 := if b ≤ a then some (a - b) else none

theorem checkedSub_of_le {a b : UInt64} (h : b ≤ a) : checkedSub a b = some (a - b) := if_pos h

def checkedMul (a b : UInt64) : Option UInt64 :=
  if a.toNat * b.toNat < 2 ^ 64 then some (a * b) else none

/-- `l < k || l >= total_layers - k`. The difference is only formed for a layer behind the first
`k`. -/
def atBoundary (totalLayers l k : UInt64) : Option Bool :=
  if l < k then some true else (checkedSub totalLayers k).map fun n => decide (l ≥ n)

/-- `l >= total_layers / 4 && l <= (3 * total_layers) / 4`. -/
def inMiddle (totalLayers l : UInt64) : Option Bool :=
  if l ≥ totalLayers / 4 then (checkedMul 3 totalLayers).map fun n => decide (l ≤ n / 4)
  else some false

def layerProfile (totalLayers l : UInt64) : Option LayerSensitivityProfile := do
  let isCritical ← atBoundary totalLayers l 2
  let nearBoundary ← atBoundary totalLayers l 4
  let canPrune ← inMiddle totalLayers l
  some ⟨if nearBoundary then 1 else 0, isCritical, canPrune⟩

def buildLayerProfiles (totalLayers : UInt64) : Option (List LayerSensitivityProfile) :=
  (List.range totalLayers.toNat).mapM fun l => layerProfile totalLayers (UInt64.ofNat l)

def sinkWindow : UInt64 := 16
def localWindow : UInt64 := 64
def fullHeadMask : UInt32 := 0xFFFFFF

structure Predictor where
  profiles : List LayerSensitivityProfile
  sinkWindow : UInt64
  localWindow : UInt64
  deriving DecidableEq, Repr

namespace Predictor

def withWindows (totalLayers sinkWindow localWindow : UInt64) : Option Predictor :=
  (buildLayerProfiles totalLayers).map fun profiles => ⟨profiles, sinkWindow, localWindow⟩

def new (totalLayers : UInt64) : Option Predictor :=
  withWindows totalLayers Precision.sinkWindow Precision.localWindow

/-- The mapping of a score to a precision level. -/
def scoredPrecision (score : ℕ) (hMem : MemoryPressureState) (canPrune : Bool) : PrecisionLevel :=
  if score ≥ 3 then
    if hMem = .nominal then .fp16 else .fp8Residual
  else if score = 0 ∧ hMem = .critical ∧ canPrune then .pruned
  else .fp8

/-- The policy of a block outside of the lossless windows. -/
def predictLayer (prof : LayerSensitivityProfile) (hMem : MemoryPressureState) (headMask : UInt32)
    (retrievalFlag : Bool) : PackedBlockPolicy :=
  if prof.isCritical then
    .new (if hMem = .critical then .fp8 else .fp16) false fullHeadMask
  else
    let score := prof.baseBonus.toNat + if retrievalFlag then 2 else 0
    let precision := scoredPrecision score hMem prof.canPrune
    let useResidual := decide (precision = .fp8Residual)
    let activeMask := if precision = .pruned then headMask &&& fullHeadMask else fullHeadMask
    .new precision useResidual activeMask

/-- `token_start < sink_window || (seq_len - token_start) < local_window`. -/
def inLosslessWindow (self : Predictor) (tokenStart seqLen : UInt64) : Option Bool :=
  if tokenStart < self.sinkWindow then some true
  else (checkedSub seqLen tokenStart).map fun n => decide (n < self.localWindow)

def predict (self : Predictor) (layerIdx tokenStart seqLen : UInt64) (hMem : MemoryPressureState)
    (headMask : UInt32) (retrievalFlag : Bool) : Option PackedBlockPolicy := do
  let lossless ← self.inLosslessWindow tokenStart seqLen
  if lossless then some (.new .fp16 false fullHeadMask)
  else
    let prof ← self.profiles[layerIdx.toNat]?
    some (predictLayer prof hMem headMask retrievalFlag)

theorem length_of_mapM {α β : Type} {f : α → Option β} {as : List α} {bs : List β}
    (h : as.mapM f = some bs) : bs.length = as.length := by
  induction as generalizing bs with
  | nil =>
    obtain rfl : [] = bs := Option.some.inj h
    rfl
  | cons a as ih =>
    rw [List.mapM_cons] at h
    obtain ⟨b, -, h⟩ := Option.bind_eq_some_iff.mp h
    obtain ⟨bs', hbs, h⟩ := Option.bind_eq_some_iff.mp h
    obtain rfl : b :: bs' = bs := Option.some.inj h
    rw [List.length_cons, List.length_cons, ih hbs]

/-- The table has a profile for each layer. -/
theorem length_profiles {self : Predictor} {L : UInt64} (hnew : Predictor.new L = some self) :
    self.profiles.length = L.toNat := by
  obtain ⟨profiles, hbuild, rfl⟩ := Option.map_eq_some_iff.mp hnew
  have hlen := length_of_mapM hbuild
  rwa [List.length_range] at hlen

end Predictor

end Virthub.Precision
