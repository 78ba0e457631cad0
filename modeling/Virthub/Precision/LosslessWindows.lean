import Virthub.Precision.Predictor

/-! The lossless windows for every position of a block. A block that starts behind the end of the sequence
makes `seq_len - token_start` underflow: with overflow checks the prediction aborts, and without them the
block counts as an old one. -/
namespace Virthub.Precision

/-- The block is an attention sink or lies in the local window, over the integers. -/
def InWindows (t s : UInt64) : Prop := t.toNat < 16 ∨ (s.toNat : ℤ) - t.toNat < 64

def KeepsWindows (self : Predictor) (l t s : UInt64) (hMem : MemoryPressureState) (headMask : UInt32)
    (retrievalFlag : Bool) : Prop :=
  ∃ policy, self.predict l t s hMem headMask retrievalFlag = some policy ∧
    (InWindows t s → policy = .new .fp16 false fullHeadMask)

theorem windows_of_new {L : UInt64} {self : Predictor} (h : Predictor.new L = some self) :
    self.sinkWindow = 16 ∧ self.localWindow = 64 := by
  obtain ⟨profiles, -, rfl⟩ := Option.map_eq_some_iff.mp h
  exact ⟨rfl, rfl⟩

section Windows

variable {L l t s : UInt64} {self : Predictor} (hMem : MemoryPressureState) (headMask : UInt32)
  (retrievalFlag : Bool)

theorem inLosslessWindow_isSome_iff (h : Predictor.new L = some self) :
    (∃ b, self.inLosslessWindow t s = some b) ↔ t.toNat < 16 ∨ t.toNat ≤ s.toNat := by
  have hsink := (windows_of_new h).1
  have hsink' : t < 16 ↔ t.toNat < 16 := UInt64.lt_iff_toNat_lt
  rw [← hsink', ← UInt64.le_iff_toNat_le, Predictor.inLosslessWindow, hsink]
  by_cases ht : t < 16
  · simp [ht]
  · by_cases hts : t ≤ s
    · simp [ht, hts, checkedSub]
    · simp [ht, hts, checkedSub]

theorem inLosslessWindow_eq_true_iff (h : Predictor.new L = some self) {b : Bool}
    (hb : self.inLosslessWindow t s = some b) : b = true ↔ InWindows t s := by
  obtain ⟨hsink, hlocal⟩ := windows_of_new h
  have hsink' : t < 16 ↔ t.toNat < 16 := UInt64.lt_iff_toNat_lt
  rw [Predictor.inLosslessWindow, hsink, hlocal] at hb
  unfold InWindows
  by_cases ht : t < 16
  · rw [if_pos ht] at hb
    rw [← Option.some.inj hb]
    exact iff_of_true rfl (.inl (hsink'.mp ht))
  · rw [if_neg ht] at hb
    obtain ⟨n, hn, rfl⟩ := Option.map_eq_some_iff.mp hb
    obtain ⟨hts, hn⟩ := Option.ite_none_right_eq_some.mp hn
    obtain rfl := Option.some.inj hn
    have hdiff := UInt64.toNat_sub_of_le _ _ hts
    have hle := UInt64.le_iff_toNat_le.mp hts
    have hlow := mt hsink'.mpr ht
    rw [decide_eq_true_iff, UInt64.lt_iff_toNat_lt, hdiff]
    have h64 : (64 : UInt64).toNat = 64 := rfl
    omega

theorem predict_of_inLosslessWindow (h : Predictor.new L = some self) (hl : l < L) {b : Bool}
    (hb : self.inLosslessWindow t s = some b) :
    ∃ policy, self.predict l t s hMem headMask retrievalFlag = some policy ∧
      (b = true → policy = .new .fp16 false fullHeadMask) := by
  have hidx : l.toNat < self.profiles.length := by
    rw [Predictor.length_profiles h]
    exact UInt64.lt_iff_toNat_lt.mp hl
  rw [Predictor.predict, hb, List.getElem?_eq_getElem hidx]
  cases b with
  | true => exact ⟨_, rfl, fun _ => rfl⟩
  | false => exact ⟨_, rfl, fun hfalse => by cases hfalse⟩

/-- For every number of layers, layer and position, under any pressure: the windows are kept exactly for a
block in the sink and for one that does not start behind the end of the sequence. -/
theorem predict_keepsWindows_iff (h : Predictor.new L = some self) (hl : l < L) :
    KeepsWindows self l t s hMem headMask retrievalFlag ↔ t.toNat < 16 ∨ t.toNat ≤ s.toNat := by
  rw [← inLosslessWindow_isSome_iff h]
  constructor
  · intro hkeep
    obtain ⟨policy, hpolicy, -⟩ := hkeep
    obtain ⟨b, hb, -⟩ := Option.bind_eq_some_iff.mp hpolicy
    exact ⟨b, hb⟩
  · intro hsome
    obtain ⟨b, hb⟩ := hsome
    obtain ⟨policy, hpolicy, hfull⟩ := predict_of_inLosslessWindow hMem headMask retrievalFlag h hl hb
    exact ⟨policy, hpolicy, fun hin => hfull ((inLosslessWindow_eq_true_iff h hb).mpr hin)⟩

end Windows

theorem predict_keepsWindows_local : ∃ self, Predictor.new 32 = some self ∧ (10 : UInt64) < 32 ∧
    (KeepsWindows self 10 80 100 .critical 0xF0 false ↔ 80 < 16 ∨ 80 ≤ 100) := by
  have hnew : (Predictor.new 32).isSome = true := by decide +kernel
  obtain ⟨self, hself⟩ := Option.isSome_iff_exists.mp hnew
  have hl : (10 : UInt64) < 32 := by decide
  exact ⟨self, hself, hl, predict_keepsWindows_iff .critical 0xF0 false hself hl⟩

/-- A block that is allocated at token 112 of a sequence with 100 tokens lies in the local window, and its
prediction aborts. -/
theorem predict_aborts_ahead : ∃ self, Predictor.new 32 = some self ∧ InWindows 112 100 ∧
    self.predict 10 112 100 .nominal 0 false = none ∧ ¬ KeepsWindows self 10 112 100 .nominal 0 false := by
  have hnew : ((Predictor.new 32).map fun self => self.predict 10 112 100 .nominal 0 false) = some none := by
    decide +kernel
  obtain ⟨self, hself, hnone⟩ := Option.map_eq_some_iff.mp hnew
  refine ⟨self, hself, .inr (by decide), hnone, ?_⟩
  intro hkeep
  obtain ⟨policy, hpolicy, -⟩ := hkeep
  rw [hnone] at hpolicy
  cases hpolicy

/-- The test in a release build, where the difference wraps. -/
def Predictor.inLosslessWindowWrapping (self : Predictor) (tokenStart seqLen : UInt64) : Bool :=
  decide (tokenStart < self.sinkWindow) || decide (seqLen - tokenStart < self.localWindow)

def Predictor.predictWrapping (self : Predictor) (layerIdx tokenStart seqLen : UInt64)
    (hMem : MemoryPressureState) (headMask : UInt32) (retrievalFlag : Bool) : Option PackedBlockPolicy :=
  if self.inLosslessWindowWrapping tokenStart seqLen then some (.new .fp16 false fullHeadMask)
  else (self.profiles[layerIdx.toNat]?).map fun prof => predictLayer prof hMem headMask retrievalFlag

section Wrapping

variable {L t s : UInt64} {self : Predictor} (l : UInt64) (hMem : MemoryPressureState) (headMask : UInt32)
  (retrievalFlag : Bool)

theorem predictWrapping_eq_predict (hts : t < self.sinkWindow ∨ t ≤ s) :
    self.predictWrapping l t s hMem headMask retrievalFlag =
      self.predict l t s hMem headMask retrievalFlag := by
  have htest : self.inLosslessWindow t s = some (self.inLosslessWindowWrapping t s) := by
    unfold Predictor.inLosslessWindow Predictor.inLosslessWindowWrapping
    by_cases ht : t < self.sinkWindow
    · simp [ht]
    · rw [if_neg ht, checkedSub_of_le (hts.resolve_left ht)]
      simp [ht]
  rw [Predictor.predictWrapping, Predictor.predict, htest, Option.map_eq_bind]
  rfl

/-- In a release build a block that starts behind the end of the sequence is outside of both windows, unless
the distance is within 64 of the whole range. -/
theorem predictWrapping_of_ahead (h : Predictor.new L = some self) (ht : 16 ≤ t.toNat)
    (hst : s.toNat < t.toNat) (hfar : t.toNat - s.toNat ≤ 2 ^ 64 - 64) :
    self.predictWrapping l t s hMem headMask retrievalFlag =
      (self.profiles[l.toNat]?).map fun prof => Predictor.predictLayer prof hMem headMask retrievalFlag := by
  obtain ⟨hsink, hlocal⟩ := windows_of_new h
  have hsink' : ¬ t < 16 := by
    rw [UInt64.lt_iff_toNat_lt]
    exact Nat.not_lt.mpr ht
  have hlocal' : ¬ s - t < 64 := by
    have h64 : (64 : UInt64).toNat = 64 := rfl
    have ht' := t.toNat_lt
    rw [UInt64.lt_iff_toNat_lt, UInt64.toNat_sub, h64]
    omega
  have hout : self.inLosslessWindowWrapping t s = false := by
    simp [Predictor.inLosslessWindowWrapping, hsink, hlocal, hsink', hlocal']
  rw [Predictor.predictWrapping, hout]
  rfl

end Wrapping

end Virthub.Precision
