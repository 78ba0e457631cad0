import Mathlib.Data.List.Basic

/-! A decoder on a growing buffer. Input arrives in chunks of any size; after each chunk the
decoder is called until it asks for more. -/
namespace Virthub.Lib.Streaming

variable {β ρ : Type*}

/-- One call of a decoder on the buffer: a result or a request for more input, and the buffer that
it leaves. -/
abbrev Decoder (β ρ : Type*) := List β → Option ρ × List β

/-- Call the decoder until it asks for more. A decoder that returns a result and consumes nothing
never asks, so the number of calls is bounded by `fuel`, and `none` says it was not enough. -/
def drain (dec : Decoder β ρ) : ℕ → List β → Option (List ρ × List β)
  | 0, _ => none
  | fuel + 1, buf =>
    match dec buf with
    | (none, buf') => some ([], buf')
    | (some r, buf') => (drain dec fuel buf').map fun out => (r :: out.1, out.2)

def feed (dec : Decoder β ρ) (fuel : ℕ) : List (List β) → List β → Option (List ρ × List β)
  | [], buf => some ([], buf)
  | chunk :: chunks, buf =>
    (drain dec fuel (buf ++ chunk)).bind fun out =>
      (feed dec fuel chunks out.2).map fun rest => (out.1 ++ rest.1, rest.2)

/-- The decoder takes the frame `w` off the front of a buffer with the result `r`, and waits as
long as the frame is not complete. -/
structure Frames (dec : Decoder β ρ) (w : List β) (r : ρ) : Prop where
  takes : ∀ rest, dec (w ++ rest) = (some r, rest)
  waits : ∀ p, p <+: w → p ≠ w → dec p = (none, p)

theorem drain_of_prefix {dec : Decoder β ρ} (hnil : dec [] = (none, [])) {frames : List (List β × ρ)}
    (hf : ∀ f ∈ frames, Frames dec f.1 f.2) {buf : List β}
    (hb : buf <+: frames.flatMap Prod.fst) :
    ∃ done todo buf', frames = done ++ todo ∧ buf = done.flatMap Prod.fst ++ buf' ∧
      (∀ fuel, done.length < fuel → drain dec fuel buf = some (done.map Prod.snd, buf')) ∧
      (∀ f fs, todo = f :: fs → ¬ f.1 <+: buf') := by
  induction frames generalizing buf with
  | nil =>
    have hbuf : buf = [] := List.prefix_nil.mp hb
    subst hbuf
    refine ⟨[], [], [], rfl, rfl, fun fuel hfuel => ?_, by simp⟩
    obtain ⟨fuel, rfl⟩ := Nat.exists_eq_succ_of_ne_zero (Nat.ne_of_gt hfuel)
    simp [drain, hnil]
  | cons f frames ih =>
    have hhead := hf f List.mem_cons_self
    rw [List.flatMap_cons] at hb
    by_cases hw : f.1 <+: buf
    · obtain ⟨buf, rfl⟩ := hw
      obtain ⟨done, todo, buf', rfl, rfl, hdrain, hend⟩ :=
        ih (fun g hg => hf g (List.mem_cons_of_mem f hg)) ((List.prefix_append_right_inj _).mp hb)
      refine ⟨f :: done, todo, buf', rfl, by simp, fun fuel hfuel => ?_, hend⟩
      obtain ⟨fuel, rfl⟩ := Nat.exists_eq_succ_of_ne_zero (Nat.ne_of_gt (Nat.zero_lt_of_lt hfuel))
      have hrest := hdrain fuel (by simpa using hfuel)
      simp [drain, hhead.takes, hrest]
    · -- the first frame is not complete yet
      have hp : buf <+: f.1 :=
        (List.prefix_or_prefix_of_prefix hb (List.prefix_append _ _)).resolve_right hw
      have hne : buf ≠ f.1 := by
        intro heq
        exact hw (heq ▸ List.prefix_rfl)
      refine ⟨[], f :: frames, buf, rfl, by simp, fun fuel hfuel => ?_, ?_⟩
      · obtain ⟨fuel, rfl⟩ := Nat.exists_eq_succ_of_ne_zero (Nat.ne_of_gt hfuel)
        simp [drain, hhead.waits buf hp hne]
      · intro g gs hg
        cases hg
        exact hw

theorem feed_pending {dec : Decoder β ρ} (hnil : dec [] = (none, [])) {frames : List (List β × ρ)}
    (hf : ∀ f ∈ frames, Frames dec f.1 f.2) {chunks : List (List β)} {buf : List β}
    (hb : buf ++ chunks.flatten = frames.flatMap Prod.fst)
    (hpend : ∀ f fs, frames = f :: fs → ¬ f.1 <+: buf) {fuel : ℕ} (hfuel : frames.length < fuel) :
    feed dec fuel chunks buf = some (frames.map Prod.snd, []) := by
  induction chunks generalizing frames buf with
  | nil =>
    rw [List.flatten_nil, List.append_nil] at hb
    cases frames with
    | nil =>
      have hbuf : buf = [] := hb
      simp [feed, hbuf]
    | cons f fs =>
      refine absurd ?_ (hpend f fs rfl)
      rw [hb, List.flatMap_cons]
      exact List.prefix_append _ _
  | cons chunk chunks ih =>
    rw [List.flatten_cons, ← List.append_assoc] at hb
    obtain ⟨done, todo, buf', rfl, hbuf, hdrain, hpend'⟩ :=
      drain_of_prefix hnil hf ⟨chunks.flatten, hb⟩
    rw [hbuf, List.flatMap_append, List.append_assoc, List.append_cancel_left_eq] at hb
    rw [List.length_append] at hfuel
    have hrest := ih (fun f hm => hf f (List.mem_append_right _ hm)) hb hpend' (by omega)
    simp [feed, hdrain fuel (by omega), hrest]

/-- However a sequence of frames is cut into chunks, the decoder returns their results in order
and leaves nothing behind. -/
theorem feed_frames {dec : Decoder β ρ} (hnil : dec [] = (none, [])) {frames : List (List β × ρ)}
    (hf : ∀ f ∈ frames, Frames dec f.1 f.2) {chunks : List (List β)}
    (hb : chunks.flatten = frames.flatMap Prod.fst) {fuel : ℕ} (hfuel : frames.length < fuel) :
    feed dec fuel chunks [] = some (frames.map Prod.snd, []) := by
  refine feed_pending hnil hf hb ?_ hfuel
  intro f fs hframes hp
  have htakes := (hf f (by simp [hframes])).takes []
  rw [List.prefix_nil.mp hp, List.append_nil, hnil] at htakes
  cases htakes

/-! A caller that gives up at the first error. -/

section UntilError

variable {ε : Type*}

structure Outcome (β ρ ε : Type*) where
  results : List ρ
  error : Option ε
  rest : List β

def Outcome.behind (rs : List ρ) (out : Outcome β ρ ε) : Outcome β ρ ε :=
  { out with results := rs ++ out.results }

def drainOk (dec : Decoder β (Except ε ρ)) : ℕ → List β → Option (Outcome β ρ ε)
  | 0, _ => none
  | fuel + 1, buf =>
    match dec buf with
    | (none, buf') => some ⟨[], none, buf'⟩
    | (some (.error e), buf') => some ⟨[], some e, buf'⟩
    | (some (.ok r), buf') => (drainOk dec fuel buf').map (·.behind [r])

def feedOk (dec : Decoder β (Except ε ρ)) (fuel : ℕ) : List (List β) → List β → Option (Outcome β ρ ε)
  | [], buf => some ⟨[], none, buf⟩
  | chunk :: chunks, buf =>
    (drainOk dec fuel (buf ++ chunk)).bind fun out =>
      if out.error.isSome then some out
      else (feedOk dec fuel chunks out.rest).map (·.behind out.results)

/-- More input does not change a result that has been returned, and every value costs input. -/
structure Stable (dec : Decoder β (Except ε ρ)) : Prop where
  waits : ∀ {p q}, dec p = (none, q) → q = p
  keeps : ∀ {p q r}, dec p = (some r, q) → ∀ more, dec (p ++ more) = (some r, q ++ more)
  consumes : ∀ {p q v}, dec p = (some (.ok v), q) → q.length < p.length

theorem drainOk_cases (dec : Decoder β (Except ε ρ)) (fuel : ℕ) (buf : List β) :
    (∃ buf', dec buf = (none, buf') ∧ drainOk dec (fuel + 1) buf = some ⟨[], none, buf'⟩) ∨
    (∃ e buf', dec buf = (some (.error e), buf') ∧ drainOk dec (fuel + 1) buf = some ⟨[], some e, buf'⟩) ∨
    ∃ r buf', dec buf = (some (.ok r), buf') ∧
      drainOk dec (fuel + 1) buf = (drainOk dec fuel buf').map (·.behind [r]) := by
  rw [drainOk]
  rcases dec buf with ⟨_ | e | r, buf'⟩
  · exact Or.inl ⟨buf', rfl, rfl⟩
  · exact Or.inr (Or.inl ⟨e, buf', rfl, rfl⟩)
  · exact Or.inr (Or.inr ⟨r, buf', rfl, rfl⟩)

variable {dec : Decoder β (Except ε ρ)}

/-- A call for each element of the buffer and one more are enough. Without an error the decoder is left asking
for more. -/
theorem Stable.exists_drainOk (h : Stable dec) {fuel : ℕ} {buf : List β} (hfuel : buf.length < fuel) :
    ∃ out, drainOk dec fuel buf = some out ∧
      (out.error = none → dec out.rest = (none, out.rest) ∧ out.rest.length ≤ buf.length) := by
  induction fuel generalizing buf with
  | zero => exact absurd hfuel (Nat.not_lt_zero _)
  | succ fuel ih =>
    rcases drainOk_cases dec fuel buf with
      ⟨buf', hdec, hdrain⟩ | ⟨e, buf', -, hdrain⟩ | ⟨r, buf', hdec, hdrain⟩
    · obtain rfl := h.waits hdec
      exact ⟨_, hdrain, fun _ => ⟨hdec, Nat.le_refl _⟩⟩
    · refine ⟨_, hdrain, fun herror => ?_⟩
      cases herror
    · have hlt := h.consumes hdec
      obtain ⟨out, hout, hend⟩ := ih (Nat.lt_of_lt_of_le hlt (Nat.le_of_lt_succ hfuel))
      rw [hout] at hdrain
      refine ⟨_, hdrain, fun herror => ?_⟩
      obtain ⟨hwaits, hle⟩ := hend herror
      exact ⟨hwaits, Nat.le_trans hle (Nat.le_of_lt hlt)⟩

theorem drainOk_add {fuel : ℕ} {buf : List β} {out : Outcome β ρ ε} (h : drainOk dec fuel buf = some out)
    (k : ℕ) : drainOk dec (fuel + k) buf = some out := by
  induction fuel generalizing buf out with
  | zero => cases h
  | succ fuel ih =>
    rw [Nat.add_right_comm]
    rcases drainOk_cases dec fuel buf with
      ⟨buf', hdec, hdrain⟩ | ⟨e, buf', hdec, hdrain⟩ | ⟨r, buf', hdec, hdrain⟩
    all_goals
      rw [hdrain] at h
      rw [drainOk, hdec]
    · exact h
    · exact h
    · obtain ⟨out', hout, rfl⟩ := Option.map_eq_some_iff.mp h
      dsimp only
      rw [ih hout]
      rfl

theorem drainOk_unique {m n : ℕ} {buf : List β} {out out' : Outcome β ρ ε}
    (h : drainOk dec m buf = some out) (h' : drainOk dec n buf = some out') : out = out' := by
  have hm := drainOk_add h n
  have hn := drainOk_add h' m
  rw [Nat.add_comm] at hn
  exact Option.some.inj (hm.symm.trans hn)

theorem Stable.drainOk_error_append (h : Stable dec) {fuel : ℕ} {buf : List β} {out : Outcome β ρ ε}
    (hdrain : drainOk dec fuel buf = some out) (herror : out.error.isSome) (more : List β) :
    drainOk dec fuel (buf ++ more) = some ⟨out.results, out.error, out.rest ++ more⟩ := by
  induction fuel generalizing buf out with
  | zero => cases hdrain
  | succ fuel ih =>
    rcases drainOk_cases dec fuel buf with
      ⟨buf', hdec, hstep⟩ | ⟨e, buf', hdec, hstep⟩ | ⟨r, buf', hdec, hstep⟩
    all_goals rw [hstep] at hdrain
    · obtain rfl := Option.some.inj hdrain
      cases herror
    · obtain rfl := Option.some.inj hdrain
      rw [drainOk, h.keeps hdec]
    · obtain ⟨out', hout, rfl⟩ := Option.map_eq_some_iff.mp hdrain
      rw [drainOk, h.keeps hdec]
      dsimp only
      rw [ih hout herror]
      rfl

theorem Stable.drainOk_append (h : Stable dec) {m n : ℕ} {buf : List β} {out next : Outcome β ρ ε}
    (hdrain : drainOk dec m buf = some out) (hnone : out.error = none) {more : List β}
    (hnext : drainOk dec n (out.rest ++ more) = some next) :
    drainOk dec (n + m) (buf ++ more) = some (next.behind out.results) := by
  induction m generalizing buf out with
  | zero => cases hdrain
  | succ m ih =>
    rcases drainOk_cases dec m buf with
      ⟨buf', hdec, hstep⟩ | ⟨e, buf', hdec, hstep⟩ | ⟨r, buf', hdec, hstep⟩
    all_goals rw [hstep] at hdrain
    · obtain rfl := Option.some.inj hdrain
      obtain rfl := h.waits hdec
      exact drainOk_add hnext (m + 1)
    · obtain rfl := Option.some.inj hdrain
      cases hnone
    · obtain ⟨out', hout, rfl⟩ := Option.map_eq_some_iff.mp hdrain
      rw [← Nat.add_assoc, drainOk, h.keeps hdec]
      dsimp only
      rw [ih hout hnone hnext]
      rfl

/-- However the input is cut into chunks, the caller gets the results and the error that it gets from all of
it at once. -/
theorem Stable.feedOk_eq (h : Stable dec) {fuel : ℕ} {chunks : List (List β)} {buf : List β}
    (hbuf : dec buf = (none, buf)) (hfuel : (buf ++ chunks.flatten).length < fuel) :
    ∃ out whole, feedOk dec fuel chunks buf = some out ∧
      drainOk dec fuel (buf ++ chunks.flatten) = some whole ∧ out.results = whole.results ∧
      out.error = whole.error := by
  induction chunks generalizing buf with
  | nil =>
    obtain ⟨whole, hwhole, -⟩ := h.exists_drainOk hfuel
    refine ⟨_, whole, rfl, hwhole, ?_⟩
    obtain ⟨fuel, rfl⟩ := Nat.exists_eq_succ_of_ne_zero (Nat.ne_zero_of_lt hfuel)
    rw [List.flatten_nil, List.append_nil, drainOk, hbuf] at hwhole
    obtain rfl := Option.some.inj hwhole
    exact ⟨rfl, rfl⟩
  | cons chunk chunks ih =>
    rw [List.flatten_cons, ← List.append_assoc] at hfuel ⊢
    have hchunk : (buf ++ chunk).length < fuel :=
      Nat.lt_of_le_of_lt (List.prefix_append _ _).length_le hfuel
    obtain ⟨out, hout, hend⟩ := h.exists_drainOk hchunk
    rw [feedOk, hout, Option.bind_some]
    cases herror : out.error with
    | some e =>
      have hstop : out.error.isSome := by
        rw [herror]
        rfl
      exact ⟨out, _, rfl, h.drainOk_error_append hout hstop _, rfl, rfl⟩
    | none =>
      obtain ⟨hwaits, hle⟩ := hend herror
      have hrest : (out.rest ++ chunks.flatten).length < fuel := by
        rw [List.length_append] at hfuel ⊢
        omega
      obtain ⟨later, next, hlater, hnext, hresults, hlast⟩ := ih hwaits hrest
      obtain ⟨whole, hwhole, -⟩ := h.exists_drainOk hfuel
      obtain rfl := drainOk_unique hwhole (h.drainOk_append hout herror hnext)
      refine ⟨later.behind out.results, _, ?_, hwhole, ?_, hlast⟩
      · rw [hlater]
        rfl
      · exact congrArg (out.results ++ ·) hresults

end UntilError

end Virthub.Lib.Streaming
