import Mathlib.Data.Nat.Digits.Defs

/-! A byte format with fixed-width little-endian integers, tagged variants, and strings and vectors
behind a 64-bit length. A reader takes what it needs from the front of its input and leaves the
rest, so bytes behind a value are never looked at. -/
namespace Virthub.Lib.Bincode

variable {α β : Type}

/-- The low `w` bytes of a number, least significant first. -/
def leBytes (w n : ℕ) : List UInt8 := (List.range w).map fun i => UInt8.ofNat (n / 256 ^ i)

def leNat (bs : List UInt8) : ℕ := Nat.ofDigits 256 (bs.map UInt8.toNat)

/-- The same with the most significant byte first. -/
def beBytes (w n : ℕ) : List UInt8 := (leBytes w n).reverse

def beNat (bs : List UInt8) : ℕ := leNat bs.reverse

@[simp] theorem length_leBytes (w n : ℕ) : (leBytes w n).length = w := by
  simp [leBytes]

@[simp] theorem length_beBytes (w n : ℕ) : (beBytes w n).length = w := by
  simp [beBytes]

theorem leBytes_succ (w n : ℕ) :
    leBytes (w + 1) n = leBytes w n ++ [UInt8.ofNat (n / 256 ^ w)] := by
  simp [leBytes, List.range_succ]

theorem leBytes_add (v w n : ℕ) : leBytes (v + w) n = leBytes v n ++ leBytes w (n / 256 ^ v) := by
  induction w with
  | zero => simp [leBytes]
  | succ w ih =>
    rw [← Nat.add_assoc, leBytes_succ, ih, leBytes_succ, List.append_assoc, Nat.div_div_eq_div_mul,
      ← pow_add]

/-- Only the low bytes count. -/
theorem leBytes_mod (w n : ℕ) : leBytes w (n % 256 ^ w) = leBytes w n := by
  unfold leBytes
  apply List.map_congr_left
  intro i hi
  have hiw : i < w := List.mem_range.mp hi
  have hsplit : 256 ^ w = 256 ^ i * (256 * 256 ^ (w - i - 1)) := by
    rw [← pow_succ', ← pow_add]
    congr 1
    omega
  apply UInt8.toNat_inj.mp
  rw [UInt8.toNat_ofNat', UInt8.toNat_ofNat', hsplit, Nat.mod_mul_right_div_self]
  exact Nat.mod_mul_right_mod _ 256 _

theorem leNat_append (bs cs : List UInt8) :
    leNat (bs ++ cs) = leNat bs + 256 ^ bs.length * leNat cs := by
  simp [leNat, Nat.ofDigits_append]

theorem leNat_lt (bs : List UInt8) : leNat bs < 256 ^ bs.length := by
  unfold leNat
  have h := Nat.ofDigits_lt_base_pow_length' (b := 254) (l := bs.map UInt8.toNat) fun d hd => ?_
  · simpa using h
  · obtain ⟨b, -, rfl⟩ := List.mem_map.mp hd
    exact b.toNat_lt

theorem leNat_leBytes (w n : ℕ) : leNat (leBytes w n) = n % 256 ^ w := by
  induction w with
  | zero => simp [leBytes, leNat, Nat.mod_one]
  | succ w ih =>
    have hlast : leNat [UInt8.ofNat (n / 256 ^ w)] = n / 256 ^ w % 256 := by
      simp [leNat]
    rw [leBytes_succ, leNat_append, length_leBytes, ih, hlast, Nat.mod_pow_succ]

theorem beNat_beBytes (w n : ℕ) : beNat (beBytes w n) = n % 256 ^ w := by
  rw [beNat, beBytes, List.reverse_reverse, leNat_leBytes]

inductive DecodeError where
  | unexpectedEof
  | invalidBool (byte : UInt8)
  | invalidUtf8
  | invalidVariant (tag : ℕ)
  deriving DecidableEq, Repr

abbrev Get := StateT (List UInt8) (Except DecodeError)

theorem bind_ok {g : Get α} {f : α → Get β} {bs rest : List UInt8} {a : α}
    (h : g bs = .ok (a, rest)) : (g >>= f) bs = f a rest := by
  simp only [bind, StateT.bind, h, Except.bind]

theorem bind_error {g : Get α} {f : α → Get β} {bs : List UInt8} {e : DecodeError}
    (h : g bs = .error e) : (g >>= f) bs = .error e := by
  simp only [bind, StateT.bind, h, Except.bind]

def getBytes (n : ℕ) : Get (List UInt8) := fun bs =>
  if n ≤ bs.length then .ok (bs.take n, bs.drop n) else .error .unexpectedEof

def getU8 : Get UInt8 := getBytes 1 >>= fun bs => pure (UInt8.ofNat (leNat bs))
def getU32 : Get UInt32 := getBytes 4 >>= fun bs => pure (UInt32.ofNat (leNat bs))
def getU64 : Get UInt64 := getBytes 8 >>= fun bs => pure (UInt64.ofNat (leNat bs))

/-- The value of a bool that is read as a byte. -/
def boolOfByte (byte : UInt8) : Get Bool :=
  if byte = 0 then pure false else if byte = 1 then pure true else throw (.invalidBool byte)

def getBool : Get Bool := getU8 >>= boolOfByte

/-- The string with the given bytes. -/
def stringOfBytes (bs : List UInt8) : Get String :=
  match String.fromUTF8? ⟨bs.toArray⟩ with
  | some s => pure s
  | none => throw .invalidUtf8

def getString : Get String := getU64 >>= fun len => getBytes len.toNat >>= stringOfBytes

def getMany (g : Get α) : ℕ → Get (List α)
  | 0 => pure []
  | n + 1 => g >>= fun a => getMany g n >>= fun as => pure (a :: as)

def getVec (g : Get α) : Get (List α) := getU64 >>= fun len => getMany g len.toNat

def putU8 (v : UInt8) : List UInt8 := [v]
def putU32 (v : UInt32) : List UInt8 := leBytes 4 v.toNat
def putU64 (v : UInt64) : List UInt8 := leBytes 8 v.toNat
def putBool (b : Bool) : List UInt8 := [if b then 1 else 0]
def utf8 (s : String) : List UInt8 := s.toUTF8.data.toList
def putString (s : String) : List UInt8 := putU64 (UInt64.ofNat (utf8 s).length) ++ utf8 s
def putVec (put : α → List UInt8) (as : List α) : List UInt8 :=
  putU64 (UInt64.ofNat as.length) ++ as.flatMap put

@[simp] theorem length_putU32 (v : UInt32) : (putU32 v).length = 4 := length_leBytes ..
@[simp] theorem length_putU64 (v : UInt64) : (putU64 v).length = 8 := length_leBytes ..
@[simp] theorem length_putBool (b : Bool) : (putBool b).length = 1 := rfl

/-- The reader takes exactly these bytes and returns that value, whatever follows. -/
def Reads (g : Get α) (bs : List UInt8) (a : α) : Prop := ∀ rest, g (bs ++ rest) = .ok (a, rest)

theorem reads_pure (a : α) : Reads (pure a) [] a := fun _ => rfl

theorem Reads.bind {g : Get α} {f : α → Get β} {bs cs : List UInt8} {a : α} {b : β}
    (h : Reads g bs a) (hf : Reads (f a) cs b) : Reads (g >>= f) (bs ++ cs) b := by
  intro rest
  rw [List.append_assoc, bind_ok (h _)]
  exact hf rest

theorem Reads.bind_pure {g : Get α} {f : α → β} {bs : List UInt8} {a : α} (h : Reads g bs a) :
    Reads (g >>= fun a => pure (f a)) bs (f a) := by
  intro rest
  rw [bind_ok (h rest)]
  rfl

theorem reads_getBytes (bs : List UInt8) : Reads (getBytes bs.length) bs bs := by
  intro rest
  simp [getBytes]

theorem reads_getU8 (v : UInt8) : Reads getU8 (putU8 v) v := by
  have h : Reads (getBytes 1) (putU8 v) (putU8 v) := reads_getBytes (putU8 v)
  have hv : UInt8.ofNat (leNat (putU8 v)) = v := by
    simp [putU8, leNat]
  simpa only [getU8, hv] using h.bind_pure (f := fun bs => UInt8.ofNat (leNat bs))

theorem reads_getU32 (v : UInt32) : Reads getU32 (putU32 v) v := by
  have h : Reads (getBytes 4) (putU32 v) (putU32 v) := by
    simpa using reads_getBytes (putU32 v)
  have hlt : v.toNat < 256 ^ 4 := v.toNat_lt
  have hv : UInt32.ofNat (leNat (putU32 v)) = v := by
    rw [putU32, leNat_leBytes, Nat.mod_eq_of_lt hlt, UInt32.ofNat_toNat]
  simpa only [getU32, hv] using h.bind_pure (f := fun bs => UInt32.ofNat (leNat bs))

theorem reads_getU64 (v : UInt64) : Reads getU64 (putU64 v) v := by
  have h : Reads (getBytes 8) (putU64 v) (putU64 v) := by
    simpa using reads_getBytes (putU64 v)
  have hlt : v.toNat < 256 ^ 8 := v.toNat_lt
  have hv : UInt64.ofNat (leNat (putU64 v)) = v := by
    rw [putU64, leNat_leBytes, Nat.mod_eq_of_lt hlt, UInt64.ofNat_toNat]
  simpa only [getU64, hv] using h.bind_pure (f := fun bs => UInt64.ofNat (leNat bs))

theorem reads_getBool (b : Bool) : Reads getBool (putBool b) b := by
  intro rest
  cases b <;> rfl

/-- A string is read back if its length fits in the 64-bit prefix. -/
theorem reads_getString {s : String} (h : (utf8 s).length < 2 ^ 64) :
    Reads getString (putString s) s := by
  have hlen : (UInt64.ofNat (utf8 s).length).toNat = (utf8 s).length := by
    rw [UInt64.toNat_ofNat', Nat.mod_eq_of_lt h]
  have hs : stringOfBytes (utf8 s) = pure s := by
    have hvalid : String.fromUTF8? ⟨(utf8 s).toArray⟩ = some s := by
      simp only [utf8, Array.toArray_toList, String.fromUTF8?]
      exact dif_pos s.isValidUTF8
    rw [stringOfBytes, hvalid]
  have hbody : Reads (getBytes (utf8 s).length >>= stringOfBytes) (utf8 s ++ []) s := by
    apply (reads_getBytes (utf8 s)).bind
    rw [hs]
    exact reads_pure s
  apply (reads_getU64 _).bind
  rw [hlen]
  simpa using hbody

theorem reads_getMany {g : Get α} {put : α → List UInt8} {as : List α}
    (h : ∀ a ∈ as, Reads g (put a) a) : Reads (getMany g as.length) (as.flatMap put) as := by
  induction as with
  | nil => exact reads_pure []
  | cons a as ih =>
    have htail := ih fun b hb => h b (List.mem_cons_of_mem a hb)
    exact (h a List.mem_cons_self).bind (htail.bind_pure (f := fun as => a :: as))

theorem reads_getVec {g : Get α} {put : α → List UInt8} {as : List α} (hlen : as.length < 2 ^ 64)
    (h : ∀ a ∈ as, Reads g (put a) a) : Reads (getVec g) (putVec put as) as := by
  have hn : (UInt64.ofNat as.length).toNat = as.length := by
    rw [UInt64.toNat_ofNat', Nat.mod_eq_of_lt hlen]
  apply (reads_getU64 _).bind
  rw [hn]
  exact reads_getMany h

/-- The value at the start of some bytes, if there is one. -/
def decode (g : Get α) (bs : List UInt8) : Option α := (g bs).toOption.map Prod.fst

theorem Reads.decode_append {g : Get α} {bs : List UInt8} {a : α} (h : Reads g bs a) (rest : List UInt8) :
    decode g (bs ++ rest) = some a := by
  rw [decode, h rest]
  rfl

/-- The reader returns a value. -/
def Accepts (g : Get α) (bs : List UInt8) : Prop := ∃ r, g bs = .ok r

theorem accepts_pure (a : α) (bs : List UInt8) : Accepts (pure a) bs := ⟨(a, bs), rfl⟩

theorem not_accepts_throw (e : DecodeError) (bs : List UInt8) :
    ¬ Accepts (throw e : Get α) bs := by
  intro h
  obtain ⟨r, hr⟩ := h
  cases hr

theorem accepts_getBytes_bind {n : ℕ} {f : List UInt8 → Get α} {bs : List UInt8} :
    Accepts (getBytes n >>= f) bs ↔ n ≤ bs.length ∧ Accepts (f (bs.take n)) (bs.drop n) := by
  unfold Accepts
  by_cases hn : n ≤ bs.length
  · have hg : getBytes n bs = .ok (bs.take n, bs.drop n) := if_pos hn
    rw [bind_ok hg]
    simp [hn]
  · have hg : getBytes n bs = .error .unexpectedEof := if_neg hn
    rw [bind_error hg]
    simp [hn]

theorem accepts_getU8_bind {f : UInt8 → Get α} {bs : List UInt8} :
    Accepts (getU8 >>= f) bs ↔
      1 ≤ bs.length ∧ Accepts (f (UInt8.ofNat (leNat (bs.take 1)))) (bs.drop 1) := by
  rw [getU8, bind_assoc, accepts_getBytes_bind, pure_bind]

theorem accepts_getU32_bind {f : UInt32 → Get α} {bs : List UInt8} :
    Accepts (getU32 >>= f) bs ↔
      4 ≤ bs.length ∧ Accepts (f (UInt32.ofNat (leNat (bs.take 4)))) (bs.drop 4) := by
  rw [getU32, bind_assoc, accepts_getBytes_bind, pure_bind]

theorem accepts_getU64_bind {f : UInt64 → Get α} {bs : List UInt8} :
    Accepts (getU64 >>= f) bs ↔
      8 ≤ bs.length ∧ Accepts (f (UInt64.ofNat (leNat (bs.take 8)))) (bs.drop 8) := by
  rw [getU64, bind_assoc, accepts_getBytes_bind, pure_bind]

theorem accepts_boolOfByte_bind {f : Bool → Get α} {byte : UInt8} {bs : List UInt8} :
    Accepts (boolOfByte byte >>= f) bs ↔
      byte = 0 ∧ Accepts (f false) bs ∨ byte = 1 ∧ Accepts (f true) bs := by
  unfold boolOfByte
  split_ifs with h0 h1
  · simp [h0, pure_bind]
  · simp [h1, pure_bind]
  · simp only [h0, h1, false_and, or_false, iff_false]
    exact not_accepts_throw (.invalidBool byte) bs

/-- Acceptance of a string depends on its bytes being UTF-8. -/
theorem accepts_stringOfBytes_bind_pure {f : String → α} {s bs : List UInt8} :
    Accepts (stringOfBytes s >>= fun m => pure (f m)) bs ↔
      ByteArray.IsValidUTF8 ⟨s.toArray⟩ := by
  unfold stringOfBytes String.fromUTF8?
  split_ifs with hv
  · simp only [hv, iff_true, pure_bind]
    exact accepts_pure _ bs
  · simp only [hv, iff_false]
    exact not_accepts_throw .invalidUtf8 bs

/-- With `k` bytes taken before, the reader takes as many as the size of its value leaves. -/
def Sized (g : Get α) (size : α → ℕ) (k : ℕ) : Prop :=
  ∀ bs a rest, g bs = .ok (a, rest) → k + bs.length = size a + rest.length

theorem bind_eq_ok {g : Get α} {f : α → Get β} {bs : List UInt8} {r : β × List UInt8}
    (h : (g >>= f) bs = .ok r) : ∃ a rest, g bs = .ok (a, rest) ∧ f a rest = .ok r := by
  cases hg : g bs with
  | error e =>
    rw [bind_error hg] at h
    cases h
  | ok found =>
    rw [bind_ok hg] at h
    exact ⟨found.1, found.2, rfl, h⟩

theorem Sized.bind {g : Get α} {f : α → Get β} {size : α → ℕ} {size' : β → ℕ} {k : ℕ} (hg : Sized g size 0)
    (hf : ∀ a, Sized (f a) size' (k + size a)) : Sized (g >>= f) size' k := by
  intro bs b rest h
  obtain ⟨a, mid, ha, hb⟩ := bind_eq_ok h
  have hfirst := hg bs a mid ha
  have hsecond := hf a mid b rest hb
  omega

theorem sized_pure {a : α} {size : α → ℕ} {k : ℕ} (h : k = size a) : Sized (pure a) size k := by
  intro bs b rest hb
  cases hb
  rw [h]

theorem sized_throw (e : DecodeError) (size : α → ℕ) (k : ℕ) : Sized (throw e) size k := by
  intro bs b rest hb
  cases hb

theorem getBytes_eq_ok {n : ℕ} {bs found rest : List UInt8} (h : getBytes n bs = .ok (found, rest)) :
    found.length = n ∧ bs.length = n + rest.length := by
  unfold getBytes at h
  split_ifs at h with hn
  cases h
  rw [List.length_take, List.length_drop, Nat.min_eq_left hn]
  omega

/-- An integer of `n` bytes. -/
theorem sized_fixed (n : ℕ) (f : List UInt8 → α) :
    Sized (getBytes n >>= fun bs => pure (f bs)) (fun _ => n) 0 := by
  intro bs a rest h
  obtain ⟨found, mid, hfound, ha⟩ := bind_eq_ok h
  cases ha
  rw [Nat.zero_add]
  exact (getBytes_eq_ok hfound).2

theorem sized_getU8 : Sized getU8 (fun _ => 1) 0 := sized_fixed 1 _
theorem sized_getU32 : Sized getU32 (fun _ => 4) 0 := sized_fixed 4 _
theorem sized_getU64 : Sized getU64 (fun _ => 8) 0 := sized_fixed 8 _

theorem sized_getBool : Sized getBool (fun _ => 1) 0 := by
  refine sized_getU8.bind fun byte => ?_
  unfold boolOfByte
  split_ifs
  · exact sized_pure rfl
  · exact sized_pure rfl
  · exact sized_throw _ _ _

theorem utf8_of_stringOfBytes {found bs rest : List UInt8} {s : String}
    (h : stringOfBytes found bs = .ok (s, rest)) : utf8 s = found ∧ bs = rest := by
  unfold stringOfBytes String.fromUTF8? at h
  split_ifs at h with hvalid
  · cases h
    exact ⟨rfl, rfl⟩
  · cases h

theorem sized_getString : Sized getString (fun s => (putString s).length) 0 := by
  intro bs s rest h
  obtain ⟨len, mid, hlen, h⟩ := bind_eq_ok h
  obtain ⟨found, last, hfound, hs⟩ := bind_eq_ok h
  obtain ⟨hutf8, rfl⟩ := utf8_of_stringOfBytes hs
  have hwidth : 0 + bs.length = 8 + mid.length := sized_getU64 bs len mid hlen
  obtain ⟨hcount, hmid⟩ := getBytes_eq_ok hfound
  simp only [putString, List.length_append, length_putU64, hutf8]
  omega

end Virthub.Lib.Bincode
