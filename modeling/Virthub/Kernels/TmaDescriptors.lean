import Virthub.Kernels.Addressing

/-! The tensor maps of a BT-KV block. An `int` is an integer here, as its overflow is undefined, and a
`size_t` or a pointer is a 64-bit word. Whether the driver accepts a tensor map is left to `encode`. -/
namespace Virthub.Kernels.Tma

inductive CudaError where
  | invalidValue
  | notSupported
  | unknown
  deriving DecidableEq, Repr

inductive TensorMapDataType where
  | uint8
  | float16
  | float32
  deriving DecidableEq, Repr

def TensorMapDataType.bytes : TensorMapDataType → UInt64
  | uint8 => 1
  | float16 => 2
  | float32 => 4

inductive TensorMapSwizzle where
  | none
  | swizzle32B
  | swizzle64B
  | swizzle128B
  deriving DecidableEq, Repr

/-- The arguments of `cuTensorMapEncodeTiled` that are not the same for all tensor maps here. -/
structure TensorMap where
  dataType : TensorMapDataType
  globalAddress : UInt64
  globalDim : List UInt64
  globalStrides : List UInt64
  boxDim : List UInt32
  elementStrides : List UInt32
  swizzle : TensorMapSwizzle
  deriving DecidableEq, Repr

/-- The element with the given coordinates, of which the first is the innermost one: its stride is the size
of an element. -/
def TensorMap.address (map : TensorMap) (coords : List UInt64) : UInt64 :=
  map.globalAddress +
    (List.zipWith (· * ·) coords (map.dataType.bytes :: map.globalStrides)).foldl (· + ·) 0

def kTileTokens : ℤ := 16
def kTileDims : ℤ := 64
def vTileDims : ℤ := 64
def vTileTokens : ℤ := 16

def elementType (elementSize : ℤ) : Option TensorMapDataType :=
  if elementSize = 1 then some .uint8
  else if elementSize = 2 then some .float16
  else if elementSize = 4 then some .float32
  else none

theorem bytes_of_elementType {elementSize : ℤ} {dataType : TensorMapDataType}
    (h : elementType elementSize = some dataType) : dataType.bytes = UInt64.ofInt elementSize := by
  unfold elementType at h
  split_ifs at h with h1 h2 h4
  all_goals
    subst_vars
    cases h
    rfl

/-- The tensor map of a tile. For a key the dimensions of the head are contiguous, and for a value the
tokens. -/
def tileMap (gmemBasePtr : UInt64) (isKey : Bool) (tileTokens tileDims : ℤ) (strideBytes : UInt64)
    (dataType : TensorMapDataType) (swizzleMode : TensorMapSwizzle) : TensorMap :=
  let inner : UInt64 := if isKey then UInt64.ofInt tileDims else UInt64.ofInt tileTokens
  let outer : UInt64 := if isKey then UInt64.ofInt tileTokens else UInt64.ofInt tileDims
  { dataType
    globalAddress := gmemBasePtr
    globalDim := [inner, outer, 1, 1, 1]
    globalStrides := [strideBytes, 0, 0, 0]
    boxDim := [inner.toUInt32, outer.toUInt32, 1, 1, 1]
    elementStrides := [1, 1, 1, 1, 1]
    swizzle := swizzleMode }

variable (encode : TensorMap → Bool)

/-- The number of heads, the head and the block are arguments in the source and not used. -/
def initBtkvTileTensorMap (gmemBasePtr : UInt64) (isKey : Bool) (tileTokens tileDims : ℤ)
    (strideBytes : UInt64)
    (elementSize : ℤ) (swizzleMode : TensorMapSwizzle) : Except CudaError TensorMap :=
  match elementType elementSize with
  | none => .error .invalidValue
  | some dataType =>
    let map := tileMap gmemBasePtr isKey tileTokens tileDims strideBytes dataType swizzleMode
    if encode map then .ok map else .error .unknown

/-- The tensor maps that are written, up to the first that cannot be made. -/
structure BlockMaps where
  result : Except CudaError Unit
  kMaps : List TensorMap
  vMaps : List TensorMap

def initHeads (kBasePtr vBasePtr : UInt64) (headDim blockTokens elementSize : ℤ)
    (swizzleMode : TensorMapSwizzle) :
    List ℕ → BlockMaps
  | [] => ⟨.ok (), [], []⟩
  | h :: heads =>
    let kStride := UInt64.ofInt headDim * UInt64.ofInt elementSize
    let vStride := UInt64.ofInt blockTokens * UInt64.ofInt elementSize
    let headOffset :=
      UInt64.ofNat h * UInt64.ofInt blockTokens * UInt64.ofInt headDim * UInt64.ofInt elementSize
    match initBtkvTileTensorMap encode (kBasePtr + headOffset) true kTileTokens kTileDims kStride elementSize
      swizzleMode with
    | .error e => ⟨.error e, [], []⟩
    | .ok k =>
      match initBtkvTileTensorMap encode (vBasePtr + headOffset) false vTileTokens vTileDims vStride
        elementSize swizzleMode with
      | .error e => ⟨.error e, [k], []⟩
      | .ok v =>
        let rest := initHeads kBasePtr vBasePtr headDim blockTokens elementSize swizzleMode heads
        ⟨rest.result, k :: rest.kMaps, v :: rest.vMaps⟩

/-- Only blocks with one tile for each head are supported. -/
def initBtkvBlockTensorMaps (kBasePtr vBasePtr : UInt64) (numHeads headDim blockTokens elementSize : ℤ)
    (swizzleMode : TensorMapSwizzle) : BlockMaps :=
  if headDim.tmod kTileDims ≠ 0 then ⟨.error .invalidValue, [], []⟩
  else if blockTokens.tmod kTileTokens ≠ 0 then ⟨.error .invalidValue, [], []⟩
  else if headDim.tdiv kTileDims * blockTokens.tdiv kTileTokens ≠ 1 then ⟨.error .notSupported, [], []⟩
  else
    initHeads encode kBasePtr vBasePtr headDim blockTokens elementSize swizzleMode (List.range numHeads.toNat)

variable {encode}

theorem exists_of_initTile_ok {base stride : UInt64} {isKey : Bool} {tileTokens tileDims elementSize : ℤ}
    {swizzleMode : TensorMapSwizzle} {map : TensorMap}
    (h : initBtkvTileTensorMap encode base isKey tileTokens tileDims stride elementSize swizzleMode =
      .ok map) :
    ∃ dataType, elementType elementSize = some dataType ∧
      map = tileMap base isKey tileTokens tileDims stride dataType swizzleMode := by
  unfold initBtkvTileTensorMap at h
  cases htype : elementType elementSize with
  | none =>
    rw [htype] at h
    cases h
  | some dataType =>
    rw [htype] at h
    dsimp only at h
    split_ifs at h
    exact ⟨dataType, rfl, (Except.ok.inj h).symm⟩

/-- The last three dimensions have one element each, and no stride. -/
theorem address_tileMap (base : UInt64) (isKey : Bool) (tileTokens tileDims : ℤ) (stride : UInt64)
    (dataType : TensorMapDataType) (swizzleMode : TensorMapSwizzle) (c r : UInt64) :
    (tileMap base isKey tileTokens tileDims stride dataType swizzleMode).address [c, r, 0, 0, 0] =
      base + (c * dataType.bytes + r * stride) := by
  simp [TensorMap.address, tileMap]

structure IsTile (map : TensorMap) (base : UInt64) (box : List UInt32) (elementSize stride : UInt64) :
    Prop where
  boxDim : map.boxDim = box
  address : ∀ c r, map.address [c, r, 0, 0, 0] = base + (c * elementSize + r * stride)

theorem isTile_of_ok {base stride : UInt64} {isKey : Bool} {tileTokens tileDims elementSize : ℤ}
    {swizzleMode : TensorMapSwizzle} {map : TensorMap} {box : List UInt32}
    (hbox : ∀ dataType,
      (tileMap base isKey tileTokens tileDims stride dataType swizzleMode).boxDim = box)
    (h : initBtkvTileTensorMap encode base isKey tileTokens tileDims stride elementSize swizzleMode =
      .ok map) :
    IsTile map base box (UInt64.ofInt elementSize) stride := by
  obtain ⟨dataType, htype, rfl⟩ := exists_of_initTile_ok h
  refine ⟨hbox dataType, ?_⟩
  intro c r
  rw [address_tileMap, bytes_of_elementType htype]

theorem tiles_of_initHeads {kBasePtr vBasePtr : UInt64} {headDim blockTokens elementSize : ℤ}
    {swizzleMode : TensorMapSwizzle} {heads : List ℕ} {i h : ℕ} (hi : heads[i]? = some h)
    (hok : (initHeads encode kBasePtr vBasePtr headDim blockTokens elementSize swizzleMode heads).result =
      .ok ()) :
    let maps := initHeads encode kBasePtr vBasePtr headDim blockTokens elementSize swizzleMode heads
    let size := UInt64.ofInt elementSize
    let offset := UInt64.ofNat h * UInt64.ofInt blockTokens * UInt64.ofInt headDim * size
    ∃ k v, maps.kMaps[i]? = some k ∧ maps.vMaps[i]? = some v ∧
      IsTile k (kBasePtr + offset) [64, 16, 1, 1, 1] size (UInt64.ofInt headDim * size) ∧
      IsTile v (vBasePtr + offset) [16, 64, 1, 1, 1] size (UInt64.ofInt blockTokens * size) := by
  induction heads generalizing i with
  | nil => cases hi
  | cons g heads ih =>
    rw [initHeads] at hok ⊢
    dsimp only at hok ⊢
    split at hok
    · cases hok
    · rename_i k hk
      split at hok
      · cases hok
      · rename_i v hv
        cases i with
        | zero =>
          obtain rfl : g = h := Option.some.inj hi
          exact ⟨k, v, rfl, rfl, isTile_of_ok (fun _ => rfl) hk, isTile_of_ok (fun _ => rfl) hv⟩
        | succ i => exact ih hi hok

/-- For positive dimensions there is one tile only in a head of 64 dimensions and 16 tokens. -/
theorem one_tile_iff {headDim blockTokens : ℤ} (hdim : 0 < headDim) :
    (headDim.tmod kTileDims = 0 ∧ blockTokens.tmod kTileTokens = 0 ∧
      headDim.tdiv kTileDims * blockTokens.tdiv kTileTokens = 1) ↔ headDim = 64 ∧ blockTokens = 16 := by
  constructor
  · intro ⟨hmodDim, hmodTokens, htiles⟩
    have hdims := Int.mul_tdiv_add_tmod headDim kTileDims
    have htokens := Int.mul_tdiv_add_tmod blockTokens kTileTokens
    rw [hmodDim, add_zero] at hdims
    rw [hmodTokens, add_zero] at htokens
    unfold kTileDims at hdims
    unfold kTileTokens at htokens
    rcases Int.eq_one_or_neg_one_of_mul_eq_one htiles with hone | hone
    · rw [hone, one_mul] at htiles
      unfold kTileDims at hone
      unfold kTileTokens at htiles
      omega
    · unfold kTileDims at hone
      omega
  · rintro ⟨rfl, rfl⟩
    decide

theorem block_of_ok {kBasePtr vBasePtr : UInt64} {numHeads headDim blockTokens elementSize : ℤ}
    {swizzleMode : TensorMapSwizzle} (hdim : 0 < headDim)
    (hok : (initBtkvBlockTensorMaps encode kBasePtr vBasePtr numHeads headDim blockTokens elementSize
      swizzleMode).result = .ok ()) :
    headDim = 64 ∧ blockTokens = 16 ∧
      initBtkvBlockTensorMaps encode kBasePtr vBasePtr numHeads headDim blockTokens elementSize swizzleMode =
        initHeads encode kBasePtr vBasePtr headDim blockTokens elementSize swizzleMode
          (List.range numHeads.toNat) := by
  unfold initBtkvBlockTensorMaps at hok ⊢
  split_ifs at hok ⊢ with hmodDim hmodTokens htiles
  obtain ⟨h64, h16⟩ := (one_tile_iff hdim).mp ⟨not_not.mp hmodDim, not_not.mp hmodTokens, not_not.mp htiles⟩
  exact ⟨h64, h16, rfl⟩

/-- The tile of a head in a layout that puts the coordinates `c` and `r` of an element at `c + stride * r`
behind the start of the head. -/
theorem address_of_isTile {layout : ℕ → ℕ → ℕ → ℕ → ℕ} {numKvHeads p h t d c r : ℕ} {cache : UInt64}
    {box : List UInt32} {map : TensorMap} (stride : ℕ) (hstart : ∀ row, layout 64 row 0 0 = row * 1024)
    (hplace : ∀ row, layout 64 row t d = row * 1024 + (c + stride * r))
    (htile : IsTile map (cache + UInt64.ofNat (CacheIndex.offset layout numKvHeads 64 ⟨p, 0, 0, 0⟩) +
      UInt64.ofNat h * 16 * 64 * 1) box 1 (UInt64.ofNat stride * 1)) :
    map.address [UInt64.ofNat c, UInt64.ofNat r, 0, 0, 0] =
      cache + UInt64.ofNat (CacheIndex.offset layout numKvHeads 64 ⟨p, h, t, d⟩) := by
  rw [htile.address, CacheIndex.offset, CacheIndex.offset, hstart, hplace]
  simp only [UInt64.ofNat_add, UInt64.ofNat_mul]
  grind

end Virthub.Kernels.Tma
