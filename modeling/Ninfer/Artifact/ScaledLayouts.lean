import Ninfer.Artifact.TensorWords

/-!
# The block-scaled and the row-scaled layout

The encoders of `tools/artifact/layouts.py` for `NVFP4` and for row-scaled `FP8`, and the order of
the `NVFP4` scales in memory. What an encoder takes comes back from its decoder word for word, and
what a decoder takes apart is put together again, except for bytes between the planes. The scales
of a tile of 128 rows and 4 groups are stored by row within 32, then by the quarter of the tile
the row is in, then by group.

## Main definitions

* `encodeFp8RowScaled`, `decodeFp8RowScaledWords`: codes and one scale for each row
* `swizzleNvfp4Scales`, `unswizzleNvfp4Scales`: the order of the scales
* `encodeNvfp4`, `decodeNvfp4Words`: codes, scales of 16 columns each, and the divisor

## Main results

* `swizzleNvfp4Scales_eq_ok_iff`: the two orders of the scales are inverse to each other
* `elem_swizzleNvfp4Scales`: where the scale of a row and a group is
* `scaledPayloads_roundTrip`: both layouts lose nothing
-/

namespace Ninfer.Artifact.Tools

/-- The geometry of a row-scaled `FP8` tensor. -/
def fp8RowGeometry (shape : List Int) : Except CodecException RowScaleGeometry :=
  lifted do
    let format ← getFormat "FP8_E4M3FN_ROW_BF16S"
    rowScaleGeometry format shape

/-- The geometry of an `NVFP4` tensor. -/
def nvfp4Geometry (shape : List Int) : Except CodecException BlockScaleGeometry :=
  lifted do
    let format ← getFormat "NVFP4"
    blockScaleGeometry format shape

/-- `_exact_uint8_matrix`. -/
def exactUint8Matrix (tensor : Tensor UInt8) (n k : Nat) (label : String) :
    Except CodecException (Tensor UInt8) := do
  ensure (tensor.shape = [n, k])
    (.typeError (label ++ " must be uint8 with shape (" ++ toString n ++ ", " ++ toString k ++ ")"))
  return tensor

/-- `_exact_bf16_vector`. -/
def exactBf16Vector (tensor : Tensor (BitVec (8 * 2))) (length : Nat) (label : String) :
    Except CodecException (Tensor (BitVec (8 * 2))) := do
  ensure (tensor.shape = [length])
    (.typeError (label ++ " must be BF16 with shape (" ++ toString length ++ ",)"))
  return tensor

/-- `_validate_fp8_row_words`. The codes of a row are those of its scale. -/
def validateFp8RowWords (codes : Tensor UInt8) (scales : Tensor (BitVec (8 * 2))) :
    Except CodecException Unit := do
  ensure (∀ code ∈ codes.data, code &&& 0x7F ≠ 0x7F)
    (.valueError "row-scaled FP8 codes must be finite E4M3FN words")
  ensure (∀ scale ∈ scales.data, scale &&& 0x8000 = 0 ∧ scale &&& 0x7F80 ≠ 0x7F80)
    (.valueError "row-scaled FP8 scales must be nonnegative finite BF16 words")
  let rows := chunks (codes.shape.getD 1 0) codes.data
  ensure (∀ row ∈ scales.data.zip rows, row.1 = 0 → ∀ code ∈ row.2, code &&& 0x7F = 0)
    (.valueError "a zero row scale requires only signed-zero FP8 codes")

/-- `encode_fp8_row_scaled`. -/
def encodeFp8RowScaled (codeWords : Tensor UInt8) (rowScales : Tensor (BitVec (8 * 2)))
    (shape : List Int) : Except CodecException (List UInt8) := do
  let geometry ← fp8RowGeometry shape
  let codes ← exactUint8Matrix codeWords geometry.n geometry.k "row-scaled FP8 codes"
  let scales ← exactBf16Vector rowScales geometry.n "row-scaled FP8 scales"
  validateFp8RowWords codes scales
  let payload := List.replicate geometry.payloadBytes 0
  let payload := setSlice payload 0 geometry.codePlaneBytes codes.data
  let scaleBegin := geometry.scalePlaneOffset
  let scaleBytes ← encodeDirect 2 scales
  return setSlice payload scaleBegin (scaleBegin + geometry.scalePlaneBytes) scaleBytes

/-- `decode_fp8_row_scaled_words`. -/
def decodeFp8RowScaledWords (payload : Payload) (shape : List Int) :
    Except CodecException (Tensor UInt8 × Tensor (BitVec (8 * 2))) := do
  let geometry ← fp8RowGeometry shape
  let length ← payloadLength payload
  ensure (length = geometry.payloadBytes)
    (.valueError ("row-scaled FP8 payload has " ++ toString length ++ " bytes, expected " ++
      toString geometry.payloadBytes))
  let raw := payload.data
  let codes ← reshapeTo [geometry.n, geometry.k]
    (Tensor.ofList (slice raw 0 geometry.codePlaneBytes))
  let scaleBegin := geometry.scalePlaneOffset
  let scaleBytes := slice raw scaleBegin (scaleBegin + geometry.scalePlaneBytes)
  let scales ← decodeDirect 2 (.tensor (Tensor.ofList scaleBytes)) [(geometry.n : Int)]
  validateFp8RowWords codes scales
  return (codes, scales)

/-- The axes of `permute(0, 3, 2, 1, 4)`. -/
def tileAxes : List Nat := [0, 3, 2, 1, 4]

/-- `swizzle_nvfp4_scales`. -/
def swizzleNvfp4Scales (naturalScales : Tensor UInt8) (shape : List Int) :
    Except CodecException (Tensor UInt8) := do
  let geometry ← nvfp4Geometry shape
  let source ← exactUint8Matrix naturalScales geometry.n geometry.groupsPerRow "NVFP4 scales"
  let tiles ← reshapeTo [geometry.n / 128, 4, 32, geometry.kTiles, 4] source
  return (tiles.permute tileAxes).flat

/-- `unswizzle_nvfp4_scales`. -/
def unswizzleNvfp4Scales (storedScales : Tensor UInt8) (shape : List Int) :
    Except CodecException (Tensor UInt8) := do
  let geometry ← nvfp4Geometry shape
  ensure (storedScales.shape.length = 1 ∧ storedScales.data.length = geometry.scalePlaneBytes)
    (.typeError ("stored NVFP4 scales must be one-dimensional uint8 with " ++
      toString geometry.scalePlaneBytes ++ " elements"))
  let tiles ← reshapeTo [geometry.n / 128, geometry.kTiles, 32, 4, 4] storedScales
  reshapeTo [geometry.n, geometry.groupsPerRow] (tiles.permute tileAxes)

/-- The weight divisor as a caller has it. -/
inductive DivisorSource
  | tensor (value : Tensor (BitVec (8 * 4)))
  | bytes (value : List UInt8)

/-- The FP32 word of a divisor. -/
def DivisorSource.Holds : DivisorSource → BitVec (8 * 4) → Prop
  | tensor value, word => value.data = [word]
  | bytes value, word => value = leBytes 4 word.toNat

/-- `valid_positive_fp32_word`: no sign, not the exponent of infinities and NaNs, not zero. -/
def validPositiveFp32Word (word : Nat) : Bool :=
  let sign := word / 2 ^ 31
  let exponent := word / 2 ^ 23 % 2 ^ 8
  let fraction := word % 2 ^ 23
  sign == 0 && exponent != 255 && (exponent != 0 || fraction != 0)

/-- `struct.unpack("<I", ...)`. -/
def unpackUint32 (raw : List UInt8) : Except CodecException Nat := do
  ensure (raw.length = 4) (.raised .structError)
  return leWord raw

/-- The bytes of a divisor, within `_positive_fp32_word`. -/
def divisorBytes : DivisorSource → Except CodecException (List UInt8)
  | .tensor value => do
    ensure (value.data.length = 1) (.typeError "NVFP4 weight divisor must be one FP32 word")
    let word ← reshapeTo [] value
    encodeDirect 4 word
  | .bytes raw => do
    ensure (raw.length = 4) (.typeError "NVFP4 weight divisor must contain exactly four bytes")
    return raw

/-- `_positive_fp32_word`. -/
def positiveFp32Word (value : DivisorSource) : Except CodecException (List UInt8) := do
  let raw ← divisorBytes value
  let word ← unpackUint32 raw
  ensure (validPositiveFp32Word word)
    (.valueError "NVFP4 weight divisor must be finite and positive")
  return raw

/-- A negative scale, or a NaN. -/
def invalidNvfp4Scale (scale : UInt8) : Bool := scale &&& 0x80 != 0 || scale == 0x7F

/-- `encode_nvfp4`. -/
def encodeNvfp4 (packedCodes naturalScales : Tensor UInt8) (weightDivisor : DivisorSource)
    (shape : List Int) : Except CodecException (List UInt8) := do
  let geometry ← nvfp4Geometry shape
  let codes ← exactUint8Matrix packedCodes geometry.n (geometry.k / 2) "NVFP4 packed codes"
  let scales ← exactUint8Matrix naturalScales geometry.n geometry.groupsPerRow "NVFP4 scales"
  ensure (scales.data.any invalidNvfp4Scale = false)
    (.valueError "NVFP4 scales must be nonnegative finite E4M3FN words")
  let divisor ← positiveFp32Word weightDivisor
  let swizzled ← swizzleNvfp4Scales scales shape
  let payload := List.replicate geometry.payloadBytes 0
  let payload := setSlice payload 0 geometry.codePlaneBytes codes.data
  let payload := setSlice payload geometry.scalePlaneOffset
    (geometry.scalePlaneOffset + geometry.scalePlaneBytes) swizzled.data
  return setSlice payload geometry.weightDivisorOffset payload.length divisor

/-- `decode_nvfp4_words`. -/
def decodeNvfp4Words (payload : Payload) (shape : List Int) :
    Except CodecException (Tensor UInt8 × Tensor UInt8 × Tensor (BitVec (8 * 4))) := do
  let geometry ← nvfp4Geometry shape
  let length ← payloadLength payload
  ensure (length = geometry.payloadBytes)
    (.valueError ("NVFP4 payload has " ++ toString length ++ " bytes, expected " ++
      toString geometry.payloadBytes))
  let raw := payload.data
  let codes ← reshapeTo [geometry.n, geometry.k / 2]
    (Tensor.ofList (slice raw 0 geometry.codePlaneBytes))
  let storedScales := slice raw geometry.scalePlaneOffset
    (geometry.scalePlaneOffset + geometry.scalePlaneBytes)
  let scales ← unswizzleNvfp4Scales (Tensor.ofList storedScales) shape
  ensure (scales.data.any invalidNvfp4Scale = false)
    (.valueError "NVFP4 scales must be nonnegative finite E4M3FN words")
  let divisorRaw := slice raw geometry.weightDivisorOffset raw.length
  let divisorWord ← unpackUint32 divisorRaw
  ensure (validPositiveFp32Word divisorWord)
    (.valueError "NVFP4 weight divisor must be finite and positive")
  let divisor ← reshapeTo [] (Tensor.ofList (leWords 4 divisorRaw))
  return (codes, scales, divisor)

section Geometry

variable {shape : List Int}

/-- The planes of an `NVFP4` tensor of `a` by `b` tiles, of 128 rows and 64 columns each. -/
def nvfp4Planes (a b : Nat) : BlockScaleGeometry where
  n := 128 * a
  k := 64 * b
  groupsPerRow := 4 * b
  kTiles := b
  codePlaneBytes := 4096 * (a * b)
  scalePlaneOffset := 4096 * (a * b)
  scalePlaneBytes := 512 * (a * b)
  weightDivisorOffset := 4608 * (a * b)
  payloadBytes := 4608 * (a * b) + 4

/-- The planes of a row-scaled tensor. -/
def fp8RowPlanes (n k : Nat) : RowScaleGeometry where
  n := n
  k := k
  codePlaneBytes := n * k
  scalePlaneOffset := alignUp (n * k) planeAlignment
  scalePlaneBytes := n * 2
  payloadBytes := alignUp (n * k) planeAlignment + n * 2

/-- A tensor with an `NVFP4` geometry is made of whole tiles, and its planes leave no gap. -/
theorem nvfp4Geometry_eq_ok {geometry : BlockScaleGeometry}
    (h : nvfp4Geometry shape = .ok geometry) :
    ∃ a b, 0 < a ∧ 0 < b ∧ geometry = nvfp4Planes a b := by
  have hformat : getFormat "NVFP4" = .ok (.nvfp4 "NVFP4" 16) := by decide
  unfold nvfp4Geometry at h
  rw [lifted_eq_ok, hformat, ok_bind] at h
  simp only [blockScaleGeometry] at h
  rw [bind_eq_ok] at h
  obtain ⟨dims, hdims, h⟩ := h
  rw [ensure_bind_eq_ok] at h
  obtain ⟨⟨hn, hk⟩, h⟩ := h
  obtain ⟨hpos, hrank, rfl⟩ := shape_checked_iff.mp hdims
  -- a shape of two positive dimensions, the first a multiple of 128 and the second of 64
  obtain ⟨n, k, rfl⟩ := List.length_eq_two.mp (hrank 2 rfl)
  have hn₀ := hpos n (by simp)
  have hk₀ := hpos k (by simp)
  simp only [List.map_cons, List.map_nil, List.getD_cons_zero, List.getD_cons_succ] at hn hk h
  obtain ⟨a, ha⟩ := Nat.dvd_of_mod_eq_zero hn
  obtain ⟨b, hb⟩ := Nat.dvd_of_mod_eq_zero hk
  have hproduct : 128 * a * (64 * b) = 8192 * (a * b) := by ring
  have hcodes : 128 * a * (64 * b) / 2 = 4096 * (a * b) := by omega
  have hscales : 128 * a * (64 * b) / 16 = 512 * (a * b) := by omega
  have haligned : alignUp (4096 * (a * b)) planeAlignment = 4096 * (a * b) := by
    refine roundUp_of_dvd (by decide) ?_
    exact Dvd.dvd.mul_right (by decide) _
  have hgroups : 64 * b / 16 = 4 * b := by omega
  have htiles : 64 * b / 64 = b := by omega
  rw [ha, hb, hcodes, hscales, haligned, hgroups, htiles] at h
  cases h
  refine ⟨a, b, by omega, by omega, ?_⟩
  simp only [nvfp4Planes, BlockScaleGeometry.mk.injEq, true_and]
  omega

theorem fp8RowGeometry_eq_ok {geometry : RowScaleGeometry}
    (h : fp8RowGeometry shape = .ok geometry) :
    ∃ n k, 0 < n ∧ 0 < k ∧ geometry = fp8RowPlanes n k := by
  have hformat : getFormat "FP8_E4M3FN_ROW_BF16S" = .ok (.fp8Row "FP8_E4M3FN_ROW_BF16S") := by
    decide
  unfold fp8RowGeometry at h
  rw [lifted_eq_ok, hformat, ok_bind] at h
  simp only [rowScaleGeometry] at h
  rw [bind_eq_ok] at h
  obtain ⟨dims, hdims, h⟩ := h
  obtain ⟨hpos, hrank, rfl⟩ := shape_checked_iff.mp hdims
  obtain ⟨n, k, rfl⟩ := List.length_eq_two.mp (hrank 2 rfl)
  have hn := hpos n (by simp)
  have hk := hpos k (by simp)
  cases h
  exact ⟨n.toNat, k.toNat, by omega, by omega, rfl⟩

end Geometry

section Matrices

variable {tensor u : Tensor UInt8} {n k : Nat} {label : String}

theorem exactUint8Matrix_eq_ok :
    exactUint8Matrix tensor n k label = .ok u ↔ tensor.shape = [n, k] ∧ u = tensor := by
  unfold exactUint8Matrix
  rw [ensure_bind_eq_ok]
  constructor
  · rintro ⟨hshape, h⟩
    cases h
    exact ⟨hshape, rfl⟩
  · rintro ⟨hshape, rfl⟩
    exact ⟨hshape, rfl⟩

theorem exactBf16Vector_eq_ok {scales u : Tensor (BitVec (8 * 2))} :
    exactBf16Vector scales n label = .ok u ↔ scales.shape = [n] ∧ u = scales := by
  unfold exactBf16Vector
  rw [ensure_bind_eq_ok]
  constructor
  · rintro ⟨hshape, h⟩
    cases h
    exact ⟨hshape, rfl⟩
  · rintro ⟨hshape, rfl⟩
    exact ⟨hshape, rfl⟩

theorem length_data_of_shape (h : tensor.shape = [n, k]) : tensor.data.length = n * k := by
  rw [tensor.length_data, h]
  simp

end Matrices

/-! ## The order of the scales -/

section Swizzle

variable {shape : List Int} {a b : Nat} {natural stored : Tensor UInt8}

theorem tileAxes_involutive (l : List Nat) (h : l.length = 5) :
    selectAxes tileAxes (selectAxes tileAxes l) = l := by
  rcases l with _ | ⟨i₀, _ | ⟨i₁, _ | ⟨i₂, _ | ⟨i₃, _ | ⟨i₄, _ | ⟨i₅, l⟩⟩⟩⟩⟩⟩
  all_goals simp at h
  rfl

theorem tileAxes_perm {l : List Nat} (h : l.length = 5) :
    tileAxes.Perm (List.range l.length) := by
  rw [h]
  decide

/-- Permuting the axes twice gives the tensor back. -/
theorem permute_tileAxes_twice {tiles : Tensor UInt8} (h : tiles.shape.length = 5) :
    (tiles.permute tileAxes).permute tileAxes = tiles :=
  Tensor.permute_permute (tileAxes_perm h) (tileAxes_perm h)
    fun l hl => tileAxes_involutive l (hl.trans h)

theorem swizzle_eq_ok (hgeometry : nvfp4Geometry shape = .ok (nvfp4Planes a b)) :
    swizzleNvfp4Scales natural shape = .ok stored ↔ natural.shape = [128 * a, 4 * b] ∧
      ∃ tiles : Tensor UInt8, tiles.shape = [a, 4, 32, b, 4] ∧ tiles.data = natural.data ∧
        stored = (tiles.permute tileAxes).flat := by
  have hrows : 128 * a / 128 = a := Nat.mul_div_cancel_left a (by decide)
  unfold swizzleNvfp4Scales
  rw [hgeometry, ok_bind, bind_eq_ok]
  simp only [nvfp4Planes, hrows]
  constructor
  · rintro ⟨source, hsource, h⟩
    obtain ⟨hshape, rfl⟩ := exactUint8Matrix_eq_ok.mp hsource
    obtain ⟨tiles, htiles, h⟩ := bind_eq_ok.mp h
    cases h
    exact ⟨hshape, tiles, (reshapeTo_eq_ok.mp htiles).1, (reshapeTo_eq_ok.mp htiles).2, rfl⟩
  · rintro ⟨hshape, tiles, htiles, hdata, rfl⟩
    exact ⟨natural, exactUint8Matrix_eq_ok.mpr ⟨hshape, rfl⟩,
      bind_eq_ok.mpr ⟨tiles, reshapeTo_eq_ok.mpr ⟨htiles, hdata⟩, rfl⟩⟩

theorem unswizzle_eq_ok (hgeometry : nvfp4Geometry shape = .ok (nvfp4Planes a b)) :
    unswizzleNvfp4Scales stored shape = .ok natural ↔ stored.shape = [512 * (a * b)] ∧
      ∃ tiles : Tensor UInt8, tiles.shape = [a, b, 32, 4, 4] ∧ tiles.data = stored.data ∧
        natural.shape = [128 * a, 4 * b] ∧ natural.data = (tiles.permute tileAxes).data := by
  have hrows : 128 * a / 128 = a := Nat.mul_div_cancel_left a (by decide)
  have hvector : stored.shape.length = 1 ∧ stored.data.length = 512 * (a * b) ↔
      stored.shape = [512 * (a * b)] := by
    rw [stored.length_data]
    constructor
    · rintro ⟨hlength, hcount⟩
      obtain ⟨count, hshape⟩ := List.length_eq_one_iff.mp hlength
      rw [hshape, List.prod_singleton] at hcount
      rw [hshape, hcount]
    · intro hshape
      simp [hshape]
  unfold unswizzleNvfp4Scales
  rw [hgeometry, ok_bind, ensure_bind_eq_ok, bind_eq_ok]
  simp only [nvfp4Planes, hrows, hvector, reshapeTo_eq_ok]
  constructor
  · rintro ⟨hshape, tiles, ⟨htiles, hdata⟩, h⟩
    exact ⟨hshape, tiles, htiles, hdata, h⟩
  · rintro ⟨hshape, tiles, htiles, hdata, h⟩
    exact ⟨hshape, tiles, ⟨htiles, hdata⟩, h⟩

/-- **The two orders of the scales are inverse to each other.** -/
theorem swizzleNvfp4Scales_eq_ok_iff :
    swizzleNvfp4Scales natural shape = .ok stored ↔
      unswizzleNvfp4Scales stored shape = .ok natural := by
  cases hshape : nvfp4Geometry shape with
  | error e =>
    -- neither accepts the shape
    unfold swizzleNvfp4Scales unswizzleNvfp4Scales
    rw [hshape]
    constructor
    · rintro ⟨⟩
    · rintro ⟨⟩
  | ok geometry =>
    obtain ⟨a, b, -, -, rfl⟩ := nvfp4Geometry_eq_ok hshape
    rw [swizzle_eq_ok hshape, unswizzle_eq_ok hshape]
    constructor
    · rintro ⟨hnatural, tiles, htiles, hdata, rfl⟩
      have hpermuted : (tiles.permute tileAxes).shape = [a, b, 32, 4, 4] := by
        rw [Tensor.shape_permute, htiles]
        rfl
      have hback := permute_tileAxes_twice (show tiles.shape.length = 5 by rw [htiles]; rfl)
      refine ⟨?_, tiles.permute tileAxes, hpermuted, rfl, hnatural, ?_⟩
      · rw [Tensor.shape_flat, (tiles.permute tileAxes).length_data, hpermuted]
        simp only [List.prod_cons, List.prod_nil]
        congr 1
        ring
      · rw [hback, hdata]
    · rintro ⟨hstored, tiles, htiles, hdata, hnatural, hvalues⟩
      have hpermuted : (tiles.permute tileAxes).shape = [a, 4, 32, b, 4] := by
        rw [Tensor.shape_permute, htiles]
        rfl
      have hback := permute_tileAxes_twice (show tiles.shape.length = 5 by rw [htiles]; rfl)
      refine ⟨hnatural, tiles.permute tileAxes, hpermuted, hvalues.symm, ?_⟩
      rw [hback]
      refine Tensor.ext ?_ hdata.symm
      rw [Tensor.shape_flat, hdata, stored.length_data, hstored, List.prod_singleton]

/-- Every matrix of scales has a stored order. -/
theorem exists_swizzleNvfp4Scales (hgeometry : nvfp4Geometry shape = .ok (nvfp4Planes a b))
    (h : natural.shape = [128 * a, 4 * b]) :
    ∃ stored, swizzleNvfp4Scales natural shape = .ok stored := by
  have hcount : natural.data.length = [a, 4, 32, b, 4].prod := by
    rw [length_data_of_shape h]
    simp only [List.prod_cons, List.prod_nil]
    ring
  exact ⟨_, (swizzle_eq_ok hgeometry).mpr
    ⟨h, ⟨[a, 4, 32, b, 4], natural.data, hcount⟩, rfl, rfl, rfl⟩⟩

/-- Every plane of stored scales has a natural order. -/
theorem exists_unswizzleNvfp4Scales (hgeometry : nvfp4Geometry shape = .ok (nvfp4Planes a b))
    (h : stored.shape = [512 * (a * b)]) :
    ∃ natural, unswizzleNvfp4Scales stored shape = .ok natural := by
  have hcount : stored.data.length = [a, b, 32, 4, 4].prod := by
    rw [stored.length_data, h]
    simp only [List.prod_cons, List.prod_nil]
    ring
  let tiles : Tensor UInt8 := ⟨[a, b, 32, 4, 4], stored.data, hcount⟩
  have hnatural : (tiles.permute tileAxes).data.length = [128 * a, 4 * b].prod := by
    rw [(tiles.permute tileAxes).length_data, Tensor.shape_permute]
    have hshape : selectAxes tileAxes tiles.shape = [a, 4, 32, b, 4] := rfl
    rw [hshape]
    simp only [List.prod_cons, List.prod_nil]
    ring
  exact ⟨⟨_, _, hnatural⟩, (unswizzle_eq_ok hgeometry).mpr
    ⟨h, tiles, rfl, rfl, rfl, rfl⟩⟩

/-- **The scale of a row and a group is stored by tile, then by row within 32, then by the quarter
of the tile the row is in, then by group.** -/
theorem elem_swizzleNvfp4Scales {geometry : BlockScaleGeometry} {r g : Nat}
    (hgeometry : nvfp4Geometry shape = .ok geometry)
    (h : swizzleNvfp4Scales natural shape = .ok stored)
    (hr : r < geometry.n) (hg : g < geometry.groupsPerRow) :
    stored.data[(r / 128 * geometry.kTiles + g / 4) * 512 + r % 32 * 16 + r % 128 / 32 * 4 +
      g % 4]? = natural.elem [r, g] := by
  obtain ⟨a, b, -, -, rfl⟩ := nvfp4Geometry_eq_ok hgeometry
  obtain ⟨hnatural, tiles, htiles, hdata, rfl⟩ := (swizzle_eq_ok hgeometry).mp h
  simp only [nvfp4Planes] at hr hg ⊢
  -- the five coordinates of the scale
  let index := [r / 128, r % 128 / 32, r % 32, g / 4, g % 4]
  have hbounds : InBounds index tiles.shape := by
    rw [htiles]
    refine .cons ?_ (.cons ?_ (.cons ?_ (.cons ?_ (.cons ?_ .nil)))) <;> omega
  have haxes : tileAxes.Perm (List.range tiles.shape.length) :=
    tileAxes_perm (by rw [htiles]; rfl)
  have helem := Tensor.elem_permute haxes hbounds
  have hpermuted : (tiles.permute tileAxes).shape = [a, b, 32, 4, 4] := by
    rw [Tensor.shape_permute, htiles]
    rfl
  have hindex : selectAxes tileAxes index = [r / 128, g / 4, r % 32, r % 128 / 32, g % 4] := rfl
  unfold Tensor.elem at helem ⊢
  rw [hpermuted, hindex, htiles, hdata] at helem
  rw [hnatural]
  simp only [positionAt, List.prod_cons, List.prod_nil, index] at helem ⊢
  have hstored : (r / 128 * b + g / 4) * 512 + r % 32 * 16 + r % 128 / 32 * 4 + g % 4 =
      r / 128 * (b * (32 * (4 * (4 * 1)))) + (g / 4 * (32 * (4 * (4 * 1))) +
        (r % 32 * (4 * (4 * 1)) + (r % 128 / 32 * (4 * 1) + (g % 4 * 1 + 0)))) := by
    ring
  have hrow : r / 128 * (4 * 32) + r % 128 / 32 * 32 + r % 32 = r := by omega
  have hflat : r * (4 * b * 1) + (g * 1 + 0) =
      r / 128 * (4 * (32 * (b * (4 * 1)))) + (r % 128 / 32 * (32 * (b * (4 * 1))) +
        (r % 32 * (b * (4 * 1)) + (g / 4 * (4 * 1) + (g % 4 * 1 + 0)))) := by
    have hgroup : g / 4 * 4 + g % 4 = g := by omega
    calc r * (4 * b * 1) + (g * 1 + 0)
        = (r / 128 * (4 * 32) + r % 128 / 32 * 32 + r % 32) * (4 * b) +
            (g / 4 * 4 + g % 4) := by rw [hrow, hgroup]; ring
      _ = _ := by ring
  rw [Tensor.data_flat, hstored, helem, hflat]

end Swizzle

/-! ## The planes of a payload -/

section Planes

variable {codes scales : List UInt8} {codeBytes offset size : Nat}

/-- Two planes in a zeroed buffer: the bytes between them stay zero. -/
theorem setSlice_planes (hcodes : codes.length = codeBytes) (hgap : codeBytes ≤ offset) :
    setSlice (setSlice (List.replicate (offset + size) 0) 0 codeBytes codes) offset
      (offset + size) scales = codes ++ (List.replicate (offset - codeBytes) 0 ++ scales) := by
  -- the buffer in three parts: for the codes, between the planes, for the scales
  have hzeros : List.replicate (offset + size) (0 : UInt8) =
      [] ++ (List.replicate codeBytes 0 ++
        (List.replicate (offset - codeBytes) 0 ++ List.replicate size 0)) := by
    rw [List.nil_append, List.replicate_append_replicate, List.replicate_append_replicate]
    congr 1
    omega
  have hbefore : (codes ++ List.replicate (offset - codeBytes) (0 : UInt8)).length = offset := by
    rw [List.length_append, List.length_replicate]
    omega
  rw [hzeros, setSlice_append List.length_nil (by rw [List.length_replicate, Nat.zero_add]),
    List.nil_append, ← List.append_assoc, ← List.append_nil (List.replicate size 0),
    setSlice_append hbefore (by rw [List.length_replicate]), List.append_nil, List.append_assoc]

/-- A buffer whose bytes between the planes are zero is its planes in a zeroed buffer. -/
theorem planes_of_zero_gap {raw : List UInt8} (hlength : raw.length = offset + size)
    (hgap : codeBytes ≤ offset)
    (hzero : ∀ i, codeBytes ≤ i → i < offset → raw[i]? = some 0) :
    slice raw 0 codeBytes ++
      (List.replicate (offset - codeBytes) 0 ++ slice raw offset (offset + size)) = raw := by
  have hbetween : List.replicate (offset - codeBytes) 0 = slice raw codeBytes offset := by
    apply List.ext_getElem?
    intro i
    rw [List.getElem?_replicate, getElem?_slice]
    by_cases hi : i < offset - codeBytes
    · rw [if_pos hi, if_pos hi, hzero _ (by omega) (by omega)]
    · rw [if_neg hi, if_neg hi]
  rw [hbetween, slice_append_slice raw hgap (Nat.le_add_right _ _),
    slice_append_slice raw (Nat.zero_le _) (by omega), ← hlength, slice_all]

end Planes

/-! ## Row-scaled `FP8` -/

section Fp8

variable {shape : List Int} {codes : Tensor UInt8} {scales : Tensor (BitVec (8 * 2))}
  {payload : Payload} {raw : List UInt8}

theorem encodeFp8RowScaled_eq_ok (h : encodeFp8RowScaled codes scales shape = .ok raw) :
    ∃ n k, 0 < n ∧ 0 < k ∧ fp8RowGeometry shape = .ok (fp8RowPlanes n k) ∧
      codes.shape = [n, k] ∧ scales.shape = [n] ∧ validateFp8RowWords codes scales = .ok () ∧
      raw = codes.data ++ (List.replicate (alignUp (n * k) planeAlignment - n * k) 0 ++
        scales.data.flatMap fun word => leBytes 2 word.toNat) := by
  unfold encodeFp8RowScaled at h
  simp only [bind_eq_ok, exactUint8Matrix_eq_ok, exactBf16Vector_eq_ok, encodeDirect_eq_ok] at h
  obtain ⟨geometry, hgeometry, codes', ⟨hcodesShape, rfl⟩, scales', ⟨hscalesShape, rfl⟩, ⟨⟩,
    hvalid, scaleBytes, ⟨-, rfl⟩, ⟨⟩⟩ := h
  obtain ⟨n, k, hn, hk, rfl⟩ := fp8RowGeometry_eq_ok hgeometry
  refine ⟨n, k, hn, hk, hgeometry, hcodesShape, hscalesShape, hvalid, ?_⟩
  exact setSlice_planes (length_data_of_shape hcodesShape) (le_roundUp _ (by decide))

theorem decodeFp8RowScaledWords_eq_ok {n k : Nat} (hn : 0 < n)
    (hgeometry : fp8RowGeometry shape = .ok (fp8RowPlanes n k)) :
    decodeFp8RowScaledWords payload shape = .ok (codes, scales) ↔
      payloadLength payload = .ok (alignUp (n * k) planeAlignment + n * 2) ∧
        codes.shape = [n, k] ∧ codes.data = slice payload.data 0 (n * k) ∧ scales.shape = [n] ∧
        scales.data = leWords 2 (slice payload.data (alignUp (n * k) planeAlignment)
          (alignUp (n * k) planeAlignment + n * 2)) ∧
        validateFp8RowWords codes scales = .ok () := by
  have hvector : checkedShape [(n : Int)] none = .ok [n] := by
    rw [shape_checked_iff]
    refine ⟨?_, ?_, rfl⟩
    · intro dim hdim
      rw [List.mem_singleton] at hdim
      omega
    · rintro r ⟨⟩
  unfold decodeFp8RowScaledWords
  rw [hgeometry, ok_bind, bind_eq_ok]
  constructor
  · rintro ⟨length, hlength, h⟩
    rw [ensure_bind_eq_ok] at h
    simp only [fp8RowPlanes, bind_eq_ok, reshapeTo_eq_ok, decodeDirect_eq_ok] at h
    obtain ⟨rfl, codes', ⟨hcodesShape, hcodesData⟩, scales',
      ⟨dims, hdims, -, -, hscalesShape, hscalesData⟩, ⟨⟩, hvalid, ⟨⟩⟩ := h
    rw [hvector] at hdims
    cases hdims
    exact ⟨hlength, hcodesShape, hcodesData, hscalesShape, hscalesData, hvalid⟩
  · rintro ⟨hlength, hcodesShape, hcodesData, hscalesShape, hscalesData, hvalid⟩
    refine ⟨_, hlength, ensure_bind_eq_ok.mpr ⟨rfl, ?_⟩⟩
    refine bind_eq_ok.mpr ⟨codes, reshapeTo_eq_ok.mpr ⟨hcodesShape, hcodesData⟩, ?_⟩
    refine bind_eq_ok.mpr ⟨scales, decodeDirect_eq_ok.mpr ⟨[n], hvector, ?_, ?_, hscalesShape,
      hscalesData⟩, ?_⟩
    · exact Nat.one_le_iff_ne_zero.mpr (by decide)
    · rw [payloadLength_ofList, length_slice, List.prod_singleton, Nat.add_sub_cancel_left]
      · rfl
      · exact Nat.le_of_eq (payloadLength_eq_ok hlength)
    · exact bind_eq_ok.mpr ⟨(), hvalid, rfl⟩

/-- Encoded row-scaled words are decoded. -/
theorem decode_encodeFp8RowScaled (h : encodeFp8RowScaled codes scales shape = .ok raw) :
    decodeFp8RowScaledWords (.bytes raw) shape = .ok (codes, scales) := by
  obtain ⟨n, k, hn, hk, hgeometry, hcodes, hscales, hvalid, rfl⟩ := encodeFp8RowScaled_eq_ok h
  have hcodesLength := length_data_of_shape hcodes
  have hgap : n * k ≤ alignUp (n * k) planeAlignment := le_roundUp _ (by decide)
  have hscalesLength : (scales.data.flatMap fun word => leBytes 2 word.toNat).length = n * 2 := by
    rw [length_wordBytes, scales.length_data, hscales, List.prod_singleton]
  have hfirst : (codes.data ++
      List.replicate (alignUp (n * k) planeAlignment - n * k) (0 : UInt8)).length =
        alignUp (n * k) planeAlignment := by
    rw [List.length_append, List.length_replicate]
    omega
  rw [decodeFp8RowScaledWords_eq_ok hn hgeometry]
  refine ⟨?_, hcodes, ?_, hscales, ?_, hvalid⟩
  · rw [payloadLength, ← List.append_assoc, List.length_append, hfirst, hscalesLength]
  · unfold slice Payload.data
    rw [List.drop_zero, Nat.sub_zero, List.take_left' hcodesLength]
  · unfold slice Payload.data
    rw [← List.append_assoc, List.drop_left' hfirst, Nat.add_sub_cancel_left,
      List.take_of_length_le (Nat.le_of_eq hscalesLength), leWords_leBytes (by decide)]

/-- A decoded payload without stray bytes is what its words are encoded to. -/
theorem encode_decodeFp8RowScaledWords {geometry : RowScaleGeometry}
    (hgeometry : fp8RowGeometry shape = .ok geometry)
    (hzero : ∀ i, geometry.codePlaneBytes ≤ i → i < geometry.scalePlaneOffset →
      payload.data[i]? = some 0)
    (h : decodeFp8RowScaledWords payload shape = .ok (codes, scales)) :
    encodeFp8RowScaled codes scales shape = .ok payload.data := by
  obtain ⟨n, k, hn, hk, rfl⟩ := fp8RowGeometry_eq_ok hgeometry
  obtain ⟨hlength, hcodesShape, hcodes, hscalesShape, hscales, hvalid⟩ :=
    (decodeFp8RowScaledWords_eq_ok hn hgeometry).mp h
  have hraw := (payloadLength_eq_ok hlength).symm
  have hgap : n * k ≤ alignUp (n * k) planeAlignment := le_roundUp _ (by decide)
  have hdims : scales.shape.length ≤ 16 ∧ ∀ dim ∈ scales.shape, 0 < dim := by
    rw [hscalesShape]
    refine ⟨by simp, fun dim hdim => ?_⟩
    rw [List.mem_singleton] at hdim
    omega
  -- the scale words were read from whole pairs of bytes
  have hscaleBytes : (scales.data.flatMap fun word => leBytes 2 word.toNat) =
      slice payload.data (alignUp (n * k) planeAlignment)
        (alignUp (n * k) planeAlignment + n * 2) := by
    rw [hscales, leBytes_leWords]
    rw [length_slice (Nat.le_of_eq hraw.symm), Nat.add_sub_cancel_left]
    exact Nat.dvd_mul_left 2 n
  unfold encodeFp8RowScaled
  rw [hgeometry, ok_bind]
  refine bind_eq_ok.mpr ⟨codes, exactUint8Matrix_eq_ok.mpr ⟨hcodesShape, rfl⟩, ?_⟩
  refine bind_eq_ok.mpr ⟨scales, exactBf16Vector_eq_ok.mpr ⟨hscalesShape, rfl⟩, ?_⟩
  refine bind_eq_ok.mpr ⟨(), hvalid, ?_⟩
  refine bind_eq_ok.mpr ⟨_, encodeDirect_eq_ok.mpr ⟨hdims, rfl⟩, ?_⟩
  simp only [fp8RowPlanes]
  rw [setSlice_planes (length_data_of_shape hcodesShape) hgap, hscaleBytes, hcodes,
    planes_of_zero_gap hraw hgap hzero]
  rfl

end Fp8

/-! ## `NVFP4` -/

section Nvfp4

variable {shape : List Int} {codes scales : Tensor UInt8} {divisor : Tensor (BitVec (8 * 4))}
  {source : DivisorSource} {word : BitVec (8 * 4)} {payload : Payload} {raw : List UInt8}

theorem unpackUint32_eq_ok {n : Nat} :
    unpackUint32 raw = .ok n ↔ raw.length = 4 ∧ n = leWord raw := by
  unfold unpackUint32
  rw [ensure_bind_eq_ok]
  constructor
  · rintro ⟨hlength, h⟩
    cases h
    exact ⟨hlength, rfl⟩
  · rintro ⟨hlength, rfl⟩
    exact ⟨hlength, rfl⟩

/-- Four bytes are the bytes of their word. -/
theorem exists_word_of_length (h : raw.length = 4) :
    ∃ word : BitVec (8 * 4), raw = leBytes 4 word.toNat ∧ leWord raw = word.toNat := by
  have hlt := leWord_lt raw
  rw [h] at hlt
  have hword : (BitVec.ofNat (8 * 4) (leWord raw)).toNat = leWord raw := by
    rw [BitVec.toNat_ofNat]
    exact Nat.mod_eq_of_lt hlt
  refine ⟨BitVec.ofNat (8 * 4) (leWord raw), ?_, hword.symm⟩
  rw [hword, ← h, leBytes_leWord]

/-- The bytes of a divisor are those of the word it holds. -/
theorem divisorBytes_eq_ok (h : divisorBytes source = .ok raw) :
    ∃ word, source.Holds word ∧ raw = leBytes 4 word.toNat := by
  cases source with
  | tensor value =>
    rw [divisorBytes, ensure_bind_eq_ok] at h
    simp only [bind_eq_ok, reshapeTo_eq_ok, encodeDirect_eq_ok] at h
    obtain ⟨hone, flat, ⟨-, hflat⟩, -, rfl⟩ := h
    obtain ⟨word, hword⟩ := List.length_eq_one_iff.mp hone
    exact ⟨word, hword, by rw [hflat, hword, List.flatMap_singleton]⟩
  | bytes value =>
    rw [divisorBytes, ensure_bind_eq_ok] at h
    obtain ⟨hlength, ⟨⟩⟩ := h
    obtain ⟨word, hword, -⟩ := exists_word_of_length hlength
    exact ⟨word, hword, hword⟩

/-- A scalar has the bytes of its word. -/
theorem divisorBytes_of_scalar (h : divisor.data = [word]) :
    divisorBytes (.tensor divisor) = .ok (leBytes 4 word.toNat) := by
  have hone : divisor.data.length = 1 := by rw [h]; rfl
  rw [divisorBytes, ensure_bind_eq_ok]
  simp only [bind_eq_ok, reshapeTo_eq_ok, encodeDirect_eq_ok]
  refine ⟨hone, Tensor.scalar word, ⟨rfl, h.symm⟩, ⟨by simp [Tensor.scalar], ?_⟩, ?_⟩
  · rintro dim ⟨⟩
  · simp [Tensor.scalar]

theorem positiveFp32Word_eq_ok : positiveFp32Word source = .ok raw ↔
    divisorBytes source = .ok raw ∧ raw.length = 4 ∧
      validPositiveFp32Word (leWord raw) = true := by
  unfold positiveFp32Word
  simp only [bind_eq_ok, exists_ensure, unpackUint32_eq_ok]
  constructor
  · rintro ⟨bytes, hbytes, n, ⟨hlength, rfl⟩, hvalid, ⟨⟩⟩
    exact ⟨hbytes, hlength, hvalid⟩
  · rintro ⟨hbytes, hlength, hvalid⟩
    exact ⟨raw, hbytes, _, ⟨hlength, rfl⟩, hvalid, rfl⟩

/-- The planes of `NVFP4` fill the buffer one after the other. -/
theorem setSlice_nvfp4Planes {stored divisor : List UInt8} {codes : List UInt8} {m : Nat}
    (hcodes : codes.length = 4096 * m) (hstored : stored.length = 512 * m) :
    setSlice (setSlice (setSlice (List.replicate (4608 * m + 4) 0) 0 (4096 * m) codes)
      (4096 * m) (4096 * m + 512 * m) stored) (4608 * m)
      (setSlice (setSlice (List.replicate (4608 * m + 4) 0) 0 (4096 * m) codes)
        (4096 * m) (4096 * m + 512 * m) stored).length divisor =
      codes ++ (stored ++ divisor) := by
  have hzeros : List.replicate (4608 * m + 4) (0 : UInt8) =
      [] ++ (List.replicate (4096 * m) 0 ++
        (List.replicate (512 * m) 0 ++ List.replicate 4 0)) := by
    rw [List.nil_append, List.replicate_append_replicate, List.replicate_append_replicate]
    congr 1
    omega
  have hbefore : (codes ++ stored).length = 4608 * m := by
    rw [List.length_append, hcodes, hstored]
    omega
  rw [hzeros, setSlice_append List.length_nil (by rw [List.length_replicate, Nat.zero_add]),
    List.nil_append, setSlice_append hcodes (by rw [List.length_replicate]), ← List.append_assoc,
    ← List.append_nil (List.replicate 4 0), setSlice_append hbefore]
  · rw [List.append_nil, List.append_assoc]
  · simp only [List.length_append, hcodes, hstored, List.length_replicate, List.length_nil]
    omega

theorem encodeNvfp4_eq_ok {a b : Nat} (hgeometry : nvfp4Geometry shape = .ok (nvfp4Planes a b)) :
    encodeNvfp4 codes scales source shape = .ok raw ↔ codes.shape = [128 * a, 32 * b] ∧
      scales.data.any invalidNvfp4Scale = false ∧ ∃ divisor stored,
        positiveFp32Word source = .ok divisor ∧ swizzleNvfp4Scales scales shape = .ok stored ∧
          raw = codes.data ++ (stored.data ++ divisor) := by
  have hcolumns : 64 * b / 2 = 32 * b := by omega
  -- once the pieces are there, the buffer is their concatenation
  have hplanes : ∀ {stored : Tensor UInt8}, codes.shape = [128 * a, 32 * b] →
      swizzleNvfp4Scales scales shape = .ok stored →
      codes.data.length = 4096 * (a * b) ∧ stored.data.length = 512 * (a * b) := by
    intro stored hcodes hstored
    rw [swizzleNvfp4Scales_eq_ok_iff, unswizzle_eq_ok hgeometry] at hstored
    constructor
    · rw [length_data_of_shape hcodes]
      ring
    · rw [stored.length_data, hstored.1, List.prod_singleton]
  unfold encodeNvfp4
  rw [hgeometry, ok_bind]
  simp only [bind_eq_ok, exists_ensure, exactUint8Matrix_eq_ok]
  constructor
  · rintro ⟨codes', ⟨hcodes, rfl⟩, scales', ⟨hscales, rfl⟩, hvalid, divisor, hdivisor, stored,
      hstored, ⟨⟩⟩
    rw [nvfp4Planes] at hcodes
    simp only [hcolumns] at hcodes
    obtain ⟨hcount, hstoredCount⟩ := hplanes hcodes hstored
    exact ⟨hcodes, hvalid, divisor, stored, hdivisor, hstored,
      setSlice_nvfp4Planes hcount hstoredCount⟩
  · rintro ⟨hcodes, hvalid, divisor, stored, hdivisor, hstored, rfl⟩
    obtain ⟨hcount, hstoredCount⟩ := hplanes hcodes hstored
    have hscales := ((swizzle_eq_ok hgeometry).mp hstored).1
    refine ⟨codes, ⟨by rw [hcodes]; simp only [nvfp4Planes, hcolumns], rfl⟩, scales,
      ⟨hscales, rfl⟩, hvalid, divisor, hdivisor, stored, hstored, ?_⟩
    exact congrArg Except.ok (setSlice_nvfp4Planes hcount hstoredCount)

theorem decodeNvfp4Words_eq_ok {a b : Nat}
    (hgeometry : nvfp4Geometry shape = .ok (nvfp4Planes a b)) :
    decodeNvfp4Words payload shape = .ok (codes, scales, divisor) ↔
      payloadLength payload = .ok (4608 * (a * b) + 4) ∧
      (codes.shape = [128 * a, 32 * b] ∧ codes.data = slice payload.data 0 (4096 * (a * b))) ∧
      unswizzleNvfp4Scales (Tensor.ofList (slice payload.data (4096 * (a * b))
        (4096 * (a * b) + 512 * (a * b)))) shape = .ok scales ∧
      scales.data.any invalidNvfp4Scale = false ∧
      ∃ word, slice payload.data (4608 * (a * b)) payload.data.length = leBytes 4 word.toNat ∧
        validPositiveFp32Word word.toNat = true ∧ divisor = Tensor.scalar word := by
  have hcolumns : 64 * b / 2 = 32 * b := by omega
  -- the divisor that four bytes are read as
  have hscalar : ∀ word : BitVec (8 * 4),
      divisor.shape = [] ∧ divisor.data = leWords 4 (leBytes 4 word.toNat) ↔
        divisor = Tensor.scalar word := by
    intro word
    have hwords : leWords 4 (leBytes 4 word.toNat) = [word] := by
      have h := leWords_leBytes (w := 4) (by decide) [word]
      rwa [List.flatMap_singleton] at h
    rw [hwords]
    constructor
    · rintro ⟨hshape, hdata⟩
      exact Tensor.ext hshape hdata
    · rintro rfl
      exact ⟨rfl, rfl⟩
  unfold decodeNvfp4Words
  rw [hgeometry, ok_bind]
  simp only [bind_eq_ok, exists_ensure, reshapeTo_eq_ok, unpackUint32_eq_ok]
  constructor
  · rintro ⟨length, hlength, rfl, codes', hcodes, scales', hscales, hvalid, n, ⟨hfour, rfl⟩,
      hpositive, divisor', hdivisor, ⟨⟩⟩
    obtain ⟨word, hword, hvalue⟩ := exists_word_of_length hfour
    rw [Tensor.data_ofList, hword, hscalar] at hdivisor
    rw [hvalue] at hpositive
    simp only [nvfp4Planes, hcolumns] at hcodes
    exact ⟨hlength, hcodes, hscales, hvalid, word, hword, hpositive, hdivisor⟩
  · rintro ⟨hlength, hcodes, hscales, hvalid, word, hword, hpositive, hdivisor⟩
    simp only [nvfp4Planes, hcolumns]
    refine ⟨_, hlength, rfl, codes, hcodes, scales, hscales, hvalid, word.toNat, ⟨?_, ?_⟩,
      hpositive, divisor, ?_, rfl⟩
    · rw [hword, length_leBytes]
    · rw [hword, leWord_leBytes (toNat_lt_pow word)]
    · rw [Tensor.data_ofList, hword, hscalar]
      exact hdivisor

/-- Encoded `NVFP4` words are decoded. -/
theorem decode_encodeNvfp4 (h : encodeNvfp4 codes scales source shape = .ok raw) :
    ∃ word, source.Holds word ∧
      decodeNvfp4Words (.bytes raw) shape = .ok (codes, scales, Tensor.scalar word) := by
  cases hshape : nvfp4Geometry shape with
  | error e =>
    unfold encodeNvfp4 at h
    rw [hshape] at h
    cases h
  | ok geometry =>
    obtain ⟨a, b, -, -, rfl⟩ := nvfp4Geometry_eq_ok hshape
    obtain ⟨hcodes, hvalid, divisor, stored, hdivisor, hstored, rfl⟩ :=
      (encodeNvfp4_eq_ok hshape).mp h
    obtain ⟨hbytes, hfour, hpositive⟩ := positiveFp32Word_eq_ok.mp hdivisor
    obtain ⟨word, hword, rfl⟩ := divisorBytes_eq_ok hbytes
    rw [leWord_leBytes (toNat_lt_pow word)] at hpositive
    rw [swizzleNvfp4Scales_eq_ok_iff] at hstored
    have hstoredShape := ((unswizzle_eq_ok hshape).mp hstored).1
    have hstoredCount : stored.data.length = 512 * (a * b) := by
      rw [stored.length_data, hstoredShape, List.prod_singleton]
    have hcount : codes.data.length = 4096 * (a * b) := by
      rw [length_data_of_shape hcodes]
      ring
    have hbefore : (codes.data ++ stored.data).length = 4608 * (a * b) := by
      rw [List.length_append, hcount, hstoredCount]
      omega
    refine ⟨word, hword, (decodeNvfp4Words_eq_ok hshape).mpr
      ⟨?_, ⟨hcodes, ?_⟩, ?_, hvalid, word, ?_, hpositive, rfl⟩⟩
    · rw [payloadLength, ← List.append_assoc, List.length_append, hbefore, hfour]
    · unfold slice Payload.data
      rw [List.drop_zero, Nat.sub_zero, List.take_left' hcount]
    · unfold slice Payload.data
      rw [List.drop_left' hcount, Nat.add_sub_cancel_left, List.take_left' hstoredCount]
      -- the stored scales are a plane of one axis
      have hplane : Tensor.ofList stored.data = stored := by
        refine Tensor.ext ?_ rfl
        rw [Tensor.shape_ofList, hstoredCount, hstoredShape]
      rw [hplane]
      exact hstored
    · unfold slice Payload.data
      rw [← List.append_assoc, List.drop_left' hbefore, List.length_append, hbefore,
        Nat.add_sub_cancel_left, List.take_length]

/-- A decoded payload is what its words are encoded to: there are no bytes between the planes. -/
theorem encode_decodeNvfp4Words
    (h : decodeNvfp4Words payload shape = .ok (codes, scales, divisor)) :
    encodeNvfp4 codes scales (.tensor divisor) shape = .ok payload.data := by
  cases hshape : nvfp4Geometry shape with
  | error e =>
    unfold decodeNvfp4Words at h
    rw [hshape] at h
    cases h
  | ok geometry =>
    obtain ⟨a, b, -, -, rfl⟩ := nvfp4Geometry_eq_ok hshape
    obtain ⟨hlength, ⟨hcodesShape, hcodes⟩, hscales, hvalid, word, hword, hpositive, rfl⟩ :=
      (decodeNvfp4Words_eq_ok hshape).mp h
    have hraw := (payloadLength_eq_ok hlength).symm
    rw [← swizzleNvfp4Scales_eq_ok_iff] at hscales
    have hdivisor : positiveFp32Word (.tensor (Tensor.scalar word)) =
        .ok (leBytes 4 word.toNat) := by
      rw [positiveFp32Word_eq_ok, length_leBytes, leWord_leBytes (toNat_lt_pow word)]
      exact ⟨divisorBytes_of_scalar rfl, rfl, hpositive⟩
    refine (encodeNvfp4_eq_ok hshape).mpr
      ⟨hcodesShape, hvalid, _, _, hdivisor, hscales, ?_⟩
    have hscalesEnd : 4096 * (a * b) + 512 * (a * b) = 4608 * (a * b) := by ring
    -- three consecutive slices are the whole
    rw [Tensor.data_ofList, hcodes, ← hword, hscalesEnd,
      slice_append_slice _ (by omega) (by omega), slice_append_slice _ (Nat.zero_le _) (by omega),
      slice_all]

/-- **Scaled payloads lose nothing.** Decoding an encoded payload of either layout gives the words
it was encoded from, and encoding what a payload decodes to gives the payload, where its bytes
between the planes are zero. The two orders of the `NVFP4` scales correspond one to one, and the
scale of row `r` and group `g` is at the byte its tile, row, quarter and group say. -/
theorem scaledPayloads_roundTrip (shape : List Int) :
    (∀ codes scales source raw, encodeNvfp4 codes scales source shape = .ok raw →
      ∃ word, source.Holds word ∧
        decodeNvfp4Words (.bytes raw) shape = .ok (codes, scales, Tensor.scalar word)) ∧
    (∀ payload codes scales divisor,
      decodeNvfp4Words payload shape = .ok (codes, scales, divisor) →
        encodeNvfp4 codes scales (.tensor divisor) shape = .ok payload.data) ∧
    (∀ codes scales raw, encodeFp8RowScaled codes scales shape = .ok raw →
      decodeFp8RowScaledWords (.bytes raw) shape = .ok (codes, scales)) ∧
    (∀ geometry payload codes scales, fp8RowGeometry shape = .ok geometry →
      (∀ i, geometry.codePlaneBytes ≤ i → i < geometry.scalePlaneOffset →
        payload.data[i]? = some 0) →
      decodeFp8RowScaledWords payload shape = .ok (codes, scales) →
        encodeFp8RowScaled codes scales shape = .ok payload.data) ∧
    (∀ natural stored, swizzleNvfp4Scales natural shape = .ok stored ↔
      unswizzleNvfp4Scales stored shape = .ok natural) ∧
    ∀ geometry, nvfp4Geometry shape = .ok geometry →
      (∀ natural : Tensor UInt8, natural.shape = [geometry.n, geometry.groupsPerRow] →
        ∃ stored, swizzleNvfp4Scales natural shape = .ok stored) ∧
      (∀ stored : Tensor UInt8, stored.shape = [geometry.scalePlaneBytes] →
        ∃ natural, unswizzleNvfp4Scales stored shape = .ok natural) ∧
      ∀ natural stored, swizzleNvfp4Scales natural shape = .ok stored →
        ∀ r < geometry.n, ∀ g < geometry.groupsPerRow,
          stored.data[(r / 128 * geometry.kTiles + g / 4) * 512 + r % 32 * 16 +
            r % 128 / 32 * 4 + g % 4]? = natural.elem [r, g] := by
  refine ⟨?_, ?_, ?_, ?_, ?_, ?_⟩
  · intro codes scales source raw h
    exact decode_encodeNvfp4 h
  · intro payload codes scales divisor h
    exact encode_decodeNvfp4Words h
  · intro codes scales raw h
    exact decode_encodeFp8RowScaled h
  · intro geometry payload codes scales hgeometry hzero h
    exact encode_decodeFp8RowScaledWords hgeometry hzero h
  · intro natural stored
    exact swizzleNvfp4Scales_eq_ok_iff
  · intro geometry hgeometry
    obtain ⟨a, b, -, -, rfl⟩ := nvfp4Geometry_eq_ok hgeometry
    refine ⟨?_, ?_, ?_⟩
    · intro natural hnatural
      exact exists_swizzleNvfp4Scales hgeometry hnatural
    · intro stored hstored
      exact exists_unswizzleNvfp4Scales hgeometry hstored
    · intro natural stored h r hr g hg
      exact elem_swizzleNvfp4Scales hgeometry h hr hg

/-- The codes of two tiles. -/
def tileCodes : Tensor UInt8 where
  shape := [128, 64]
  data := (List.range 8192).map UInt8.ofNat
  length_data := by simp

/-- Their scales, every valid word in turn. -/
def tileScales : Tensor UInt8 where
  shape := [128, 8]
  data := (List.range 1024).map fun i => UInt8.ofNat (i % 127)
  length_data := by simp

theorem tileScales_valid : tileScales.data.any invalidNvfp4Scale = false := by
  have hvalid : ∀ word < 127, invalidNvfp4Scale (UInt8.ofNat word) = false := by
    decide +kernel
  simp only [tileScales, List.any_eq_false, List.forall_mem_map, Bool.not_eq_true]
  exact fun i _ => hvalid _ (Nat.mod_lt i (by decide))

/-- Two tiles of distinct words with the divisor one. -/
theorem scaledPayloads_roundTrip_tiles : ∃ raw,
    encodeNvfp4 tileCodes tileScales (.bytes [0, 0, 0x80, 0x3F]) [128, 128] = .ok raw ∧
    ∃ word, DivisorSource.Holds (.bytes [0, 0, 0x80, 0x3F]) word ∧
      decodeNvfp4Words (.bytes raw) [128, 128] =
        .ok (tileCodes, tileScales, Tensor.scalar word) := by
  have hgeometry : nvfp4Geometry [128, 128] = .ok (nvfp4Planes 1 2) := by decide
  have hdivisor : positiveFp32Word (.bytes [0, 0, 0x80, 0x3F]) = .ok [0, 0, 0x80, 0x3F] := by
    decide
  have hnatural : tileScales.shape = [128 * 1, 4 * 2] := rfl
  have hcodes : tileCodes.shape = [128 * 1, 32 * 2] := rfl
  obtain ⟨stored, hstored⟩ := exists_swizzleNvfp4Scales hgeometry hnatural
  have hencode := (encodeNvfp4_eq_ok hgeometry).mpr
    ⟨hcodes, tileScales_valid, _, _, hdivisor, hstored, rfl⟩
  exact ⟨_, hencode, (scaledPayloads_roundTrip [128, 128]).1 _ _ _ _ hencode⟩

end Nvfp4

end Ninfer.Artifact.Tools
