import Ninfer.Commons.Align
import Ninfer.Commons.Check

/-!
# Tensor layouts of the converter

`tools/artifact/layouts.py` and the registry of `tools/artifact/numeric.py`: the numeric formats,
the byte layouts and the size of a tensor in each. Integers are Python's, without a bound. The
word-level encoders are left out, as is what only they read of a format.

## Main definitions

* `NumericFormat`, `getFormat`: the registered formats
* `Layout`, `getLayout`: the registered layouts
* `rowSplitGeometry`, `blockScaleGeometry`, `rowScaleGeometry`: the planes of the quantized layouts
* `encodedSize`: the bytes of a tensor
-/

namespace Ninfer.Artifact.Tools

/-- The exceptions of the tools. `ArtifactError` and `MigrationError` derive from `ValueError`.
Where the text of an exception has the `repr` of a name, the exception has the name. `interrupted`
stands for what the tools do not raise themselves: a signal, or an error of the file system. -/
inductive PyException
  | valueError (what : String)
  | unknownLayout (name : String)
  | unknownFormat (name : String)
  | formatNotAccepted (layout format : String)
  | structError
  | fileExists
  | fileNotFound
  | interrupted
  | artifactError (what : String)
  | artifactErrorFrom (cause : PyException)
  | migrationError (what : String)
  | migrationErrorFrom (what : String) (cause : PyException)
  deriving DecidableEq, Repr

/-- The exceptions an `except ArtifactError` clause catches. -/
def PyException.isArtifactError : PyException → Bool
  | artifactError _ => true
  | artifactErrorFrom _ => true
  | _ => false

/-- The exceptions an `except MigrationError` clause catches. -/
def PyException.isMigrationError : PyException → Bool
  | migrationError _ => true
  | migrationErrorFrom _ _ => true
  | _ => false

/-- `NumericFormat`: the union of the four kinds of formats. -/
inductive NumericFormat
  | direct (name : String) (wordBytes : Nat)
  | quant (name : String) (bits groupSize : Nat)
  | nvfp4 (name : String) (groupSize : Nat)
  | fp8Row (name : String)
  deriving DecidableEq, Repr

/-- The name of a format. -/
def NumericFormat.name : NumericFormat → String
  | direct name _ => name
  | quant name _ _ => name
  | nvfp4 name _ => name
  | fp8Row name => name

/-- `NUMERIC_FORMATS`. -/
def numericFormats : List NumericFormat :=
  [.direct "BF16" 2, .direct "FP32" 4, .direct "I32" 4,
    .quant "Q4G64_F16S" 4 64, .quant "Q5G64_F16S" 5 64, .quant "Q6G64_F16S" 6 64,
    .quant "W8G32_F16S" 8 32, .nvfp4 "NVFP4" 16, .fp8Row "FP8_E4M3FN_ROW_BF16S"]

/-- `get_format`. -/
def getFormat (name : String) : Except PyException NumericFormat :=
  match numericFormats.find? fun format => format.name == name with
  | some format => .ok format
  | none => .error (.unknownFormat name)

/-- `Layout`. -/
structure Layout where
  name : String
  alignment : Nat
  formats : List String
  deriving DecidableEq, Repr

/-- `CONTIGUOUS_LE_V1`. -/
def contiguousLeV1 : Layout := ⟨"contiguous-le-v1", 256, ["BF16", "FP32", "I32"]⟩

/-- `ROW_SPLIT_K128_V1`. -/
def rowSplitK128V1 : Layout :=
  ⟨"row-split-k128-v1", 256, ["Q4G64_F16S", "Q5G64_F16S", "Q6G64_F16S", "W8G32_F16S"]⟩

/-- `BLOCKSCALE_K16_M128X4_V1`. -/
def blockscaleK16M128x4V1 : Layout := ⟨"blockscale-k16-m128x4-v1", 256, ["NVFP4"]⟩

/-- `ROW_SCALE_V1`. -/
def rowScaleV1 : Layout := ⟨"row-scale-v1", 256, ["FP8_E4M3FN_ROW_BF16S"]⟩

/-- `LAYOUTS`. -/
def layouts : List Layout := [contiguousLeV1, rowSplitK128V1, blockscaleK16M128x4V1, rowScaleV1]

/-- `get_layout`. -/
def getLayout (name : String) : Except PyException Layout :=
  match layouts.find? fun layout => layout.name == name with
  | some layout => .ok layout
  | none => .error (.unknownLayout name)

/-- `align_up`. Its check that the alignment is positive is left out: every alignment it is called
with is a positive constant. -/
def alignUp (value alignment : Nat) : Nat := roundUp value alignment

/-- `PLANE_ALIGNMENT`. -/
def planeAlignment : Nat := 256

/-- `K_ALIGNMENT`. -/
def kAlignment : Nat := 128

/-- `_shape`: the dimensions, all positive, and the rank if one is required. -/
def checkedShape (value : List Int) (rank : Option Nat) : Except PyException (List Nat) := do
  ensure (∀ dim ∈ value, 0 < dim) (.valueError "shape dimensions must be positive integers")
  ensure (∀ r ∈ rank, value.length = r)
    (.valueError ("layout requires rank " ++ toString (rank.getD 0) ++ ", got rank " ++
      toString value.length))
  return value.map Int.toNat

/-- `RowSplitGeometry`. -/
structure RowSplitGeometry where
  n : Nat
  k : Nat
  kPad : Nat
  groupsPerRow : Nat
  baseBytesPerGroup : Nat
  highBytesPerGroup : Nat
  baseRowBytes : Nat
  highRowBytes : Nat
  scaleRowBytes : Nat
  baseOffset : Nat
  baseBytes : Nat
  highOffset : Nat
  highBytes : Nat
  scaleOffset : Nat
  scaleBytes : Nat
  payloadBytes : Nat
  deriving DecidableEq, Repr

/-- `row_split_geometry`, from a grouped format. -/
def quantGeometry (bits groupSize : Nat) (n k : Nat) : RowSplitGeometry :=
  let kPad := alignUp k kAlignment
  let groupsPerRow := kPad / groupSize
  let baseBytesPerGroup := if bits = 8 then groupSize else groupSize / 2
  let highBytesPerGroup := if bits = 4 ∨ bits = 8 then 0 else groupSize * (bits - 4) / 8
  let baseBytes := n * (groupsPerRow * baseBytesPerGroup)
  let highBytes := n * (groupsPerRow * highBytesPerGroup)
  let scaleBytes := n * (groupsPerRow * 2)
  let highOffset := alignUp baseBytes planeAlignment
  let scaleOffset := highOffset + alignUp highBytes planeAlignment
  { n := n
    k := k
    kPad := kPad
    groupsPerRow := groupsPerRow
    baseBytesPerGroup := baseBytesPerGroup
    highBytesPerGroup := highBytesPerGroup
    baseRowBytes := groupsPerRow * baseBytesPerGroup
    highRowBytes := groupsPerRow * highBytesPerGroup
    scaleRowBytes := groupsPerRow * 2
    baseOffset := 0
    baseBytes := baseBytes
    highOffset := highOffset
    highBytes := highBytes
    scaleOffset := scaleOffset
    scaleBytes := scaleBytes
    payloadBytes := scaleOffset + scaleBytes }

/-- `row_split_geometry`. -/
def rowSplitGeometry (format : NumericFormat) (shape : List Int) :
    Except PyException RowSplitGeometry :=
  match format with
  | .quant _ bits groupSize => do
    let dims ← checkedShape shape (some 2)
    return quantGeometry bits groupSize (dims.getD 0 0) (dims.getD 1 0)
  | _ => .error (.valueError "row-split-k128-v1 requires a grouped quantized format")

/-- `BlockScaleGeometry`. -/
structure BlockScaleGeometry where
  n : Nat
  k : Nat
  groupsPerRow : Nat
  kTiles : Nat
  codePlaneBytes : Nat
  scalePlaneOffset : Nat
  scalePlaneBytes : Nat
  weightDivisorOffset : Nat
  payloadBytes : Nat
  deriving DecidableEq, Repr

/-- `block_scale_geometry`. -/
def blockScaleGeometry (format : NumericFormat) (shape : List Int) :
    Except PyException BlockScaleGeometry :=
  match format with
  | .nvfp4 _ groupSize => do
    let dims ← checkedShape shape (some 2)
    let n := dims.getD 0 0
    let k := dims.getD 1 0
    ensure (n % 128 = 0 ∧ k % 64 = 0)
      (.valueError "blockscale-k16-m128x4-v1 requires N divisible by 128 and K divisible by 64")
    let codePlaneBytes := n * k / 2
    let scalePlaneOffset := alignUp codePlaneBytes planeAlignment
    let scalePlaneBytes := n * k / groupSize
    let weightDivisorOffset := scalePlaneOffset + scalePlaneBytes
    return {
      n := n
      k := k
      groupsPerRow := k / groupSize
      kTiles := k / 64
      codePlaneBytes := codePlaneBytes
      scalePlaneOffset := scalePlaneOffset
      scalePlaneBytes := scalePlaneBytes
      weightDivisorOffset := weightDivisorOffset
      payloadBytes := weightDivisorOffset + 4 }
  | _ => .error (.valueError "blockscale-k16-m128x4-v1 requires NVFP4")

/-- `RowScaleGeometry`. -/
structure RowScaleGeometry where
  n : Nat
  k : Nat
  codePlaneBytes : Nat
  scalePlaneOffset : Nat
  scalePlaneBytes : Nat
  payloadBytes : Nat
  deriving DecidableEq, Repr

/-- `row_scale_geometry`. -/
def rowScaleGeometry (format : NumericFormat) (shape : List Int) :
    Except PyException RowScaleGeometry :=
  match format with
  | .fp8Row _ => do
    let dims ← checkedShape shape (some 2)
    let n := dims.getD 0 0
    let k := dims.getD 1 0
    let codePlaneBytes := n * k
    let scalePlaneOffset := alignUp codePlaneBytes planeAlignment
    let scalePlaneBytes := n * 2
    return {
      n := n
      k := k
      codePlaneBytes := codePlaneBytes
      scalePlaneOffset := scalePlaneOffset
      scalePlaneBytes := scalePlaneBytes
      payloadBytes := scalePlaneOffset + scalePlaneBytes }
  | _ => .error (.valueError "row-scale-v1 requires a row-scaled FP8 format")

/-- The size of a tensor in the layout `contiguous-le-v1`. -/
def contiguousSize (format : NumericFormat) (shape : List Int) : Except PyException Nat :=
  match format with
  | .direct _ wordBytes => do
    let dims ← checkedShape shape none
    ensure (dims.length ≤ 16) (.valueError "contiguous-le-v1 supports rank 0 through 16")
    return dims.prod * wordBytes
  | _ => .error (.valueError "contiguous-le-v1 requires a direct format")

/-- `encoded_size`, with the layout and the format by name. -/
def encodedSize (layout format : String) (shape : List Int) : Except PyException Nat := do
  let layoutSpec ← getLayout layout
  let numericSpec ← getFormat format
  ensure (numericSpec.name ∈ layoutSpec.formats)
    (.formatNotAccepted layoutSpec.name numericSpec.name)
  if layoutSpec = contiguousLeV1 then contiguousSize numericSpec shape
  else if layoutSpec = rowSplitK128V1 then do
    let geometry ← rowSplitGeometry numericSpec shape
    return geometry.payloadBytes
  else if layoutSpec = blockscaleK16M128x4V1 then do
    let geometry ← blockScaleGeometry numericSpec shape
    return geometry.payloadBytes
  else if layoutSpec = rowScaleV1 then do
    let geometry ← rowScaleGeometry numericSpec shape
    return geometry.payloadBytes
  else .error (.valueError ("unsupported tensor layout: " ++ layoutSpec.name))

end Ninfer.Artifact.Tools
