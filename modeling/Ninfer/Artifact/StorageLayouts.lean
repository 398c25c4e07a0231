import Ninfer.Commons.Align
import Ninfer.Commons.Check

/-!
# Tensor layouts of the engine

`artifact/storage_layouts.cpp`: the formats and layouts the engine knows, their names, and the
size of a tensor in each, on `std::uint64_t` with every operation checked.

## Main definitions

* `NumericFormat`, `StorageLayout`, `ResourceEncoding`
* `rowSplitGeometry`, `blockScaleGeometry`, `rowScaleGeometry`: the planes of the quantized layouts
* `tensorEncodedSize`: the bytes of a tensor
-/

namespace Ninfer.Artifact

/-- `ArtifactError`. -/
structure ArtifactError where
  what : String
  deriving DecidableEq, Repr

/-- `NumericFormat`. -/
inductive NumericFormat
  | bf16
  | fp32
  | i32
  | q4g64F16s
  | q5g64F16s
  | q6g64F16s
  | w8g32F16s
  | nvfp4
  | fp8E4m3fnRowBf16s
  deriving DecidableEq, Repr

/-- `StorageLayout`. -/
inductive StorageLayout
  | contiguousLeV1
  | rowSplitK128V1
  | blockScaleK16M128x4V1
  | rowScaleV1
  deriving DecidableEq, Repr

/-- `ResourceEncoding`. -/
inductive ResourceEncoding
  | rawBytesV1
  deriving DecidableEq, Repr

/-- `format_name`. -/
def formatName : NumericFormat → String
  | .bf16 => "BF16"
  | .fp32 => "FP32"
  | .i32 => "I32"
  | .q4g64F16s => "Q4G64_F16S"
  | .q5g64F16s => "Q5G64_F16S"
  | .q6g64F16s => "Q6G64_F16S"
  | .w8g32F16s => "W8G32_F16S"
  | .nvfp4 => "NVFP4"
  | .fp8E4m3fnRowBf16s => "FP8_E4M3FN_ROW_BF16S"

/-- `layout_name`. -/
def layoutName : StorageLayout → String
  | .contiguousLeV1 => "contiguous-le-v1"
  | .rowSplitK128V1 => "row-split-k128-v1"
  | .blockScaleK16M128x4V1 => "blockscale-k16-m128x4-v1"
  | .rowScaleV1 => "row-scale-v1"

/-- `encoding_name`. -/
def encodingName : ResourceEncoding → String
  | .rawBytesV1 => "raw-bytes-v1"

/-- `kTensorAlignment`. -/
def kTensorAlignment : Nat := 256

/-- `kKAlignment`. -/
def kKAlignment : Nat := 128

/-- `tensor_alignment`. -/
def tensorAlignment (_ : StorageLayout) : Nat := kTensorAlignment

/-- `resource_alignment`. -/
def resourceAlignment (_ : ResourceEncoding) : Nat := 1

/-- `checked_add`. -/
def checkedAdd (a b : Nat) (label : String) : Except ArtifactError Nat := do
  ensure (b ≤ U64.size - 1 - a) ⟨label ++ " overflows u64"⟩
  return a + b

/-- `checked_mul`. -/
def checkedMul (a b : Nat) (label : String) : Except ArtifactError Nat := do
  ensure (a = 0 ∨ b ≤ (U64.size - 1) / a) ⟨label ++ " overflows u64"⟩
  return a * b

/-- `align_up`. -/
def alignUp (value alignment : Nat) (label : String) : Except ArtifactError Nat := do
  let biased ← checkedAdd value (alignment - 1) label
  return biased / alignment * alignment

/-- `QuantGeometry`. -/
structure QuantGeometry where
  groupSize : Nat
  baseBytesPerGroup : Nat
  highBytesPerGroup : Nat
  deriving DecidableEq, Repr

/-- `quant_geometry`. -/
def quantGeometry : NumericFormat → Except ArtifactError QuantGeometry
  | .q4g64F16s => .ok ⟨64, 32, 0⟩
  | .q5g64F16s => .ok ⟨64, 32, 8⟩
  | .q6g64F16s => .ok ⟨64, 32, 16⟩
  | .w8g32F16s => .ok ⟨32, 32, 0⟩
  | _ => .error ⟨"row-split-k128-v1 requires a grouped quantized format"⟩

/-- `direct_word_bytes`. -/
def directWordBytes : NumericFormat → Except ArtifactError Nat
  | .bf16 => .ok 2
  | .fp32 => .ok 4
  | .i32 => .ok 4
  | _ => .error ⟨"contiguous-le-v1 requires BF16, FP32, or I32"⟩

/-- A shape of rank two without a zero. -/
def PositiveRankTwo (shape : List Nat) : Prop :=
  shape.length = 2 ∧ shape.getD 0 0 ≠ 0 ∧ shape.getD 1 0 ≠ 0

instance (shape : List Nat) : Decidable (PositiveRankTwo shape) :=
  inferInstanceAs (Decidable (_ ∧ _ ∧ _))

/-- `RowSplitGeometry`. -/
structure RowSplitGeometry where
  rows : Nat
  columns : Nat
  paddedColumns : Nat
  groupSize : Nat
  groupsPerRow : Nat
  lowBytesPerGroup : Nat
  highBytesPerGroup : Nat
  lowPlaneBytes : Nat
  highPlaneOffset : Nat
  highPlaneBytes : Nat
  scalePlaneOffset : Nat
  scalePlaneBytes : Nat
  encodedBytes : Nat
  deriving DecidableEq, Repr

/-- `row_split_geometry`. -/
def rowSplitGeometry (format : NumericFormat) (shape : List Nat) :
    Except ArtifactError RowSplitGeometry := do
  ensure (PositiveRankTwo shape) ⟨"row-split-k128-v1 requires a positive rank-two shape"⟩
  let formatGeometry ← quantGeometry format
  let rows := shape.getD 0 0
  let columns := shape.getD 1 0
  let paddedColumns ← alignUp columns kKAlignment "padded K"
  let groupsPerRow := paddedColumns / formatGeometry.groupSize
  let groups ← checkedMul rows groupsPerRow "physical group count"
  let lowPlaneBytes ← checkedMul groups formatGeometry.baseBytesPerGroup "base plane bytes"
  let highPlaneBytes ← checkedMul groups formatGeometry.highBytesPerGroup "high plane bytes"
  let scalePlaneBytes ← checkedMul groups 2 "scale plane bytes"
  let highPlaneOffset ← alignUp lowPlaneBytes kTensorAlignment "high plane offset"
  let alignedHigh ← alignUp highPlaneBytes kTensorAlignment "scale plane alignment"
  let scalePlaneOffset ← checkedAdd highPlaneOffset alignedHigh "scale plane offset"
  let encodedBytes ← checkedAdd scalePlaneOffset scalePlaneBytes "tensor encoded size"
  return {
    rows := rows
    columns := columns
    paddedColumns := paddedColumns
    groupSize := formatGeometry.groupSize
    groupsPerRow := groupsPerRow
    lowBytesPerGroup := formatGeometry.baseBytesPerGroup
    highBytesPerGroup := formatGeometry.highBytesPerGroup
    lowPlaneBytes := lowPlaneBytes
    highPlaneOffset := highPlaneOffset
    highPlaneBytes := highPlaneBytes
    scalePlaneOffset := scalePlaneOffset
    scalePlaneBytes := scalePlaneBytes
    encodedBytes := encodedBytes }

/-- `BlockScaleGeometry`. -/
structure BlockScaleGeometry where
  rows : Nat
  columns : Nat
  groupsPerRow : Nat
  kTiles : Nat
  codePlaneBytes : Nat
  scalePlaneOffset : Nat
  scalePlaneBytes : Nat
  weightDivisorOffset : Nat
  encodedBytes : Nat
  deriving DecidableEq, Repr

/-- `block_scale_geometry`. -/
def blockScaleGeometry (format : NumericFormat) (shape : List Nat) :
    Except ArtifactError BlockScaleGeometry := do
  ensure (format = .nvfp4) ⟨"blockscale-k16-m128x4-v1 requires NVFP4"⟩
  ensure (PositiveRankTwo shape) ⟨"blockscale-k16-m128x4-v1 requires a positive rank-two shape"⟩
  let rows := shape.getD 0 0
  let columns := shape.getD 1 0
  ensure (rows % 128 = 0 ∧ columns % 64 = 0)
    ⟨"blockscale-k16-m128x4-v1 requires N divisible by 128 and K divisible by 64"⟩
  let elements ← checkedMul rows columns "NVFP4 element count"
  let codePlaneBytes := elements / 2
  let scalePlaneOffset ← alignUp codePlaneBytes kTensorAlignment "NVFP4 scale plane offset"
  let scalePlaneBytes := elements / 16
  let weightDivisorOffset ←
    checkedAdd scalePlaneOffset scalePlaneBytes "NVFP4 weight divisor offset"
  let encodedBytes ← checkedAdd weightDivisorOffset 4 "NVFP4 tensor encoded size"
  return {
    rows := rows
    columns := columns
    groupsPerRow := columns / 16
    kTiles := columns / 64
    codePlaneBytes := codePlaneBytes
    scalePlaneOffset := scalePlaneOffset
    scalePlaneBytes := scalePlaneBytes
    weightDivisorOffset := weightDivisorOffset
    encodedBytes := encodedBytes }

/-- `RowScaleGeometry`. -/
structure RowScaleGeometry where
  rows : Nat
  columns : Nat
  codePlaneBytes : Nat
  scalePlaneOffset : Nat
  scalePlaneBytes : Nat
  encodedBytes : Nat
  deriving DecidableEq, Repr

/-- `row_scale_geometry`. -/
def rowScaleGeometry (format : NumericFormat) (shape : List Nat) :
    Except ArtifactError RowScaleGeometry := do
  ensure (format = .fp8E4m3fnRowBf16s) ⟨"row-scale-v1 requires FP8_E4M3FN_ROW_BF16S"⟩
  ensure (PositiveRankTwo shape) ⟨"row-scale-v1 requires a positive rank-two shape"⟩
  let rows := shape.getD 0 0
  let columns := shape.getD 1 0
  let codePlaneBytes ← checkedMul rows columns "FP8 element count"
  let scalePlaneOffset ← alignUp codePlaneBytes kTensorAlignment "FP8 scale plane offset"
  let scalePlaneBytes ← checkedMul rows 2 "FP8 scale plane bytes"
  let encodedBytes ← checkedAdd scalePlaneOffset scalePlaneBytes "FP8 tensor encoded size"
  return {
    rows := rows
    columns := columns
    codePlaneBytes := codePlaneBytes
    scalePlaneOffset := scalePlaneOffset
    scalePlaneBytes := scalePlaneBytes
    encodedBytes := encodedBytes }

/-- The loop of `tensor_encoded_size` over a contiguous shape. -/
def elementCount : Nat → List Nat → Except ArtifactError Nat
  | elements, [] => .ok elements
  | elements, dim :: dims => do
    ensure (dim ≠ 0) ⟨"tensor shape dimensions must be positive"⟩
    let elements ← checkedMul elements dim "tensor element count"
    elementCount elements dims

/-- `tensor_encoded_size`. -/
def tensorEncodedSize (layout : StorageLayout) (format : NumericFormat) (shape : List Nat) :
    Except ArtifactError Nat :=
  match layout with
  | .contiguousLeV1 => do
    ensure (shape.length ≤ 16) ⟨"contiguous-le-v1 supports rank 0 through 16"⟩
    let elements ← elementCount 1 shape
    let wordBytes ← directWordBytes format
    checkedMul elements wordBytes "tensor encoded size"
  | .rowSplitK128V1 => do
    ensure (PositiveRankTwo shape) ⟨"row-split-k128-v1 requires a positive rank-two shape"⟩
    let geometry ← rowSplitGeometry format shape
    return geometry.encodedBytes
  | .blockScaleK16M128x4V1 => do
    let geometry ← blockScaleGeometry format shape
    return geometry.encodedBytes
  | .rowScaleV1 => do
    let geometry ← rowScaleGeometry format shape
    return geometry.encodedBytes

end Ninfer.Artifact
