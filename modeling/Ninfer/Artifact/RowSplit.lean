import Ninfer.Artifact.TensorWords

/-!
# The row-split layout

The grouped formats of `tools/artifact/layouts.py`: rows of groups of signed codes with one scale
for each group. The codes are split into a plane of low nibbles and a plane of the bits above
them, the scales make up a third plane, and the planes are padded to their alignment. Codes are
words of eight bits in two's complement; values that the source masks are natural numbers. The
words of a tensor lie in memory with the least significant byte first, on an even address.

## Main definitions

* `encodeRowSplit`: codes and scales as a payload
* `splitRowPlanes`, `gatherRowPlanes`, `assembleRowPlanes`: rows of a payload as a payload
* `decodeRowSplitCodes`: the codes and scales of a payload
* `eagerDequantizer`: the codes and scales of the planes as the dequantizers read them
-/

namespace Ninfer.Artifact.Tools

/-- `QUANT_FORMATS` with `qmin` and `qmax`. -/
def quantFormats : List (NumericFormat × Int × Int) :=
  [(.quant "Q4G64_F16S" 4 64, -8, 7), (.quant "Q5G64_F16S" 5 64, -16, 15),
    (.quant "Q6G64_F16S" 6 64, -32, 31), (.quant "W8G32_F16S" 8 32, -127, 127)]

/-- `_PACK_TEMP_BYTES`. -/
def packTempBytes : Nat := 4 * 1024 * 1024 * 1024

/-- The rows that a loop over `range(0, groups, chunk)` fills, `chunk` rows at a time. -/
def inChunks {α β : Type} (chunk : Nat) (f : α → β) (rows : List α) : List β :=
  (List.range' 0 ((rows.length + chunk - 1) / chunk) chunk).flatMap fun first =>
    (slice rows first (min rows.length (first + chunk))).map f

/-- `[0::2]`. -/
def evens {α : Type} : List α → List α
  | a :: _ :: l => a :: evens l
  | l => l

/-- `[1::2]`. -/
def odds {α : Type} (l : List α) : List α := evens l.tail

/-- `code.to(torch.int16) & 0x0F`. -/
def lowNibble (code : BitVec 8) : Nat := (code.signExtend 16 &&& 0x0F#16).toNat

/-- The bits of a code above its low nibble. -/
def upperBits (bits : Nat) (code : BitVec 8) : Nat :=
  let mask := BitVec.ofNat 32 (1 <<< bits - 1)
  let highMask := BitVec.ofNat 32 (1 <<< (bits - 4) - 1)
  (((code.signExtend 32 &&& mask).sshiftRight 4) &&& highMask).toNat

/-- `_pack_low_nibbles`, of groups of `groupSize` codes. -/
def packLowNibbles (groupSize : Nat) (codes : List (List (BitVec 8))) : List (List UInt8) :=
  let chunk := max 1 (packTempBytes / max 1 (groupSize * 2))
  inChunks chunk (fun group =>
    let unsigned := group.map lowNibble
    List.zipWith (fun even odd => UInt8.ofNat (even ||| odd <<< 4)) (evens unsigned)
      (odds unsigned)) codes

/-- `_pack_high_bits`, of groups of `groupSize` codes. -/
def packHighBits (bits groupSize : Nat) (codes : List (List (BitVec 8))) : List (List UInt8) :=
  let highBits := bits - 4
  let shifts := List.range highBits
  let bitWeights := (List.range 8).map fun i => 1 <<< i
  let chunk := max 1 (packTempBytes / max 1 (groupSize * highBits * 4))
  inChunks chunk (fun group =>
    let upper := group.map (upperBits bits)
    let unpacked := upper.flatMap fun code => shifts.map fun shift => code >>> shift &&& 1
    (chunks 8 unpacked).map fun byte => UInt8.ofNat (List.zipWith (· * ·) byte bitWeights).sum)
    codes

/-- `_pack_codes`. -/
def packCodes (bits groupSize : Nat) (codes : List (List (BitVec 8))) :
    List (List UInt8) × List (List UInt8) :=
  let empty := codes.map fun _ => []
  if bits = 8 then (codes.map fun group => group.map UInt8.ofBitVec, empty)
  else
    let base := packLowNibbles groupSize codes
    let high := if bits = 4 then empty else packHighBits bits groupSize codes
    (base, high)

/-- `RowPlanes`. -/
structure RowPlanes where
  base : Payload
  high : Payload
  scale : Payload
  rows : Int

/-- A stretch of a payload, of the payload's own kind. -/
def Payload.slice : Payload → Nat → Nat → Payload
  | bytes data, first, last => bytes (Ninfer.slice data first last)
  | tensor data, first, last => tensor (Tensor.ofList (Ninfer.slice data.data first last))

/-- `isinstance(value, torch.Tensor)`. -/
def Payload.isTensor : Payload → Bool
  | bytes _ => false
  | tensor _ => true

/-- The registered grouped format of a name: its bits and its group size. -/
def groupedFormat (format what : String) : Except CodecException (NumericFormat × Nat × Nat) := do
  let spec ← lifted (getFormat format)
  match spec with
  | .quant _ bits groupSize => .ok (spec, bits, groupSize)
  | _ => .error (.valueError what)

/-- `split_row_planes`. -/
def splitRowPlanes (payload : Payload) (geometry : RowSplitGeometry) (rowBegin : Int)
    (rowCount : Option Int) : Except CodecException RowPlanes := do
  let length ← payloadLength payload
  ensure (length = geometry.payloadBytes)
    (.valueError ("row-split payload has " ++ toString length ++ " bytes, expected " ++
      toString geometry.payloadBytes))
  let count := rowCount.getD (geometry.n - rowBegin)
  ensure (0 ≤ rowBegin ∧ 0 < count ∧ rowBegin + count ≤ geometry.n)
    (.indexError "row range is outside the row-split tensor")
  let baseBegin := geometry.baseOffset + rowBegin.toNat * geometry.baseRowBytes
  let highBegin := geometry.highOffset + rowBegin.toNat * geometry.highRowBytes
  let scaleBegin := geometry.scaleOffset + rowBegin.toNat * geometry.scaleRowBytes
  return {
    base := payload.slice baseBegin (baseBegin + count.toNat * geometry.baseRowBytes)
    high := payload.slice highBegin (highBegin + count.toNat * geometry.highRowBytes)
    scale := payload.slice scaleBegin (scaleBegin + count.toNat * geometry.scaleRowBytes)
    rows := count }

/-- The rows a caller asks for: a sequence of integers, or a tensor of integers. -/
inductive RowIndices
  | sequence (rows : List Int)
  | tensor (rows : Tensor Int)

/-- `_sequence_rows`. -/
def sequenceRows (rows : List Int) (n : Nat) : Except CodecException (List Int) := do
  ensure (∀ row ∈ rows, 0 ≤ row ∧ row < n)
    (.indexError "row index is outside the row-split tensor")
  ensure (rows ≠ []) (.valueError "at least one row is required")
  return rows

/-- The row indices for a payload that is a tensor. -/
def tensorIndices (rows : RowIndices) (n : Nat) : Except CodecException (List Int) :=
  match rows with
  | .sequence rows => sequenceRows rows n
  | .tensor rows => do
    ensure (rows.shape.length = 1 ∧ rows.data ≠ [])
      (.valueError "rows must be a nonempty one-dimensional tensor")
    return rows.data

/-- The row indices for a payload of bytes: `tolist` of a tensor without axes is an integer, and
that of one with several axes a list of lists. -/
def byteIndices (rows : RowIndices) (n : Nat) : Except CodecException (List Int) :=
  match rows with
  | .sequence rows => sequenceRows rows n
  | .tensor rows => do
    ensure (rows.shape ≠ []) (.typeError "'int' object is not iterable")
    ensure (rows.shape.length = 1 ∨ rows.shape.head? = some 0)
      (.typeError "row indices must be integers")
    sequenceRows rows.data n

/-- `reshape(rows, width)`, as rows. -/
def reshapeRows {α : Type} (rows width : Nat) (data : List α) :
    Except CodecException (List (List α)) := do
  ensure (data.length = rows * width) .runtimeError
  return (List.range rows).map (chunkAt width data)

/-- `index_select(0, indices)`. -/
def selectRows {α : Type} (indices : List Int) (rows : List (List α)) :
    Except CodecException (List (List α)) := do
  ensure (∀ i ∈ indices, 0 ≤ i ∧ i < rows.length) .runtimeError
  return indices.map fun i => rows.getD i.toNat []

/-- `index_select(1, indices)`, of rows of `width` bytes. -/
def selectColumns (width : Nat) (indices : List Nat) (rows : List (List UInt8)) :
    Except CodecException (List (List UInt8)) := do
  ensure (∀ i ∈ indices, i < width) .runtimeError
  return rows.map fun row => indices.map fun i => row.getD i 0

/-- `gather`, within `gather_row_planes`. -/
def gather (n : Nat) (indices : List Int) (plane : List UInt8) (rowBytes : Nat) :
    Except CodecException Payload :=
  if rowBytes = 0 then .ok (.tensor (Tensor.ofList []))
  else do
    let rows ← reshapeRows n rowBytes plane
    let selected ← selectRows indices rows
    return .tensor (Tensor.ofList selected.flatten)

/-- `gather_bytes`, within `gather_row_planes`. -/
def gatherBytes (indices : List Int) (plane : List UInt8) (rowBytes : Nat) : Payload :=
  if rowBytes = 0 then .bytes []
  else .bytes (indices.flatMap fun index =>
    Ninfer.slice plane (index.toNat * rowBytes) ((index.toNat + 1) * rowBytes))

/-- `gather_row_planes`. -/
def gatherRowPlanes (payload : Payload) (geometry : RowSplitGeometry) (rows : RowIndices) :
    Except CodecException RowPlanes := do
  let full ← splitRowPlanes payload geometry 0 none
  if payload.isTensor then do
    let indices ← tensorIndices rows geometry.n
    let base ← gather geometry.n indices full.base.data geometry.baseRowBytes
    let high ← gather geometry.n indices full.high.data geometry.highRowBytes
    let scale ← gather geometry.n indices full.scale.data geometry.scaleRowBytes
    return ⟨base, high, scale, indices.length⟩
  else do
    let indices ← byteIndices rows geometry.n
    return ⟨gatherBytes indices full.base.data geometry.baseRowBytes,
      gatherBytes indices full.high.data geometry.highRowBytes,
      gatherBytes indices full.scale.data geometry.scaleRowBytes, indices.length⟩

/-- `_plane_length`. -/
def planeLength : Payload → Except CodecException Nat
  | .bytes data => .ok data.length
  | .tensor data => do
    ensure (data.shape.length = 1)
      (.typeError "row planes must be contiguous one-dimensional uint8 tensors")
    return data.data.length

/-- `_validate_planes`. -/
def validatePlanes (planes : RowPlanes) (geometry : RowSplitGeometry) :
    Except CodecException Unit := do
  ensure (planes.rows = geometry.n)
    (.valueError ("row planes contain " ++ toString planes.rows ++ " rows, expected " ++
      toString geometry.n))
  let base ← planeLength planes.base
  let high ← planeLength planes.high
  let scale ← planeLength planes.scale
  ensure ((base, high, scale) = (geometry.baseBytes, geometry.highBytes, geometry.scaleBytes))
    (.valueError ("row plane sizes are " ++ toString (base, high, scale) ++ ", expected " ++
      toString (geometry.baseBytes, geometry.highBytes, geometry.scaleBytes)))

/-- The planes in a zeroed buffer. -/
def placePlanes (geometry : RowSplitGeometry) (base high scale : List UInt8) : List UInt8 :=
  let payload := List.replicate geometry.payloadBytes 0
  let payload := setSlice payload 0 geometry.baseBytes base
  let payload :=
    if geometry.highBytes = 0 then payload
    else setSlice payload geometry.highOffset (geometry.highOffset + geometry.highBytes) high
  setSlice payload geometry.scaleOffset (geometry.scaleOffset + geometry.scaleBytes) scale

/-- `assemble_row_planes`. -/
def assembleRowPlanes (planes : RowPlanes) (format : String) (logicalK : Int) :
    Except CodecException Payload := do
  let (spec, _, _) ← groupedFormat format "row plane assembly requires a grouped quantized format"
  let geometry ← lifted (rowSplitGeometry spec [planes.rows, logicalK])
  validatePlanes planes geometry
  let tensorMode := planes.base.isTensor
  ensure (planes.high.isTensor = tensorMode ∧ planes.scale.isTensor = tensorMode)
    (.typeError "row planes must all be tensors or all be byte buffers")
  let payload := placePlanes geometry planes.base.data planes.high.data planes.scale.data
  return if tensorMode then .tensor (Tensor.ofList payload) else .bytes payload

/-- `encode_row_split`. -/
def encodeRowSplit (codes : Tensor (BitVec 8)) (scales : Tensor (BitVec (8 * 2)))
    (format : String) (shape : List Int) : Except CodecException (List UInt8) := do
  let (spec, bits, groupSize) ←
    groupedFormat format "row-split encoding requires a grouped quantized format"
  let geometry ← lifted (rowSplitGeometry spec shape)
  ensure (codes.shape = [geometry.n, geometry.groupsPerRow, groupSize])
    (.typeError ("codes must be int8 with shape " ++
      toString (geometry.n, geometry.groupsPerRow, groupSize)))
  ensure (scales.shape = [geometry.n, geometry.groupsPerRow])
    (.typeError ("scales must be float16 with shape " ++
      toString (geometry.n, geometry.groupsPerRow)))
  let grouped := chunks groupSize codes.data
  let (base, high) := packCodes bits groupSize grouped
  let scaleBytes := scales.data.flatMap fun word => leBytes 2 word.toNat
  let planes : RowPlanes :=
    ⟨.tensor (Tensor.ofList base.flatten), .tensor (Tensor.ofList high.flatten),
      .tensor (Tensor.ofList scaleBytes), geometry.n⟩
  let payload ← assembleRowPlanes planes format geometry.k
  return payload.data

/-- What is decoded: a payload or the planes of one. -/
inductive RowSource
  | payload (payload : Payload)
  | planes (planes : RowPlanes)

/-- `_planes_on_device`. -/
def planesOnDevice (source : RowSource) (geometry : RowSplitGeometry) :
    Except CodecException RowPlanes :=
  match source with
  | .planes planes => do
    validatePlanes planes geometry
    return ⟨.tensor (Tensor.ofList planes.base.data), .tensor (Tensor.ofList planes.high.data),
      .tensor (Tensor.ofList planes.scale.data), planes.rows⟩
  | .payload payload => do
    let length ← payloadLength payload
    ensure (length = geometry.payloadBytes)
      (.valueError ("row-split payload has " ++ toString length ++ " bytes, expected " ++
        toString geometry.payloadBytes))
    splitRowPlanes (.tensor (Tensor.ofList payload.data)) geometry 0 none

/-- `_high_indices`. -/
def highIndices (bits groupSize : Nat) : List Nat × List Nat :=
  if bits = 4 ∨ bits = 8 then ([], [])
  else
    let bitPositions := (List.range groupSize).map (· * (bits - 4))
    (bitPositions.map (· / 8), bitPositions.map (· % 8))

/-- The bits above the low nibbles, at the byte indices and shifts of `_high_indices`. -/
def upperCodes (highBytes mask : Nat) (indices shifts : List Nat) (groups : Nat)
    (high : List UInt8) : Except CodecException (List (List Nat)) := do
  let rows ← reshapeRows groups highBytes high
  let selected ← selectColumns highBytes indices rows
  return selected.map fun row => List.zipWith (fun byte shift => byte.toNat >>> shift &&& mask) row
    shifts

/-- The unsigned codes of low nibbles and the bits above them. -/
def joinCodes (low upper : List (List Nat)) : List (List Nat) :=
  List.zipWith (List.zipWith fun low upper => low ||| upper <<< 4) low upper

/-- `torch.where((unsigned & sign) != 0, unsigned - modulus, unsigned)`. -/
def signedCode (sign modulus unsigned : Nat) : Int :=
  if unsigned &&& sign ≠ 0 then unsigned - modulus else unsigned

/-- `low[:, 0::2] = even` and `low[:, 1::2] = odd`. -/
def interleave (even odd : List Nat) : List Nat :=
  (even.zip odd).flatMap fun pair => [pair.1, pair.2]

/-- The unsigned codes of fewer than eight bits, within `_unpack_codes`. -/
def unpackUnsigned (base high : List UInt8) (bits groupSize : Nat) (geometry : RowSplitGeometry) :
    Except CodecException (List (List Nat)) := do
  let groups := geometry.n * geometry.groupsPerRow
  let packed ← reshapeRows groups geometry.baseBytesPerGroup base
  let low := packed.map fun row =>
    interleave (row.map fun byte => byte.toNat &&& 0x0F)
      (row.map fun byte => byte.toNat >>> 4 &&& 0x0F)
  if bits = 4 then return low
  else do
    let (indices, shifts) := highIndices bits groupSize
    let upper ← upperCodes geometry.highBytesPerGroup (1 <<< (bits - 4) - 1) indices shifts groups
      high
    return joinCodes low upper

/-- `_unpack_codes`. -/
def unpackCodes (planes : RowPlanes) (bits groupSize : Nat) (geometry : RowSplitGeometry) :
    Except CodecException (Tensor (BitVec (8 * 2)) × Tensor (BitVec 8)) := do
  let scales ← reshapeTo [geometry.n, geometry.groupsPerRow]
    (Tensor.ofList (leWords 2 planes.scale.data))
  let shape := [geometry.n, geometry.groupsPerRow, groupSize]
  if bits = 8 then do
    let codes ← reshapeTo shape (Tensor.ofList (planes.base.data.map UInt8.toBitVec))
    return (scales, codes)
  else do
    let unsigned ← unpackUnsigned planes.base.data planes.high.data bits groupSize geometry
    let signed := unsigned.map fun group => group.map (signedCode (1 <<< (bits - 1)) (1 <<< bits))
    let codes ← reshapeTo shape (Tensor.ofList (signed.flatten.map (BitVec.ofInt 8)))
    return (scales, codes)

/-- `decode_row_split_codes`. -/
def decodeRowSplitCodes (source : RowSource) (format : String) (shape : List Int) :
    Except CodecException (Tensor (BitVec (8 * 2)) × Tensor (BitVec 8)) := do
  let (spec, bits, groupSize) ←
    groupedFormat format "row-split decoding requires a grouped quantized format"
  let geometry ← lifted (rowSplitGeometry spec shape)
  let planes ← planesOnDevice source geometry
  unpackCodes planes bits groupSize geometry

/-- `_low_g64`. -/
def lowG64 (base : List UInt8) (groups : Nat) : Except CodecException (List (List Nat)) := do
  let packed ← reshapeRows groups 32 base
  return packed.map fun row =>
    row.flatMap fun byte => [byte.toNat &&& 0x0F, byte.toNat >>> 4 &&& 0x0F]

/-- The codes of a dequantizer before it multiplies them with the scales. -/
abbrev Dequantized := List (List Int) × List (BitVec (8 * 2))

/-- `_dequant4`. -/
def dequant4 (base _high scale : List UInt8) (_indices _shifts : List Nat) :
    Except CodecException Dequantized := do
  let scales := leWords 2 scale
  let unsigned ← lowG64 base scales.length
  return (unsigned.map fun group => group.map (signedCode 8 16), scales)

/-- `_dequant5` and `_dequant6`: the bytes of a group above the low nibbles, the mask, the sign and
the modulus. -/
def dequantHigh (highBytes mask sign modulus : Nat) (base high scale : List UInt8)
    (indices shifts : List Nat) : Except CodecException Dequantized := do
  let scales := leWords 2 scale
  let groups := scales.length
  let upper ← upperCodes highBytes mask indices shifts groups high
  let low ← lowG64 base groups
  let unsigned := joinCodes low upper
  return (unsigned.map fun group => group.map (signedCode sign modulus), scales)

/-- `_dequant5`. -/
def dequant5 (base high scale : List UInt8) (indices shifts : List Nat) :
    Except CodecException Dequantized :=
  dequantHigh 8 1 16 32 base high scale indices shifts

/-- `_dequant6`. -/
def dequant6 (base high scale : List UInt8) (indices shifts : List Nat) :
    Except CodecException Dequantized :=
  dequantHigh 16 3 32 64 base high scale indices shifts

/-- `_dequant8`. -/
def dequant8 (base _high scale : List UInt8) (_indices _shifts : List Nat) :
    Except CodecException Dequantized := do
  let scales := leWords 2 scale
  let codes ← reshapeRows scales.length (base.length / scales.length)
    (base.map fun byte => byte.toBitVec.toInt)
  return (codes, scales)

/-- `_EAGER_DEQUANTIZERS`, on the planes and with the indices that `dequantize_row_split` takes. -/
def eagerDequantizer (planes : RowPlanes) (bits groupSize : Nat) :
    Except CodecException Dequantized :=
  let (indices, shifts) := highIndices bits groupSize
  let base := planes.base.data
  let high := planes.high.data
  let scale := planes.scale.data
  if bits = 4 then dequant4 base high scale indices shifts
  else if bits = 5 then dequant5 base high scale indices shifts
  else if bits = 6 then dequant6 base high scale indices shifts
  else dequant8 base high scale indices shifts

end Ninfer.Artifact.Tools
