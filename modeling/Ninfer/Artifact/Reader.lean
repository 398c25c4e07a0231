import Ninfer.Artifact.StorageLayouts
import Ninfer.Commons.Json

/-!
# The artifact reader of the engine

`artifact/reader.cpp`: the prefix, the directory and the ranges of its objects, all checked on
`std::uint64_t`. A mapped file is the list of its bytes; opening and mapping it, and direct reads,
are left out. The JSON parser is a parameter.

## Main definitions

* `parseObject`: the descriptor of a directory entry
* `Reader.openFile`: the reader of a file
* `Reader.payload`, `Reader.payloadByName`: the bytes of an object
-/

namespace Ninfer.Artifact

/-- `kMagic`. -/
def kMagic : List UInt8 := [78, 73, 78, 70, 69, 82, 0, 2]

/-- `kV1Magic`. -/
def kV1Magic : List UInt8 := [78, 73, 78, 70, 69, 82, 0, 1]

/-- `kPrefixBytes`. -/
def kPrefixBytes : Nat := 16

/-- `kPayloadAlignment`. -/
def kPayloadAlignment : Nat := 4096

/-- `read_u64_le`. -/
def readU64Le (data : List UInt8) : Nat :=
  (List.range 8).foldl (fun value i => value ||| (data.getD i 0).toNat <<< (i * 8)) 0

/-- `require_members`. -/
def requireMembers (value : Json) (members : List String) (label : String) :
    Except ArtifactError Unit :=
  match value with
  | .obj fields => do
    ensure (fields.length = members.length) ⟨label ++ " has missing or extra members"⟩
    ensure (∀ name ∈ members, name ∈ fields.map Prod.fst)
      ⟨label ++ " has missing or extra members"⟩
  | _ => .error ⟨label ++ " has missing or extra members"⟩

/-- `require_string`. -/
def requireString (value : Json) (label : String) : Except ArtifactError String :=
  match value with
  | .str text => do
    ensure (text ≠ "") ⟨label ++ " must be a nonempty string"⟩
    return text
  | _ => .error ⟨label ++ " must be a nonempty string"⟩

/-- `require_unsigned`. The parser makes an unsigned number of an integer that is not negative and
fits 64 bits. -/
def requireUnsigned (value : Json) (label : String) (positive : Bool) :
    Except ArtifactError Nat :=
  match value with
  | .int n => do
    ensure (0 ≤ n ∧ n < U64.size) ⟨label ++ " must be an integer"⟩
    ensure (positive = true → n ≠ 0) ⟨label ++ " must be positive"⟩
    return n.toNat
  | _ => .error ⟨label ++ " must be an integer"⟩

/-- `parse_format`. -/
def parseFormat (name : String) : Except ArtifactError NumericFormat :=
  match name with
  | "BF16" => .ok .bf16
  | "FP32" => .ok .fp32
  | "I32" => .ok .i32
  | "Q4G64_F16S" => .ok .q4g64F16s
  | "Q5G64_F16S" => .ok .q5g64F16s
  | "Q6G64_F16S" => .ok .q6g64F16s
  | "W8G32_F16S" => .ok .w8g32F16s
  | "NVFP4" => .ok .nvfp4
  | "FP8_E4M3FN_ROW_BF16S" => .ok .fp8E4m3fnRowBf16s
  | name => .error ⟨"unknown tensor format: " ++ name⟩

/-- `parse_layout`. -/
def parseLayout (name : String) : Except ArtifactError StorageLayout :=
  match name with
  | "contiguous-le-v1" => .ok .contiguousLeV1
  | "row-split-k128-v1" => .ok .rowSplitK128V1
  | "blockscale-k16-m128x4-v1" => .ok .blockScaleK16M128x4V1
  | "row-scale-v1" => .ok .rowScaleV1
  | name => .error ⟨"unknown tensor layout: " ++ name⟩

/-- `parse_encoding`. -/
def parseEncoding (name : String) : Except ArtifactError ResourceEncoding :=
  match name with
  | "raw-bytes-v1" => .ok .rawBytesV1
  | name => .error ⟨"unknown resource encoding: " ++ name⟩

/-- `TensorDescriptor`. -/
structure TensorDescriptor where
  name : String
  shape : List Nat
  format : NumericFormat
  layout : StorageLayout
  offset : Nat
  bytes : Nat
  deriving DecidableEq, Repr

/-- `ResourceDescriptor`. -/
structure ResourceDescriptor where
  name : String
  encoding : ResourceEncoding
  offset : Nat
  bytes : Nat
  deriving DecidableEq, Repr

/-- `ObjectDescriptor`. -/
inductive ObjectDescriptor
  | tensor (descriptor : TensorDescriptor)
  | resource (descriptor : ResourceDescriptor)
  deriving DecidableEq, Repr

/-- `object_name`. -/
def objectName : ObjectDescriptor → String
  | .tensor descriptor => descriptor.name
  | .resource descriptor => descriptor.name

/-- `object_offset`. -/
def objectOffset : ObjectDescriptor → Nat
  | .tensor descriptor => descriptor.offset
  | .resource descriptor => descriptor.offset

/-- `object_bytes`. -/
def objectBytes : ObjectDescriptor → Nat
  | .tensor descriptor => descriptor.bytes
  | .resource descriptor => descriptor.bytes

/-- The alignment of an object. -/
def objectAlignment : ObjectDescriptor → Nat
  | .tensor descriptor => tensorAlignment descriptor.layout
  | .resource descriptor => resourceAlignment descriptor.encoding

/-- The dimensions of a shape. -/
def parseShape (value : Json) : Except ArtifactError (List Nat) :=
  match value with
  | .arr dims => dims.mapM fun dim => requireUnsigned dim "shape dimension" true
  | _ => .error ⟨"tensor shape must be an array"⟩

/-- `parse_tensor`. -/
def parseTensor (value : Json) : Except ArtifactError ObjectDescriptor := do
  requireMembers value ["name", "kind", "shape", "format", "layout", "offset", "bytes"]
    "tensor entry"
  let name ← requireString (value.member "name") "tensor name"
  let formatText ← requireString (value.member "format") "tensor format"
  let format ← parseFormat formatText
  let layoutText ← requireString (value.member "layout") "tensor layout"
  let layout ← parseLayout layoutText
  let offset ← requireUnsigned (value.member "offset") "tensor offset" false
  let storedSize ← requireUnsigned (value.member "bytes") "tensor bytes" true
  let shape ← parseShape (value.member "shape")
  let expectedSize ← tensorEncodedSize layout format shape
  ensure (storedSize = expectedSize)
    ⟨"tensor " ++ name ++ " stores " ++ toString storedSize ++ " bytes; layout requires " ++
      toString expectedSize⟩
  return .tensor ⟨name, shape, format, layout, offset, storedSize⟩

/-- `parse_resource`. -/
def parseResource (value : Json) : Except ArtifactError ObjectDescriptor := do
  requireMembers value ["name", "kind", "encoding", "offset", "bytes"] "resource entry"
  let name ← requireString (value.member "name") "resource name"
  let encodingText ← requireString (value.member "encoding") "resource encoding"
  let encoding ← parseEncoding encodingText
  let offset ← requireUnsigned (value.member "offset") "resource offset" false
  let bytes ← requireUnsigned (value.member "bytes") "resource bytes" true
  return .resource ⟨name, encoding, offset, bytes⟩

/-- `parse_object`. -/
def parseObject (value : Json) : Except ArtifactError ObjectDescriptor :=
  match value with
  | .obj members =>
    match (Json.obj members).member "kind" with
    | .str "tensor" => parseTensor (.obj members)
    | .str "resource" => parseResource (.obj members)
    | _ => .error ⟨"object kind must be 'tensor' or 'resource'"⟩
  | _ => .error ⟨"each object entry must be a JSON object"⟩

/-- `ArtifactIdentity`. -/
structure ArtifactIdentity where
  modelId : String
  weightsId : String
  deriving DecidableEq, Repr

/-- `Reader`: the file, what was read of its directory and the index by name. -/
structure Reader where
  file : List UInt8
  identity : ArtifactIdentity
  entries : List ObjectDescriptor
  index : List (String × Nat)
  payloadStart : Nat
  deriving DecidableEq, Repr

/-- The entries and the index built so far. -/
structure Entries where
  entries : List ObjectDescriptor
  index : List (String × Nat)
  deriving DecidableEq, Repr

/-- The loop of `Reader::Impl` over the directory, from a cursor. -/
def readObjects (payloadBytes : Nat) :
    Nat → Entries → List Json → Except ArtifactError Entries
  | _, read, [] => .ok read
  | cursor, read, rawObject :: rawObjects => do
    let object ← parseObject rawObject
    ensure (cursor ≤ objectOffset object)
      ⟨"object " ++ objectName object ++ " overlaps or is out of order"⟩
    ensure (objectOffset object % objectAlignment object = 0)
      ⟨"object " ++ objectName object ++ " is not " ++ toString (objectAlignment object) ++
        "-byte aligned"⟩
    let stop ← checkedAdd (objectOffset object) (objectBytes object) "object payload range"
    ensure (stop ≤ payloadBytes)
      ⟨"object " ++ objectName object ++ " extends beyond the file"⟩
    ensure (objectName object ∉ read.index.map Prod.fst)
      ⟨"duplicate object name: " ++ objectName object⟩
    readObjects payloadBytes stop
      ⟨read.entries ++ [object], read.index ++ [(objectName object, read.entries.length)]⟩
      rawObjects

/-- The `objects` of a directory. -/
def requireObjects (value : Json) : Except ArtifactError (List Json) :=
  match value with
  | .arr items => do
    ensure (items ≠ []) ⟨"objects must be a nonempty array"⟩
    return items
  | _ => .error ⟨"objects must be a nonempty array"⟩

namespace Reader

/-- The directory of a file whose payload starts at `payloadStart`. -/
def readDirectory (file : List UInt8) (payloadStart : Nat) (directory : Json) :
    Except ArtifactError Reader := do
  requireMembers directory ["identity", "objects"] "directory root"
  let rawIdentity := directory.member "identity"
  requireMembers rawIdentity ["model_id", "weights_id"] "artifact identity"
  let modelId ← requireString (rawIdentity.member "model_id") "model_id"
  let weightsId ← requireString (rawIdentity.member "weights_id") "weights_id"
  let rawObjects ← requireObjects (directory.member "objects")
  let read ← readObjects (file.length - payloadStart) 0 ⟨[], []⟩ rawObjects
  return ⟨file, ⟨modelId, weightsId⟩, read.entries, read.index, payloadStart⟩

/-- `Reader::Reader`. What the parser says of a text it rejects is not part of the error here. -/
def openFile (parse : List UInt8 → Option Json) (file : List UInt8) :
    Except ArtifactError Reader := do
  ensure (file.length ≤ U64.size - 1)
    ⟨"artifact size does not fit the process address space"⟩
  ensure (kPrefixBytes ≤ file.length) ⟨"artifact is shorter than the v2 prefix"⟩
  ensure (file.take 8 ≠ kV1Magic)
    ⟨"NInfer artifact v1 is no longer supported; migrate it with: " ++
      "python3 -m tools.artifact.migrate_v1_to_v2 <artifact>"⟩
  ensure (file.take 8 = kMagic) ⟨"artifact magic is not NInfer v2"⟩
  let jsonBytes := readU64Le (file.drop 8)
  ensure (jsonBytes ≠ 0) ⟨"json_bytes must be positive"⟩
  let metadataEnd ← checkedAdd kPrefixBytes jsonBytes "JSON range"
  let payloadStart ← alignUp metadataEnd kPayloadAlignment "payload offset"
  ensure (metadataEnd ≤ file.length ∧ payloadStart ≤ file.length)
    ⟨"declared JSON or payload start extends beyond the file"⟩
  match parse ((file.drop kPrefixBytes).take jsonBytes) with
  | none => .error ⟨"invalid JSON directory"⟩
  | some directory => readDirectory file payloadStart directory

/-- `Reader::find`. -/
def find (reader : Reader) (name : String) : Option ObjectDescriptor :=
  match reader.index.lookup name with
  | some i => reader.entries[i]?
  | none => none

/-- `PayloadSpan`. -/
structure PayloadSpan where
  absoluteOffset : Nat
  data : List UInt8
  deriving DecidableEq, Repr

/-- `Reader::payload` of a descriptor. -/
def payload (reader : Reader) (object : ObjectDescriptor) : Except ArtifactError PayloadSpan := do
  let absolute ← checkedAdd reader.payloadStart (objectOffset object) "absolute payload offset"
  let stop ← checkedAdd absolute (objectBytes object) "absolute payload range"
  ensure (stop ≤ reader.file.length) ⟨"object payload extends beyond the file"⟩
  return ⟨absolute, (reader.file.drop absolute).take (objectBytes object)⟩

/-- `Reader::payload` of a name. -/
def payloadByName (reader : Reader) (name : String) : Except ArtifactError PayloadSpan :=
  match reader.find name with
  | some object => reader.payload object
  | none => .error ⟨"unknown artifact object: " ++ name⟩

end Reader

end Ninfer.Artifact
