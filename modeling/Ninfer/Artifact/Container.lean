import Ninfer.Artifact.Layouts
import Ninfer.Commons.Json

/-!
# The artifact container of the converter

`tools/artifact/container.py`: an artifact is a prefix, a JSON directory of its objects padded to
4096 bytes, and the payloads of the objects, each at an aligned offset. The writer plans the
objects, writes the directory and then one payload after another; the reader checks the directory
and the ranges. A file is the list of its bytes. The JSON parser is a parameter.

## Main definitions

* `planObjects`: the objects of an inventory with their offsets
* `encodeDirectory`, `parseDirectory`: the directory and its validation
* `openArtifact`: the reader
* `writeArtifact`: the writer, from the inventory and the payloads to the bytes of the file
-/

namespace Ninfer.Artifact.Tools

/-- `MAGIC`. -/
def magic : List UInt8 := [78, 73, 78, 70, 69, 82, 0, 2]

/-- `_V1_MAGIC`. -/
def v1Magic : List UInt8 := [78, 73, 78, 70, 69, 82, 0, 1]

/-- `PREFIX_BYTES`. -/
def prefixBytes : Nat := 16

/-- `PAYLOAD_ALIGNMENT`. -/
def payloadAlignment : Nat := 4096

/-- `RAW_BYTES_V1`. -/
def rawBytesV1 : String := "raw-bytes-v1"

/-- The eight little-endian bytes of a 64-bit word. -/
def packWord (value : Nat) : List UInt8 :=
  (List.range 8).map fun i => UInt8.ofNat (value / 256 ^ i)

/-- The word of little-endian bytes. -/
def unpackWord (bytes : List UInt8) : Nat :=
  bytes.foldr (fun byte rest => byte.toNat + 256 * rest) 0

/-- `PREFIX.pack`, which takes a word of 64 bits. -/
def packPrefix (magic : List UInt8) (jsonBytes : Nat) : Except PyException (List UInt8) := do
  ensure (jsonBytes < U64.size) .structError
  return magic ++ packWord jsonBytes

/-- `ArtifactIdentity`. -/
structure ArtifactIdentity where
  modelId : String
  weightsId : String
  deriving DecidableEq, Repr

/-- `TensorSpec`. -/
structure TensorSpec where
  name : String
  shape : List Int
  format : String
  layout : String
  deriving DecidableEq, Repr

/-- `ResourceSpec`. -/
structure ResourceSpec where
  name : String
  encoding : String
  bytes : Int
  deriving DecidableEq, Repr

/-- `ObjectSpec`. -/
inductive ObjectSpec
  | tensor (spec : TensorSpec)
  | resource (spec : ResourceSpec)
  deriving DecidableEq, Repr

/-- The name of a specification. -/
def ObjectSpec.name : ObjectSpec → String
  | tensor spec => spec.name
  | resource spec => spec.name

/-- `TensorObject`. -/
structure TensorObject where
  name : String
  shape : List Nat
  format : String
  layout : String
  offset : Nat
  bytes : Nat
  deriving DecidableEq, Repr

/-- `ResourceObject`. -/
structure ResourceObject where
  name : String
  encoding : String
  offset : Nat
  bytes : Nat
  deriving DecidableEq, Repr

/-- `ArtifactObject`. -/
inductive ArtifactObject
  | tensor (object : TensorObject)
  | resource (object : ResourceObject)
  deriving DecidableEq, Repr

namespace ArtifactObject

/-- The name of an object. -/
def name : ArtifactObject → String
  | tensor object => object.name
  | resource object => object.name

/-- The offset of an object from the start of the payload. -/
def offset : ArtifactObject → Nat
  | tensor object => object.offset
  | resource object => object.offset

/-- The size of an object. -/
def bytes : ArtifactObject → Nat
  | tensor object => object.bytes
  | resource object => object.bytes

/-- `to_json`. -/
def toJson : ArtifactObject → Json
  | tensor object =>
    .obj [("name", .str object.name), ("kind", .str "tensor"),
      ("shape", .arr (object.shape.map fun (dim : Nat) => .int dim)), ("format", .str object.format),
      ("layout", .str object.layout), ("offset", .int object.offset),
      ("bytes", .int object.bytes)]
  | resource object =>
    .obj [("name", .str object.name), ("kind", .str "resource"),
      ("encoding", .str object.encoding), ("offset", .int object.offset),
      ("bytes", .int object.bytes)]

end ArtifactObject

/-- `_require_string`, of a Python string. -/
def requireText (value field : String) : Except PyException String := do
  ensure (value ≠ "") (.artifactError (field ++ " must be a nonempty string"))
  return value

/-- `_require_integer`, of a Python integer. -/
def requireInteger (value : Int) (field : String) (positive : Bool) : Except PyException Nat := do
  ensure ((if positive then 1 else 0) ≤ value)
    (.artifactError (field ++ " must be " ++ if positive then "positive" else "nonnegative"))
  return value.toNat

/-- `_require_string`, of a JSON value. -/
def requireString (value : Json) (field : String) : Except PyException String :=
  match value with
  | .str text => requireText text field
  | _ => .error (.artifactError (field ++ " must be a nonempty string"))

/-- `_require_integer`, of a JSON value. -/
def requireJsonInteger (value : Json) (field : String) (positive : Bool) :
    Except PyException Nat :=
  match value with
  | .int n => requireInteger n field positive
  | _ => .error (.artifactError (field ++ " must be an integer"))

/-- `_require_shape`. -/
def requireShape (value : Json) : Except PyException (List Nat) :=
  match value with
  | .arr dims => dims.mapM fun dim => requireJsonInteger dim "shape dimension" true
  | _ => .error (.artifactError "tensor shape must be an array")

/-- `_resource_alignment`. -/
def resourceAlignment (encoding : String) : Except PyException Nat := do
  ensure (encoding = rawBytesV1) (.artifactError ("unknown resource encoding: " ++ encoding))
  return 1

/-- `object_alignment`. -/
def objectAlignment : ArtifactObject → Except PyException Nat
  | .tensor object => do
    let layout ← getLayout object.layout
    return layout.alignment
  | .resource object => resourceAlignment object.encoding

/-- The object `plan_objects` makes of a specification at a cursor. -/
def planObject (cursor : Nat) : ObjectSpec → Except PyException ArtifactObject
  | .tensor spec => do
    let shape ← spec.shape.mapM fun dim => requireInteger dim "shape dimension" true
    let layoutName ← requireText spec.layout "tensor layout"
    let layout ← getLayout layoutName
    let payloadBytes ← encodedSize layout.name spec.format (shape.map Int.ofNat)
    let offset := alignUp cursor layout.alignment
    let format ← requireText spec.format "tensor format"
    return .tensor ⟨spec.name, shape, format, layout.name, offset, payloadBytes⟩
  | .resource spec => do
    let encoding ← requireText spec.encoding "resource encoding"
    let alignment ← resourceAlignment encoding
    let payloadBytes ← requireInteger spec.bytes "resource bytes" true
    let offset := alignUp cursor alignment
    return .resource ⟨spec.name, encoding, offset, payloadBytes⟩

/-- The loop of `plan_objects`, from a cursor and the names already taken. -/
def planFrom (cursor : Nat) (names : List String) :
    List ObjectSpec → Except PyException (List ArtifactObject)
  | [] => .ok []
  | spec :: specs => do
    let name ← requireText spec.name "object name"
    ensure (name ∉ names) (.artifactError ("duplicate object name: " ++ name))
    let object ← planObject cursor spec
    let objects ← planFrom (object.offset + object.bytes) (name :: names) specs
    return object :: objects

/-- `plan_objects`. -/
def planObjects (specs : List ObjectSpec) : Except PyException (List ArtifactObject) := do
  ensure (specs ≠ []) (.artifactError "artifact inventory must not be empty")
  planFrom 0 [] specs

/-- `_require_identity`. -/
def requireIdentity (identity : ArtifactIdentity) : Except PyException ArtifactIdentity := do
  let modelId ← requireText identity.modelId "model_id"
  let weightsId ← requireText identity.weightsId "weights_id"
  return ⟨modelId, weightsId⟩

/-- The document of a directory. -/
def directoryJson (identity : ArtifactIdentity) (objects : List ArtifactObject) : Json :=
  .obj [("identity",
      .obj [("model_id", .str identity.modelId), ("weights_id", .str identity.weightsId)]),
    ("objects", .arr (objects.map ArtifactObject.toJson))]

/-- `encode_directory`. -/
def encodeDirectory (identity : ArtifactIdentity) (objects : List ArtifactObject) :
    Except PyException (List UInt8) := do
  let checkedIdentity ← requireIdentity identity
  ensure (objects ≠ []) (.artifactError "objects must not be empty")
  return utf8 ((directoryJson checkedIdentity objects).dumps [','] [':'])

/-- `_TENSOR_MEMBERS`. -/
def tensorMembers : List String :=
  ["name", "kind", "shape", "format", "layout", "offset", "bytes"]

/-- `_RESOURCE_MEMBERS`. -/
def resourceMembers : List String := ["name", "kind", "encoding", "offset", "bytes"]

/-- The call of `encoded_size` in `_parse_object`, whose exceptions become `ArtifactError`. -/
def parsedSize (layout format : String) (shape : List Nat) : Except PyException Nat :=
  match encodedSize layout format (shape.map Int.ofNat) with
  | .ok size => .ok size
  | .error cause => .error (.artifactErrorFrom cause)

/-- `_parse_object` of a tensor. -/
def parseTensor (value : Json) : Except PyException ArtifactObject := do
  ensure (value.hasMembers tensorMembers)
    (.artifactError "tensor entry has missing or extra members")
  let name ← requireString (value.member "name") "tensor name"
  let shape ← requireShape (value.member "shape")
  let format ← requireString (value.member "format") "tensor format"
  let layout ← requireString (value.member "layout") "tensor layout"
  let offset ← requireJsonInteger (value.member "offset") "tensor offset" false
  let payloadBytes ← requireJsonInteger (value.member "bytes") "tensor bytes" true
  let expected ← parsedSize layout format shape
  ensure (payloadBytes = expected)
    (.artifactError ("tensor " ++ name ++ " stores " ++ toString payloadBytes ++
      " bytes; layout requires " ++ toString expected))
  return .tensor ⟨name, shape, format, layout, offset, payloadBytes⟩

/-- `_parse_object` of a resource. -/
def parseResource (value : Json) : Except PyException ArtifactObject := do
  ensure (value.hasMembers resourceMembers)
    (.artifactError "resource entry has missing or extra members")
  let name ← requireString (value.member "name") "resource name"
  let encoding ← requireString (value.member "encoding") "resource encoding"
  let _ ← resourceAlignment encoding
  let offset ← requireJsonInteger (value.member "offset") "resource offset" false
  let payloadBytes ← requireJsonInteger (value.member "bytes") "resource bytes" true
  return .resource ⟨name, encoding, offset, payloadBytes⟩

/-- `_parse_object`. -/
def parseObject (value : Json) : Except PyException ArtifactObject :=
  match value with
  | .obj members =>
    match (Json.obj members).member "kind" with
    | .str "tensor" => parseTensor (.obj members)
    | .str "resource" => parseResource (.obj members)
    | _ => .error (.artifactError "object kind must be 'tensor' or 'resource'")
  | _ => .error (.artifactError "each object entry must be a JSON object")

/-- The loop of `parse_directory` over the names. -/
def checkNames (names : List String) : List ArtifactObject → Except PyException Unit
  | [] => .ok ()
  | object :: objects => do
    ensure (object.name ∉ names) (.artifactError ("duplicate object name: " ++ object.name))
    checkNames (object.name :: names) objects

/-- The objects of a directory. -/
def parseObjects (value : Json) : Except PyException (List ArtifactObject) :=
  match value with
  | .arr items => do
    ensure (items ≠ []) (.artifactError "objects must be a nonempty array")
    let objects ← items.mapM parseObject
    checkNames [] objects
    return objects
  | _ => .error (.artifactError "objects must be a nonempty array")

/-- `parse_directory`. The parser fails on bytes that are not a JSON text in UTF-8; what it says of
them is not part of the exception here. -/
def parseDirectory (loads : List UInt8 → Option Json) (data : List UInt8) :
    Except PyException (ArtifactIdentity × List ArtifactObject) :=
  match loads data with
  | none => .error (.artifactError "invalid JSON directory")
  | some value => do
    ensure (value.hasMembers ["identity", "objects"])
      (.artifactError "directory root must contain exactly identity and objects")
    let rawIdentity := value.member "identity"
    ensure (rawIdentity.hasMembers ["model_id", "weights_id"])
      (.artifactError "artifact identity must contain exactly model_id and weights_id")
    let modelId ← requireString (rawIdentity.member "model_id") "model_id"
    let weightsId ← requireString (rawIdentity.member "weights_id") "weights_id"
    let objects ← parseObjects (value.member "objects")
    return (⟨modelId, weightsId⟩, objects)

/-- `_validate_ranges`, from a cursor. The index by name is left out: `Artifact.find` is not used
by the migration. -/
def validateRanges (payloadBytes : Nat) (cursor : Nat) :
    List ArtifactObject → Except PyException Unit
  | [] => .ok ()
  | object :: objects => do
    let alignment ← objectAlignment object
    ensure (cursor ≤ object.offset)
      (.artifactError ("object " ++ object.name ++ " overlaps or is out of order"))
    ensure (object.offset % alignment = 0)
      (.artifactError ("object " ++ object.name ++ " is not " ++ toString alignment ++
        "-byte aligned"))
    let stop := object.offset + object.bytes
    ensure (stop ≤ payloadBytes)
      (.artifactError ("object " ++ object.name ++ " extends beyond the file"))
    validateRanges payloadBytes stop objects

/-- `Artifact`: an opened artifact. The mapping behind it is left out. -/
structure OpenArtifact where
  fileBytes : Nat
  payloadOffset : Nat
  identity : ArtifactIdentity
  objects : List ArtifactObject
  deriving DecidableEq, Repr

/-- `Artifact.__init__`. -/
def openArtifact (loads : List UInt8 → Option Json) (file : List UInt8) :
    Except PyException OpenArtifact := do
  ensure (prefixBytes ≤ file.length) (.artifactError "artifact is shorter than the v2 prefix")
  ensure (file.take 8 ≠ v1Magic)
    (.artifactError ("NInfer artifact v1 is no longer supported; migrate it with: " ++
      "python3 -m tools.artifact.migrate_v1_to_v2 <artifact>"))
  ensure (file.take 8 = magic) (.artifactError "artifact magic is not NInfer v2")
  let jsonBytes := unpackWord ((file.drop 8).take 8)
  ensure (jsonBytes ≠ 0) (.artifactError "json_bytes must be positive")
  let metadataEnd := prefixBytes + jsonBytes
  let payloadOffset := alignUp metadataEnd payloadAlignment
  ensure (metadataEnd ≤ file.length ∧ payloadOffset ≤ file.length)
    (.artifactError "declared JSON or payload start extends beyond the file")
  let (identity, objects) ← parseDirectory loads ((file.drop prefixBytes).take jsonBytes)
  validateRanges (file.length - payloadOffset) 0 objects
  return ⟨file.length, payloadOffset, identity, objects⟩

/-- `ArtifactWriter`: the plan, the file so far, the next object and the cursor. -/
structure ArtifactWriter where
  objects : List ArtifactObject
  payloadOffset : Nat
  file : List UInt8
  next : Nat
  cursor : Nat
  deriving DecidableEq, Repr

namespace ArtifactWriter

/-- `ArtifactWriter.__init__`. -/
def new (identity : ArtifactIdentity) (specs : List ObjectSpec) :
    Except PyException ArtifactWriter := do
  let identity ← requireIdentity identity
  let objects ← planObjects specs
  let directory ← encodeDirectory identity objects
  let payloadOffset := alignUp (prefixBytes + directory.length) payloadAlignment
  let header ← packPrefix magic directory.length
  let padding := List.replicate (payloadOffset - prefixBytes - directory.length) 0
  return ⟨objects, payloadOffset, header ++ directory ++ padding, 0, 0⟩

/-- The loop of `write` over the chunks of a payload: the file and the bytes written. -/
def writeChunks (name : String) (bytes : Nat) :
    List UInt8 → Nat → List (List UInt8) → Except PyException (List UInt8 × Nat)
  | file, written, [] => .ok (file, written)
  | file, written, chunk :: chunks => do
    ensure (written + chunk.length ≤ bytes)
      (.artifactError ("payload " ++ name ++ " exceeds its planned byte length"))
    writeChunks name bytes (file ++ chunk) (written + chunk.length) chunks

/-- `ArtifactWriter.write`, of a payload in chunks. -/
def write (writer : ArtifactWriter) (name : String) (payload : List (List UInt8)) :
    Except PyException ArtifactWriter :=
  match writer.objects[writer.next]? with
  | none => .error (.artifactError "artifact already has every planned payload")
  | some object => do
    ensure (name = object.name)
      (.artifactError ("expected payload " ++ object.name ++ ", got " ++ name))
    let gap := List.replicate (object.offset - writer.cursor) 0
    let (file, written) ← writeChunks name object.bytes (writer.file ++ gap) 0 payload
    ensure (written = object.bytes)
      (.artifactError ("payload " ++ name ++ " has " ++ toString written ++ " bytes; expected " ++
        toString object.bytes))
    return { writer with
      file := file
      cursor := object.offset + object.bytes
      next := writer.next + 1 }

/-- `file.truncate`. -/
def truncate (file : List UInt8) (size : Nat) : List UInt8 :=
  file.take size ++ List.replicate (size - file.length) 0

/-- `ArtifactWriter.finish`. -/
def finish (writer : ArtifactWriter) : Except PyException (List UInt8) :=
  match writer.objects[writer.next]? with
  | some missing => .error (.artifactError ("artifact is missing payload " ++ missing.name))
  | none => .ok (truncate writer.file (writer.payloadOffset + writer.cursor))

/-- The loop of `write_artifact` over the entries. -/
def writeAll (writer : ArtifactWriter) :
    List (ObjectSpec × List (List UInt8)) → Except PyException ArtifactWriter
  | [] => .ok writer
  | (spec, payload) :: entries => do
    let writer ← writer.write spec.name payload
    writer.writeAll entries

end ArtifactWriter

/-- `write_artifact`: the planned objects and the bytes of the file. -/
def writeArtifact (identity : ArtifactIdentity) (entries : List (ObjectSpec × List (List UInt8))) :
    Except PyException (List ArtifactObject × List UInt8) := do
  let writer ← ArtifactWriter.new identity (entries.map Prod.fst)
  let writer ← writer.writeAll entries
  let file ← writer.finish
  return (writer.objects, file)

end Ninfer.Artifact.Tools
