import Ninfer.Artifact.Container
import Ninfer.Commons.Crash

/-!
# Migration of a published artifact in place

`tools/artifact/migrate_v1_to_v2.py`: the metadata of a version 1 artifact is rewritten as
version 2 in the same file. The metadata is first copied to a backup file beside it; the backup is
written back when the rewrite fails, and by a later run when one was cut short. A run is the
sequence of its byte writes, of the creation of the backup and of its removal. The JSON parser and
the digest are parameters; messages printed on the way and the calls to `fsync` are left out.

## Main definitions

* `Disk`, `Write`: the artifact and its backup, and the writes a run performs on them
* `Tool`: the parser, the digest and the published artifacts
* `Tool.prepare`: everything the tool checks of a version 1 file before it writes
* `restoreBackup`, `writeBackup`, `Tool.rewrite`, `Tool.verify`: the steps of a run
* `Tool.migrate`: a run
-/

namespace Ninfer.Artifact.Tools

open Crash

/-- The artifact file and the backup file, if there is one. -/
structure Disk where
  file : List UInt8
  backup : Option (List UInt8)
  deriving DecidableEq, Repr

/-- The writes of a run. -/
inductive Write
  | createBackup
  | appendBackup (byte : UInt8)
  | writeFile (position : Nat) (byte : UInt8)
  | unlinkBackup
  deriving DecidableEq, Repr

/-- The disk after a write. -/
def Write.apply : Write → Disk → Disk
  | createBackup, disk => { disk with backup := some [] }
  | appendBackup byte, disk => { disk with backup := disk.backup.map (· ++ [byte]) }
  | writeFile position byte, disk => { disk with file := disk.file.set position byte }
  | unlinkBackup, disk => { disk with backup := none }

instance : Storage Write Disk := ⟨Write.apply⟩

/-- What the tool does on a disk. -/
abbrev Migration := Program Write Disk PyException

/-- The writes of a byte string into the file. -/
def writeBytes (position : Nat) (data : List UInt8) : List Write :=
  data.mapIdx fun i byte => .writeFile (position + i) byte

/-- An entry of a published inventory. -/
inductive InventoryEntry
  | resource (name encoding : String)
  | tensor (name : String) (shape : List Int) (format layout : String)
  deriving DecidableEq, Repr

/-- `PublishedV1Artifact`. -/
structure PublishedV1Artifact where
  modelId : String
  weightsId : String
  sha256 : String
  directorySha256 : String
  inventory : List InventoryEntry
  deriving DecidableEq, Repr

/-- `PublishedV1Artifact.identity`. -/
def PublishedV1Artifact.identity (candidate : PublishedV1Artifact) : ArtifactIdentity :=
  ⟨candidate.modelId, candidate.weightsId⟩

/-- `V1Directory`. -/
structure V1Directory where
  modelId : String
  rawObjects : List Json
  encoded : List UInt8
  payloadOffset : Nat
  fileBytes : Nat

/-- The parser, the digest and the published artifacts a run works with. -/
structure Tool where
  loads : List UInt8 → Option Json
  sha256 : List UInt8 → String
  candidates : List PublishedV1Artifact

/-- The value of a number or a truth value. -/
def number : Json → Option Rat
  | .bool b => some (if b then 1 else 0)
  | .int n => some n
  | .float _ value => value
  | _ => none

mutual

/-- `==` of parsed values: objects are compared by their members in any order, and numbers and
truth values by their value. -/
def pyEq : Json → Json → Bool
  | .null, .null => true
  | .str a, .str b => a == b
  | .arr as, .arr bs => pyEqItems as bs
  | .obj as, .obj bs => as.length == bs.length && pyEqMembers as bs
  | a, b =>
    match number a, number b with
    | some x, some y => x == y
    | _, _ => false

/-- Items pairwise equal. -/
def pyEqItems : List Json → List Json → Bool
  | [], [] => true
  | a :: as, b :: bs => pyEq a b && pyEqItems as bs
  | _, _ => false

/-- Every member has an equal one under the same key. -/
def pyEqMembers : List (String × Json) → List (String × Json) → Bool
  | [], _ => true
  | (key, a) :: as, bs =>
    (match bs.lookup key with
    | some b => pyEq a b
    | none => false) && pyEqMembers as bs

end

/-- `_require_nonempty_string`. -/
def requireNonemptyString (value : Json) (field : String) : Except PyException String :=
  match value with
  | .str text => do
    ensure (text ≠ "") (.migrationError (field ++ " must be a nonempty string"))
    return text
  | _ => .error (.migrationError (field ++ " must be a nonempty string"))

/-- The entries of a version 1 directory. -/
def requireV1Objects (value : Json) : Except PyException (List Json) :=
  match value with
  | .arr items => do
    ensure (items ≠ []) (.migrationError "objects must be a nonempty array")
    ensure (items.all Json.isObj = true)
      (.migrationError "each v1 object entry must be a JSON object")
    return items
  | _ => .error (.migrationError "objects must be a nonempty array")

/-- The root of a version 1 directory: the model and the entries. -/
def parseV1Root (loads : List UInt8 → Option Json) (encoded : List UInt8) :
    Except PyException (String × List Json) :=
  match loads encoded with
  | none => .error (.migrationError "invalid v1 JSON directory")
  | some root => do
    ensure (root.hasMembers ["model_id", "objects"])
      (.migrationError "v1 directory root must contain exactly model_id and objects")
    let modelId ← requireNonemptyString (root.member "model_id") "model_id"
    let objects ← requireV1Objects (root.member "objects")
    return (modelId, objects)

/-- `_read_v1_directory`. -/
def readV1Directory (loads : List UInt8 → Option Json) (file : List UInt8) :
    Except PyException V1Directory := do
  ensure (prefixBytes ≤ file.length)
    (.migrationError "artifact is shorter than the v1 prefix")
  ensure (file.take 8 = v1Magic) (.migrationError "artifact magic is not NInfer v1")
  let jsonBytes := unpackWord ((file.drop 8).take 8)
  ensure (jsonBytes ≠ 0) (.migrationError "json_bytes must be positive")
  let metadataEnd := prefixBytes + jsonBytes
  let payloadOffset := alignUp metadataEnd payloadAlignment
  ensure (metadataEnd ≤ file.length ∧ payloadOffset ≤ file.length)
    (.migrationError "declared JSON or payload start extends beyond the file")
  let encoded := (file.drop prefixBytes).take jsonBytes
  let (modelId, objects) ← parseV1Root loads encoded
  return ⟨modelId, objects, encoded, payloadOffset, file.length⟩

/-- `_candidate_for_model`. -/
def candidateForModel (modelId : String) (candidates : List PublishedV1Artifact) :
    Except PyException PublishedV1Artifact :=
  match candidates.filter fun candidate => candidate.modelId == modelId with
  | [candidate] => .ok candidate
  | _ =>
    .error (.migrationError ("v1 model_id " ++ modelId ++
      " is not one of the two published artifacts"))

/-- `_require_nonnegative_integer` of the size of a resource. -/
def requireResourceBytes (value : Json) : Except PyException Int :=
  match value with
  | .int n => do
    ensure (1 ≤ n) (.migrationError "resource bytes must be a positive integer")
    return n
  | _ => .error (.migrationError "resource bytes must be a positive integer")

/-- The specification of an entry of the inventory, from the entry of the directory beside it. -/
def inventorySpec (position : Nat) (raw : Json) : InventoryEntry → Except PyException ObjectSpec
  | .resource name encoding => do
    ensure (raw.hasMembers resourceMembers)
      (.migrationError ("v1 resource at position " ++ toString position ++
        " has missing or extra members"))
    let payloadBytes ← requireResourceBytes (raw.member "bytes")
    return .resource ⟨name, encoding, payloadBytes⟩
  | .tensor name shape format layout => do
    ensure (raw.hasMembers tensorMembers)
      (.migrationError ("v1 tensor at position " ++ toString position ++
        " has missing or extra members"))
    return .tensor ⟨name, shape, format, layout⟩

/-- The specifications of an inventory, from a position on. -/
def inventorySpecs : Nat → List Json → List InventoryEntry → Except PyException (List ObjectSpec)
  | position, raw :: raws, expected :: rest => do
    let spec ← inventorySpec position raw expected
    let specs ← inventorySpecs (position + 1) raws rest
    return spec :: specs
  | _, _, _ => .ok []

/-- The call of `plan_objects` in `_validate_inventory`, whose exceptions become
`MigrationError`. -/
def planInventory (specs : List ObjectSpec) : Except PyException (List ArtifactObject) :=
  match planObjects specs with
  | .ok planned => .ok planned
  | .error cause => .error (.migrationErrorFrom "v1 object inventory is invalid" cause)

/-- The comparison of the entries of the directory with the planned objects. -/
def compareObjects (modelId : String) :
    Nat → List Json → List ArtifactObject → Except PyException Unit
  | position, raw :: raws, expected :: rest => do
    ensure (pyEq raw expected.toJson = true)
      (.migrationError ("v1 object at position " ++ toString position ++
        " does not match the published " ++ modelId ++ " inventory"))
    compareObjects modelId (position + 1) raws rest
  | _, _, _ => .ok ()

/-- `_validate_inventory`. -/
def validateInventory (directory : V1Directory) (candidate : PublishedV1Artifact) :
    Except PyException (List ArtifactObject) := do
  ensure (directory.rawObjects.length = candidate.inventory.length)
    (.migrationError ("v1 artifact has " ++ toString directory.rawObjects.length ++
      " objects; expected " ++ toString candidate.inventory.length))
  let specs ← inventorySpecs 0 directory.rawObjects candidate.inventory
  let planned ← planInventory specs
  compareObjects candidate.modelId 0 directory.rawObjects planned
  let payloadBytes := directory.fileBytes - directory.payloadOffset
  let last := planned.getLast?
  ensure (∀ object ∈ last, object.offset + object.bytes = payloadBytes)
    (.migrationError "v1 payload length does not match the complete published inventory")
  return planned

/-- What a run has worked out before it writes. -/
structure Plan where
  directory : V1Directory
  candidate : PublishedV1Artifact
  planned : List ArtifactObject
  encoded : List UInt8

/-- `_sha256_file` and the digest of the directory, against those published. -/
def checkDigest (what digest expected : String) : Except PyException Unit :=
  ensure (digest = expected)
    (.migrationError ("v1 " ++ what ++ " SHA-256 is " ++ digest ++ "; expected " ++ expected))

/-- The part of `_migrate` between the recovery and the first write. The file is read in full, so
its metadata is as long as the payload offset. -/
def Tool.prepare (tool : Tool) (file : List UInt8) : Except PyException Plan := do
  let directory ← readV1Directory tool.loads file
  let candidate ← candidateForModel directory.modelId tool.candidates
  checkDigest "directory" (tool.sha256 directory.encoded) candidate.directorySha256
  let planned ← validateInventory directory candidate
  checkDigest "artifact" (tool.sha256 file) candidate.sha256
  let encoded ← encodeDirectory candidate.identity planned
  let payloadOffset := alignUp (prefixBytes + encoded.length) payloadAlignment
  ensure (payloadOffset = directory.payloadOffset)
    (.migrationError "v2 directory does not preserve the existing payload offset")
  return ⟨directory, candidate, planned, encoded⟩

/-- `_write_backup`. -/
def writeBackup (data : List UInt8) : Migration Unit := do
  Program.read fun disk => ensure (disk.backup = none) .fileExists
  Program.write (.createBackup :: data.map .appendBackup)

/-- The checks of `_restore_backup`. -/
def checkBackup (data : List UInt8) : Except PyException Unit := do
  ensure (prefixBytes ≤ data.length ∧ data.take 8 = v1Magic)
    (.migrationError "invalid migration recovery file")
  let jsonBytes := unpackWord ((data.drop 8).take 8)
  ensure (jsonBytes ≠ 0 ∧ alignUp (prefixBytes + jsonBytes) payloadAlignment = data.length)
    (.migrationError "invalid migration recovery file")

/-- The contents of the backup file. -/
def readBackup : Migration (List UInt8) :=
  Program.read fun disk =>
    match disk.backup with
    | some data => .ok data
    | none => .error .fileNotFound

/-- `_restore_backup`. -/
def restoreBackup : Migration Unit := do
  let data ← readBackup
  Program.read fun _ => checkBackup data
  Program.write (writeBytes 0 data)
  Program.write [.unlinkBackup]

/-- `_remove_backup`. -/
def removeBackup : Migration Unit := Program.write [.unlinkBackup]

/-- Whether there is a backup. -/
def backupExists : Migration Bool := Program.read fun disk => .ok disk.backup.isSome

/-- `_already_v2`. -/
def Tool.alreadyV2 (tool : Tool) (file : List UInt8) :
    Except PyException (Option ArtifactIdentity) :=
  if file.take 8 = magic then
    match openArtifact tool.loads file with
    | .ok artifact => do
      ensure (artifact.identity ∈ tool.candidates.map PublishedV1Artifact.identity)
        (.migrationError "v2 artifact identity is not migratable")
      return some artifact.identity
    | .error e =>
      if e.isArtifactError then .error (.migrationErrorFrom "invalid v2 artifact" e) else .error e
  else .ok none

/-- The writes of the metadata of version 2: the directory and its padding, then the prefix. -/
def rewriteWrites (plan : Plan) : List Write :=
  writeBytes prefixBytes (plan.encoded ++ List.replicate
      (plan.directory.payloadOffset - prefixBytes - plan.encoded.length) 0) ++
    writeBytes 0 (magic ++ packWord plan.encoded.length)

/-- The writes inside the `try` block. An exception from outside may arrive after any number of
them: `fault` is that number. -/
def rewrite (plan : Plan) (fault : Option Nat) : Migration Unit :=
  match fault with
  | none => do
    Program.read fun _ => ensure (plan.encoded.length < U64.size) .structError
    Program.write (rewriteWrites plan)
  | some n => do
    Program.write ((rewriteWrites plan).take n)
    Program.read fun _ => .error .interrupted

/-- The verification inside the `try` block. -/
def Tool.verify (tool : Tool) (plan : Plan) : Migration Unit :=
  Program.read fun disk => do
    let artifact ← openArtifact tool.loads disk.file
    ensure (artifact.identity = plan.candidate.identity)
      (.migrationError "migrated identity is not the expected one")
    ensure (artifact.objects = plan.planned) (.migrationError "migrated object directory changed")
    ensure (artifact.payloadOffset = plan.directory.payloadOffset)
      (.migrationError "migrated payload offset changed")
    ensure (artifact.fileBytes = plan.directory.fileBytes)
      (.migrationError "migrated file length changed")

/-- The call of `_already_v2` with its handler: a file that is not valid is restored if there is a
backup. -/
def Tool.recognise (tool : Tool) : Migration (Option ArtifactIdentity) :=
  (Program.read fun disk => tool.alreadyV2 disk.file).handle fun e => do
    let exists_ ← backupExists
    if e.isMigrationError && exists_ then do
      restoreBackup
      return none
    else Program.read fun _ => .error e

/-- The rewrite of a version 1 file. -/
def Tool.convert (tool : Tool) (fault : Option Nat) : Migration ArtifactIdentity := do
  let plan ← Program.read fun disk => tool.prepare disk.file
  let oldMetadata ← Program.read fun disk => .ok (disk.file.take plan.directory.payloadOffset)
  writeBackup oldMetadata
  Program.handle
    (do
      rewrite plan fault
      tool.verify plan)
    fun e => do
      restoreBackup
      Program.read fun _ => .error e
  removeBackup
  return plan.candidate.identity

/-- `_migrate`, of a file that exists. -/
def Tool.migrate (tool : Tool) (fault : Option Nat) : Migration ArtifactIdentity := do
  let identity ← tool.recognise
  let exists_ ← backupExists
  match identity, exists_ with
  | some identity, true => do
    removeBackup
    return identity
  | some identity, false => return identity
  | none, true => do
    restoreBackup
    tool.convert fault
  | none, false => tool.convert fault

end Ninfer.Artifact.Tools
