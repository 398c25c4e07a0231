import Ninfer.Artifact.Binder
import Ninfer.Commons.Staging
import Ninfer.Core.Arena

/-!
# Materializing an artifact on the device

`artifact/materializer.cpp`: the tensors of a plan are placed in an arena, the ranges they occupy in
the file are joined to spans, and every span is read in aligned requests into staging buffers, out
of which the tensors are copied. The copies are asynchronous: what `materialize` does to the load
stream is the program of the host, read by `Ninfer.Staging`. Failing CUDA calls and the upload time
are left out; the retry of an interrupted `pread` is part of its parameter.

## Main definitions

* `Platform`: the device memory, the pinned buffers and `pread`
* `readDirect`: `MappedFile::read_direct`
* `addSpan`: the joining of ranges to spans
* `copyRanges`, `uploadChunk`, `uploadFrom`: the loops over ranges and chunks
* `stage`, `materialize`: what precedes the first read, and the whole
-/

namespace Ninfer.Artifact.Materializer

open Ninfer.Core Staging

/-- What `materialize` throws. -/
inductive MaterializeError
  | artifact (error : ArtifactError)
  | standard (error : Exception)
  | system (what : String)
  deriving DecidableEq, Repr

/-- Where `cudaMalloc` places the arena, where the pinned buffers of the slots are, and how many
bytes the `n`-th `pread` delivers at an offset for a size, if it does not fail. -/
structure Platform where
  deviceBase : Nat
  pinned : Nat → Nat
  pread : Nat → Nat → Nat → Option Nat

/-- `kSlotBytes`. -/
def kSlotBytes : Nat := 64 * 1024 * 1024

/-- `kMaximumSlotCount`. -/
def kMaximumSlotCount : Nat := 4

/-- `Reader::direct_io_alignment`. -/
def directIoAlignment : Nat := 4096

/-- `checked_add`. -/
def checkedAdd (a b : Nat) (label : String) : Except MaterializeError Nat := do
  ensure (b ≤ U64.size - 1 - a) (.artifact ⟨label⟩)
  return a + b

/-- `align_down`. -/
def alignDown (value alignment : Nat) : Nat := value / alignment * alignment

/-- `align_up`. -/
def alignUp (value alignment : Nat) (label : String) : Except MaterializeError Nat := do
  let biased ← checkedAdd value (alignment - 1) label
  return biased / alignment * alignment

/-- `MappedFile::read_direct`, as the call number `n`, into a buffer of `size` bytes at the address
`destination`: what it leaves at the start of the buffer. -/
def readDirect (platform : Platform) (file : List UInt8) (n absoluteOffset size destination : Nat) :
    Except MaterializeError (List UInt8) := do
  ensure (absoluteOffset % directIoAlignment = 0 ∧ size % directIoAlignment = 0 ∧
      destination % directIoAlignment = 0)
    (.artifact ⟨"direct artifact read is not 4096-byte aligned"⟩)
  ensure (absoluteOffset ≤ 2 ^ 63 - 1 ∧ size ≤ 2 ^ 63 - 1)
    (.artifact ⟨"direct artifact read exceeds platform I/O limits"⟩)
  match platform.pread n absoluteOffset size with
  | some bytes => return (file.drop absoluteOffset).take bytes
  | none => .error (.system "direct artifact read")

/-- `CopyRange`. -/
structure CopyRange where
  sourceBegin : Nat
  sourceEnd : Nat
  destination : Nat
  deriving DecidableEq, Repr

/-- `ReadSpan`. -/
structure ReadSpan where
  start : Nat
  stop : Nat
  deriving DecidableEq, Repr

/-- `MaterializedArtifact::ObjectStorage`. -/
structure ObjectStorage where
  device : Nat
  resource : List UInt8
  deriving DecidableEq, Repr

/-- `MaterializationStats`, without the upload time. -/
structure MaterializationStats where
  fileBytes : Nat
  h2dBytes : Nat
  deviceCapacityBytes : Nat
  retainedResourceBytes : Nat
  peakStagingBytes : Nat
  tensorCount : Nat
  resourceCount : Nat
  deriving DecidableEq, Repr

/-- `MaterializedArtifact`. -/
structure MaterializedArtifact where
  deviceArena : DeviceArena
  objects : List ObjectStorage
  stats : MaterializationStats
  deriving DecidableEq, Repr

namespace MaterializedArtifact

/-- `MaterializedArtifact::device_data`. -/
def deviceData (artifact : MaterializedArtifact) (handle : ObjectHandle) :
    Except ArtifactError Nat :=
  match artifact.objects[handle.index]? with
  | some object => do
    ensure (object.device ≠ 0) ⟨"object handle does not name a materialized tensor"⟩
    return object.device
  | none => .error ⟨"object handle does not name a materialized tensor"⟩

/-- `MaterializedArtifact::resource_bytes`. -/
def resourceBytes (artifact : MaterializedArtifact) (handle : ObjectHandle) :
    Except ArtifactError (List UInt8) :=
  match artifact.objects[handle.index]? with
  | some object => do
    ensure (object.resource ≠ []) ⟨"object handle does not name a materialized resource"⟩
    return object.resource
  | none => .error ⟨"object handle does not name a materialized resource"⟩

end MaterializedArtifact

/-- The descriptor that `reader.objects().at` returns. -/
def objectAt (reader : Reader) (handle : ObjectHandle) :
    Except MaterializeError ObjectDescriptor :=
  match reader.entries[handle.index]? with
  | some object => .ok object
  | none => .error (.standard (.outOfRange "vector::_M_range_check"))

/-- The objects with one of them changed through `objects_.at`. -/
def changeAt (objects : List ObjectStorage) (handle : ObjectHandle)
    (change : ObjectStorage → ObjectStorage) : Except MaterializeError (List ObjectStorage) := do
  ensure (handle.index < objects.length) (.standard (.outOfRange "vector::_M_range_check"))
  return objects.modify handle.index change

/-- The resources retained so far. -/
structure Retained where
  objects : List ObjectStorage
  retainedResourceBytes : Nat
  fileBytes : Nat
  deriving DecidableEq, Repr

/-- The loop body of `materialize` over the host objects. -/
def retainResource (reader : Reader) (retained : Retained) (placement : HostMaterialization) :
    Except MaterializeError Retained := do
  let object ← objectAt reader placement.object
  let payload ← (reader.payload object).mapError .artifact
  let objects ← changeAt retained.objects placement.object fun storage =>
    { storage with resource := payload.data }
  let fileBytes ← checkedAdd retained.fileBytes payload.data.length
    "artifact read bytes overflow u64"
  return ⟨objects, retained.retainedResourceBytes + payload.data.length, fileBytes⟩

/-- The tensors placed so far. -/
structure Placed where
  arena : DeviceArena
  objects : List ObjectStorage
  ranges : List CopyRange
  total : Nat
  deriving DecidableEq, Repr

/-- The loop body of `materialize` over the device objects. -/
def placeTensor (reader : Reader) (placed : Placed) (placement : DeviceMaterialization) :
    Except MaterializeError Placed := do
  let object ← objectAt reader placement.object
  let payload ← (reader.payload object).mapError .artifact
  let storage ← (placed.arena.place placement.bytes placement.alignment).mapError .standard
  ensure (storage.1.data - storage.2.base = placement.offset ∧
      payload.data.length = placement.bytes)
    (.artifact ⟨"materialization plan does not match artifact payload"⟩)
  let objects ← changeAt placed.objects placement.object fun object =>
    { object with device := storage.1.data }
  let sourceEnd ← checkedAdd payload.absoluteOffset placement.bytes
    "artifact tensor source range overflows u64"
  let total ← checkedAdd placed.total placement.bytes "artifact tensor byte count overflows u64"
  return ⟨storage.2, objects,
    placed.ranges ++ [⟨payload.absoluteOffset, sourceEnd, storage.1.data⟩], total⟩

/-- The loop body of `materialize` that joins the ranges to spans. -/
def addSpan (spans : List ReadSpan) (range : CopyRange) : Except MaterializeError (List ReadSpan) :=
  let start := alignDown range.sourceBegin directIoAlignment
  match spans.getLast? with
  | none => .ok [⟨start, range.sourceEnd⟩]
  | some back => do
    let stop ← alignUp back.stop directIoAlignment "artifact direct I/O span overflows u64"
    if stop < start then return spans ++ [⟨start, range.sourceEnd⟩]
    else return spans.dropLast ++ [⟨back.start, max back.stop range.sourceEnd⟩]

/-- The loop body of `materialize` that sums what the spans read. -/
def addAlignedBytes (sum : Nat) (span : ReadSpan) : Except MaterializeError Nat := do
  let bytes ← alignUp (span.stop - span.start) directIoAlignment
    "artifact direct I/O span overflows u64"
  checkedAdd sum bytes "artifact direct I/O byte count overflows u64"

/-- What `materialize` has before it reads the first tensor. -/
structure Staged where
  arena : DeviceArena
  objects : List ObjectStorage
  retainedResourceBytes : Nat
  fileBytes : Nat
  ranges : List CopyRange
  total : Nat
  spans : List ReadSpan
  slotBytes : Nat
  slotCount : Nat
  deriving DecidableEq, Repr

/-- `materialize` up to the staging buffers. Ranges with the same beginning, whose order
`std::sort` leaves open, are refused right after it. -/
def stage (platform : Platform) (reader : Reader) (plan : MaterializationPlan) :
    Except MaterializeError Staged := do
  let capacity := plan.deviceCapacityBytes
  ensure (capacity ≠ 0 ∧ capacity ≤ U64.size - 1)
    (.artifact ⟨"artifact tensor backing size is invalid"⟩)
  let retained ← plan.hostObjects.foldlM (retainResource reader)
    ⟨List.replicate plan.objectCount ⟨0, []⟩, 0, 0⟩
  let placed ← plan.deviceObjects.foldlM (placeTensor reader)
    ⟨⟨platform.deviceBase, capacity, 0, 0⟩, retained.objects, [], 0⟩
  ensure (placed.ranges ≠ []) (.artifact ⟨"materialization plan has no device tensors"⟩)
  let ranges := placed.ranges.mergeSort fun a b => a.sourceBegin ≤ b.sourceBegin
  ensure (ranges.IsChain fun a b => a.sourceEnd ≤ b.sourceBegin)
    (.artifact ⟨"materialization source ranges overlap"⟩)
  let spans ← ranges.foldlM addSpan []
  let alignedReadBytes ← spans.foldlM addAlignedBytes 0
  let slotBytes := min kSlotBytes alignedReadBytes
  let slotCount := min kMaximumSlotCount (1 + (alignedReadBytes - 1) / slotBytes)
  return ⟨placed.arena, placed.objects, retained.retainedResourceBytes, retained.fileBytes, ranges,
    placed.total, spans, slotBytes, slotCount⟩

/-- The copies of a chunk, the ranges from the cursor on, and the bytes copied so far. -/
structure Copied where
  pieces : List Piece
  cursor : List CopyRange
  copied : Nat
  deriving DecidableEq, Repr

/-- The inner loop of `materialize`: the copies of the chunk from `source` to `chunkEnd`, out of
the ranges from the cursor on. -/
def copyRanges (source chunkEnd : Nat) : Nat → List CopyRange → Except MaterializeError Copied
  | copied, [] => .ok ⟨[], [], copied⟩
  | copied, range :: rest =>
    if range.sourceBegin < chunkEnd then do
      let copyBegin := max source range.sourceBegin
      let copyEnd := min chunkEnd range.sourceEnd
      let amount := copyEnd - copyBegin
      let copied ← if copyBegin < copyEnd then
          checkedAdd copied amount "artifact copied byte count overflows u64"
        else .ok copied
      let pieces := if copyBegin < copyEnd then
          [⟨copyBegin - source, amount, range.destination + (copyBegin - range.sourceBegin)⟩]
        else []
      if range.sourceEnd ≤ chunkEnd then
        let tail ← copyRanges source chunkEnd copied rest
        return { tail with pieces := pieces ++ tail.pieces }
      else return ⟨pieces, range :: rest, copied⟩
    else .ok ⟨[], range :: rest, copied⟩

/-- The state of the upload: what the host has done to the stream and asked of the file, and the
variables of the loops. `next_range` is the list of the ranges from it on. -/
structure Upload where
  program : List (Action UInt8)
  requests : List (Nat × Nat)
  reports : List (Nat × Nat)
  pending : List Bool
  nextSlot : Nat
  cursor : List CopyRange
  copied : Nat
  lastPublished : Nat
  fileBytes : Nat

/-- The body of the loop over the chunks of a span. -/
def uploadChunk (platform : Platform) (file : List UInt8) (staged : Staged) (progress : Bool)
    (span : ReadSpan) (source : Nat) (upload : Upload) : Except MaterializeError Upload := do
  let slot := upload.nextSlot % staged.slotCount
  let remaining := span.stop - source
  let aligned ← alignUp remaining directIoAlignment "artifact direct I/O request overflows u64"
  let request := min staged.slotBytes aligned
  let data ← readDirect platform file upload.nextSlot source request (platform.pinned slot)
  let required := min request remaining
  ensure (required ≤ data.length)
    (.artifact ⟨"direct artifact read ended before the planned tensor range"⟩)
  let fileBytes ← checkedAdd upload.fileBytes data.length "artifact read bytes overflow u64"
  let chunkEnd ← checkedAdd source data.length "artifact direct I/O result overflows u64"
  let nextRange := upload.cursor.dropWhile fun range => range.sourceEnd ≤ source
  let copied ← copyRanges source chunkEnd upload.copied nextRange
  let published : Bool :=
    progress && copied.copied ≠ upload.lastPublished && copied.copied < staged.total
  return {
    program := upload.program ++
      Batch.actions ⟨upload.pending.getD slot false, slot, data, copied.pieces⟩
    requests := upload.requests ++ [(source, request)]
    reports := upload.reports ++ if published then [(copied.copied, staged.total)] else []
    pending := upload.pending.set slot true
    nextSlot := upload.nextSlot + 1
    cursor := copied.cursor
    copied := copied.copied
    lastPublished := if published then copied.copied else upload.lastPublished
    fileBytes := fileBytes }

/-- The loop over the chunks of a span, from `source` on. The staging buffers are never empty:
without them the loop would not end. -/
def uploadFrom (platform : Platform) (file : List UInt8) (staged : Staged) (progress : Bool)
    (span : ReadSpan) (source : Nat) (upload : Upload) : Except MaterializeError Upload :=
  if source < span.stop ∧ 0 < staged.slotBytes then do
    let upload ← uploadChunk platform file staged progress span source upload
    uploadFrom platform file staged progress span (source + staged.slotBytes) upload
  else .ok upload
termination_by span.stop - source

/-- The loop over the spans. -/
def uploadSpans (platform : Platform) (file : List UInt8) (staged : Staged) (progress : Bool)
    (upload : Upload) : Except MaterializeError Upload :=
  staged.spans.foldlM
    (fun upload span => uploadFrom platform file staged progress span span.start upload) upload

/-- What `materialize` returns, what it did to the load stream, what it asked of the file and what
it reported. -/
structure Materialization where
  artifact : MaterializedArtifact
  program : List (Action UInt8)
  requests : List (Nat × Nat)
  reports : List (Nat × Nat)

/-- The upload before the first chunk. -/
def Upload.start (staged : Staged) (progress : Bool) : Upload where
  program := []
  requests := []
  reports := if progress then [(0, staged.total)] else []
  pending := List.replicate staged.slotCount false
  nextSlot := 0
  cursor := staged.ranges
  copied := 0
  lastPublished := 0
  fileBytes := staged.fileBytes

/-- What the host does after the last chunk: it waits for every slot, then for the stream. -/
def Upload.finishing (upload : Upload) : List (Action UInt8) :=
  ((List.range upload.pending.length).filter fun slot => upload.pending.getD slot false).map
    Action.wait ++ [.synchronize]

/-- `materialize`. -/
def materialize (platform : Platform) (reader : Reader) (plan : MaterializationPlan)
    (progress : Bool) : Except MaterializeError Materialization := do
  let staged ← stage platform reader plan
  let upload ← uploadSpans platform reader.file staged progress (Upload.start staged progress)
  ensure (upload.copied = staged.total ∧ upload.cursor = [])
    (.artifact ⟨"direct materialization did not cover every tensor byte"⟩)
  let stats : MaterializationStats := {
    fileBytes := upload.fileBytes
    h2dBytes := upload.copied
    deviceCapacityBytes := plan.deviceCapacityBytes
    retainedResourceBytes := staged.retainedResourceBytes
    peakStagingBytes := staged.slotBytes * staged.slotCount
    tensorCount := plan.deviceObjects.length
    resourceCount := plan.hostObjects.length }
  return {
    artifact := ⟨staged.arena, staged.objects, stats⟩
    program := upload.program ++ upload.finishing
    requests := upload.requests
    reports := upload.reports ++ if progress then [(upload.copied, staged.total)] else [] }

end Ninfer.Artifact.Materializer
