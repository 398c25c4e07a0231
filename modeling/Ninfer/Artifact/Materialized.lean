import Ninfer.Artifact.Staged

/-!
# What materialization leaves on the device

The plan of a binder, materialized from the file it was made for: every byte of its tensors is
copied once, and when the host and the load stream are done every tensor holds its payload, however
the two are interleaved.

## Main definitions

* `Copies`: what is returned, and what was done to the stream and asked of the file

## Main results

* `materialize_returns`: the plan and coverage errors are unreachable, and what is returned copies
  every byte once
* `materialize_memory`: in every interleaving the device holds the payloads in the end
-/

namespace Ninfer.Artifact.Materializer

open Ninfer.Core Staging

variable {platform : Platform} {reader : Reader} {plan : MaterializationPlan} {progress : Bool}

/-- What `materialize` makes of what it staged and uploaded. -/
def returned (plan : MaterializationPlan) (progress : Bool) (staged : Staged) (upload : Upload) :
    Materialization where
  artifact := ⟨staged.arena, staged.objects, {
    fileBytes := upload.fileBytes
    h2dBytes := upload.copied
    deviceCapacityBytes := plan.deviceCapacityBytes
    retainedResourceBytes := staged.retainedResourceBytes
    peakStagingBytes := staged.slotBytes * staged.slotCount
    tensorCount := plan.deviceObjects.length
    resourceCount := plan.hostObjects.length }⟩
  program := upload.program ++ upload.finishing
  requests := upload.requests
  reports := upload.reports ++ if progress then [(upload.copied, staged.total)] else []

/-- The upload of all that was staged for a plan. -/
structure UploadedFor (platform : Platform) (reader : Reader) (plan : MaterializationPlan)
    (progress : Bool) (staged : Staged) (upload : Upload) : Prop where
  prior : StagedFor platform reader plan staged
  copied : upload.copied = staged.total
  uploaded : ∃ asked, Uploaded reader.file staged progress reader.file.length asked upload

/-- `materialize` of a sound plan returns when its reads are served. -/
theorem materialize_spec (hreader : reader.Sound) (hfile : reader.file.length < 2 ^ 63)
    (hplan : plan.Sound reader) (hprovides : platform.Provides plan.deviceCapacityBytes)
    (htensors : plan.deviceObjects ≠ []) (hreads : platform.Reads reader.file.length) :
    Returned (∀ staged, stage platform reader plan = .ok staged → platform.Serves staged.spans)
      (materialize platform reader plan progress) fun m => ∃ staged upload,
        UploadedFor platform reader plan progress staged upload ∧
          m = returned plan progress staged upload := by
  obtain ⟨staged, hstage, hstaged⟩ := stage_of_sound hreader hfile hplan hprovides htensors
  unfold materialize
  rw [hstage, ok_bind]
  rcases Uploaded.spans hstaged.ready hfile hreads hprovides.pinned with
    ⟨upload, hok, hcopied, hcursor, huploaded⟩ | ⟨e, herror, hread, hserved⟩
  · rw [hok, ok_bind, ensure_bind_of ⟨hcopied, hcursor⟩]
    exact returned_ok ⟨staged, upload, ⟨hstaged, hcopied, huploaded⟩, rfl⟩
  · rw [herror]
    exact Or.inr ⟨e, rfl, hread, fun hserves => hserved (hserves staged rfl)⟩

theorem quiet_finishing (upload : Upload) : ∀ action ∈ upload.finishing, action.Quiet := by
  intro action ha
  unfold Upload.finishing at ha
  rcases List.mem_append.mp ha with ha | ha
  · obtain ⟨slot, -, rfl⟩ := List.mem_map.mp ha
    trivial
  · rw [List.mem_singleton.mp ha]
    trivial

section Uploads

variable {staged : Staged} {upload : Upload}

/-- The batches of the upload: what they copy and that they copy it once. -/
theorem UploadedFor.batches (h : UploadedFor platform reader plan progress staged upload) :
    ∃ batches : List (Batch UInt8),
      upload.program = batches.flatMap Batch.actions ∧
        Batches reader.file staged.ranges reader.file.length batches := by
  obtain ⟨asked, hu⟩ := h.uploaded
  exact hu.batches

/-- The range of a placement is among the ranges of the upload. -/
theorem UploadedFor.mem_ranges (h : UploadedFor platform reader plan progress staged upload)
    {placement : DeviceMaterialization} (hp : placement ∈ plan.deviceObjects) :
    rangeOf platform.deviceBase reader placement ∈ staged.ranges :=
  h.prior.ranges.mem_iff.mpr (List.mem_map_of_mem hp)

/-- A byte of a tensor is written once. -/
theorem UploadedFor.countP_writes (h : UploadedFor platform reader plan progress staged upload)
    (hreader : reader.Sound) (hplan : plan.Sound reader) {placement : DeviceMaterialization}
    (hp : placement ∈ plan.deviceObjects) {i : Nat} (hi : i < placement.bytes) :
    (upload.program ++ upload.finishing).countP
      (fun action => action.Writes (platform.deviceBase + placement.offset + i)) = 1 := by
  obtain ⟨batches, hprogram, hbatches⟩ := h.batches
  obtain ⟨-, -, -, -, hend, -⟩ := placement_spec hreader hplan hp
  have honce := hbatches.once _ (h.mem_ranges hp) (startOf reader placement.object + i)
    (by simp [rangeOf]) (by simp only [rangeOf]; omega)
  rw [if_pos (by omega)] at honce
  simp only [rangeOf, Nat.add_sub_cancel_left] at honce
  rw [List.countP_append, countP_quiet (quiet_finishing upload), hprogram, countP_batches]
  exact honce

/-- Nothing is written outside of the tensors. -/
theorem UploadedFor.countP_writes_eq_zero
    (h : UploadedFor platform reader plan progress staged upload) {address : Nat}
    (houtside : ∀ placement ∈ plan.deviceObjects,
      address < platform.deviceBase + placement.offset ∨
        platform.deviceBase + placement.offset + placement.bytes ≤ address) :
    (upload.program ++ upload.finishing).countP (fun action => action.Writes address) = 0 := by
  obtain ⟨batches, hprogram, hbatches⟩ := h.batches
  rw [List.countP_append, countP_quiet (quiet_finishing upload), hprogram, countP_batches,
    Nat.add_zero, List.countP_eq_zero]
  intro piece hpiece
  obtain ⟨batch, hb, hpiece⟩ := List.mem_flatMap.mp hpiece
  obtain ⟨source, chunkEnd, -, -, hpieces⟩ := hbatches.window batch hb
  rw [hpieces] at hpiece
  obtain ⟨range, hrange, hpieceOf⟩ := List.mem_filterMap.mp hpiece
  obtain ⟨placement, hp, rfl⟩ := List.mem_map.mp (h.prior.ranges.mem_iff.mp hrange)
  have := houtside placement hp
  simp only [decide_eq_true_eq]
  intro hcovers
  obtain ⟨x, -, -, hbegin, hstop, rfl⟩ := (pieceOf_covers hpieceOf).mp hcovers
  simp only [rangeOf] at this hbegin hstop
  omega

/-- Every copy that writes a byte of a tensor brings the byte of the file. -/
theorem UploadedFor.item (h : UploadedFor platform reader plan progress staged upload)
    {batches : List (Batch UInt8)}
    (hbatches : Batches reader.file staged.ranges reader.file.length batches)
    {placement : DeviceMaterialization} (hp : placement ∈ plan.deviceObjects) {i : Nat}
    (hi : i < placement.bytes) :
    ∀ batch ∈ batches, ∀ piece ∈ batch.pieces,
      piece.Covers (platform.deviceBase + placement.offset + i) →
        piece.item batch.data (platform.deviceBase + placement.offset + i) =
          reader.file[startOf reader placement.object + i]? := by
  intro batch hb piece hpiece hcovers
  obtain ⟨source, chunkEnd, -, hdata, hpieces⟩ := hbatches.window batch hb
  rw [hpieces] at hpiece
  obtain ⟨range, hrange, hpieceOf⟩ := List.mem_filterMap.mp hpiece
  obtain ⟨x, hsource, hchunk, hbegin, hstop, haddress⟩ := (pieceOf_covers hpieceOf).mp hcovers
  -- the targets are apart, so the copy is of the range of this placement
  have hsame : range = rangeOf platform.deviceBase reader placement := by
    by_contra hne
    have hsymm : Std.Symm fun a b : CopyRange =>
        a.destination + (a.sourceEnd - a.sourceBegin) ≤ b.destination ∨
          b.destination + (b.sourceEnd - b.sourceBegin) ≤ a.destination :=
      ⟨fun _ _ h => h.symm⟩
    have := h.prior.ready.targets.forall hrange (h.mem_ranges hp) hne
    simp only [rangeOf] at this
    omega
  subst hsame
  simp only [rangeOf] at haddress hbegin hstop
  have hx : x = startOf reader placement.object + i := by omega
  have hitem : piece.item batch.data _ = reader.file[x]? :=
    hdata ▸ pieceOf_item hpieceOf hsource hchunk hbegin
  simpa [rangeOf, hx] using hitem

/-- The program of the host is disciplined, and it ends with waiting for the stream. -/
theorem UploadedFor.disciplined (h : UploadedFor platform reader plan progress staged upload) :
    Disciplined ∅ ∅ (upload.program ++ upload.finishing) ∧
      (upload.program ++ upload.finishing).getLast? = some .synchronize := by
  obtain ⟨asked, hu⟩ := h.uploaded
  exact ⟨hu.disciplined _ (disciplined_quiet (quiet_finishing upload) _ _),
    by simp [Upload.finishing]⟩

/-- The object of a placement has its address. -/
theorem UploadedFor.deviceData (h : UploadedFor platform reader plan progress staged upload)
    (hreader : reader.Sound) (hplan : plan.Sound reader)
    (hprovides : platform.Provides plan.deviceCapacityBytes)
    {placement : DeviceMaterialization} (hp : placement ∈ plan.deviceObjects) :
    (returned plan progress staged upload).artifact.deviceData placement.object =
      .ok (platform.deviceBase + placement.offset) := by
  obtain ⟨hlt, -⟩ := placement_spec hreader hplan hp
  have hnodup := (List.nodup_append.mp hplan.distinct).1
  have hlength : placement.object.index <
      (retainAll reader plan.hostObjects
        (List.replicate reader.entries.length ⟨0, []⟩)).length := by
    simpa [retainAll, length_foldl_modify] using hlt
  have hbase := hprovides.base_ne
  unfold MaterializedArtifact.deviceData
  simp only [returned, h.prior.objects, placeAll]
  rw [getElem?_foldl_modify_of_mem hnodup hp, List.getElem?_eq_getElem hlength]
  simp only [Option.map_some]
  rw [ensure_bind_of (by omega)]
  rfl

/-- The object of a resource has its payload. -/
theorem UploadedFor.resourceBytes (h : UploadedFor platform reader plan progress staged upload)
    (hreader : reader.Sound) (hfile : reader.file.length < U64.size) (hplan : plan.Sound reader)
    {placement : HostMaterialization} (hp : placement ∈ plan.hostObjects) :
    (returned plan progress staged upload).artifact.resourceBytes placement.object =
      .ok (payloadOf reader placement.object) := by
  obtain ⟨resource, hentry⟩ := hplan.keeps placement hp
  obtain ⟨hlt, -⟩ := List.getElem?_eq_some_iff.mp hentry
  obtain ⟨-, -, hsize, -⟩ := payload_at hreader hfile hentry
  obtain ⟨-, hnodup, hdisjoint⟩ := List.nodup_append.mp hplan.distinct
  have hnot : placement.object.index ∉ plan.deviceObjects.map (·.object.index) := fun hmem =>
    hdisjoint _ hmem _ (List.mem_map_of_mem hp) rfl
  have hpos : 0 < sizeAt reader placement.object.index := by
    simpa [sizeAt, hentry] using hreader.pos _ (List.mem_of_getElem? hentry)
  have hne : payloadOf reader placement.object ≠ [] := by
    intro hnil
    rw [hnil] at hsize
    simp only [List.length_nil] at hsize
    omega
  unfold MaterializedArtifact.resourceBytes
  simp only [returned, h.prior.objects, placeAll]
  rw [getElem?_foldl_modify_of_notMem hnot]
  unfold retainAll
  rw [getElem?_foldl_modify_of_mem hnodup hp, List.getElem?_replicate, if_pos hlt]
  simp only [Option.map_some]
  rw [ensure_bind_of hne]
  rfl

end Uploads

/-- **What `materialize` returned, and what it did**: every byte of a tensor is copied once to its
place and nothing else is written, no copy reads more of a buffer than was read into it, and no byte
of the file is asked for twice. -/
structure Copies (binder : Binder) (plan : MaterializationPlan) (progress : Bool)
    (m : Materialization) : Prop where
  tensors : ∀ placement ∈ plan.deviceObjects, ∃ address,
    m.artifact.deviceData placement.object = .ok address ∧ placement.alignment ∣ address ∧
      ∀ i < placement.bytes, m.program.countP (fun action => action.Writes (address + i)) = 1
  outside : ∀ address, (∀ placement ∈ plan.deviceObjects, ∀ start,
      m.artifact.deviceData placement.object = .ok start →
        address < start ∨ start + placement.bytes ≤ address) →
    m.program.countP (fun action => action.Writes address) = 0
  within : ∃ (batches : List (Batch UInt8)) (rest : List (Action UInt8)),
    m.program = batches.flatMap Batch.actions ++ rest ∧ (∀ batch ∈ batches, batch.Within) ∧
      ∀ action ∈ rest, action.Quiet
  resources : ∀ placement ∈ plan.hostObjects, ∃ span,
    binder.payload placement.object = .ok span ∧
      m.artifact.resourceBytes placement.object = .ok span.data
  requests : ∀ request ∈ m.requests,
    directIoAlignment ∣ request.1 ∧ directIoAlignment ∣ request.2
  apart : m.requests.Pairwise fun a b => a.1 + a.2 ≤ b.1
  h2dBytes : m.artifact.stats.h2dBytes = (plan.deviceObjects.map (·.bytes)).sum
  reports : progress = true → m.reports.Pairwise (fun a b => a.1 < b.1) ∧
    m.reports.getLast? = some (m.artifact.stats.h2dBytes, m.artifact.stats.h2dBytes)

/-- The payload that the binder of a plan names. -/
theorem binder_payload {calls : List BinderCall} (hreader : reader.Sound)
    (hfile : reader.file.length < U64.size) {handle : ObjectHandle} {object : ObjectDescriptor}
    (hobject : reader.entries[handle.index]? = some object) :
    (Binder.performAll reader calls).payload handle =
      .ok ⟨startOf reader handle, payloadOf reader handle⟩ := by
  have hsame := (Binder.sound_performAll reader calls).reader_eq
  unfold Binder.payload
  rw [Binder.descriptor_eq_ok.mpr (hsame ▸ hobject), ok_bind, hsame]
  exact (payload_at hreader hfile hobject).2.1

theorem UploadedFor.copies {staged : Staged} {upload : Upload}
    (h : UploadedFor platform reader plan progress staged upload) (calls : List BinderCall)
    (hreader : reader.Sound) (hfile : reader.file.length < U64.size) (hplan : plan.Sound reader)
    (hprovides : platform.Provides plan.deviceCapacityBytes) (htensors : plan.deviceObjects ≠ []) :
    Copies (Binder.performAll reader calls) plan progress
      (returned plan progress staged upload) := by
  obtain ⟨asked, hu⟩ := h.uploaded
  have hsizes : staged.total = (plan.deviceObjects.map (·.bytes)).sum := by
    rw [h.prior.total]
    unfold sizesOf
    rw [List.map_map]
    congr 1
    exact List.map_congr_left fun p hp => (placement_spec hreader hplan hp).2.2.2.1.symm
  exact {
    tensors := by
      intro placement hp
      refine ⟨_, h.deviceData hreader hplan hprovides hp, ?_, fun i hi =>
        h.countP_writes hreader hplan hp hi⟩
      -- the plan rounds every offset up, and the arena is aligned
      obtain ⟨-, -, halignment, -⟩ := placement_spec hreader hplan hp
      have hoffset := dvd_offset_of_laidOut hplan.laidOut placement hp
      rw [halignment] at hoffset ⊢
      exact Nat.dvd_add hprovides.base_dvd hoffset
    outside := fun address houtside => h.countP_writes_eq_zero fun placement hp =>
      houtside placement hp _ (h.deviceData hreader hplan hprovides hp)
    within := by
      obtain ⟨batches, hprogram, hbatches⟩ := h.batches
      refine ⟨batches, upload.finishing, by rw [← hprogram]; rfl, ?_, quiet_finishing upload⟩
      intro batch hb piece hpiece
      obtain ⟨source, chunkEnd, hend, hdata, hpieces⟩ := hbatches.window batch hb
      rw [hpieces] at hpiece
      obtain ⟨range, -, hpieceOf⟩ := List.mem_filterMap.mp hpiece
      have := pieceOf_within hpieceOf
      rw [hdata, List.length_take, List.length_drop]
      omega
    resources := by
      intro placement hp
      obtain ⟨resource, hentry⟩ := hplan.keeps placement hp
      exact ⟨_, binder_payload hreader hfile hentry, h.resourceBytes hreader hfile hplan hp⟩
    requests := fun request hr => ⟨(hu.aligned request hr).1, (hu.aligned request hr).2.1⟩
    apart := hu.apart
    h2dBytes := h.copied.trans hsizes
    reports := by
      intro hprogress
      have htotal : 0 < staged.total := by
        obtain ⟨first, hfirst⟩ := List.exists_mem_of_ne_nil _ htensors
        have hpos := (placement_spec hreader hplan hfirst).2.1
        have hmem : first.bytes ∈ plan.deviceObjects.map (·.bytes) :=
          List.mem_map.mpr ⟨first, hfirst, rfl⟩
        rw [hsizes]
        exact hpos.trans_le (List.le_sum_of_mem hmem)
      obtain ⟨hincreasing, hpublished⟩ := hu.reports hprogress
      have hlt := hu.published_lt htotal
      simp only [returned, hprogress, if_true, h.copied]
      refine ⟨List.pairwise_append.mpr ⟨hincreasing, by simp, fun a ha b hb => ?_⟩, by simp⟩
      have := (hpublished a ha).1
      rw [List.mem_singleton.mp hb]
      dsimp only
      omega }

/-! ### A file with a resource and two tensors -/

/-- The directory of a file with a resource and two tensors of two words. -/
def sampleDirectory : Json :=
  .obj [("identity", .obj [("model_id", .str "model"), ("weights_id", .str "weights")]),
    ("objects", .arr [
      .obj [("name", .str "vocab"), ("kind", .str "resource"), ("encoding", .str "raw-bytes-v1"),
        ("offset", .int 0), ("bytes", .int 3)],
      .obj [("name", .str "norm"), ("kind", .str "tensor"), ("shape", .arr [.int 2]),
        ("format", .str "BF16"), ("layout", .str "contiguous-le-v1"), ("offset", .int 256),
        ("bytes", .int 4)],
      .obj [("name", .str "bias"), ("kind", .str "tensor"), ("shape", .arr [.int 2]),
        ("format", .str "BF16"), ("layout", .str "contiguous-le-v1"), ("offset", .int 12288),
        ("bytes", .int 4)]])]

/-- A file with that directory, in which the tensors are in two spans: two pages lie between
them. -/
def sampleFile : List UInt8 :=
  kMagic ++ [2, 0, 0, 0, 0, 0, 0, 0, 123, 125] ++ List.replicate 4078 0 ++ [1, 2, 3] ++
    List.replicate 253 0 ++ [4, 5, 6, 7] ++ List.replicate 12028 0 ++ [8, 9, 10, 11]

/-- Its reader. -/
def sampleReader : Reader where
  file := sampleFile
  identity := ⟨"model", "weights"⟩
  entries := [.resource ⟨"vocab", .rawBytesV1, 0, 3⟩,
    .tensor ⟨"norm", [2], .bf16, .contiguousLeV1, 256, 4⟩,
    .tensor ⟨"bias", [2], .bf16, .contiguousLeV1, 12288, 4⟩]
  index := [("vocab", 0), ("norm", 1), ("bias", 2)]
  payloadStart := 4096

theorem sampleFile_length : sampleFile.length = 16388 := by
  simp only [sampleFile, List.length_append, List.length_replicate]
  rfl

theorem sampleReader_opened :
    Reader.openFile (fun _ => some sampleDirectory) sampleFile = .ok sampleReader := by
  have hmagic : sampleFile.take 8 = kMagic := rfl
  have hjson : readU64Le (sampleFile.drop 8) = 2 := rfl
  unfold Reader.openFile Reader.readDirectory
  rw [sampleFile_length, hmagic, hjson]
  rfl

/-- A target that keeps the resource and places the tensors, the second one first. -/
def sampleCalls : List BinderCall :=
  [.requireResource "vocab" .rawBytesV1, .requireTensor "norm" .bf16 .contiguousLeV1 [2],
    .requireTensor "bias" .bf16 .contiguousLeV1 [2], .materializeOnDevice ⟨2⟩,
    .materializeOnDevice ⟨1⟩, .retainOnHost ⟨0⟩]

/-- Its plan. -/
def samplePlan : MaterializationPlan :=
  ⟨3, 260, [⟨⟨2⟩, 0, 4, 256⟩, ⟨⟨1⟩, 256, 4, 256⟩], [⟨⟨0⟩⟩]⟩

theorem samplePlan_finished :
    (Binder.performAll sampleReader sampleCalls).finish = .ok samplePlan := by decide +kernel

/-- A device with an arena at 256, and a file that is always read up to its end. -/
def samplePlatform : Platform where
  deviceBase := 256
  pinned := fun _ => 0
  pread := fun _ offset size => some (min size (16388 - offset))

theorem samplePlatform_provides : samplePlatform.Provides samplePlan.deviceCapacityBytes where
  base_ne := by simp [samplePlatform]
  base_dvd := Nat.dvd_refl _
  block := by simp [samplePlatform, samplePlan, U64.size]
  pinned := fun _ => Nat.dvd_zero _

theorem samplePlatform_reads : samplePlatform.Reads sampleFile.length := by
  intro n offset size count hcount
  rw [sampleFile_length]
  cases hcount
  exact le_refl _

/-- What the sample leaves is uploaded. -/
theorem sample_spec : ∃ staged upload,
    materialize samplePlatform sampleReader samplePlan true =
      .ok (returned samplePlan true staged upload) ∧
      UploadedFor samplePlatform sampleReader samplePlan true staged upload := by
  obtain ⟨hreader, -⟩ := Reader.sound_of_openFile sampleReader_opened
  have hplan := Binder.sound_of_finish samplePlan_finished
  have hfile : sampleReader.file.length < 2 ^ 63 := by
    simp [sampleReader, sampleFile_length]
  have htensors : samplePlan.deviceObjects ≠ [] := by simp [samplePlan]
  obtain ⟨staged, hstage, hstaged⟩ :=
    stage_of_sound hreader hfile hplan samplePlatform_provides htensors
  have hserves : samplePlatform.Serves staged.spans :=
    hstaged.ready.serves fun n offset size => by
      simp [samplePlatform, sampleReader, sampleFile_length]
  rcases materialize_spec hreader hfile hplan samplePlatform_provides htensors
    samplePlatform_reads with ⟨m, hok, staged', upload, h, rfl⟩ | ⟨e, -, -, hserved⟩
  · exact ⟨staged', upload, hok, h⟩
  · refine absurd (fun staged' hstage' => ?_) hserved
    rw [hstage] at hstage'
    cases hstage'
    exact hserves

section Results

variable {parse : List UInt8 → Option Json} {file : List UInt8} {calls : List BinderCall}

/-- **Materialization copies every byte of every tensor once.** For any file the reader opens and
any plan that any calls of a target build, the only errors are those of a read that failed or came
short, none of them happens when the reads are served, and what is returned copies each byte of a
tensor once. -/
theorem materialize_returns (progress : Bool)
    (hopen : Reader.openFile parse file = .ok reader) (hfile : file.length < 2 ^ 63)
    (hfinish : (Binder.performAll reader calls).finish = .ok plan)
    (htensors : plan.deviceObjects ≠ [])
    (hprovides : platform.Provides plan.deviceCapacityBytes)
    (hreads : platform.Reads file.length) :
    (∀ e, materialize platform reader plan progress = .error e → e.IsRead) ∧
      ((∀ staged, stage platform reader plan = .ok staged → platform.Serves staged.spans) →
        ∃ m, materialize platform reader plan progress = .ok m) ∧
      ∀ m, materialize platform reader plan progress = .ok m →
        Copies (Binder.performAll reader calls) plan progress m := by
  obtain ⟨hreader, rfl⟩ := Reader.sound_of_openFile hopen
  have hplan := Binder.sound_of_finish hfinish
  have hsize : (2 : Nat) ^ 63 < U64.size := by simp [U64.size]
  -- One run of the loop decides all three parts: it ends with an upload or with a read error.
  rcases materialize_spec hreader hfile hplan hprovides htensors hreads with
    ⟨m, hok, staged, upload, h, rfl⟩ | ⟨e, herror, hread, hserved⟩
  · refine ⟨fun e he => ?_, fun _ => ⟨_, hok⟩, fun m hm => ?_⟩
    · rw [hok] at he
      cases he
    · rw [hok] at hm
      cases hm
      exact h.copies calls hreader (hfile.trans hsize) hplan hprovides htensors
  · refine ⟨fun e' he => ?_, fun hserves => absurd hserves hserved, fun m hm => ?_⟩
    · rw [herror] at he
      cases he
      exact hread
    · rw [herror] at hm
      cases hm

/-- The sample is materialized, and what is returned copies every byte once. -/
theorem materialize_returns_sample :
    ∃ m, materialize samplePlatform sampleReader samplePlan true = .ok m ∧
      Copies (Binder.performAll sampleReader sampleCalls) samplePlan true m := by
  have hfile : sampleFile.length < 2 ^ 63 := by simp [sampleFile_length]
  obtain ⟨-, -, hcopies⟩ := materialize_returns true sampleReader_opened hfile samplePlan_finished
    (by simp [samplePlan]) samplePlatform_provides samplePlatform_reads
  obtain ⟨staged, upload, hok, -⟩ := sample_spec
  exact ⟨_, hok, hcopies _ hok⟩

/-- **The device holds the payloads, in every interleaving** of the host and the load stream: no
buffer is read into while a copy out of it is queued, the two always come to an end, and when
`materialize` is done every tensor holds its payload and nothing else has changed. -/
theorem materialize_memory {m : Materialization} {buffers : Buffers UInt8} {memory : Nat → UInt8}
    {machine : Machine UInt8} (hopen : Reader.openFile parse file = .ok reader)
    (hfile : file.length < 2 ^ 63) (hfinish : (Binder.performAll reader calls).finish = .ok plan)
    (htensors : plan.deviceObjects ≠ [])
    (hprovides : platform.Provides plan.deviceCapacityBytes)
    (hreads : platform.Reads file.length)
    (hm : materialize platform reader plan progress = .ok m)
    (hrun : Relation.ReflTransGen Step ⟨m.program, buffers, [], memory⟩ machine) :
    (∀ slot data program, machine.program = .fill slot data :: program →
        ∀ command ∈ machine.queue, ¬command.Reads slot) ∧
      (machine.program ≠ [] → ∃ machine', Step machine machine') ∧
      (∀ machine', Step machine machine' → machine'.size < machine.size) ∧
      (machine.program = [] →
        (∀ placement ∈ plan.deviceObjects, ∃ address span,
          m.artifact.deviceData placement.object = .ok address ∧
            (Binder.performAll reader calls).payload placement.object = .ok span ∧
            span.data.length = placement.bytes ∧
            ∀ i a, span.data[i]? = some a → machine.memory (address + i) = a) ∧
        ∀ address, (∀ placement ∈ plan.deviceObjects, ∀ start,
            m.artifact.deviceData placement.object = .ok start →
              address < start ∨ start + placement.bytes ≤ address) →
          machine.memory address = memory address) := by
  obtain ⟨hreader, rfl⟩ := Reader.sound_of_openFile hopen
  have hplan := Binder.sound_of_finish hfinish
  have hsize : (2 : Nat) ^ 63 < U64.size := by simp [U64.size]
  rcases materialize_spec hreader hfile hplan hprovides htensors hreads with
    ⟨m', hok, staged, upload, h, rfl⟩ | ⟨e, herror, -⟩
  swap
  · rw [herror] at hm
    cases hm
  rw [hok] at hm
  cases hm
  obtain ⟨hdisciplined, hlast⟩ := h.disciplined
  obtain ⟨hsound, -⟩ := (Machine.Sound.start hdisciplined).run hrun
  refine ⟨?_, fun hne => Machine.exists_step (Or.inl hne), fun _ => Step.size_lt, fun hdone => ?_⟩
  · intro slot data program hprogram
    obtain ⟨rest, b, queue, mem⟩ := machine
    cases hprogram
    exact hsound.not_reads
  · have hmemory := Machine.complete hdisciplined hlast hrun hdone
    constructor
    · intro placement hp
      obtain ⟨-, -, -, hbytes, -⟩ := placement_spec hreader hplan hp
      obtain ⟨tensor, hentry, -⟩ := hplan.places placement hp
      obtain ⟨-, -, hlength, -⟩ := payload_at hreader (hfile.trans hsize) hentry
      refine ⟨_, _, h.deviceData hreader hplan hprovides hp,
        binder_payload hreader (hfile.trans hsize) hentry, hlength.trans hbytes.symm, ?_⟩
      intro i a hi
      obtain ⟨hlt, -⟩ := List.getElem?_eq_some_iff.mp hi
      have hbyte : reader.file[startOf reader placement.object + i]? = some a := by
        rw [hlength] at hlt
        simpa [payloadOf, List.getElem?_take, hlt] using hi
      have hi' : i < placement.bytes := by
        rw [hbytes, ← hlength]
        exact hlt
      -- one copy writes the address, and all that do bring the byte of the file
      obtain ⟨batches, hprogram, hbatches⟩ := h.batches
      obtain ⟨buffers', memory', hserial, hwritten⟩ := serial_batches buffers memory
        upload.finishing fun batch hb piece hpiece hc =>
          (h.item hbatches hp hi' batch hb piece hpiece hc).trans hbyte
      have hcount := h.countP_writes hreader hplan hp hi'
      rw [hmemory, hprogram, hserial, serial_quiet (quiet_finishing upload)]
      refine hwritten (Or.inr ?_)
      rw [List.countP_append, countP_quiet (quiet_finishing upload), hprogram,
        countP_batches] at hcount
      obtain ⟨piece, hpiece, hcovers⟩ :=
        List.countP_pos_iff.mp (Nat.lt_of_lt_of_eq Nat.one_pos hcount.symm)
      obtain ⟨batch, hb, hpiece⟩ := List.mem_flatMap.mp hpiece
      exact ⟨batch, hb, piece, hpiece, by simpa using hcovers⟩
    · intro address houtside
      have hcount := h.countP_writes_eq_zero fun placement hp =>
        houtside placement hp _ (h.deviceData hreader hplan hprovides hp)
      rw [List.countP_eq_zero] at hcount
      rw [hmemory]
      exact serial_of_not_writes (fun action ha => by simpa using hcount action ha) _ _

/-- In the sample every interleaving that is done has left the payloads of both tensors. -/
theorem materialize_memory_sample :
    ∃ m, materialize samplePlatform sampleReader samplePlan true = .ok m ∧
      ∀ (buffers : Buffers UInt8) (memory : Nat → UInt8) (machine : Machine UInt8),
        Relation.ReflTransGen Step ⟨m.program, buffers, [], memory⟩ machine →
          machine.program = [] → ∀ object : ObjectHandle, object ∈ [⟨1⟩, ⟨2⟩] →
            ∃ address span, m.artifact.deviceData object = .ok address ∧
              (Binder.performAll sampleReader sampleCalls).payload object = .ok span ∧
              span.data.length = 4 ∧
              ∀ i a, span.data[i]? = some a → machine.memory (address + i) = a := by
  have hfile : sampleFile.length < 2 ^ 63 := by simp [sampleFile_length]
  obtain ⟨staged, upload, hok, -⟩ := sample_spec
  refine ⟨_, hok, fun buffers memory machine hrun hdone object hobject => ?_⟩
  obtain ⟨-, -, -, hmemory⟩ := materialize_memory sampleReader_opened hfile samplePlan_finished
    (by simp [samplePlan]) samplePlatform_provides samplePlatform_reads hok hrun
  have hplacements := (hmemory hdone).1
  rcases List.mem_pair.mp hobject with rfl | rfl
  · exact hplacements ⟨⟨1⟩, 256, 4, 256⟩ (by simp [samplePlan])
  · exact hplacements ⟨⟨2⟩, 0, 4, 256⟩ (by simp [samplePlan])

end Results

end Ninfer.Artifact.Materializer
