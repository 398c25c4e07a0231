import Ninfer.Artifact.Directory

/-!
# Artifacts written by the converter and read by the engine

A file that `write_artifact` produced is accepted by `Reader`, which returns the identity, the
objects in order with what their specifications say, and the payload bytes. The file has to be
shorter than `2 ^ 64` bytes, and so have the two counts of `CountsFit` to be: the engine rejects
a shape for which one of them overflows although the converter writes it.

## Main definitions

* `SpecFits`: the counts of a specification fit

## Main results

* `writeAll_spec`: where the writer puts the payloads
* `read_written`: the round trip
* `encodedSize_disagrees`: a shape on which the two sizes differ
-/

namespace Ninfer.Artifact

open Tools (ArtifactWriter ObjectSpec)

section Writer

theorem writeChunks_spec {name : String} {bytes written : Nat} {file : List UInt8}
    {chunks : List (List UInt8)} {file' : List UInt8} {written' : Nat}
    (h : ArtifactWriter.writeChunks name bytes file written chunks = .ok (file', written')) :
    file' = file ++ chunks.flatten ∧ written' = written + chunks.flatten.length := by
  induction chunks generalizing file written with
  | nil =>
    cases h
    exact ⟨(List.append_nil _).symm, rfl⟩
  | cons chunk chunks ih =>
    obtain ⟨-, h⟩ := ensure_bind_eq_ok.mp h
    obtain ⟨rfl, rfl⟩ := ih h
    rw [List.flatten_cons, List.append_assoc, List.length_append, Nat.add_assoc]
    exact ⟨rfl, rfl⟩

/-- A payload is written at the offset of the next object, after a gap of zeros. -/
theorem write_spec {writer writer' : ArtifactWriter} {name : String}
    {payload : List (List UInt8)} (h : writer.write name payload = .ok writer') :
    ∃ object, writer.objects[writer.next]? = some object ∧
      payload.flatten.length = object.bytes ∧
      writer' = { writer with
        file := writer.file ++ (List.replicate (object.offset - writer.cursor) 0 ++
          payload.flatten)
        cursor := object.offset + object.bytes
        next := writer.next + 1 } := by
  unfold ArtifactWriter.write at h
  split at h
  · cases h
  · rename_i object hobject
    obtain ⟨-, h⟩ := ensure_bind_eq_ok.mp h
    obtain ⟨⟨file, written⟩, hchunks, h⟩ := bind_eq_ok.mp h
    obtain ⟨hwritten, h⟩ := ensure_bind_eq_ok.mp h
    cases h
    obtain ⟨rfl, hlength⟩ := writeChunks_spec hchunks
    rw [Nat.zero_add] at hlength
    refine ⟨object, hobject, hlength.symm.trans hwritten, ?_⟩
    rw [List.append_assoc]

/-- The payloads of a run of the writer, from the next object on: each stands at its offset, the
file so far is kept, and the file ends with the last object. -/
theorem writeAll_spec {writer writer' : ArtifactWriter}
    {entries : List (ObjectSpec × List (List UInt8))} {objects : List Tools.ArtifactObject}
    (hobjects : writer.objects.drop writer.next = objects) (hcount : entries.length = objects.length)
    (hplaced : Tools.Placed writer.cursor objects)
    (hlength : writer.file.length = writer.payloadOffset + writer.cursor)
    (h : writer.writeAll entries = .ok writer') :
    (∃ rest, writer'.file = writer.file ++ rest) ∧ writer'.objects = writer.objects ∧
      writer'.payloadOffset = writer.payloadOffset ∧
      writer'.next = writer.next + entries.length ∧
      writer'.cursor = Tools.lastEnd writer.cursor objects ∧
      writer'.file.length = writer.payloadOffset + Tools.lastEnd writer.cursor objects ∧
      List.Forall₂ (fun entry object =>
        (writer'.file.drop (writer.payloadOffset + object.offset)).take object.bytes =
          entry.2.flatten) entries objects := by
  induction entries generalizing writer objects with
  | nil =>
    cases h
    cases List.length_eq_zero_iff.mp hcount.symm
    exact ⟨⟨[], (List.append_nil _).symm⟩, rfl, rfl, rfl, rfl, hlength, .nil⟩
  | cons entry entries ih =>
    obtain ⟨spec, payload⟩ := entry
    obtain ⟨next, hwrite, h⟩ := bind_eq_ok.mp h
    obtain ⟨object, hobject, hpayload, rfl⟩ := write_spec hwrite
    -- the object written is the first of those left
    obtain ⟨objects, rfl⟩ : ∃ objects', objects = object :: objects' := by
      obtain ⟨hlt, hget⟩ := List.getElem?_eq_some_iff.mp hobject
      rw [List.drop_eq_getElem_cons hlt, hget] at hobjects
      exact ⟨_, hobjects.symm⟩
    have hrest : writer.objects.drop (writer.next + 1) = objects := by
      rw [← List.drop_drop, hobjects, List.drop_one, List.tail_cons]
    obtain ⟨hle, -, hplaced⟩ := hplaced
    have hlength' : (writer.file ++ (List.replicate (object.offset - writer.cursor) 0 ++
        payload.flatten)).length = writer.payloadOffset + (object.offset + object.bytes) := by
      rw [List.length_append, List.length_append, List.length_replicate, hlength, hpayload]
      omega
    obtain ⟨⟨rest, hfile⟩, hobjects', hoffset, hnext, hcursor, hend, hall⟩ :=
      ih hrest (Nat.succ.inj hcount) hplaced hlength' h
    dsimp only at hfile hobjects' hoffset hnext hcursor hend hall
    refine ⟨?_, hobjects', hoffset, ?_, hcursor, hend, .cons ?_ hall⟩
    · rw [List.append_assoc] at hfile
      exact ⟨_, hfile⟩
    · rw [hnext, List.length_cons]
      omega
    · have hstart : writer.payloadOffset + object.offset =
          (writer.file ++ List.replicate (object.offset - writer.cursor) (0 : UInt8)).length := by
        rw [List.length_append, List.length_replicate, hlength]
        omega
      rw [hfile, ← List.append_assoc, List.append_assoc _ payload.flatten, hstart,
        List.drop_left, ← hpayload, List.take_left]

theorem requireIdentity_eq_ok {identity checked : Tools.ArtifactIdentity}
    (h : Tools.requireIdentity identity = .ok checked) :
    identity.modelId ≠ "" ∧ identity.weightsId ≠ "" ∧ checked = identity := by
  obtain ⟨modelId, hmodel, h⟩ := bind_eq_ok.mp h
  obtain ⟨weightsId, hweights, h⟩ := bind_eq_ok.mp h
  cases h
  obtain ⟨hmodelNe, rfl⟩ := Tools.requireText_eq_ok.mp hmodel
  obtain ⟨hweightsNe, rfl⟩ := Tools.requireText_eq_ok.mp hweights
  exact ⟨hmodelNe, hweightsNe, rfl⟩

theorem encodeDirectory_eq_ok {identity : Tools.ArtifactIdentity}
    {objects : List Tools.ArtifactObject} {directory : List UInt8}
    (h : Tools.encodeDirectory identity objects = .ok directory) :
    directory = utf8 ((Tools.directoryJson identity objects).dumps [','] [':']) := by
  obtain ⟨checked, hchecked, hencode⟩ := bind_eq_ok.mp h
  obtain ⟨-, hencode⟩ := ensure_bind_eq_ok.mp hencode
  obtain ⟨-, -, hidentity⟩ := requireIdentity_eq_ok hchecked
  rw [hidentity] at hencode
  exact (Except.ok.inj hencode).symm

/-- What a writer starts with. -/
theorem new_spec {identity : Tools.ArtifactIdentity} {specs : List ObjectSpec}
    {writer : ArtifactWriter} (h : ArtifactWriter.new identity specs = .ok writer) :
    ∃ directory padding, identity.modelId ≠ "" ∧ identity.weightsId ≠ "" ∧ specs ≠ [] ∧
      Tools.planFrom 0 [] specs = .ok writer.objects ∧
      directory = utf8 ((Tools.directoryJson identity writer.objects).dumps [','] [':']) ∧
      directory.length < U64.size ∧
      writer.payloadOffset = roundUp (16 + directory.length) 4096 ∧
      writer.file = Tools.magic ++ (Tools.packWord directory.length ++ (directory ++ padding)) ∧
      writer.file.length = writer.payloadOffset ∧ writer.next = 0 ∧ writer.cursor = 0 := by
  obtain ⟨identity', hidentity, h⟩ := bind_eq_ok.mp h
  obtain ⟨objects, hplan, h⟩ := bind_eq_ok.mp h
  obtain ⟨directory, hencode, h⟩ := bind_eq_ok.mp h
  obtain ⟨header, hheader, h⟩ := bind_eq_ok.mp h
  cases h
  obtain ⟨hmodel, hweights, rfl⟩ := requireIdentity_eq_ok hidentity
  obtain ⟨hspecs, hplan⟩ := ensure_bind_eq_ok.mp hplan
  obtain ⟨hdirectory, hheader⟩ := ensure_bind_eq_ok.mp hheader
  cases hheader
  have hle : 16 + directory.length ≤ roundUp (16 + directory.length) 4096 :=
    le_roundUp _ (by decide)
  refine ⟨directory, List.replicate (roundUp (16 + directory.length) 4096 - 16 - directory.length) 0,
    hmodel, hweights, hspecs, hplan, encodeDirectory_eq_ok hencode, hdirectory,
    rfl, ?_, ?_, rfl, rfl⟩
  · dsimp only
    rw [List.append_assoc, List.append_assoc]
    rfl
  · dsimp only [Tools.alignUp, Tools.prefixBytes, Tools.payloadAlignment]
    rw [List.length_append, List.length_append, List.length_append, List.length_replicate,
      length_packWord, show Tools.magic.length = 8 from rfl]
    omega

/-- What a written file is made of. -/
theorem writeArtifact_spec {identity : Tools.ArtifactIdentity}
    {entries : List (ObjectSpec × List (List UInt8))} {objects : List Tools.ArtifactObject}
    {file : List UInt8} (h : Tools.writeArtifact identity entries = .ok (objects, file)) :
    ∃ directory rest, identity.modelId ≠ "" ∧ identity.weightsId ≠ "" ∧
      Tools.planFrom 0 [] (entries.map Prod.fst) = .ok objects ∧ objects ≠ [] ∧
      directory = utf8 ((Tools.directoryJson identity objects).dumps [','] [':']) ∧
      file = Tools.magic ++ (Tools.packWord directory.length ++ (directory ++ rest)) ∧
      file.length = roundUp (16 + directory.length) 4096 + Tools.lastEnd 0 objects ∧
      List.Forall₂ (fun entry object =>
        (file.drop (roundUp (16 + directory.length) 4096 + object.offset)).take object.bytes =
          entry.2.flatten) entries objects := by
  obtain ⟨writer, hnew, h⟩ := bind_eq_ok.mp h
  obtain ⟨writer', hwrite, h⟩ := bind_eq_ok.mp h
  obtain ⟨file', hfinish, h⟩ := bind_eq_ok.mp h
  cases h
  obtain ⟨directory, padding, hmodel, hweights, hspecs, hplan, hdirectory, -, hoffset, hfile,
    hlength, hnext, hcursor⟩ := new_spec hnew
  obtain ⟨-, hmatches, hplaced, -⟩ := Tools.planFrom_spec hplan
  have hcount : entries.length = writer.objects.length := by
    rw [← hmatches.length_eq, List.length_map]
  obtain ⟨⟨rest, hrest⟩, hobjects, hoffset', hnext', hcursor', hlength', hall⟩ :=
    writeAll_spec (by rw [hnext, List.drop_zero]) hcount (by rwa [hcursor])
      (by rw [hlength, hcursor, Nat.add_zero]) hwrite
  rw [hcursor] at hlength' hcursor'
  -- the file is not changed by the last truncation
  have htruncate : file = writer'.file := by
    unfold ArtifactWriter.finish at hfinish
    split at hfinish
    · cases hfinish
    · cases hfinish
      unfold ArtifactWriter.truncate
      rw [hoffset', hcursor', ← hlength', List.take_length, Nat.sub_self]
      exact List.append_nil _
  have hne : writer.objects ≠ [] := by
    intro hnil
    rw [hnil] at hmatches
    exact hspecs (List.length_eq_zero_iff.mp hmatches.length_eq)
  rw [hobjects, htruncate]
  refine ⟨directory, padding ++ rest, hmodel, hweights, hplan, hne, hdirectory, ?_, ?_, ?_⟩
  · rw [hrest, hfile]
    simp only [List.append_assoc]
  · rw [hlength', hoffset]
  · rw [← hoffset]
    exact hall

end Writer

/-- The counts of a specification fit 64 bits. -/
def SpecFits : ObjectSpec → Prop
  | .tensor spec =>
    ∀ l shape, spec.layout = layoutName l → spec.shape = shape.map Int.ofNat → CountsFit l shape
  | .resource _ => True

/-- The descriptor says of an object what its specification says. -/
def SameDescriptor : ObjectSpec → ObjectDescriptor → Prop
  | .tensor spec, .tensor descriptor =>
    descriptor.name = spec.name ∧ descriptor.shape.map Int.ofNat = spec.shape ∧
      formatName descriptor.format = spec.format ∧ layoutName descriptor.layout = spec.layout
  | .resource spec, .resource descriptor =>
    descriptor.name = spec.name ∧ encodingName descriptor.encoding = spec.encoding ∧
      (descriptor.bytes : Int) = spec.bytes
  | _, _ => False

theorem sameDescriptor_of_describes {spec : ObjectSpec} {object : Tools.ArtifactObject}
    {d : ObjectDescriptor} (hmatches : Tools.ArtifactObject.Matches spec object)
    (hdescribes : Describes object d) : SameDescriptor spec d := by
  cases object with
  | tensor object =>
    cases spec with
    | tensor spec =>
      cases d with
      | tensor d =>
        obtain ⟨hname, hshape, hformat, hlayout⟩ := hmatches
        obtain ⟨hname', hshape', hformat', hlayout', -, -⟩ := hdescribes
        refine ⟨hname'.trans hname, ?_, hformat'.trans hformat, hlayout'.trans hlayout⟩
        rw [hshape']
        exact hshape
      | resource d => cases hdescribes
    | resource spec => cases hmatches
  | resource object =>
    cases spec with
    | tensor spec => cases hmatches
    | resource spec =>
      cases d with
      | tensor d => cases hdescribes
      | resource d =>
        obtain ⟨hname, hencoding, hbytes⟩ := hmatches
        obtain ⟨hname', hencoding', -, hbytes'⟩ := hdescribes
        refine ⟨hname'.trans hname, hencoding'.trans hencoding, ?_⟩
        rw [hbytes']
        exact hbytes

/-- An object of the file fits when the counts of its specification do. -/
theorem fits_of_specFits {spec : ObjectSpec} {object : Tools.ArtifactObject}
    (hmatches : Tools.ArtifactObject.Matches spec object) (hspec : SpecFits spec)
    (hoffset : object.offset < U64.size) (hbytes : object.bytes < U64.size) : Fits object := by
  cases object with
  | tensor object =>
    cases spec with
    | tensor spec =>
      obtain ⟨-, hshape, -, hlayout⟩ := hmatches
      refine ⟨hoffset, hbytes, ?_⟩
      intro l hl
      exact hspec l object.shape (hlayout.symm.trans hl) hshape.symm
    | resource spec => cases hmatches
  | resource object => exact ⟨hoffset, hbytes⟩

section Reading

variable {objects : List Tools.ArtifactObject} {ds : List ObjectDescriptor}

theorem end_le_lastEnd {cursor : Nat} (h : Tools.Placed cursor objects) :
    ∀ object ∈ objects, object.offset + object.bytes ≤ Tools.lastEnd cursor objects := by
  induction objects generalizing cursor with
  | nil => simp
  | cons first objects ih =>
    intro object hmem
    rcases List.mem_cons.mp hmem with rfl | hmem
    · exact Tools.le_lastEnd h.2.2
    · exact ih h.2.2 object hmem

theorem map_objectName (h : List.Forall₂ Describes objects ds) :
    ds.map objectName = objects.map Tools.ArtifactObject.name := by
  induction h with
  | nil => rfl
  | cons hfirst _ ih => rw [List.map_cons, List.map_cons, hfirst.name, ih]

/-- The payload of a descriptor is the slice of its object. -/
theorem payload_of_describes {reader : Reader} {object : Tools.ArtifactObject}
    {d : ObjectDescriptor} (hdescribes : Describes object d)
    (hsize : reader.file.length < U64.size)
    (hend : reader.payloadStart + (object.offset + object.bytes) ≤ reader.file.length) :
    reader.payload d = .ok ⟨reader.payloadStart + object.offset,
      (reader.file.drop (reader.payloadStart + object.offset)).take object.bytes⟩ := by
  unfold Reader.payload
  rw [hdescribes.offset, hdescribes.bytes]
  refine bind_of_eq_ok ((checkedAdd_eq_ok_iff (by omega)).mpr ⟨by omega, rfl⟩) ?_
  refine bind_of_eq_ok ((checkedAdd_eq_ok_iff (by omega)).mpr ⟨by omega, rfl⟩) ?_
  apply ensure_bind_eq_ok.mpr
  exact ⟨by omega, rfl⟩

/-- Three lists related position by position. -/
theorem forall₂_compose {α β γ : Type} {R : α → β → Prop} {S : β → γ → Prop} {T : α → γ → Prop}
    {as : List α} {bs : List β} {cs : List γ} (hab : List.Forall₂ R as bs)
    (hbc : List.Forall₂ S bs cs) (hT : ∀ a b c, b ∈ bs → c ∈ cs → R a b → S b c → T a c) :
    List.Forall₂ T as cs := by
  induction hab generalizing cs with
  | nil =>
    cases hbc
    exact .nil
  | cons hfirst _ ih =>
    cases hbc with
    | cons hfirst' hrest =>
      refine .cons (hT _ _ _ (List.mem_cons_self ..) (List.mem_cons_self ..) hfirst hfirst') ?_
      apply ih hrest
      intro a b c hb hc
      exact hT a b c (List.mem_cons_of_mem _ hb) (List.mem_cons_of_mem _ hc)

theorem forall₂_and {α β : Type} {R S : α → β → Prop} {as : List α} {bs : List β}
    (hR : List.Forall₂ R as bs) (hS : List.Forall₂ S as bs) :
    List.Forall₂ (fun a b => R a b ∧ S a b) as bs := by
  induction hR with
  | nil => exact .nil
  | cons hfirst _ ih =>
    cases hS with
    | cons hfirst' hrest => exact .cons ⟨hfirst, hfirst'⟩ (ih hrest)

end Reading

/-- The engine reads what the converter wrote: the identity, and for each entry in order the
descriptor its specification asks for and the bytes of its payload, also by name. -/
theorem read_written {parse : List UInt8 → Option Json} {identity : Tools.ArtifactIdentity}
    {entries : List (ObjectSpec × List (List UInt8))} {objects : List Tools.ArtifactObject}
    {file : List UInt8} (h : Tools.writeArtifact identity entries = .ok (objects, file))
    (hparse : parse (utf8 ((Tools.directoryJson identity objects).dumps [','] [':'])) =
      some (Tools.directoryJson identity objects))
    (hsize : file.length < U64.size) (hcounts : ∀ entry ∈ entries, SpecFits entry.1) :
    ∃ reader, Reader.openFile parse file = .ok reader ∧
      reader.identity = ⟨identity.modelId, identity.weightsId⟩ ∧
      List.Forall₂ (fun entry d => SameDescriptor entry.1 d ∧
        ∃ start, reader.payload d = .ok ⟨start, entry.2.flatten⟩ ∧
          reader.payloadByName (objectName d) = .ok ⟨start, entry.2.flatten⟩)
        entries reader.entries := by
  obtain ⟨directory, rest, hmodel, hweights, hplan, hne, hdirectory, hfile, hlength, hpayloads⟩ :=
    writeArtifact_spec h
  have hempty : directory ≠ [] := by
    rw [hdirectory]
    exact directoryJson_ne_nil identity objects
  rw [← hdirectory] at hparse
  clear hdirectory
  obtain ⟨hvalid, hmatches, hplaced, hnodup, hnames, -⟩ := Tools.planFrom_spec hplan
  have hmatches' : List.Forall₂ (fun entry object => Tools.ArtifactObject.Matches entry.1 object)
      entries objects := List.forall₂_map_left_iff.mp hmatches
  have hfits : ∀ object ∈ objects, Fits object := by
    intro object hobject
    have hend := end_le_lastEnd hplaced object hobject
    obtain ⟨i, hi, hget⟩ := List.mem_iff_getElem.mp hobject
    have hi' : i < entries.length := by rwa [hmatches'.length_eq]
    have hmatch : Tools.ArtifactObject.Matches entries[i].1 objects[i] := hmatches'.get hi' hi
    rw [hget] at hmatch
    exact fits_of_specFits hmatch (hcounts _ (List.getElem_mem hi')) (by omega) (by omega)
  obtain ⟨ds, hds, hopen⟩ := openFile_of_valid hfile hsize hempty hparse
    (by omega) hmodel hweights hne hvalid hfits hplaced (by omega) hnodup
  have hdsNodup : (ds.map objectName).Nodup := by
    rw [map_objectName hds]
    exact hnodup
  refine ⟨_, hopen, rfl, ?_⟩
  apply forall₂_compose (forall₂_and hmatches' hpayloads) hds
  rintro entry object d hobject hd ⟨hmatch, hslice⟩ hdescribes
  have hend := end_le_lastEnd hplaced object hobject
  refine ⟨sameDescriptor_of_describes hmatch hdescribes, roundUp (16 + directory.length) 4096 +
    object.offset, ?_, ?_⟩
  · rw [payload_of_describes hdescribes hsize (by dsimp only; omega)]
    dsimp only
    rw [hslice]
  · obtain ⟨i, hi⟩ := List.getElem?_of_mem hd
    unfold Reader.payloadByName Reader.find
    dsimp only
    rw [lookup_indexFrom hdsNodup hi, Nat.zero_add]
    dsimp only
    rw [hi]
    dsimp only
    rw [payload_of_describes hdescribes hsize (by dsimp only; omega)]
    dsimp only
    rw [hslice]

/-- **Artifacts are read as they were written, and the two size computations agree.** The engine
computes a size exactly when the converter does, the size fits 64 bits and the two counts do; and
it reads a file shorter than `2 ^ 64` bytes whose counts fit as it was written. -/
theorem artifact_round_trip :
    (∀ (layout : StorageLayout) (format : NumericFormat) (shape : List Nat) (s : Nat),
      (∀ dim ∈ shape, dim < U64.size) →
      (tensorEncodedSize layout format shape = .ok s ↔
        Tools.encodedSize (layoutName layout) (formatName format) (shape.map Int.ofNat) = .ok s ∧
          s < U64.size ∧ CountsFit layout shape)) ∧
    ∀ (parse : List UInt8 → Option Json) (identity : Tools.ArtifactIdentity)
      (entries : List (ObjectSpec × List (List UInt8))) (objects : List Tools.ArtifactObject)
      (file : List UInt8),
      Tools.writeArtifact identity entries = .ok (objects, file) →
      parse (utf8 ((Tools.directoryJson identity objects).dumps [','] [':'])) =
        some (Tools.directoryJson identity objects) →
      file.length < U64.size → (∀ entry ∈ entries, SpecFits entry.1) →
      ∃ reader, Reader.openFile parse file = .ok reader ∧
        reader.identity = ⟨identity.modelId, identity.weightsId⟩ ∧
        List.Forall₂ (fun entry d => SameDescriptor entry.1 d ∧
          ∃ start, reader.payload d = .ok ⟨start, entry.2.flatten⟩ ∧
            reader.payloadByName (objectName d) = .ok ⟨start, entry.2.flatten⟩)
          entries reader.entries := by
  constructor
  · intro layout format shape s hdims
    exact tensorEncodedSize_eq_ok_iff hdims
  · intro parse identity entries objects file h hparse hsize hcounts
    exact read_written h hparse hsize hcounts

/-- A block-scaled tensor of `2 ^ 32` rows and columns: the converter has a size for it that fits
64 bits, and the engine rejects it because its element count does not. -/
theorem encodedSize_disagrees :
    Tools.encodedSize "blockscale-k16-m128x4-v1" "NVFP4" [2 ^ 32, 2 ^ 32] =
        .ok (2 ^ 63 + 2 ^ 60 + 4) ∧
      2 ^ 63 + 2 ^ 60 + 4 < U64.size ∧
      tensorEncodedSize .blockScaleK16M128x4V1 .nvfp4 [2 ^ 32, 2 ^ 32] =
        .error ⟨"NVFP4 element count overflows u64"⟩ := by
  refine ⟨rfl, by decide, rfl⟩

/-- A resource and a tensor in two chunks. -/
def sampleEntries : List (ObjectSpec × List (List UInt8)) :=
  [(.resource ⟨"vocab", "raw-bytes-v1", 3⟩, [[1, 2, 3]]),
    (.tensor ⟨"norm", [2], "BF16", "contiguous-le-v1"⟩, [[4, 5], [6, 7]])]

/-- The sample is written, and read back by a parser that knows its directory. -/
theorem artifact_round_trip_sample :
    ∃ objects file reader, Tools.writeArtifact ⟨"model", "weights"⟩ sampleEntries =
        .ok (objects, file) ∧
      Reader.openFile (fun data =>
        if data = utf8 ((Tools.directoryJson ⟨"model", "weights"⟩ objects).dumps [','] [':']) then
          some (Tools.directoryJson ⟨"model", "weights"⟩ objects)
        else none) file = .ok reader ∧
      reader.identity = ⟨"model", "weights"⟩ ∧
      List.Forall₂ (fun entry d => SameDescriptor entry.1 d ∧
        ∃ start, reader.payload d = .ok ⟨start, entry.2.flatten⟩ ∧
          reader.payloadByName (objectName d) = .ok ⟨start, entry.2.flatten⟩)
        sampleEntries reader.entries := by
  obtain ⟨⟨objects, file⟩, hwrite⟩ := exists_ok_of_isOk
    (show (Tools.writeArtifact ⟨"model", "weights"⟩ sampleEntries).isOk = true by decide +kernel)
  obtain ⟨directory, rest, -, -, hplan, -, hdirectory, -, hlength, -⟩ := writeArtifact_spec hwrite
  have hobjects : objects = [.resource ⟨"vocab", "raw-bytes-v1", 0, 3⟩,
      .tensor ⟨"norm", [2], "BF16", "contiguous-le-v1", 256, 4⟩] :=
    (Except.ok.inj ((show Tools.planFrom 0 [] (sampleEntries.map Prod.fst) = .ok _ from rfl).symm.trans
      hplan)).symm
  have hshort : directory.length ≤ 4000 := by
    rw [hdirectory, hobjects]
    decide +kernel
  have hround : roundUp (16 + directory.length) 4096 ≤ 4096 :=
    roundUp_le (by decide) (Nat.dvd_refl _) (by omega)
  have hend : Tools.lastEnd 0 objects = 260 := by
    rw [hobjects]
    rfl
  obtain ⟨reader, hopen, hidentity, hentries⟩ := artifact_round_trip.2
    (fun data =>
      if data = utf8 ((Tools.directoryJson ⟨"model", "weights"⟩ objects).dumps [','] [':']) then
        some (Tools.directoryJson ⟨"model", "weights"⟩ objects)
      else none) _ _ _ _ hwrite (if_pos rfl) (by unfold U64.size; omega) (by
        intro entry hentry
        rcases List.mem_pair.mp hentry with rfl | rfl
        · trivial
        · intro l shape hl _
          cases l <;> first | exact absurd hl (by decide) | exact trivial)
  exact ⟨objects, file, reader, hwrite, hopen, hidentity, hentries⟩

end Ninfer.Artifact
