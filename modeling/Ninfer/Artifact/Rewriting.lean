import Ninfer.Artifact.RoundTrip
import Ninfer.Artifact.Migration
import Ninfer.Commons.Splice

/-!
# A file whose metadata is being rewritten

What the reader of the converter makes of a version 1 file on its way to version 2. The rewritten
file opens with the identity and the objects of the plan. A file with the new magic and directory
but another length word does not open: a shorter directory is not a JSON text, and a longer one
either is none or moves the payload, so that the last object extends beyond the file.

## Main definitions

* `Prepared`: what the checks before the first write say of a file and its plan
* `ReadsDirectory`: what is used of the JSON parser
* `migrated`: the rewritten file

## Main results

* `prepare_spec`: the checks
* `openArtifact_migrated`: the rewritten file opens
* `openArtifact_otherWord`: a file with another length word does not
-/

namespace Ninfer.Artifact.Tools

section Words

theorem unpackWord_cons (byte : UInt8) (bytes : List UInt8) :
    unpackWord (byte :: bytes) = byte.toNat + 256 * unpackWord bytes := rfl

/-- Words of the same number of bytes are equal when they stand for the same number. -/
theorem unpackWord_inj {bytes bytes' : List UInt8} (hlength : bytes.length = bytes'.length)
    (h : unpackWord bytes = unpackWord bytes') : bytes = bytes' := by
  induction bytes generalizing bytes' with
  | nil => exact (List.length_eq_zero_iff.mp hlength.symm).symm
  | cons byte bytes ih =>
    cases bytes' with
    | nil => cases hlength
    | cons byte' bytes' =>
      rw [unpackWord_cons, unpackWord_cons] at h
      have hlt := byte.toNat_lt
      have hlt' := byte'.toNat_lt
      have hbyte : byte = byte' := UInt8.toNat_inj.mp (by omega)
      rw [hbyte, ih (Nat.succ.inj hlength) (by omega)]

theorem unpackWord_lt_pow (bytes : List UInt8) : unpackWord bytes < 256 ^ bytes.length := by
  induction bytes with
  | nil => decide
  | cons byte bytes ih =>
    have hlt := byte.toNat_lt
    rw [unpackWord_cons, List.length_cons, Nat.pow_succ]
    omega

theorem unpackWord_lt {word : List UInt8} (h : word.length = 8) : unpackWord word < U64.size := by
  have hlt := unpackWord_lt_pow word
  rw [h] at hlt
  exact hlt

end Words

section Ranges

variable {objects : List ArtifactObject}

/-- Objects that do not fit the payload. -/
theorem validateRanges_of_lt_lastEnd {payloadBytes cursor : Nat} (h : Placed cursor objects)
    (hcursor : cursor ≤ payloadBytes) (hend : payloadBytes < lastEnd cursor objects) :
    ∃ what, validateRanges payloadBytes cursor objects = .error (.artifactError what) := by
  induction objects generalizing cursor with
  | nil => exact absurd hcursor (Nat.not_le_of_lt hend)
  | cons object objects ih =>
    obtain ⟨hle, ⟨alignment, halignment, hmod⟩, hplaced⟩ := h
    unfold validateRanges
    rw [halignment, ok_bind]
    unfold ensure
    rw [if_pos hle, ok_bind, if_pos hmod, ok_bind]
    dsimp only
    split_ifs with hstop
    · exact ih hplaced hstop hend
    · exact ⟨_, rfl⟩

/-- The end of the last object. -/
theorem lastEnd_of_getLast? {object : ArtifactObject} {cursor : Nat}
    (h : objects.getLast? = some object) : lastEnd cursor objects = object.offset + object.bytes := by
  induction objects generalizing cursor with
  | nil => cases h
  | cons first objects ih =>
    cases objects with
    | nil =>
      cases h
      rfl
    | cons second objects =>
      rw [List.getLast?_cons_cons] at h
      show lastEnd (first.offset + first.bytes) (second :: objects) = _
      exact ih h

end Ranges

/-- What is known of a file and its plan once the checks have passed. -/
structure Prepared (tool : Tool) (file : List UInt8) (plan : Plan) : Prop where
  magic : file.take 8 = v1Magic
  payloadOffset : plan.directory.payloadOffset =
    roundUp (16 + unpackWord ((file.drop 8).take 8)) 4096
  positive : unpackWord ((file.drop 8).take 8) ≠ 0
  offset_le : plan.directory.payloadOffset ≤ file.length
  fileBytes : plan.directory.fileBytes = file.length
  known : plan.candidate ∈ tool.candidates
  modelId : plan.candidate.identity.modelId ≠ ""
  weightsId : plan.candidate.identity.weightsId ≠ ""
  planned : plan.planned ≠ []
  valid : ∀ object ∈ plan.planned, object.Valid
  placed : Placed 0 plan.planned
  nodup : (plan.planned.map ArtifactObject.name).Nodup
  lastEnd : lastEnd 0 plan.planned = file.length - plan.directory.payloadOffset
  encoded : plan.encoded = utf8 ((directoryJson plan.candidate.identity plan.planned).dumps
    [','] [':'])
  same_offset : roundUp (16 + plan.encoded.length) 4096 = plan.directory.payloadOffset

theorem candidateForModel_eq_ok {modelId : String} {candidates : List PublishedV1Artifact}
    {candidate : PublishedV1Artifact} (h : candidateForModel modelId candidates = .ok candidate) :
    candidate ∈ candidates := by
  unfold candidateForModel at h
  split at h
  · rename_i only honly
    cases h
    have hmem : candidate ∈ candidates.filter fun c => c.modelId == modelId := by
      rw [honly]
      exact List.mem_singleton_self _
    exact (List.mem_filter.mp hmem).1
  · cases h

theorem readV1Directory_eq_ok {loads : List UInt8 → Option Json} {file : List UInt8}
    {directory : V1Directory} (h : readV1Directory loads file = .ok directory) :
    file.take 8 = v1Magic ∧ unpackWord ((file.drop 8).take 8) ≠ 0 ∧
      directory.payloadOffset = roundUp (16 + unpackWord ((file.drop 8).take 8)) 4096 ∧
      directory.payloadOffset ≤ file.length ∧ directory.fileBytes = file.length := by
  obtain ⟨-, h⟩ := ensure_bind_eq_ok.mp h
  obtain ⟨hmagic, h⟩ := ensure_bind_eq_ok.mp h
  obtain ⟨hpositive, h⟩ := ensure_bind_eq_ok.mp h
  obtain ⟨⟨-, hle⟩, h⟩ := ensure_bind_eq_ok.mp h
  obtain ⟨⟨modelId, objects⟩, -, h⟩ := bind_eq_ok.mp h
  rw [← Except.ok.inj h]
  exact ⟨hmagic, hpositive, rfl, hle, rfl⟩

theorem planInventory_eq_ok {specs : List ObjectSpec} {planned : List ArtifactObject}
    (h : planInventory specs = .ok planned) : specs ≠ [] ∧ planFrom 0 [] specs = .ok planned := by
  unfold planInventory at h
  split at h
  · rename_i objects hobjects
    cases h
    exact ensure_bind_eq_ok.mp hobjects
  · cases h

theorem validateInventory_eq_ok {directory : V1Directory} {candidate : PublishedV1Artifact}
    {planned : List ArtifactObject} (h : validateInventory directory candidate = .ok planned) :
    ∃ specs, specs ≠ [] ∧ planFrom 0 [] specs = .ok planned ∧
      ∀ object ∈ planned.getLast?,
        object.offset + object.bytes = directory.fileBytes - directory.payloadOffset := by
  obtain ⟨-, h⟩ := ensure_bind_eq_ok.mp h
  obtain ⟨specs, -, h⟩ := bind_eq_ok.mp h
  obtain ⟨objects, hplan, h⟩ := bind_eq_ok.mp h
  obtain ⟨-, -, h⟩ := bind_eq_ok.mp h
  obtain ⟨hlast, h⟩ := ensure_bind_eq_ok.mp h
  cases Except.ok.inj h
  obtain ⟨hspecs, hplan⟩ := planInventory_eq_ok hplan
  exact ⟨specs, hspecs, hplan, hlast⟩

theorem prepare_spec {tool : Tool} {file : List UInt8} {plan : Plan}
    (h : tool.prepare file = .ok plan) : Prepared tool file plan := by
  obtain ⟨directory, hdirectory, h⟩ := bind_eq_ok.mp h
  obtain ⟨candidate, hcandidate, h⟩ := bind_eq_ok.mp h
  obtain ⟨-, -, h⟩ := bind_eq_ok.mp h
  obtain ⟨planned, hplanned, h⟩ := bind_eq_ok.mp h
  obtain ⟨-, -, h⟩ := bind_eq_ok.mp h
  obtain ⟨encoded, hencoded, h⟩ := bind_eq_ok.mp h
  obtain ⟨hsame, h⟩ := ensure_bind_eq_ok.mp h
  rw [← Except.ok.inj h]
  obtain ⟨hmagic, hpositive, hoffset, hle, hbytes⟩ := readV1Directory_eq_ok hdirectory
  obtain ⟨specs, hspecs, hplan, hlast⟩ := validateInventory_eq_ok hplanned
  obtain ⟨hvalid, hmatches, hplaced, hnodup, -, -⟩ := planFrom_spec hplan
  obtain ⟨identity, hidentity, -⟩ := bind_eq_ok.mp hencoded
  obtain ⟨hmodel, hweights, -⟩ := requireIdentity_eq_ok hidentity
  have hne : planned ≠ [] := by
    intro hnil
    rw [hnil] at hmatches
    exact hspecs (List.length_eq_zero_iff.mp hmatches.length_eq)
  have hend : lastEnd 0 planned = file.length - directory.payloadOffset := by
    have hget := List.getLast?_eq_some_getLast hne
    rw [lastEnd_of_getLast? hget, hlast _ hget, hbytes]
  exact ⟨hmagic, hoffset, hpositive, hle, hbytes, candidateForModel_eq_ok hcandidate, hmodel,
    hweights, hne, hvalid, hplaced, hnodup, hend, encodeDirectory_eq_ok hencoded, hsame⟩

/-- The white space of JSON. -/
def isWhitespace (byte : UInt8) : Bool := byte = 9 || byte = 10 || byte = 13 || byte = 32

/-- The parser reads back the directory of a plan, rejects it when it is cut short, and rejects
anything but white space after it. -/
structure ReadsDirectory (loads : List UInt8 → Option Json) (plan : Plan) : Prop where
  whole : loads plan.encoded = some (directoryJson plan.candidate.identity plan.planned)
  cut : ∀ k, k < plan.encoded.length → loads (plan.encoded.take k) = none
  extra : ∀ rest value, loads (plan.encoded ++ rest) = some value →
    value = directoryJson plan.candidate.identity plan.planned ∧ rest.all isWhitespace = true

/-- What the rewrite puts after the prefix: the directory and its padding. -/
def Plan.body (plan : Plan) : List UInt8 :=
  plan.encoded ++ List.replicate
    (plan.directory.payloadOffset - prefixBytes - plan.encoded.length) 0

/-- The prefix the rewrite puts. -/
def Plan.header (plan : Plan) : List UInt8 := magic ++ packWord plan.encoded.length

/-- The rewritten file. -/
def migrated (file : List UInt8) (plan : Plan) : List UInt8 :=
  plan.header ++ (plan.body ++ file.drop plan.directory.payloadOffset)

variable {tool : Tool} {file : List UInt8} {plan : Plan}

namespace Prepared

theorem encoded_le (h : Prepared tool file plan) :
    16 + plan.encoded.length ≤ plan.directory.payloadOffset := by
  rw [← h.same_offset]
  exact le_roundUp _ (by decide)

theorem length_body (h : Prepared tool file plan) :
    16 + plan.body.length = plan.directory.payloadOffset := by
  have := h.encoded_le
  unfold Plan.body prefixBytes
  rw [List.length_append, List.length_replicate]
  omega

theorem encoded_ne_nil (h : Prepared tool file plan) : plan.encoded ≠ [] := by
  rw [h.encoded]
  exact directoryJson_ne_nil _ _

theorem length_migrated (h : Prepared tool file plan) :
    (migrated file plan).length = file.length := by
  have hbody := h.length_body
  have hle := h.offset_le
  have hheader : plan.header.length = 16 := rfl
  unfold migrated
  rw [List.length_append, List.length_append, List.length_drop, hheader]
  omega

end Prepared

/-- The rewritten file opens, with the identity and the objects of the plan. -/
theorem openArtifact_migrated (h : Prepared tool file plan) (hreads : ReadsDirectory tool.loads plan)
    (hsize : plan.encoded.length < U64.size) :
    openArtifact tool.loads (migrated file plan) =
      .ok ⟨file.length, plan.directory.payloadOffset, plan.candidate.identity, plan.planned⟩ := by
  have hfile : migrated file plan = magic ++ (packWord plan.encoded.length ++ (plan.encoded ++
      (List.replicate (plan.directory.payloadOffset - prefixBytes - plan.encoded.length) 0 ++
        file.drop plan.directory.payloadOffset))) := by
    unfold migrated Plan.header Plan.body
    simp only [List.append_assoc]
  have hlength := h.length_migrated
  have hoffset := h.same_offset
  rw [openArtifact_of_valid hfile hsize h.encoded_ne_nil hreads.whole
    (by rw [hlength, hoffset]; exact h.offset_le) h.modelId h.weightsId h.planned h.valid h.placed
    (by rw [hlength, hoffset, h.lastEnd]) h.nodup, hlength, hoffset]

/-- What stands after the prefix of a rewritten file starts with the directory. -/
theorem body_append_drop (plan : Plan) (file : List UInt8) :
    plan.body ++ file.drop plan.directory.payloadOffset = plan.encoded ++
      (List.replicate (plan.directory.payloadOffset - prefixBytes - plan.encoded.length) 0 ++
        file.drop plan.directory.payloadOffset) := by
  unfold Plan.body
  rw [List.append_assoc]

/-- A directory that is read with more bytes than it has, and parses all the same, has no padding
after it. -/
theorem encoded_eq_of_extra (h : Prepared tool file plan) (hreads : ReadsDirectory tool.loads plan)
    {n : Nat} {value : Json} (hn : n ≠ 0)
    (hvalue : tool.loads (plan.encoded ++ (List.replicate
      (plan.directory.payloadOffset - prefixBytes - plan.encoded.length) 0 ++
        file.drop plan.directory.payloadOffset).take n) = some value) :
    value = directoryJson plan.candidate.identity plan.planned ∧
      16 + plan.encoded.length = plan.directory.payloadOffset := by
  have hle := h.encoded_le
  obtain ⟨hdocument, hspace⟩ := hreads.extra _ _ hvalue
  refine ⟨hdocument, ?_⟩
  obtain ⟨m, rfl⟩ := Nat.exists_eq_succ_of_ne_zero hn
  cases hpadding : plan.directory.payloadOffset - prefixBytes - plan.encoded.length with
  | zero =>
    unfold prefixBytes at hpadding
    omega
  | succ k =>
    -- the first byte of the padding is no white space
    rw [hpadding, List.replicate_succ, List.cons_append, List.take_succ_cons, List.all_cons] at hspace
    cases hspace

/-- A file with the new magic and directory, but a length word that is not the length of the
directory, does not open. -/
theorem openArtifact_otherWord (h : Prepared tool file plan)
    (hreads : ReadsDirectory tool.loads plan) {word : List UInt8} (hword : word.length = 8)
    (hne : unpackWord word ≠ plan.encoded.length) :
    ∃ what, openArtifact tool.loads
        (magic ++ (word ++ (plan.body ++ file.drop plan.directory.payloadOffset))) =
      .error (.artifactError what) := by
  have hmagic : magic.length = 8 := rfl
  have hlength : (magic ++ (word ++ (plan.body ++
      file.drop plan.directory.payloadOffset))).length = file.length := by
    have hbody := h.length_body
    have hle := h.offset_le
    rw [List.length_append, List.length_append, List.length_append, List.length_drop, hmagic, hword]
    omega
  have hdrop : (magic ++ (word ++ (plan.body ++ file.drop plan.directory.payloadOffset))).drop 8 =
      word ++ (plan.body ++ file.drop plan.directory.payloadOffset) := List.drop_left' hmagic
  have hrest : (magic ++ (word ++ (plan.body ++
      file.drop plan.directory.payloadOffset))).drop 16 =
      plan.body ++ file.drop plan.directory.payloadOffset := by
    rw [show 16 = 8 + 8 from rfl, ← List.drop_drop, hdrop, List.drop_left' hword]
  unfold openArtifact
  dsimp only
  rw [show prefixBytes = 16 from rfl, List.take_left' hmagic, hdrop, List.take_left' hword, hlength,
    hrest, body_append_drop]
  by_cases hshort : 16 ≤ file.length
  swap
  · exact ⟨_, ensure_bind_of_not hshort⟩
  unfold ensure
  rw [if_pos hshort, ok_bind, if_pos (show magic ≠ v1Magic by decide), ok_bind, if_pos rfl, ok_bind]
  split_ifs with hzero hfits hfits
  · rw [ok_bind, ok_bind]
    obtain ⟨hend, hoffset⟩ := hfits
    rcases Nat.lt_or_gt_of_ne hne with hlt | hgt
    · -- a strict part of the directory
      rw [List.take_append_of_le_length (Nat.le_of_lt hlt)]
      unfold parseDirectory
      rw [hreads.cut _ hlt]
      exact ⟨_, rfl⟩
    · obtain ⟨n, hn⟩ := Nat.exists_eq_add_of_le (Nat.le_of_lt hgt)
      rw [hn, List.take_length_add_append, ← hn]
      cases hloads : tool.loads (plan.encoded ++ (List.replicate
          (plan.directory.payloadOffset - prefixBytes - plan.encoded.length) 0 ++
            file.drop plan.directory.payloadOffset).take n) with
      | none =>
        unfold parseDirectory
        rw [hloads]
        exact ⟨_, rfl⟩
      | some value =>
        obtain ⟨rfl, hexact⟩ := encoded_eq_of_extra h hreads (by omega) hloads
        rw [parseDirectory_of_valid hloads h.modelId h.weightsId h.planned h.valid h.nodup, ok_bind]
        -- the payload starts later than planned
        have hlater : 16 + unpackWord word ≤ roundUp (16 + unpackWord word) 4096 :=
          le_roundUp _ (by decide)
        have hlast := h.lastEnd
        unfold alignUp payloadAlignment at hoffset ⊢
        obtain ⟨what, hwhat⟩ := validateRanges_of_lt_lastEnd h.placed
          (Nat.zero_le (file.length - roundUp (16 + unpackWord word) 4096)) (by omega)
        dsimp only
        rw [hwhat]
        exact ⟨what, rfl⟩
  · exact ⟨_, rfl⟩
  · exact ⟨_, rfl⟩
  · exact ⟨_, rfl⟩

end Ninfer.Artifact.Tools
