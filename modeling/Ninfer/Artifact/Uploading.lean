import Ninfer.Artifact.Coverage

/-!
# The upload

The loops of the materializer over chunks and spans. Up to a position of the file every byte of a
tensor is copied, once and to its own place, and none behind it; one chunk moves the position to its
end, and the bytes between two chunks belong to no tensor.

## Main definitions

* `Ready`: what precedes the first read
* `Platform.Reads`, `Platform.Serves`: what `pread` may deliver, and when it delivers enough
* `Returned`: a step that returns, or stops at a read that did not deliver enough
* `Uploaded`: the invariant of the loops

## Main results

* `Uploaded.chunk`: one chunk keeps the invariant
* `Uploaded.from`: so does a span
* `Uploaded.spans`: after the spans every byte is copied
-/

namespace Ninfer.Artifact.Materializer

open Staging

/-- `pread` delivers no more than it is asked for, and nothing behind the end of the file. -/
def Platform.Reads (platform : Platform) (length : Nat) : Prop :=
  ∀ n offset size count, platform.pread n offset size = some count →
    count ≤ min size (length - offset)

/-- Inside a span `pread` delivers what it is asked for, up to the end of the span at least. -/
def Platform.Serves (platform : Platform) (spans : List ReadSpan) : Prop :=
  ∀ span ∈ spans, ∀ n offset size, span.start ≤ offset → offset < span.stop →
    ∃ count, platform.pread n offset size = some count ∧ min size (span.stop - offset) ≤ count

/-- The two errors of a read that did not deliver enough. -/
def MaterializeError.IsRead (error : MaterializeError) : Prop :=
  error = .system "direct artifact read" ∨
    error = .artifact ⟨"direct artifact read ended before the planned tensor range"⟩

/-- The step returns with `P`, or a read that was not served stopped it. -/
def Returned {α : Type} (served : Prop) (step : Except MaterializeError α) (P : α → Prop) : Prop :=
  (∃ a, step = .ok a ∧ P a) ∨ ∃ e, step = .error e ∧ e.IsRead ∧ ¬served

section Returned

variable {α β : Type} {served : Prop} {P : α → Prop} {Q : β → Prop}

theorem Returned.bind {step : Except MaterializeError α} {f : α → Except MaterializeError β}
    (h : Returned served step P) (hf : ∀ a, P a → Returned served (f a) Q) :
    Returned served (step >>= f) Q := by
  rcases h with ⟨a, rfl, hp⟩ | ⟨e, rfl, he⟩
  · exact hf a hp
  · exact Or.inr ⟨e, rfl, he⟩

theorem returned_ok {a : α} (h : P a) : Returned served (.ok a) P := Or.inl ⟨a, rfl, h⟩

theorem Returned.imp {P' : α → Prop} {step : Except MaterializeError α}
    (h : Returned served step P) (himp : ∀ a, P a → P' a) : Returned served step P' := by
  rcases h with ⟨a, hstep, hp⟩ | he
  · exact Or.inl ⟨a, hstep, himp a hp⟩
  · exact Or.inr he

end Returned

/-- What `materialize` has established before it reads. -/
structure Ready (file : List UInt8) (staged : Staged) : Prop where
  ordered : Ordered staged.ranges
  targets : Targets staged.ranges
  within : ∀ range ∈ staged.ranges, range.sourceEnd ≤ file.length
  total : staged.total = bytesBefore file.length staged.ranges
  spans : Spans staged.ranges staged.spans
  slot_dvd : directIoAlignment ∣ staged.slotBytes
  slot_pos : 0 < staged.slotBytes
  slot_le : staged.slotBytes ≤ kSlotBytes
  count_pos : 0 < staged.slotCount
  fileBytes_le : staged.fileBytes ≤ file.length

/-- A `pread` that delivers all there is up to the end of the file serves the spans. -/
theorem Ready.serves {platform : Platform} {file : List UInt8} {staged : Staged}
    (h : Ready file staged)
    (hfull : ∀ n offset size,
      platform.pread n offset size = some (min size (file.length - offset))) :
    platform.Serves staged.spans := by
  intro span hs n offset size _ _
  obtain ⟨range, hr, hend⟩ := h.spans.ends span hs
  have := h.within range hr
  exact ⟨_, hfull n offset size, by omega⟩

/-- What was reported: more each time, and never all of it. -/
structure Reports (total published : Nat) (reports : List (Nat × Nat)) : Prop where
  increasing : reports.Pairwise fun a b => a.1 < b.1
  published : ∀ report ∈ reports, report.1 ≤ published ∧ report.2 = total

/-- The chunks copied so far, of which the last ends at `position`. -/
structure Batches (file : List UInt8) (ranges : List CopyRange) (position : Nat)
    (batches : List (Batch UInt8)) : Prop where
  window : ∀ batch ∈ batches, ∃ source chunkEnd, chunkEnd ≤ file.length ∧
    batch.data = (file.drop source).take (chunkEnd - source) ∧
      batch.pieces = piecesOf source chunkEnd ranges
  once : ∀ range ∈ ranges, ∀ x, range.sourceBegin ≤ x → x < range.sourceEnd →
    (batches.flatMap Batch.pieces).countP
        (fun piece => piece.Covers (range.destination + (x - range.sourceBegin))) =
      if x < position then 1 else 0

/-- **The invariant of the upload**: every byte of a tensor before `position` is copied and none
behind it, and the requests end at `asked`. -/
structure Uploaded (file : List UInt8) (staged : Staged) (progress : Bool) (position asked : Nat)
    (upload : Upload) : Prop where
  cursor : upload.cursor = staged.ranges.dropWhile fun range => range.sourceEnd ≤ position
  copied : upload.copied = bytesBefore position staged.ranges
  fileBytes : upload.fileBytes ≤ staged.fileBytes + position
  position_le : position ≤ file.length
  slots : upload.pending.length = staged.slotCount
  aligned : ∀ request ∈ upload.requests, directIoAlignment ∣ request.1 ∧
    directIoAlignment ∣ request.2 ∧ request.1 + request.2 ≤ asked
  apart : upload.requests.Pairwise fun a b => a.1 + a.2 ≤ b.1
  batches : ∃ batches : List (Batch UInt8), upload.program = batches.flatMap Batch.actions ∧
    Batches file staged.ranges position batches
  disciplined : ∀ rest : List (Action UInt8),
    Disciplined {slot | upload.pending[slot]? = some true} ∅ rest →
      Disciplined ∅ ∅ (upload.program ++ rest)
  published_le : upload.lastPublished ≤ upload.copied
  published_lt : 0 < staged.total → upload.lastPublished < staged.total
  reports : progress = true → Reports staged.total upload.lastPublished upload.reports
  silent : progress = false → upload.reports = []

theorem bytesBefore_eq_of_le {p q : Nat} {ranges : List CopyRange}
    (hp : ∀ range ∈ ranges, range.sourceEnd ≤ p) (hq : ∀ range ∈ ranges, range.sourceEnd ≤ q) :
    bytesBefore p ranges = bytesBefore q ranges := by
  unfold bytesBefore
  congr 1
  refine List.map_congr_left fun range hr => ?_
  have := hp range hr
  have := hq range hr
  omega

/-- A batch whose slot waits when it is pending keeps the discipline of the program. -/
theorem disciplined_append {pending : List Bool} {program rest : List (Action UInt8)}
    (h : ∀ rest : List (Action UInt8), Disciplined {slot | pending[slot]? = some true} ∅ rest →
      Disciplined ∅ ∅ (program ++ rest)) {slot : Nat} (hslot : slot < pending.length)
    (data : List UInt8) (pieces : List Piece)
    (hrest : Disciplined {s | (pending.set slot true)[s]? = some true} ∅ rest) :
    Disciplined ∅ ∅ (program ++ Batch.actions ⟨pending.getD slot false, slot, data, pieces⟩ ++
      rest) := by
  rw [List.append_assoc]
  apply h
  apply Disciplined.batch
  · -- the slots pending after the chunk
    refine hrest.mono (fun s hs => ?_) subset_rfl
    rcases Set.mem_insert_iff.mp hs with rfl | hs
    · simp [hslot]
    · exact Binder.getElem?_set_true hs
  · intro hpending
    have hpending : pending[slot]? = some true := hpending
    simp [hpending]

/-- What a read leaves in the staging buffer. -/
theorem readDirect_returned {platform : Platform} {file : List UInt8} {spans : List ReadSpan}
    {span : ReadSpan} {n source size destination : Nat} (hreads : platform.Reads file.length)
    (hspan : span ∈ spans) (hsource : span.start ≤ source) (hstop : source < span.stop)
    (haligned : directIoAlignment ∣ source) (hsize : directIoAlignment ∣ size)
    (hdestination : directIoAlignment ∣ destination) (hlimit : source < 2 ^ 63)
    (hsizeLimit : size < 2 ^ 63) :
    Returned (platform.Serves spans) (readDirect platform file n source size destination)
      fun data => ∃ count, count ≤ min size (file.length - source) ∧
        data = (file.drop source).take count ∧
        (platform.Serves spans → min size (span.stop - source) ≤ count) := by
  unfold readDirect
  rw [ensure_bind_of ⟨Nat.mod_eq_zero_of_dvd haligned, Nat.mod_eq_zero_of_dvd hsize,
    Nat.mod_eq_zero_of_dvd hdestination⟩, ensure_bind_of (by omega)]
  cases hread : platform.pread n source size with
  | none =>
    refine Or.inr ⟨_, rfl, Or.inl rfl, fun hserves => ?_⟩
    obtain ⟨count, hcount, -⟩ := hserves span hspan n source size hsource hstop
    simp [hread] at hcount
  | some count =>
    refine returned_ok ⟨count, hreads n source size count hread, rfl, fun hserves => ?_⟩
    obtain ⟨count', hcount, hle⟩ := hserves span hspan n source size hsource hstop
    rw [hread] at hcount
    cases hcount
    exact hle

variable {platform : Platform} {file : List UInt8} {staged : Staged} {progress : Bool}

/-- One more batch: it copies what lies before the end of its chunk and was not copied yet. -/
theorem Uploaded.batches_concat {source count position asked : Nat} {upload : Upload}
    (h : Uploaded file staged progress position asked upload) (hready : Ready file staged)
    (hposition : position ≤ source)
    (hgap : ∀ range ∈ staged.ranges, min source range.sourceEnd ≤ max position range.sourceBegin)
    (hend : source + count ≤ file.length) (waits : Bool) (slot : Nat) :
    ∃ batches : List (Batch UInt8),
      upload.program ++ Batch.actions ⟨waits, slot, (file.drop source).take count,
        piecesOf source (source + count) staged.ranges⟩ = batches.flatMap Batch.actions ∧
      Batches file staged.ranges (source + count) batches := by
  obtain ⟨batches, hprogram, hwindow, honce⟩ := h.batches
  refine ⟨batches ++ [⟨waits, slot, (file.drop source).take count,
    piecesOf source (source + count) staged.ranges⟩], by simp [hprogram], ?_, ?_⟩
  · intro batch hb
    rcases List.mem_append.mp hb with hb | hb
    · exact hwindow batch hb
    · rw [List.mem_singleton.mp hb]
      exact ⟨source, source + count, hend, by simp, rfl⟩
  · intro range hr x hbegin hstop
    rw [List.flatMap_append, List.countP_append, honce range hr x hbegin hstop,
      List.flatMap_singleton, countP_piecesOf hready.targets hr hbegin hstop]
    -- no byte of a tensor lies between the chunks
    have := hgap range hr
    split_ifs <;> omega

/-- One more report: more than was reported before. -/
theorem Uploaded.reports_concat {position position' asked : Nat} {upload : Upload}
    (h : Uploaded file staged progress position asked upload) (hprogress : progress = true)
    (hmono : bytesBefore position staged.ranges ≤ bytesBefore position' staged.ranges) :
    Reports staged.total
      (if (progress && decide (bytesBefore position' staged.ranges ≠ upload.lastPublished) &&
          decide (bytesBefore position' staged.ranges < staged.total)) = true then
        bytesBefore position' staged.ranges else upload.lastPublished)
      (upload.reports ++
        if (progress && decide (bytesBefore position' staged.ranges ≠ upload.lastPublished) &&
            decide (bytesBefore position' staged.ranges < staged.total)) = true then
          [(bytesBefore position' staged.ranges, staged.total)] else []) := by
  obtain ⟨hincreasing, hpublished⟩ := h.reports hprogress
  have hlast := h.published_le
  rw [h.copied] at hlast
  split_ifs with hmore
  · simp only [Bool.and_eq_true, decide_eq_true_eq, ne_eq] at hmore
    refine ⟨List.pairwise_append.mpr ⟨hincreasing, by simp, fun a ha b hb => ?_⟩, fun r hr => ?_⟩
    · have := (hpublished a ha).1
      rw [List.mem_singleton.mp hb]
      dsimp only
      omega
    · rcases List.mem_append.mp hr with hr | hr
      · have := hpublished r hr
        omega
      · rw [List.mem_singleton.mp hr]
        exact ⟨le_refl _, rfl⟩
  · rw [List.append_nil]
    exact ⟨hincreasing, hpublished⟩

variable (hready : Ready file staged) (hfile : file.length < 2 ^ 63)
  (hreads : platform.Reads file.length)
  (hpinned : ∀ slot, directIoAlignment ∣ platform.pinned slot)

include hready hfile hreads hpinned

section Span

variable {span : ReadSpan} {source position asked : Nat} {upload : Upload}
  (h : Uploaded file staged progress position asked upload) (hspan : span ∈ staged.spans)
  (hsource : span.start ≤ source) (hstop : source < span.stop)
  (haligned : directIoAlignment ∣ source) (hposition : position ≤ source)
  (hgap : ∀ range ∈ staged.ranges, min source range.sourceEnd ≤ max position range.sourceBegin)
  (hasked : asked ≤ source)

include h hspan hsource hstop haligned hposition hgap hasked

/-- **One chunk**: it copies every byte of a tensor up to its end. -/
theorem Uploaded.chunk :
    Returned (platform.Serves staged.spans)
      (uploadChunk platform file staged progress span source upload) fun upload' =>
        ∃ chunkEnd, min (source + staged.slotBytes) span.stop ≤ chunkEnd ∧
          chunkEnd ≤ source + min staged.slotBytes
            (roundUp (span.stop - source) directIoAlignment) ∧
          Uploaded file staged progress chunkEnd (source + min staged.slotBytes
            (roundUp (span.stop - source) directIoAlignment)) upload' := by
  -- Offsets are below 2 ^ 63 and so are requests: no sum of the source overflows.
  obtain ⟨last, hlast, hend⟩ := hready.spans.ends span hspan
  have hlength : span.stop ≤ file.length := hend ▸ hready.within last hlast
  have hround := roundUp_lt (span.stop - source)
  have hup := le_roundUp (span.stop - source) directIoAlignment_pos
  have hsize : (2 : Nat) ^ 63 + 2 ^ 63 = U64.size := by simp [U64.size]
  have hio : directIoAlignment < 2 ^ 63 := by simp [directIoAlignment]
  unfold uploadChunk
  dsimp only
  rw [alignUp_of_lt (by omega), ok_bind]
  generalize hrequest : min staged.slotBytes (roundUp (span.stop - source) directIoAlignment) =
    request
  have hdvd : directIoAlignment ∣ request := by
    rw [← hrequest]
    rcases Nat.le_total staged.slotBytes (roundUp (span.stop - source) directIoAlignment) with
      hle | hle
    · rw [Nat.min_eq_left hle]
      exact hready.slot_dvd
    · rw [Nat.min_eq_right hle]
      exact dvd_roundUp _ _
  have hslots : staged.slotBytes < 2 ^ 63 := hready.slot_le.trans_lt (by simp [kSlotBytes])
  refine (readDirect_returned hreads hspan hsource hstop haligned hdvd (hpinned _) (by omega)
    (by omega)).bind ?_
  rintro data ⟨count, hcount, rfl, hserved⟩
  have hdata : ((file.drop source).take count).length = count := by
    rw [List.length_take, List.length_drop]
    omega
  rw [hdata]
  by_cases hrequired : min request (span.stop - source) ≤ count
  swap
  · -- the read came short: it was not served
    rw [ensure_bind_of_not hrequired]
    exact Or.inr ⟨_, rfl, Or.inr rfl, fun hserves => hrequired (hserved hserves)⟩
  have hpos : 0 < request := by
    have := hready.slot_pos
    omega
  have hfileBytes := h.fileBytes
  have hstart := hready.fileBytes_le
  have hend' : source + count ≤ file.length := by omega
  have hbytes := bytesBefore_le 0 (source + count) hready.ordered
    (fun _ _ => Nat.zero_le _) (Nat.zero_le _)
  have hadd := bytesBefore_add staged.ranges (Nat.le_add_right source count)
  have hbefore := bytesBefore_congr hposition hgap
  rw [ensure_bind_of hrequired, checkedAdd_of_lt (by omega), ok_bind, checkedAdd_of_lt (by omega),
    ok_bind, h.cursor, dropWhile_dropWhile hposition, h.copied, hbefore,
    copyRanges_eq (hready.ordered.sublist (List.dropWhile_sublist _)) (by omega)
      (fun _ hr => lt_of_mem_dropWhile hready.ordered hr)
      (by rw [bytesWithin_dropWhile]; omega),
    ok_bind, bytesWithin_dropWhile, piecesOf_dropWhile, ← hadd,
    dropWhile_dropWhile (Nat.le_add_right source count)]
  refine returned_ok ⟨source + count, by omega, by omega, ?_⟩
  have hmono : bytesBefore position staged.ranges ≤ bytesBefore (source + count) staged.ranges :=
    bytesBefore_mono _ (by omega)
  have hslot : upload.nextSlot % staged.slotCount < upload.pending.length :=
    lt_of_lt_of_eq (Nat.mod_lt _ hready.count_pos) h.slots.symm
  exact {
    cursor := rfl
    copied := rfl
    fileBytes := by dsimp only; omega
    position_le := hend'
    slots := by simp [h.slots]
    aligned := by
      intro r hr
      rcases List.mem_append.mp hr with hr | hr
      · obtain ⟨hfirst, hsecond, hle⟩ := h.aligned r hr
        exact ⟨hfirst, hsecond, by omega⟩
      · rw [List.mem_singleton.mp hr]
        exact ⟨haligned, hdvd, le_refl _⟩
    apart := by
      rw [List.pairwise_append]
      refine ⟨h.apart, by simp, fun a ha b hb => ?_⟩
      rw [List.mem_singleton.mp hb]
      exact (h.aligned a ha).2.2.trans hasked
    batches := h.batches_concat hready hposition hgap hend' _ _
    disciplined := fun rest hrest => disciplined_append h.disciplined hslot _ _ hrest
    published_le := by
      have := h.published_le
      rw [h.copied] at this
      dsimp only
      split_ifs <;> omega
    published_lt := by
      intro htotal
      have := h.published_lt htotal
      dsimp only
      split_ifs with hpublished
      · simp only [Bool.and_eq_true, decide_eq_true_eq] at hpublished
        exact hpublished.2
      · exact this
    reports := fun hprogress => h.reports_concat hprogress hmono
    silent := fun hprogress => by simp [hprogress, h.silent hprogress] }

/-- **A span**: every byte of a tensor up to its end is copied. -/
theorem Uploaded.from :
    Returned (platform.Serves staged.spans)
      (uploadFrom platform file staged progress span source upload) fun upload' =>
        ∃ position' asked', span.stop ≤ position' ∧ position' ≤ asked' ∧
          asked' ≤ roundUp span.stop directIoAlignment ∧
          Uploaded file staged progress position' asked' upload' := by
  -- on what is left of the span
  induction hleft : span.stop - source using Nat.strong_induction_on generalizing source position
    asked upload with
  | _ left ih =>
    have hslot := hready.slot_pos
    have hup := le_roundUp (span.stop - source) directIoAlignment_pos
    have hround : roundUp span.stop directIoAlignment =
        source + roundUp (span.stop - source) directIoAlignment := by
      rw [← roundUp_add directIoAlignment_pos haligned, Nat.add_sub_cancel' hstop.le]
    rw [uploadFrom, if_pos ⟨hstop, hslot⟩]
    refine (h.chunk hready hfile hreads hpinned hspan hsource hstop haligned hposition hgap
      hasked).bind ?_
    rintro upload' ⟨chunkEnd, hlow, hhigh, hupload⟩
    by_cases hmore : source + staged.slotBytes < span.stop
    · -- the chunk filled its slot: the next one starts at its end
      have hchunk : chunkEnd = source + staged.slotBytes := by omega
      have hrequest : min staged.slotBytes (roundUp (span.stop - source) directIoAlignment) =
          staged.slotBytes := by omega
      rw [hrequest] at hupload
      subst hchunk
      exact ih _ (by omega) hupload (by omega) hmore (Nat.dvd_add haligned hready.slot_dvd)
        (le_refl _) (fun range _ => by omega) (le_refl _) rfl
    · -- the chunk reaches the end of the span
      rw [uploadFrom, if_neg (by omega)]
      exact returned_ok ⟨chunkEnd, _, by omega, hhigh, by omega, hupload⟩

end Span

/-- The spans that are left hold every range that is not copied. -/
theorem Uploaded.fold {spans : List ReadSpan} {position asked : Nat} {upload : Upload}
    (h : Uploaded file staged progress position asked upload)
    (hspans : ∀ span ∈ spans, span ∈ staged.spans)
    (hapart : spans.Pairwise fun a b => roundUp a.stop directIoAlignment < b.start)
    (hbehind : ∀ span ∈ spans, position ≤ span.start ∧ asked ≤ span.start)
    (hleft : ∀ range ∈ staged.ranges, range.sourceEnd ≤ position ∨
      ∃ span ∈ spans, span.start ≤ range.sourceBegin ∧ range.sourceEnd ≤ span.stop) :
    Returned (platform.Serves staged.spans)
      (spans.foldlM (fun upload span =>
        uploadFrom platform file staged progress span span.start upload) upload) fun upload' =>
        ∃ position' asked', (∀ range ∈ staged.ranges, range.sourceEnd ≤ position') ∧
          Uploaded file staged progress position' asked' upload' := by
  induction spans generalizing position asked upload with
  | nil =>
    refine returned_ok ⟨position, asked, fun range hr => ?_, h⟩
    rcases hleft range hr with hr | ⟨span, hs, -⟩
    · exact hr
    · cases hs
  | cons span spans ih =>
    simp only [List.mem_cons, forall_eq_or_imp] at hspans hbehind
    have hlater : ∀ s ∈ spans, roundUp span.stop directIoAlignment < s.start := fun s hs =>
      List.rel_of_pairwise_cons hapart hs
    have hpos := hready.spans.pos span hspans.1
    have hup := le_roundUp span.stop directIoAlignment_pos
    have hgap : ∀ range ∈ staged.ranges,
        min span.start range.sourceEnd ≤ max position range.sourceBegin := by
      intro range hr
      rcases hleft range hr with hr | ⟨s, hs, hbegin, -⟩
      · omega
      · rcases List.mem_cons.mp hs with rfl | hs
        · omega
        · have := hlater s hs
          omega
    rw [List.foldlM_cons]
    refine (h.from hready hfile hreads hpinned hspans.1 (le_refl _) hpos
      (hready.spans.aligned span hspans.1) hbehind.1.1 hgap hbehind.1.2).bind ?_
    rintro upload' ⟨position', asked', hstop, hle, hasked, hupload⟩
    refine ih hupload hspans.2 hapart.of_cons (fun s hs => ?_) fun range hr => ?_
    · have := hlater s hs
      omega
    · rcases hleft range hr with hr | ⟨s, hs, hbegin, hend⟩
      · have := hbehind.1.1
        omega
      · rcases List.mem_cons.mp hs with rfl | hs
        · exact Or.inl (hend.trans hstop)
        · exact Or.inr ⟨s, hs, hbegin, hend⟩

omit hfile hreads hpinned in
/-- Before the first chunk nothing is copied. -/
theorem uploaded_start :
    Uploaded file staged progress 0 0 (Upload.start staged progress) := by
  have hzero : bytesBefore 0 staged.ranges = 0 := by
    have := bytesBefore_le 0 0 hready.ordered (fun _ _ => Nat.zero_le _) (le_refl _)
    omega
  have hbusy : {slot : Nat | (List.replicate staged.slotCount false)[slot]? = some true} = ∅ := by
    ext slot
    simp [List.getElem?_replicate]
  exact {
    cursor := by
      have hnone : ∀ range ∈ staged.ranges, ¬range.sourceEnd ≤ 0 := fun range hr => by
        have := hready.ordered.pos range hr
        omega
      cases hranges : staged.ranges with
      | nil => simp [Upload.start, hranges]
      | cons range ranges =>
        have hfirst : range.sourceEnd ≠ 0 := fun he => hnone range (by simp [hranges]) he.le
        simp [Upload.start, hranges, hfirst]
    copied := hzero.symm
    fileBytes := le_refl _
    position_le := Nat.zero_le _
    slots := by simp [Upload.start]
    aligned := by simp [Upload.start]
    apart := by simp [Upload.start]
    batches := ⟨[], by simp [Upload.start], by simp, by simp⟩
    disciplined := fun rest hrest => by simpa [Upload.start, hbusy] using hrest
    published_le := le_refl _
    published_lt := id
    reports := fun hprogress => by
      subst hprogress
      exact ⟨by simp [Upload.start], by simp [Upload.start]⟩
    silent := fun hprogress => by simp [Upload.start, hprogress] }

/-- **The loop over the spans** copies every byte of every tensor, unless a read stops it. -/
theorem Uploaded.spans :
    Returned (platform.Serves staged.spans)
      (uploadSpans platform file staged progress (Upload.start staged progress)) fun upload =>
        upload.copied = staged.total ∧ upload.cursor = [] ∧
          ∃ asked, Uploaded file staged progress file.length asked upload := by
  refine ((uploaded_start hready).fold hready hfile hreads hpinned (fun _ hs => hs)
    hready.spans.apart (fun _ _ => ⟨Nat.zero_le _, Nat.zero_le _⟩)
    fun range hr => Or.inr (hready.spans.holds range hr)).imp ?_
  rintro upload ⟨position, asked, hall, h⟩
  have hcopied : upload.copied = staged.total := by
    rw [h.copied, hready.total, bytesBefore_eq_of_le hall hready.within]
  have hcursor : upload.cursor = [] := by
    rw [h.cursor, List.dropWhile_eq_nil_iff]
    simpa using hall
  refine ⟨hcopied, hcursor, asked, { h with
    cursor := ?_
    copied := hcopied.trans hready.total
    fileBytes := h.fileBytes.trans (Nat.add_le_add_left h.position_le _)
    position_le := le_refl _
    batches := ?_ }⟩
  · rw [hcursor, eq_comm, List.dropWhile_eq_nil_iff]
    simpa using hready.within
  · obtain ⟨batches, hprogram, hwindow, honce⟩ := h.batches
    refine ⟨batches, hprogram, hwindow, fun range hr x hbegin hend => ?_⟩
    have := hall range hr
    have := hready.within range hr
    rw [honce range hr x hbegin hend, if_pos (by omega), if_pos (by omega)]

end Ninfer.Artifact.Materializer
