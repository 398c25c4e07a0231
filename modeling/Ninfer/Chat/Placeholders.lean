import Ninfer.Chat.Template
import Ninfer.Commons.Check
import Ninfer.Commons.Marks

/-!
# Placeholders of media

`targets/qwen3_6/impl/frontend/processor.cpp`: a rendered text has a pad for each of its media, which
is replaced by the pads of all its tokens, those of a video frame by frame. The text is edited in
place, from left to right, and the rewrite checkpoint moves with it.

## Main definitions

* `placeholder`: what the pad of an item is replaced by
* `expandItem`, `expandPlaceholders`: the loop over the items
* `padMarking`: the pads of a text
* `Expandable`: an item as `prepare_image` and `prepare_video` make it

## Main results

* `placeholder_eq_ok`: an item has its pads
* `expandFrom_spec`: the loop from a place of the text on
-/

namespace Ninfer.Chat

open Output (Bytes)
open Qwen (PromptModality VisionItem RewriteCheckpointKind kMerge)

/-! ## Replacements -/

/-- `kImagePad`. -/
def kImagePad : Bytes := lit "<|image_pad|>"

/-- `kVideoPad`. -/
def kVideoPad : Bytes := lit "<|video_pad|>"

/-- `kVisionStart`. -/
def kVisionStart : Bytes := lit "<|vision_start|>"

/-- `kVisionEnd`. -/
def kVisionEnd : Bytes := lit "<|vision_end|>"

/-- `repeat`. -/
def repeatText (value : Bytes) (count : Nat) : Except Exception Bytes :=
  if (2 ^ 64 - 1) / value.length < count then
    .error (.invalidArgument "vision placeholder expansion is too large")
  else .ok (List.replicate count value).flatten

/-- The nearest natural number, and the even one of two. -/
def roundHalfEven (value : Rat) : Nat :=
  let below := value.floor.toNat
  if value - below < 1 / 2 then below
  else if 1 / 2 < value - below then below + 1
  else if below % 2 = 0 then below
  else below + 1

/-- `std::fixed` with a precision of one digit. -/
def fixedTenths (value : Rat) : Bytes :=
  let tenths := roundHalfEven (|value| * 10)
  (if value < 0 then lit "-" else []) ++ utf8 (Json.decimal (tenths / 10)) ++ lit "." ++
    utf8 (Json.decimal (tenths % 10))

/-- The frames of a video in `placeholder`. -/
def placeholderFrames (frameTokens : Nat) : List Rat → Except Exception Bytes
  | [] => .ok []
  | timestamp :: timestamps => do
    let pads ← repeatText kVideoPad frameTokens
    let rest ← placeholderFrames frameTokens timestamps
    .ok (lit "<" ++ fixedTenths timestamp ++ lit " seconds>" ++ kVisionStart ++ pads ++
      kVisionEnd ++ rest)

/-- The tokens of one frame. -/
def frameTokens (item : VisionItem) : Nat :=
  item.grid.height / kMerge * (item.grid.width / kMerge)

/-- `placeholder`. -/
def placeholder (item : VisionItem) : Except Exception Bytes :=
  if item.modality = .image then repeatText kImagePad (frameTokens item)
  else if item.timestamps.length ≠ item.grid.temporal then
    .error (.logicError "video timestamp count does not match grid")
  else placeholderFrames (frameTokens item) item.timestamps

/-! ## The loop -/

/-- The pad of a modality. -/
def pad : PromptModality → Bytes
  | .image => kImagePad
  | .video => kVideoPad

/-- The modality that is not the given one. -/
def otherModality : PromptModality → PromptModality
  | .image => .video
  | .video => .image

/-- `text.find(needle, search)`. -/
def findFrom (needle text : Bytes) (search : Nat) : Option Nat :=
  (find needle (text.drop search)).map (search + ·)

/-- The text, and the cursor of the search in it. -/
structure Expanding where
  rendered : RenderedChat
  search : Nat := 0
  deriving DecidableEq, Repr

/-- Where a checkpoint is after a pad has been replaced. -/
def moveCheckpoint (position width size : Nat) (spec : RewriteCheckpointByteSpec) :
    Except Exception RewriteCheckpointByteSpec :=
  let finish := position + width
  if position < spec.offset ∧ spec.offset < finish then
    .error (.logicError "rewrite checkpoint intersects a media placeholder")
  else if finish ≤ spec.offset then .ok { spec with offset := spec.offset - width + size }
  else .ok spec

/-- The checkpoint of a text, if it has one, after a pad has been replaced. -/
def moveCheckpoint? (position width size : Nat) :
    Option RewriteCheckpointByteSpec → Except Exception (Option RewriteCheckpointByteSpec)
  | none => .ok none
  | some spec => (moveCheckpoint position width size spec).map some

/-- One turn of the loop of `expand_placeholders`. -/
def expandItem (st : Expanding) (item : VisionItem) : Except Exception Expanding :=
  let needle := pad item.modality
  let other := pad (otherModality item.modality)
  match findFrom needle st.rendered.text st.search with
  | none => .error (.invalidArgument "chat media order does not match rendered placeholders")
  | some position =>
    if (findFrom other st.rendered.text st.search).any (· < position) then
      .error (.invalidArgument "chat media order does not match rendered placeholders")
    else do
      let replacement ← placeholder item
      let checkpoint ← moveCheckpoint? position needle.length replacement.length
        st.rendered.rewriteCheckpoint
      .ok ⟨⟨st.rendered.text.take position ++ replacement ++
        st.rendered.text.drop (position + needle.length), checkpoint⟩,
        position + replacement.length⟩

/-- `expand_placeholders`, from a state of its loop on. -/
def expandFrom : Expanding → List VisionItem → Except Exception RenderedChat
  | st, [] =>
    if (findFrom kImagePad st.rendered.text st.search).isSome ∨
        (findFrom kVideoPad st.rendered.text st.search).isSome then
      .error (.invalidArgument "rendered chat has unbound vision placeholders")
    else .ok st.rendered
  | st, item :: items =>
    match expandItem st item with
    | .error e => .error e
    | .ok st => expandFrom st items

/-- `expand_placeholders`. -/
def expandPlaceholders (rendered : RenderedChat) (items : List VisionItem) :
    Except Exception RenderedChat := expandFrom { rendered := rendered } items

/-! ## Pads -/

/-- The pad at the front of a text. -/
def padMark (text : Bytes) : Option PromptModality :=
  if kImagePad.isPrefixOf text then some .image
  else if kVideoPad.isPrefixOf text then some .video
  else none

/-- The length of a pad. -/
def padWidth : Nat := 13

@[simp] theorem length_pad (m : PromptModality) : (pad m).length = padWidth := by
  cases m <;> decide

/-- A pad starts with a bracket, and has no other one like it. -/
theorem pad_eq_cons (m : PromptModality) :
    ∃ tail, pad m = 0x3c :: tail ∧ (0x3c : UInt8) ∉ tail ∧ (0x0a : UInt8) ∉ pad m := by
  refine ⟨(pad m).tail, ?_⟩
  cases m <;> decide

theorem pad_ne_nil (m : PromptModality) : pad m ≠ [] :=
  List.ne_nil_of_length_pos (by rw [length_pad]; decide)

theorem padMark_eq_some_iff {text : Bytes} {m : PromptModality} :
    padMark text = some m ↔ pad m <+: text := by
  unfold padMark
  simp only [List.isPrefixOf_iff_prefix]
  -- Both pads have the same length, and they are not equal.
  have hboth : ¬(kImagePad <+: text ∧ kVideoPad <+: text) := by
    rintro ⟨himage, hvideo⟩
    have hsame := List.prefix_of_prefix_length_le himage hvideo (by decide)
    exact absurd (hsame.eq_of_length (by decide)) (by decide)
  split_ifs with himage hvideo
  · cases m with
    | image => exact iff_of_true rfl himage
    | video => exact iff_of_false nofun fun hvideo => hboth ⟨himage, hvideo⟩
  · cases m with
    | image => exact iff_of_false nofun himage
    | video => exact iff_of_true rfl hvideo
  · cases m with
    | image => exact iff_of_false nofun himage
    | video => exact iff_of_false nofun hvideo

/-- The pads of a text. -/
def padMarking : Marking UInt8 PromptModality where
  mark := padMark
  width := padWidth
  positive := by decide
  length_le := fun {s m} h => by
    rw [← length_pad m]
    exact (padMark_eq_some_iff.mp h).length_le
  append := fun {s} t hlen => by
    have hiff : ∀ m, padMark (s ++ t) = some m ↔ padMark s = some m := by
      intro m
      rw [padMark_eq_some_iff, padMark_eq_some_iff]
      refine ⟨fun h => ?_, fun h => h.trans (List.prefix_append s t)⟩
      exact List.prefix_of_prefix_length_le h (List.prefix_append s t) (by rw [length_pad]; exact hlen)
    exact Option.ext fun m => hiff m
  apart := fun {s m} j h hpos hj => by
    obtain ⟨tail, hpad, htail, -⟩ := pad_eq_cons m
    have hlen := length_pad m
    rw [padMark_eq_some_iff, hpad] at h
    rw [hpad, List.length_cons] at hlen
    obtain ⟨rest, rfl⟩ := h
    -- The next item is inside the pad, where no pad starts.
    obtain ⟨j, rfl⟩ := Nat.exists_eq_succ_of_ne_zero (Nat.ne_of_gt hpos)
    have hlt : j < tail.length := by omega
    rw [List.cons_append, List.drop_succ_cons, List.drop_append_of_le_length hlt.le,
      List.drop_eq_getElem_cons hlt, List.cons_append]
    cases hmark : padMark (tail[j] :: (tail.drop (j + 1) ++ rest)) with
    | none => rfl
    | some m' =>
      obtain ⟨tail', hpad', -⟩ := pad_eq_cons m'
      rw [padMark_eq_some_iff, hpad', List.cons_prefix_cons] at hmark
      exact absurd (hmark.1 ▸ List.getElem_mem hlt) htail

/-- The pads of a text, from left to right. -/
abbrev pads (text : Bytes) : List PromptModality := padMarking.marks text

theorem mark_eq_some_iff {text : Bytes} {m : PromptModality} :
    padMarking.mark text = some m ↔ pad m <+: text := padMark_eq_some_iff

/-! ## Items -/

/-- An item as `prepare_image` and `prepare_video` make it: the extents fit `int32`, and a video has
a timestamp for each of its frames. -/
structure Expandable (item : VisionItem) : Prop where
  height : item.grid.height < 2 ^ 31
  width : item.grid.width < 2 ^ 31
  timestamps : item.modality = .video → item.timestamps.length = item.grid.temporal

/-- What the pad of an item is replaced by. -/
def expansion (item : VisionItem) : Bytes :=
  match item.modality with
  | .image => (List.replicate (frameTokens item) kImagePad).flatten
  | .video => item.timestamps.flatMap fun timestamp =>
      lit "<" ++ fixedTenths timestamp ++ lit " seconds>" ++ kVisionStart ++
        (List.replicate (frameTokens item) kVideoPad).flatten ++ kVisionEnd

theorem frameTokens_le {item : VisionItem} (h : Expandable item) :
    frameTokens item ≤ (2 ^ 64 - 1) / padWidth := by
  have hheight : item.grid.height / kMerge ≤ 2 ^ 30 := by
    have := h.height
    unfold kMerge
    omega
  have hwidth : item.grid.width / kMerge ≤ 2 ^ 30 := by
    have := h.width
    unfold kMerge
    omega
  exact (Nat.mul_le_mul hheight hwidth).trans (by decide)

theorem repeatText_eq_ok (m : PromptModality) {item : VisionItem} (h : Expandable item) :
    repeatText (pad m) (frameTokens item) =
      .ok (List.replicate (frameTokens item) (pad m)).flatten := by
  rw [repeatText, length_pad, if_neg (Nat.not_lt.mpr (frameTokens_le h))]

/-- **An item has its pads.** -/
theorem placeholder_eq_ok {item : VisionItem} (h : Expandable item) :
    placeholder item = .ok (expansion item) := by
  have hframes : ∀ timestamps, placeholderFrames (frameTokens item) timestamps =
      .ok (timestamps.flatMap fun timestamp => lit "<" ++ fixedTenths timestamp ++
        lit " seconds>" ++ kVisionStart ++ (List.replicate (frameTokens item) kVideoPad).flatten ++
          kVisionEnd) := by
    intro timestamps
    induction timestamps with
    | nil => rfl
    | cons timestamp timestamps ih =>
      have hpads := repeatText_eq_ok .video h
      rw [pad] at hpads
      rw [placeholderFrames, hpads, ok_bind, ih, ok_bind, List.flatMap_cons]
  unfold placeholder expansion
  cases hm : item.modality with
  | image =>
    rw [if_pos rfl]
    exact repeatText_eq_ok .image h
  | video => rw [if_neg (by decide), if_neg (by rw [not_not]; exact h.timestamps hm), hframes]

/-! ## One turn -/

section Turn

variable {before word rest : Bytes} {m : PromptModality}

theorem find_pad (hfree : padMarking.Free before.length (before ++ (word ++ rest)))
    (hmark : padMarking.mark (word ++ rest) = some m) :
    find (pad m) (before ++ (word ++ rest)) = some before.length := by
  rw [find_eq_some_iff (pad_ne_nil m), List.drop_left]
  refine ⟨mark_eq_some_iff.mp hmark, fun j hj h => ?_⟩
  have hnone := hfree j hj
  rw [mark_eq_some_iff.mpr h] at hnone
  exact nomatch hnone

/-- The other pad is behind the first one, if there is one. -/
theorem lt_of_find_other (hfree : padMarking.Free before.length (before ++ (word ++ rest)))
    (hmark : padMarking.mark (word ++ rest) = some m) {m' : PromptModality} (hm : m' ≠ m)
    {k : Nat} (hfind : find (pad m') (before ++ (word ++ rest)) = some k) : before.length < k := by
  have hk := mark_eq_some_iff.mpr (find_eq_some hfind).1
  rcases Nat.lt_trichotomy k before.length with hlt | heq | hlt
  · rw [hfree k hlt] at hk
    exact nomatch hk
  · rw [heq, List.drop_left, hmark] at hk
    exact absurd (Option.some.inj hk).symm hm
  · exact hlt

theorem find_pad_of_pads_nil {text : Bytes} (h : pads text = []) (m : PromptModality) :
    find (pad m) text = none := by
  cases hfind : find (pad m) text with
  | none => rfl
  | some k =>
    have hmark := mark_eq_some_iff.mpr (find_eq_some hfind).1
    rw [Marking.marks_eq_nil_iff.mp h (k + 1) k (Nat.lt_succ_self k)] at hmark
    exact nomatch hmark

theorem otherModality_ne (m : PromptModality) : otherModality m ≠ m := by cases m <;> decide

theorem eq_otherModality {m m' : PromptModality} (h : m' ≠ m) : m = otherModality m' := by
  cases m <;> cases m' <;> first | rfl | exact absurd rfl h

/-- Where an offset is after a pad has been replaced. -/
def moved (position size offset : Nat) : Nat :=
  if position + padWidth ≤ offset then offset - padWidth + size else offset

theorem moved_of_lt {position size offset : Nat} (h : offset < position + padWidth) :
    moved position size offset = offset := if_neg (Nat.not_le.mpr h)

theorem moved_of_le {position size offset : Nat} (h : position + padWidth ≤ offset) :
    moved position size offset = offset - padWidth + size := if_pos h

/-- **One turn** replaces the first pad behind the cursor. -/
theorem expandItem_eq_ok {out : Bytes} {checkpoint : Option RewriteCheckpointByteSpec}
    {item : VisionItem} (hitem : Expandable item) (hwidth : word.length = padWidth)
    (hfree : padMarking.Free before.length (before ++ (word ++ rest)))
    (hmark : padMarking.mark (word ++ rest) = some item.modality)
    (houtside : ∀ spec ∈ checkpoint, ¬(out.length + before.length < spec.offset ∧
      spec.offset < out.length + before.length + padWidth)) :
    expandItem ⟨⟨out ++ (before ++ (word ++ rest)), checkpoint⟩, out.length⟩ item =
      .ok ⟨⟨out ++ before ++ expansion item ++ rest, checkpoint.map fun spec =>
          { spec with
            offset := moved (out.length + before.length) (expansion item).length spec.offset }⟩,
        (out ++ before ++ expansion item).length⟩ := by
  have hneedle : findFrom (pad item.modality) (out ++ (before ++ (word ++ rest))) out.length =
      some (out.length + before.length) := by
    rw [findFrom, List.drop_left, find_pad hfree hmark]
    rfl
  have hother : (findFrom (pad (otherModality item.modality)) (out ++ (before ++ (word ++ rest)))
      out.length).any (· < out.length + before.length) = false := by
    rw [findFrom, List.drop_left]
    cases hfind : find (pad (otherModality item.modality)) (before ++ (word ++ rest)) with
    | none => rfl
    | some k =>
      have hlt := lt_of_find_other hfree hmark (otherModality_ne _) hfind
      simp only [Option.map_some, Option.any_some, decide_eq_false_iff_not]
      omega
  have hmove : moveCheckpoint? (out.length + before.length) padWidth (expansion item).length
      checkpoint = .ok (checkpoint.map fun spec => { spec with
        offset := moved (out.length + before.length) (expansion item).length spec.offset }) := by
    cases checkpoint with
    | none => rfl
    | some spec =>
      rw [moveCheckpoint?, moveCheckpoint, if_neg (houtside spec rfl), Option.map_some]
      split_ifs with hle
      · rw [moved_of_le hle]
        rfl
      · rw [moved_of_lt (Nat.not_le.mp hle)]
        rfl
  have hfront : (out ++ (before ++ (word ++ rest))).take (out.length + before.length) =
      out ++ before := by
    rw [← List.append_assoc, ← List.length_append, List.take_left]
  have hback : (out ++ (before ++ (word ++ rest))).drop (out.length + before.length + padWidth) =
      rest := by
    rw [← hwidth, Nat.add_assoc, ← List.drop_drop, List.drop_left, ← List.drop_drop, List.drop_left,
      List.drop_left]
  unfold expandItem
  dsimp only
  rw [hneedle]
  dsimp only
  rw [hother, if_neg Bool.false_ne_true, placeholder_eq_ok hitem, ok_bind, length_pad, hmove, ok_bind,
    hfront, hback]
  simp only [List.length_append]

/-- A pad that is not that of the item. -/
theorem expandItem_eq_error {out : Bytes} {checkpoint : Option RewriteCheckpointByteSpec}
    {item : VisionItem} (hfree : padMarking.Free before.length (before ++ (word ++ rest)))
    (hmark : padMarking.mark (word ++ rest) = some m) (hm : item.modality ≠ m) :
    expandItem ⟨⟨out ++ (before ++ (word ++ rest)), checkpoint⟩, out.length⟩ item =
      .error (.invalidArgument "chat media order does not match rendered placeholders") := by
  obtain rfl := eq_otherModality hm
  unfold expandItem
  dsimp only
  cases hfind : findFrom (pad item.modality) (out ++ (before ++ (word ++ rest))) out.length with
  | none => rfl
  | some position =>
    rw [findFrom, List.drop_left] at hfind
    obtain ⟨k, hk, rfl⟩ := Option.map_eq_some_iff.mp hfind
    have hlt := lt_of_find_other hfree hmark hm hk
    have hother : (findFrom (pad (otherModality item.modality)) (out ++ (before ++ (word ++ rest)))
        out.length).any (· < out.length + k) = true := by
      rw [findFrom, List.drop_left, find_pad hfree hmark]
      simpa using hlt
    exact if_pos hother

end Turn

/-! ## The loop -/

section Loop

/-- An offset that no pad of the rest of a text covers. -/
def Outside (out rest : Bytes) (offset : Nat) : Prop :=
  offset ≤ out.length + rest.length ∧ ¬padMarking.Inside rest (offset - out.length)

/-- Where an offset is in the end: where it is in what has been edited already, or behind the
expansion of what is in front of it. -/
def finalOffset (out rest : Bytes) (texts : List Bytes) (offset : Nat) : Nat :=
  if offset ≤ out.length then offset
  else out.length + (padMarking.substitute texts (rest.take (offset - out.length))).length

variable {out before word rest : Bytes} {m : PromptModality} {offset : Nat}

/-- The pad in front is replaced, and an offset that it does not cover moves with the text. -/
theorem finalOffset_moved (text : Bytes) (texts : List Bytes) (hwidth : word.length = padWidth)
    (hfree : padMarking.Free before.length (before ++ (word ++ rest)))
    (hmark : padMarking.mark (word ++ rest) = some m)
    (houtside : Outside out (before ++ (word ++ rest)) offset) :
    finalOffset (out ++ before ++ text) rest texts
        (moved (out.length + before.length) text.length offset) =
      finalOffset out (before ++ (word ++ rest)) (text :: texts) offset := by
  obtain ⟨hle, hinside⟩ := houtside
  rw [List.length_append, List.length_append, hwidth] at hle
  have hwidth' : padMarking.width = padWidth := rfl
  have hpositive : 0 < padWidth := by decide
  unfold finalOffset
  rw [List.length_append, List.length_append]
  by_cases hout : offset ≤ out.length
  · rw [moved_of_lt (by omega), if_pos (by omega), if_pos hout]
  rw [if_neg hout]
  by_cases hbefore : offset ≤ out.length + before.length
  · -- The offset is in front of the pad.
    have htake : (before ++ (word ++ rest)).take (offset - out.length) =
        before.take (offset - out.length) := List.take_append_of_le_length (by omega)
    have hkept := Marking.substitute_of_free (text :: texts) (hfree.take (offset - out.length))
    rw [htake, List.take_take, List.drop_eq_nil_of_le (by rw [List.length_take]; omega),
      Nat.min_eq_right (by omega)] at hkept
    rw [moved_of_lt (by omega), if_pos (by omega), htake, hkept, List.length_append,
      List.length_take]
    show offset = out.length + (min (offset - out.length) before.length + 0)
    omega
  · have hmarked : padMarking.mark ((before ++ (word ++ rest)).drop before.length) = some m := by
      rw [List.drop_left, hmark]
    -- The offset is not inside the pad, so it is behind.
    have hbehind : out.length + before.length + padWidth ≤ offset := by
      by_contra hlt
      exact hinside ⟨before.length, m, hmarked, by omega, by rw [hwidth']; omega⟩
    obtain ⟨k, rfl⟩ := Nat.exists_eq_add_of_le hbehind
    have hk : out.length + before.length + padWidth + k - out.length =
        before.length + (padWidth + k) := by omega
    have htake : (before ++ (word ++ rest)).take (before.length + (padWidth + k)) =
        before ++ (word ++ rest.take k) := by
      rw [List.take_length_add_append, ← hwidth, List.take_length_add_append]
    have hfree' := hfree.take (before.length + (padWidth + k))
    rw [htake] at hfree'
    have hmark' : padMarking.mark (word ++ rest.take k) = some m := by
      rw [padMarking.append _ (Nat.le_of_eq hwidth.symm), ← hmark,
        padMarking.append _ (Nat.le_of_eq hwidth.symm)]
    rw [moved_of_le hbehind, hk, htake,
      Marking.substitute_append_mark text texts hfree' hmark' hwidth, List.length_append,
      List.length_append]
    cases k with
    | zero =>
      rw [if_pos (by omega), List.take_zero]
      show _ = out.length + (before.length + (text.length + 0))
      omega
    | succ k =>
      rw [if_neg (by omega)]
      have hrest : out.length + before.length + padWidth + (k + 1) - padWidth + text.length -
          (out.length + before.length + text.length) = k + 1 := by omega
      rw [hrest]
      omega

theorem Outside.moved {size : Nat} (text : Bytes) (hwidth : word.length = padWidth)
    (hsize : text.length = size) (hmark : padMarking.mark (word ++ rest) = some m)
    (houtside : Outside out (before ++ (word ++ rest)) offset) :
    Outside (out ++ before ++ text) rest (moved (out.length + before.length) size offset) := by
  obtain ⟨hle, hinside⟩ := houtside
  have hwidth' : padMarking.width = padWidth := rfl
  rw [List.length_append, List.length_append, hwidth] at hle
  have hpositive : 0 < padWidth := by decide
  unfold Outside
  rw [List.length_append, List.length_append, hsize]
  by_cases hbehind : out.length + before.length + padWidth ≤ offset
  · rw [moved_of_le hbehind]
    refine ⟨by omega, fun ⟨i, m', hmark', hlt, hgt⟩ => hinside ?_⟩
    rw [hwidth'] at hgt
    -- A pad of the rest is a pad of the text.
    refine ⟨before.length + (padWidth + i), m', ?_, by omega, by rw [hwidth']; omega⟩
    rw [← List.drop_drop, List.drop_left, ← hwidth, ← List.drop_drop, List.drop_left, hmark']
  · have hfront : offset ≤ out.length + before.length := by
      by_contra hlt
      refine hinside ⟨before.length, m, ?_, by omega, by rw [hwidth']; omega⟩
      rw [List.drop_left, hmark]
    rw [moved_of_lt (by omega)]
    exact ⟨by omega, fun ⟨i, m', hmark', hlt, hgt⟩ => by omega⟩

/-- **The loop from a place of the text on** replaces all pads behind the place. It ends if these are
the pads of the items. -/
theorem expandFrom_spec {items : List VisionItem} (hitems : ∀ item ∈ items, Expandable item)
    {checkpoint : Option RewriteCheckpointByteSpec}
    (houtside : ∀ spec ∈ checkpoint, Outside out rest spec.offset) :
    (pads rest = items.map (·.modality) →
      expandFrom ⟨⟨out ++ rest, checkpoint⟩, out.length⟩ items =
        .ok ⟨out ++ padMarking.substitute (items.map expansion) rest, checkpoint.map fun spec =>
          { spec with offset := finalOffset out rest (items.map expansion) spec.offset }⟩) ∧
    (pads rest ≠ items.map (·.modality) → ∃ what,
      expandFrom ⟨⟨out ++ rest, checkpoint⟩, out.length⟩ items = .error (.invalidArgument what)) := by
  induction items generalizing out rest checkpoint with
  | nil =>
    refine ⟨fun hpads => ?_, fun hpads => ⟨"rendered chat has unbound vision placeholders", ?_⟩⟩
    · have hnone : ∀ m, findFrom (pad m) (out ++ rest) out.length = none := by
        intro m
        rw [findFrom, List.drop_left, find_pad_of_pads_nil hpads]
        rfl
      have himage : findFrom kImagePad (out ++ rest) out.length = none := hnone .image
      have hvideo : findFrom kVideoPad (out ++ rest) out.length = none := hnone .video
      rw [expandFrom, himage, hvideo, if_neg (by simp), Marking.substitute_of_marks_nil _ hpads]
      congr 2
      cases checkpoint with
      | none => rfl
      | some spec =>
        have hkept : ∀ k, padMarking.substitute ([] : List Bytes) (rest.take k) = rest.take k := by
          intro k
          refine Marking.substitute_of_marks_nil _ (Marking.marks_eq_nil_iff.mpr fun n => ?_)
          exact (Marking.marks_eq_nil_iff.mp hpads n).take k
        have hle := (houtside spec rfl).1
        have hsame : finalOffset out rest [] spec.offset = spec.offset := by
          rw [finalOffset, hkept, List.length_take]
          split_ifs <;> omega
        rw [Option.map_some, List.map_nil, hsame]
    · obtain ⟨m, ms, hcons⟩ := List.exists_cons_of_ne_nil hpads
      obtain ⟨before, word, rest, rfl, hfree, -, hmark, -⟩ := Marking.exists_of_marks_cons hcons
      have hfound : findFrom (pad m) (out ++ (before ++ (word ++ rest))) out.length =
          some (out.length + before.length) := by
        rw [findFrom, List.drop_left, find_pad hfree hmark]
        rfl
      rw [expandFrom, if_pos]
      cases m with
      | image => exact .inl (Option.isSome_of_eq_some hfound)
      | video => exact .inr (Option.isSome_of_eq_some hfound)
  | cons item items ih =>
    obtain ⟨hitem, hitems⟩ := List.forall_mem_cons.mp hitems
    cases hpads : pads rest with
    | nil =>
      refine ⟨nofun, fun _ => ⟨"chat media order does not match rendered placeholders", ?_⟩⟩
      rw [expandFrom, expandItem]
      dsimp only
      rw [findFrom, List.drop_left, find_pad_of_pads_nil hpads]
      rfl
    | cons m ms =>
      obtain ⟨before, word, rest, rfl, hfree, hwidth, hmark, hrest⟩ :=
        Marking.exists_of_marks_cons hpads
      by_cases hm : item.modality = m
      -- The first placeholder is replaced, and the text behind it is a shorter instance.
      · obtain rfl := hm
        have hcover : ∀ spec ∈ checkpoint, ¬(out.length + before.length < spec.offset ∧
            spec.offset < out.length + before.length + padWidth) := by
          rintro spec hspec ⟨hlt, hgt⟩
          have hwidth' : padMarking.width = padWidth := rfl
          refine (houtside spec hspec).2 ⟨before.length, item.modality, ?_, by omega,
            by rw [hwidth']; omega⟩
          rw [List.drop_left, hmark]
        have hstep := expandItem_eq_ok hitem hwidth hfree hmark hcover
        have hnext := @ih (out ++ before ++ expansion item) rest hitems
          (checkpoint.map fun spec => { spec with
            offset := moved (out.length + before.length) (expansion item).length spec.offset }) (by
            intro spec hspec
            obtain ⟨old, hold, rfl⟩ := Option.mem_map.mp hspec
            exact (houtside old hold).moved (expansion item) hwidth rfl hmark)
        have hrest' : pads rest = ms := hrest
        rw [hrest'] at hnext
        rw [List.map_cons, expandFrom, hstep]
        refine ⟨fun heq => ?_, fun hne => ?_⟩
        · dsimp only
          rw [hnext.1 (List.cons.inj heq).2, List.map_cons,
            Marking.substitute_append_mark (expansion item) _ hfree hmark hwidth, Option.map_map]
          congr 2
          · simp only [List.append_assoc]
          · cases checkpoint with
            | none => rfl
            | some spec =>
              rw [Option.map_some, Option.map_some, Function.comp_apply,
                finalOffset_moved _ _ hwidth hfree hmark (houtside spec rfl)]
        · exact hnext.2 fun heq => hne (by rw [heq])
      · refine ⟨fun heq => absurd (List.cons.inj heq).1.symm hm, fun _ =>
          ⟨"chat media order does not match rendered placeholders", ?_⟩⟩
        rw [expandFrom, expandItem_eq_error hfree hmark hm]

end Loop

end Ninfer.Chat
