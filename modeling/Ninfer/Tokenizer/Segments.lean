import Ninfer.Tokenizer.Contractions
import Ninfer.Tokenizer.Symbols

/-!
# The segments of a text

The scan for added tokens cuts a text into these tokens and the ordinary text between them. A token
is found at the start of a character and is a text itself, so that ordinary text is one as well.

## Main definitions

* `Segment`: an added token, or ordinary text
* `Tokenizer.segments`: the segments of a text
* `Segment.normalised`: a segment with its ordinary text normalised
* `CutAtTokens`: segments that are cut as the added tokens are in the text

## Main results

* `encodeFrom_eq`: a text is encoded segment by segment
* `raw_segmentsFrom`, `cutAtTokens_segmentsFrom`: the segments of a text
* `segments_decode`: the tokens of the segments are decoded to the segments
-/

namespace Ninfer.Tokenizer

open Output (Bytes)

/-- An added token, or ordinary text. -/
inductive Segment
  | ordinary (text : Bytes)
  | added (token : AddedToken)
  deriving DecidableEq, Repr

/-- The text of a segment. -/
def Segment.raw : Segment → Bytes
  | ordinary text => text
  | added token => token.content

/-- A segment with its ordinary text normalised. -/
def Segment.normalised (normalizeNfc : Bytes → Except Exception Bytes) :
    Segment → Except Exception Bytes
  | ordinary text => normalizeNfc text
  | added token => .ok token.content

/-- Ordinary text, if there is any. -/
def ordinarySegment (text : Bytes) : List Segment := if text = [] then [] else [.ordinary text]

/-- The segments of a text from a position on, behind ordinary text. -/
def segmentsFrom (t : Tokenizer) : Nat → Bytes → Bytes → List Segment
  | 0, ordinary, text => ordinarySegment (ordinary ++ text)
  | _, ordinary, [] => ordinarySegment ordinary
  | turns + 1, ordinary, byte :: text =>
    match t.matchToken (byte :: text) with
    | none => segmentsFrom t turns (ordinary ++ [byte]) text
    | some token => ordinarySegment ordinary ++
        .added token :: segmentsFrom t turns [] ((byte :: text).drop token.content.length)

/-- The segments of a text. -/
def segments (t : Tokenizer) (text : Bytes) : List Segment := segmentsFrom t text.length [] text

variable {t : Tokenizer} {u : CodepointClasses} {normalizeNfc : Bytes → Except Exception Bytes}

/-- The tokens of a segment. -/
def segmentIds (u : CodepointClasses) (normalizeNfc : Bytes → Except Exception Bytes) (t : Tokenizer) :
    Segment → Except Exception (List Int)
  | .ordinary text => t.bpeIds u normalizeNfc text
  | .added token => .ok [token.id]

theorem bpeIds_nil : t.bpeIds u normalizeNfc [] = .ok [] := if_pos rfl

/-- Ordinary text is a segment of its own, or nothing. -/
theorem mapM_ordinarySegment (text : Bytes) (rest : List Segment) :
    ((ordinarySegment text ++ rest).mapM (segmentIds u normalizeNfc t)).map List.flatten = (do
      let before ← t.bpeIds u normalizeNfc text
      let ids ← rest.mapM (segmentIds u normalizeNfc t)
      Except.ok (before ++ ids.flatten)) := by
  unfold ordinarySegment
  split_ifs with h
  · rw [h, bpeIds_nil, List.nil_append, ok_bind]
    cases rest.mapM (segmentIds u normalizeNfc t) <;> rfl
  · rw [List.singleton_append, List.mapM_cons]
    have hids : segmentIds u normalizeNfc t (.ordinary text) = t.bpeIds u normalizeNfc text := rfl
    rw [hids]
    cases t.bpeIds u normalizeNfc text with
    | error e => rfl
    | ok ids => cases rest.mapM (segmentIds u normalizeNfc t) <;> rfl

/-- Ordinary text has the tokens of its segment. -/
theorem bpeIds_eq_mapM (text : Bytes) : t.bpeIds u normalizeNfc text =
    ((ordinarySegment text).mapM (segmentIds u normalizeNfc t)).map List.flatten := by
  have h := @mapM_ordinarySegment t u normalizeNfc text []
  rw [List.append_nil] at h
  rw [h]
  cases t.bpeIds u normalizeNfc text with
  | error e => rfl
  | ok ids => exact congrArg Except.ok (List.append_nil ids).symm

/-- **A text is encoded segment by segment.** -/
theorem encodeFrom_eq (turns : Nat) (ordinary text : Bytes) :
    t.encodeFrom u normalizeNfc turns ordinary text =
      ((segmentsFrom t turns ordinary text).mapM (segmentIds u normalizeNfc t)).map List.flatten := by
  induction turns generalizing ordinary text with
  | zero =>
    rw [Tokenizer.encodeFrom, segmentsFrom]
    exact bpeIds_eq_mapM _
  | succ turns ih =>
    cases text with
    | nil => exact bpeIds_eq_mapM ordinary
    | cons byte text =>
      rw [Tokenizer.encodeFrom, segmentsFrom]
      cases t.matchToken (byte :: text) with
      | none => exact ih _ _
      | some token =>
        dsimp only
        rw [mapM_ordinarySegment, ih, List.mapM_cons]
        congr 1
        funext before
        have hadded : segmentIds u normalizeNfc t (.added token) = .ok [token.id] := rfl
        rw [hadded, ok_bind]
        cases (segmentsFrom t turns [] ((byte :: text).drop token.content.length)).mapM
          (segmentIds u normalizeNfc t) <;> rfl

/-! ## The segments of a text -/

/-- The added token at the front of a text is one of the added tokens. -/
theorem matchToken_eq_some {text : Bytes} {token : AddedToken} (h : t.matchToken text = some token) :
    token ∈ t.addedTokens ∧ token.content <+: text := by
  cases text with
  | nil => exact nomatch h
  | cons byte text =>
    have hmem := List.mem_of_find?_eq_some h
    have hmatch := List.find?_some h
    exact ⟨(List.mem_filter.mp hmem).1, List.isPrefixOf_iff_prefix.mp hmatch⟩

/-- A segment of a text. -/
def Segment.Valid (t : Tokenizer) : Segment → Prop
  | ordinary text => text ≠ [] ∧ Utf8 text
  | added token => token ∈ t.addedTokens

theorem raw_ordinarySegment (text : Bytes) : (ordinarySegment text).flatMap Segment.raw = text := by
  unfold ordinarySegment
  split_ifs with h
  · exact h.symm
  · exact List.append_nil text

theorem valid_ordinarySegment {text : Bytes} (h : Utf8 text) :
    ∀ segment ∈ ordinarySegment text, segment.Valid t := by
  unfold ordinarySegment
  split_ifs with hnil
  · exact List.forall_mem_nil _
  · exact List.forall_mem_singleton.mpr ⟨hnil, h⟩

/-- **The segments of a text** are the text taken apart. -/
theorem raw_segmentsFrom (turns : Nat) (ordinary text : Bytes) :
    (segmentsFrom t turns ordinary text).flatMap Segment.raw = ordinary ++ text := by
  induction turns generalizing ordinary text with
  | zero => exact raw_ordinarySegment _
  | succ turns ih =>
    cases text with
    | nil =>
      rw [List.append_nil]
      exact raw_ordinarySegment ordinary
    | cons byte text =>
      rw [segmentsFrom]
      cases hmatch : t.matchToken (byte :: text) with
      | none =>
        dsimp only
        rw [ih, List.append_assoc, List.singleton_append]
      | some token =>
        obtain ⟨-, rest, hrest⟩ := matchToken_eq_some hmatch
        dsimp only
        rw [List.flatMap_append, List.flatMap_cons, raw_ordinarySegment, ih, List.nil_append,
          ← hrest, List.drop_left]
        rfl

/-- The segments of a text are texts, or added tokens. -/
theorem valid_segmentsFrom (ht : t.Sound) (turns : Nat) {ordinary text : Bytes}
    (h : Utf8 (ordinary ++ text)) :
    ∀ segment ∈ segmentsFrom t turns ordinary text, segment.Valid t := by
  induction turns generalizing ordinary text with
  | zero => exact valid_ordinarySegment h
  | succ turns ih =>
    cases text with
    | nil =>
      rw [List.append_nil] at h
      exact valid_ordinarySegment h
    | cons byte text =>
      rw [segmentsFrom]
      cases hmatch : t.matchToken (byte :: text) with
      | none =>
        have happend : ordinary ++ byte :: text = ordinary ++ [byte] ++ text := by
          rw [List.append_assoc, List.singleton_append]
        rw [happend] at h
        exact ih h
      | some token =>
        obtain ⟨hmem, rest, hrest⟩ := matchToken_eq_some hmatch
        obtain ⟨-, -, -, hne, chars, hchars⟩ := ht.added token hmem
        have hcontent : token.content = utf8 chars := hchars
        -- The token starts a character, and so does what is behind it.
        have hboundary : Boundary (byte :: text) := by
          rw [← hrest]
          intro first hfirst
          rw [List.head?_append_of_ne_nil _ hne] at hfirst
          exact (Utf8.boundary ⟨chars, hchars⟩) first hfirst
        obtain ⟨hordinary, hbehind⟩ := h.split hboundary
        rw [← hrest, hcontent] at hbehind
        have hrest' : Utf8 rest := utf8_of_append hbehind
        have hdrop : (byte :: text).drop token.content.length = rest := by
          rw [← hrest, List.drop_left]
        have hvalid := @ih [] rest hrest'
        dsimp only
        rw [hdrop]
        exact List.forall_mem_append.mpr ⟨valid_ordinarySegment hordinary,
          List.forall_mem_cons.mpr ⟨hmem, hvalid⟩⟩

/-! ## The places of the added tokens -/

/-- The first added token, in the order of the constructor, whose content is in front of a text. -/
def FirstAt (tokens : List AddedToken) (token : AddedToken) (text : Bytes) : Prop :=
  ∃ before after, tokens = before ++ token :: after ∧ token.content <+: text ∧
    ∀ other ∈ before, ¬other.content <+: text

/-- Segments that are cut as the added tokens are in the text: an added token is the first one at
its place, and at no place of ordinary text does one begin. -/
def CutAtTokens (tokens : List AddedToken) : List Segment → Prop
  | [] => True
  | .added token :: rest =>
    FirstAt tokens token (token.content ++ rest.flatMap Segment.raw) ∧ CutAtTokens tokens rest
  | .ordinary text :: rest =>
    (∀ front back, text = front ++ back → back ≠ [] →
      ∀ token ∈ tokens, ¬token.content <+: back ++ rest.flatMap Segment.raw) ∧
      CutAtTokens tokens rest

/-- A content in front of a text has its first byte. -/
theorem head?_eq_firstChar (ht : t.Sound) {token : AddedToken} (hmem : token ∈ t.addedTokens)
    {byte : UInt8} {text : Bytes} (h : token.content <+: byte :: text) :
    token.content.head? = some byte := by
  obtain ⟨-, -, -, hne, -⟩ := ht.added token hmem
  obtain ⟨first, more, hcontent⟩ := List.exists_cons_of_ne_nil hne
  rw [hcontent] at h ⊢
  rw [(List.cons_prefix_cons.mp h).1]
  rfl

/-- The scan passes over a byte when no added token begins there. -/
theorem not_prefix_of_matchToken (ht : t.Sound) {byte : UInt8} {text : Bytes}
    (h : t.matchToken (byte :: text) = none) :
    ∀ token ∈ t.addedTokens, ¬token.content <+: byte :: text := by
  intro token hmem hprefix
  refine List.find?_eq_none.mp h token (List.mem_filter.mpr ⟨hmem, ?_⟩) ?_
  · exact decide_eq_true (head?_eq_firstChar ht hmem hprefix)
  · exact List.isPrefixOf_iff_prefix.mpr hprefix

/-- The candidate that is found is the first added token at its place. -/
theorem firstAt_of_matchToken (ht : t.Sound) {text : Bytes} {token : AddedToken}
    (h : t.matchToken text = some token) : FirstAt t.addedTokens token text := by
  cases text with
  | nil => exact nomatch h
  | cons byte text =>
    have hprefix := (matchToken_eq_some h).2
    rw [Tokenizer.matchToken, List.find?_filter, List.find?_eq_some_iff_append] at h
    obtain ⟨-, before, after, hsplit, hbefore⟩ := h
    refine ⟨before, after, hsplit, hprefix, fun other hother hother' => ?_⟩
    have hmem : other ∈ t.addedTokens := hsplit ▸ List.mem_append_left _ hother
    have hnot := hbefore other hother
    rw [head?_eq_firstChar ht hmem hother', List.isPrefixOf_iff_prefix.mpr hother'] at hnot
    simp at hnot

theorem cutAtTokens_ordinarySegment {tokens : List AddedToken} {text : Bytes} {rest : List Segment}
    (hplaces : ∀ front back, text = front ++ back → back ≠ [] →
      ∀ token ∈ tokens, ¬token.content <+: back ++ rest.flatMap Segment.raw)
    (hrest : CutAtTokens tokens rest) : CutAtTokens tokens (ordinarySegment text ++ rest) := by
  unfold ordinarySegment
  split_ifs
  · exact hrest
  · exact ⟨hplaces, hrest⟩

/-- **The segments are cut as the added tokens are in the text.** In the ordinary text behind which
the scan goes on no token begins. -/
theorem cutAtTokens_segmentsFrom (ht : t.Sound) {turns : Nat} {ordinary text : Bytes}
    (hturns : text.length ≤ turns)
    (hplaces : ∀ front back, ordinary = front ++ back → back ≠ [] →
      ∀ token ∈ t.addedTokens, ¬token.content <+: back ++ text) :
    CutAtTokens t.addedTokens (segmentsFrom t turns ordinary text) := by
  have hend (ordinary : Bytes) (h : ∀ front back, ordinary = front ++ back → back ≠ [] →
      ∀ token ∈ t.addedTokens, ¬token.content <+: back ++ []) :
      CutAtTokens t.addedTokens (ordinarySegment ordinary) := by
    rw [← List.append_nil (ordinarySegment ordinary)]
    exact cutAtTokens_ordinarySegment h trivial
  induction turns generalizing ordinary text with
  | zero =>
    obtain rfl := List.eq_nil_of_length_eq_zero (Nat.le_zero.mp hturns)
    rw [segmentsFrom, List.append_nil]
    exact hend ordinary hplaces
  | succ turns ih =>
    cases text with
    | nil => exact hend ordinary hplaces
    | cons byte text =>
      rw [List.length_cons] at hturns
      rw [segmentsFrom]
      cases hmatch : t.matchToken (byte :: text) with
      | none =>
        refine ih (Nat.le_of_succ_le_succ hturns) fun front back hsplit hback => ?_
        obtain ⟨back, last, rfl⟩ := List.eq_nil_or_concat back |>.resolve_left hback
        rw [List.concat_eq_append, ← List.append_assoc] at hsplit
        obtain ⟨hfront, hlast⟩ := List.append_inj' hsplit rfl
        obtain rfl := List.head_eq_of_cons_eq hlast
        rw [List.concat_eq_append, List.append_assoc, List.singleton_append]
        -- A place of the ordinary text so far, or the one that the scan has just passed over.
        rcases List.eq_nil_or_concat back with rfl | ⟨_, _, rfl⟩
        · exact not_prefix_of_matchToken ht hmatch
        · exact hplaces front _ hfront (by simp)
      | some token =>
        obtain ⟨hmem, rest, hrest⟩ := matchToken_eq_some hmatch
        have hpos := List.length_pos_of_ne_nil (ht.added token hmem).2.2.2.1
        have hraw := @raw_segmentsFrom t turns [] rest
        have hlen := congrArg List.length hrest
        rw [List.length_append, List.length_cons] at hlen
        have hdrop : (byte :: text).drop token.content.length = rest := by
          rw [← hrest, List.drop_left]
        dsimp only
        rw [hdrop]
        refine cutAtTokens_ordinarySegment ?_ ⟨?_, ih (by omega) (by simp)⟩
        · rw [List.flatMap_cons, hraw, List.nil_append]
          show ∀ front back, ordinary = front ++ back → back ≠ [] →
            ∀ other ∈ t.addedTokens, ¬other.content <+: back ++ (token.content ++ rest)
          rwa [hrest]
        · rw [hraw, List.nil_append, hrest]
          exact firstAt_of_matchToken ht hmatch

/-- Ordinary text. -/
def Segment.IsOrdinary : Segment → Prop
  | ordinary _ => True
  | added _ => False

/-- Ordinary text stands in front of an added token. -/
theorem isChain_added {token : AddedToken} {rest : List Segment}
    (h : rest.IsChain fun a b => ¬(a.IsOrdinary ∧ b.IsOrdinary)) (text : Bytes) :
    (ordinarySegment text ++ .added token :: rest).IsChain fun a b =>
      ¬(a.IsOrdinary ∧ b.IsOrdinary) := by
  have hadded : (Segment.added token :: rest).IsChain fun a b =>
      ¬(a.IsOrdinary ∧ b.IsOrdinary) := by
    cases rest with
    | nil => exact .singleton _
    | cons segment rest => exact List.isChain_cons_cons.mpr ⟨fun hboth => hboth.1, h⟩
  unfold ordinarySegment
  split_ifs
  · exact hadded
  · exact List.isChain_cons_cons.mpr ⟨fun hboth => hboth.2, hadded⟩

theorem isChain_ordinarySegment (text : Bytes) :
    (ordinarySegment text).IsChain fun a b => ¬(a.IsOrdinary ∧ b.IsOrdinary) := by
  unfold ordinarySegment
  split_ifs
  · exact .nil
  · exact .singleton _

/-- Ordinary text is as long as it can be: another token is behind it. -/
theorem segmentsFrom_maximal (turns : Nat) (ordinary text : Bytes) :
    (segmentsFrom t turns ordinary text).IsChain fun a b => ¬(a.IsOrdinary ∧ b.IsOrdinary) := by
  induction turns generalizing ordinary text with
  | zero => exact isChain_ordinarySegment _
  | succ turns ih =>
    cases text with
    | nil => exact isChain_ordinarySegment ordinary
    | cons byte text =>
      rw [segmentsFrom]
      cases t.matchToken (byte :: text) with
      | none => exact ih _ _
      | some token => exact isChain_added (ih _ _) ordinary

/-! ## Encoding and decoding -/

section Decodes

variable (u : CodepointClasses)

/-- Normalisation returns texts. -/
def KeepsUtf8 (normalizeNfc : Bytes → Except Exception Bytes) : Prop :=
  ∀ text, Utf8 text → ∃ normalized, normalizeNfc text = .ok normalized ∧ Utf8 normalized

/-- **Ordinary text is encoded and decoded.** -/
theorem bpeIds_decodes (ht : t.Sound) (hbytes : CoversBytes t) {text normalized : Bytes}
    (hne : text ≠ []) (hnfc : normalizeNfc text = .ok normalized) (hutf8 : Utf8 normalized) :
    ∃ ids, t.bpeIds u normalizeNfc text = .ok ids ∧ Decodes t ids normalized := by
  obtain ⟨chars, rfl⟩ := hutf8
  obtain ⟨words, hwords, hflat⟩ := qwenSplitWords_flatten u chars
  obtain ⟨ids, hids, hall⟩ := exists_mapM_of_forall (f := t.wordIds)
    (p := fun word ids => Decodes t ids word) (l := words) fun word _ =>
      wordIds_decodes ht hbytes word
  refine ⟨ids.flatten, ?_, ?_⟩
  · unfold Tokenizer.bpeIds
    rw [if_neg hne]
    exact check_bind_eq_ok.mpr ⟨ht.merges, bind_eq_ok.mpr ⟨_, hnfc,
      bind_eq_ok.mpr ⟨_, hwords, bind_eq_ok.mpr ⟨_, hids, rfl⟩⟩⟩⟩
  · have hdecodes := Decodes.flatten hall
    rw [hflat] at hdecodes
    exact hdecodes

/-- **A segment is encoded and decoded.** -/
theorem segment_decodes (ht : t.Sound) (hbytes : CoversBytes t) (hnfc : KeepsUtf8 normalizeNfc)
    {segment : Segment} (h : segment.Valid t) :
    ∃ ids part, segmentIds u normalizeNfc t segment = .ok ids ∧
      segment.normalised normalizeNfc = .ok part ∧ Utf8 part ∧ Decodes t ids part := by
  cases segment with
  | ordinary text =>
    obtain ⟨hne, hutf8⟩ := h
    obtain ⟨normalized, hnormalized, hutf8⟩ := hnfc text hutf8
    obtain ⟨ids, hids, hdecodes⟩ := bpeIds_decodes u ht hbytes hne hnormalized hutf8
    exact ⟨ids, normalized, hids, hnormalized, hutf8, hdecodes⟩
  | added token =>
    exact ⟨[token.id], token.content, rfl, rfl, (ht.added token h).2.2.2.2, ht.decodes_added h⟩

/-- **Segments are encoded and decoded**, one after the other. -/
theorem segments_decode (ht : t.Sound) (hbytes : CoversBytes t) (hnfc : KeepsUtf8 normalizeNfc)
    {parts : List Segment} (h : ∀ segment ∈ parts, segment.Valid t) :
    ∃ ids texts, parts.mapM (segmentIds u normalizeNfc t) = .ok ids ∧
      parts.mapM (Segment.normalised normalizeNfc) = .ok texts ∧ Utf8 texts.flatten ∧
      Decodes t ids.flatten texts.flatten := by
  induction parts with
  | nil => exact ⟨[], [], rfl, rfl, Utf8.nil, Decodes.nil⟩
  | cons segment parts ih =>
    obtain ⟨hsegment, hparts⟩ := List.forall_mem_cons.mp h
    obtain ⟨first, part, hfirst, hpart, hutf8, hdecodes⟩ := segment_decodes u ht hbytes hnfc hsegment
    obtain ⟨ids, texts, hids, htexts, hutf8', hdecodes'⟩ := ih hparts
    refine ⟨first :: ids, part :: texts, ?_, ?_, hutf8.append hutf8', hdecodes.append hdecodes'⟩
    · rw [List.mapM_cons, hfirst, hids]
      rfl
    · rw [List.mapM_cons, hpart, htexts]
      rfl

/-- What is decoded to a text is decoded. -/
theorem decode_of_decodes {ids : List Int} {text : Bytes} (h : Decodes t ids text)
    (hutf8 : Utf8 text) : t.decode ids = .ok text := by
  obtain ⟨-, parts, hparts, rfl⟩ := h
  obtain ⟨chars, hchars⟩ := hutf8
  have hchars : parts.flatten = utf8 chars := hchars
  have hkept : (if ids.getLast?.any (· ∈ ([] : List Int)) then ids.dropLast else ids) = ids := by
    refine if_neg ?_
    cases ids.getLast? <;> simp
  unfold Tokenizer.decode
  dsimp only
  rw [hkept]
  refine bind_eq_ok.mpr ⟨parts, hparts, bind_eq_ok.mpr ⟨spansOf 0 chars, ?_, rfl⟩⟩
  rw [hchars, utf8Codepoints_utf8]

end Decodes

end Ninfer.Tokenizer
