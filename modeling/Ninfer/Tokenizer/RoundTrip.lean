import Ninfer.Tokenizer.Segments

/-!
# The round trip of a text

Whatever the constructor accepts encodes every text and decodes it again, up to the normalisation of
the ordinary text between added tokens, as long as the vocabulary has a token for each byte.

## Main definitions

* `pieces`: the segments of a text, for given options
* `ClosedUnderParts`: the parts of a normalised text are normalised

## Main results

* `encode_decode`: **the round trip**
-/

namespace Ninfer.Tokenizer

open Output (Bytes)

variable {t : Tokenizer} {normalizeNfc : Bytes → Except Exception Bytes}

/-- The segments of a text, or all of it as ordinary text. -/
def pieces (t : Tokenizer) (options : Tokenizer.EncodeOptions) (text : Bytes) : List Segment :=
  if options.parseAddedTokens then segments t text else ordinarySegment text

/-- The parts of a normalised text are normalised. -/
def ClosedUnderParts (normalizeNfc : Bytes → Except Exception Bytes) : Prop :=
  ∀ a b c, Utf8 a → Utf8 b → Utf8 c → normalizeNfc (a ++ b ++ c) = .ok (a ++ b ++ c) →
    normalizeNfc b = .ok b

theorem pieces_spec (ht : t.Sound) (options : Tokenizer.EncodeOptions) {text : Bytes}
    (h : Utf8 text) : (pieces t options text).flatMap Segment.raw = text ∧
      ∀ segment ∈ pieces t options text, segment.Valid t := by
  unfold pieces
  split_ifs
  · exact ⟨raw_segmentsFrom text.length [] text, valid_segmentsFrom ht text.length h⟩
  · exact ⟨raw_ordinarySegment text, valid_ordinarySegment h⟩

/-- The pieces are cut as the added tokens are in the text, or not at all. -/
theorem pieces_cut (ht : t.Sound) (options : Tokenizer.EncodeOptions) (text : Bytes) :
    (options.parseAddedTokens = true → CutAtTokens t.addedTokens (pieces t options text)) ∧
      (options.parseAddedTokens = false → pieces t options text = ordinarySegment text) := by
  unfold pieces
  refine ⟨fun h => ?_, fun h => if_neg (by rw [h]; exact Bool.false_ne_true)⟩
  rw [if_pos h]
  exact cutAtTokens_segmentsFrom ht (Nat.le_refl _) (by simp)

theorem pieces_maximal (options : Tokenizer.EncodeOptions) (text : Bytes) :
    (pieces t options text).IsChain fun a b => ¬(a.IsOrdinary ∧ b.IsOrdinary) := by
  unfold pieces
  split_ifs
  · exact segmentsFrom_maximal _ _ _
  · exact isChain_ordinarySegment text

/-- A text is encoded segment by segment, for any options. -/
theorem encode_eq (u : CodepointClasses) (options : Tokenizer.EncodeOptions) (text : Bytes) :
    t.encode u normalizeNfc text options =
      ((pieces t options text).mapM (segmentIds u normalizeNfc t)).map List.flatten := by
  unfold Tokenizer.encode pieces
  by_cases hnil : text = []
  · subst hnil
    rw [if_pos rfl]
    split_ifs <;> rfl
  · rw [if_neg hnil]
    cases options.parseAddedTokens with
    | true =>
      rw [if_neg Bool.true_eq_false_eq_False, if_pos rfl]
      exact encodeFrom_eq _ _ _
    | false =>
      rw [if_pos rfl, if_neg Bool.false_ne_true]
      exact bpeIds_eq_mapM text

/-- The segments of a normalised text are normalised. -/
theorem normalised_of_closed (ht : t.Sound) (hclosed : ClosedUnderParts normalizeNfc)
    {parts : List Segment} (hvalid : ∀ segment ∈ parts, segment.Valid t)
    (hnfc : normalizeNfc (parts.flatMap Segment.raw) = .ok (parts.flatMap Segment.raw)) :
    parts.mapM (Segment.normalised normalizeNfc) = .ok (parts.map Segment.raw) := by
  have hutf8 : ∀ segment ∈ parts, Utf8 segment.raw := by
    intro segment hsegment
    have h := hvalid segment hsegment
    cases segment with
    | ordinary text => exact h.2
    | added token => exact (ht.added token h).2.2.2.2
  have hall : ∀ {some : List Segment}, (∀ segment ∈ some, Utf8 segment.raw) →
      Utf8 (some.flatMap Segment.raw) := by
    intro some h
    induction some with
    | nil => exact Utf8.nil
    | cons segment some ih =>
      obtain ⟨hsegment, hsome⟩ := List.forall_mem_cons.mp h
      exact hsegment.append (ih hsome)
  refine mapM_eq_ok fun segment hsegment => ?_
  cases segment with
  | added token => rfl
  | ordinary text =>
    -- The text is in the middle of the whole text.
    obtain ⟨before, after, rfl⟩ := List.append_of_mem hsegment
    obtain ⟨hbefore, hrest⟩ := List.forall_mem_append.mp hutf8
    obtain ⟨htext, hafter⟩ := List.forall_mem_cons.mp hrest
    refine hclosed _ text _ (hall hbefore) htext (hall hafter) ?_
    rw [List.flatMap_append, List.flatMap_cons, ← List.append_assoc] at hnfc
    exact hnfc

/-- **A text is encoded, and its tokens are decoded.** -/
theorem exists_encode (ht : t.Sound) (hbytes : CoversBytes t) (hnfc : KeepsUtf8 normalizeNfc)
    (u : CodepointClasses) (options : Tokenizer.EncodeOptions) (chars : List Char) :
    ∃ ids texts, t.encode u normalizeNfc (utf8 chars) options = .ok ids ∧
      (pieces t options (utf8 chars)).mapM (Segment.normalised normalizeNfc) = .ok texts ∧
      Utf8 texts.flatten ∧ Decodes t ids texts.flatten := by
  obtain ⟨-, hvalid⟩ := @pieces_spec t ht options (utf8 chars) ⟨chars, rfl⟩
  obtain ⟨ids, texts, hids, htexts, hutf8, hdecodes⟩ := segments_decode u ht hbytes hnfc hvalid
  refine ⟨ids.flatten, texts, ?_, htexts, hutf8, hdecodes⟩
  rw [encode_eq, hids]
  rfl

/-- **The round trip of a text.** It is encoded to valid tokens, and what they are decoded to is the
text with the ordinary text between added tokens normalised: all of the text, if added tokens are not
parsed, and nothing else than the text, if it is normalised already. Wherever the scan of ordinary
text comes to an added token, the first one in the order of the constructor is cut off there. -/
theorem encode_decode {parse : Bytes → Except String Json} {resources : TokenizerResources}
    (hmake : Tokenizer.make parse resources = .ok t) (hbytes : CoversBytes t)
    (hnfc : KeepsUtf8 normalizeNfc) (u : CodepointClasses) (options : Tokenizer.EncodeOptions)
    (chars : List Char) :
    ∃ ids texts, t.encode u normalizeNfc (utf8 chars) options = .ok ids ∧
      (∀ id ∈ ids, t.isValidToken id = true) ∧
      (pieces t options (utf8 chars)).flatMap Segment.raw = utf8 chars ∧
      (options.parseAddedTokens = true →
        CutAtTokens t.addedTokens (pieces t options (utf8 chars))) ∧
      (options.parseAddedTokens = false →
        pieces t options (utf8 chars) = ordinarySegment (utf8 chars)) ∧
      ((pieces t options (utf8 chars)).IsChain fun a b => ¬(a.IsOrdinary ∧ b.IsOrdinary)) ∧
      (pieces t options (utf8 chars)).mapM (Segment.normalised normalizeNfc) = .ok texts ∧
      t.decode ids = .ok texts.flatten ∧
      (ClosedUnderParts normalizeNfc → normalizeNfc (utf8 chars) = .ok (utf8 chars) →
        t.decode ids = .ok (utf8 chars)) := by
  have ht := Tokenizer.make_sound hmake
  obtain ⟨hraw, hvalid⟩ := @pieces_spec t ht options (utf8 chars) ⟨chars, rfl⟩
  obtain ⟨ids, texts, hids, htexts, hutf8, hdecodes⟩ :=
    exists_encode ht hbytes hnfc u options chars
  have hdecode := decode_of_decodes hdecodes hutf8
  obtain ⟨hcut, hwhole⟩ := pieces_cut ht options (utf8 chars)
  refine ⟨ids, texts, hids, hdecodes.1, hraw, hcut, hwhole, pieces_maximal options _, htexts,
    hdecode, fun hclosed hnormalised => ?_⟩
  -- In a normalised text every part is normalised, so that nothing was replaced.
  have hsame := normalised_of_closed ht hclosed hvalid (by rw [hraw]; exact hnormalised)
  obtain rfl := Except.ok.inj (htexts.symm.trans hsame)
  rw [hdecode, ← List.flatMap_def, hraw]

/-! ## A tokenizer of bytes -/

/-- A vocabulary with the symbols of the bytes. -/
def byteVocabulary : List (String × Json) :=
  byteLevelCodepoints.zipIdx.map fun (cp, n) => (String.ofList [Char.ofNat cp], .int n)

/-- The documents of a tokenizer with one added token. -/
def readDocument (contents : Bytes) : Except String Json :=
  if contents = [1] then .ok <| .obj [
    ("added_tokens", .arr [.obj [("id", .int 256), ("content", .str "<think>"),
      ("single_word", .bool false), ("lstrip", .bool false), ("rstrip", .bool false),
      ("normalized", .bool false), ("special", .bool false)]]),
    ("model", .obj [("type", .str "BPE"), ("vocab", .obj byteVocabulary), ("merges", .arr [])])]
  else if contents = [2] then .ok (.obj [("added_tokens_decoder", .obj [])])
  else .ok (.obj [("eos_token_id", .int 256)])

theorem coversBytes_of_vocab
    (h : t.vocabTokenToId = byteLevelCodepoints.zipIdx.map fun (cp, n) =>
      (String.utf8EncodeChar (Char.ofNat cp), (n : Int))) : CoversBytes t := by
  intro byte
  have hlt : byte.toNat < byteLevelCodepoints.length := by
    rw [length_byteLevelCodepoints]
    exact byte.toNat_lt
  have hmem : (byteSymbol byte, (byte.toNat : Int)) ∈ t.vocabTokenToId := by
    rw [h]
    refine List.mem_map.mpr ⟨(byteCodepoint byte, byte.toNat), ?_, rfl⟩
    rw [List.mk_mem_zipIdx_iff_getElem?, List.getElem?_eq_getElem hlt, getElem_byteLevelCodepoints]
  cases hlookup : t.vocabTokenToId.lookup (byteSymbol byte) with
  | some id => exact ⟨id, rfl⟩
  | none =>
    have hne := List.lookup_eq_none_iff.mp hlookup _ hmem
    simp at hne

set_option maxRecDepth 10000 in
theorem exists_byteTokenizer : ∃ t, Tokenizer.make readDocument ⟨[1], [2], [3]⟩ = .ok t ∧
    CoversBytes t ∧ t.addedTokens.map AddedToken.content = [utf8 ['<', 't', 'h', 'i', 'n', 'k', '>']] := by
  have hvalue : (Tokenizer.make readDocument ⟨[1], [2], [3]⟩).toOption.map (fun t =>
        (t.vocabTokenToId, t.addedTokens.map AddedToken.content)) =
      some (byteLevelCodepoints.zipIdx.map fun (cp, n) =>
        (String.utf8EncodeChar (Char.ofNat cp), (n : Int)),
        [utf8 ['<', 't', 'h', 'i', 'n', 'k', '>']]) := by decide +kernel
  cases hmake : Tokenizer.make readDocument ⟨[1], [2], [3]⟩ with
  | error e =>
    rw [hmake] at hvalue
    exact nomatch hvalue
  | ok t =>
    rw [hmake] at hvalue
    obtain ⟨hvocab, hadded⟩ := Prod.mk.inj (Option.some.inj hvalue)
    exact ⟨t, rfl, coversBytes_of_vocab hvocab, hadded⟩

/-- `<think>` and an accent that combines with the last character of it. -/
def thinkAccent : List Char := ['<', 't', 'h', 'i', 'n', 'k', '>', '\u0338']

/-- A normaliser for the text above, which is `<think≯` when it is normalised as a whole. -/
def composeAccent (text : Bytes) : Except Exception Bytes :=
  if text = utf8 thinkAccent then .ok (utf8 ['<', 't', 'h', 'i', 'n', 'k', '≯']) else .ok text

theorem composeAccent_keepsUtf8 : KeepsUtf8 composeAccent := by
  intro text h
  unfold composeAccent
  split_ifs
  · exact ⟨_, rfl, _, rfl⟩
  · exact ⟨text, rfl, h⟩

/-- With one added token in front of a text, the token is cut off. -/
theorem pieces_thinkAccent {token : AddedToken} (htokens : t.addedTokens = [token])
    (hcontent : token.content = utf8 ['<', 't', 'h', 'i', 'n', 'k', '>']) :
    pieces t {} (utf8 thinkAccent) = [.added token, .ordinary (utf8 ['\u0338'])] := by
  have hcontent : token.content = [0x3c, 0x74, 0x68, 0x69, 0x6e, 0x6b, 0x3e] := hcontent
  have htext : utf8 thinkAccent = [0x3c, 0x74, 0x68, 0x69, 0x6e, 0x6b, 0x3e, 0xcc, 0xb8] := by decide
  have haccent : utf8 ['\u0338'] = [0xcc, 0xb8] := by decide
  unfold pieces segments
  rw [htext, haccent]
  simp [segmentsFrom, Tokenizer.matchToken, htokens, hcontent, ordinarySegment]

/-- An accent behind an added token stays where it is, unless added tokens are not parsed. -/
theorem encode_decode_thinkAccent : ∃ (t : Tokenizer) (ids ids' : List Int),
    t.encode sampleClasses composeAccent (utf8 thinkAccent) = .ok ids ∧
    t.decode ids = .ok (utf8 thinkAccent) ∧
    t.encode sampleClasses composeAccent (utf8 thinkAccent) { parseAddedTokens := false } =
      .ok ids' ∧
    t.decode ids' = .ok (utf8 ['<', 't', 'h', 'i', 'n', 'k', '≯']) := by
  obtain ⟨t, hmake, hbytes, hadded⟩ := exists_byteTokenizer
  obtain ⟨token, htokens, hcontent⟩ := List.map_eq_singleton_iff.mp hadded
  obtain ⟨ids, texts, hids, -, -, -, -, -, htexts, hdecode, -⟩ :=
    encode_decode hmake hbytes composeAccent_keepsUtf8 sampleClasses {} thinkAccent
  obtain ⟨ids', texts', hids', -, -, -, hwhole, -, htexts', hdecode', -⟩ :=
    encode_decode hmake hbytes composeAccent_keepsUtf8 sampleClasses { parseAddedTokens := false }
      thinkAccent
  refine ⟨t, ids, ids', hids, ?_, hids', ?_⟩
  · rw [pieces_thinkAccent htokens hcontent] at htexts
    have hnormalised : texts = [token.content, utf8 ['\u0338']] :=
      (Except.ok.inj htexts).symm
    rw [hdecode, hnormalised, hcontent]
    rfl
  · rw [hwhole rfl] at htexts'
    have hnormalised : texts' = [utf8 ['<', 't', 'h', 'i', 'n', 'k', '≯']] :=
      (Except.ok.inj htexts').symm
    rw [hdecode', hnormalised]
    rfl

end Ninfer.Tokenizer
