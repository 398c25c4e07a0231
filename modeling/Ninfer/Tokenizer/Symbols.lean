import Ninfer.Tokenizer.Tables

/-!
# The symbols of a word

A word is written with a printable character for each byte. Merges only put symbols together, so that
the symbols of a word always are its pieces, and a piece that is no token of its own is still a token
for each of its bytes.

## Main definitions

* `byteChar`: the character of a byte
* `Decodes`: tokens that are decoded to given bytes

## Main results

* `byteOfCodepoint_byteCodepoint`: the character of a byte is read back
* `mergeSymbols_pieces`: merged symbols are the pieces of a word
* `symbolIds_decodes`, `wordIds_decodes`: a symbol and a word are encoded and decoded
-/

namespace Ninfer.Tokenizer

open Output (Bytes)

/-! ## Bytes as characters -/

/-- The character of a byte. -/
def byteChar (byte : UInt8) : Char := Char.ofNat (byteCodepoint byte)

theorem length_byteCodepoints (next : Nat) (bytes : List Nat) :
    (byteCodepoints next bytes).length = bytes.length := by
  induction bytes generalizing next with
  | nil => rfl
  | cons byte bytes ih =>
    rw [byteCodepoints]
    split_ifs <;> rw [List.length_cons, ih, List.length_cons]

/-- A code point is that of a byte that stands for itself, or it is one of the next. -/
theorem mem_byteCodepoints {next : Nat} {bytes : List Nat} {cp : Nat}
    (h : cp ∈ byteCodepoints next bytes) : cp ∈ bytes ∨ next ≤ cp ∧ cp < next + bytes.length := by
  induction bytes generalizing next with
  | nil => exact nomatch h
  | cons byte bytes ih =>
    rw [byteCodepoints] at h
    rw [List.length_cons]
    split_ifs at h
    · rcases List.mem_cons.mp h with rfl | h
      · exact Or.inl List.mem_cons_self
      · rcases ih h with h | h
        · exact Or.inl (List.mem_cons_of_mem _ h)
        · exact Or.inr (by omega)
    · rcases List.mem_cons.mp h with rfl | h
      · exact Or.inr (by omega)
      · rcases ih h with h | h
        · exact Or.inl (List.mem_cons_of_mem _ h)
        · exact Or.inr (by omega)

/-- No code point is that of two bytes. -/
theorem nodup_byteCodepoints {next : Nat} {bytes : List Nat} (hnodup : bytes.Nodup)
    (hlt : ∀ byte ∈ bytes, byte < next) : (byteCodepoints next bytes).Nodup := by
  induction bytes generalizing next with
  | nil => exact List.nodup_nil
  | cons byte bytes ih =>
    obtain ⟨hnew, hnodup⟩ := List.nodup_cons.mp hnodup
    obtain ⟨hbyte, hbytes⟩ := List.forall_mem_cons.mp hlt
    rw [byteCodepoints]
    split_ifs
    · refine List.nodup_cons.mpr ⟨fun hmem => ?_, ih hnodup hbytes⟩
      rcases mem_byteCodepoints hmem with h | h
      · exact hnew h
      · omega
    · refine List.nodup_cons.mpr ⟨fun hmem => ?_, ih hnodup fun b hb => Nat.lt_succ_of_lt (hbytes b hb)⟩
      rcases mem_byteCodepoints hmem with h | h
      · exact absurd (hbytes _ h) (Nat.lt_irrefl _)
      · omega

theorem length_byteLevelCodepoints : byteLevelCodepoints.length = 256 := by
  rw [byteLevelCodepoints, length_byteCodepoints, List.length_range]

theorem getElem_byteLevelCodepoints (byte : UInt8)
    (h : byte.toNat < byteLevelCodepoints.length) :
    byteLevelCodepoints[byte.toNat] = byteCodepoint byte :=
  (List.getD_eq_getElem _ _ h).symm

/-- **The character of a byte is read back.** -/
theorem byteOfCodepoint_byteCodepoint (byte : UInt8) :
    byteOfCodepoint (byteCodepoint byte) = some byte := by
  have hlt : byte.toNat < byteLevelCodepoints.length := by
    rw [length_byteLevelCodepoints]
    exact byte.toNat_lt
  have hnodup : byteLevelCodepoints.Nodup :=
    nodup_byteCodepoints List.nodup_range fun _ h => List.mem_range.mp h
  have hfind : byteLevelCodepoints.findIdx? (· == byteCodepoint byte) = some byte.toNat := by
    rw [List.findIdx?_eq_some_iff_getElem]
    refine ⟨hlt, beq_iff_eq.mpr (getElem_byteLevelCodepoints byte hlt), fun j hj heq => ?_⟩
    have heq := beq_iff_eq.mp heq
    rw [← getElem_byteLevelCodepoints byte hlt, hnodup.getElem_inj_iff] at heq
    omega
  rw [byteOfCodepoint, hfind, Option.map_some, UInt8.ofNat_toNat]

theorem byteCodepoint_lt (byte : UInt8) : byteCodepoint byte < 512 := by
  have hlt : byte.toNat < byteLevelCodepoints.length := by
    rw [length_byteLevelCodepoints]
    exact byte.toNat_lt
  have hmem := List.getElem_mem hlt
  rw [getElem_byteLevelCodepoints] at hmem
  rcases mem_byteCodepoints hmem with h | h
  · exact (List.mem_range.mp h).trans (by decide)
  · rw [List.length_range] at h
    exact h.2

theorem byteChar_val (byte : UInt8) : (byteChar byte).val.toNat = byteCodepoint byte := by
  have hlt := byteCodepoint_lt byte
  have hvalid : (byteCodepoint byte).isValidChar := Or.inl (by omega)
  unfold byteChar
  rw [Char.ofNat, dif_pos hvalid]
  rfl

theorem byteLevelEncode_eq (bytes : Bytes) : byteLevelEncode bytes = utf8 (bytes.map byteChar) := by
  unfold byteLevelEncode utf8
  rw [List.flatMap_map]
  rfl

theorem byteLevelEncode_append (a b : Bytes) :
    byteLevelEncode (a ++ b) = byteLevelEncode a ++ byteLevelEncode b := List.flatMap_append

/-- The spans of a text cut it into its characters. -/
theorem map_substr_spansOf {text : Bytes} {offset : Nat} {chars : List Char}
    (htext : text.drop offset = utf8 chars) :
    (spansOf offset chars).map (fun span => (text.drop span.offset).take span.length) =
      chars.map String.utf8EncodeChar := by
  induction chars generalizing offset with
  | nil => rfl
  | cons c chars ih =>
    rw [utf8_cons] at htext
    have hrest : text.drop (offset + (String.utf8EncodeChar c).length) = utf8 chars := by
      rw [← List.drop_drop, htext, List.drop_left]
    rw [spansOf, List.map_cons, List.map_cons, ih hrest]
    dsimp only
    rw [htext, List.take_left]

theorem byteLevelSymbols_utf8 (chars : List Char) :
    byteLevelSymbols (utf8 chars) = .ok (chars.map String.utf8EncodeChar) := by
  rw [byteLevelSymbols, utf8Codepoints_utf8]
  exact congrArg Except.ok (map_substr_spansOf (List.drop_zero))

/-- The symbols of a word are those of its bytes. -/
theorem byteLevelSymbols_byteLevelEncode (bytes : Bytes) :
    byteLevelSymbols (byteLevelEncode bytes) =
      .ok ((bytes.map fun byte => [byte]).map byteLevelEncode) := by
  rw [byteLevelEncode_eq, byteLevelSymbols_utf8, List.map_map, List.map_map]
  congr 2
  funext byte
  exact (List.flatMap_singleton _ _).symm

/-! ## Merges -/

section Merges

variable (ranks : List (Bytes × Nat))

theorem mergeAt_map (i : Nat) (pieces : List Bytes) :
    mergeAt i (pieces.map byteLevelEncode) = (mergeAt i pieces).map byteLevelEncode := by
  induction i generalizing pieces with
  | zero =>
    match pieces with
    | [] => rfl
    | [_] => rfl
    | a :: b :: pieces =>
      exact congrArg (· :: pieces.map byteLevelEncode) (byteLevelEncode_append a b).symm
  | succ i ih =>
    cases pieces with
    | nil => rfl
    | cons a pieces => exact congrArg (byteLevelEncode a :: ·) (ih pieces)

theorem flatten_mergeAt (i : Nat) (pieces : List Bytes) :
    (mergeAt i pieces).flatten = pieces.flatten := by
  induction i generalizing pieces with
  | zero =>
    match pieces with
    | [] => rfl
    | [_] => rfl
    | a :: b :: pieces => exact List.append_assoc a b pieces.flatten
  | succ i ih =>
    cases pieces with
    | nil => rfl
    | cons a pieces => exact congrArg (a ++ ·) (ih pieces)

theorem mergeAt_ne_nil {i : Nat} {pieces : List Bytes} (h : ∀ piece ∈ pieces, piece ≠ []) :
    ∀ piece ∈ mergeAt i pieces, piece ≠ [] := by
  induction i generalizing pieces with
  | zero =>
    match pieces with
    | [] => exact h
    | [_] => exact h
    | a :: b :: pieces =>
      obtain ⟨ha, h⟩ := List.forall_mem_cons.mp h
      exact List.forall_mem_cons.mpr
        ⟨List.append_ne_nil_of_left_ne_nil ha b, (List.forall_mem_cons.mp h).2⟩
  | succ i ih =>
    cases pieces with
    | nil => exact h
    | cons a pieces =>
      obtain ⟨ha, h⟩ := List.forall_mem_cons.mp h
      exact List.forall_mem_cons.mpr ⟨ha, ih h⟩

/-- **Merged symbols are the pieces of a word.** -/
theorem mergeSymbolsFrom_pieces (turns : Nat) {pieces : List Bytes}
    (h : ∀ piece ∈ pieces, piece ≠ []) :
    ∃ merged : List Bytes, mergeSymbolsFrom ranks turns (pieces.map byteLevelEncode) =
        merged.map byteLevelEncode ∧
      merged.flatten = pieces.flatten ∧ ∀ piece ∈ merged, piece ≠ [] := by
  induction turns generalizing pieces with
  | zero => exact ⟨pieces, rfl, rfl, h⟩
  | succ turns ih =>
    rw [mergeSymbolsFrom]
    cases bestPair ranks (pieces.map byteLevelEncode) with
    | none => exact ⟨pieces, rfl, rfl, h⟩
    | some i =>
      obtain ⟨merged, hmerged, hflat, hne⟩ := ih (mergeAt_ne_nil (i := i) h)
      refine ⟨merged, ?_, hflat.trans (flatten_mergeAt i pieces), hne⟩
      dsimp only
      rw [mergeAt_map, hmerged]

theorem mergeSymbols_pieces (word : Bytes) :
    ∃ merged : List Bytes, mergeSymbols ranks ((word.map fun byte => [byte]).map byteLevelEncode) =
        merged.map byteLevelEncode ∧ merged.flatten = word ∧ ∀ piece ∈ merged, piece ≠ [] := by
  obtain ⟨merged, hmerged, hflat, hne⟩ := @mergeSymbolsFrom_pieces ranks
    ((word.map fun byte => [byte]).map byteLevelEncode).length
    (word.map fun byte => [byte]) (by
      intro piece hpiece
      obtain ⟨byte, -, rfl⟩ := List.mem_map.mp hpiece
      exact List.cons_ne_nil _ _)
  refine ⟨merged, hmerged, hflat.trans ?_, hne⟩
  rw [← List.flatMap_def, List.flatMap_singleton']

end Merges

/-! ## Tokens and their bytes -/

variable {t : Tokenizer}

/-- Tokens that are decoded to given bytes. -/
def Decodes (t : Tokenizer) (ids : List Int) (bytes : Bytes) : Prop :=
  (∀ id ∈ ids, t.isValidToken id = true) ∧
    ∃ parts, ids.mapM (fun id => t.decodeTokenBytes id false) = .ok parts ∧ parts.flatten = bytes

theorem Decodes.nil : Decodes t [] [] := ⟨List.forall_mem_nil _, [], rfl, rfl⟩

theorem Decodes.append {a b : List Int} {x y : Bytes} (ha : Decodes t a x) (hb : Decodes t b y) :
    Decodes t (a ++ b) (x ++ y) := by
  obtain ⟨hvalid, parts, hparts, rfl⟩ := ha
  obtain ⟨hvalid', parts', hparts', rfl⟩ := hb
  refine ⟨List.forall_mem_append.mpr ⟨hvalid, hvalid'⟩, parts ++ parts', ?_, List.flatten_append⟩
  rw [List.mapM_append, hparts, hparts']
  rfl

theorem Decodes.flatten {ids : List (List Int)} {parts : List Bytes}
    (h : List.Forall₂ (Decodes t) ids parts) : Decodes t ids.flatten parts.flatten := by
  induction h with
  | nil => exact Decodes.nil
  | cons hd _ ih => exact hd.append ih

theorem Decodes.single {id : Int} {bytes : Bytes} (hvalid : t.isValidToken id = true)
    (hdecode : t.decodeTokenBytes id false = .ok bytes) : Decodes t [id] bytes := by
  refine ⟨List.forall_mem_singleton.mpr hvalid, [bytes], ?_, List.append_nil bytes⟩
  rw [List.mapM_cons, hdecode]
  rfl

/-! ## Symbols and words -/

theorem byteLevelEncode_singleton (byte : UInt8) : byteLevelEncode [byte] = byteSymbol byte :=
  List.flatMap_singleton _ _

/-- The characters of a symbol are the bytes it stands for. -/
theorem symbolBytes_spansOf (id : Int) (offset : Nat) (piece : Bytes) :
    Tokenizer.symbolBytes id (spansOf offset (piece.map byteChar)) = .ok piece := by
  induction piece generalizing offset with
  | nil => rfl
  | cons byte piece ih =>
    rw [List.map_cons, spansOf, Tokenizer.symbolBytes]
    dsimp only
    rw [byteChar_val, byteOfCodepoint_byteCodepoint]
    exact bind_eq_ok.mpr ⟨piece, ih _, rfl⟩

theorem isValidToken_of_some {id : Int} (hpos : 0 ≤ id)
    (h : t.validTokenIds[id.toNat]? = some true) : t.isValidToken id = true := by
  rw [Tokenizer.isValidToken, List.getD_eq_getElem?_getD, h]
  simpa using hpos

/-- The tables are read at a valid id. -/
theorem decodeTokenBytes_of_some {id : Int} (hpos : 0 ≤ id) {token : Bytes}
    (htoken : t.idToToken[id.toNat]? = some token)
    (hvalid : t.validTokenIds[id.toNat]? = some true) :
    t.decodeTokenBytes id false =
      if t.addedTokens.any (·.id = id) then .ok token
      else utf8Codepoints token ("Tokenizer::decode token id " ++ toString id) >>=
        Tokenizer.symbolBytes id := by
  obtain ⟨hlt, -⟩ := List.getElem?_eq_some_iff.mp htoken
  obtain ⟨hlt', -⟩ := List.getElem?_eq_some_iff.mp hvalid
  unfold Tokenizer.decodeTokenBytes
  rw [if_neg (fun h => Bool.false_ne_true h.1), if_neg (by omega), List.getD_eq_getElem?_getD, hvalid,
    List.getD_eq_getElem?_getD, htoken, if_neg]
  · rfl
  · rintro (h | h | h)
    · omega
    · omega
    · exact nomatch h

/-- A token of the vocabulary is decoded to the bytes of its symbol. -/
theorem Sound.decodes_vocab (ht : t.Sound) {piece : Bytes} {id : Int}
    (h : t.vocabTokenToId.lookup (byteLevelEncode piece) = some id) : Decodes t [id] piece := by
  obtain ⟨hpos, htoken, hvalid, hadded⟩ := ht.vocab _ _ h
  refine Decodes.single (isValidToken_of_some hpos hvalid) ?_
  have hnot : t.addedTokens.any (·.id = id) = false := by
    rw [List.any_eq_false]
    intro other hother
    simpa using hadded other hother
  rw [decodeTokenBytes_of_some hpos htoken hvalid, hnot, if_neg Bool.false_ne_true,
    byteLevelEncode_eq, utf8Codepoints_utf8]
  exact symbolBytes_spansOf id 0 piece

/-- An added token is decoded to its content. -/
theorem Sound.decodes_added (ht : t.Sound) {token : AddedToken}
    (h : token ∈ t.addedTokens) : Decodes t [token.id] token.content := by
  obtain ⟨hpos, htoken, hvalid, -⟩ := ht.added token h
  refine Decodes.single (isValidToken_of_some hpos hvalid) ?_
  have hadded : t.addedTokens.any (·.id = token.id) = true :=
    List.any_eq_true.mpr ⟨token, h, by simp⟩
  rw [decodeTokenBytes_of_some hpos htoken hvalid, hadded, if_pos rfl]

/-- The vocabulary has a token for each byte. -/
def CoversBytes (t : Tokenizer) : Prop :=
  ∀ byte, ∃ id, t.vocabTokenToId.lookup (byteSymbol byte) = some id

theorem exists_mapM_of_forall {α β : Type} {f : α → Except Exception β} {p : α → β → Prop} {l : List α}
    (h : ∀ a ∈ l, ∃ b, f a = .ok b ∧ p a b) :
    ∃ bs, l.mapM f = .ok bs ∧ List.Forall₂ (fun b a => p a b) bs l := by
  induction l with
  | nil => exact ⟨[], rfl, .nil⟩
  | cons a l ih =>
    obtain ⟨⟨b, hb, hp⟩, hl⟩ := List.forall_mem_cons.mp h
    obtain ⟨bs, hbs, hall⟩ := ih hl
    refine ⟨b :: bs, ?_, .cons hp hall⟩
    rw [List.mapM_cons, hb, hbs]
    rfl

theorem forall₂_of_mapM {α β : Type} {f : α → Except Exception β} {l : List α} {bs : List β}
    (h : l.mapM f = .ok bs) : List.Forall₂ (fun a b => f a = .ok b) l bs := by
  induction l generalizing bs with
  | nil =>
    obtain rfl := Except.ok.inj h
    exact .nil
  | cons a l ih =>
    rw [List.mapM_cons] at h
    obtain ⟨b, hb, h⟩ := bind_eq_ok.mp h
    obtain ⟨bs', hbs, h⟩ := bind_eq_ok.mp h
    obtain rfl := Except.ok.inj h
    exact .cons hb (ih hbs)

/-- What has something for one of its parts has something. -/
theorem flatten_ne_nil_of_mapM {α β : Type} {f : α → Except Exception (List β)} {l : List α}
    {bs : List (List β)} (h : l.mapM f = .ok bs) {a : α} (ha : a ∈ l)
    (hne : ∀ b, f a = .ok b → b ≠ []) : bs.flatten ≠ [] := by
  have hall := forall₂_of_mapM h
  clear h
  induction hall with
  | nil => exact nomatch ha
  | cons hb _ ih =>
    rw [List.flatten_cons]
    rcases List.mem_cons.mp ha with rfl | ha
    · exact List.append_ne_nil_of_left_ne_nil (hne _ hb) _
    · exact List.append_ne_nil_of_right_ne_nil _ (ih ha)

/-- The token of a byte symbol. -/
def byteSymbolId (tokenToId : List (Bytes × Int)) (symbol : Bytes) : Except Exception Int :=
  match tokenToId.lookup symbol with
  | some id => .ok id
  | none => .error (.invalidArgument
      ("Tokenizer::encode produced byte symbol outside vocabulary: " ++ symbolText symbol))

/-- **A symbol is encoded and decoded**, as one token or as one for each byte. -/
theorem symbolIds_decodes (ht : t.Sound) (hbytes : CoversBytes t) {piece : Bytes}
    (hne : piece ≠ []) :
    ∃ ids, symbolIds t.vocabTokenToId (byteLevelEncode piece) = .ok ids ∧ Decodes t ids piece := by
  unfold symbolIds
  cases hlookup : t.vocabTokenToId.lookup (byteLevelEncode piece) with
  | some id => exact ⟨[id], rfl, ht.decodes_vocab hlookup⟩
  | none =>
    -- A symbol of one byte is in the vocabulary.
    have hlen : 1 < piece.length := by
      match piece, hne with
      | [byte], _ =>
        obtain ⟨id, hid⟩ := hbytes byte
        rw [byteLevelEncode_singleton, hid] at hlookup
        exact nomatch hlookup
      | _ :: _ :: _, _ => exact Nat.succ_lt_succ (Nat.succ_pos _)
    dsimp only
    rw [byteLevelSymbols_byteLevelEncode, ok_bind]
    have hmany : 1 < ((piece.map fun byte => [byte]).map byteLevelEncode).length := by
      rw [List.length_map, List.length_map]
      exact hlen
    obtain ⟨ids, hids, hall⟩ := exists_mapM_of_forall
      (f := byteSymbolId t.vocabTokenToId)
      (p := fun symbol id => ∃ byte, symbol = byteLevelEncode [byte] ∧
        t.vocabTokenToId.lookup symbol = some id)
      (l := (piece.map fun byte => [byte]).map byteLevelEncode) (by
        intro symbol hsymbol
        obtain ⟨_, hbyte, rfl⟩ := List.mem_map.mp hsymbol
        obtain ⟨byte, -, rfl⟩ := List.mem_map.mp hbyte
        obtain ⟨id, hid⟩ := hbytes byte
        rw [← byteLevelEncode_singleton] at hid
        exact ⟨id, by rw [byteSymbolId, hid], byte, rfl, hid⟩)
    refine ⟨ids, check_bind_eq_ok.mpr ⟨hmany, hids⟩, ?_⟩
    -- Each of the tokens is decoded to its byte.
    clear hids hmany hlen hlookup hne
    induction piece generalizing ids with
    | nil =>
      cases hall
      exact Decodes.nil
    | cons byte piece ih =>
      cases hall with
      | cons hid hall =>
        obtain ⟨-, -, hid⟩ := hid
        exact (ht.decodes_vocab hid).append (ih _ hall)

/-- **A word is encoded and decoded.** -/
theorem wordIds_decodes (ht : t.Sound) (hbytes : CoversBytes t) (word : Bytes) :
    ∃ ids, t.wordIds word = .ok ids ∧ Decodes t ids word := by
  obtain ⟨merged, hmerged, hflat, hne⟩ := mergeSymbols_pieces t.bpeMergeRanks word
  obtain ⟨ids, hids, hall⟩ := exists_mapM_of_forall
    (f := fun piece => symbolIds t.vocabTokenToId (byteLevelEncode piece))
    (p := fun piece ids => Decodes t ids piece) (l := merged)
    fun piece hpiece => symbolIds_decodes ht hbytes (hne piece hpiece)
  refine ⟨ids.flatten, ?_, hflat ▸ Decodes.flatten hall⟩
  unfold Tokenizer.wordIds
  rw [byteLevelSymbols_byteLevelEncode, ok_bind, hmerged, List.mapM_map]
  exact bind_eq_ok.mpr ⟨ids, hids, rfl⟩

end Ninfer.Tokenizer
