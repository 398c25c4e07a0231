import Ninfer.Commons.Table
import Ninfer.Commons.Utf8
import Ninfer.Tokenizer.Encoding

/-!
# The tables of a tokenizer

What the constructor accepts has consistent tables: the symbol of a token and the content of an added
token are found at their ids, and no id is both.

## Main definitions

* `Tokenizer.Sound`: consistent tables

## Main results

* `vocabTable_spec`: the symbols of the vocabulary
* `Loading.Sound.push`: one more added token
* `Tokenizer.make_sound`: what is built is sound
-/

namespace Ninfer.Tokenizer

open Output (Bytes)

variable {label field : String}

/-! ## The vocabulary -/

theorem parseTokenId_eq_ok {value : Json} {id : Int} (h : parseTokenId value field label = .ok id) :
    0 ≤ id ∧ id ≤ kMaxTokenId := by
  unfold parseTokenId at h
  split at h
  · split_ifs at h with hneg hlarge
    obtain rfl := Except.ok.inj h
    omega
  · exact nomatch h

/-- The ids of the vocabulary are not negative, and none occurs twice. -/
theorem vocabIds_spec {items : List (String × Json)} {occupied : List Int}
    {entries : List (Bytes × Int)} (h : vocabIds label occupied items = .ok entries) :
    (∀ e ∈ entries, 0 ≤ e.2 ∧ e.2 ∉ occupied) ∧ (entries.map Prod.snd).Nodup := by
  induction items generalizing occupied entries with
  | nil =>
    obtain rfl := Except.ok.inj h
    exact ⟨nofun, List.nodup_nil⟩
  | cons item items ih =>
    obtain ⟨token, value⟩ := item
    rw [vocabIds] at h
    obtain ⟨id, hid, h⟩ := bind_eq_ok.mp h
    obtain ⟨hnew, h⟩ := check_bind_eq_ok.mp h
    obtain ⟨rest, hrest, h⟩ := bind_eq_ok.mp h
    obtain rfl := Except.ok.inj h
    obtain ⟨hspec, hnodup⟩ := ih hrest
    refine ⟨?_, ?_⟩
    · intro e he
      rcases List.mem_cons.mp he with rfl | he
      · exact ⟨(parseTokenId_eq_ok hid).1, hnew⟩
      · obtain ⟨hpos, hnot⟩ := hspec e he
        exact ⟨hpos, fun hmem => hnot (List.mem_cons_of_mem _ hmem)⟩
    · rw [List.map_cons, List.nodup_cons]
      refine ⟨fun hmem => ?_, hnodup⟩
      obtain ⟨e, he, heq⟩ := List.mem_map.mp hmem
      exact (hspec e he).2 (heq ▸ List.mem_cons_self)

theorem le_foldl_max {l : List Int} {a x : Int} (h : x ≤ a ∨ x ∈ l) : x ≤ l.foldl max a := by
  induction l generalizing a with
  | nil => exact h.resolve_right List.not_mem_nil
  | cons y l ih =>
    rw [List.foldl_cons]
    rcases h with h | h
    · exact ih (Or.inl (h.trans (Int.le_max_left a y)))
    · rcases List.mem_cons.mp h with rfl | h
      · exact ih (Or.inl (Int.le_max_right a x))
      · exact ih (Or.inr h)

/-- **The symbols of the vocabulary** are found at their ids. -/
theorem vocabTable_spec {entries : List (Bytes × Int)} (hpos : ∀ e ∈ entries, 0 ≤ e.2)
    (hnodup : (entries.map Prod.snd).Nodup) {e : Bytes × Int} (he : e ∈ entries) :
    (vocabTable entries)[e.2.toNat]? = some e.1 := by
  unfold vocabTable
  refine getElem?_foldl_set (fun e : Bytes × Int => e.2.toNat) Prod.fst he (fun e' he' heq => ?_) ?_
  · have hsame : e'.2 = e.2 := by
      have := hpos e he
      have := hpos e' he'
      omega
    rw [List.inj_on_of_nodup_map hnodup he' he hsame]
  · have hle := le_foldl_max (a := -1) (Or.inr (List.mem_map_of_mem (f := Prod.snd) he))
    have := hpos e he
    rw [List.length_replicate]
    omega

/-- What `load_vocab` returns. -/
structure VocabMetadata.Sound (vocab : VocabMetadata) : Prop where
  positive : ∀ e ∈ vocab.tokenToId, 0 ≤ e.2
  table : ∀ e ∈ vocab.tokenToId, vocab.idToToken[e.2.toNat]? = some e.1

theorem loadVocab_sound {model : Json} {vocab : VocabMetadata}
    (h : loadVocab model label = .ok vocab) : vocab.Sound := by
  unfold loadVocab at h
  obtain ⟨-, h⟩ := check_bind_eq_ok.mp h
  obtain ⟨object, -, h⟩ := bind_eq_ok.mp h
  obtain ⟨-, h⟩ := check_bind_eq_ok.mp h
  obtain ⟨entries, hentries, h⟩ := bind_eq_ok.mp h
  obtain rfl := Except.ok.inj h
  obtain ⟨hspec, hnodup⟩ := vocabIds_spec hentries
  have hpos : ∀ e ∈ entries, 0 ≤ e.2 := fun e he => (hspec e he).1
  exact ⟨hpos, fun e he => vocabTable_spec hpos hnodup he⟩

/-! ## Added tokens -/

theorem bytesOf_utf8 (value : String) : Utf8 (bytesOf value) := ⟨value.toList, rfl⟩

theorem addedTokenFields_eq_ok {id : Int} {item : Json} {token : AddedToken}
    (h : addedTokenFields id item label = .ok token) : token.id = id ∧ Utf8 token.content := by
  unfold addedTokenFields at h
  obtain ⟨content, hcontent, h⟩ := bind_eq_ok.mp h
  obtain ⟨singleWord, -, h⟩ := bind_eq_ok.mp h
  obtain ⟨lstrip, -, h⟩ := bind_eq_ok.mp h
  obtain ⟨rstrip, -, h⟩ := bind_eq_ok.mp h
  obtain ⟨normalized, -, h⟩ := bind_eq_ok.mp h
  obtain ⟨special, -, h⟩ := bind_eq_ok.mp h
  obtain rfl := Except.ok.inj h
  refine ⟨rfl, ?_⟩
  unfold requireStringField at hcontent
  split at hcontent
  · obtain rfl := Except.ok.inj hcontent
    exact bytesOf_utf8 _
  · exact nomatch hcontent

theorem parseAddedToken_eq_ok {item : Json} {token : AddedToken}
    (h : parseAddedToken item label = .ok token) : 0 ≤ token.id ∧ Utf8 token.content := by
  unfold parseAddedToken at h
  obtain ⟨-, h⟩ := check_bind_eq_ok.mp h
  cases hid : memberOf item "id" with
  | none =>
    rw [hid] at h
    exact nomatch h
  | some value =>
    rw [hid] at h
    obtain ⟨id, hparse, h⟩ := bind_eq_ok.mp h
    obtain ⟨rfl, hcontent⟩ := addedTokenFields_eq_ok h
    exact ⟨(parseTokenId_eq_ok hparse).1, hcontent⟩

theorem validateSupportedAddedToken_bind {α : Type} {token : AddedToken}
    {f : Unit → Except Exception α} {a : α}
    (h : (validateSupportedAddedToken token label >>= f) = .ok a) :
    token.content ≠ [] ∧ f () = .ok a := by
  obtain ⟨_, hvalid, h⟩ := bind_eq_ok.mp h
  exact ⟨(check_bind_eq_ok.mp hvalid).1, h⟩

/-- An entry stays where it is, and a new one is placed. -/
theorem getElem?_place (table : List Bytes) (i : Nat) (content : Bytes) :
    (place table i content)[i]? = some content := by
  unfold place
  refine List.getElem?_set_self ?_
  rw [List.length_append, List.length_replicate]
  omega

theorem getElem?_place_of_some {table : List Bytes} {i j : Nat} {old : Bytes}
    (hold : table[j]? = some old) (hne : i ≠ j) (content : Bytes) :
    (place table i content)[j]? = some old := by
  unfold place
  obtain ⟨hlt, -⟩ := List.getElem?_eq_some_iff.mp hold
  rw [List.getElem?_set_ne hne, List.getElem?_append_left hlt, hold]

/-- The added tokens that have been loaded are found at their ids, and so is the vocabulary still. -/
structure Loading.Sound (vocab : VocabMetadata) (st : Loading) : Prop where
  tokens : ∀ token ∈ st.tokens, 0 ≤ token.id ∧ st.idToToken[token.id.toNat]? = some token.content ∧
    token.content ≠ [] ∧ Utf8 token.content ∧ ¬vocab.occupied token.id
  ids : (st.tokens.map AddedToken.id).Nodup
  contents : (st.tokens.map AddedToken.content).Nodup
  table : ∀ e ∈ vocab.tokenToId, st.idToToken[e.2.toNat]? = some e.1

variable {vocab : VocabMetadata} {st st' : Loading}

/-- **One more added token.** -/
theorem Loading.Sound.push (hvocab : vocab.Sound) (h : st.Sound vocab) {token : AddedToken}
    (hpos : 0 ≤ token.id) (hne : token.content ≠ []) (hutf8 : Utf8 token.content)
    (hnew : ¬vocab.occupied token.id) (hid : ∀ other ∈ st.tokens, other.id ≠ token.id)
    (hcontent : ∀ other ∈ st.tokens, other.content ≠ token.content) :
    (st.push token).Sound vocab where
  tokens := by
    intro other hother
    rcases List.mem_append.mp hother with hother | hother
    · obtain ⟨hpos', hplace, hne', hutf8', hnew'⟩ := h.tokens other hother
      have hdistinct := hid other hother
      exact ⟨hpos', getElem?_place_of_some hplace (by omega) _, hne', hutf8', hnew'⟩
    · obtain rfl := List.mem_singleton.mp hother
      exact ⟨hpos, getElem?_place _ _ _, hne, hutf8, hnew⟩
  ids := by
    unfold Loading.push
    rw [List.map_append, List.nodup_append]
    refine ⟨h.ids, List.nodup_singleton _, fun a ha b hb => ?_⟩
    obtain ⟨other, hother, rfl⟩ := List.mem_map.mp ha
    obtain rfl := List.mem_singleton.mp hb
    exact hid other hother
  contents := by
    unfold Loading.push
    rw [List.map_append, List.nodup_append]
    refine ⟨h.contents, List.nodup_singleton _, fun a ha b hb => ?_⟩
    obtain ⟨other, hother, rfl⟩ := List.mem_map.mp ha
    obtain rfl := List.mem_singleton.mp hb
    exact hcontent other hother
  table := by
    intro e he
    refine getElem?_place_of_some (h.table e he) (fun heq => hnew ?_) _
    have := hvocab.positive e he
    have hsame : token.id = e.2 := by omega
    rw [VocabMetadata.occupied, hsame]
    exact List.mem_map_of_mem he

theorem loadAddedToken_sound (hvocab : vocab.Sound) (h : st.Sound vocab) {item : Json}
    (hload : loadAddedToken vocab label st item = .ok st') : st'.Sound vocab := by
  unfold loadAddedToken at hload
  obtain ⟨token, htoken, hload⟩ := bind_eq_ok.mp hload
  obtain ⟨hne, hload⟩ := validateSupportedAddedToken_bind hload
  obtain ⟨hnew, hload⟩ := check_bind_eq_ok.mp hload
  obtain ⟨hid, hload⟩ := check_bind_eq_ok.mp hload
  obtain ⟨⟨-, hcontent⟩, hload⟩ := check_bind_eq_ok.mp hload
  obtain rfl := Except.ok.inj hload
  obtain ⟨hpos, hutf8⟩ := parseAddedToken_eq_ok htoken
  exact h.push hvocab hpos hne hutf8 hnew hid hcontent

theorem foldlM_loadAddedToken_sound (hvocab : vocab.Sound) {items : List Json} (h : st.Sound vocab)
    (hload : items.foldlM (loadAddedToken vocab label) st = .ok st') : st'.Sound vocab := by
  induction items generalizing st with
  | nil =>
    obtain rfl := Except.ok.inj hload
    exact h
  | cons item items ih =>
    rw [List.foldlM_cons] at hload
    obtain ⟨mid, hmid, hload⟩ := bind_eq_ok.mp hload
    exact ih (loadAddedToken_sound hvocab h hmid) hload

theorem loadAddedTokens_sound (hvocab : vocab.Sound) {root : Json}
    (hload : loadAddedTokens vocab root label = .ok st) : st.Sound vocab := by
  unfold loadAddedTokens at hload
  obtain ⟨added, -, hload⟩ := bind_eq_ok.mp hload
  have hempty : Loading.Sound vocab { idToToken := vocab.idToToken } :=
    ⟨List.forall_mem_nil _, List.nodup_nil, List.nodup_nil, hvocab.table⟩
  exact foldlM_loadAddedToken_sound hvocab hempty hload

theorem mergeAddedToken_sound (hvocab : vocab.Sound) (h : st.Sound vocab) {id : Int} (hpos : 0 ≤ id)
    {item : Json} (hmerge : mergeAddedToken vocab label st id item = .ok st') : st'.Sound vocab := by
  unfold mergeAddedToken at hmerge
  obtain ⟨token, htoken, hmerge⟩ := bind_eq_ok.mp hmerge
  obtain ⟨hne, hmerge⟩ := validateSupportedAddedToken_bind hmerge
  unfold parseAddedTokenDecoderEntry at htoken
  obtain ⟨-, htoken⟩ := check_bind_eq_ok.mp htoken
  obtain ⟨rfl, hutf8⟩ := addedTokenFields_eq_ok htoken
  cases hfind : st.tokens.find? (·.id = token.id) with
  | some existing =>
    rw [hfind] at hmerge
    obtain ⟨-, hmerge⟩ := check_bind_eq_ok.mp hmerge
    obtain rfl := Except.ok.inj hmerge
    exact h
  | none =>
    rw [hfind] at hmerge
    obtain ⟨hnew, hmerge⟩ := check_bind_eq_ok.mp hmerge
    obtain ⟨⟨hcontent, -⟩, hmerge⟩ := check_bind_eq_ok.mp hmerge
    obtain ⟨-, hmerge⟩ := check_bind_eq_ok.mp hmerge
    obtain rfl := Except.ok.inj hmerge
    refine h.push hvocab hpos hne hutf8 hnew (fun other hother heq => ?_) hcontent
    have hnone := List.find?_eq_none.mp hfind other hother
    simp [heq] at hnone

theorem parseAddedTokenDecoderId_eq_ok {key : String} {id : Int}
    (h : parseAddedTokenDecoderId key label = .ok id) : 0 ≤ id := by
  unfold parseAddedTokenDecoderId at h
  split at h
  · split_ifs at h
    obtain rfl := Except.ok.inj h
    exact Int.natCast_nonneg _
  · exact nomatch h

theorem mergeLoop_sound (hvocab : vocab.Sound) {items : List (String × Json)} {seen : List Int}
    (h : st.Sound vocab) (hmerge : mergeLoop vocab label seen st items = .ok st') :
    st'.Sound vocab := by
  induction items generalizing seen st with
  | nil =>
    obtain rfl := Except.ok.inj hmerge
    exact h
  | cons item items ih =>
    obtain ⟨key, item⟩ := item
    rw [mergeLoop] at hmerge
    obtain ⟨id, hid, hmerge⟩ := bind_eq_ok.mp hmerge
    obtain ⟨-, hmerge⟩ := check_bind_eq_ok.mp hmerge
    obtain ⟨mid, hmid, hmerge⟩ := bind_eq_ok.mp hmerge
    exact ih (mergeAddedToken_sound hvocab h (parseAddedTokenDecoderId_eq_ok hid) hmid) hmerge

theorem mergeAddedTokensDecoder_sound (hvocab : vocab.Sound) {root : Json} (h : st.Sound vocab)
    (hmerge : mergeAddedTokensDecoder vocab root label st = .ok st') : st'.Sound vocab := by
  unfold mergeAddedTokensDecoder at hmerge
  obtain ⟨decoder, -, hmerge⟩ := bind_eq_ok.mp hmerge
  obtain ⟨mid, hmid, hmerge⟩ := bind_eq_ok.mp hmerge
  obtain rfl := Except.ok.inj hmerge
  have hsound := mergeLoop_sound hvocab h hmid
  -- Sorting keeps the tokens.
  have hperm := List.perm_insertionSort (fun a b : AddedToken => a.id ≤ b.id) mid.tokens
  exact ⟨fun token htoken => hsound.tokens token (hperm.mem_iff.mp htoken),
    (hperm.map _).nodup_iff.mpr hsound.ids, (hperm.map _).nodup_iff.mpr hsound.contents,
    hsound.table⟩

end Ninfer.Tokenizer

namespace Ninfer

open Output (Bytes)
open Tokenizer

/-- Consistent tables. -/
structure Tokenizer.Sound (t : Tokenizer) : Prop where
  vocab : ∀ token id, t.vocabTokenToId.lookup token = some id → 0 ≤ id ∧
    t.idToToken[id.toNat]? = some token ∧ t.validTokenIds[id.toNat]? = some true ∧
    ∀ other ∈ t.addedTokens, other.id ≠ id
  added : ∀ token ∈ t.addedTokens, 0 ≤ token.id ∧
    t.idToToken[token.id.toNat]? = some token.content ∧
    t.validTokenIds[token.id.toNat]? = some true ∧ token.content ≠ [] ∧ Utf8 token.content
  ids : (t.addedTokens.map AddedToken.id).Nodup
  contents : (t.addedTokens.map AddedToken.content).Nodup
  merges : t.hasBpeMerges = true

theorem Tokenizer.validIds_added {vocab : VocabMetadata} {st : Loading} {token : AddedToken}
    (htoken : token ∈ st.tokens) (hlt : token.id.toNat < st.idToToken.length) :
    (Tokenizer.validIds vocab st)[token.id.toNat]? = some true := by
  unfold Tokenizer.validIds
  refine getElem?_foldl_set Int.toNat (fun _ => true) (List.mem_map_of_mem htoken)
    (fun _ _ _ => rfl) ?_
  rw [List.length_append, List.length_replicate]
  omega

theorem Tokenizer.validIds_vocab {vocab : VocabMetadata} {st : Loading} {e : Bytes × Int}
    (he : e ∈ vocab.tokenToId) (hlt : e.2.toNat < vocab.idToToken.length) :
    (Tokenizer.validIds vocab st)[e.2.toNat]? = some true := by
  unfold Tokenizer.validIds
  refine getElem?_foldl_set_of_some Int.toNat (fun _ => true) (fun _ _ _ => rfl) ?_
  rw [List.getElem?_append_left (by
    rw [length_foldl_set Int.toNat (fun _ => true), List.length_replicate]
    exact hlt)]
  exact getElem?_foldl_set Int.toNat (fun _ => true) (List.mem_map_of_mem he) (fun _ _ _ => rfl)
    (by rw [List.length_replicate]; exact hlt)

/-- **What is built is sound.** -/
theorem Tokenizer.make_sound {parse : Bytes → Except String Json} {resources : TokenizerResources}
    {t : Tokenizer} (h : Tokenizer.make parse resources = .ok t) : t.Sound := by
  unfold Tokenizer.make at h
  obtain ⟨-, h⟩ := check_bind_eq_ok.mp h
  obtain ⟨root, -, h⟩ := bind_eq_ok.mp h
  obtain ⟨config, -, h⟩ := bind_eq_ok.mp h
  obtain ⟨model, -, h⟩ := bind_eq_ok.mp h
  obtain ⟨vocab, hvocab, h⟩ := bind_eq_ok.mp h
  obtain ⟨st₀, hst₀, h⟩ := bind_eq_ok.mp h
  obtain ⟨st, hst, h⟩ := bind_eq_ok.mp h
  obtain ⟨ranks, -, h⟩ := bind_eq_ok.mp h
  obtain ⟨stops, -, h⟩ := bind_eq_ok.mp h
  obtain rfl := Except.ok.inj h
  have hv := loadVocab_sound hvocab
  have hs := mergeAddedTokensDecoder_sound hv (loadAddedTokens_sound hv hst₀) hst
  refine ⟨fun token id hlookup => ?_, fun token htoken => ?_, hs.ids, hs.contents, rfl⟩
  · have hmem : (token, id) ∈ vocab.tokenToId := by
      obtain ⟨before, after, hsplit, -⟩ := List.lookup_eq_some_iff.mp hlookup
      have hsplit : vocab.tokenToId = before ++ (token, id) :: after := hsplit
      rw [hsplit]
      exact List.mem_append_right _ List.mem_cons_self
    obtain ⟨hlt, -⟩ := List.getElem?_eq_some_iff.mp (hv.table _ hmem)
    refine ⟨hv.positive _ hmem, hs.table _ hmem, Tokenizer.validIds_vocab hmem hlt,
      fun other hother heq => ?_⟩
    have hnew := (hs.tokens other hother).2.2.2.2
    rw [heq] at hnew
    exact hnew (List.mem_map_of_mem (f := Prod.snd) hmem)
  · obtain ⟨hpos, hplace, hne, hutf8, -⟩ := hs.tokens token htoken
    obtain ⟨hlt, -⟩ := List.getElem?_eq_some_iff.mp hplace
    exact ⟨hpos, hplace, Tokenizer.validIds_added htoken hlt, hne, hutf8⟩

end Ninfer
