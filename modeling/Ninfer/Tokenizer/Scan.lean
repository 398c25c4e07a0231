import Ninfer.Tokenizer.RoundTrip

/-!
# The scan for added tokens

The scan goes from left to right, and what it has seen does not matter for what it finds. Where it
finds a token, the text in front of it is encoded as a text of its own, and so is the text behind.

## Main definitions

* `Scans`: the places that the scan of a text comes to

## Main results

* `matchToken_append`: a token is found in the front part of a text
* `encode_append`: **a text is encoded around a token of the scan**
* `scans_of_newline`: the scan comes to the place behind a newline
* `encode_ne_nil`: a text has a token
-/

namespace Ninfer.Tokenizer

open Output (Bytes)

variable {t : Tokenizer} {u : CodepointClasses} {normalizeNfc : Bytes → Except Exception Bytes}

/-- The places that the scan of a text comes to. -/
inductive Scans (t : Tokenizer) : Bytes → Nat → Prop
  | start (text : Bytes) : Scans t text 0
  | skip {byte : UInt8} {text : Bytes} {n : Nat} (none : t.matchToken (byte :: text) = none)
      (rest : Scans t text n) : Scans t (byte :: text) (n + 1)
  | jump {text : Bytes} {token : AddedToken} {n : Nat} (found : t.matchToken text = some token)
      (rest : Scans t (text.drop token.content.length) n) : Scans t text (token.content.length + n)

/-! ## A text in front of another -/

/-- The candidates at the front of a text. -/
theorem matchToken_cons (byte : UInt8) (text : Bytes) :
    t.matchToken (byte :: text) =
      (t.addedTokens.filter fun token => token.content.head? = some byte).find?
        fun token => token.content.isPrefixOf (byte :: text) := rfl

theorem matchToken_none_of_append {a x : Bytes} (h : t.matchToken (a ++ x) = none) :
    t.matchToken a = none := by
  cases a with
  | nil => rfl
  | cons byte a =>
    rw [List.cons_append, matchToken_cons, List.find?_eq_none] at h
    rw [matchToken_cons, List.find?_eq_none]
    intro token htoken hmatch
    refine h token htoken ?_
    rw [List.isPrefixOf_iff_prefix] at hmatch ⊢
    exact hmatch.trans (List.prefix_append (byte :: a) x)

/-- **A token is found in the front part of a text**, if it fits there. -/
theorem matchToken_append {a x : Bytes} {token : AddedToken} (ha : a ≠ [])
    (h : t.matchToken (a ++ x) = some token) (hfits : token.content.length ≤ a.length) :
    t.matchToken a = some token := by
  cases a with
  | nil => exact absurd rfl ha
  | cons byte a =>
    rw [List.cons_append, matchToken_cons, List.find?_eq_some_iff_append] at h
    obtain ⟨hmatch, before, after, hsplit, hbefore⟩ := h
    rw [matchToken_cons, List.find?_eq_some_iff_append]
    rw [List.isPrefixOf_iff_prefix] at hmatch
    refine ⟨?_, before, after, hsplit, fun other hother => ?_⟩
    · rw [List.isPrefixOf_iff_prefix]
      exact List.prefix_of_prefix_length_le hmatch (List.prefix_append (byte :: a) x) hfits
    · -- What does not match the whole text does not match a part of it.
      have hnot := hbefore other hother
      rw [Bool.not_eq_true', Bool.eq_false_iff, Ne, List.isPrefixOf_iff_prefix] at hnot ⊢
      exact fun hshort => hnot (hshort.trans (List.prefix_append (byte :: a) x))

theorem segmentsFrom_none {byte : UInt8} {text : Bytes} (h : t.matchToken (byte :: text) = none)
    (turns : Nat) (ordinary : Bytes) :
    segmentsFrom t (turns + 1) ordinary (byte :: text) =
      segmentsFrom t turns (ordinary ++ [byte]) text := by
  conv_lhs => unfold segmentsFrom
  rw [h]

theorem segmentsFrom_some {byte : UInt8} {text : Bytes} {token : AddedToken}
    (h : t.matchToken (byte :: text) = some token) (turns : Nat) (ordinary : Bytes) :
    segmentsFrom t (turns + 1) ordinary (byte :: text) = ordinarySegment ordinary ++
      .added token :: segmentsFrom t turns [] ((byte :: text).drop token.content.length) := by
  conv_lhs => unfold segmentsFrom
  rw [h]

/-- The bound on the turns does not matter, if it is large enough. -/
theorem segmentsFrom_turns (ht : t.Sound) {turns turns' : Nat} (ordinary : Bytes) {text : Bytes}
    (h : text.length ≤ turns) (h' : text.length ≤ turns') :
    segmentsFrom t turns ordinary text = segmentsFrom t turns' ordinary text := by
  induction turns generalizing turns' ordinary text with
  | zero =>
    obtain rfl := List.eq_nil_of_length_eq_zero (Nat.le_zero.mp h)
    cases turns' with
    | zero => rfl
    | succ turns' =>
      rw [segmentsFrom, List.append_nil]
      rfl
  | succ turns ih =>
    cases text with
    | nil =>
      cases turns' with
      | zero =>
        show ordinarySegment ordinary = ordinarySegment (ordinary ++ [])
        rw [List.append_nil]
      | succ turns' => rfl
    | cons byte text =>
      rw [List.length_cons] at h h'
      obtain ⟨turns', rfl⟩ := Nat.exists_eq_succ_of_ne_zero (by omega : turns' ≠ 0)
      cases hmatch : t.matchToken (byte :: text) with
      | none =>
        rw [segmentsFrom_none hmatch, segmentsFrom_none hmatch]
        exact ih _ (by omega) (by omega)
      | some token =>
        have hpos := List.length_pos_of_ne_nil (ht.added token (matchToken_eq_some hmatch).1).2.2.2.1
        have hlen : ((byte :: text).drop token.content.length).length ≤ text.length := by
          rw [List.length_drop, List.length_cons]
          omega
        rw [segmentsFrom_some hmatch, segmentsFrom_some hmatch,
          ih [] (by omega) (by omega : _ ≤ turns')]

/-- **The segments around a token of the scan.** -/
theorem segmentsFrom_append (ht : t.Sound) {text : Bytes} {n : Nat} (hscans : Scans t text n)
    (ordinary : Bytes) {a x : Bytes} (htext : text = a ++ x) (hn : n = a.length)
    {token : AddedToken} (htoken : t.matchToken x = some token) :
    segmentsFrom t text.length ordinary text =
      segmentsFrom t a.length ordinary a ++
        .added token :: segments t (x.drop token.content.length) := by
  have hx : x ≠ [] := by
    rintro rfl
    exact nomatch htoken
  obtain ⟨next, more, rfl⟩ := List.exists_cons_of_ne_nil hx
  have hpos := List.length_pos_of_ne_nil (ht.added token (matchToken_eq_some htoken).1).2.2.2.1
  induction hscans generalizing ordinary a with
  | start text =>
    obtain rfl := List.eq_nil_of_length_eq_zero hn.symm
    subst htext
    have hlen : ((next :: more).drop token.content.length).length ≤ more.length := by
      rw [List.length_drop, List.length_cons]
      omega
    rw [List.nil_append, List.length_cons, segmentsFrom_some htoken,
      segmentsFrom_turns ht [] hlen (Nat.le_refl _)]
    show _ = ordinarySegment (ordinary ++ []) ++ _
    rw [List.append_nil]
    rfl
  | @skip byte text n hnone rest ih =>
    cases a with
    | nil => exact nomatch hn
    | cons first a =>
      obtain ⟨rfl, rfl⟩ := List.cons.inj htext
      have hfront : t.matchToken (byte :: a) = none := matchToken_none_of_append hnone
      have hrest := ih (ordinary ++ [byte]) (a := a) (Nat.succ.inj hn) rfl
      rw [List.length_cons, List.length_cons, segmentsFrom_none hnone, segmentsFrom_none hfront]
      exact hrest
  | @jump text found n hfound rest ih =>
    have hfoundpos :=
      List.length_pos_of_ne_nil (ht.added found (matchToken_eq_some hfound).1).2.2.2.1
    subst htext
    have ha : a ≠ [] := by
      rintro rfl
      rw [List.length_nil] at hn
      omega
    have hfits : found.content.length ≤ a.length := by omega
    have hfront := matchToken_append ha hfound hfits
    obtain ⟨byte, a, rfl⟩ := List.exists_cons_of_ne_nil ha
    have hdrop : (byte :: a ++ next :: more).drop found.content.length =
        (byte :: a).drop found.content.length ++ next :: more :=
      List.drop_append_of_le_length hfits
    have hrest := ih [] (by rw [List.length_drop]; omega) hdrop
    rw [List.cons_append] at hfound hrest hdrop ⊢
    have hlen : ((byte :: (a ++ next :: more)).drop found.content.length).length ≤
        (a ++ next :: more).length := by
      rw [List.length_drop, List.length_cons]
      omega
    have hlen' : ((byte :: a).drop found.content.length).length ≤ a.length := by
      rw [List.length_drop, List.length_cons]
      omega
    rw [List.length_cons, List.length_cons, segmentsFrom_some hfound, segmentsFrom_some hfront,
      segmentsFrom_turns ht [] hlen (Nat.le_refl _), hrest,
      segmentsFrom_turns ht [] (Nat.le_refl _) hlen', List.append_assoc, List.cons_append]

/-- **A text is encoded around a token of the scan.** -/
theorem encode_append (ht : t.Sound) {a s b : Bytes} {token : AddedToken}
    (hscans : Scans t (a ++ (s ++ b)) a.length) (htoken : t.matchToken (s ++ b) = some token)
    (hcontent : token.content = s) :
    t.encode u normalizeNfc (a ++ (s ++ b)) = (do
      let before ← t.encode u normalizeNfc a
      let after ← t.encode u normalizeNfc b
      Except.ok (before ++ [token.id] ++ after)) := by
  have hsegments := segmentsFrom_append ht hscans [] rfl rfl htoken
  rw [hcontent, List.drop_left] at hsegments
  have hpieces : ∀ text, pieces t {} text = segments t text := fun text => if_pos rfl
  have hadded : segmentIds u normalizeNfc t (.added token) = .ok [token.id] := rfl
  have hsplit : segments t (a ++ (s ++ b)) = segments t a ++ .added token :: segments t b := hsegments
  rw [encode_eq, encode_eq, encode_eq, hpieces, hpieces, hpieces, hsplit, List.mapM_append,
    List.mapM_cons, hadded]
  cases (segments t a).mapM (segmentIds u normalizeNfc t) with
  | error e => rfl
  | ok before =>
    cases (segments t b).mapM (segmentIds u normalizeNfc t) with
    | error e => rfl
    | ok after =>
      refine congrArg Except.ok ?_
      rw [List.flatten_append, List.flatten_cons, ← List.append_assoc]

/-! ## Newlines -/

/-- **The scan comes to the place behind a newline**, if no added token has one. -/
theorem scans_of_newline (ht : t.Sound)
    (hnewline : ∀ token ∈ t.addedTokens, (0x0a : UInt8) ∉ token.content) (a x : Bytes) :
    Scans t (a ++ [0x0a] ++ x) (a ++ [0x0a]).length := by
  induction hlen : a.length using Nat.strong_induction_on generalizing a with
  | _ n ih =>
    cases hmatch : t.matchToken (a ++ [0x0a] ++ x) with
    | none =>
      cases a with
      | nil => exact .skip hmatch (.start x)
      | cons byte a =>
        exact .skip hmatch (ih a.length (by rw [← hlen]; exact Nat.lt_succ_self _) a rfl)
    | some token =>
      obtain ⟨hmem, hfront⟩ := matchToken_eq_some hmatch
      have hpos := List.length_pos_of_ne_nil (ht.added token hmem).2.2.2.1
      -- A token that reaches over the newline would have one.
      have hfits : token.content.length ≤ a.length := by
        by_contra hlt
        rw [List.append_assoc] at hfront
        have hget : token.content[a.length]? = some 0x0a := by
          obtain ⟨rest, hrest⟩ := hfront
          rw [← @List.getElem?_append_left _ _ rest _ (by omega), hrest,
            List.getElem?_append_right (Nat.le_refl _), Nat.sub_self]
          rfl
        exact hnewline token hmem (List.mem_of_getElem? hget)
      have hdrop : (a ++ [0x0a] ++ x).drop token.content.length =
          a.drop token.content.length ++ [0x0a] ++ x := by
        rw [List.append_assoc, List.drop_append_of_le_length hfits, List.append_assoc]
      have hrest := ih (a.drop token.content.length).length
        (by rw [List.length_drop, ← hlen]; omega) (a.drop token.content.length) rfl
      rw [← hdrop] at hrest
      have hjump := Scans.jump hmatch hrest
      have hplace : token.content.length + (a.drop token.content.length ++ [0x0a]).length =
          (a ++ [0x0a]).length := by
        simp only [List.length_append, List.length_drop]
        omega
      rwa [hplace] at hjump

/-! ## Texts have tokens -/

theorem symbolIds_ne_nil {tokenToId : List (Bytes × Int)} {symbol : Bytes} {ids : List Int}
    (h : symbolIds tokenToId symbol = .ok ids) : ids ≠ [] := by
  unfold symbolIds at h
  split at h
  · obtain rfl := Except.ok.inj h
    exact List.cons_ne_nil _ _
  · obtain ⟨bytes, -, h⟩ := bind_eq_ok.mp h
    obtain ⟨hmany, h⟩ := check_bind_eq_ok.mp h
    have hlen := (forall₂_of_mapM h).length_eq
    exact List.ne_nil_of_length_pos (by omega)

theorem wordIds_ne_nil {word : Bytes} (hne : word ≠ []) {ids : List Int}
    (h : t.wordIds word = .ok ids) : ids ≠ [] := by
  obtain ⟨merged, hmerged, hflat, -⟩ := mergeSymbols_pieces t.bpeMergeRanks word
  unfold Tokenizer.wordIds at h
  rw [byteLevelSymbols_byteLevelEncode, ok_bind, hmerged] at h
  obtain ⟨parts, hparts, h⟩ := bind_eq_ok.mp h
  obtain rfl := Except.ok.inj h
  cases merged with
  | nil => exact absurd hflat.symm hne
  | cons piece merged =>
    exact flatten_ne_nil_of_mapM hparts List.mem_cons_self fun _ => symbolIds_ne_nil

/-- What is read as code points is a text. -/
theorem utf8_of_codepointsFrom {context : String} {turns offset : Nat} {text : Bytes}
    {spans : List CodepointSpan} (hle : text.length ≤ turns)
    (h : codepointsFrom context turns offset text = .ok spans) : Utf8 text := by
  induction turns generalizing offset text spans with
  | zero =>
    obtain rfl := List.eq_nil_of_length_eq_zero (Nat.le_zero.mp hle)
    exact Utf8.nil
  | succ turns ih =>
    cases text with
    | nil => exact Utf8.nil
    | cons byte text =>
      unfold codepointsFrom at h
      cases hread : Output.utf8procIterate (byte :: text) with
      | none =>
        rw [hread] at h
        cases h
      | some length =>
        rw [hread] at h
        obtain ⟨spans', hspans, -⟩ := bind_eq_ok.mp h
        obtain ⟨c, rest, htext, rfl⟩ := Output.char_of_utf8procIterate hread
        have hpos := Output.length_utf8EncodeChar_pos c
        have hlen := congrArg List.length htext
        rw [List.length_append, List.length_cons] at hlen
        rw [List.length_cons] at hle
        rw [htext, List.drop_left] at hspans
        rw [htext]
        exact Utf8.append ⟨[c], (List.append_nil _).symm⟩ (ih (by omega) hspans)

/-- Normalisation keeps what is not empty so. -/
def KeepsNonempty (normalizeNfc : Bytes → Except Exception Bytes) : Prop :=
  ∀ text normalized, text ≠ [] → normalizeNfc text = .ok normalized → normalized ≠ []

theorem bpeIds_ne_nil (hnfc : KeepsNonempty normalizeNfc) {text : Bytes} (hne : text ≠ [])
    {ids : List Int} (h : t.bpeIds u normalizeNfc text = .ok ids) : ids ≠ [] := by
  unfold Tokenizer.bpeIds at h
  rw [if_neg hne] at h
  obtain ⟨-, h⟩ := check_bind_eq_ok.mp h
  obtain ⟨normalized, hnormalized, h⟩ := bind_eq_ok.mp h
  obtain ⟨words, hwords, h⟩ := bind_eq_ok.mp h
  obtain ⟨parts, hparts, h⟩ := bind_eq_ok.mp h
  obtain rfl := Except.ok.inj h
  obtain ⟨spans, hspans, -⟩ := bind_eq_ok.mp hwords
  obtain ⟨chars, hchars⟩ := utf8_of_codepointsFrom (Nat.le_refl _) hspans
  have hchars : normalized = utf8 chars := hchars
  obtain ⟨words', hwords', hflat⟩ := qwenSplitWords_flatten u chars
  rw [← hchars, hwords] at hwords'
  obtain rfl := Except.ok.inj hwords'
  -- The words together are the text, so that one of them is not empty.
  obtain ⟨word, hword, hwordne⟩ : ∃ word ∈ words, word ≠ [] := by
    by_contra hall
    push Not at hall
    refine hnfc text normalized hne hnormalized ?_
    rw [hchars, ← hflat]
    exact List.flatten_eq_nil_iff.mpr hall
  exact flatten_ne_nil_of_mapM hparts hword fun _ => wordIds_ne_nil hwordne

theorem encodeFrom_ne_nil (hnfc : KeepsNonempty normalizeNfc) {turns : Nat} {ordinary text : Bytes}
    (hne : ordinary ++ text ≠ []) {ids : List Int}
    (h : t.encodeFrom u normalizeNfc turns ordinary text = .ok ids) : ids ≠ [] := by
  induction turns generalizing ordinary text ids with
  | zero => exact bpeIds_ne_nil hnfc hne h
  | succ turns ih =>
    cases text with
    | nil =>
      rw [List.append_nil] at hne
      exact bpeIds_ne_nil hnfc hne h
    | cons byte text =>
      rw [Tokenizer.encodeFrom] at h
      cases hmatch : t.matchToken (byte :: text) with
      | none =>
        rw [hmatch] at h
        refine ih ?_ h
        rw [List.append_assoc]
        exact hne
      | some token =>
        rw [hmatch] at h
        obtain ⟨before, -, h⟩ := bind_eq_ok.mp h
        obtain ⟨rest, -, h⟩ := bind_eq_ok.mp h
        obtain rfl := Except.ok.inj h
        exact List.append_ne_nil_of_right_ne_nil _ (List.cons_ne_nil _ _)

/-- **A text has a token.** -/
theorem encode_ne_nil (hnfc : KeepsNonempty normalizeNfc) {text : Bytes} (hne : text ≠ [])
    {ids : List Int} (h : t.encode u normalizeNfc text = .ok ids) : ids ≠ [] := by
  unfold Tokenizer.encode at h
  rw [if_neg hne, if_neg Bool.true_eq_false_eq_False] at h
  exact @encodeFrom_ne_nil t u _ hnfc _ [] _ hne _ h

end Ninfer.Tokenizer
