import Ninfer.Tokenizer.Codepoints
import Ninfer.Tokenizer.WordRegex

/-!
# Words and matches

The suffix of a contraction is compared byte by byte, and its code points are found by their places
afterwards. A suffix is ASCII, so a character that is not never matches a byte of it. With this the
word at the start of a text is what the regular expression matches there, and so on to the end.

## Main definitions

* `contracts`: a suffix in either case at the start of the code points

## Main results

* `asciiCiMatches_eq`, `contractionEnd_spansOf`, `first_contractionRegex`: contractions
* `first_wordRegex`: the word at the start of a text is the match there
* `qwenSplitWords_eq_matchAll`: the words of a text
-/

namespace Ninfer.Tokenizer

open Output (Bytes)
open Regex

/-! ## Suffixes -/

/-- A suffix in either case at the start of the code points. -/
def contracts : Bytes → List Nat → Bool
  | [], _ => true
  | _, [] => false
  | byte :: suffix, cp :: cps =>
    (cp == byte.toNat || cp == byte.toNat - 0x20) && contracts suffix cps

/-- Small letters. -/
def small (suffix : Bytes) : Prop := ∀ byte ∈ suffix, 0x61 ≤ byte.toNat ∧ byte.toNat ≤ 0x7a

theorem small_suffixes : ∀ suffix ∈ suffixes, small suffix := by
  simp [suffixes, small]

theorem first_seqs_foldedLetter (suffix : Bytes) (cps : List Nat) :
    first (seqs (suffix.map fun byte => foldedLetter byte.toNat)) cps =
      if contracts suffix cps then some (cps.drop suffix.length) else none := by
  induction suffix generalizing cps with
  | nil => rfl
  | cons byte suffix ih =>
    cases cps with
    | nil => rfl
    | cons cp cps =>
      rw [List.map_cons, seqs, foldedLetter, first_seq_one_cons, ih, contracts, List.length_cons,
        List.drop_succ_cons]
      by_cases h : (cp == byte.toNat || cp == byte.toNat - 0x20) = true
      · rw [if_pos h, h, Bool.true_and]
      · rw [if_neg h, Bool.eq_false_iff.mpr h, Bool.false_and]
        rfl

theorem length_le_of_contracts {suffix : Bytes} {cps : List Nat} (h : contracts suffix cps) :
    suffix.length ≤ cps.length := by
  induction suffix generalizing cps with
  | nil => exact Nat.zero_le _
  | cons byte suffix ih =>
    cases cps with
    | nil => exact nomatch h
    | cons cp cps =>
      rw [contracts, Bool.and_eq_true] at h
      exact Nat.succ_le_succ (ih h.2)

theorem toLower_toNat (byte : UInt8) :
    (toLower byte).toNat =
      if 0x41 ≤ byte.toNat ∧ byte.toNat ≤ 0x5a then byte.toNat + 0x20 else byte.toNat := by
  unfold toLower
  split_ifs with h
  · rw [UInt8.toNat_add]
    show (byte.toNat + 32) % 256 = _
    omega
  · rfl

/-- A byte is a small letter in either case. -/
theorem toLower_eq_iff {a b : UInt8} (hb : 0x61 ≤ b.toNat ∧ b.toNat ≤ 0x7a) :
    toLower a = toLower b ↔ a.toNat = b.toNat ∨ a.toNat = b.toNat - 0x20 := by
  rw [← UInt8.toNat_inj, toLower_toNat, toLower_toNat]
  split_ifs <;> omega

theorem asciiCiMatches_nil {text : Bytes} {offset : Nat} (hle : offset ≤ text.length) :
    asciiCiMatches text offset [] = true := by
  simp [asciiCiMatches, hle]

theorem asciiCiMatches_cons {text : Bytes} {offset : Nat} {a : UInt8} {rest : Bytes}
    (htext : text.drop offset = a :: rest) (b : UInt8) (suffix : Bytes) :
    asciiCiMatches text offset (b :: suffix) =
      (toLower a == toLower b && asciiCiMatches text (offset + 1) suffix) := by
  have hrest : text.drop (offset + 1) = rest := by
    rw [← List.drop_drop, htext]
    rfl
  unfold asciiCiMatches
  rw [htext, hrest, List.length_cons, List.take_succ_cons, List.map_cons, List.map_cons,
    Nat.add_right_comm, ← Nat.add_assoc, List.cons_beq_cons]
  simp only [← Bool.and_assoc]
  rw [Bool.and_comm (decide _)]

/-- What follows the first byte of the rest of a text. -/
theorem drop_succ_of_drop {text rest : Bytes} {offset : Nat} {a : UInt8}
    (h : text.drop offset = [a] ++ rest) : text.drop (offset + 1) = rest ∧ offset < text.length := by
  have hlen := congrArg List.length h
  rw [List.length_drop, List.length_append, List.length_singleton] at hlen
  refine ⟨?_, by omega⟩
  rw [← List.drop_drop, h]
  rfl

/-- **A suffix matches the bytes as it matches the characters.** -/
theorem asciiCiMatches_eq {suffix : Bytes} (hsmall : small suffix) {text : Bytes} {offset : Nat}
    {chars : List Char} (htext : text.drop offset = utf8 chars) (hle : offset ≤ text.length) :
    asciiCiMatches text offset suffix = contracts suffix (points chars) := by
  induction suffix generalizing offset chars with
  | nil => exact asciiCiMatches_nil hle
  | cons b suffix ih =>
    have hb := hsmall b List.mem_cons_self
    cases chars with
    | nil =>
      have hlen := congrArg List.length htext
      rw [List.length_drop] at hlen
      have hend : text.length - offset = 0 := hlen
      rw [asciiCiMatches, decide_eq_false (by rw [List.length_cons]; omega)]
      rfl
    | cons c chars =>
      rw [utf8_cons] at htext
      rcases utf8EncodeChar_lead c with ⟨-, a, hbytes, hvalue⟩ | ⟨hge, a, rest, hbytes, hlead⟩
      · -- An ASCII character is its byte.
        rw [hbytes] at htext
        obtain ⟨hrest, hlt⟩ := drop_succ_of_drop htext
        rw [asciiCiMatches_cons htext, ih (fun byte h => hsmall byte (List.mem_cons_of_mem _ h))
          hrest (by omega)]
        congr 1
        rw [Bool.eq_iff_iff, beq_iff_eq, toLower_eq_iff hb, hvalue, Bool.or_eq_true, beq_iff_eq,
          beq_iff_eq]
      · -- The first byte of any other matches no letter.
        rw [hbytes] at htext
        have hne : ¬toLower a = toLower b := by
          rw [toLower_eq_iff hb]
          omega
        rw [asciiCiMatches_cons htext, beq_eq_false_iff_ne.mpr hne, Bool.false_and]
        have hcp : (c.val.toNat == b.toNat || c.val.toNat == b.toNat - 0x20) = false := by
          rw [Bool.or_eq_false_iff, beq_eq_false_iff_ne, beq_eq_false_iff_ne]
          omega
        show false = ((c.val.toNat == b.toNat || c.val.toNat == b.toNat - 0x20) && _)
        rw [hcp, Bool.false_and]

/-- The code points of a suffix start before its end. -/
theorem takeWhile_spansOf {suffix : Bytes} (hsmall : small suffix) {chars : List Char}
    (h : contracts suffix (points chars)) (offset : Nat) :
    ((spansOf offset chars).takeWhile fun s => s.offset < offset + suffix.length).length =
      suffix.length := by
  induction suffix generalizing chars offset with
  | nil =>
    cases chars with
    | nil => rfl
    | cons c chars =>
      rw [spansOf, List.takeWhile_cons_of_neg (by simp)]
      rfl
  | cons b suffix ih =>
    have hb := hsmall b List.mem_cons_self
    cases chars with
    | nil => cases h
    | cons c chars =>
      have h' : ((c.val.toNat == b.toNat || c.val.toNat == b.toNat - 0x20) &&
        contracts suffix (points chars)) = true := h
      rw [Bool.and_eq_true, Bool.or_eq_true, beq_iff_eq, beq_iff_eq] at h'
      rcases utf8EncodeChar_lead c with ⟨-, a, hbytes, -⟩ | ⟨hge, -⟩
      · rw [spansOf, hbytes, List.takeWhile_cons_of_pos (by simp), List.length_cons,
          List.length_cons, List.length_singleton]
        have hih := ih (fun byte h => hsmall byte (List.mem_cons_of_mem _ h)) h'.2 (offset + 1)
        rw [Nat.add_right_comm, Nat.add_assoc] at hih
        rw [hih]
      · omega

/-! ## Contractions -/

theorem findSome?_ite {α β : Type} (p : α → Bool) (f : α → β) (l : List α) :
    (l.findSome? fun a => if p a then some (f a) else none) = (l.find? p).map f := by
  induction l with
  | nil => rfl
  | cons a l ih =>
    rw [List.findSome?_cons, List.find?_cons]
    cases p a with
    | true => rfl
    | false => exact ih

/-- The alternatives of the expression are the suffixes of the code. -/
theorem contractionRegex_eq : contractionRegex =
    alts (suffixes.map fun suffix =>
      seq (one (· == 0x27)) (seqs (suffix.map fun byte => foldedLetter byte.toNat))) := rfl

theorem first_contractionRegex (cp : Nat) (cps : List Nat) :
    first contractionRegex (cp :: cps) =
      if cp = 0x27 then (suffixes.find? fun suffix => contracts suffix cps).map fun suffix =>
        cps.drop suffix.length
      else none := by
  rw [contractionRegex_eq, first_alts, List.findSome?_map]
  split_ifs with h
  · rw [← findSome?_ite]
    congr 1
    funext suffix
    rw [Function.comp_apply, first_seq_one_cons, if_pos (beq_iff_eq.mpr h), first_seqs_foldedLetter]
  · rw [List.findSome?_eq_none_iff]
    intro suffix _
    rw [Function.comp_apply, first_seq_one_cons, if_neg (by simpa using h)]

theorem contractionEnd_spansOf {text : Bytes} {offset : Nat} {c : Char} {chars : List Char}
    (htext : text.drop offset = utf8 (c :: chars)) :
    contractionEnd text (spansOf offset (c :: chars)) =
      if c.val.toNat = 0x27 then
        (suffixes.find? fun suffix => contracts suffix (points chars)).map fun suffix =>
          1 + suffix.length
      else none := by
  rw [spansOf, contractionEnd]
  dsimp only
  split_ifs with h
  · rcases utf8EncodeChar_lead c with ⟨-, a, hbytes, -⟩ | ⟨hge, -⟩
    · rw [utf8_cons, hbytes] at htext
      obtain ⟨hrest, hlt⟩ := drop_succ_of_drop htext
      have hsame : ∀ suffix ∈ suffixes, asciiCiMatches text (offset + 1) suffix =
          contracts suffix (points chars) := fun suffix hmem =>
        asciiCiMatches_eq (small_suffixes suffix hmem) hrest (by omega)
      rw [hbytes, List.length_singleton, List.find?_congr hsame]
      cases hfind : suffixes.find? fun suffix => contracts suffix (points chars) with
      | none => rfl
      | some suffix =>
        have hmatch : contracts suffix (points chars) = true :=
          List.find?_some (p := fun s => contracts s (points chars)) hfind
        rw [Option.map_some, Option.map_some,
          takeWhile_spansOf (small_suffixes suffix (List.mem_of_find?_eq_some hfind)) hmatch]
    · omega
  · rfl

/-! ## Words -/

variable {u : CodepointClasses}

/-- **The word at the start of a text is the match there.** -/
theorem first_wordRegex {text : Bytes} {offset : Nat} {c : Char} {chars : List Char}
    (htext : text.drop offset = utf8 (c :: chars)) :
    ∃ n, wordEnd u text (spansOf offset (c :: chars)) = some n ∧ 0 < n ∧ n ≤ chars.length + 1 ∧
      first (wordRegex u) (points (c :: chars)) = some ((points (c :: chars)).drop n) := by
  have hpoints : points (c :: chars) = c.val.toNat :: points chars := rfl
  rw [wordEnd, contractionEnd_spansOf htext, map_value_spansOf, wordRegex, alts, first_alt,
    hpoints, first_contractionRegex]
  cases hfind : suffixes.find? fun suffix => contracts suffix (points chars) with
  | some suffix =>
    split_ifs with h
    · have hlen : suffix.length ≤ (points chars).length :=
        length_le_of_contracts (List.find?_some (p := fun s => contracts s (points chars)) hfind)
      rw [points, List.length_map] at hlen
      refine ⟨1 + suffix.length, rfl, by omega, by omega, ?_⟩
      rw [Option.map_some, Option.some_or, Nat.add_comm, List.drop_succ_cons]
    · obtain ⟨n, hn, hpos, hle, hfirst⟩ := first_classRegexes c.val.toNat (points chars)
      rw [points, List.length_map] at hle
      exact ⟨n, hn, hpos, hle, hfirst⟩
  | none =>
    obtain ⟨n, hn, hpos, hle, hfirst⟩ := first_classRegexes c.val.toNat (points chars)
    rw [points, List.length_map] at hle
    rw [Option.map_none, Option.map_none, ite_self, ite_self]
    exact ⟨n, hn, hpos, hle, hfirst⟩

theorem classEnd_ne_none {cps : List Nat} (hcps : cps ≠ []) : classEnd u cps ≠ none := by
  cases cps with
  | nil => exact absurd rfl hcps
  | cons cp cps =>
    obtain ⟨n, hn, -⟩ := first_classRegexes cp cps
    rw [hn]
    exact Option.some_ne_none n

theorem utf8_ne_nil {chars : List Char} (h : chars ≠ []) : utf8 chars ≠ [] := by
  have hpos := List.length_pos_of_ne_nil h
  have hlen := length_le_utf8 chars
  exact List.ne_nil_of_length_pos (by omega)

theorem utf8_flatten (pieces : List (List Char)) :
    utf8 pieces.flatten = (pieces.map utf8).flatten := by
  induction pieces with
  | nil => rfl
  | cons piece pieces ih => rw [List.flatten_cons, utf8_append, ih, List.map_cons, List.flatten_cons]

/-- **One turn of the loop** cuts the next word off the text. -/
theorem splitFrom_cons (u : CodepointClasses) {text : Bytes} (turns : Nat) {offset : Nat} {c : Char}
    {chars : List Char} (htext : text.drop offset = utf8 (c :: chars)) (hle : offset ≤ text.length)
    {n : Nat} (hn : (wordEnd u text (spansOf offset (c :: chars))).getD 1 = n) :
    splitFrom u text (turns + 1) (spansOf offset (c :: chars)) =
      utf8 ((c :: chars).take n) ::
        splitFrom u text turns (spansOf (offset + (utf8 ((c :: chars).take n)).length)
          ((c :: chars).drop n)) := by
  have hspans := drop_spansOf offset (c :: chars) n
  have hfinish := spanEndOffset_spansOf htext hle n
  have hbytes : text.drop offset = utf8 ((c :: chars).take n) ++ utf8 ((c :: chars).drop n) := by
    rw [htext, ← utf8_append, List.take_append_drop]
  rw [spansOf] at hn hspans hfinish ⊢
  rw [splitFrom]
  dsimp only
  rw [hn, hfinish, hspans, hbytes, Nat.add_sub_cancel_left, List.take_left]

/-- What is behind a word, as a text of its own. -/
theorem drop_word {text : Bytes} {offset : Nat} {chars : List Char}
    (htext : text.drop offset = utf8 chars) (hle : offset ≤ text.length) (n : Nat) :
    text.drop (offset + (utf8 (chars.take n)).length) = utf8 (chars.drop n) ∧
      offset + (utf8 (chars.take n)).length ≤ text.length := by
  have hbytes : text.drop offset = utf8 (chars.take n) ++ utf8 (chars.drop n) := by
    rw [htext, ← utf8_append, List.take_append_drop]
  have hlen := congrArg List.length hbytes
  rw [List.length_drop, List.length_append] at hlen
  refine ⟨?_, by omega⟩
  rw [← List.drop_drop, hbytes, List.drop_left]

/-- **From any place on, the words are the matches**, and they take the text apart. -/
theorem splitFrom_eq_matchAllFrom {text : Bytes} (turns : Nat) {offset : Nat} {chars : List Char}
    (hturns : chars.length ≤ turns)
    (htext : text.drop offset = utf8 chars) (hle : offset ≤ text.length) :
    ∃ pieces : List (List Char), splitFrom u text turns (spansOf offset chars) = pieces.map utf8 ∧
      matchAllFrom (wordRegex u) turns (points chars) = pieces.map points ∧
      pieces.flatten = chars ∧ ∀ piece ∈ pieces, piece ≠ [] := by
  induction turns generalizing offset chars with
  | zero =>
    obtain rfl := List.eq_nil_of_length_eq_zero (Nat.le_zero.mp hturns)
    exact ⟨[], rfl, rfl, rfl, nofun⟩
  | succ turns ih =>
    cases chars with
    | nil => exact ⟨[], rfl, rfl, rfl, nofun⟩
    | cons c chars =>
      obtain ⟨n, hend, hpos, hn, hfirst⟩ := first_wordRegex htext
      have hstep := splitFrom_cons u turns htext hle (congrArg (·.getD 1) hend)
      obtain ⟨hrestText, hrestLe⟩ := drop_word htext hle n
      rw [Option.getD_some] at hstep
      set word := (c :: chars).take n with hword
      set rest := (c :: chars).drop n with hrest
      have hparts : word ++ rest = c :: chars := List.take_append_drop n _
      have hwordlen : word.length = n := by
        rw [hword, List.length_take, List.length_cons]
        omega
      have hrestlen : rest.length = chars.length + 1 - n := by
        rw [hrest, List.length_drop, List.length_cons]
      rw [List.length_cons] at hturns
      obtain ⟨pieces, hwords, hmatches, hflat, hne⟩ := ih (by omega) hrestText hrestLe
      refine ⟨word :: pieces, ?_, ?_, ?_, ?_⟩
      · rw [hstep, hwords]
        rfl
      · have hpoints : points (c :: chars) = c.val.toNat :: points chars := rfl
        have hdrop : (points (c :: chars)).drop n = points rest := List.map_drop.symm
        have htake : (points (c :: chars)).take n = points word := List.map_take.symm
        rw [hpoints] at hfirst hdrop htake ⊢
        have hlength : (points rest).length = rest.length := List.length_map _
        have hwhole : (c.val.toNat :: points chars).length = chars.length + 1 := by
          rw [List.length_cons, points, List.length_map]
        rw [matchAllFrom, hfirst]
        dsimp only
        rw [hdrop, hlength, hwhole, if_pos (by omega), hmatches, hrestlen,
          Nat.sub_sub_self hn, htake]
        rfl
      · rw [List.flatten_cons, hflat, hparts]
      · intro piece hpiece
        rcases List.mem_cons.mp hpiece with rfl | hpiece
        · exact List.ne_nil_of_length_pos (by omega)
        · exact hne piece hpiece

/-- **The words of a text are the matches of the regular expression.** They are the text taken
apart, none is empty, and at no place in any text is a word of no kind. -/
theorem qwenSplitWords_eq_matchAll (u : CodepointClasses) (chars : List Char) :
    ∃ words, qwenSplitWords u (utf8 chars) = .ok words ∧
      words = (matchAll (wordRegex u) (points chars)).map encodePoints ∧
      words.flatten = utf8 chars ∧ (∀ word ∈ words, word ≠ []) ∧
      ∀ (text : Bytes) (spans : List CodepointSpan), spans ≠ [] →
        wordEnd u text spans ≠ none := by
  obtain ⟨pieces, hwords, hmatches, hflat, hne⟩ :=
    splitFrom_eq_matchAllFrom (u := u) chars.length (Nat.le_refl _) (List.drop_zero)
      (Nat.zero_le (utf8 chars).length)
  refine ⟨pieces.map utf8, ?_, ?_, ?_, ?_, ?_⟩
  · rw [qwenSplitWords, utf8Codepoints_utf8]
    show Except.ok (splitFrom u (utf8 chars) (spansOf 0 chars).length (spansOf 0 chars)) = _
    rw [length_spansOf, hwords]
  · have hlength : (points chars).length = chars.length := List.length_map _
    rw [matchAll, hlength, hmatches, List.map_map]
    exact List.map_congr_left fun piece _ => (encodePoints_points piece).symm
  · rw [← hflat, utf8_flatten]
  · intro word hmem
    obtain ⟨piece, hpiece, rfl⟩ := List.mem_map.mp hmem
    exact utf8_ne_nil (hne piece hpiece)
  -- The classes cover every code point, so that the branch without a match is not reached.
  · intro text spans hspans
    have hclass := @classEnd_ne_none u (spans.map CodepointSpan.value)
      (mt List.map_eq_nil_iff.mp hspans)
    rw [wordEnd, Ne, Option.or_eq_none_iff]
    exact fun h => hclass h.2

/-! ## The words of a text, for any classes -/

theorem whitespaceEnd_pos {cp : Nat} (h : u.isWhitespace cp = true) (cps : List Nat) :
    0 < whitespaceEnd u (cp :: cps) := by
  unfold whitespaceEnd
  rw [whitespaceRun_eq, List.takeWhile_cons_of_pos h]
  cases (lastNewline u (cp :: cps)).map (· + 0) with
  | some k => exact Nat.succ_pos k
  | none =>
    dsimp only [Option.none_or]
    rw [List.length_cons]
    split_ifs <;> omega

theorem classEnd_pos {cps : List Nat} {n : Nat} (h : classEnd u cps = some n) : 0 < n := by
  cases cps with
  | nil => exact nomatch h
  | cons cp cps =>
    unfold classEnd at h
    dsimp only at h
    split_ifs at h with hletter hfirst hnumber hsymbol hspace hwhite
    · obtain rfl := Option.some.inj h
      rw [List.takeWhile_cons_of_pos hfirst]
      exact Nat.succ_pos _
    · obtain rfl := Option.some.inj h
      omega
    · obtain rfl := Option.some.inj h
      exact Nat.one_pos
    · obtain rfl := Option.some.inj h
      omega
    · obtain rfl := Option.some.inj h
      have hcp : u.isNonSpaceNonLetterMarkNumber cp = true := hsymbol.resolve_left fun h => hspace h.1
      rw [List.drop_zero, List.takeWhile_cons_of_pos hcp, List.length_cons]
      omega
    · obtain rfl := Option.some.inj h
      exact whitespaceEnd_pos hwhite cps

theorem wordEnd_pos {text : Bytes} {spans : List CodepointSpan} {n : Nat}
    (h : wordEnd u text spans = some n) : 0 < n := by
  rcases Option.or_eq_some_iff.mp h with h | ⟨-, h⟩
  · cases spans with
    | nil => exact nomatch h
    | cons span spans =>
      rw [contractionEnd] at h
      split_ifs at h
      obtain ⟨suffix, -, rfl⟩ := Option.map_eq_some_iff.mp h
      omega
  · exact classEnd_pos h

/-- **The words take a text apart**, whatever the classes are. -/
theorem flatten_splitFrom (u : CodepointClasses) {text : Bytes} (turns : Nat) {offset : Nat}
    {chars : List Char} (hturns : chars.length ≤ turns) (htext : text.drop offset = utf8 chars)
    (hle : offset ≤ text.length) :
    (splitFrom u text turns (spansOf offset chars)).flatten = utf8 chars := by
  induction turns generalizing offset chars with
  | zero =>
    obtain rfl := List.eq_nil_of_length_eq_zero (Nat.le_zero.mp hturns)
    rfl
  | succ turns ih =>
    cases chars with
    | nil => rfl
    | cons c chars =>
      rw [splitFrom_cons u turns htext hle rfl]
      set n := (wordEnd u text (spansOf offset (c :: chars))).getD 1 with hn
      have hpos : 0 < n := by
        cases hend : wordEnd u text (spansOf offset (c :: chars)) with
        | none => rw [hn, hend]; exact Nat.one_pos
        | some k => rw [hn, hend]; exact wordEnd_pos hend
      obtain ⟨hrest, hrestLe⟩ := drop_word htext hle n
      have hlen : ((c :: chars).drop n).length ≤ turns := by
        rw [List.length_drop]
        omega
      rw [List.flatten_cons, ih hlen hrest hrestLe, ← utf8_append, List.take_append_drop]

theorem qwenSplitWords_flatten (u : CodepointClasses) (chars : List Char) :
    ∃ words, qwenSplitWords u (utf8 chars) = .ok words ∧ words.flatten = utf8 chars := by
  refine ⟨_, by rw [qwenSplitWords, utf8Codepoints_utf8]; rfl, ?_⟩
  refine flatten_splitFrom u _ ?_ List.drop_zero (Nat.zero_le _)
  rw [length_spansOf]

/-- Categories for tests: the letters and digits of ASCII, `é`, and an accent that combines with
what is in front of it. -/
def sampleClasses : CodepointClasses where
  utf8procCategory cp :=
    if 0x41 ≤ cp ∧ cp ≤ 0x5a then .lu
    else if 0x61 ≤ cp ∧ cp ≤ 0x7a ∨ cp = 0xe9 then .ll
    else if 0x30 ≤ cp ∧ cp ≤ 0x39 then .nd
    else if cp = 0x338 then .mn
    else if cp = 0x20 then .zs
    else if cp < 0x20 then .cc
    else .po

example : qwenSplitWords sampleClasses
    (utf8 ['I', '\'', 'l', 'L', ' ', ' ', '\n', ' ', ' ', 'g', 'o', '!', '4']) =
      .ok ([['I'], ['\'', 'l', 'L'], [' ', ' ', '\n'], [' '], [' ', 'g', 'o'], ['!'], ['4']].map
        utf8) := by
  decide

end Ninfer.Tokenizer
