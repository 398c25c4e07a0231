import Ninfer.Tokenizer.Words
import Ninfer.Commons.Regex
import Ninfer.Output.Scanning

/-!
# The regular expression of a word

`qwen_split_words` is written by hand for a regular expression of seven alternatives, which a
backtracking matcher tries in turn. Where an alternative repeats a class and something follows, the
code finds what backtracking would end with: the last newline of a run of white space, or the run
without its last code point.

## Main definitions

* `wordRegex`: the regular expression, over code points

## Main results

* `first_newlines`, `first_spaces`: where backtracking over white space ends
* `first_letters`, `first_symbols`, `first_whitespace`: the kinds of word
* `first_classRegexes`: the word at the start, when it is no contraction
-/

namespace Ninfer.Tokenizer

open Output (Bytes utf8procIterate)
open Regex

/-! ## The expression -/

/-- A letter of either case. -/
def foldedLetter (lower : Nat) : Regex Nat := one fun cp => cp == lower || cp == lower - 0x20

/-- An apostrophe and letters of either case. -/
def contraction (letters : List Char) : Regex Nat :=
  seq (one (· == '\''.toNat)) (seqs (letters.map fun letter => foldedLetter letter.toNat))

/-- `(?i:'s|'t|'re|'ve|'m|'ll|'d)`. -/
def contractionRegex : Regex Nat :=
  alts [contraction ['s'], contraction ['t'], contraction ['r', 'e'], contraction ['v', 'e'],
    contraction ['m'], contraction ['l', 'l'], contraction ['d']]

variable (u : CodepointClasses)

/-- `[\p{L}\p{M}]`. -/
def letterOrMark : Nat → Bool := fun cp => u.isLetter cp || u.isMark cp

/-- `[^\s\p{L}\p{M}\p{N}]`. -/
def symbol : Nat → Bool :=
  fun cp => !(u.isWhitespace cp || u.isLetter cp || u.isMark cp || u.isNumber cp)

/-- `[\r\n]`. -/
def newline : Nat → Bool := fun cp => cp == 0x0d || cp == 0x0a

/-- The alternatives behind the contractions. -/
def classRegexes : List (Regex Nat) :=
  [ -- `[^\r\n\p{L}\p{N}]?[\p{L}\p{M}]+`
    seq (opt (one fun cp => !(newline cp || u.isLetter cp || u.isNumber cp)))
      (plus (one (letterOrMark u))),
    -- `\p{N}`
    one u.isNumber,
    -- ` ?[^\s\p{L}\p{M}\p{N}]+[\r\n]*`
    seq (opt (one (· == 0x20))) (seq (plus (one (symbol u))) (star (one newline))),
    -- `\s*[\r\n]+`
    seq (star (one u.isWhitespace)) (plus (one newline)),
    -- `\s+(?!\S)`
    seq (plus (one u.isWhitespace)) (notAhead (one fun cp => !u.isWhitespace cp)),
    -- `\s+`
    plus (one u.isWhitespace)]

/-- The regular expression of a word. -/
def wordRegex : Regex Nat := alts (contractionRegex :: classRegexes u)

/-! ## White space -/

variable {u}

theorem drop_length_takeWhile (p : Nat → Bool) (cps : List Nat) :
    cps.drop (cps.takeWhile p).length = cps.dropWhile p := by
  conv_lhs =>
    arg 2
    rw [← List.takeWhile_append_dropWhile (p := p) (l := cps)]
  rw [List.drop_left]

/-- The place of the last newline of the white space at the start. -/
def lastNewline (u : CodepointClasses) : List Nat → Option Nat
  | [] => none
  | cp :: cps =>
    if u.isWhitespace cp then
      ((lastNewline u cps).map (· + 1)).or (if isNewline cp then some 0 else none)
    else none

theorem whitespaceRun_eq (cps : List Nat) (runEnd : Nat) (last : Option Nat) :
    whitespaceRun u cps runEnd last =
      (runEnd + (cps.takeWhile u.isWhitespace).length,
        ((lastNewline u cps).map (· + runEnd)).or last) := by
  induction cps generalizing runEnd last with
  | nil => rfl
  | cons cp cps ih =>
    unfold whitespaceRun lastNewline
    by_cases h : u.isWhitespace cp
    · rw [if_pos h, if_pos h, ih, List.takeWhile_cons_of_pos h, List.length_cons]
      refine Prod.ext (by dsimp only; omega) ?_
      cases lastNewline u cps with
      | none => by_cases hn : isNewline cp <;> simp [hn]
      | some k => simp [Nat.add_assoc, Nat.add_comm 1]
    · rw [if_neg h, if_neg h, List.takeWhile_cons_of_neg h]
      rfl

/-- **Newlines are given back one by one** until only white space is in front of the last. -/
theorem first_newlines (cps : List Nat) :
    first (seq (star (one u.isWhitespace)) (plus (one newline))) cps =
      (lastNewline u cps).map fun k => cps.drop (k + 1) := by
  induction cps with
  | nil => rfl
  | cons cp cps ih =>
    by_cases h : u.isWhitespace cp
    · rw [first_many_cons h, ih, first_plus_one_cons, lastNewline, if_pos h]
      cases hlast : lastNewline u cps with
      | some k => rfl
      | none =>
        -- No newline follows directly.
        have hstop : cps.dropWhile newline = cps := by
          cases cps with
          | nil => rfl
          | cons next cps =>
            refine List.dropWhile_cons_of_neg fun hnext => ?_
            have hnext' : isNewline next = true := hnext
            rw [lastNewline, if_pos (u.isWhitespace_of_isNewline hnext), if_pos hnext'] at hlast
            cases hrest : lastNewline u cps <;> simp [hrest] at hlast
        by_cases hn : newline cp
        · have hn' : isNewline cp = true := hn
          simp [hn, hn', hstop]
        · have hn' : ¬isNewline cp = true := hn
          simp [hn, hn']
    · have hn : ¬newline cp = true := fun hn => h (u.isWhitespace_of_isNewline hn)
      rw [first_many_of_neg h, first_plus_one_cons, if_neg hn, lastNewline, if_neg h]
      rfl

/-- White space is given back until white space follows, or nothing does. -/
theorem first_spaces (cps : List Nat) :
    first (seq (star (one u.isWhitespace)) (notAhead (one fun cp => !u.isWhitespace cp))) cps =
      if cps.dropWhile u.isWhitespace = [] then some []
      else if (cps.takeWhile u.isWhitespace).length = 0 then none
      else some (cps.drop ((cps.takeWhile u.isWhitespace).length - 1)) := by
  induction cps with
  | nil => rfl
  | cons cp cps ih =>
    by_cases h : u.isWhitespace cp
    · rw [first_many_cons h, ih, first_notAhead_one_cons, List.dropWhile_cons_of_pos h,
        List.takeWhile_cons_of_pos h, List.length_cons]
      by_cases hnil : cps.dropWhile u.isWhitespace = []
      · simp [hnil]
      · rw [if_neg hnil, if_neg hnil, if_neg (Nat.succ_ne_zero _)]
        by_cases hzero : (cps.takeWhile u.isWhitespace).length = 0
        · simp [hzero, h]
        · obtain ⟨k, hk⟩ := Nat.exists_eq_succ_of_ne_zero hzero
          rw [if_neg hzero, hk]
          rfl
    · rw [first_many_of_neg h, first_notAhead_one_cons, List.dropWhile_cons_of_neg h,
        List.takeWhile_cons_of_neg h]
      simp [h]

/-! ## The other kinds of word -/

theorem isNonNewlineNonLetterNonNumber_eq (cp : Nat) :
    u.isNonNewlineNonLetterNonNumber cp = !(newline cp || u.isLetter cp || u.isNumber cp) := by
  simp only [CodepointClasses.isNonNewlineNonLetterNonNumber, isNewline, newline, Bool.not_or]

theorem isNonSpaceNonLetterMarkNumber_eq : u.isNonSpaceNonLetterMarkNumber = symbol u := by
  funext cp
  simp only [CodepointClasses.isNonSpaceNonLetterMarkNumber, symbol, Bool.not_or]

/-- Letters, with one code point in front. -/
theorem first_letters (cp : Nat) (cps : List Nat) :
    first (seq (opt (one fun cp => !(newline cp || u.isLetter cp || u.isNumber cp)))
      (plus (one (letterOrMark u)))) (cp :: cps) =
      if u.isLetterOrMark cp ∨
          (u.isNonNewlineNonLetterNonNumber cp ∧ cps.head?.any u.isLetterOrMark) then
        some (cps.dropWhile u.isLetterOrMark)
      else none := by
  have hsame : letterOrMark u = u.isLetterOrMark := rfl
  rw [first_seq_opt_cons, first_plus_one_cons, ← isNonNewlineNonLetterNonNumber_eq, hsame]
  cases cps with
  | nil =>
    rw [first_plus_one_nil, ite_self]
    by_cases h : u.isLetterOrMark cp <;> simp [h]
  | cons next cps =>
    rw [first_plus_one_cons]
    by_cases hnext : u.isLetterOrMark next
    · by_cases hlead : u.isNonNewlineNonLetterNonNumber cp
      · simp [hlead, hnext, List.dropWhile_cons_of_pos hnext]
      · by_cases h : u.isLetterOrMark cp <;> simp [hlead, hnext, h]
    · by_cases h : u.isLetterOrMark cp <;> simp [hnext, h]

/-- Symbols, with a space in front and newlines behind. -/
theorem first_symbols (cp : Nat) (cps : List Nat) :
    first (seq (opt (one (· == 0x20))) (seq (plus (one (symbol u))) (star (one newline))))
      (cp :: cps) =
      if (cp = 0x20 ∧ cps.head?.any u.isNonSpaceNonLetterMarkNumber) ∨
          u.isNonSpaceNonLetterMarkNumber cp then
        some ((((cp :: cps).drop (if cp = 0x20 then 1 else 0)).dropWhile
          u.isNonSpaceNonLetterMarkNumber).dropWhile newline)
      else none := by
  rw [isNonSpaceNonLetterMarkNumber_eq]
  -- Symbols are followed by as many newlines as there are.
  have hsymbols : ∀ next rest, first (seq (plus (one (symbol u))) (star (one newline)))
      (next :: rest) = if symbol u next then some ((rest.dropWhile (symbol u)).dropWhile newline)
        else none := by
    intro next rest
    split_ifs with h
    · exact first_seq_of_first (by rw [first_plus_one_cons, if_pos h]) first_star_one
    · exact first_seq_of_none (by rw [first_plus_one_cons, if_neg h])
  rw [first_seq_opt_cons, hsymbols]
  by_cases hspace : cp = 0x20
  · cases cps with
    | nil =>
      have hnil : first (seq (plus (one (symbol u))) (star (one newline))) [] = none :=
        first_seq_of_none first_plus_one_nil
      rw [hnil, ite_self, hspace]
      by_cases h : symbol u 0x20 <;> simp [h]
    | cons next cps =>
      rw [hsymbols]
      by_cases hnext : symbol u next
      · simp [hspace, hnext, List.dropWhile_cons_of_pos hnext]
      · by_cases h : symbol u cp
        · -- The space is a symbol itself, and none follows.
          rw [hspace] at h
          simp [hspace, hnext, h, List.dropWhile_cons_of_neg hnext]
        · rw [hspace] at h
          simp [hspace, hnext, h]
  · by_cases h : symbol u cp
    · simp [hspace, h, List.dropWhile_cons_of_pos h]
    · simp [hspace, h]

theorem length_takeWhile_le (p : Nat → Bool) (cps : List Nat) :
    (cps.takeWhile p).length ≤ cps.length := (List.takeWhile_prefix p).length_le

theorem lastNewline_lt {cps : List Nat} {k : Nat} (h : lastNewline u cps = some k) :
    k < cps.length := by
  induction cps generalizing k with
  | nil => exact nomatch h
  | cons cp cps ih =>
    unfold lastNewline at h
    cases hlast : lastNewline u cps with
    | none =>
      rw [hlast] at h
      split_ifs at h
      · obtain rfl := Option.some.inj h
        exact Nat.succ_pos _
      · simp at h
    | some j =>
      rw [hlast] at h
      split_ifs at h <;>
      · obtain rfl := Option.some.inj h
        exact Nat.succ_lt_succ (ih hlast)

/-- White space, when nothing else is at the start. -/
theorem first_whitespace {cp : Nat}
    (h : u.isWhitespace cp = true) (cps : List Nat) :
    0 < whitespaceEnd u (cp :: cps) ∧ whitespaceEnd u (cp :: cps) ≤ cps.length + 1 ∧
      ((first (seq (star (one u.isWhitespace)) (plus (one newline))) (cp :: cps)).or
        ((first (seq (plus (one u.isWhitespace)) (notAhead (one fun cp => !u.isWhitespace cp)))
          (cp :: cps)).or (first (plus (one u.isWhitespace)) (cp :: cps)))) =
        some ((cp :: cps).drop (whitespaceEnd u (cp :: cps))) := by
  have hrun := length_takeWhile_le u.isWhitespace cps
  unfold whitespaceEnd
  rw [whitespaceRun_eq, first_newlines]
  cases hlast : lastNewline u (cp :: cps) with
  | some k =>
    have hlt := lastNewline_lt hlast
    rw [List.length_cons] at hlt
    refine ⟨Nat.succ_pos _, ?_, by simp⟩
    show k + 0 + 1 ≤ cps.length + 1
    omega
  | none =>
    rw [List.takeWhile_cons_of_pos h, List.length_cons, plus, first_seq_assoc, first_seq_one_cons,
      if_pos h, first_spaces, first_seq_one_cons, if_pos h, first_star_one]
    simp only [Option.map_none, Option.none_or, Nat.zero_add, List.length_cons]
    have hdrop := drop_length_takeWhile u.isWhitespace cps
    have hnil : cps.dropWhile u.isWhitespace = [] ↔
        (cps.takeWhile u.isWhitespace).length = cps.length := by
      rw [← hdrop, List.drop_eq_nil_iff]
      omega
    by_cases hall : cps.dropWhile u.isWhitespace = []
    · -- The text ends in white space.
      rw [if_pos hall, if_pos (by rw [hnil.mp hall])]
      refine ⟨Nat.succ_pos _, by omega, ?_⟩
      rw [List.drop_succ_cons, hdrop, hall]
      rfl
    · rw [if_neg hall, if_neg fun heq => hall (hnil.mpr (by omega))]
      by_cases hone : (cps.takeWhile u.isWhitespace).length = 0
      · rw [if_pos hone, if_neg (by omega), ← hdrop, hone]
        exact ⟨Nat.one_pos, by omega, rfl⟩
      · obtain ⟨k, hk⟩ := Nat.exists_eq_succ_of_ne_zero hone
        rw [if_neg hone, if_pos (by omega), hk]
        exact ⟨Nat.succ_pos _, by omega, rfl⟩

/-- **The word at the start, when it is no contraction.** -/
theorem first_classRegexes (cp : Nat)
    (cps : List Nat) :
    ∃ n, classEnd u (cp :: cps) = some n ∧ 0 < n ∧ n ≤ cps.length + 1 ∧
      first (alts (classRegexes u)) (cp :: cps) = some ((cp :: cps).drop n) := by
  rw [first_alts]
  unfold classEnd classRegexes
  simp only [List.findSome?_cons, first_letters, first_one_cons, first_symbols, List.findSome?_nil]
  have hletters := length_takeWhile_le u.isLetterOrMark cps
  by_cases h₁ : u.isLetterOrMark cp = true ∨
      (u.isNonNewlineNonLetterNonNumber cp = true ∧ cps.head?.any u.isLetterOrMark = true)
  · rw [if_pos h₁, if_pos h₁]
    refine ⟨1 + (cps.takeWhile u.isLetterOrMark).length, ?_, by omega, by omega, ?_⟩
    · split_ifs with hletter
      · rw [List.takeWhile_cons_of_pos hletter, List.length_cons, Nat.add_comm]
      · rfl
    · rw [Nat.add_comm, List.drop_succ_cons, drop_length_takeWhile]
  rw [if_neg h₁, if_neg h₁]
  by_cases h₂ : u.isNumber cp = true
  · rw [if_pos h₂, if_pos h₂]
    exact ⟨1, rfl, Nat.one_pos, by omega, rfl⟩
  rw [if_neg h₂, if_neg h₂]
  by_cases h₃ : (cp = 0x20 ∧ cps.head?.any u.isNonSpaceNonLetterMarkNumber = true) ∨
      u.isNonSpaceNonLetterMarkNumber cp = true
  · rw [if_pos h₃, if_pos h₃]
    dsimp only
    set skipped : Nat := if cp = 0x20 then 1 else 0 with hskipped
    have hsymbols : ((cp :: cps).drop skipped).dropWhile u.isNonSpaceNonLetterMarkNumber =
        (cp :: cps).drop (skipped + (((cp :: cps).drop skipped).takeWhile
          u.isNonSpaceNonLetterMarkNumber).length) := by
      rw [← drop_length_takeWhile, List.drop_drop]
    set symbols := ((cp :: cps).drop skipped).takeWhile u.isNonSpaceNonLetterMarkNumber with hsym
    have hnewlines : ((cp :: cps).drop (skipped + symbols.length)).dropWhile newline =
        (cp :: cps).drop (skipped + symbols.length +
          (((cp :: cps).drop (skipped + symbols.length)).takeWhile isNewline).length) := by
      rw [← drop_length_takeWhile, List.drop_drop]
      rfl
    have hle := length_takeWhile_le u.isNonSpaceNonLetterMarkNumber ((cp :: cps).drop skipped)
    have hle' := length_takeWhile_le isNewline ((cp :: cps).drop (skipped + symbols.length))
    rw [List.length_drop, List.length_cons] at hle hle'
    rw [← hsym] at hle
    refine ⟨_, rfl, ?_, ?_, ?_⟩
    · -- A space is skipped, or the first symbol is taken.
      by_cases hspace : cp = 0x20
      · rw [hskipped, if_pos hspace]
        omega
      · have hfirst : u.isNonSpaceNonLetterMarkNumber cp = true :=
          h₃.resolve_left fun h => hspace h.1
        have hone : 0 < symbols.length := by
          rw [hsym, hskipped, if_neg hspace, List.drop_zero, List.takeWhile_cons_of_pos hfirst]
          exact Nat.succ_pos _
        omega
    · have hone : skipped ≤ 1 := by
        rw [hskipped]
        split_ifs <;> omega
      omega
    · rw [hsymbols, hnewlines]
  rw [if_neg h₃, if_neg h₃]
  -- What is of no other kind is white space.
  have h₄ : u.isWhitespace cp = true := by
    rw [not_or] at h₁ h₃
    have hletter := h₁.1
    have hsymbol := h₃.2
    simp only [CodepointClasses.isLetterOrMark, CodepointClasses.isNonSpaceNonLetterMarkNumber,
      Bool.or_eq_true, not_or, Bool.not_eq_true] at hletter hsymbol h₂
    simpa [hletter.1, hletter.2, h₂] using hsymbol
  rw [if_pos h₄]
  obtain ⟨hpos, hle, hfirst⟩ := first_whitespace h₄ cps
  refine ⟨_, rfl, hpos, hle, ?_⟩
  rw [← hfirst]
  generalize first (seq (star (one u.isWhitespace)) (plus (one newline))) (cp :: cps) = r₁
  generalize first (seq (plus (one u.isWhitespace)) (notAhead (one fun cp => !u.isWhitespace cp)))
    (cp :: cps) = r₂
  generalize first (plus (one u.isWhitespace)) (cp :: cps) = r₃
  cases r₁ <;> cases r₂ <;> cases r₃ <;> rfl

end Ninfer.Tokenizer
