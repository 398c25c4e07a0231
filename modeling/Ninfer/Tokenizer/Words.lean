import Ninfer.Output.Decoder

/-!
# The words of a text

`targets/qwen3_6/impl/frontend/tokenizer.cpp` and `text/unicode.cpp`: a text is split into words
before the merges of the vocabulary are applied. The split goes over the code points of the text,
from word to word, and takes the first of six kinds of word that is there.

A position is modelled by the code points from there on. The categories of code points, which are in
the tables of utf8proc, are a parameter.

## Main definitions

* `utf8Codepoints`: the code points of a text, with their places
* `CodepointClasses`: the classes of code points
* `contractionEnd`, `classEnd`, `wordEnd`: where the word at the start of a text ends
* `qwenSplitWords`: the words of a text
-/

namespace Ninfer.Tokenizer

open Output (Bytes utf8procIterate)

/-! ## Code points -/

/-- `CodepointSpan`. -/
structure CodepointSpan where
  value : Nat
  offset : Nat
  length : Nat
  deriving DecidableEq, Repr

/-- The code point that `utf8proc_iterate` reads off a sequence. -/
def codepoint : Bytes → Nat
  | [a] => a.toNat
  | [a, b] => ((a.toNat &&& 0x1f) <<< 6) ||| (b.toNat &&& 0x3f)
  | [a, b, c] => (a.toNat &&& 0xf) <<< 12 ||| (b.toNat &&& 0x3f) <<< 6 ||| (c.toNat &&& 0x3f)
  | [a, b, c, d] =>
    (a.toNat &&& 0x7) <<< 18 ||| (b.toNat &&& 0x3f) <<< 12 ||| (c.toNat &&& 0x3f) <<< 6 |||
      (d.toNat &&& 0x3f)
  | _ => 0

/-- The loop of `utf8_codepoints`, with a bound on its turns. -/
def codepointsFrom (context : String) : Nat → Nat → Bytes → Except Exception (List CodepointSpan)
  | _, _, [] => .ok []
  | 0, _, _ => .ok []
  | turns + 1, offset, bytes =>
    match utf8procIterate bytes with
    | none => .error (.invalidArgument ("invalid UTF-8 in " ++ context ++ ": Invalid UTF-8 string"))
    | some length => do
      let spans ← codepointsFrom context turns (offset + length) (bytes.drop length)
      .ok (⟨codepoint (bytes.take length), offset, length⟩ :: spans)

/-- `utf8_codepoints`. -/
def utf8Codepoints (text : Bytes) (context : String) : Except Exception (List CodepointSpan) :=
  codepointsFrom context text.length 0 text

/-- `utf8proc_category_t`. -/
inductive Utf8procCategory
  | cn
  | lu | ll | lt | lm | lo
  | mn | mc | me
  | nd | nl | no
  | pc | pd | ps | pe | pi | pf | po
  | sm | sc | sk | so
  | zs | zl | zp
  | cc | cf | cs | co
  deriving DecidableEq, Repr

/-- The categories of code points, from which the classes are made. -/
structure CodepointClasses where
  /-- `utf8proc_category`. -/
  utf8procCategory : Nat → Utf8procCategory

/-- `is_ascii_whitespace`. -/
def isAsciiWhitespace (cp : Nat) : Bool :=
  cp == 0x20 || cp == 0x09 || cp == 0x0a || cp == 0x0d || cp == 0x0b || cp == 0x0c

/-- `is_newline`. -/
def isNewline (cp : Nat) : Bool := cp == 0x0d || cp == 0x0a

namespace CodepointClasses

variable (u : CodepointClasses)

/-- `is_letter`. -/
def isLetter (cp : Nat) : Bool :=
  match u.utf8procCategory cp with
  | .lu | .ll | .lt | .lm | .lo => true
  | _ => false

/-- `is_mark`. -/
def isMark (cp : Nat) : Bool :=
  match u.utf8procCategory cp with
  | .mn | .mc | .me => true
  | _ => false

/-- `is_number`. -/
def isNumber (cp : Nat) : Bool :=
  match u.utf8procCategory cp with
  | .nd | .nl | .no => true
  | _ => false

/-- `is_whitespace`. -/
def isWhitespace (cp : Nat) : Bool :=
  if isAsciiWhitespace cp then true
  else
    match u.utf8procCategory cp with
    | .zs | .zl | .zp => true
    | _ => false

/-- Newlines are white space, whatever their category. -/
theorem isWhitespace_of_isNewline {cp : Nat} (h : isNewline cp = true) :
    u.isWhitespace cp = true := by
  have hascii : isAsciiWhitespace cp = true := by
    simp only [isNewline, isAsciiWhitespace, Bool.or_eq_true, beq_iff_eq] at h ⊢
    omega
  rw [isWhitespace, if_pos hascii]

/-- `is_letter_or_mark`. -/
def isLetterOrMark (cp : Nat) : Bool := u.isLetter cp || u.isMark cp

/-- `is_non_newline_non_letter_non_number`. -/
def isNonNewlineNonLetterNonNumber (cp : Nat) : Bool :=
  !isNewline cp && !u.isLetter cp && !u.isNumber cp

/-- `is_non_space_non_letter_mark_number`. -/
def isNonSpaceNonLetterMarkNumber (cp : Nat) : Bool :=
  !u.isWhitespace cp && !u.isLetter cp && !u.isMark cp && !u.isNumber cp

end CodepointClasses

/-! ## Contractions -/

/-- `std::tolower` in the "C" locale. -/
def toLower (byte : UInt8) : UInt8 :=
  if 0x41 ≤ byte.toNat ∧ byte.toNat ≤ 0x5a then byte + 0x20 else byte

/-- `ascii_ci_matches`. -/
def asciiCiMatches (text : Bytes) (offset : Nat) (suffix : Bytes) : Bool :=
  offset + suffix.length ≤ text.length &&
    ((text.drop offset).take suffix.length).map toLower == suffix.map toLower

/-- The suffixes of contractions: `s`, `t`, `re`, `ve`, `m`, `ll`, `d`. -/
def suffixes : List Bytes :=
  [[0x73], [0x74], [0x72, 0x65], [0x76, 0x65], [0x6d], [0x6c, 0x6c], [0x64]]

/-- The number of code points of the contraction at the start. -/
def contractionEnd (text : Bytes) : List CodepointSpan → Option Nat
  | [] => none
  | span :: spans =>
    if span.value = 0x27 then
      (suffixes.find? fun suffix => asciiCiMatches text (span.offset + 1) suffix).map fun suffix =>
        1 + (spans.takeWhile fun s => s.offset < span.offset + 1 + suffix.length).length
    else none

/-! ## The other kinds of word -/

section Classes

variable (u : CodepointClasses)

/-- The loop over white space: the end of the run, and its last newline. -/
def whitespaceRun : List Nat → Nat → Option Nat → Nat × Option Nat
  | [], runEnd, lastNewline => (runEnd, lastNewline)
  | cp :: cps, runEnd, lastNewline =>
    if u.isWhitespace cp then
      whitespaceRun cps (runEnd + 1) (if isNewline cp then some runEnd else lastNewline)
    else (runEnd, lastNewline)

/-- The number of white space code points that the word at the start takes. -/
def whitespaceEnd (cps : List Nat) : Nat :=
  match whitespaceRun u cps 0 none with
  | (_, some lastNewline) => lastNewline + 1
  | (runEnd, none) =>
    if runEnd = cps.length then runEnd
    else if 2 ≤ runEnd then runEnd - 1
    else runEnd

/-- The number of code points of the word at the start, which is no contraction; nothing when the
first code point is of no kind. -/
def classEnd : List Nat → Option Nat
  | [] => none
  | cp :: cps =>
    if u.isLetterOrMark cp ∨
        (u.isNonNewlineNonLetterNonNumber cp ∧ cps.head?.any u.isLetterOrMark) then
      some (if u.isLetterOrMark cp then ((cp :: cps).takeWhile u.isLetterOrMark).length
        else 1 + (cps.takeWhile u.isLetterOrMark).length)
    else if u.isNumber cp then some 1
    else if (cp = 0x20 ∧ cps.head?.any u.isNonSpaceNonLetterMarkNumber) ∨
        u.isNonSpaceNonLetterMarkNumber cp then
      let skipped := if cp = 0x20 then 1 else 0
      let symbols := ((cp :: cps).drop skipped).takeWhile u.isNonSpaceNonLetterMarkNumber
      let newlines := ((cp :: cps).drop (skipped + symbols.length)).takeWhile isNewline
      some (skipped + symbols.length + newlines.length)
    else if u.isWhitespace cp then some (whitespaceEnd u (cp :: cps))
    else none

/-- The number of code points of the word at the start; nothing when the first one is of no kind. -/
def wordEnd (text : Bytes) (spans : List CodepointSpan) : Option Nat :=
  (contractionEnd text spans).or (classEnd u (spans.map CodepointSpan.value))

/-- `span_end_offset`, for the spans from a position on. -/
def spanEndOffset (text : Bytes) (spans : List CodepointSpan) (count : Nat) : Nat :=
  match spans[count]? with
  | none => text.length
  | some span => span.offset

/-- The loop of `qwen_split_words`, with a bound on its turns. A code point of no kind is a word. Words
of one code point are cut by its length in the source, which is where the next span starts. -/
def splitFrom (text : Bytes) : Nat → List CodepointSpan → List Bytes
  | 0, _ => []
  | _, [] => []
  | turns + 1, span :: spans =>
    let count := (wordEnd u text (span :: spans)).getD 1
    let finish := spanEndOffset text (span :: spans) count
    (text.drop span.offset).take (finish - span.offset) ::
      splitFrom text turns ((span :: spans).drop count)

/-- `qwen_split_words`. -/
def qwenSplitWords (text : Bytes) : Except Exception (List Bytes) := do
  let spans ← utf8Codepoints text "Tokenizer::encode input"
  .ok (splitFrom u text spans.length spans)

end Classes

end Ninfer.Tokenizer
