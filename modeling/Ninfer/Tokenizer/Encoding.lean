import Ninfer.Tokenizer.Resources
import Ninfer.Tokenizer.Codepoints

/-!
# Encoding and decoding

`Tokenizer::encode` cuts a text at its added tokens. What is between them is normalised and split
into words, and the bytes of a word, each written as a printable character, are merged pair by pair.
`Tokenizer::decode` puts the bytes of the tokens together.

NFC is a parameter, and so are the classes of code points.

## Main definitions

* `byteCodepoint`, `byteLevelEncode`: bytes as printable characters
* `bestPair`, `mergeSymbols`: the merges of a word
* `symbolIds`, `bpeIds`: the tokens of ordinary text
* `Tokenizer.encode`, `Tokenizer.decode`
-/

namespace Ninfer.Tokenizer

open Output (Bytes)

/-! ## Bytes as characters -/

/-- The bytes that stand for themselves. -/
def visible (byte : Nat) : Bool :=
  (33 ≤ byte && byte ≤ 126) || (161 ≤ byte && byte ≤ 172) || (174 ≤ byte && byte ≤ 255)

/-- The loop of `build_byte_level_encoder`: the code points of the bytes, with the next one for a byte
that does not stand for itself. -/
def byteCodepoints : Nat → List Nat → List Nat
  | _, [] => []
  | next, byte :: bytes =>
    if visible byte then byte :: byteCodepoints next bytes
    else next :: byteCodepoints (next + 1) bytes

/-- The code points of all bytes. -/
def byteLevelCodepoints : List Nat := byteCodepoints 256 (List.range 256)

/-- The code point of a byte. -/
def byteCodepoint (byte : UInt8) : Nat := byteLevelCodepoints.getD byte.toNat 0

/-- `byte_encoder.at(byte)`. -/
def byteSymbol (byte : UInt8) : Bytes := String.utf8EncodeChar (Char.ofNat (byteCodepoint byte))

/-- `byte_decoder.find(codepoint)`. -/
def byteOfCodepoint (cp : Nat) : Option UInt8 :=
  (byteLevelCodepoints.findIdx? (· == cp)).map UInt8.ofNat

/-- `byte_level_encode`. -/
def byteLevelEncode (text : Bytes) : Bytes := text.flatMap byteSymbol

/-- `byte_level_symbols`. -/
def byteLevelSymbols (text : Bytes) : Except Exception (List Bytes) := do
  let spans ← utf8Codepoints text "Tokenizer::encode byte-level text"
  .ok (spans.map fun span => (text.drop span.offset).take span.length)

/-! ## Merges -/

section Merges

variable (ranks : List (Bytes × Nat))

/-- The pair of the lowest rank, the first one of these, from the pair at `i` on. -/
def bestPairFrom : Nat → Option (Nat × Nat) → List Bytes → Option (Nat × Nat)
  | i, best, left :: right :: symbols =>
    let best' := match ranks.lookup (mergePairKey left right), best with
      | some rank, none => some (rank, i)
      | some rank, some (bestRank, j) => if rank < bestRank then some (rank, i) else some (bestRank, j)
      | none, best => best
    bestPairFrom (i + 1) best' (right :: symbols)
  | _, best, _ => best

/-- `best_pair_left`. -/
def bestPair (symbols : List Bytes) : Option Nat := (bestPairFrom ranks 0 none symbols).map Prod.snd

/-- The symbols with those at `i` and behind it merged. -/
def mergeAt : Nat → List Bytes → List Bytes
  | 0, left :: right :: symbols => (left ++ right) :: symbols
  | i + 1, symbol :: symbols => symbol :: mergeAt i symbols
  | _, symbols => symbols

/-- The loop over the merges of a word, with a bound on its turns. -/
def mergeSymbolsFrom : Nat → List Bytes → List Bytes
  | 0, symbols => symbols
  | turns + 1, symbols =>
    match bestPair ranks symbols with
    | none => symbols
    | some i => mergeSymbolsFrom turns (mergeAt i symbols)

/-- The symbols of a word, merged. -/
def mergeSymbols (symbols : List Bytes) : List Bytes :=
  mergeSymbolsFrom ranks symbols.length symbols

end Merges

/-! ## Ordinary text -/

/-- A symbol as it is printed. -/
def symbolText (symbol : Bytes) : String :=
  String.ofList (symbol.map fun byte => Char.ofNat byte.toNat)

/-- `append_symbol_id`: the ids of a symbol. -/
def symbolIds (tokenToId : List (Bytes × Int)) (symbol : Bytes) : Except Exception (List Int) :=
  match tokenToId.lookup symbol with
  | some id => .ok [id]
  | none => do
    let bytes ← byteLevelSymbols symbol
    check (1 < bytes.length) (.invalidArgument
      ("Tokenizer::encode produced token outside vocabulary: " ++ symbolText symbol))
    bytes.mapM fun byteSymbol =>
      match tokenToId.lookup byteSymbol with
      | some id => .ok id
      | none => .error (.invalidArgument
          ("Tokenizer::encode produced byte symbol outside vocabulary: " ++ symbolText byteSymbol))

end Ninfer.Tokenizer

namespace Ninfer

open Output (Bytes)
open Tokenizer

section Encode

variable (u : CodepointClasses) (normalizeNfc : Bytes → Except Exception Bytes) (t : Tokenizer)

/-- The ids of a word. -/
def Tokenizer.wordIds (word : Bytes) : Except Exception (List Int) := do
  let symbols ← byteLevelSymbols (byteLevelEncode word)
  let ids ← (mergeSymbols t.bpeMergeRanks symbols).mapM (symbolIds t.vocabTokenToId)
  .ok ids.flatten

/-- `append_bpe_ids`: the ids of ordinary text. -/
def Tokenizer.bpeIds (text : Bytes) : Except Exception (List Int) :=
  if text = [] then .ok []
  else do
    check t.hasBpeMerges (.invalidArgument
      "Tokenizer::encode ordinary BPE text requires embedded merges.txt")
    let normalized ← normalizeNfc text
    let words ← qwenSplitWords u normalized
    let ids ← words.mapM t.wordIds
    .ok ids.flatten

/-- The added token at the front of a text: the first one of the candidates, which are the added
tokens with its first byte. -/
def Tokenizer.matchToken : Bytes → Option AddedToken
  | [] => none
  | byte :: text => (t.addedTokens.filter fun token => token.content.head? = some byte).find?
      fun token => token.content.isPrefixOf (byte :: text)

/-- The loop of `encode` over the text from a position on, behind ordinary text that has not been
encoded. -/
def Tokenizer.encodeFrom : Nat → Bytes → Bytes → Except Exception (List Int)
  | 0, ordinary, text => t.bpeIds u normalizeNfc (ordinary ++ text)
  | _, ordinary, [] => t.bpeIds u normalizeNfc ordinary
  | turns + 1, ordinary, byte :: text =>
    match t.matchToken (byte :: text) with
    | none => Tokenizer.encodeFrom turns (ordinary ++ [byte]) text
    | some token => do
      let before ← t.bpeIds u normalizeNfc ordinary
      let rest ← Tokenizer.encodeFrom turns [] ((byte :: text).drop token.content.length)
      .ok (before ++ token.id :: rest)

/-- `EncodeOptions`. -/
structure Tokenizer.EncodeOptions where
  parseAddedTokens : Bool := true
  deriving DecidableEq, Repr

/-- `Tokenizer::encode`. -/
def Tokenizer.encode (text : Bytes) (options : Tokenizer.EncodeOptions := {}) :
    Except Exception (List Int) :=
  if text = [] then .ok []
  else if options.parseAddedTokens = false then t.bpeIds u normalizeNfc text
  else t.encodeFrom u normalizeNfc text.length [] text

end Encode

section Decode

variable (t : Tokenizer)

/-- `is_special_token`. -/
def Tokenizer.isSpecialToken (id : Int) : Bool :=
  t.addedTokens.any fun token => token.id = id ∧ token.special = true

/-- `is_valid_token`. -/
def Tokenizer.isValidToken (id : Int) : Bool :=
  0 ≤ id ∧ t.validTokenIds.getD id.toNat false = true

/-- The bytes of the characters of a symbol. -/
def Tokenizer.symbolBytes (id : Int) : List CodepointSpan → Except Exception Bytes
  | [] => .ok []
  | span :: spans => do
    match byteOfCodepoint span.value with
    | none => .error (.invalidArgument ("Tokenizer::decode token id " ++ toString id ++
        " contains a character outside the byte-level alphabet"))
    | some byte => do
      let rest ← Tokenizer.symbolBytes id spans
      .ok (byte :: rest)

/-- `decode_token_bytes`. -/
def Tokenizer.decodeTokenBytes (id : Int) (skipSpecialTokens : Bool) : Except Exception Bytes :=
  if skipSpecialTokens ∧ t.isSpecialToken id then .ok []
  else if id < 0 then
    .error (.invalidArgument ("Tokenizer::decode received negative token id " ++ toString id))
  else if t.idToToken.length ≤ id.toNat ∨ t.validTokenIds.length ≤ id.toNat ∨
      t.validTokenIds.getD id.toNat false = false then
    .error (.outOfRange ("Tokenizer::decode token id " ++ toString id ++
      " is outside loaded vocabulary"))
  else
    let token := t.idToToken.getD id.toNat []
    if t.addedTokens.any (·.id = id) then .ok token
    else do
      let spans ← utf8Codepoints token ("Tokenizer::decode token id " ++ toString id)
      Tokenizer.symbolBytes id spans

/-- `DecodeOptions`. -/
structure Tokenizer.DecodeOptions where
  skipSpecialTokens : Bool := false
  stopTokenIds : List Int := []
  deriving DecidableEq, Repr

/-- `Tokenizer::decode`: a stop token at the end is left out. -/
def Tokenizer.decode (ids : List Int) (options : Tokenizer.DecodeOptions := {}) :
    Except Exception Bytes := do
  let kept := if ids.getLast?.any (· ∈ options.stopTokenIds) then ids.dropLast else ids
  let parts ← kept.mapM fun id => t.decodeTokenBytes id options.skipSpecialTokens
  let _ ← utf8Codepoints parts.flatten "Tokenizer::decode reconstructed output"
  .ok parts.flatten

end Decode

end Ninfer
