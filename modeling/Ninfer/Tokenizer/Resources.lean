import Ninfer.Commons.Check
import Ninfer.Commons.Json
import Ninfer.Output.Decoder

/-!
# The tokenizer and its resources

`targets/qwen3_6/impl/frontend/tokenizer.cpp`: the tokenizer is built from three JSON documents. The
vocabulary gives a token for each symbol, the added tokens of two documents are merged, and the pairs
of symbols that are merged have a rank.

The JSON library is a parameter, which parses documents. A table that the source keeps in a hash map
is a list of its entries, of which the first one with a key counts.

## Main definitions

* `Tokenizer`, `AddedToken`: what is built
* `loadVocab`, `loadAddedTokens`, `mergeAddedTokensDecoder`, `loadBpeMergeRanks`: the parts
* `Tokenizer.make`: the constructor
-/

namespace Ninfer.Tokenizer

open Output (Bytes)

/-- The bytes of a JSON string. -/
def bytesOf (value : String) : Bytes := utf8 value.toList

/-! ## Fields -/

/-- `kMaxTokenId`. -/
def kMaxTokenId : Int := 1000000

/-- `read_json_asset`. -/
def readJsonAsset (parse : Bytes → Except String Json) (contents : Bytes) (label : String) :
    Except Exception Json :=
  match parse contents with
  | .ok value => .ok value
  | .error what => .error (.invalidArgument ("malformed " ++ label ++ ": " ++ what))

/-- The members of an object. -/
def members : Json → List (String × Json)
  | .obj members => members
  | _ => []

/-- The member of an object. -/
def memberOf (object : Json) (field : String) : Option Json := (members object).lookup field

/-- `require_object_field`. -/
def requireObjectField (object : Json) (field label : String) : Except Exception Json :=
  match memberOf object field with
  | none => .error (.invalidArgument ("missing field " ++ field ++ " in " ++ label))
  | some (.obj members) => .ok (.obj members)
  | some _ => .error (.invalidArgument ("field " ++ field ++ " must be object in " ++ label))

/-- `require_array_field`, with the items of the array. -/
def requireArrayField (object : Json) (field label : String) : Except Exception (List Json) :=
  match memberOf object field with
  | none => .error (.invalidArgument ("missing field " ++ field ++ " in " ++ label))
  | some (.arr items) => .ok items
  | some _ => .error (.invalidArgument ("field " ++ field ++ " must be array in " ++ label))

/-- `parse_token_id`. -/
def parseTokenId (value : Json) (field label : String) : Except Exception Int :=
  match value with
  | .int id =>
    if id < 0 then
      .error (.invalidArgument ("field " ++ field ++ " has negative id in " ++ label))
    else if kMaxTokenId < id then
      .error (.invalidArgument ("field " ++ field ++ " id is out of range in " ++ label))
    else .ok id
  | _ => .error (.invalidArgument ("field " ++ field ++ " must be integer in " ++ label))

/-- `require_string_field`. -/
def requireStringField (object : Json) (field label : String) : Except Exception Bytes :=
  match memberOf object field with
  | some (.str value) => .ok (bytesOf value)
  | _ => .error (.invalidArgument ("field " ++ field ++ " must be string in " ++ label))

/-- `require_bool_field`. -/
def requireBoolField (object : Json) (field label : String) : Except Exception Bool :=
  match memberOf object field with
  | some (.bool value) => .ok value
  | _ => .error (.invalidArgument ("field " ++ field ++ " must be boolean in " ++ label))

/-! ## The vocabulary -/

/-- `VocabMetadata`. The occupied ids are those of `tokenToId`. -/
structure VocabMetadata where
  idToToken : List Bytes
  tokenToId : List (Bytes × Int)
  deriving DecidableEq, Repr

/-- The first loop of `load_vocab`: the ids, of which none occurs twice. -/
def vocabIds (label : String) : List Int → List (String × Json) →
    Except Exception (List (Bytes × Int))
  | _, [] => .ok []
  | occupied, (token, value) :: items => do
    let id ← parseTokenId value "model.vocab" label
    check (id ∉ occupied) (.invalidArgument ("field model.vocab has duplicate id in " ++ label))
    let rest ← vocabIds label (id :: occupied) items
    .ok ((bytesOf token, id) :: rest)

/-- The second loop of `load_vocab`. -/
def vocabTable (entries : List (Bytes × Int)) : List Bytes :=
  let maxId := (entries.map Prod.snd).foldl max (-1)
  entries.foldl (fun table entry => table.set entry.2.toNat entry.1)
    (List.replicate (maxId + 1).toNat [])

/-- `load_vocab`. -/
def loadVocab (model : Json) (label : String) : Except Exception VocabMetadata := do
  check (memberOf model "type" matches some (.str "BPE"))
    (.invalidArgument ("field model.type must be BPE in " ++ label))
  let vocab ← requireObjectField model "vocab" label
  check (members vocab ≠ []) (.invalidArgument ("field model.vocab must not be empty in " ++ label))
  let entries ← vocabIds label [] (members vocab)
  .ok ⟨vocabTable entries, entries⟩

/-! ## Added tokens -/

/-- `AddedToken`. -/
structure AddedToken where
  id : Int
  content : Bytes
  singleWord : Bool := false
  lstrip : Bool := false
  rstrip : Bool := false
  normalized : Bool := false
  special : Bool := false
  deriving DecidableEq, Repr

/-- The fields of an added token but its id. -/
def addedTokenFields (id : Int) (item : Json) (label : String) : Except Exception AddedToken := do
  let content ← requireStringField item "content" label
  let singleWord ← requireBoolField item "single_word" label
  let lstrip ← requireBoolField item "lstrip" label
  let rstrip ← requireBoolField item "rstrip" label
  let normalized ← requireBoolField item "normalized" label
  let special ← requireBoolField item "special" label
  .ok ⟨id, content, singleWord, lstrip, rstrip, normalized, special⟩

/-- `parse_added_token`. -/
def parseAddedToken (item : Json) (label : String) : Except Exception AddedToken := do
  check item.isObj
    (.invalidArgument ("field added_tokens item must be object in " ++ label))
  match memberOf item "id" with
  | none => .error (.invalidArgument ("missing field added_tokens.id in " ++ label))
  | some value => do
    let id ← parseTokenId value "added_tokens.id" label
    addedTokenFields id item label

/-- `parse_added_token_decoder_entry`. -/
def parseAddedTokenDecoderEntry (id : Int) (item : Json) (label : String) :
    Except Exception AddedToken := do
  check item.isObj
    (.invalidArgument ("field added_tokens_decoder item must be object in " ++ label))
  addedTokenFields id item label

/-- `validate_supported_added_token`. -/
def validateSupportedAddedToken (token : AddedToken) (label : String) : Except Exception Unit := do
  check (token.content ≠ [])
    (.invalidArgument ("added token content must not be empty in " ++ label))
  check ((token.singleWord || token.lstrip || token.rstrip || token.normalized) = false)
    (.invalidArgument ("Tokenizer only supports added tokens with single_word=false, " ++
      "lstrip=false, rstrip=false, and normalized=false in " ++ label))

/-- `parse_added_token_decoder_id`: a number as it is printed. -/
def parseAddedTokenDecoderId (key label : String) : Except Exception Int :=
  match key.toNat? with
  | some id =>
    if (id : Int) ≤ kMaxTokenId ∧ Json.decimal id = key.toList then .ok id
    else .error (.invalidArgument
      ("added_tokens_decoder key must be a nonnegative token id in " ++ label))
  | none => .error (.invalidArgument
      ("added_tokens_decoder key must be a nonnegative token id in " ++ label))

/-- `id_to_token[index] = content`, in a table that grows where it has to. -/
def place (table : List Bytes) (index : Nat) (content : Bytes) : List Bytes :=
  (table ++ List.replicate (index + 1 - table.length) []).set index content

/-- What the added tokens are loaded into. -/
structure Loading where
  tokens : List AddedToken := []
  idToToken : List Bytes
  deriving DecidableEq, Repr

def Loading.push (st : Loading) (token : AddedToken) : Loading where
  tokens := st.tokens ++ [token]
  idToToken := place st.idToToken token.id.toNat token.content

section Added

variable (vocab : VocabMetadata)

/-- `occupied_vocab_ids.contains(id)`. -/
def VocabMetadata.occupied (id : Int) : Prop := id ∈ vocab.tokenToId.map Prod.snd

/-- `occupied_vocab_tokens.contains(content)`. -/
def VocabMetadata.contains (content : Bytes) : Prop := content ∈ vocab.tokenToId.map Prod.fst

instance (id : Int) : Decidable (vocab.occupied id) :=
  inferInstanceAs (Decidable (_ ∈ _))

instance (content : Bytes) : Decidable (vocab.contains content) :=
  inferInstanceAs (Decidable (_ ∈ _))

/-- One turn of the loop of `load_added_tokens`. -/
def loadAddedToken (label : String) (st : Loading) (item : Json) : Except Exception Loading := do
  let token ← parseAddedToken item label
  validateSupportedAddedToken token label
  check (¬vocab.occupied token.id)
    (.invalidArgument ("field added_tokens overlaps existing id in " ++ label))
  check (∀ other ∈ st.tokens, other.id ≠ token.id)
    (.invalidArgument ("field added_tokens has duplicate id in " ++ label))
  check (¬vocab.contains token.content ∧ ∀ other ∈ st.tokens, other.content ≠ token.content)
    (.invalidArgument ("field added_tokens has duplicate content mapping in " ++ label))
  .ok (st.push token)

/-- `load_added_tokens`. -/
def loadAddedTokens (root : Json) (label : String) : Except Exception Loading := do
  let added ← requireArrayField root "added_tokens" label
  added.foldlM (loadAddedToken vocab label) { idToToken := vocab.idToToken }

/-- `token.content`, as it is printed. -/
def contentText (item : Json) : String :=
  match memberOf item "content" with
  | some (.str value) => value
  | _ => ""

/-- One turn of the loop of `merge_added_tokens_decoder`, behind the check of the ids of the
document. -/
def mergeAddedToken (label : String) (st : Loading) (id : Int) (item : Json) :
    Except Exception Loading := do
  let token ← parseAddedTokenDecoderEntry id item label
  validateSupportedAddedToken token label
  match st.tokens.find? (·.id = id) with
  | some existing => do
    check (existing = token) (.invalidArgument ("conflicting added-token definition for id " ++
      toString id ++ " between tokenizer.json and tokenizer_config.json"))
    .ok st
  | none => do
    check (¬vocab.occupied id)
      (.invalidArgument ("added_tokens_decoder overlaps vocabulary id " ++ toString id))
    check ((∀ other ∈ st.tokens, other.content ≠ token.content) ∧ ¬vocab.contains token.content)
      (.invalidArgument ("conflicting added-token content mapping for " ++ contentText item))
    check (st.idToToken.getD id.toNat [] = [])
      (.invalidArgument ("duplicate tokenizer mapping for id " ++ toString id))
    .ok (st.push token)

/-- The loop of `merge_added_tokens_decoder`. -/
def mergeLoop (label : String) : List Int → Loading → List (String × Json) →
    Except Exception Loading
  | _, st, [] => .ok st
  | seen, st, (key, item) :: items => do
    let id ← parseAddedTokenDecoderId key label
    check (id ∉ seen)
      (.invalidArgument ("added_tokens_decoder has duplicate id mapping in " ++ label))
    let st ← mergeAddedToken vocab label st id item
    mergeLoop label (id :: seen) st items

/-- `merge_added_tokens_decoder`: the tokens are sorted by their ids. -/
def mergeAddedTokensDecoder (root : Json) (label : String) (st : Loading) :
    Except Exception Loading := do
  let decoder ← requireObjectField root "added_tokens_decoder" label
  let st ← mergeLoop vocab label [] st (members decoder)
  .ok { st with tokens := st.tokens.insertionSort fun a b => a.id ≤ b.id }

end Added

/-! ## Merges and stop tokens -/

/-- `merge_pair_key`. -/
def mergePairKey (left right : Bytes) : Bytes := left ++ 0 :: right

/-- An entry of `model.merges`. -/
def mergePair (item : Json) (label : String) : Except Exception (Bytes × Bytes) :=
  match item with
  | .arr [.str left, .str right] => .ok (bytesOf left, bytesOf right)
  | .str pair =>
    let bytes := bytesOf pair
    let space := (bytes.takeWhile (· != 0x20)).length
    if bytes.length ≤ space ∨ space = 0 ∨ bytes.length ≤ space + 1 ∨
        (0x20 : UInt8) ∈ bytes.drop (space + 1) then
      .error (.invalidArgument ("malformed model.merges entry in " ++ label))
    else .ok (bytes.take space, bytes.drop (space + 1))
  | _ => .error (.invalidArgument ("field model.merges must contain symbol pairs in " ++ label))

/-- The loop of `load_bpe_merge_ranks`. -/
def mergeRanks (label : String) : Nat → List (Bytes × Nat) → List Json →
    Except Exception (List (Bytes × Nat))
  | _, ranks, [] => .ok ranks
  | rank, ranks, item :: items => do
    let pair ← mergePair item label
    let key := mergePairKey pair.1 pair.2
    check (key ∉ ranks.map Prod.fst) (.invalidArgument "duplicate merge pair in model.merges")
    mergeRanks label (rank + 1) (ranks ++ [(key, rank)]) items

/-- `load_bpe_merge_ranks`. -/
def loadBpeMergeRanks (model : Json) (label : String) : Except Exception (List (Bytes × Nat)) := do
  let merges ← requireArrayField model "merges" label
  mergeRanks label 0 [] merges

/-- `load_default_stop_token_ids`. -/
def loadDefaultStopTokenIds (parse : Bytes → Except String Json) (contents : Bytes) :
    Except Exception (List Int) := do
  let label := "generation_config.json"
  let root ← readJsonAsset parse contents label
  match memberOf root "eos_token_id" with
  | none => .error (.invalidArgument "missing field eos_token_id in generation_config.json")
  | some (.int id) => (parseTokenId (.int id) "eos_token_id" label).map ([·])
  | some (.arr items) => do
    check (items ≠ [])
      (.invalidArgument "field eos_token_id must not be empty in generation_config.json")
    items.mapM fun item => parseTokenId item "eos_token_id" label
  | some _ => .error (.invalidArgument
      "field eos_token_id must be integer or array in generation_config.json")

/-! ## The constructor -/

/-- `TokenizerResources`. -/
structure TokenizerResources where
  tokenizerJson : Bytes
  tokenizerConfigJson : Bytes
  generationConfigJson : Bytes
  deriving DecidableEq, Repr

end Ninfer.Tokenizer

namespace Ninfer

open Output (Bytes)
open Tokenizer

/-- `Tokenizer`. -/
structure Tokenizer where
  idToToken : List Bytes
  vocabTokenToId : List (Bytes × Int)
  validTokenIds : List Bool
  addedTokens : List AddedToken
  hasBpeMerges : Bool
  bpeMergeRanks : List (Bytes × Nat)
  defaultStopTokenIds : List Int
  deriving DecidableEq, Repr

/-- `valid_token_ids_`: the ids of the vocabulary, and then those of the added tokens in the table that
has grown with them. -/
def Tokenizer.validIds (vocab : VocabMetadata) (st : Loading) : List Bool :=
  let ofVocab := (vocab.tokenToId.map Prod.snd).foldl (fun valid id => valid.set id.toNat true)
    (List.replicate vocab.idToToken.length false)
  (st.tokens.map AddedToken.id).foldl (fun valid id => valid.set id.toNat true)
    (ofVocab ++ List.replicate (st.idToToken.length - ofVocab.length) false)

/-- The constructor of `Tokenizer`. -/
def Tokenizer.make (parse : Bytes → Except String Json) (resources : TokenizerResources) :
    Except Exception Tokenizer := do
  check (resources.tokenizerJson ≠ [] ∧ resources.tokenizerConfigJson ≠ [] ∧
      resources.generationConfigJson ≠ [])
    (.invalidArgument "embedded tokenizer resources are empty")
  let root ← readJsonAsset parse resources.tokenizerJson "tokenizer.json"
  let config ← readJsonAsset parse resources.tokenizerConfigJson "tokenizer_config.json"
  let model ← requireObjectField root "model" "tokenizer.json"
  let vocab ← loadVocab model "tokenizer.json"
  let st ← loadAddedTokens vocab root "tokenizer.json"
  let st ← mergeAddedTokensDecoder vocab config "tokenizer_config.json" st
  let ranks ← loadBpeMergeRanks model "tokenizer.json"
  let stops ← loadDefaultStopTokenIds parse resources.generationConfigJson
  .ok ⟨st.idToToken, vocab.tokenToId, Tokenizer.validIds vocab st, st.tokens, true, ranks, stops⟩

end Ninfer
