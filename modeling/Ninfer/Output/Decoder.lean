import Ninfer.Executor.State
import Ninfer.Commons.Search
import Ninfer.Commons.Utf8

/-!
# The output decoder

`targets/qwen3_6/impl/frontend/frontend.cpp`: how generated tokens become text. The bytes of the
tokens are released as far as they are complete UTF-8, the released text goes to the reasoning
channel until the marker `</think>` and to the content channel after it, and each channel is
searched for its stop strings. Three buffers keep text back: an incomplete character, a start of
the marker, and a start of a stop string.

Byte strings are lists of bytes, and the byte counters, 64 and 32 bit wide, are natural numbers. The
tokenizer is a parameter: which tokens are in its vocabulary, which are special, and the bytes of
each.

## Main definitions

* `validUtf8PrefixSize`, `longestSuffixPrefix`, `stopHoldSize`: what can be released
* `feedChannel`, `feedContent`, `feedDecodedText`, `feedTokenBytes`: a token goes through the buffers
* `terminalize`, `terminalState`: how a session ends
* `mergeStopPolicy`: the stop policy of a session
-/

namespace Ninfer.Output

open Executor (FinishReason)

abbrev Bytes := List UInt8

abbrev TokenId := Int

/-- `OutputChannel`. -/
inductive OutputChannel
  | content
  | reasoning
  deriving DecidableEq, Repr

/-- `StopString`. -/
structure StopString where
  text : Bytes
  channel : OutputChannel := .content
  includeInOutput : Bool := false
  deriving DecidableEq, Repr

/-- `StopPolicy`. -/
structure StopPolicy where
  tokenIds : List TokenId := []
  strings : List StopString := []
  includeModelDefaults : Bool := true
  publishStopToken : Bool := false
  deriving DecidableEq, Repr

/-- What the decoder uses of the tokenizer; `tokenBytes` is `decode_token_bytes` of a token that is
not skipped. -/
structure Tokenizer where
  isValidToken : TokenId → Bool
  isSpecialToken : TokenId → Bool
  tokenBytes : TokenId → Except Exception Bytes
  defaultStopTokenIds : List TokenId

/-- `decode_token_bytes`. -/
def Tokenizer.decodeTokenBytes (t : Tokenizer) (id : TokenId) (skipSpecialTokens : Bool) :
    Except Exception Bytes :=
  if skipSpecialTokens ∧ t.isSpecialToken id then .ok [] else t.tokenBytes id

/-! ## Published output -/

/-- `OutputDelta`. -/
structure OutputDelta where
  channel : OutputChannel
  text : Bytes
  deriving DecidableEq, Repr

/-- `PublishedOutput`: an array of at most two deltas. -/
abbrev PublishedOutput := List OutputDelta

/-- `push_back`. -/
def pushBack (output : PublishedOutput) (value : OutputDelta) : Except Exception PublishedOutput :=
  if output.length = 2 then
    .error (.logicError "output decoder produced more than two channel transitions")
  else .ok (output ++ [value])

/-- `append_delta`. -/
def appendDelta (output : PublishedOutput) (channel : OutputChannel) (text : Bytes) :
    Except Exception PublishedOutput :=
  if text = [] then .ok output
  else
    match output.getLast? with
    | none => pushBack output ⟨channel, text⟩
    | some last =>
      if last.channel = channel then .ok (output.dropLast ++ [⟨channel, last.text ++ text⟩])
      else pushBack output ⟨channel, text⟩

/-! ## UTF-8 -/

/-- The length of the sequence a lead byte announces, its bits of the code point, and the smallest
code point of that length. -/
def leadByte (lead : Nat) : Option (Nat × Nat × Nat) :=
  if lead ≤ 0x7f then some (1, lead, 0)
  else if 0xc2 ≤ lead ∧ lead ≤ 0xdf then some (2, lead &&& 0x1f, 0x80)
  else if 0xe0 ≤ lead ∧ lead ≤ 0xef then some (3, lead &&& 0x0f, 0x800)
  else if 0xf0 ≤ lead ∧ lead ≤ 0xf4 then some (4, lead &&& 0x07, 0x10000)
  else none

/-- The continuation loop of `valid_utf8_prefix_size`. -/
def continuation (codepoint : Nat) : Bytes → Except Exception Nat
  | [] => .ok codepoint
  | byte :: bytes =>
    if byte.toNat &&& 0xc0 ≠ 0x80 then
      .error (.invalidArgument "invalid UTF-8 continuation byte in generated token stream")
    else continuation ((codepoint <<< 6) ||| (byte.toNat &&& 0x3f)) bytes

/-- One turn of `valid_utf8_prefix_size`: the size of the sequence at the start, or nothing when it
is not complete. -/
def sequenceSize : Bytes → Except Exception (Option Nat)
  | [] => .ok none
  | lead :: bytes =>
    match leadByte lead.toNat with
    | none => .error (.invalidArgument "invalid UTF-8 leading byte in generated token stream")
    | some (length, bits, minimum) =>
      if bytes.length + 1 < length then .ok none
      else
        match continuation bits (bytes.take (length - 1)) with
        | .error e => .error e
        | .ok codepoint =>
          if codepoint < minimum ∨ (0xd800 ≤ codepoint ∧ codepoint ≤ 0xdfff) ∨
              0x10ffff < codepoint then
            .error (.invalidArgument "invalid UTF-8 codepoint in generated token stream")
          else .ok (some length)

/-- The loop of `valid_utf8_prefix_size`, with a bound on its turns. -/
def scanUtf8 : Nat → Bytes → Except Exception Nat
  | 0, _ => .ok 0
  | turns + 1, bytes =>
    match sequenceSize bytes with
    | .error e => .error e
    | .ok none => .ok 0
    | .ok (some length) =>
      match scanUtf8 turns (bytes.drop length) with
      | .error e => .error e
      | .ok size => .ok (length + size)

/-- `valid_utf8_prefix_size`. -/
def validUtf8PrefixSize (bytes : Bytes) : Except Exception Nat := scanUtf8 bytes.length bytes

/-! ## Searching -/

/-- The loop of `longest_suffix_prefix`, from a size down. -/
def suffixPrefixFrom (text marker : Bytes) (allowComplete : Bool) : Nat → Nat
  | 0 => 0
  | size + 1 =>
    if !allowComplete ∧ size + 1 = marker.length then
      suffixPrefixFrom text marker allowComplete size
    else if text.drop (text.length - (size + 1)) = marker.take (size + 1) then size + 1
    else suffixPrefixFrom text marker allowComplete size

/-- `longest_suffix_prefix`. -/
def longestSuffixPrefix (text marker : Bytes) (allowComplete : Bool) : Nat :=
  suffixPrefixFrom text marker allowComplete (min text.length marker.length)

/-- `stop_hold_size`. -/
def stopHoldSize (text : Bytes) (channel : OutputChannel) (policy : StopPolicy) : Nat :=
  policy.strings.foldl (fun hold stop =>
    if stop.channel ≠ channel then hold else max hold (longestSuffixPrefix text stop.text false)) 0

/-! ## The decoder -/

/-- `DecoderState`. -/
structure DecoderState where
  utf8Pending : Bytes := []
  thinkMarkerPending : Bytes := []
  stopPending : OutputChannel → Bytes := fun _ => []
  inReasoning : Bool := false
  stripContentLeading : Bool := false
  terminal : Bool := false
  decodedBytes : Nat := 0
  reasoningTokens : Nat := 0

/-- `StopMatch`, once one is found. -/
structure StopMatch where
  committedTokens : Nat
  byteCut : Nat
  declarationOrder : Nat
  output : PublishedOutput

/-- `stop_match_precedes`. -/
def stopMatchPrecedes (committedTokens byteCut declarationOrder : Nat) (current : Option StopMatch) :
    Bool :=
  match current with
  | none => true
  | some current =>
    if committedTokens ≠ current.committedTokens then decide (committedTokens < current.committedTokens)
    else if byteCut ≠ current.byteCut then decide (byteCut < current.byteCut)
    else decide (declarationOrder < current.declarationOrder)

/-- What the feeding functions change: the state, the output emitted, and the best match. -/
structure Feeding where
  state : DecoderState
  emitted : PublishedOutput
  best : Option StopMatch := none

/-- The output of a match: what was emitted, the text in front of the stop string, and the stop
string when it is included. -/
def candidateOutput (emitted : PublishedOutput) (channel : OutputChannel) (before : Bytes)
    (stop : StopString) : Except Exception PublishedOutput :=
  match appendDelta emitted channel before with
  | .error e => .error e
  | .ok candidate =>
    if stop.includeInOutput then appendDelta candidate channel stop.text else .ok candidate

/-- The body of the matching loop of `feed_channel`. -/
def matchStop (channel : OutputChannel) (combined : Bytes) (combinedStart committedTokens : Nat)
    (emitted : PublishedOutput) (best : Option StopMatch) (declaration : StopString × Nat) :
    Except Exception (Option StopMatch) :=
  let (stop, order) := declaration
  if stop.channel ≠ channel then .ok best
  else
    match find stop.text combined with
    | none => .ok best
    | some found =>
      if stopMatchPrecedes committedTokens (combinedStart + found) order best = false then .ok best
      else
        match candidateOutput emitted channel (combined.take found) stop with
        | .error e => .error e
        | .ok candidate => .ok (some ⟨committedTokens, combinedStart + found, order, candidate⟩)

/-- The matching loop of `feed_channel`; without `matching` it gets no `best_match`. -/
def matchStops (policy : StopPolicy) (committedTokens : Nat) (matching : Bool)
    (channel : OutputChannel) (combined : Bytes) (combinedStart : Nat) (f : Feeding) :
    Except Exception (Option StopMatch) :=
  if matching then
    policy.strings.zipIdx.foldlM
      (matchStop channel combined combinedStart committedTokens f.emitted) f.best
  else .ok f.best

/-- `feed_channel`. -/
def feedChannel (policy : StopPolicy) (committedTokens : Nat) (matching : Bool)
    (channel : OutputChannel) (text : Bytes) (f : Feeding) : Except Exception Feeding :=
  if text = [] then .ok f
  else do
    let pending := f.state.stopPending channel
    let combined := pending ++ text
    let combinedStart := f.state.decodedBytes - pending.length
    let best ← matchStops policy committedTokens matching channel combined combinedStart f
    let size := combined.length - stopHoldSize combined channel policy
    let emitted ← appendDelta f.emitted channel (combined.take size)
    .ok
      { state :=
          { f.state with
            stopPending := Function.update f.state.stopPending channel (combined.drop size)
            decodedBytes := f.state.decodedBytes + text.length }
        emitted := emitted
        best := best }

/-- `close_channel`. -/
def closeChannel (channel : OutputChannel) (f : Feeding) : Except Exception Feeding := do
  let emitted ← appendDelta f.emitted channel (f.state.stopPending channel)
  .ok { f with
    state := { f.state with stopPending := Function.update f.state.stopPending channel [] }
    emitted := emitted }

/-- `std::isspace` in the "C" locale. -/
def isSpace (byte : UInt8) : Bool :=
  byte.toNat == 0x20 || (decide (0x09 ≤ byte.toNat) && decide (byte.toNat ≤ 0x0d))

/-- `feed_content`. -/
def feedContent (policy : StopPolicy) (committedTokens : Nat) (matching : Bool) (text : Bytes)
    (f : Feeding) : Except Exception Feeding :=
  if f.state.stripContentLeading then
    let text := text.dropWhile isSpace
    feedChannel policy committedTokens matching .content text
      { f with state := { f.state with stripContentLeading := text.isEmpty } }
  else feedChannel policy committedTokens matching .content text f

/-- `kThinkClose`: `</think>`. -/
def kThinkClose : Bytes := [0x3c, 0x2f, 0x74, 0x68, 0x69, 0x6e, 0x6b, 0x3e]

/-- `feed_decoded_text`. -/
def feedDecodedText (policy : StopPolicy) (committedTokens : Nat) (matching : Bool) (text : Bytes)
    (f : Feeding) : Except Exception Feeding :=
  if f.state.inReasoning = false then feedContent policy committedTokens matching text f
  else
    let pending := f.state.thinkMarkerPending ++ text
    match find kThinkClose pending with
    | some marker => do
      let f ← feedChannel policy committedTokens matching .reasoning (pending.take marker)
        { f with state := { f.state with thinkMarkerPending := pending } }
      let f ← closeChannel .reasoning f
      feedContent policy committedTokens matching (pending.drop (marker + kThinkClose.length))
        { f with
          state :=
            { f.state with
              thinkMarkerPending := []
              inReasoning := false
              stripContentLeading := true } }
    | none => do
      let safe := pending.length - longestSuffixPrefix pending kThinkClose true
      let f ← feedChannel policy committedTokens matching .reasoning (pending.take safe)
        { f with state := { f.state with thinkMarkerPending := pending } }
      .ok { f with state := { f.state with thinkMarkerPending := pending.drop safe } }

/-- `feed_token_bytes`. -/
def feedTokenBytes (policy : StopPolicy) (committedTokens : Nat) (matching : Bool) (bytes : Bytes)
    (f : Feeding) : Except Exception Feeding := do
  let pending := f.state.utf8Pending ++ bytes
  let valid ← validUtf8PrefixSize pending
  if valid = 0 then .ok { f with state := { f.state with utf8Pending := pending } }
  else
    feedDecodedText policy committedTokens matching (pending.take valid)
      { f with state := { f.state with utf8Pending := pending.drop valid } }

/-- The replacement character that ends an incomplete text. -/
def kReplacement : Bytes := [0xef, 0xbf, 0xbd]

/-- `terminalize`, the incomplete character. -/
def flushUtf8 (policy : StopPolicy) (committedTokens : Nat) (f : Feeding) :
    Except Exception Feeding :=
  if f.state.utf8Pending = [] then .ok f
  else
    feedDecodedText policy committedTokens false kReplacement
      { f with state := { f.state with utf8Pending := [] } }

/-- `terminalize`, the buffers of the channel that is open. -/
def flushChannel (policy : StopPolicy) (committedTokens : Nat) (f : Feeding) :
    Except Exception Feeding :=
  if f.state.inReasoning then do
    let f ← feedChannel policy committedTokens false .reasoning f.state.thinkMarkerPending f
    closeChannel .reasoning { f with state := { f.state with thinkMarkerPending := [] } }
  else closeChannel .content f

/-- `terminalize`. -/
def terminalize (policy : StopPolicy) (committedTokens : Nat) (state : DecoderState)
    (emitted : PublishedOutput) : Except Exception (DecoderState × PublishedOutput) := do
  let f ← flushUtf8 policy committedTokens { state := state, emitted := emitted }
  let f ← flushChannel policy committedTokens f
  .ok ({ f.state with stopPending := fun _ => [], terminal := true }, f.emitted)

/-- `terminal_state`. -/
def terminalState (state : DecoderState) : DecoderState :=
  { state with
    utf8Pending := []
    thinkMarkerPending := []
    stopPending := fun _ => []
    terminal := true }

/-! ## The stop policy of a session -/

/-- The size of the first sequence of a text, or nothing when it is invalid: `utf8proc_iterate`. -/
def utf8procIterate : Bytes → Option Nat
  | [] => none
  | lead :: bytes =>
    let uc := lead.toNat
    if uc < 0x80 then some 1
    else if uc < 0xc2 ∨ 0xf4 < uc then none
    else if uc < 0xe0 then
      match bytes with
      | b :: _ => if isContinuation b then some 2 else none
      | _ => none
    else if uc < 0xf0 then
      match bytes with
      | b :: c :: _ =>
        if isContinuation b = false ∨ isContinuation c = false ∨ (uc = 0xed ∧ 0x9f < b.toNat) ∨
            ((uc &&& 0xf) <<< 12 ||| (b.toNat &&& 0x3f) <<< 6 ||| (c.toNat &&& 0x3f)) < 0x800 then
          none
        else some 3
      | _ => none
    else
      match bytes with
      | b :: c :: d :: _ =>
        if isContinuation b = false ∨ isContinuation c = false ∨ isContinuation d = false ∨
            (uc = 0xf0 ∧ b.toNat < 0x90) ∨ (uc = 0xf4 ∧ 0x8f < b.toNat) then none
        else some 4
      | _ => none

/-- The loop of `utf8_codepoints`, with a bound on its turns. -/
def checkUtf8 (context : String) : Nat → Bytes → Except Exception Unit
  | _, [] => .ok ()
  | 0, _ => .ok ()
  | turns + 1, bytes =>
    match utf8procIterate bytes with
    | none => .error (.invalidArgument ("invalid UTF-8 in " ++ context ++ ": Invalid UTF-8 string"))
    | some length => checkUtf8 context turns (bytes.drop length)

/-- `utf8_codepoints`, as a check. -/
def utf8Codepoints (text : Bytes) (context : String) : Except Exception Unit :=
  checkUtf8 context text.length text

/-- `append_token` of `merge_stop_policy`. -/
def appendStopToken (tokenizer : Tokenizer) (tokens : List TokenId) (token : TokenId) :
    Except Exception (List TokenId) :=
  if tokenizer.isValidToken token = false then
    .error (.invalidArgument
      ("stop token id is outside the checkpoint vocabulary: " ++ toString token))
  else .ok (if token ∈ tokens then tokens else tokens ++ [token])

/-- The string loop of `merge_stop_policy`. -/
def appendStopString (strings : List StopString) (stop : StopString) :
    Except Exception (List StopString) :=
  if stop.text = [] then .error (.invalidArgument "stop string must not be empty")
  else
    match utf8Codepoints stop.text "stop string" with
    | .error e => .error e
    | .ok () => .ok (if stop ∈ strings then strings else strings ++ [stop])

/-- `merge_stop_policy`. -/
def mergeStopPolicy (tokenizer : Tokenizer) (caller : StopPolicy) : Except Exception StopPolicy := do
  let defaults := if caller.includeModelDefaults then tokenizer.defaultStopTokenIds else []
  let tokens ← (defaults ++ caller.tokenIds).foldlM (appendStopToken tokenizer) []
  let strings ← caller.strings.foldlM appendStopString []
  .ok
    { tokenIds := tokens
      strings := strings
      publishStopToken := caller.publishStopToken }

end Ninfer.Output
