import Ninfer.Chat.Template

/-!
# Tool calls in generated text

`serve/tool_call_parser.cpp`: a generated text that ends in tool calls is split into its content and
the calls, and `ToolCallStreamFilter` publishes the content while the text is generated. A text
whose calls are malformed is content as a whole.

A position in a text is modelled by the rest of the text from there on. The JSON parser is a
parameter, and so are the identifiers of the calls, which the program draws at random.

## Main definitions

* `parseParameter`, `parseOneToolCall`: the grammar of a call
* `parseQwenToolCallOutput`: the content and the calls of a whole text
* `ToolCallStreamFilter.feed`, `ToolCallStreamFilter.finish`: the content, while the text arrives
* `ServiceOutputSink`: what a client is sent
-/

namespace Ninfer.Serve

open Output (Bytes OutputChannel OutputDelta isSpace)
open Chat (ToolCall lit trimAsciiWhitespace)

/-! ## Texts -/

/-- `rtrim_ascii`. -/
def rtrimAscii (text : Bytes) : Bytes := text.rdropWhile isSpace

/-- `skip_ws`. -/
def skipWs (text : Bytes) : Bytes := text.dropWhile isSpace

/-- `longest_suffix_prefix`. -/
def longestSuffixPrefix (text marker : Bytes) : Nat :=
  Output.suffixPrefixFrom text marker true (min text.length (marker.length - 1))

/-- `std::isalnum` in the "C" locale. -/
def isAlnum (byte : UInt8) : Bool :=
  (0x30 ≤ byte.toNat && byte.toNat ≤ 0x39) || (0x41 ≤ byte.toNat && byte.toNat ≤ 0x5a) ||
    (0x61 ≤ byte.toNat && byte.toNat ≤ 0x7a)

/-- `valid_function_name`. -/
def validFunctionName (name : Bytes) (maxNameLength : Nat) : Bool :=
  name ≠ [] && name.length ≤ maxNameLength &&
    name.all fun c => isAlnum c || c == 0x5f || c == 0x2d

/-- The text of a UTF-8 byte string. -/
def decodeUtf8 (bytes : Bytes) : Option String := String.fromUTF8? bytes.toByteArray

/-! ## Arguments -/

/-- A value of `args`: a parsed document, or the text itself. -/
inductive Argument
  | json (value : Json)
  | text (raw : Bytes)
  deriving Repr

/-- `args`: keys and values, the last value of a key where its first was. -/
abbrev Arguments := List (Bytes × Argument)

/-- `args[key] = value`. -/
def assign (key : Bytes) (value : Argument) : Arguments → Arguments
  | [] => [(key, value)]
  | member :: args =>
    if member.1 = key then (key, value) :: args else member :: assign key value args

/-- A value of `args` as a document; a text that is not UTF-8 is none. -/
def Argument.document : Argument → Option Json
  | .json value => some value
  | .text raw => (decodeUtf8 raw).map .str

/-- One member of `args` as a member of a document. -/
def memberDocument (member : Bytes × Argument) : Option (String × Json) := do
  let key ← decodeUtf8 member.1
  let value ← member.2.document
  return (key, value)

/-- `args.dump()`, which refuses strings that are not UTF-8. The members of `args` are written in
the order of their keys. -/
def dumpArguments (args : Arguments) : Except Exception Bytes :=
  match args.mapM memberDocument with
  | some members => .ok (utf8 ((Json.obj members).sorted.dumps [','] [':']))
  | none => .error (.runtimeError "invalid UTF-8 byte")

/-! ## The grammar -/

def kToolOpen : Bytes := lit "<tool_call>"
def kToolClose : Bytes := lit "</tool_call>"
def kFunctionOpen : Bytes := lit "<function="
def kFunctionClose : Bytes := lit "</function>"
def kParamOpen : Bytes := lit "<parameter="
def kParamClose : Bytes := lit "</parameter>"

/-- What stands between an opening tag at the start of a text and the next `>`, and the rest behind
it; nothing when the text does not start so, or when there is nothing between them. -/
def tagName (opening text : Bytes) : Option (Bytes × Bytes) :=
  if opening.isPrefixOf text = false then none
  else
    let named := text.drop opening.length
    match find [0x3e] named with
    | none => none
    | some nameEnd =>
      if nameEnd = 0 then none else some (named.take nameEnd, named.drop (nameEnd + 1))

/-- A text up to the first closing tag, and the rest behind it. -/
def cutAt (closing text : Bytes) : Option (Bytes × Bytes) :=
  (find closing text).map fun i => (text.take i, text.drop (i + closing.length))

section Parsing

variable (parse : Bytes → Except Exception Json)

/-- The value of a parameter: what the text parses to, or else the text. -/
def argumentOf (rawValue : Bytes) : Argument :=
  match parse rawValue with
  | .ok value => .json value
  | .error _ => .text rawValue

/-- `parse_parameter`: the arguments with the parameter at the start of a text, and the rest of the
text. -/
def parseParameter (inner : Bytes) (args : Arguments) : Option (Arguments × Bytes) := do
  let (key, inner) ← tagName kParamOpen inner
  let (value, inner) ← cutAt kParamClose inner
  return (assign key (argumentOf parse (trimAsciiWhitespace value)) args, inner)

/-- The loop of `parse_one_tool_call`, with a bound on its turns. -/
def parseParameters : Nat → Bytes → Arguments → Option Arguments
  | 0, _, _ => none
  | turns + 1, params, args =>
    let params := skipWs params
    if params = [] then some args
    else
      match parseParameter parse params args with
      | none => none
      | some (args, params) => parseParameters turns params args

/-- `parse_one_tool_call`: the name and the arguments of a call. -/
def parseOneToolCall (block : Bytes) (maxNameLength : Nat) : Option (Bytes × Arguments) := do
  let (name, block) ← tagName kFunctionOpen (skipWs block)
  guard (validFunctionName name maxNameLength)
  let (params, block) ← cutAt kFunctionClose block
  let args ← parseParameters parse (params.length + 1) params []
  guard (skipWs block = [])
  return (name, args)

variable (newToolCallId : Nat → Bytes)

/-- The loop of `parse_qwen_tool_call_output`, with a bound on its turns. A malformed text has no
calls. -/
def parseCalls (maxNameLength : Nat) : Nat → Bytes → List ToolCall →
    Except Exception (Option (List ToolCall))
  | 0, _, _ => .ok none
  | turns + 1, text, calls =>
    let text := skipWs text
    if text = [] then .ok (some calls)
    else if kToolOpen.isPrefixOf text = false then .ok none
    else
      match cutAt kToolClose (text.drop kToolOpen.length) with
      | none => .ok none
      | some (block, text) =>
        match parseOneToolCall parse block maxNameLength with
        | none => .ok none
        | some (name, args) => do
          let argumentsJson ← dumpArguments args
          parseCalls maxNameLength turns text
            (calls ++ [⟨newToolCallId calls.length, name, argumentsJson⟩])

/-- `ParsedToolCallOutput`. -/
structure ParsedToolCallOutput where
  isToolCallResponse : Bool := false
  content : Bytes
  toolCalls : List ToolCall := []
  deriving DecidableEq, Repr

/-- `fallback`. -/
def fallback (text : Bytes) : ParsedToolCallOutput := { content := text }

/-- `parse_qwen_tool_call_output`. -/
def parseQwenToolCallOutput (text : Bytes) (maxToolNameLength : Nat) :
    Except Exception ParsedToolCallOutput :=
  match find kToolOpen text with
  | none => .ok (fallback text)
  | some first => do
    let calls ← parseCalls parse newToolCallId maxToolNameLength (text.length + 1)
      (text.drop first) []
    match calls with
    | none | some [] => .ok (fallback text)
    | some toolCalls =>
      .ok {
        isToolCallResponse := true
        content := rtrimAscii (text.take first)
        toolCalls := toolCalls }

end Parsing

/-! ## The filter -/

/-- `ToolCallStreamFilter`. -/
structure ToolCallStreamFilter where
  pending : Bytes := []
  toolRegion : Bytes := []
  emittedBytes : Nat := 0
  sawToolMarker : Bool := false
  finished : Bool := false
  deriving DecidableEq, Repr

namespace ToolCallStreamFilter

/-- `ToolCallStreamFilter::feed`. -/
def feed (f : ToolCallStreamFilter) (text : Bytes) :
    Except Exception (Bytes × ToolCallStreamFilter) :=
  if f.finished then .error (.logicError "tool-call stream filter is already finished")
  else if text = [] then .ok ([], f)
  else if f.sawToolMarker then .ok ([], { f with toolRegion := f.toolRegion ++ text })
  else
    let pending := f.pending ++ text
    match find kToolOpen pending with
    | some marker =>
      let safeEnd := (rtrimAscii (pending.take marker)).length
      .ok (pending.take safeEnd, { f with
        pending := []
        toolRegion := pending.drop safeEnd
        emittedBytes := f.emittedBytes + (pending.take safeEnd).length
        sawToolMarker := true })
    | none =>
      let held := longestSuffixPrefix pending kToolOpen
      let safeEnd := (rtrimAscii (pending.take (pending.length - held))).length
      .ok (pending.take safeEnd, { f with
        pending := pending.drop safeEnd
        emittedBytes := f.emittedBytes + (pending.take safeEnd).length })

/-- `ToolCallStreamFilter::finish`. -/
def finish (f : ToolCallStreamFilter) (isToolCallResponse : Bool) :
    Except Exception (Bytes × ToolCallStreamFilter) :=
  if f.finished then .error (.logicError "tool-call stream filter is already finished")
  else if isToolCallResponse then
    .ok ([], { f with pending := [], toolRegion := [], finished := true })
  else
    let tail := f.pending ++ f.toolRegion
    .ok (tail, { f with
      pending := []
      toolRegion := []
      emittedBytes := f.emittedBytes + tail.length
      finished := true })

/-- The chunks of a text are fed in order; what each of them emits. -/
def feedAll (f : ToolCallStreamFilter) : List Bytes →
    Except Exception (List Bytes × ToolCallStreamFilter)
  | [] => .ok ([], f)
  | chunk :: chunks => do
    let (visible, f) ← f.feed chunk
    let (rest, f) ← feedAll f chunks
    .ok (visible :: rest, f)

end ToolCallStreamFilter

/-! ## The sink -/

/-- `ServiceOutputSink`, with what its two callbacks have been called with. Both are taken to be
set, as each route of the server that streams sets them: one that is not set would not be called. -/
structure ServiceOutputSink where
  filterToolCalls : Bool
  toolFilter : ToolCallStreamFilter := {}
  contentBytes : Nat := 0
  onReasoning : List Bytes := []
  onContent : List Bytes := []
  deriving DecidableEq, Repr

namespace ServiceOutputSink

/-- `publish_content`. -/
def publishContent (sink : ServiceOutputSink) (text : Bytes) : ServiceOutputSink :=
  if text = [] then sink
  else { sink with
    onContent := sink.onContent ++ [text]
    contentBytes := sink.contentBytes + text.length }

/-- `publish`. -/
def publish (sink : ServiceOutputSink) (delta : OutputDelta) :
    Except Exception ServiceOutputSink :=
  if delta.text = [] then .ok sink
  else
    match delta.channel with
    | .reasoning => .ok { sink with onReasoning := sink.onReasoning ++ [delta.text] }
    | .content =>
      if sink.filterToolCalls then do
        let (visible, toolFilter) ← sink.toolFilter.feed delta.text
        .ok ({ sink with toolFilter := toolFilter }.publishContent visible)
      else .ok (sink.publishContent delta.text)

/-- `finish`: the number of content bytes. -/
def finish (sink : ServiceOutputSink) (isToolCallResponse : Bool) :
    Except Exception (Nat × ServiceOutputSink) :=
  if sink.filterToolCalls then do
    let (tail, toolFilter) ← sink.toolFilter.finish isToolCallResponse
    let sink := { sink with toolFilter := toolFilter }.publishContent tail
    .ok (sink.contentBytes, sink)
  else .ok (sink.contentBytes, sink)

end ServiceOutputSink

end Ninfer.Serve
