import Ninfer.Commons.Json
import Ninfer.Output.Decoder
import Ninfer.Qwen.Prompt

/-!
# The compiled chat template

`targets/qwen3_6/impl/frontend/chat_template.cpp`: how messages become the text of a prompt, and
where in that text a later turn may continue.

The JSON library is a parameter, which parses documents. The counters of images and videos are
natural numbers.

## Main definitions

* `ChatMessage`, `ChatRenderOptions`: what is rendered
* `deriveThinkParts`, `assistantParts`: the reasoning and the body of an assistant turn
* `renderTurn`, `renderTurns`: one turn, and the loop over turns
* `render`: the text of a prompt, and its rewrite checkpoint
-/

namespace Ninfer.Chat

open Output (Bytes isSpace kThinkClose)
open Qwen (RewriteCheckpointKind)

/-- The bytes of a literal. -/
def lit (text : String) : Bytes := utf8 text.toList

/-! ## Messages -/

/-- `ChatRole`. -/
inductive ChatRole
  | system
  | developer
  | user
  | assistant
  | tool
  deriving DecidableEq, Repr

/-- `ChatPartKind`. -/
inductive ChatPartKind
  | text
  | image
  | video
  deriving DecidableEq, Repr

/-- `ChatPart`, without the data of its media. -/
structure ChatPart where
  kind : ChatPartKind := .text
  text : Bytes := []
  deriving DecidableEq, Repr

/-- `ToolCall`. -/
structure ToolCall where
  id : Bytes
  name : Bytes
  argumentsJson : Bytes
  deriving DecidableEq, Repr

/-- `ChatMessage`. -/
structure ChatMessage where
  role : ChatRole := .user
  parts : List ChatPart := []
  reasoningContent : Bytes := []
  toolCalls : List ToolCall := []
  toolCallId : Bytes := []
  deriving DecidableEq, Repr

/-- `ReasoningEffort`. -/
inductive ReasoningEffort
  | low
  | medium
  | xhigh
  deriving DecidableEq, Repr

/-- `ChatRenderOptions`. -/
structure ChatRenderOptions where
  addGenerationPrompt : Bool := true
  enableThinking : Bool := true
  reasoningEffort : Option ReasoningEffort := none
  preserveThinking : Option Bool := none
  addVisionId : Bool := false
  toolJsons : List Bytes := []
  deriving DecidableEq, Repr

/-- `RewriteCheckpointByteSpec`. -/
structure RewriteCheckpointByteSpec where
  kind : RewriteCheckpointKind
  offset : Nat
  deriving DecidableEq, Repr

/-- `RenderedChat`. -/
structure RenderedChat where
  text : Bytes
  rewriteCheckpoint : Option RewriteCheckpointByteSpec := none
  deriving DecidableEq, Repr

/-- `ChatTemplateSemantics`. -/
inductive ChatTemplateSemantics
  | thinkingToggle
  | reasoningEffort
  deriving DecidableEq, Repr

/-- `has_media`. -/
def ChatMessage.hasMedia (message : ChatMessage) : Bool :=
  message.parts.any fun part => part.kind != .text

/-- The counters of `rendered_content`. -/
structure MediaCounts where
  images : Nat := 0
  videos : Nat := 0
  deriving DecidableEq, Repr

/-- One part of `rendered_content`. -/
def ChatPart.rendered (addVisionId : Bool) (out : Bytes × MediaCounts) (part : ChatPart) :
    Bytes × MediaCounts :=
  match part.kind with
  | .text => (out.1 ++ part.text, out.2)
  | .image =>
    let images := out.2.images + 1
    (out.1 ++ (if addVisionId then lit "Picture " ++ utf8 (Json.decimal images) ++ lit ": " else [])
      ++ lit "<|vision_start|><|image_pad|><|vision_end|>", { out.2 with images := images })
  | .video =>
    let videos := out.2.videos + 1
    (out.1 ++ (if addVisionId then lit "Video " ++ utf8 (Json.decimal videos) ++ lit ": " else [])
      ++ lit "<|vision_start|><|video_pad|><|vision_end|>", { out.2 with videos := videos })

/-- `rendered_content`. -/
def ChatMessage.renderedContent (message : ChatMessage) (addVisionId : Bool)
    (counts : MediaCounts) : Bytes × MediaCounts :=
  message.parts.foldl (ChatPart.rendered addVisionId) ([], counts)

/-! ## Texts -/

/-- `trim_ascii_whitespace`. -/
def trimAsciiWhitespace (text : Bytes) : Bytes := (text.dropWhile isSpace).rdropWhile isSpace

/-- `lstrip_newlines`. -/
def lstripNewlines (text : Bytes) : Bytes := text.dropWhile (· == 0x0a)

/-- `rstrip_newlines`. -/
def rstripNewlines (text : Bytes) : Bytes := text.rdropWhile (· == 0x0a)

/-- `std::string::rfind`: the index of the last occurrence of a pattern. -/
def rfind (pat : Bytes) : Bytes → Option Nat
  | [] => if pat.isPrefixOf [] then some 0 else none
  | byte :: text =>
    match rfind pat text with
    | some i => some (i + 1)
    | none => if pat.isPrefixOf (byte :: text) then some 0 else none

/-- `ThinkParts`. -/
structure ThinkParts where
  reasoning : Bytes := []
  content : Bytes := []
  deriving DecidableEq, Repr

/-- `derive_think_parts`. -/
def deriveThinkParts (content : Bytes) : ThinkParts :=
  match find kThinkClose content with
  | none => { content := content }
  | some firstClose =>
    let before := rstripNewlines (content.take firstClose)
    let reasoning :=
      match rfind (lit "<think>") before with
      | none => before
      | some lastOpen => before.drop (lastOpen + 7)
    let lastClose := (rfind kThinkClose content).getD 0
    { reasoning := lstripNewlines reasoning
      content := lstripNewlines (content.drop (lastClose + 8)) }

/-! ## Instructions -/

/-- `is_instruction_role`. -/
def ChatRole.isInstruction (role : ChatRole) : Bool := role == .system || role == .developer

/-- `validate_instruction_message`. -/
def validateInstructionMessage (message : ChatMessage) : Except Exception Unit := do
  check (message.hasMedia = false)
    (.invalidArgument "system and developer messages cannot contain images or videos")
  check (message.reasoningContent = [] ∧ message.toolCalls = [] ∧ message.toolCallId = [])
    (.invalidArgument "system and developer messages may contain only text content")

/-- `kLowReasoningInstructions`. -/
def kLowReasoningInstructions : Bytes := lit <|
  "Reasoning effort is set to low. Keep your thinking brief and focused, moving directly to " ++
  "the conclusion without unnecessary elaboration."

/-- `kXHighReasoningInstructions`. -/
def kXHighReasoningInstructions : Bytes := lit <|
  "Reasoning effort is set to xhigh. Please think carefully through the task, validate key " ++
  "assumptions, consider plausible alternatives, and prioritize correctness, consistency, and " ++
  "clarity in the final answer."

/-- `resolve_reasoning_instructions`. -/
def resolveReasoningInstructions (semantics : ChatTemplateSemantics) (options : ChatRenderOptions) :
    Except Exception Bytes :=
  match semantics with
  | .thinkingToggle =>
    if options.reasoningEffort.isSome then
      .error (.invalidArgument "loaded chat template does not support reasoning effort")
    else .ok []
  | .reasoningEffort =>
    if options.enableThinking = false then
      if options.reasoningEffort.isSome then
        .error (.invalidArgument "reasoning effort cannot be combined with disabled thinking")
      else .ok []
    else
      match options.reasoningEffort.getD .xhigh with
      | .low => .ok kLowReasoningInstructions
      | .medium => .ok []
      | .xhigh => .ok kXHighReasoningInstructions

/-- `messages[0]` is rendered with the system block. -/
def messageBegin (messages : List ChatMessage) : Nat :=
  if messages.head?.any (·.role.isInstruction) then 1 else 0

/-- `leading_instruction`. -/
def leadingInstruction (messages : List ChatMessage) : Except Exception Bytes :=
  match messages.head? with
  | some message =>
    if message.role.isInstruction then do
      validateInstructionMessage message
      .ok (trimAsciiWhitespace (message.renderedContent false {}).1)
    else .ok []
  | none => .ok []

/-! ## Tools -/

/-- `kToolInstructions`. -/
def kToolInstructions : Bytes := lit <|
  "\n\nIf you choose to call a function ONLY reply in the following format with NO suffix:\n\n" ++
  "<tool_call>\n" ++
  "<function=example_function_name>\n" ++
  "<parameter=example_parameter_1>\n" ++
  "value_1\n" ++
  "</parameter>\n" ++
  "<parameter=example_parameter_2>\n" ++
  "This is the value for the second parameter\n" ++
  "that can span\n" ++
  "multiple lines\n" ++
  "</parameter>\n" ++
  "</function>\n" ++
  "</tool_call>\n\n" ++
  "<IMPORTANT>\n" ++
  "Reminder:\n" ++
  "- Function calls MUST follow the specified format: an inner <function=...></function> block " ++
  "must be nested within <tool_call></tool_call> XML tags\n" ++
  "- Required parameters MUST be specified\n" ++
  "- You may provide optional reasoning for your function call in natural language BEFORE the " ++
  "function call, but NOT after\n" ++
  "- If there is no function call available, answer the question like normal with your current " ++
  "knowledge and do not tell the user about function calls\n" ++
  "</IMPORTANT>"

/-- `tojson_text`. -/
def tojsonText (value : Json) : Bytes := utf8 (value.dumps [',', ' '] [':', ' '])

/-- `parameter_text`. -/
def parameterText : Json → Bytes
  | .str value => utf8 value.toList
  | value => tojsonText value

/-- One parameter of a call. -/
def renderParameter (member : String × Json) : Bytes :=
  lit "<parameter=" ++ utf8 member.1.toList ++ lit ">\n" ++ parameterText member.2 ++
    lit "\n</parameter>\n"

/-- The role of the last message that a user asks something with: what only wraps tool responses is
not a query. -/
def ChatMessage.isUserQuery (message : ChatMessage) : Bool :=
  message.role == .user &&
    let content := trimAsciiWhitespace (message.renderedContent false {}).1
    !((lit "<tool_response>").isPrefixOf content && (lit "</tool_response>").isSuffixOf content)

/-- `last_real_user_query`. -/
def lastRealUserQuery (messages : List ChatMessage) : Except Exception Nat :=
  match messages.zipIdx.reverse.find? (·.1.isUserQuery) with
  | some (_, i) => .ok i
  | none => .error (.invalidArgument "no user query found in chat messages")

section Render

variable (parse : Bytes → Except Exception Json) (semantics : ChatTemplateSemantics)
  (options : ChatRenderOptions)

/-- `effort_template`. -/
def ChatTemplateSemantics.effort : Bool := semantics == .reasoningEffort

/-- `preserve_thinking`. -/
def preserveThinking : Bool := options.preserveThinking.getD semantics.effort

/-- `render_tool_call`. -/
def renderToolCall (allowEmptyArguments : Bool) (call : ToolCall) : Except Exception Bytes :=
  if allowEmptyArguments ∧ call.argumentsJson = [] then
    .ok (lit "<tool_call>\n<function=" ++ call.name ++ lit ">\n</function>\n</tool_call>")
  else do
    match ← parse call.argumentsJson with
    | .obj members =>
      .ok (lit "<tool_call>\n<function=" ++ call.name ++ lit ">\n" ++
        members.flatMap renderParameter ++ lit "</function>\n</tool_call>")
    | _ => .error (.invalidArgument "tool call arguments must be a JSON object")

/-- The calls of a turn, the first one after `separator`. -/
def renderToolCalls (allowEmptyArguments : Bool) : Bytes → List ToolCall → Except Exception Bytes
  | _, [] => .ok []
  | separator, call :: calls => do
    let text ← renderToolCall parse allowEmptyArguments call
    let rest ← renderToolCalls allowEmptyArguments (lit "\n") calls
    .ok (separator ++ text ++ rest)

/-- The tools of the system block. -/
def renderTools : List Bytes → Except Exception Bytes
  | [] => .ok []
  | tool :: tools => do
    let value ← parse tool
    let rest ← renderTools tools
    .ok (lit "\n" ++ tojsonText value ++ rest)

/-- `render_tools_system_block`. -/
def renderToolsSystemBlock (leading reasoningInstructions : Bytes) : Except Exception Bytes := do
  let tools ← renderTools parse options.toolJsons
  .ok (lit "<|im_start|>system\n" ++
    (if reasoningInstructions ≠ [] then reasoningInstructions ++ lit "\n\n" else []) ++
    lit "# Tools\n\nYou have access to the following functions:\n\n<tools>" ++ tools ++
    lit "\n</tools>" ++ kToolInstructions ++
    (if leading ≠ [] then lit "\n\n" ++ leading else []) ++ lit "<|im_end|>\n")

/-- The block of `render` before the turns. -/
def renderSystem (begins : Nat) (leading reasoningInstructions : Bytes) :
    Except Exception Bytes :=
  if options.toolJsons ≠ [] then
    renderToolsSystemBlock parse options leading reasoningInstructions
  else if begins = 1 then
    if semantics.effort = false ∨ leading ≠ [] ∨ reasoningInstructions ≠ [] then
      .ok (lit "<|im_start|>system\n" ++
        (if reasoningInstructions ≠ [] then
          reasoningInstructions ++ (if leading ≠ [] then lit "\n\n" else [])
        else []) ++ leading ++ lit "<|im_end|>\n")
    else .ok []
  else if reasoningInstructions ≠ [] then
    .ok (lit "<|im_start|>system\n" ++ reasoningInstructions ++ lit "<|im_end|>\n")
  else .ok []

/-! ## Turns -/

/-- What `render` accumulates. -/
structure Rendering where
  rendered : Bytes
  counts : MediaCounts := {}
  rewriteCheckpoint : Option RewriteCheckpointByteSpec := none
  deriving DecidableEq, Repr

/-- `rendered += text`. -/
def Rendering.append (st : Rendering) (text : Bytes) : Rendering :=
  { st with rendered := st.rendered ++ text }

/-- A rewrite checkpoint at the end of the text. -/
def Rendering.mark (st : Rendering) (kind : RewriteCheckpointKind) : Rendering :=
  { st with rewriteCheckpoint := some ⟨kind, st.rendered.length⟩ }

/-- `reasoning` and `body` of an assistant turn. -/
def assistantParts (message : ChatMessage) (content : Bytes) : ThinkParts :=
  let parts : ThinkParts :=
    if message.reasoningContent ≠ [] then ⟨message.reasoningContent, content⟩
    else if semantics.effort = false then deriveThinkParts content
    else { content := content }
  { parts with reasoning := trimAsciiWhitespace parts.reasoning }

/-- An assistant turn, with its content. -/
def renderAssistant (lastQuery : Nat) (message : ChatMessage) (i : Nat) (content : Bytes)
    (st : Rendering) : Except Exception Rendering := do
  let preserve := preserveThinking semantics options
  let parts := assistantParts semantics message content
  let st := st.append (lit "<|im_start|>assistant\n")
  let st :=
    if preserve = false ∧ st.rewriteCheckpoint = none ∧ lastQuery < i then st.mark .turnClosure
    else st
  let st :=
    if preserve ∨ lastQuery < i then
      st.append (lit "<think>\n" ++ parts.reasoning ++ lit "\n</think>\n\n")
    else st
  let st := st.append parts.content
  let separator := if trimAsciiWhitespace parts.content ≠ [] then lit "\n\n" else []
  let calls ← renderToolCalls parse semantics.effort separator message.toolCalls
  .ok ((st.append calls).append (lit "<|im_end|>\n"))

/-- A tool turn opens a group after another turn, and closes it before one. -/
def renderTool (messages : List ChatMessage) (i : Nat) (content : Bytes) : Bytes :=
  let opensGroup := i > 0 ∧ (messages[i - 1]?).any (·.role != .tool)
  let closesGroup := i + 1 = messages.length ∨ (messages[i + 1]?).any (·.role != .tool)
  (if opensGroup then lit "<|im_start|>user" else []) ++ lit "\n<tool_response>\n" ++ content ++
    lit "\n</tool_response>" ++ (if closesGroup then lit "<|im_end|>\n" else [])

/-- One turn of the loop of `render`. -/
def renderTurn (messages : List ChatMessage) (lastQuery : Nat) (st : Rendering)
    (turn : ChatMessage × Nat) : Except Exception Rendering :=
  let message := turn.1
  let i := turn.2
  if i < messageBegin messages then .ok st
  else
    let out := message.renderedContent options.addVisionId st.counts
    let content := trimAsciiWhitespace out.1
    let st := { st with counts := out.2 }
    match message.role with
    | .system | .developer => do
      validateInstructionMessage message
      .ok (st.append (lit "<|im_start|>system\n" ++ content ++ lit "<|im_end|>\n"))
    | .user => .ok (st.append (lit "<|im_start|>user\n" ++ content ++ lit "<|im_end|>\n"))
    | .tool => .ok (st.append (renderTool messages i content))
    | .assistant => renderAssistant parse semantics options lastQuery message i content st

/-- The loop of `render` over some of its turns. -/
def renderTurns (messages : List ChatMessage) (lastQuery : Nat) (st : Rendering)
    (turns : List (ChatMessage × Nat)) : Except Exception Rendering :=
  turns.foldlM (renderTurn parse semantics options messages lastQuery) st

/-- The generation prompt. -/
def renderGeneration (st : Rendering) : Rendering :=
  if options.addGenerationPrompt = false then st
  else
    let preserve := preserveThinking semantics options
    let st := st.append (lit "<|im_start|>assistant\n")
    let st :=
      if preserve = false ∧ st.rewriteCheckpoint = none then st.mark .turnClosure else st
    let st :=
      if options.enableThinking then st.append (lit "<think>\n")
      else st.append (lit "<think>\n\n</think>\n\n")
    if preserve then st.mark .responseReplay else st

/-- `render` before its turns: the last query, and the system block. -/
def renderStart (messages : List ChatMessage) : Except Exception (Nat × Rendering) := do
  check (messages ≠ []) (.invalidArgument "chat messages must not be empty")
  let reasoningInstructions ← resolveReasoningInstructions semantics options
  let leading ← leadingInstruction messages
  let system ← renderSystem parse semantics options (messageBegin messages) leading
    reasoningInstructions
  let lastQuery ← lastRealUserQuery messages
  .ok (lastQuery, { rendered := system })

/-- `CompiledChatTemplate::render`. -/
def render (messages : List ChatMessage) : Except Exception RenderedChat := do
  let start ← renderStart parse semantics options messages
  let st ← renderTurns parse semantics options messages start.1 start.2 messages.zipIdx
  let st := renderGeneration semantics options st
  .ok { text := st.rendered, rewriteCheckpoint := st.rewriteCheckpoint }

end Render

end Ninfer.Chat
