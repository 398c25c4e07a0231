import Ninfer.Chat.Template

/-!
# The response store

`serve/response_store.cpp`: responses are kept under their identifiers, within a number of records
and a number of bytes. The turns that led to a response are a chain of context nodes, which several
responses may share. What was put or got least recently is evicted first.

Shared nodes are told apart by their addresses, and the elements of the LRU list by identities that
iterators name. Sizes are natural numbers; the sizes of the C++ types and `dump` of the JSON library
are parameters. Calls are atomic, as the mutex makes them.

## Main definitions

* `ResponseContext`, `appendResponseContext`: chains of context nodes
* `ResponseStore`, `ResponseStore.get`, `ResponseStore.put`, `ResponseStore.erase`
* `ResponseStore.recomputeBytesLocked`: the bytes of all records
-/

namespace Ninfer.Serve

open Output (Bytes)
open Chat (ChatRole ToolCall)

/-! ## Errors -/

/-- `ApiError`. -/
structure ApiError where
  status : Nat := 400
  type : String := "invalid_request_error"
  message : String := ""
  param : String := ""
  code : String := ""
  deriving DecidableEq, Repr

/-- What is thrown: a standard exception, or an `ApiException`. -/
inductive Thrown
  | exception (e : Exception)
  | api (error : ApiError)
  deriving DecidableEq, Repr

/-- `throw_store_capacity`. -/
def storeCapacity : Thrown := .api {
  status := 500
  type := "server_error"
  code := "response_store_capacity_exceeded"
  message := "response exceeds the configured local response store capacity" }

/-! ## Turns -/

/-- `ContentKind`. -/
inductive ContentKind
  | text
  | image
  | video
  | inputAudio
  | unsupported
  deriving DecidableEq, Repr

/-- `media_acquire::SourceKind`. -/
inductive SourceKind
  | path
  | url
  | data
  | bytes
  deriving DecidableEq, Repr

/-- `media_acquire::Source`. -/
structure Source where
  kind : SourceKind := .path
  value : Bytes := []
  mediaType : Bytes := []
  bytes : Bytes := []
  deriving DecidableEq, Repr

/-- `ContentPart`. -/
structure ContentPart where
  kind : ContentKind := .text
  text : Bytes := []
  typeRaw : Bytes := []
  source : Source := {}
  deriving DecidableEq, Repr

/-- `ChatTurn`. -/
structure ChatTurn where
  role : ChatRole := .user
  content : List ContentPart := []
  toolCalls : List ToolCall := []
  toolCallId : Bytes := []
  reasoningContent : Bytes := []
  deriving DecidableEq, Repr

/-- The sizes of the types whose values are counted. -/
structure Sizes where
  chatTurn : Nat
  contentPart : Nat
  toolCall : Nat
  contextNode : Nat
  storedResponse : Nat
  json : Nat

/-- `estimate_turn_bytes`. -/
def estimateTurnBytes (sizes : Sizes) (turn : ChatTurn) : Nat :=
  sizes.chatTurn + turn.toolCallId.length + turn.reasoningContent.length +
    (turn.content.map fun part =>
      sizes.contentPart + part.text.length + part.typeRaw.length + part.source.value.length +
        part.source.mediaType.length + part.source.bytes.length).sum +
    (turn.toolCalls.map fun call =>
      sizes.toolCall + call.id.length + call.name.length + call.argumentsJson.length).sum

/-! ## Contexts -/

/-- `ResponseContext`: a shared pointer to a `ResponseContextNode`, or none. -/
inductive ResponseContext
  | null
  | node (address : Nat) (parent : ResponseContext) (turns : List ChatTurn) (ownedBytes : Nat)
  deriving DecidableEq, Repr

namespace ResponseContext

/-- The size of the node itself. -/
def ownedBytes : ResponseContext → Nat
  | null => 0
  | node _ _ _ bytes => bytes

/-- Where the node is. -/
def address : ResponseContext → Nat
  | null => 0
  | node address _ _ _ => address

/-- The nodes of a context, from the newest on. -/
def nodes : ResponseContext → List ResponseContext
  | null => []
  | node address parent turns bytes => node address parent turns bytes :: parent.nodes

end ResponseContext

/-- `append_response_context`, at an address. -/
def appendResponseContext (sizes : Sizes) (address : Nat) (parent : ResponseContext)
    (turns : List ChatTurn) : ResponseContext :=
  .node address parent turns (sizes.contextNode + (turns.map (estimateTurnBytes sizes)).sum)

/-! ## The store -/

/-- `StoredResponse`. -/
structure StoredResponse where
  id : Bytes
  response : Json
  inputItems : List Json := []
  context : ResponseContext := .null
  preserveThinking : Bool := false

/-- An element of `lru_`. -/
structure LruElement where
  iterator : Nat
  id : Bytes
  deriving DecidableEq, Repr

/-- `Entry`. -/
structure Entry where
  response : StoredResponse
  lru : Nat

/-- `ResponseStore`; `nextElement` is the identity of the next element of the list. -/
structure ResponseStore where
  maxRecords : Nat
  maxBytes : Nat
  records : List (Bytes × Entry) := []
  lru : List LruElement := []
  currentBytes : Nat := 0
  nextElement : Nat := 0

/-- The constructor. -/
def ResponseStore.make (maxRecords maxBytes : Nat) : Except Exception ResponseStore :=
  if maxRecords = 0 ∨ maxBytes = 0 then
    .error (.invalidArgument "response store limits must be positive")
  else .ok { maxRecords := maxRecords, maxBytes := maxBytes }

namespace ResponseStore

/-- `get`. -/
def get (s : ResponseStore) (id : Bytes) : Option StoredResponse × ResponseStore :=
  match s.records.lookup id with
  | none => (none, s)
  | some entry =>
    (some entry.response, { s with
      lru := s.lru.filter (·.iterator = entry.lru) ++ s.lru.filter (·.iterator ≠ entry.lru) })

/-- `erase_locked`. -/
def eraseLocked (s : ResponseStore) (id : Bytes) : ResponseStore :=
  match s.records.lookup id with
  | none => s
  | some entry =>
    { s with
      lru := s.lru.filter (·.iterator ≠ entry.lru)
      records := s.records.filter (·.1 ≠ id) }

section Bytes

variable (sizes : Sizes) (dump : Json → Except Exception Bytes)

/-- `record_envelope_bytes`. -/
def recordEnvelopeBytes (record : StoredResponse) : Except Exception Nat := do
  let text ← dump record.response
  let items ← record.inputItems.mapM dump
  .ok (sizes.storedResponse + record.id.length + text.length +
    (items.map fun item => sizes.json + item.length).sum)

/-- `standalone_bytes`. -/
def standaloneBytes (record : StoredResponse) : Except Exception Nat := do
  let bytes ← recordEnvelopeBytes sizes dump record
  .ok (bytes + (record.context.nodes.map ResponseContext.ownedBytes).sum)

/-- The nodes of a context are counted as far as they have not been seen. -/
def countNodes (bytes : Nat) (seen : List Nat) : ResponseContext → Nat × List Nat
  | .null => (bytes, seen)
  | .node address parent _ ownedBytes =>
    if address ∈ seen then countNodes bytes seen parent
    else countNodes (bytes + ownedBytes) (address :: seen) parent

/-- The loop of `recompute_bytes_locked`. -/
def recomputeFrom (bytes : Nat) (seen : List Nat) : List (Bytes × Entry) → Except Exception Nat
  | [] => .ok bytes
  | record :: records => do
    let envelope ← recordEnvelopeBytes sizes dump record.2.response
    let counted := countNodes (bytes + envelope) seen record.2.response.context
    recomputeFrom counted.1 counted.2 records

/-- `recompute_bytes_locked`. -/
def recomputeBytesLocked (s : ResponseStore) : Except Exception Nat :=
  recomputeFrom sizes dump 0 [] s.records

/-- `current_bytes_ = recompute_bytes_locked()`. -/
def recompute (s : ResponseStore) : EStateM.Result Thrown ResponseStore Unit :=
  match s.recomputeBytesLocked sizes dump with
  | .error e => .error (.exception e) s
  | .ok bytes => .ok () { s with currentBytes := bytes }

/-- The loop of `put`, with a bound on its turns. -/
def evict (id : Bytes) : Nat → ResponseStore → EStateM.Result Thrown ResponseStore Unit
  | 0, s => .ok () s
  | turns + 1, s =>
    if ¬(s.records.length > s.maxRecords ∨ s.currentBytes > s.maxBytes) then .ok () s
    else
      let victim : Except Thrown Bytes :=
        match s.lru.getLast? with
        | none => .error (.exception (.logicError "response store LRU is empty"))
        | some last =>
          if last.id ≠ id then .ok last.id
          else
            match s.lru.dropLast.getLast? with
            | none => .error storeCapacity
            | some before => .ok before.id
      match victim with
      | .error e => .error e s
      | .ok victim =>
        match (s.eraseLocked victim).recompute sizes dump with
        | .error e s => .error e s
        | .ok () s => evict id turns s

/-- `put`. -/
def put (s : ResponseStore) (record : StoredResponse) :
    EStateM.Result Thrown ResponseStore Unit :=
  if record.id = [] ∨ record.response.isObj = false then
    .error (.exception (.invalidArgument "stored response must have an id and object body")) s
  else
    match standaloneBytes sizes dump record with
    | .error e => .error (.exception e) s
    | .ok bytes =>
      if bytes > s.maxBytes then .error storeCapacity s
      else if (s.records.lookup record.id).isSome then
        .error (.exception (.logicError "duplicate response id in response store")) s
      else
        let s := { s with
          lru := ⟨s.nextElement, record.id⟩ :: s.lru
          records := (record.id, ⟨record, s.nextElement⟩) :: s.records
          nextElement := s.nextElement + 1 }
        match s.recompute sizes dump with
        | .error e s => .error e s
        | .ok () s => evict sizes dump record.id s.records.length s

/-- `erase`. -/
def erase (s : ResponseStore) (id : Bytes) : EStateM.Result Thrown ResponseStore Bool :=
  if (s.records.lookup id).isNone then .ok false s
  else
    match (s.eraseLocked id).recompute sizes dump with
    | .error e s => .error e s
    | .ok () s => .ok true s

end Bytes

end ResponseStore

end Ninfer.Serve
