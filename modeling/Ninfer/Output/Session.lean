import Ninfer.Output.Decoder

/-!
# Output sessions

`OutputSession` of `frontend.cpp`. The session of a request decodes each round of generated tokens
into a preview, which says how many of the tokens are accepted and whether the output is finished,
and publishes the text when the caller commits the preview.

A session that was moved from has no decoder and is left out. What `preview_state` and
`preview_output` hold while no preview is ready is never read, so they are one optional field.

## Main definitions

* `OutputSession.preview`, `previewTerminal`, `commitPreview`, `reasoningTokens`
* `makeOutputSession`: the session of a request
* `OutputSession.Reached`: the sessions of a history of previews and commits, with what they published
* `OutputSession.run`: the rounds of a request, with the budget that is left for each
-/

namespace Ninfer.Output

open Executor (FinishReason OutputDecision)

/-- `OutputOptions`. -/
structure OutputOptions where
  raw : Bool := false
  preserveSpecialTokens : Bool := false

/-- `OutputSession::Impl`. -/
structure OutputSession where
  tokenizer : Tokenizer
  policy : StopPolicy
  preserveSpecial : Bool
  state : DecoderState
  previewed : Option (DecoderState × PublishedOutput) := none

/-- `make_output_session`. -/
def makeOutputSession (tokenizer : Tokenizer) (callerStop : StopPolicy) (output : OutputOptions)
    (startsInReasoning : Bool) : Except Exception OutputSession := do
  let policy ← mergeStopPolicy tokenizer callerStop
  .ok
    { tokenizer := tokenizer
      policy := { policy with publishStopToken := output.raw || policy.publishStopToken }
      preserveSpecial := output.raw || output.preserveSpecialTokens
      state := { inReasoning := startsInReasoning && !output.raw } }

namespace OutputSession

/-- The state in which the bytes of a token are fed: the token counts as reasoning when it starts
there. -/
def countReasoning (state : DecoderState) : DecoderState :=
  if state.inReasoning then { state with reasoningTokens := state.reasoningTokens + 1 } else state

/-- The end of the output at a stop token; the text of a hidden one is taken back. -/
def terminalizeAtToken (policy : StopPolicy) (count : Nat) (f : Feeding) (before : DecoderState)
    (output : PublishedOutput) : Except Exception (DecoderState × PublishedOutput) :=
  if policy.publishStopToken then terminalize policy count f.state f.emitted
  else terminalize policy count before output

/-- The loop of `preview`, after `count` tokens. -/
def previewFrom (s : OutputSession) (budgetRemaining : Nat) (limitReason : FinishReason) :
    Nat → DecoderState → PublishedOutput → List TokenId →
    Except Exception (OutputDecision × DecoderState × PublishedOutput)
  | count, state, output, [] =>
    if count = budgetRemaining then
      match terminalize s.policy count state output with
      | .error e => .error e
      | .ok (state, output) => .ok (⟨count, limitReason⟩, state, output)
    else .ok (⟨count, .none⟩, state, output)
  | count, state, output, token :: tokens =>
    if s.tokenizer.isValidToken token = false then
      .error (.outOfRange
        ("generated token is outside the checkpoint vocabulary: " ++ toString token))
    else do
      let before := countReasoning state
      let bytes ← s.tokenizer.decodeTokenBytes token !s.preserveSpecial
      let f ← feedTokenBytes s.policy (count + 1) true bytes { state := before, emitted := output }
      match f.best with
      | some found =>
        .ok (⟨found.committedTokens, .stopString⟩, terminalState f.state, found.output)
      | none =>
        if token ∈ s.policy.tokenIds then
          match terminalizeAtToken s.policy (count + 1) f before output with
          | .error e => .error e
          | .ok (state, output) => .ok (⟨count + 1, .stopToken⟩, state, output)
        else previewFrom s budgetRemaining limitReason (count + 1) f.state f.emitted tokens

/-- `preview`. -/
def preview (s : OutputSession) (tokens : List TokenId) (budgetRemaining : Nat)
    (limitReason : FinishReason) : Except Exception (OutputDecision × OutputSession) := do
  check (s.state.terminal = false) (.logicError "output session is already terminal")
  check (s.previewed = none) (.logicError "output session already has a preview")
  check (tokens ≠ []) (.invalidArgument "cannot preview an empty generated-token round")
  check (tokens.length ≤ budgetRemaining)
    (.invalidArgument "generated-token round exceeds the remaining budget")
  check (limitReason = .outputLimit ∨ limitReason = .contextCapacity)
    (.invalidArgument "generated-token budget has an invalid limit reason")
  let (decision, state, output) ←
    s.previewFrom budgetRemaining limitReason 0 s.state [] tokens
  .ok (decision, { s with previewed := some (state, output) })

/-- `preview_terminal`. -/
def previewTerminal (s : OutputSession) (reason : FinishReason) :
    Except Exception (OutputDecision × OutputSession) := do
  check (s.state.terminal = false) (.logicError "output session is already terminal")
  check (s.previewed = none) (.logicError "output session already has a preview")
  check (reason ≠ .none ∧ reason ≠ .stopString ∧ reason ≠ .stopToken)
    (.invalidArgument "invalid between-round terminal decoder reason")
  let (state, output) ← terminalize s.policy 0 s.state []
  .ok (⟨0, reason⟩, { s with previewed := some (state, output) })

/-- `commit_preview`; without a preview it ends the process. -/
def commitPreview (s : OutputSession) : Option (PublishedOutput × OutputSession) :=
  s.previewed.map fun (state, output) => (output, { s with state := state, previewed := none })

/-- `reasoning_tokens`. -/
def reasoningTokens (s : OutputSession) : Nat := s.state.reasoningTokens

/-! ## Histories -/

/-- What the caller asks for between two commits. -/
inductive Turn
  | round (tokens : List TokenId) (budgetRemaining : Nat) (limitReason : FinishReason)
  | terminal (reason : FinishReason)

/-- A preview of the caller. -/
def turn (s : OutputSession) : Turn → Except Exception (OutputDecision × OutputSession)
  | .round tokens budgetRemaining limitReason => s.preview tokens budgetRemaining limitReason
  | .terminal reason => s.previewTerminal reason

/-- The tokens of a turn that the decision accepts. -/
def Turn.accepted (decision : OutputDecision) : Turn → List TokenId
  | .round tokens _ _ => tokens.take decision.acceptedTokens
  | .terminal _ => []

/-- The sessions of a history in which every preview returned and was committed, with the tokens
that were accepted and what the commits published. -/
inductive Reached (first : OutputSession) :
    List TokenId → List PublishedOutput → OutputSession → Prop
  | start : Reached first [] [] first
  | commit {tokens commits s t decision s' output s''} : Reached first tokens commits s →
    s.turn t = .ok (decision, s') → s'.commitPreview = some (output, s'') →
    Reached first (tokens ++ t.accepted decision) (commits ++ [output]) s''

/-! ## The rounds of a request -/

/-- What the rounds of a request come to. -/
structure Rounds where
  commits : List PublishedOutput
  acceptedTokens : Nat
  finishReason : FinishReason
  session : OutputSession

/-- Rounds are previewed with the budget that is left and committed, up to the first one that
finishes. -/
def run (limitReason : FinishReason) (s : OutputSession) (budget : Nat) :
    List (List TokenId) → Except Exception Rounds
  | [] => .ok ⟨[], 0, .none, s⟩
  | round :: rounds =>
    match s.preview round budget limitReason with
    | .error e => .error e
    | .ok (decision, previewed) =>
      match previewed.commitPreview with
      | none => .error (.logicError "commit without a preview")
      | some (output, s) =>
        if decision.finished then
          .ok ⟨[output], decision.acceptedTokens, decision.finishReason, s⟩
        else
          match run limitReason s (budget - decision.acceptedTokens) rounds with
          | .error e => .error e
          | .ok rest =>
            .ok ⟨output :: rest.commits, decision.acceptedTokens + rest.acceptedTokens,
              rest.finishReason, rest.session⟩

end OutputSession

end Ninfer.Output
