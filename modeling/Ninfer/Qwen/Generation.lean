import Ninfer.Output.Decisions
import Ninfer.Qwen.Safety

/-!
# The generation of a request

`System` leaves open what the output policy accepts and takes a budget for granted. Here both are
those of the code: the executor keeps a `GenerationBudget` and an `OutputSession` for the request in
each slot, every round that the program licenses is previewed with the budget that is left, the
decision resolves the round, and the accepted tokens are committed.

A turn is one pass of the worker over a lane or a round: the admission of a request, a step of the
staged prefill, a decode round, a cancellation between rounds, an eviction. A turn that throws ends in
`fail_all` and one that aborts ends the process, so neither has a successor. What decides about a
turn is left open as far as the executor leaves it open: the prompts and when they come, the flags of
cancellation, and what the device samples.

## Main definitions

* `Served`: the request in a slot, as far as its tokens are concerned
* `Completion`: what `complete_success` hands out
* `Generation`: the system with the requests in the slots
* `Generation.resolveRound`, `Generation.decodeRound`: the functions of the executor
* `Turn`, `Turn.Enabled`, `Turn.run`: the turns
* `Generation.Reachable`: the runs
-/

namespace Ninfer.Qwen

open Executor (FinishReason GenerationBudget OutputDecision)
open Output (OutputSession PublishedOutput)

/-- The request in a slot: the session, the budget and the tokens generated so far. The other fields
are records: the deltas that `append_output` was given, what the session was made for, and the output
tokens of the plan. -/
structure Served where
  output : OutputSession
  budget : GenerationBudget
  generated : List TokenId := []
  published : PublishedOutput := []
  setting : Output.Setting
  effective : Nat

/-- The request that `admit_planned_request` puts into a slot. -/
def Served.admitted (plan : RequestPlan) (output : OutputSession) (budget : GenerationBudget) :
    Served where
  output := output
  budget := budget
  setting := output.setting
  effective := plan.summary.effectiveOutputTokens

/-- A request that `complete_success` has ended. -/
structure Completion where
  request : Served
  finishReason : FinishReason

/-- Why a turn has no successor. -/
inductive Halt
  /-- An exception, which ends in `fail_all`. -/
  | threw (e : Exception)
  /-- `std::abort`, or a slot without a request that is read. -/
  | aborted
  deriving DecidableEq, Repr

/-- The system, the requests in its slots, and the requests that have ended. -/
structure Generation (n : Nat) where
  system : System n
  served : Fin n → Option Served := fun _ => none
  completed : List Completion := []

variable {n : Nat} (cfg : Config n)

/-- A call of a library that throws. -/
def orThrow {α : Type} : Except Exception α → Except Halt α
  | .ok a => .ok a
  | .error e => .error (.threw e)

/-- A check of the executor. -/
def orLogicError (p : Prop) [Decidable p] (what : String) : Except Halt Unit :=
  orThrow (check p (.logicError what))

/-! ## Budgets and sessions -/

/-- `GenerationBudget::GenerationBudget`. -/
def makeGenerationBudget (effectiveTokens : Nat) (limitReason : FinishReason) :
    Except Halt GenerationBudget :=
  if limitReason = .outputLimit ∨ limitReason = .contextCapacity then
    .ok ⟨effectiveTokens, limitReason⟩
  else .error .aborted

/-- `GenerationBudget::commit`. -/
def commitBudget (budget : GenerationBudget) (tokens : Nat) : Except Halt GenerationBudget :=
  if budget.remaining < tokens then .error .aborted
  else .ok { budget with remaining := budget.remaining - tokens }

/-- `commit_preview` and `append_output`. -/
def Served.commitPreview (s : Served) : Except Halt Served :=
  match s.output.commitPreview with
  | none => .error .aborted
  | some (published, output) =>
    .ok { s with output := output, published := s.published ++ published }

namespace Generation

/-- The system as constructed. -/
def init : Generation n where
  system := System.init cfg

/-- The request of a lane. -/
def request (g : Generation n) (l : Fin n) : Except Halt Served :=
  match g.served l with
  | none => .error .aborted
  | some s => .ok s

/-- The request of a lane goes on. -/
def keep (g : Generation n) (l : Fin n) (s : Served) : Generation n :=
  { g with served := Function.update g.served l (some s) }

/-- `complete_success`, and the slot is left. -/
def complete (g : Generation n) (l : Fin n) (s : Served) (reason : FinishReason) : Generation n :=
  { g with
    served := Function.update g.served l none
    completed := g.completed ++ [⟨s, reason⟩] }

/-- The end of a commit: a finished request leaves its slot. -/
def finish (g : Generation n) (l : Fin n) (s : Served) (terminal : Bool) (reason : FinishReason) :
    Generation n :=
  if terminal then g.complete l s reason else g.keep l s

/-- A call of the program, with the accounting that follows it. -/
def onSystem (action : Action n) (g : Generation n) : Except Halt (Generation n) :=
  match action.run cfg g.system with
  | .ok _ system => .ok { g with system := system }
  | .error e _ => .error (.threw e)

/-! ## Prefill -/

/-- `abort_lane` and `complete_cancelled` for the request of a lane. -/
def cancel (l : Fin n) (g : Generation n) : Except Halt (Generation n) := do
  let s ← g.request l
  let g ← onSystem cfg (.abort l) g
  let (_, output) ← orThrow (s.output.previewTerminal .cancelled)
  let s ← Served.commitPreview { s with output := output }
  .ok (g.complete l s .cancelled)

/-- `resolve_round`. -/
def resolveRound (l : Fin n) (token : TokenId) (g : Generation n) :
    Except Halt (Generation n) := do
  let s ← g.request l
  let (decision, output) ←
    orThrow (s.output.preview [token] s.budget.remaining s.budget.limitReason)
  orLogicError (decision.acceptedTokens = 1)
    "prefill output policy did not accept its licensed token"
  let g ← onSystem cfg (.resolvePrefill l decision.finished) g
  let budget ← commitBudget s.budget 1
  let s ← Served.commitPreview
    { s with output := output, budget := budget, generated := s.generated ++ [token] }
  .ok (g.finish l s decision.finished decision.finishReason)

/-- `resolve_prefill_step`, after its accounting: a prefill that is complete has licensed the token
that was sampled. -/
def resolvePrefillStep (l : Fin n) (token : TokenId) (cancelled : Bool) (g : Generation n) :
    Except Halt (Generation n) :=
  if cancelled then cancel cfg l g
  else if (g.system.slots l).phase = .firstToken then resolveRound cfg l token g
  else .ok g

/-! ## Decode rounds -/

/-- The lanes of `build_round_membership`. -/
def members (g : Generation n) : List (Fin n) :=
  (List.finRange n).filter fun l => (g.system.slots l).phase = .decoding

/-- A row of a round with the decision about it, and the session with its preview. -/
structure DecidedRow (n : Nat) where
  lane : Fin n
  licensed : List TokenId
  resolution : Resolution
  finishReason : FinishReason
  output : OutputSession

/-- The output policy at a row. -/
def decideRow (cancelled : Fin n → Bool) (g : Generation n) (row : Fin n × List TokenId) :
    Except Halt (DecidedRow n) := do
  let s ← g.request row.1
  orLogicError (row.2.length ≠ 0 ∧ row.2.length ≤ cfg.width)
    "decode batch returned an invalid licensed row extent"
  if cancelled row.1 then do
    let (_, output) ← orThrow (s.output.previewTerminal .cancelled)
    .ok ⟨row.1, row.2, ⟨0, true, true⟩, .cancelled, output⟩
  else do
    let (decision, output) ←
      orThrow (s.output.preview row.2 s.budget.remaining s.budget.limitReason)
    orLogicError (decision.acceptedTokens ≠ 0 ∧ decision.acceptedTokens ≤ row.2.length ∧
        (decision.finished = true ∨ decision.acceptedTokens = row.2.length))
      "output policy returned an invalid licensed prefix"
    .ok ⟨row.1, row.2, ⟨decision.acceptedTokens, decision.finished, false⟩,
      decision.finishReason, output⟩

/-- The commit loop at one row. The service work of the row is consumed with the resolution. -/
def commitRow (g : Generation n) (row : DecidedRow n) : Except Halt (Generation n) := do
  let s ← g.request row.lane
  let s ← if row.resolution.cancelled then .ok s else do
    let budget ← commitBudget s.budget row.resolution.accepted
    .ok { s with
      budget := budget
      generated := s.generated ++ row.licensed.take row.resolution.accepted }
  let s ← Served.commitPreview { s with output := row.output }
  .ok (g.finish row.lane s row.resolution.terminal row.finishReason)

/-- `run_decode_round`. -/
def decodeRound (verdict : Fin n → Verdict) (cancelled : Fin n → Bool) (g : Generation n) :
    Except Halt (Generation n) := do
  let lanes := g.members
  let g ← onSystem cfg (.decode (lanes.map fun l => (l, verdict l))) g
  let round := g.system.program.egress.map (·.licensed)
  orLogicError (round.length = lanes.length) "decode batch returned an invalid ragged layout"
  let rows ← (lanes.zip round).mapM (decideRow cfg cancelled g)
  let g ← onSystem cfg (.resolve (rows.map fun row => (row.lane, row.resolution))) g
  rows.foldlM commitRow g

end Generation

/-! ## Turns -/

/-- The turns of the worker. The flag of an admission or of a step of a prefill is the one read at its
boundary. -/
inductive Turn (n : Nat)
  /-- `admit_planned_request`. -/
  | admitPlanned (l : Fin n) (prompt : PreparedPromptData) (options : ExecutionOptions)
      (base : RequestBasePlan) (plan : RequestPlan) (transient : TransientRegion)
      (output : OutputSession) (sampled : Sampled) (cancelled : Bool)
  /-- `run_prefill_step`. -/
  | prefill (l : Fin n) (sampled : Sampled) (cancelled : Bool)
  /-- `run_decode_round`. -/
  | round (verdict : Fin n → Verdict) (cancelled : Fin n → Bool)
  /-- `cancel_active_requests`, at one lane. -/
  | cancel (l : Fin n)
  /-- `evict_retained_lane`. -/
  | evict (l : Fin n)

/-- When the worker takes a turn. A request is admitted with the plan made for the lane as it is and
the session that was made for it; a round has members. `Engine::submit` answers a request for no
tokens itself. -/
def Turn.Enabled (g : Generation n) : Turn n → Prop
  | .admitPlanned l prompt options base plan transient output sampled _ =>
    options.requestedOutputTokens ≠ 0 ∧
      (Action.start l prompt options base plan transient sampled).Enabled cfg g.system ∧
      ∃ tokenizer callerStop outputOptions starts,
        Output.makeOutputSession tokenizer callerStop outputOptions starts = .ok output
  | .prefill l _ _ => (g.system.slots l).phase = .prefilling
  | .round _ _ => g.members ≠ []
  | .cancel l => (g.system.slots l).phase ≠ .idle
  | .evict l => (g.system.slots l).phase = .idle

/-- What a turn does. -/
def Turn.run : Turn n → Generation n → Except Halt (Generation n)
  | .admitPlanned l prompt options base plan transient output sampled cancelled, g => do
    let budget ← makeGenerationBudget plan.summary.effectiveOutputTokens
      plan.summary.effectiveLimitReason
    let g ← Generation.onSystem cfg (.start l prompt options base plan transient sampled)
      (g.keep l (.admitted plan output budget))
    Generation.resolvePrefillStep cfg l sampled.token cancelled g
  | .prefill l sampled cancelled, g => do
    let g ← Generation.onSystem cfg (.advance l sampled) g
    Generation.resolvePrefillStep cfg l sampled.token cancelled g
  | .round verdict cancelled, g => Generation.decodeRound cfg verdict cancelled g
  | .cancel l, g => Generation.cancel cfg l g
  | .evict l, g => Generation.onSystem cfg (.evict l) g

namespace Generation

/-- The states of the runs. -/
inductive Reachable : Generation n → Prop
  | init : Reachable (Generation.init cfg)
  | turn {g g' : Generation n} {t : Turn n} (reach : Reachable g) (enabled : t.Enabled cfg g)
      (run : t.run cfg g = .ok g') : Reachable g'

end Generation

end Ninfer.Qwen
