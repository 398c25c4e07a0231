import Ninfer.Commons.Thread
import Ninfer.Executor.State

/-!
# The worker thread

`runtime/engine/concurrent_executor.h`: the functions the worker runs, as programs of atomic
actions. A critical section is one action; what only the worker touches may be read and written in
actions of its own. The target program, the text decoder of an output session and the clock are an
oracle: every answer is possible, and so is every exception they may raise.

The loops without a bound are labels: `worker_loop` goes around `top`, the loop of `try_admit_one`
around `admitting`. Waiting on the queue's condition variable is going around `top` without progress.

A dereferenced null, a violated `noexcept` and `std::abort` end the process, and are `abort`.

## Main definitions

* `Oracle`: the calls whose outcome the executor does not control
* `completeError`, `completeSuccess`, `completeCancelled`: the ends of a request
* `expirePendingRequests`, `cancelActiveRequests`, `runPrefillStep`: actions of the loop
-/

namespace Ninfer.Executor

/-- Calls into the target, the text decoder and the clock. -/
inductive Oracle : Type → Type
  /-- Which deadlines have passed at one reading of the clock. -/
  | deadlinesPassed : Oracle (Nat → Bool)
  | planRequestBase (id : Nat) : Oracle (Except Failure RequestPlanSummary)
  | planRequestForLane (lane : Nat) (id : Nat) : Oracle (Except Failure RequestPlanSummary)
  | canAdmitLane (lane : Nat) (id : Nat) : Oracle Bool
  | canAdmitLaneAfterRetainedEviction (lane : Nat) (id : Nat) : Oracle Bool
  | hasRetainedLane (lane : Nat) : Oracle Bool
  | evictRetainedLane (lane : Nat) : Oracle Unit
  | abortLane (lane : Nat) : Oracle Unit
  | startPrefillLane (lane : Nat) (id : Nat) : Oracle (Except Failure PrefillStepResult)
  | advancePrefillLane (lane : Nat) : Oracle (Except Failure PrefillStepResult)
  | resolvePrefillLane (lane : Nat) (terminal : Bool) : Oracle (Except Failure Unit)
  | decodeBatch (lanes budgets : List Nat) : Oracle (Except Failure BatchedGeneratedRound)
  | resolvePendingBatch (lanes accepted : List Nat) (terminal cancelled : List Bool) :
      Oracle (Except Failure Unit)
  | activateRequestMemory (bytes alignment : Nat) : Oracle (Except Failure Unit)
  /-- `OutputSession::preview` after its checks. -/
  | decodeRound (id : Nat) (tokens : List TokenId) (budgetRemaining : Nat) :
      Oracle (Except Failure (OutputDecision × List OutputDelta))
  /-- `terminalize` on a decoder that has been fed. -/
  | terminalize (id : Nat) : Oracle (Except Failure (List OutputDelta))

abbrev Worker := Prog State Oracle Failure

open Prog (readState writeState atomically query attempt forEach mapEach catching)

def logicError (what : String) : Failure := .std (.logicError what)

def invalidArgument (what : String) : Failure := .std (.invalidArgument what)

/-! ## Output sessions -/

/-- The writes of a preview that has succeeded. -/
def storePreview (id : Nat) (output : List OutputDelta) (terminal : Bool) : Worker Unit :=
  writeState fun s => s.updateJob id fun j => { j with
    output := { j.output with
      previewReady := true, previewTerminal := terminal, previewOutput := output } }

/-- `OutputSession::preview`. -/
def preview (id : Nat) (tokens : List TokenId) (budgetRemaining : Nat)
    (limitReason : FinishReason) : Worker OutputDecision := do
  let session ← readState fun s => (s.reqs id).job.output
  if session.terminal then .throw (logicError "output session is already terminal")
  else if session.previewReady then .throw (logicError "output session already has a preview")
  else if tokens.isEmpty then
    .throw (invalidArgument "cannot preview an empty generated-token round")
  else if budgetRemaining < tokens.length then
    .throw (invalidArgument "generated-token round exceeds the remaining budget")
  else if limitReason ≠ .outputLimit ∧ limitReason ≠ .contextCapacity then
    .throw (invalidArgument "generated-token budget has an invalid limit reason")
  else do
    let decoded ← attempt (.decodeRound id tokens budgetRemaining)
    storePreview id decoded.2 decoded.1.finished
    pure decoded.1

/-- `OutputSession::preview_terminal`. A decoder that has not been fed holds no text, so that
`terminalize` publishes nothing and does not throw. -/
def previewTerminal (id : Nat) (reason : FinishReason) : Worker Unit := do
  let session ← readState fun s => (s.reqs id).job.output
  if session.terminal then .throw (logicError "output session is already terminal")
  else if session.previewReady then .throw (logicError "output session already has a preview")
  else if reason = .none ∨ reason = .stopString ∨ reason = .stopToken then
    .throw (invalidArgument "invalid between-round terminal decoder reason")
  else if session.unused then storePreview id [] true
  else do
    let output ← attempt (.terminalize id)
    storePreview id output true

/-- `OutputSession::commit_preview`. -/
def commitPreview (id : Nat) : Worker (List OutputDelta) := do
  let committed ← atomically fun s =>
    let session := (s.reqs id).job.output
    if session.previewReady then
      (some session.previewOutput, s.updateJob id fun j => { j with
        output := { unused := false, terminal := session.previewTerminal } })
    else (none, s)
  match committed with
  | some output => pure output
  | none => .abort

/-! ## The end of a request -/

/-- `append_output`. -/
def appendOutput (id : Nat) (output : List OutputDelta) : Worker Unit :=
  if output.isEmpty then pure ()
  else writeState fun s => s.updateReq id fun r => { r with
    content := r.content ++ channelText .content output
    reasoning := r.reasoning ++ channelText .reasoning output
    events := r.events ++ output
    published := r.published ++ output }

/-- `release_reserved_capacity`, on behalf of the request `id`. -/
def releaseReservedCapacity (id : Nat) : Worker Unit := writeState fun s => s.giveBack id

/-- `mark_completed`. -/
def markCompleted (id : Nat) : Worker Bool :=
  atomically fun s =>
    if (s.reqs id).consumerReleased && !(s.reqs id).capacityReleased then
      (true, s.updateReq id fun r => { r with capacityReleased := true })
    else (false, s)

/-- `release_planning_state`. -/
def releasePlanningState (id : Nat) : Worker Unit :=
  writeState fun s => s.updateJob id fun j => { j with basePlan := none, lanePlans := fun _ => none }

/-- The end of `complete_error` and `complete_success`, after their critical section: `stored` says
that the request was not done before. -/
def afterCompletion (id : Nat) (stored : Bool) : Worker Unit :=
  if stored then do
    let release ← markCompleted id
    if release then releaseReservedCapacity id else pure ()
  else pure ()

/-- `complete_error`. -/
def completeError (id : Nat) (error : Failure) : Worker Unit := do
  releasePlanningState id
  let stored ← atomically fun s =>
    if (s.reqs id).done then (false, s)
    else (true, s.updateReq id fun r => { r with error := some error, done := true })
  afterCompletion id stored

/-- `complete_success`. The texts are moved out of the request before the critical section. -/
def completeSuccess (id : Nat) (reason : FinishReason) : Worker Unit := do
  releasePlanningState id
  let result ← atomically fun s =>
    ({ generatedTokenIds := (s.reqs id).job.generated
       content := (s.reqs id).content
       reasoning := (s.reqs id).reasoning
       finishReason := reason : GenerationResult },
      s.updateReq id fun r => { r with
        content := "", reasoning := "", job := { r.job with generated := [] } })
  let stored ← atomically fun s =>
    if (s.reqs id).done then (false, s)
    else (true, s.updateReq id fun r => { r with result := some result, done := true })
  afterCompletion id stored

/-- `complete_cancelled`. -/
def completeCancelled (id : Nat) : Worker Unit := do
  previewTerminal id .cancelled
  let output ← commitPreview id
  appendOutput id output
  completeSuccess id .cancelled

/-! ## Slots -/

/-- `remove_completed_slot`. -/
def removeCompletedSlot (lane : Nat) : Worker Unit :=
  writeState fun s => (s.setSlot lane none).invalidateLanePlans lane

/-- `request_memory.deactivate()` and `prefill_lane_.reset()` when `lane` owns the staged prefill. -/
def clearPrefillLane (lane : Nat) : Worker Unit :=
  writeState fun s =>
    if s.schedule.prefillLane = some lane then
      { s with schedule := { s.schedule with
        requestMemory := s.schedule.requestMemory.deactivate, prefillLane := none } }
    else s

/-- A call of the target that runs a unit on the GPU. -/
def gpuUnit {α : Type} (q : Oracle (Except Failure α)) : Worker α := do
  writeState fun s => { s with schedule := { s.schedule with gpuUnits := s.schedule.gpuUnits + 1 } }
  attempt q

/-- `GenerationBudget::commit`. -/
def commitBudget (id : Nat) (tokens : Nat) : Worker Unit := do
  let committed ← atomically fun s =>
    match (s.reqs id).job.budget with
    | none => (false, s)
    | some budget =>
      if budget.remaining < tokens then (false, s)
      else (true, s.updateJob id fun j => { j with
        budget := some { budget with remaining := budget.remaining - tokens } })
  if committed then pure () else .abort

/-- `consume_service_work`. -/
def consumeServiceWork (id : Nat) (work : Nat) : Worker Unit := do
  let remaining ← readState fun s => (s.reqs id).job.remainingServiceWork
  if work = 0 ∨ remaining < work then
    .throw (logicError ("request service projection consumed " ++ toString work ++
      " quanta with " ++ toString remaining ++ " remaining"))
  else writeState fun s => s.updateJob id fun j => { j with remainingServiceWork := remaining - work }

/-- `resolve_round`. -/
def resolveRound (id : Nat) (token : TokenId) (cancelAtBoundary : Bool) : Worker Bool := do
  let lane ← readState fun s => (s.reqs id).job.lane
  match lane with
  | none => .abort
  | some lane =>
    if cancelAtBoundary then do
      previewTerminal id .cancelled
      query (.abortLane lane)
      let output ← commitPreview id
      appendOutput id output
      completeSuccess id .cancelled
      pure true
    else do
      let budget ← readState fun s => (s.reqs id).job.budget
      match budget with
      | none => .abort
      | some budget => do
        let decision ← preview id [token] budget.remaining budget.limitReason
        if decision.acceptedTokens ≠ 1 then
          .throw (logicError "prefill output policy did not accept its licensed token")
        else do
          writeState fun s => s.updateJob id fun j => { j with generated := j.generated ++ [token] }
          attempt (.resolvePrefillLane lane decision.finished)
          commitBudget id 1
          let published ← commitPreview id
          appendOutput id published
          if decision.finished then do
            completeSuccess id decision.finishReason
            pure true
          else pure false

/-- `snapshot_cancellations`. -/
def snapshotCancellations (n : Nat) : Worker (List Nat) :=
  readState fun s => (List.range n).filter fun lane =>
    match s.slots lane with
    | none => false
    | some id => (s.reqs id).cancelled

/-- `cancel_active_requests`; `cancelledAtBoundary` lists the lanes whose flag was set. -/
def cancelActiveRequests (n : Nat) (cancelledAtBoundary : List Nat) : Worker Unit :=
  forEach (List.range n) fun lane => do
    let slot ← readState fun s => s.slots lane
    match slot with
    | none => pure ()
    | some id =>
      if cancelledAtBoundary.contains lane then do
        query (.abortLane lane)
        clearPrefillLane lane
        completeCancelled id
        removeCompletedSlot lane
      else pure ()

/-- `expire_pending_requests`. -/
def expirePendingRequests : Worker Bool := do
  let late ← query .deadlinesPassed
  let removed ← atomically fun s =>
    let isCancelled := fun id => (s.reqs id).cancelled
    ((s.pending.filter isCancelled,
      s.pending.filter fun id => !isCancelled id && late id,
      !(s.pending.filter fun id => !isCancelled id && !late id).isEmpty),
      { s with pending := s.pending.filter fun id => !isCancelled id && !late id })
  writeState fun s =>
    match s.schedule.protection with
    | none => s
    | some protection =>
      if removed.1.contains protection.headRequestId ∨
          removed.2.1.contains protection.headRequestId then
        { s with schedule := { s.schedule with protection := none } }
      else s
  forEach removed.1 completeCancelled
  forEach removed.2.1 fun id =>
    completeError id (.request .queueTimeout "inference request expired while waiting for admission")
  pure removed.2.2

/-- `build_round_membership`: the lanes ready to decode, with their budgets. -/
def buildRoundMembership (n : Nat) : Worker (List (Nat × Nat)) := do
  let members ← readState fun s => (List.range n).filterMap fun lane =>
    match s.slots lane with
    | none => none
    | some id => if (s.reqs id).job.decodeReady then some (lane, (s.reqs id).job.budget) else none
  if members.any fun m => m.2.isNone then
    .throw (logicError "decode-ready request has no generation budget")
  else pure (members.map fun m => (m.1, (m.2.map (·.remaining)).getD 0))

/-- `active_admission_set`. -/
def activeAdmissionSet (n : Nat) : Worker (List ActiveAdmissionSnapshot) := do
  let active ← readState fun s => (List.range n).filterMap fun lane =>
    match s.slots lane with
    | none => none
    | some id =>
      let j := (s.reqs id).job
      some { requestId := id, resources := j.admissionResources
             remainingWorkQuanta := j.remainingServiceWork
             backfillEpoch := j.backfillEpoch, backfillClass := j.backfillClass }
  if active.any fun a : ActiveAdmissionSnapshot =>
      a.resources.activeLanes == 0 || a.remainingWorkQuanta == 0 then
    .throw (logicError "active request has no admission accounting")
  else pure active

/-! ## Prefill -/

/-- `resolve_prefill_step`. -/
def resolvePrefillStep (id : Nat) (step : PrefillStepResult) (cancelAtBoundary : Bool) :
    Worker Unit := do
  consumeServiceWork id 1
  let lane ← readState fun s => (s.reqs id).job.lane
  if cancelAtBoundary then
    match lane with
    | none => .throw (logicError "cancelled prefill has no request lane")
    | some lane => do
      clearPrefillLane lane
      query (.abortLane lane)
      completeCancelled id
      removeCompletedSlot lane
  else if step.complete then
    match lane with
    | none => .throw (logicError "completed prefill has no request lane")
    | some lane => do
      clearPrefillLane lane
      match step.tokens with
      | [token] => do
        let finished ← resolveRound id token false
        if finished then removeCompletedSlot lane
        else writeState fun s => s.updateJob id fun j => { j with decodeReady := true }
      | _ => .throw (logicError "prefill did not license exactly one token")
  else pure ()

/-- `run_prefill_step`. -/
def runPrefillStep : Worker Unit := do
  let prefillLane ← readState fun s => s.schedule.prefillLane
  match prefillLane with
  | none => .throw (logicError "no request owns staged prefill")
  | some lane => do
    let slot ← readState fun s => s.slots lane
    match slot with
    | none => .throw (logicError "staged prefill lane has invalid request state")
    | some id => do
      let ready ← readState fun s => (s.reqs id).job.decodeReady
      if ready then .throw (logicError "staged prefill lane has invalid request state")
      else do
        let step ← gpuUnit (.advancePrefillLane lane)
        let cancelAtBoundary ← readState fun s => (s.reqs id).cancelled
        resolvePrefillStep id step cancelAtBoundary

end Ninfer.Executor
