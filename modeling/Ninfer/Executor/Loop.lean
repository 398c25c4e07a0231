import Ninfer.Executor.Worker

/-!
# Admission, decode rounds and the worker loop

`runtime/engine/concurrent_executor.h`: `try_admit_one` and what it calls, `run_decode_round`,
`fail_all` and `worker_loop`.

## Main definitions

* `findAdmissionLane`, `admitPlannedRequest`, `tryAdmitOnce`: admission
* `runDecodeRound`: a batched decode round
* `failAll`: the end of the engine
* `Label`, `workerLoop`: the blocks of the worker thread
-/

namespace Ninfer.Executor

open Prog (readState writeState atomically query attempt forEach mapEach catching)

/-! ## Admission -/

inductive AdmissionProgress
  | none
  | controlProgress
  | ranGpuUnit
  deriving DecidableEq, Repr

structure LaneChoice where
  lane : Nat := 0
  evictRetained : Bool := false
  deriving DecidableEq, Repr

/-- `control_progress ? ControlProgress : None`. -/
def AdmissionProgress.ofControl (control : Bool) : AdmissionProgress :=
  if control then .controlProgress else .none

/-- `erase_pending`. -/
def erasePending (id : Nat) : Worker Bool :=
  atomically fun s =>
    if id ∈ s.pending then (true, { s with pending := s.pending.erase id }) else (false, s)

/-- `clear_protection_if_head`. -/
def clearProtectionIfHead (id : Nat) : Worker Unit :=
  writeState fun s =>
    match s.schedule.protection with
    | none => s
    | some protection =>
      if protection.headRequestId = id then
        { s with schedule := { s.schedule with protection := none } }
      else s

/-- The base plan of a request, which is made when there is none. -/
def basePlan (id : Nat) (present : Option RequestPlanSummary) : Worker RequestPlanSummary :=
  match present with
  | some summary => pure summary
  | none => do
    let summary ← attempt (.planRequestBase id)
    writeState fun s => s.updateJob id fun j => { j with basePlan := some summary }
    pure summary

/-- `ensure_base_plan`, and the base plan it leaves. -/
def ensureBasePlan (id : Nat) : Worker RequestPlanSummary := do
  let present ← readState fun s => (s.reqs id).job.basePlan
  let summary ← basePlan id present
  if summary.admission.activeLanes ≠ 1 ∨ summary.serviceWorkQuanta = 0 then
    .throw (logicError "target request plan has invalid admission accounting")
  else pure summary

/-- `ensure_lane_plan`, for a lane whose slot is empty. -/
def ensureLanePlan (id : Nat) (lane : Nat) : Worker Unit := do
  let cached ← readState fun s =>
    (s.reqs id).job.lanePlanVersions lane == s.schedule.lanePlanVersions lane &&
      ((s.reqs id).job.lanePlans lane).isSome
  if cached then pure ()
  else do
    writeState fun s => s.updateJob id fun j => { j with
      lanePlans := Function.update j.lanePlans lane none }
    let plan ← attempt (.planRequestForLane lane id)
    writeState fun s => s.updateJob id fun j => { j with
      lanePlans := Function.update j.lanePlans lane (some plan)
      lanePlanVersions :=
        Function.update j.lanePlanVersions lane (s.schedule.lanePlanVersions lane) }

/-- One of the two loops of `find_admission_lane`, over the lanes that are left: `feasible` is the
test of the target, and `selected` the choice so far, with its reuse. -/
def selectLane (id : Nat) (feasible : Nat → Oracle Bool) (evictRetained : Bool) :
    List Nat → Option (LaneChoice × Nat) → Worker (Option (LaneChoice × Nat))
  | [], selected => pure selected
  | lane :: lanes, selected => do
    let slot ← readState fun s => s.slots lane
    match slot with
    | some _ => selectLane id feasible evictRetained lanes selected
    | none => do
      ensureLanePlan id lane
      let plan ← readState fun s => (s.reqs id).job.lanePlans lane
      match plan with
      | none => .abort
      | some plan => do
        let admits ← query (feasible lane)
        let better := match selected with
          | none => true
          | some (_, reuse) => decide (reuse < plan.reusablePromptTokens)
        selectLane id feasible evictRetained lanes
          (if admits && better then some (⟨lane, evictRetained⟩, plan.reusablePromptTokens)
          else selected)

/-- `find_admission_lane`. -/
def findAdmissionLane (n : Nat) (id : Nat) : Worker (Option LaneChoice) := do
  let direct ← selectLane id (fun lane => .canAdmitLane lane id) false (List.range n) none
  match direct with
  | some (choice, _) => pure (some choice)
  | none => do
    let evicting ← selectLane id (fun lane => .canAdmitLaneAfterRetainedEviction lane id) true
      (List.range n) none
    pure (evicting.map (·.1))

/-- `remove_pending_error`. -/
def removePendingError (id : Nat) (error : Failure) : Worker AdmissionProgress := do
  let erased ← erasePending id
  if erased then do
    clearProtectionIfHead id
    completeError id error
    pure .controlProgress
  else pure .none

/-- The cancelled branches of an admission. The one for a candidate behind the head does not look
at the protection. -/
def removePendingCancelled (id : Nat) (isCandidate : Bool) : Worker AdmissionProgress := do
  let erased ← erasePending id
  if erased then do
    if isCandidate then pure () else clearProtectionIfHead id
    completeCancelled id
    pure .controlProgress
  else pure .none

/-- The error of a request whose deadline has passed. -/
def queueTimeout : Failure :=
  .request .queueTimeout "inference request expired while waiting for admission"

/-- The error of a request whose reservation exceeds the engine. -/
def contextLengthExceeded : Failure :=
  .request .contextLengthExceeded "request reservation exceeds Engine shared KV capacity"

/-- The eviction loop of `admit_planned_request`, over the lanes that are left. -/
def evictRetainedLanes (lane : Nat) (id : Nat) : List Nat → Worker Unit
  | [] => pure ()
  | retainedLane :: lanes => do
    let admits ← query (.canAdmitLane lane id)
    if admits then pure ()
    else do
      let slot ← readState fun s => s.slots retainedLane
      let retained ← query (.hasRetainedLane retainedLane)
      if retainedLane ≠ lane ∧ slot = none ∧ retained = true then do
        query (.evictRetainedLane retainedLane)
        writeState fun s => s.invalidateLanePlans retainedLane
        evictRetainedLanes lane id lanes
      else evictRetainedLanes lane id lanes

/-- The evictions of `admit_planned_request`: whether the request can be admitted after them. -/
def makeFeasible (n : Nat) (id : Nat) (choice : LaneChoice) : Worker Bool :=
  if choice.evictRetained then do
    evictRetainedLanes choice.lane id (List.range n)
    query (.canAdmitLane choice.lane id)
  else pure true

/-- The temporal credit check of `admit_planned_request`. -/
def spendTemporalCredit (backfillClass : BackfillClass) (backfillEpoch work : Nat) :
    Worker Unit :=
  if backfillClass = .temporal then do
    let spent ← atomically fun s =>
      match s.schedule.protection with
      | none => (false, s)
      | some protection =>
        if protection.epochId ≠ backfillEpoch ∨ protection.temporalCredit < work then (false, s)
        else (true, { s with schedule := { s.schedule with
          protection := some { protection with
            temporalCredit := protection.temporalCredit - work } } })
    if spent then pure ()
    else .throw (logicError "temporal backfill lost its protected credit")
  else pure ()

/-- `abort_lane`, when the target has started. -/
def abortTarget (lane : Nat) (targetStarted : Bool) : Worker Unit :=
  if targetStarted then query (.abortLane lane) else pure ()

/-- The handler of `admit_planned_request`, which rethrows. -/
def abandonAdmission (id : Nat) (lane : Nat) (targetStarted : Bool) (error : Failure) :
    Worker Unit := do
  abortTarget lane targetStarted
  clearPrefillLane lane
  writeState fun s => (s.setSlot lane none).invalidateLanePlans lane
  completeError id error
  .throw error

/-- The `try` block of `admit_planned_request` up to the start of the target. -/
def occupyLane (id : Nat) (lane : Nat) (backfillClass : BackfillClass) (backfillEpoch : Nat)
    (summary : RequestPlanSummary) : Worker Unit := do
  -- `GenerationBudget` aborts on any other limit.
  if summary.effectiveLimitReason ≠ .outputLimit ∧ summary.effectiveLimitReason ≠ .contextCapacity
  then .abort
  else do
    writeState fun s => ((s.updateJob id fun j => { j with
      budget := some ⟨summary.effectiveOutputTokens, summary.effectiveLimitReason⟩
      lane := some lane
      admissionResources := summary.admission
      remainingServiceWork := summary.serviceWorkQuanta
      backfillEpoch := backfillEpoch
      backfillClass := backfillClass
      admitted := some summary }).setSlot lane (some id)).invalidateLanePlans lane
    if summary.reusablePromptTokens < summary.promptTokens then do
      attempt (.activateRequestMemory summary.transientBytes summary.transientAlignment)
      writeState fun s => { s with schedule := { s.schedule with
        requestMemory :=
          s.schedule.requestMemory.activate summary.transientBytes summary.transientAlignment
        prefillLane := some lane } }
    else pure ()

/-- The `try` block of `admit_planned_request` from the start of the target on. -/
def startTarget (id : Nat) (lane : Nat) : Worker Unit := do
  let first ← gpuUnit (.startPrefillLane lane id)
  let prefillLane ← readState fun s => s.schedule.prefillLane
  if first.complete = false ∧ prefillLane ≠ some lane then
    .throw (logicError "partial prefill did not retain its execution owner")
  else do
    let cancelAtBoundary ← readState fun s => (s.reqs id).cancelled
    resolvePrefillStep id first cancelAtBoundary

/-- `admit_planned_request`. -/
def admitPlannedRequest (n : Nat) (id : Nat) (choice : LaneChoice)
    (backfillClass : BackfillClass) (backfillEpoch : Nat) : Worker AdmissionProgress := do
  let late ← query .deadlinesPassed
  if late id then removePendingError id queueTimeout
  else do
    let cancelled ← readState fun s => (s.reqs id).cancelled
    if cancelled then removePendingCancelled id false
    else do
      let plan ← readState fun s => (s.reqs id).job.lanePlans choice.lane
      match plan with
      | none => .throw (logicError "selected admission lane has no request plan")
      | some summary => do
        let feasible ← makeFeasible n id choice
        if feasible = false then
          .throw (logicError "retained eviction did not make admission feasible")
        else do
          writeState fun s => s.updateJob id fun j => { j with
            lanePlans := Function.update j.lanePlans choice.lane none }
          let erased ← erasePending id
          if erased then do
            releasePlanningState id
            spendTemporalCredit backfillClass backfillEpoch summary.serviceWorkQuanta
            clearProtectionIfHead id
            (occupyLane id choice.lane backfillClass backfillEpoch summary).handle
              (abandonAdmission id choice.lane false)
            (startTarget id choice.lane).handle (abandonAdmission id choice.lane true)
            pure .ranGpuUnit
          else pure .none

/-- The checks `try_admit_one` makes of a queued request before it looks at the protection: the
request has been removed from the queue, or it has a plan and perhaps a lane. -/
inductive Examined
  | removed (progress : AdmissionProgress)
  | planned (base : RequestPlanSummary) (lane : Option LaneChoice)

/-- The checks of `try_admit_one` that the head and the candidates have in common. -/
def examine (o : Options) (id : Nat) (isCandidate : Bool) : Worker Examined := do
  let cancelled ← readState fun s => (s.reqs id).cancelled
  if cancelled then do
    let progress ← removePendingCancelled id isCandidate
    pure (.removed progress)
  else do
    let late ← query .deadlinesPassed
    if late id then do
      let _ ← removePendingError id queueTimeout
      pure (.removed .controlProgress)
    else do
      let base ← catching (ensureBasePlan id)
      match base with
      | .error e => do
        let _ ← removePendingError id e
        pure (.removed .controlProgress)
      | .ok base =>
        if admissionResourcesFit base.admission o.admissionCapacity then do
          let lane ← catching (findAdmissionLane o.maxConcurrency id)
          match lane with
          | .error e => do
            let _ ← removePendingError id e
            pure (.removed .controlProgress)
          | .ok lane => pure (.planned base lane)
        else do
          let _ ← removePendingError id contextLengthExceeded
          pure (.removed .controlProgress)

/-- The loop of `try_admit_one` over the candidates behind a protected head. -/
def backfill (o : Options) (active : List ActiveAdmissionSnapshot) (frontierDistance : Nat) :
    List Nat → Bool → Worker AdmissionProgress
  | [], control => pure (.ofControl control)
  | candidate :: rest, control => do
    let examined ← examine o candidate true
    match examined with
    | .removed progress =>
      backfill o active frontierDistance rest (control || progress = .controlProgress)
    | .planned _ none => backfill o active frontierDistance rest control
    | .planned _ (some choice) => do
      let seen ← readState fun s =>
        ((s.reqs candidate).job.lanePlans choice.lane, s.schedule.protection)
      match seen with
      | (some plan, some protection) =>
        if persistentBackfillIsSafe protection active plan.admission o.admissionCapacity then
          admitPlannedRequest o.maxConcurrency candidate choice .persistent protection.epochId
        else if plan.serviceWorkQuanta ≤ frontierDistance ∧
            plan.serviceWorkQuanta ≤ protection.temporalCredit then
          admitPlannedRequest o.maxConcurrency candidate choice .temporal protection.epochId
        else backfill o active frontierDistance rest control
      | _ => .abort

/-- One turn of the loop of `try_admit_one` ends in another one, or in its result. -/
inductive AdmitNext
  | again (control : Bool)
  | finished (progress : AdmissionProgress)

/-- `protection_.emplace(...)`, when there is none. -/
def currentProtection (o : Options) (head : Nat) (base : RequestPlanSummary)
    (active : List ActiveAdmissionSnapshot) : Option AdmissionProtection →
    Worker AdmissionProtection
  | some protection => pure protection
  | none => do
    let epoch ← atomically fun s => (s.schedule.nextProtectionEpoch,
      { s with schedule := { s.schedule with
        nextProtectionEpoch := s.schedule.nextProtectionEpoch + 1 } })
    match makeAdmissionProtection epoch head base.admission active o.admissionCapacity with
    | .error e => .throw (.std e)
    | .ok protection => pure protection

/-- The protection of the head, stepped to the drain phase where that is due. -/
def protectHead (o : Options) (head : Nat) (base : RequestPlanSummary)
    (active : List ActiveAdmissionSnapshot) : Worker AdmissionProtection := do
  let present ← readState fun s => s.schedule.protection
  let protection ← currentProtection o head base active present
  let protection' := if protectedHeadSafeWithoutTemporal protection active o.admissionCapacity then
      { protection with phase := .drain }
    else protection
  writeState fun s => { s with schedule := { s.schedule with protection := some protection' } }
  pure protection'

/-- One turn of the loop of `try_admit_one`. -/
def tryAdmitOnce (o : Options) (control : Bool) : Worker AdmitNext := do
  let queued ← readState fun s => s.pending
  match queued with
  | [] => do
    writeState fun s => { s with schedule := { s.schedule with protection := none } }
    pure (.finished (.ofControl control))
  | head :: rest => do
    writeState fun s =>
      match s.schedule.protection with
      | none => s
      | some protection =>
        if protection.headRequestId ≠ head then
          { s with schedule := { s.schedule with protection := none } }
        else s
    let examined ← examine o head false
    match examined with
    | .removed progress => pure (.again (control || progress = .controlProgress))
    | .planned _ (some choice) => do
      let progress ← admitPlannedRequest o.maxConcurrency head choice .none 0
      pure (.finished progress)
    | .planned base none => do
      let active ← activeAdmissionSet o.maxConcurrency
      if active.isEmpty then
        .throw (logicError "exclusive-feasible request cannot enter an idle Engine")
      else do
        let protection ← protectHead o head base active
        if protection.phase = .drain then pure (.finished (.ofControl control))
        else do
          let progress ←
            backfill o active (protectionFrontierDistance protection active) rest control
          pure (.finished progress)

/-! ## Decode rounds -/

/-- What `run_decode_round` has decided about a row. -/
structure RowDecision where
  lane : Nat
  cancelled : Bool
  accepted : Nat
  terminal : Bool
  reason : FinishReason
  tokens : List TokenId

/-- `static_cast<std::uint32_t>` of a row count. -/
def rowCount (round : BatchedGeneratedRound) (row : Nat) : Nat :=
  if round.rowCounts.isEmpty then 1 else ((round.rowCounts.getD row 0) % 2 ^ 32).toNat

/-- The decision loop of `run_decode_round` at one row. -/
def decideRow (round : BatchedGeneratedRound) (row : Nat × Nat × Bool) : Worker RowDecision := do
  let (index, lane, cancelled) := row
  let slot ← readState fun s => s.slots lane
  match slot with
  | none => .abort
  | some id => do
    let count := rowCount round index
    if count = 0 ∨ round.rowStride < count then
      .throw (logicError "decode batch returned an invalid licensed row extent")
    else do
      let tokens := (round.tokens.drop (index * round.rowStride)).take count
      if cancelled then do
        previewTerminal id .cancelled
        pure ⟨lane, true, 0, true, .cancelled, []⟩
      else do
        let budget ← readState fun s => (s.reqs id).job.budget
        match budget with
        | none => .abort
        | some budget => do
          let decision ← preview id tokens budget.remaining budget.limitReason
          if decision.acceptedTokens = 0 ∨ count < decision.acceptedTokens ∨
              (decision.finished = false ∧ decision.acceptedTokens ≠ count) then
            .throw (logicError "output policy returned an invalid licensed prefix")
          else pure ⟨lane, false, decision.acceptedTokens, decision.finished,
            decision.finishReason, tokens.take decision.acceptedTokens⟩

/-- The branch of the commit loop for a row that was not cancelled. -/
def advanceRow (id : Nat) (row : RowDecision) : Worker Unit :=
  if row.cancelled then pure ()
  else do
    writeState fun s => s.updateJob id fun j => { j with generated := j.generated ++ row.tokens }
    commitBudget id row.accepted
    consumeServiceWork id row.accepted

/-- The commit loop of `run_decode_round` at one row. -/
def commitRow (row : RowDecision) : Worker Unit := do
  let slot ← readState fun s => s.slots row.lane
  match slot with
  | none => .abort
  | some id => do
    advanceRow id row
    let published ← commitPreview id
    appendOutput id published
    if row.terminal then do
      completeSuccess id row.reason
      removeCompletedSlot row.lane
    else pure ()

/-- The loads of `cancelled` after a batch. -/
def loadCancelled (lane : Nat) : Worker Bool := do
  let flag ← readState fun s => (s.slots lane).map fun id => (s.reqs id).cancelled
  match flag with
  | none => .abort
  | some flag => pure flag

/-- `run_decode_round`. -/
def runDecodeRound (membership : List (Nat × Nat)) : Worker Unit := do
  let lanes := membership.map (·.1)
  let round ← gpuUnit (.decodeBatch lanes (membership.map (·.2)))
  let cancelled ← mapEach lanes loadCancelled
  if round.rowStride = 0 ∨ (round.rowCounts ≠ [] ∧ round.rowCounts.length ≠ lanes.length) ∨
      round.tokens.length < round.rowStride * lanes.length then
    .throw (logicError "decode batch returned an invalid ragged layout")
  else do
    let rows ← mapEach ((List.range lanes.length).zip (lanes.zip cancelled)) (decideRow round)
    attempt (.resolvePendingBatch lanes (rows.map (·.accepted)) (rows.map (·.terminal)) cancelled)
    forEach rows commitRow

/-! ## The loop -/

/-- The loop of `fail_all` over the slots. -/
def failSlot (error : Failure) (lane : Nat) : Worker Unit := do
  let slot ← readState fun s => s.slots lane
  match slot with
  | none => pure ()
  | some id => do
    query (.abortLane lane)
    completeError id error
    writeState fun s => s.setSlot lane none

/-- The resets of `fail_all`. -/
def resetSchedule : Worker Unit :=
  writeState fun s => { s with schedule := { s.schedule with
    requestMemory := if s.schedule.prefillLane.isSome then s.schedule.requestMemory.deactivate
      else s.schedule.requestMemory
    prefillLane := none
    protection := none } }

/-- `fail_all`. -/
def failAll (n : Nat) (error : Failure) : Worker Unit := do
  let pending ← atomically fun s => (s.pending, { s with failed := true, pending := [] })
  resetSchedule
  forEach (List.range n) (failSlot error)
  forEach pending fun id => completeError id error

/-- The blocks of the worker thread. `top` is the boundary of `worker_loop`, `admitting` that of the
loop of `try_admit_one`, with the locals that are live there. -/
inductive Label
  | top (previousUnitWasDecode : Bool)
  | admitting (previousUnitWasDecode : Bool) (membership : List (Nat × Nat)) (control : Bool)
  | failing (error : Failure)
  | returned

/-- The end of an iteration of `worker_loop`, after an admission that ran nothing. -/
def decodeOrIdle (previousUnitWasDecode : Bool) (membership : List (Nat × Nat)) :
    Worker Label :=
  if membership.isEmpty then pure (.top previousUnitWasDecode)
  else do
    runDecodeRound membership
    pure (.top true)

/-- The `try` block of `worker_loop`, up to `try_admit_one`. -/
def iteration (o : Options) (previousUnitWasDecode : Bool) : Worker Label := do
  let havePending ← expirePendingRequests
  let cancelledAtBoundary ← snapshotCancellations o.maxConcurrency
  cancelActiveRequests o.maxConcurrency cancelledAtBoundary
  let membership ← buildRoundMembership o.maxConcurrency
  let prefillLane ← readState fun s => s.schedule.prefillLane
  if prefillLane.isSome then
    if membership ≠ [] ∧ previousUnitWasDecode = false then do
      runDecodeRound membership
      pure (.top true)
    else do
      runPrefillStep
      pure (.top false)
  else if havePending = true ∧ (membership = [] ∨ previousUnitWasDecode = true) then
    pure (.admitting previousUnitWasDecode membership false)
  else decodeOrIdle previousUnitWasDecode membership

/-- The `try` block of `worker_loop` at a turn of `try_admit_one`. -/
def admission (o : Options) (previousUnitWasDecode : Bool) (membership : List (Nat × Nat))
    (control : Bool) : Worker Label := do
  let next ← tryAdmitOnce o control
  match next with
  | .again control => pure (.admitting previousUnitWasDecode membership control)
  | .finished .ranGpuUnit => pure (.top false)
  | .finished progress =>
    if progress = .controlProgress ∧ membership = [] then pure (.top previousUnitWasDecode)
    else decodeOrIdle previousUnitWasDecode membership

/-- What the critical section at the top of `worker_loop` finds. -/
inductive Wakeup
  | blocked
  | stopping
  | ready

/-- The critical section at the top of `worker_loop`. -/
def wakeup (n : Nat) (s : State) : Wakeup :=
  if s.stopping then .stopping
  else if s.pending.isEmpty && (List.range n).all fun lane => (s.slots lane).isNone then .blocked
  else .ready

/-- The error of requests that are open when the engine is destroyed. -/
def shuttingDown : Failure := .request .unavailable "inference engine is shutting down"

/-- `worker_loop`. -/
def workerLoop (o : Options) : Label → Option (Worker Label)
  | .top previousUnitWasDecode => some do
    let status ← readState (wakeup o.maxConcurrency)
    match status with
    | .blocked => pure (.top previousUnitWasDecode)
    | .stopping => pure (.failing shuttingDown)
    | .ready => (iteration o previousUnitWasDecode).handle fun e => pure (.failing e)
  | .admitting previousUnitWasDecode membership control =>
    some ((admission o previousUnitWasDecode membership control).handle fun e => pure (.failing e))
  | .failing error => some do
    failAll o.maxConcurrency error
    pure .returned
  | .returned => none

end Ninfer.Executor
