import Ninfer.Commons.Call
import Ninfer.Executor.Admission

/-!
# The state of the executor

`runtime/engine/concurrent_executor.h`: the queue of accepted requests, the slots of the running
ones, and the request objects. Requests are shared objects, so they live in a store by their
`request_id`, and `pending_` and `slots_` hold ids. A request is split by owner: its `Job` is the
part only the worker touches, the rest is shared with the caller that waits for it.

The threads that are not the worker are small: the caller that submits a request and the consumer
that waits for it each have a place in the request, which says where they stand. Five fields are
not in the source and are read by no modelled function: `published`, `delivered`, `unitsReturned`,
`admitted` and `gpuUnits` record what has happened.

Left out: prompts, timings and statistics, on which no step depends.

## Main definitions

* `OutputSession`, `GenerationBudget`, `RequestPlanSummary`: the parts of a request
* `Job`, `Request`, `Consumer`: a request and its consumer
* `RequestMemory`: the transient region of the request that is prefilled
* `State`: the executor
-/

namespace Ninfer.Executor

abbrev TokenId := Nat

/-- `RequestErrorKind`, as far as the executor raises it. -/
inductive RequestErrorKind
  | queueTimeout
  | unavailable
  | overloaded
  | contextLengthExceeded
  deriving DecidableEq, Repr

/-- The exceptions of the engine: standard ones, `RequestError`, and those of callers' own code. -/
inductive Failure
  | std (e : Exception)
  | request (kind : RequestErrorKind) (what : String)
  | callerCode
  deriving DecidableEq, Repr

inductive OutputChannel
  | content
  | reasoning
  deriving DecidableEq, Repr

structure OutputDelta where
  channel : OutputChannel := .content
  text : String := ""
  deriving DecidableEq, Repr

/-- The texts of one channel, concatenated. -/
def channelText (channel : OutputChannel) (deltas : List OutputDelta) : String :=
  String.join ((deltas.filter (·.channel = channel)).map (·.text))

inductive FinishReason
  | none
  | outputLimit
  | contextCapacity
  | stopToken
  | stopString
  | cancelled
  deriving DecidableEq, Repr

structure OutputDecision where
  acceptedTokens : Nat := 0
  finishReason : FinishReason := .none
  deriving DecidableEq, Repr

/-- `OutputDecision::finished`. -/
def OutputDecision.finished (d : OutputDecision) : Bool := d.finishReason ≠ .none

/-- `OutputSession`, without the text decoder behind it. `unused` says that the decoder has not
been fed, so that it holds no text. -/
structure OutputSession where
  unused : Bool := true
  terminal : Bool := false
  previewReady : Bool := false
  previewTerminal : Bool := false
  previewOutput : List OutputDelta := []
  deriving DecidableEq, Repr

structure GenerationBudget where
  remaining : Nat
  limitReason : FinishReason
  deriving DecidableEq, Repr

/-- `RequestPlanSummary`, which is what the executor reads of a base plan and of a lane plan. -/
structure RequestPlanSummary where
  promptTokens : Nat := 0
  reusablePromptTokens : Nat := 0
  requestedOutputTokens : Nat := 0
  effectiveOutputTokens : Nat := 0
  effectiveLimitReason : FinishReason := .none
  transientBytes : Nat := 0
  transientAlignment : Nat := 1
  admission : AdmissionResources := {}
  serviceWorkQuanta : Nat := 0
  deriving DecidableEq, Repr

/-- `PrefillStepResult`, with its round as the list of its tokens. -/
structure PrefillStepResult where
  tokens : List TokenId := []
  complete : Bool := false
  deriving DecidableEq, Repr

structure BatchedGeneratedRound where
  tokens : List TokenId := []
  rowCounts : List Int := []
  rowStride : Nat := 1
  deriving DecidableEq, Repr

structure GenerationResult where
  generatedTokenIds : List TokenId := []
  content : String := ""
  reasoning : String := ""
  finishReason : FinishReason := .none
  deriving DecidableEq, Repr

/-! ## Requests -/

/-- Where the `submit` call of a request stands. -/
inductive SubmitPhase
  /-- No call has taken this id. -/
  | idle
  /-- Between the two critical sections. -/
  | reserved
  /-- `make_output_session` has thrown, and `release_reserved_capacity` has not run yet. -/
  | failing
  /-- The call has thrown. -/
  | failed
  /-- The request is in the queue, or has been. -/
  | accepted
  deriving DecidableEq, Repr

/-- Where the consumer of an accepted request stands. -/
inductive ConsumerPc
  /-- Holds the `Submission`. -/
  | holding
  /-- At the top of the loop of `wait_for_request`. -/
  | waiting
  /-- In the loop over the swapped events. -/
  | publishing (events : List OutputDelta) (done : Bool)
  /-- Before the cancellation check. -/
  | polling (done : Bool)
  /-- The loop has ended, and the outcome is read. -/
  | finishing
  /-- The loop has ended or the submission was dropped: `release_consumer` is due. -/
  | leaving
  /-- `release_consumer` has taken the unit, and `release_reserved_capacity` is due. -/
  | releasing
  | gone
  deriving DecidableEq, Repr

/-- What a call of `wait` has come to. -/
inductive WaitOutcome
  | returned (result : GenerationResult)
  | rethrown (e : Failure)
  deriving DecidableEq, Repr

/-- The consumer thread: the locals of `wait_for_request`, what it has handed to the sink, and the
outcome of `wait`. -/
structure Consumer where
  pc : ConsumerPc := .holding
  hasSink : Bool := false
  callerError : Option Failure := none
  sinkThrew : Bool := false
  delivered : List OutputDelta := []
  outcome : Option WaitOutcome := none
  deriving DecidableEq, Repr

/-- The fields of `Request` that only the worker reads and writes. `admitted` is the plan with which
the request was given its lane. -/
structure Job where
  output : OutputSession := {}
  budget : Option GenerationBudget := none
  generated : List TokenId := []
  lane : Option Nat := none
  decodeReady : Bool := false
  basePlan : Option RequestPlanSummary := none
  lanePlans : Nat → Option RequestPlanSummary := fun _ => none
  lanePlanVersions : Nat → Nat := fun _ => 0
  admissionResources : AdmissionResources := {}
  remainingServiceWork : Nat := 0
  backfillEpoch : Nat := 0
  backfillClass : BackfillClass := .none
  admitted : Option RequestPlanSummary := none

/-- `Request`, with the two threads of its caller. `published` lists every delta that was ever
appended, `unitsReturned` counts the decrements of `outstanding_` made for this request. -/
structure Request where
  phase : SubmitPhase := .idle
  consumer : Consumer := {}
  job : Job := {}
  content : String := ""
  reasoning : String := ""
  cancelled : Bool := false
  events : List OutputDelta := []
  result : Option GenerationResult := none
  error : Option Failure := none
  done : Bool := false
  consumerReleased : Bool := false
  capacityReleased : Bool := false
  published : List OutputDelta := []
  unitsReturned : Nat := 0

/-- `RequestMemory`: the part of its allocation that is active. -/
structure RequestMemory where
  activeBytes : Nat := 0
  activeAlignment : Nat := 1
  deriving DecidableEq, Repr

/-- `RequestMemory::deactivate`. -/
def RequestMemory.deactivate (_ : RequestMemory) : RequestMemory := {}

/-- `RequestMemory::activate` behind its checks, which are those of an oracle here. -/
def RequestMemory.activate (memory : RequestMemory) (bytes alignment : Nat) : RequestMemory :=
  if bytes = 0 then memory.deactivate else ⟨bytes, alignment⟩

/-- The scheduling state that only the worker reads and writes. `gpuUnits` counts the calls of the
target that run a unit on the GPU. -/
structure Schedule where
  prefillLane : Option Nat := none
  requestMemory : RequestMemory := {}
  gpuUnits : Nat := 0
  lanePlanVersions : Nat → Nat := fun _ => 0
  protection : Option AdmissionProtection := none
  nextProtectionEpoch : Nat := 1

/-- The executor. `underflowed` records a decrement of `outstanding_` that found it at zero. -/
structure State where
  pending : List Nat := []
  outstanding : Nat := 0
  nextRequestId : Nat := 1
  stopping : Bool := false
  failed : Bool := false
  slots : Nat → Option Nat := fun _ => none
  schedule : Schedule := {}
  reqs : Nat → Request := fun _ => {}
  underflowed : Bool := false

/-- The options of the engine that the executor reads, with the checks of its constructor. -/
structure Options where
  maxConcurrency : Nat
  maxPendingRequests : Nat
  admissionCapacity : AdmissionResources
  maxConcurrency_pos : 0 < maxConcurrency
  maxConcurrency_le : maxConcurrency ≤ kMaximumConcurrency
  maxPendingRequests_pos : 0 < maxPendingRequests

/-- `max_outstanding_`. -/
def Options.maxOutstanding (o : Options) : Nat := o.maxConcurrency + o.maxPendingRequests

namespace State

/-- The state with one request replaced. -/
def setReq (s : State) (id : Nat) (r : Request) : State :=
  { s with reqs := Function.update s.reqs id r }

/-- The state with one request changed. -/
def updateReq (s : State) (id : Nat) (f : Request → Request) : State :=
  s.setReq id (f (s.reqs id))

/-- The state with the worker's part of one request changed. -/
def updateJob (s : State) (id : Nat) (f : Job → Job) : State :=
  s.updateReq id fun r => { r with job := f r.job }

/-- The state with the slot of one lane changed. -/
def setSlot (s : State) (lane : Nat) (slot : Option Nat) : State :=
  { s with slots := Function.update s.slots lane slot }

/-- `invalidate_lane_plans`. -/
def invalidateLanePlans (s : State) (lane : Nat) : State :=
  { s with schedule := { s.schedule with
      lanePlanVersions := Function.update s.schedule.lanePlanVersions lane
        (s.schedule.lanePlanVersions lane + 1) } }

/-- The decrement of `release_reserved_capacity`, which is also that of the second critical section
of `submit`, made for the request `id`. -/
def giveBack (s : State) (id : Nat) : State :=
  { (s.updateReq id fun r => { r with unitsReturned := r.unitsReturned + 1 }) with
    outstanding := if s.outstanding ≠ 0 then s.outstanding - 1 else s.outstanding
    underflowed := s.underflowed || s.outstanding == 0 }

end State

end Ninfer.Executor
