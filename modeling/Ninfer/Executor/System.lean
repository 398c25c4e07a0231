import Ninfer.Executor.Loop

/-!
# The executor and its callers

The worker of `Ninfer.Executor.Loop` among the threads that submit requests and wait for them, and
the one that destroys the engine. Each step of these is one critical section or one atomic store of
`runtime/engine/concurrent_executor.h`. The steps of a consumer concern its own request only.

The 10 ms timeout of `wait_for` lets a waiter go around its loop at any time. The sink and the
cancellation callback are the caller's own code: each call of theirs may throw.

## Main definitions

* `ConsumerStep`: one step of the consumer of a request
* `CallerStep`: one step of a caller
* `ExecutorStep`, `Reachable`: the interleavings of the worker and its callers

## Main results

* `CallerStep.job`: the callers leave alone what belongs to the worker
-/

namespace Ninfer.Executor

/-! ## Consumers -/

namespace Request

/-- The request with its consumer at another place. -/
def moveTo (r : Request) (pc : ConsumerPc) : Request :=
  { r with consumer := { r.consumer with pc := pc } }

/-- What the waiter does with the next event: it is handed to the sink, or dropped when there is no
sink or the caller's code has thrown. -/
def deliver (r : Request) (event : OutputDelta) : Request :=
  { r with consumer := { r.consumer with
      delivered := if r.consumer.hasSink ∧ r.consumer.callerError = none then
          r.consumer.delivered ++ [event]
        else r.consumer.delivered } }

/-- The waiter catches an exception of the caller's code and cancels the request. -/
def callerThrows (r : Request) (sinkThrew : Bool) : Request :=
  { r with
    cancelled := true
    consumer := { r.consumer with
      callerError := some .callerCode
      sinkThrew := r.consumer.sinkThrew || sinkThrew } }

/-- The outcome of `wait`, read under the lock. -/
def waitOutcome (r : Request) : Option WaitOutcome :=
  match r.consumer.callerError with
  | some e => some (.rethrown e)
  | none =>
    match r.error with
    | some e => some (.rethrown e)
    | none => r.result.map .returned

/-- The critical section of `release_consumer`. -/
def releaseConsumer (r : Request) : Request :=
  if r.done && !r.capacityReleased then
    { r with consumerReleased := true, capacityReleased := true }.moveTo .releasing
  else { r with consumerReleased := true }.moveTo .gone

end Request

/-- One step of the consumer of an accepted request. -/
inductive ConsumerStep (r : Request) : Request → Prop
  /-- `abandon_request`: the submission is dropped without a `wait`. -/
  | abandon (hpc : r.consumer.pc = .holding) :
      ConsumerStep r ({ r with cancelled := true }.moveTo .leaving)
  /-- `wait` is called, with a sink or without. -/
  | wait (hasSink : Bool) (hpc : r.consumer.pc = .holding) :
      ConsumerStep r ({ r with consumer := { r.consumer with hasSink := hasSink } }.moveTo .waiting)
  /-- The critical section of the loop: the events are swapped out and `done` is read. -/
  | swap (hpc : r.consumer.pc = .waiting) :
      ConsumerStep r ({ r with events := [] }.moveTo (.publishing r.events r.done))
  /-- The loop over the swapped events, at one event. -/
  | publish {event : OutputDelta} {rest : List OutputDelta} {done : Bool}
      (hpc : r.consumer.pc = .publishing (event :: rest) done) :
      ConsumerStep r ((r.deliver event).moveTo (.publishing rest done))
  /-- The sink throws: the other events of the swap are dropped. -/
  | sinkThrows {event : OutputDelta} {rest : List OutputDelta} {done : Bool}
      (hpc : r.consumer.pc = .publishing (event :: rest) done)
      (hsink : r.consumer.hasSink = true) (hclean : r.consumer.callerError = none) :
      ConsumerStep r ((r.callerThrows true).moveTo (.polling done))
  /-- The loop over the swapped events ends. -/
  | published {done : Bool} (hpc : r.consumer.pc = .publishing [] done) :
      ConsumerStep r (r.moveTo (.polling done))
  /-- The cancellation callback answers, and the loop goes on or ends. -/
  | poll {done : Bool} (requested : Bool) (hpc : r.consumer.pc = .polling done) :
      ConsumerStep r
        ({ r with cancelled := r.cancelled || (requested && r.consumer.callerError.isNone) }.moveTo
          (if done then .finishing else .waiting))
  /-- The cancellation callback throws. -/
  | pollThrows {done : Bool} (hpc : r.consumer.pc = .polling done)
      (hclean : r.consumer.callerError = none) :
      ConsumerStep r ((r.callerThrows false).moveTo (if done then .finishing else .waiting))
  /-- `wait` returns the result or rethrows. -/
  | finish (hpc : r.consumer.pc = .finishing) :
      ConsumerStep r
        ({ r with consumer := { r.consumer with outcome := r.waitOutcome } }.moveTo .leaving)
  /-- The critical section of `release_consumer`. -/
  | releaseConsumer (hpc : r.consumer.pc = .leaving) : ConsumerStep r r.releaseConsumer

/-! ## Callers -/

namespace State

/-- The first critical section of `submit`. -/
def reserve (s : State) : State :=
  { (s.updateReq s.nextRequestId fun r => { r with phase := .reserved }) with
    outstanding := s.outstanding + 1
    nextRequestId := s.nextRequestId + 1 }

/-- The second critical section of `submit`, when the engine is available. -/
def enqueue (s : State) (id : Nat) : State :=
  { (s.updateReq id fun r => { r with phase := .accepted }) with pending := s.pending ++ [id] }

end State

/-- One step of a caller, in an engine with room for `maxOutstanding` requests. -/
inductive CallerStep (maxOutstanding : Nat) (s : State) : State → Prop
  /-- The first critical section of `submit`. -/
  | reserve (havailable : s.stopping = false ∧ s.failed = false)
      (hroom : s.outstanding < maxOutstanding) : CallerStep maxOutstanding s s.reserve
  /-- `make_output_session` throws. -/
  | sessionFails {id : Nat} (h : (s.reqs id).phase = .reserved) :
      CallerStep maxOutstanding s (s.updateReq id fun r => { r with phase := .failing })
  /-- `release_reserved_capacity` after that. -/
  | releaseReserved {id : Nat} (h : (s.reqs id).phase = .failing) :
      CallerStep maxOutstanding s ((s.updateReq id fun r => { r with phase := .failed }).giveBack id)
  /-- The second critical section of `submit`, the engine still available. -/
  | enqueue {id : Nat} (h : (s.reqs id).phase = .reserved)
      (havailable : s.stopping = false ∧ s.failed = false) :
      CallerStep maxOutstanding s (s.enqueue id)
  /-- The second critical section of `submit`, the engine no longer available. -/
  | refuse {id : Nat} (h : (s.reqs id).phase = .reserved)
      (hgone : s.stopping = true ∨ s.failed = true) :
      CallerStep maxOutstanding s ((s.updateReq id fun r => { r with phase := .failed }).giveBack id)
  /-- A step of the consumer of an accepted request. -/
  | consumer {id : Nat} {r : Request} (h : (s.reqs id).phase = .accepted)
      (hstep : ConsumerStep (s.reqs id) r) : CallerStep maxOutstanding s (s.setReq id r)
  /-- `release_reserved_capacity` after `release_consumer`. -/
  | releaseCapacity {id : Nat} (h : (s.reqs id).phase = .accepted)
      (hpc : (s.reqs id).consumer.pc = .releasing) :
      CallerStep maxOutstanding s ((s.updateReq id fun r => r.moveTo .gone).giveBack id)
  /-- The destructor of the engine stops it. -/
  | stop : CallerStep maxOutstanding s { s with stopping := true }

/-- The worker's place, and the state. -/
abbrev Config := Ctl State Oracle Failure Label × State

/-- One step of the worker or of a caller. -/
def ExecutorStep (o : Options) : Config → Config → Prop :=
  MachineStep (workerLoop o) (CallerStep o.maxOutstanding)

/-- The executor as constructed. -/
def Config.init : Config := (.label (.top false), {})

/-- The configurations of the runs. -/
def Reachable (o : Options) (c : Config) : Prop :=
  Relation.ReflTransGen (ExecutorStep o) Config.init c

/-! ## What belongs to the worker -/

namespace State

variable (s : State) (id : Nat) (r : Request)

@[simp] theorem setReq_reqs_self : (s.setReq id r).reqs id = r := Function.update_self ..

theorem setReq_reqs_of_ne {id' : Nat} (h : id' ≠ id) :
    (s.setReq id r).reqs id' = s.reqs id' :=
  Function.update_of_ne h ..

theorem setReq_proj {α : Type} (g : Request → α) (h : g r = g (s.reqs id)) (id' : Nat) :
    g ((s.setReq id r).reqs id') = g (s.reqs id') := by
  rcases eq_or_ne id' id with rfl | hne
  · rw [setReq_reqs_self, h]
  · rw [setReq_reqs_of_ne _ _ _ hne]

end State

theorem ConsumerStep.job {r r' : Request} (h : ConsumerStep r r') : r'.job = r.job := by
  cases h with
  | releaseConsumer =>
    unfold Request.releaseConsumer
    split <;> rfl
  | _ => rfl

variable {maxOutstanding : Nat} {s s' : State}

theorem State.giveBack_proj {α : Type} (g : Request → α)
    (hg : ∀ r n, g { r with unitsReturned := n } = g r) (id id' : Nat) :
    g ((s.giveBack id).reqs id') = g (s.reqs id') :=
  s.setReq_proj _ _ g (hg _ _) id'

theorem CallerStep.job (h : CallerStep maxOutstanding s s') (id : Nat) :
    (s'.reqs id).job = (s.reqs id).job := by
  have rejected : ∀ (f : Request → Request) (id' : Nat), (∀ r, (f r).job = r.job) →
      (((s.updateReq id' f).giveBack id').reqs id).job = (s.reqs id).job := by
    intro f id' hf
    rw [State.giveBack_proj (·.job) (fun _ _ => rfl)]
    exact s.setReq_proj _ _ (·.job) (hf _) id
  cases h with
  | reserve => exact s.setReq_proj s.nextRequestId _ (·.job) (by rfl) id
  | @sessionFails id' => exact s.setReq_proj id' _ (·.job) (by rfl) id
  | @enqueue id' => exact s.setReq_proj id' _ (·.job) (by rfl) id
  | consumer _ hstep => exact s.setReq_proj _ _ (·.job) hstep.job id
  | releaseReserved => exact rejected _ _ fun _ => rfl
  | refuse => exact rejected _ _ fun _ => rfl
  | releaseCapacity => exact rejected _ _ fun _ => rfl
  | stop => rfl

end Ninfer.Executor
