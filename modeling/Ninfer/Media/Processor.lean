import Ninfer.Media.Actions

/-!
# Media preparation of requests

The media phase of `Processor::process`, for any number of requests over one cache. A request is a
sequential program: its phase is where it stands, and each of its transitions is one of its own
critical sections or goes on without one. The builder of a flight runs under the control and the
budget of the request that is its producer. What the builder computes is not modelled: how much of
the budget the media of a key takes is a parameter, and its code may throw at any point.

A failure that comes from the stop flag, the deadline or the budget of a request carries that
request. The source has the same text for every request; the number records where it comes from.

## Main definitions

* `Failure`, `Pending`, `Phase`, `Request`: a call of `process`
* `System`, `Event`, `Transition`: the requests, the cache and the gate, and their runs
* `System.fire`: the transitions as a function

## Main results

* `Transition.of_fire`: what the function does is a transition
* `System.run_transitions`: what a list of events leads to is reached by a run
-/

namespace Ninfer.Media

/-- What `process` throws. -/
inductive Failure
  /-- `RequestErrorKind::Cancelled`, from the client or the stop flag of a request. -/
  | cancelled (r : Nat)
  /-- `RequestErrorKind::QueueTimeout`, from the deadline of a request. -/
  | queueTimeout (r : Nat)
  /-- `ProcessorErrorKind::BudgetExceeded`, from the aggregate budget of a request. -/
  | budgetExceeded (r : Nat)
  /-- The media itself, the memory, or the pool. -/
  | other
  deriving DecidableEq, Repr

/-- The request a failure comes from. -/
def Failure.origin : Failure → Option Nat
  | .cancelled r => some r
  | .queueTimeout r => some r
  | .budgetExceeded r => some r
  | .other => none

/-- What `add_budget` adds up of the items that `enforce_media_resource_limits` reads. -/
structure Extent where
  rawPatches : Nat := 0
  visionTokens : Nat := 0
  deriving DecidableEq, Repr

def Extent.add (a b : Extent) : Extent :=
  ⟨a.rawPatches + b.rawPatches, a.visionTokens + b.visionTokens⟩

/-- The cache, the gate and the options of the processor, with the extent of the media of a key. -/
structure Settings (κ : Type) where
  limits : Limits
  maximum : Nat
  maxRawPatches : Nat
  maxVisionTokens : Nat
  extent : κ → Extent

variable {κ : Type}

/-- `enforce_media_resource_limits`. -/
def Settings.fits (cfg : Settings κ) (extent : Extent) : Bool :=
  extent.rawPatches ≤ cfg.maxRawPatches ∧ extent.visionTokens ≤ cfg.maxVisionTokens

/-- `PendingMedia`, by disposition. -/
inductive Pending (κ : Type)
  | hit (key : κ) (payload : Nat)
  | producer (key : κ) (f : Nat)
  | waiter (key : κ) (f : Nat)
  deriving DecidableEq, Repr

namespace Pending

def key : Pending κ → κ
  | .hit key _ => key
  | .producer key _ => key
  | .waiter key _ => key

def flight : Pending κ → Option Nat
  | .hit .. => none
  | .producer _ f => some f
  | .waiter _ f => some f

end Pending

/-- Where `process` stands. -/
inductive Phase (κ : Type)
  /-- Before `acquire_request` has returned. -/
  | arriving
  | rendering
  /-- At the top of the first loop. -/
  | starting (rest : List κ) (pending : List (Pending κ))
  /-- In `begin_prepare`, before its critical section. -/
  | entering (key : κ) (rest : List κ) (pending : List (Pending κ))
  /-- In `begin_prepare`, as the producer. -/
  | submitting (key : κ) (f : Nat) (rest : List κ) (pending : List (Pending κ))
  /-- In the first `await` of the second loop, or past the loop. -/
  | awaiting (pending : List (Pending κ))
  /-- In the second `await`, in the handler. -/
  | draining (item : Pending κ) (pending : List (Pending κ))
  /-- Past the media phase. -/
  | finishing
  | returned
  | threw (e : Failure)
  deriving DecidableEq, Repr

/-- The items that have been started and not been awaited. -/
def Phase.pending : Phase κ → List (Pending κ)
  | .starting _ pending => pending
  | .entering _ _ pending => pending
  | .submitting _ _ _ pending => pending
  | .awaiting pending => pending
  | .draining item pending => item :: pending
  | _ => []

/-- A call of `process`, with its control, its stop flag and its budget. The permit is `gate_`;
`acquired` and `released` count what it has done to the gate, and `claims` lists the flights whose
builders have claimed their extent. -/
structure Request (κ : Type) where
  parts : List κ
  phase : Phase κ := .arriving
  cancelled : Bool := false
  expired : Bool := false
  stop : Bool := false
  claims : List Nat := []
  claimed : Extent := {}
  accepted : Extent := {}
  error : Option Failure := none
  permit : Bool := false
  acquired : Nat := 0
  released : Nat := 0
  deriving DecidableEq, Repr

namespace Request

/-- What the thread of a request may throw by itself: what its control reports, or a failure that
is nobody's. -/
def mayThrow (req : Request κ) (r : Nat) : Failure → Bool
  | .cancelled q => q = r ∧ req.cancelled
  | .queueTimeout q => q = r ∧ req.expired
  | .budgetExceeded _ => false
  | .other => true

/-- What `worker_control` lets a builder, or `enqueue`, throw. -/
def workerMayThrow (req : Request κ) (r : Nat) : Failure → Bool
  | .cancelled q => q = r ∧ req.stop
  | .queueTimeout q => q = r ∧ req.expired
  | .budgetExceeded _ => false
  | .other => true

/-- `preparation_error` and `stop_preparation` are set. -/
def fail (req : Request κ) (e : Failure) : Request κ := { req with error := some e, stop := true }

/-- An item has been awaited with success, and its extent is added. -/
def accept (req : Request κ) (cfg : Settings κ) (r : Nat) (key : κ) : Request κ :=
  let accepted := req.accepted.add (cfg.extent key)
  if cfg.fits accepted then { req with accepted := accepted }
  else ({ req with accepted := accepted } : Request κ).fail (.budgetExceeded r)

/-- A builder claims the extent of its media. -/
def claim (req : Request κ) (cfg : Settings κ) (f : Nat) (key : κ) : Request κ :=
  { req with claims := f :: req.claims, claimed := req.claimed.add (cfg.extent key) }

end Request

/-- The requests and the cache, the producers of the flights, and the gate. -/
structure System (κ : Type) where
  cache : State κ Failure := {}
  requests : List (Request κ) := []
  producers : List Nat := []
  active : Nat := 0
  terminated : Bool := false
  deriving DecidableEq, Repr

namespace System

def setRequest (s : System κ) (r : Nat) (req : Request κ) : System κ :=
  { s with requests := s.requests.set r req }

/-- `MediaPreparationPermit::release`, for a request that goes on as given. -/
def release (s : System κ) (r : Nat) (req : Request κ) : System κ :=
  if req.permit then
    if s.active = 0 then { s with terminated := true }
    else ({ s with active := s.active - 1 } : System κ).setRequest r
      { req with permit := false, released := req.released + 1 }
  else s.setRequest r req

/-- What `await` finds without control: nothing while the flight is not done, or its error. -/
def outcome (s : System κ) (item : Pending κ) : Option (Option Failure) :=
  match item.flight with
  | none => some none
  | some f =>
    match s.cache.flights[f]? with
    | none => none
    | some flight => if flight.done then some flight.error else none

/-- A builder of a flight may throw what the control of its producer reports. -/
def builderMayThrow (s : System κ) (f : Nat) (e : Failure) : Bool :=
  match s.producers[f]? with
  | none => false
  | some r =>
    match s.requests[r]? with
    | none => false
    | some req => req.workerMayThrow r e

/-- The actions of tasks and builders, and of the holders of payloads. -/
def taskMay (s : System κ) : Action κ Failure → Bool
  | .threw f e => s.builderMayThrow f e
  | .checkThrew f e => s.builderMayThrow f e
  | .take _ | .returned _ _ | .returnedEmpty _ | .check _ | .retain _ | .mark _ | .erase _
  | .forget _ | .copy _ | .drop _ | .reserve _ | .evict | .construct _ | .abandon _ => true
  | _ => false

/-- The cache has changed. -/
def setCache (s : System κ) (cache : State κ Failure) : System κ := { s with cache := cache }

end System

/-- The transitions, by name. -/
inductive Event (κ : Type)
  | arrive (parts : List κ)
  | cancel (r : Nat)
  | expire (r : Nat)
  | reject (r : Nat) (e : Failure)
  | acquire (r : Nat)
  | render (r : Nat)
  | renderThrew (r : Nat)
  | start (r : Nat)
  | startThrew (r : Nat) (e : Failure)
  | hit (r : Nat)
  | join (r f : Nat)
  | produce (r : Nat)
  | submit (r : Nat)
  | refuse (r : Nat) (e : Failure)
  | unwind (r : Nat)
  | rethrow (r : Nat)
  | started (r : Nat)
  | awaitThrew (r : Nat) (e : Failure)
  | accept (r : Nat)
  | misaligned (r : Nat)
  | receive (r : Nat)
  | skip (r : Nat)
  | settle (r : Nat)
  | mismatch (r : Nat)
  | finish (r : Nat)
  | finishThrew (r : Nat) (e : Failure)
  | claim (f : Nat)
  | claimThrew (f : Nat)
  | task (a : Action κ Failure)
  deriving DecidableEq, Repr

section Transitions

variable [DecidableEq κ] (cfg : Settings κ)

/-- The transitions. A request may be cancelled and may expire at any time; a check that passes is
part of the transition after it. -/
inductive Transition (s : System κ) : Event κ → System κ → Prop
  | arrive (parts : List κ) :
      Transition s (.arrive parts) { s with requests := s.requests ++ [{ parts := parts }] }
  | cancel (r : Nat) (req : Request κ) (here : s.requests[r]? = some req) :
      Transition s (.cancel r) (s.setRequest r { req with cancelled := true })
  | expire (r : Nat) (req : Request κ) (here : s.requests[r]? = some req) :
      Transition s (.expire r) (s.setRequest r { req with expired := true })
  /-- The first check, `media_parts`, the encoded bytes, or the checks of `acquire_request`. -/
  | reject (r : Nat) (req : Request κ) (e : Failure) (here : s.requests[r]? = some req)
      (phase : req.phase = .arriving) (why : req.mayThrow r e ∨ e = .budgetExceeded r) :
      Transition s (.reject r e) (s.setRequest r { req with phase := .threw e })
  | acquire (r : Nat) (req : Request κ) (here : s.requests[r]? = some req)
      (phase : req.phase = .arriving) (free : s.active < cfg.maximum) :
      Transition s (.acquire r) (({ s with active := s.active + 1 } : System κ).setRequest r
        { req with phase := .rendering, permit := true, acquired := req.acquired + 1 })
  | render (r : Nat) (req : Request κ) (here : s.requests[r]? = some req)
      (phase : req.phase = .rendering) :
      Transition s (.render r) (s.setRequest r { req with phase := .starting req.parts [] })
  | renderThrew (r : Nat) (req : Request κ) (here : s.requests[r]? = some req)
      (phase : req.phase = .rendering) :
      Transition s (.renderThrew r) (s.release r { req with phase := .threw .other })
  /-- The checks before the critical section of `begin_prepare` pass, the last of them on
  `worker_control`. -/
  | start (r : Nat) (req : Request κ) (key : κ) (rest : List κ) (pending : List (Pending κ))
      (cache : State κ Failure) (here : s.requests[r]? = some req)
      (phase : req.phase = .starting (key :: rest) pending) (running : req.stop = false)
      (timely : req.expired = false) (act : s.cache.act cfg.limits (.enter key) = some cache) :
      Transition s (.start r)
        ((s.setCache cache).setRequest r { req with phase := .entering key rest pending })
  | startThrew (r : Nat) (req : Request κ) (e : Failure) (key : κ) (rest : List κ)
      (pending : List (Pending κ)) (here : s.requests[r]? = some req)
      (phase : req.phase = .starting (key :: rest) pending) (why : req.mayThrow r e) :
      Transition s (.startThrew r e)
        (s.setRequest r { req.fail e with phase := .awaiting pending })
  | hit (r : Nat) (req : Request κ) (key : κ) (rest : List κ) (pending : List (Pending κ))
      (entry : Entry) (cache : State κ Failure) (here : s.requests[r]? = some req)
      (phase : req.phase = .entering key rest pending)
      (found : s.cache.ready.lookup key = some entry)
      (act : s.cache.act cfg.limits (.hit key) = some cache) :
      Transition s (.hit r) ((s.setCache cache).setRequest r
        { req with phase := .starting rest (pending ++ [.hit key entry.payload]) })
  | join (r f : Nat) (req : Request κ) (key : κ) (rest : List κ) (pending : List (Pending κ))
      (cache : State κ Failure) (here : s.requests[r]? = some req)
      (phase : req.phase = .entering key rest pending)
      (act : s.cache.act cfg.limits (.join key f) = some cache) :
      Transition s (.join r f) ((s.setCache cache).setRequest r
        { req with phase := .starting rest (pending ++ [.waiter key f]) })
  | produce (r : Nat) (req : Request κ) (key : κ) (rest : List κ) (pending : List (Pending κ))
      (cache : State κ Failure) (here : s.requests[r]? = some req)
      (phase : req.phase = .entering key rest pending)
      (act : s.cache.act cfg.limits (.produce key) = some cache) :
      Transition s (.produce r)
        (({ s.setCache cache with producers := s.producers ++ [r] } : System κ).setRequest r
          { req with phase := .submitting key s.cache.flights.length rest pending })
  | submit (r : Nat) (req : Request κ) (key : κ) (f : Nat) (rest : List κ)
      (pending : List (Pending κ)) (cache : State κ Failure) (here : s.requests[r]? = some req)
      (phase : req.phase = .submitting key f rest pending)
      (act : s.cache.act cfg.limits (.enqueue f) = some cache) :
      Transition s (.submit r) ((s.setCache cache).setRequest r
        { req with phase := .starting rest (pending ++ [.producer key f]) })
  | refuse (r : Nat) (req : Request κ) (e : Failure) (key : κ) (f : Nat) (rest : List κ)
      (pending : List (Pending κ)) (cache : State κ Failure) (here : s.requests[r]? = some req)
      (phase : req.phase = .submitting key f rest pending) (why : req.workerMayThrow r e)
      (act : s.cache.act cfg.limits (.refuse f e) = some cache) :
      Transition s (.refuse r e) (s.setCache cache)
  | unwind (r : Nat) (req : Request κ) (key : κ) (f : Nat) (rest : List κ)
      (pending : List (Pending κ)) (cache : State κ Failure) (here : s.requests[r]? = some req)
      (phase : req.phase = .submitting key f rest pending)
      (act : s.cache.act cfg.limits (.unwind f) = some cache) :
      Transition s (.unwind r) (s.setCache cache)
  /-- The handler of `begin_prepare` rethrows, and so does the body of the first loop. -/
  | rethrow (r : Nat) (req : Request κ) (e : Failure) (key : κ) (f : Nat) (rest : List κ)
      (pending : List (Pending κ)) (cache : State κ Failure) (here : s.requests[r]? = some req)
      (phase : req.phase = .submitting key f rest pending)
      (act : s.cache.act cfg.limits (.eraseRefused f) = some cache)
      (thrown : s.outcome (.producer key f) = some (some e)) :
      Transition s (.rethrow r)
        ((s.setCache cache).setRequest r { req.fail e with phase := .awaiting pending })
  | started (r : Nat) (req : Request κ) (pending : List (Pending κ))
      (here : s.requests[r]? = some req) (phase : req.phase = .starting [] pending) :
      Transition s (.started r) (s.setRequest r { req with phase := .awaiting pending })
  | awaitThrew (r : Nat) (req : Request κ) (e : Failure) (item : Pending κ)
      (pending : List (Pending κ)) (here : s.requests[r]? = some req)
      (phase : req.phase = .awaiting (item :: pending)) (clear : req.error = none)
      (why : req.mayThrow r e) :
      Transition s (.awaitThrew r e)
        (s.setRequest r { req.fail e with phase := .draining item pending })
  | accept (r : Nat) (req : Request κ) (item : Pending κ) (pending : List (Pending κ))
      (cache : State κ Failure) (here : s.requests[r]? = some req)
      (phase : req.phase = .awaiting (item :: pending)) (clear : req.error = none)
      (ok : s.outcome item = some none)
      (act : (item.flight.elim (some s.cache) fun f => s.cache.act cfg.limits (.await f)) =
        some cache) :
      Transition s (.accept r) ((s.setCache cache).setRequest r
        { req.accept cfg r item.key with phase := .awaiting pending })
  /-- The payload is not row aligned. -/
  | misaligned (r : Nat) (req : Request κ) (item : Pending κ) (pending : List (Pending κ))
      (here : s.requests[r]? = some req) (phase : req.phase = .awaiting (item :: pending))
      (clear : req.error = none) (ok : s.outcome item = some none) :
      Transition s (.misaligned r)
        (s.setRequest r { req.fail .other with phase := .awaiting pending })
  /-- `await` rethrows the error of the flight. -/
  | receive (r : Nat) (req : Request κ) (e : Failure) (item : Pending κ)
      (pending : List (Pending κ)) (here : s.requests[r]? = some req)
      (phase : req.phase = .awaiting (item :: pending)) (clear : req.error = none)
      (thrown : s.outcome item = some (some e)) :
      Transition s (.receive r)
        (s.setRequest r { req.fail e with phase := .draining item pending })
  /-- `await` without control, in the handler or after a failure; what it finds is ignored. -/
  | skip (r : Nat) (req : Request κ) (item : Pending κ) (pending : List (Pending κ))
      (found : Option Failure) (here : s.requests[r]? = some req)
      (phase : req.phase = .draining item pending ∨
        req.phase = .awaiting (item :: pending) ∧ req.error ≠ none)
      (done : s.outcome item = some found) :
      Transition s (.skip r) (s.setRequest r { req with phase := .awaiting pending })
  | settle (r : Nat) (req : Request κ) (here : s.requests[r]? = some req)
      (phase : req.phase = .awaiting []) :
      Transition s (.settle r) (s.release r
        { req with phase := req.error.elim .finishing .threw })
  | mismatch (r : Nat) (req : Request κ) (here : s.requests[r]? = some req)
      (phase : req.phase = .awaiting []) (clear : req.error = none) :
      Transition s (.mismatch r) (s.release r { req with phase := .threw .other })
  | finish (r : Nat) (req : Request κ) (here : s.requests[r]? = some req)
      (phase : req.phase = .finishing) :
      Transition s (.finish r) (s.release r { req with phase := .returned })
  | finishThrew (r : Nat) (req : Request κ) (e : Failure) (here : s.requests[r]? = some req)
      (phase : req.phase = .finishing) (why : req.mayThrow r e ∨ e = .budgetExceeded r) :
      Transition s (.finishThrew r e) (s.release r { req with phase := .threw e })
  | claim (f r : Nat) (flight : Flight κ Failure) (req : Request κ)
      (building : s.cache.At f flight .building) (producer : s.producers[f]? = some r)
      (here : s.requests[r]? = some req) (first : f ∉ req.claims)
      (fits : cfg.fits (req.claim cfg f flight.key).claimed = true) :
      Transition s (.claim f) (s.setRequest r (req.claim cfg f flight.key))
  | claimThrew (f r : Nat) (flight : Flight κ Failure) (req : Request κ) (cache : State κ Failure)
      (building : s.cache.At f flight .building) (producer : s.producers[f]? = some r)
      (here : s.requests[r]? = some req) (first : f ∉ req.claims)
      (exceeds : cfg.fits (req.claim cfg f flight.key).claimed = false)
      (act : s.cache.act cfg.limits (.threw f (.budgetExceeded r)) = some cache) :
      Transition s (.claimThrew f) ((s.setCache cache).setRequest r (req.claim cfg f flight.key))
  | task (a : Action κ Failure) (cache : State κ Failure) (may : s.taskMay a = true)
      (act : s.cache.act cfg.limits a = some cache) : Transition s (.task a) (s.setCache cache)

/-- The runs. -/
def System.Reachable (s : System κ) : Prop :=
  Relation.ReflTransGen (fun s t => ∃ event, Transition cfg s event t) {} s

/-! ## Execution -/

/-- A transition of a request. -/
def System.onRequest (s : System κ) (r : Nat) (body : Request κ → Option (System κ)) :
    Option (System κ) :=
  match s.requests[r]? with
  | none => none
  | some req => body req

/-- A critical section of a request. -/
def System.acts (s : System κ) (a : Action κ Failure) (body : System κ → System κ) :
    Option (System κ) :=
  (s.cache.act cfg.limits a).map fun cache => body (s.setCache cache)

/-- The transition of an event, when it can be taken. -/
def System.fire (s : System κ) : Event κ → Option (System κ)
  | .arrive parts => some { s with requests := s.requests ++ [{ parts := parts }] }
  | .cancel r => s.onRequest r fun req => some (s.setRequest r { req with cancelled := true })
  | .expire r => s.onRequest r fun req => some (s.setRequest r { req with expired := true })
  | .reject r e => s.onRequest r fun req =>
    if req.phase = .arriving ∧ (req.mayThrow r e ∨ e = .budgetExceeded r) then
      some (s.setRequest r { req with phase := .threw e })
    else none
  | .acquire r => s.onRequest r fun req =>
    if req.phase = .arriving ∧ s.active < cfg.maximum then
      some (({ s with active := s.active + 1 } : System κ).setRequest r
        { req with phase := .rendering, permit := true, acquired := req.acquired + 1 })
    else none
  | .render r => s.onRequest r fun req =>
    if req.phase = .rendering then
      some (s.setRequest r { req with phase := .starting req.parts [] })
    else none
  | .renderThrew r => s.onRequest r fun req =>
    if req.phase = .rendering then some (s.release r { req with phase := .threw .other }) else none
  | .start r => s.onRequest r fun req =>
    match req.phase with
    | .starting (key :: rest) pending =>
      if req.stop = false ∧ req.expired = false then
        s.acts cfg (.enter key) fun s =>
          s.setRequest r { req with phase := .entering key rest pending }
      else none
    | _ => none
  | .startThrew r e => s.onRequest r fun req =>
    match req.phase with
    | .starting (_ :: _) pending =>
      if req.mayThrow r e then
        some (s.setRequest r { req.fail e with phase := .awaiting pending })
      else none
    | _ => none
  | .hit r => s.onRequest r fun req =>
    match req.phase with
    | .entering key rest pending =>
      (s.cache.ready.lookup key).bind fun entry => s.acts cfg (.hit key) fun s =>
        s.setRequest r { req with phase := .starting rest (pending ++ [.hit key entry.payload]) }
    | _ => none
  | .join r f => s.onRequest r fun req =>
    match req.phase with
    | .entering key rest pending => s.acts cfg (.join key f) fun s =>
      s.setRequest r { req with phase := .starting rest (pending ++ [.waiter key f]) }
    | _ => none
  | .produce r => s.onRequest r fun req =>
    match req.phase with
    | .entering key rest pending => s.acts cfg (.produce key) fun t =>
      ({ t with producers := t.producers ++ [r] } : System κ).setRequest r
        { req with phase := .submitting key s.cache.flights.length rest pending }
    | _ => none
  | .submit r => s.onRequest r fun req =>
    match req.phase with
    | .submitting key f rest pending => s.acts cfg (.enqueue f) fun s =>
      s.setRequest r { req with phase := .starting rest (pending ++ [.producer key f]) }
    | _ => none
  | .refuse r e => s.onRequest r fun req =>
    match req.phase with
    | .submitting _ f _ _ => if req.workerMayThrow r e then s.acts cfg (.refuse f e) id else none
    | _ => none
  | .unwind r => s.onRequest r fun req =>
    match req.phase with
    | .submitting _ f _ _ => s.acts cfg (.unwind f) id
    | _ => none
  | .rethrow r => s.onRequest r fun req =>
    match req.phase with
    | .submitting key f _ pending =>
      match s.outcome (.producer key f) with
      | some (some e) => s.acts cfg (.eraseRefused f) fun s =>
        s.setRequest r { req.fail e with phase := .awaiting pending }
      | _ => none
    | _ => none
  | .started r => s.onRequest r fun req =>
    match req.phase with
    | .starting [] pending => some (s.setRequest r { req with phase := .awaiting pending })
    | _ => none
  | .awaitThrew r e => s.onRequest r fun req =>
    match req.phase with
    | .awaiting (item :: pending) =>
      if req.error = none ∧ req.mayThrow r e then
        some (s.setRequest r { req.fail e with phase := .draining item pending })
      else none
    | _ => none
  | .accept r => s.onRequest r fun req =>
    match req.phase with
    | .awaiting (item :: pending) =>
      if req.error = none ∧ s.outcome item = some none then
        (item.flight.elim (some s.cache) fun f => s.cache.act cfg.limits (.await f)).map fun cache =>
          (s.setCache cache).setRequest r
            { req.accept cfg r item.key with phase := .awaiting pending }
      else none
    | _ => none
  | .misaligned r => s.onRequest r fun req =>
    match req.phase with
    | .awaiting (item :: pending) =>
      if req.error = none ∧ s.outcome item = some none then
        some (s.setRequest r { req.fail .other with phase := .awaiting pending })
      else none
    | _ => none
  | .receive r => s.onRequest r fun req =>
    match req.phase with
    | .awaiting (item :: pending) =>
      match s.outcome item with
      | some (some e) =>
        if req.error = none then
          some (s.setRequest r { req.fail e with phase := .draining item pending })
        else none
      | _ => none
    | _ => none
  | .skip r => s.onRequest r fun req =>
    match req.phase with
    | .draining item pending =>
      (s.outcome item).map fun _ => s.setRequest r { req with phase := .awaiting pending }
    | .awaiting (item :: pending) =>
      if req.error ≠ none then
        (s.outcome item).map fun _ => s.setRequest r { req with phase := .awaiting pending }
      else none
    | _ => none
  | .settle r => s.onRequest r fun req =>
    if req.phase = .awaiting [] then
      some (s.release r { req with phase := req.error.elim .finishing .threw })
    else none
  | .mismatch r => s.onRequest r fun req =>
    if req.phase = .awaiting [] ∧ req.error = none then
      some (s.release r { req with phase := .threw .other })
    else none
  | .finish r => s.onRequest r fun req =>
    if req.phase = .finishing then some (s.release r { req with phase := .returned }) else none
  | .finishThrew r e => s.onRequest r fun req =>
    if req.phase = .finishing ∧ (req.mayThrow r e ∨ e = .budgetExceeded r) then
      some (s.release r { req with phase := .threw e })
    else none
  | .claim f =>
    match s.cache.flights[f]?, s.producers[f]? with
    | some flight, some r => s.onRequest r fun req =>
      if flight.stage = .building ∧ f ∉ req.claims ∧
          cfg.fits (req.claim cfg f flight.key).claimed = true then
        some (s.setRequest r (req.claim cfg f flight.key))
      else none
    | _, _ => none
  | .claimThrew f =>
    match s.cache.flights[f]?, s.producers[f]? with
    | some flight, some r => s.onRequest r fun req =>
      if flight.stage = .building ∧ f ∉ req.claims ∧
          cfg.fits (req.claim cfg f flight.key).claimed = false then
        s.acts cfg (.threw f (.budgetExceeded r)) fun s =>
          s.setRequest r (req.claim cfg f flight.key)
      else none
    | _, _ => none
  | .task a => if s.taskMay a then s.acts cfg a id else none

variable {cfg} {s t : System κ}

omit [DecidableEq κ] in
theorem System.onRequest_eq_some {r : Nat} {body : Request κ → Option (System κ)} :
    s.onRequest r body = some t ↔ ∃ req, s.requests[r]? = some req ∧ body req = some t := by
  unfold System.onRequest
  cases s.requests[r]? with
  | none => exact iff_of_false nofun nofun
  | some req =>
    constructor
    · intro h
      exact ⟨req, rfl, h⟩
    · rintro ⟨_, ⟨⟩, h⟩
      exact h

theorem System.acts_eq_some {a : Action κ Failure} {body : System κ → System κ} :
    s.acts cfg a body = some t ↔
      ∃ cache, s.cache.act cfg.limits a = some cache ∧ body (s.setCache cache) = t :=
  Option.map_eq_some_iff

/-- **What the function does is a transition.** -/
theorem Transition.of_fire {event : Event κ} (h : s.fire cfg event = some t) :
    Transition cfg s event t := by
  -- One case per event: `fire` tests what the transition of that event asks for.
  cases event with
  | arrive parts =>
    cases h
    exact .arrive parts
  | cancel r =>
    obtain ⟨req, here, h⟩ := System.onRequest_eq_some.mp h
    cases h
    exact .cancel r req here
  | expire r =>
    obtain ⟨req, here, h⟩ := System.onRequest_eq_some.mp h
    cases h
    exact .expire r req here
  | reject r e =>
    obtain ⟨req, here, h⟩ := System.onRequest_eq_some.mp h
    obtain ⟨⟨phase, why⟩, h⟩ := Option.ite_none_right_eq_some.mp h
    cases h
    exact .reject r req e here phase why
  | acquire r =>
    obtain ⟨req, here, h⟩ := System.onRequest_eq_some.mp h
    obtain ⟨⟨phase, free⟩, h⟩ := Option.ite_none_right_eq_some.mp h
    cases h
    exact .acquire r req here phase free
  | render r =>
    obtain ⟨req, here, h⟩ := System.onRequest_eq_some.mp h
    obtain ⟨phase, h⟩ := Option.ite_none_right_eq_some.mp h
    cases h
    exact .render r req here phase
  | renderThrew r =>
    obtain ⟨req, here, h⟩ := System.onRequest_eq_some.mp h
    obtain ⟨phase, h⟩ := Option.ite_none_right_eq_some.mp h
    cases h
    exact .renderThrew r req here phase
  | start r =>
    obtain ⟨req, here, h⟩ := System.onRequest_eq_some.mp h
    split at h
    case h_2 => cases h
    case h_1 key rest pending phase =>
      obtain ⟨⟨running, timely⟩, h⟩ := Option.ite_none_right_eq_some.mp h
      obtain ⟨cache, act, rfl⟩ := System.acts_eq_some.mp h
      exact .start r req key rest pending cache here phase running timely act
  | startThrew r e =>
    obtain ⟨req, here, h⟩ := System.onRequest_eq_some.mp h
    split at h
    case h_2 => cases h
    case h_1 key rest pending phase =>
      obtain ⟨why, h⟩ := Option.ite_none_right_eq_some.mp h
      cases h
      exact .startThrew r req e key rest pending here phase why
  | hit r =>
    obtain ⟨req, here, h⟩ := System.onRequest_eq_some.mp h
    split at h
    case h_2 => cases h
    case h_1 key rest pending phase =>
      obtain ⟨entry, found, h⟩ := Option.bind_eq_some_iff.mp h
      obtain ⟨cache, act, rfl⟩ := System.acts_eq_some.mp h
      exact .hit r req key rest pending entry cache here phase found act
  | join r f =>
    obtain ⟨req, here, h⟩ := System.onRequest_eq_some.mp h
    split at h
    case h_2 => cases h
    case h_1 key rest pending phase =>
      obtain ⟨cache, act, rfl⟩ := System.acts_eq_some.mp h
      exact .join r f req key rest pending cache here phase act
  | produce r =>
    obtain ⟨req, here, h⟩ := System.onRequest_eq_some.mp h
    split at h
    case h_2 => cases h
    case h_1 key rest pending phase =>
      obtain ⟨cache, act, rfl⟩ := System.acts_eq_some.mp h
      exact .produce r req key rest pending cache here phase act
  | submit r =>
    obtain ⟨req, here, h⟩ := System.onRequest_eq_some.mp h
    split at h
    case h_2 => cases h
    case h_1 key f rest pending phase =>
      obtain ⟨cache, act, rfl⟩ := System.acts_eq_some.mp h
      exact .submit r req key f rest pending cache here phase act
  | refuse r e =>
    obtain ⟨req, here, h⟩ := System.onRequest_eq_some.mp h
    split at h
    case h_2 => cases h
    case h_1 key f rest pending phase =>
      obtain ⟨why, h⟩ := Option.ite_none_right_eq_some.mp h
      obtain ⟨cache, act, rfl⟩ := System.acts_eq_some.mp h
      exact .refuse r req e key f rest pending cache here phase why act
  | unwind r =>
    obtain ⟨req, here, h⟩ := System.onRequest_eq_some.mp h
    split at h
    case h_2 => cases h
    case h_1 key f rest pending phase =>
      obtain ⟨cache, act, rfl⟩ := System.acts_eq_some.mp h
      exact .unwind r req key f rest pending cache here phase act
  | rethrow r =>
    obtain ⟨req, here, h⟩ := System.onRequest_eq_some.mp h
    split at h
    case h_2 => cases h
    case h_1 key f rest pending phase =>
      split at h
      case h_2 => cases h
      case h_1 e thrown =>
        obtain ⟨cache, act, rfl⟩ := System.acts_eq_some.mp h
        exact .rethrow r req e key f rest pending cache here phase act thrown
  | started r =>
    obtain ⟨req, here, h⟩ := System.onRequest_eq_some.mp h
    split at h
    case h_2 => cases h
    case h_1 pending phase =>
      cases h
      exact .started r req pending here phase
  | awaitThrew r e =>
    obtain ⟨req, here, h⟩ := System.onRequest_eq_some.mp h
    split at h
    case h_2 => cases h
    case h_1 item pending phase =>
      obtain ⟨⟨clear, why⟩, h⟩ := Option.ite_none_right_eq_some.mp h
      cases h
      exact .awaitThrew r req e item pending here phase clear why
  | accept r =>
    obtain ⟨req, here, h⟩ := System.onRequest_eq_some.mp h
    split at h
    case h_2 => cases h
    case h_1 item pending phase =>
      obtain ⟨⟨clear, ok⟩, h⟩ := Option.ite_none_right_eq_some.mp h
      obtain ⟨cache, act, rfl⟩ := Option.map_eq_some_iff.mp h
      exact .accept r req item pending cache here phase clear ok act
  | misaligned r =>
    obtain ⟨req, here, h⟩ := System.onRequest_eq_some.mp h
    split at h
    case h_2 => cases h
    case h_1 item pending phase =>
      obtain ⟨⟨clear, ok⟩, h⟩ := Option.ite_none_right_eq_some.mp h
      cases h
      exact .misaligned r req item pending here phase clear ok
  | receive r =>
    obtain ⟨req, here, h⟩ := System.onRequest_eq_some.mp h
    split at h
    case h_2 => cases h
    case h_1 item pending phase =>
      split at h
      case h_2 => cases h
      case h_1 e thrown =>
        obtain ⟨clear, h⟩ := Option.ite_none_right_eq_some.mp h
        cases h
        exact .receive r req e item pending here phase clear thrown
  | skip r =>
    obtain ⟨req, here, h⟩ := System.onRequest_eq_some.mp h
    split at h
    case h_3 => cases h
    case h_1 item pending phase =>
      obtain ⟨found, done, rfl⟩ := Option.map_eq_some_iff.mp h
      exact .skip r req item pending found here (Or.inl phase) done
    case h_2 item pending phase =>
      obtain ⟨failed, h⟩ := Option.ite_none_right_eq_some.mp h
      obtain ⟨found, done, rfl⟩ := Option.map_eq_some_iff.mp h
      exact .skip r req item pending found here (Or.inr ⟨phase, failed⟩) done
  | settle r =>
    obtain ⟨req, here, h⟩ := System.onRequest_eq_some.mp h
    obtain ⟨phase, h⟩ := Option.ite_none_right_eq_some.mp h
    cases h
    exact .settle r req here phase
  | mismatch r =>
    obtain ⟨req, here, h⟩ := System.onRequest_eq_some.mp h
    obtain ⟨⟨phase, clear⟩, h⟩ := Option.ite_none_right_eq_some.mp h
    cases h
    exact .mismatch r req here phase clear
  | finish r =>
    obtain ⟨req, here, h⟩ := System.onRequest_eq_some.mp h
    obtain ⟨phase, h⟩ := Option.ite_none_right_eq_some.mp h
    cases h
    exact .finish r req here phase
  | finishThrew r e =>
    obtain ⟨req, here, h⟩ := System.onRequest_eq_some.mp h
    obtain ⟨⟨phase, why⟩, h⟩ := Option.ite_none_right_eq_some.mp h
    cases h
    exact .finishThrew r req e here phase why
  | claim f =>
    simp only [System.fire] at h
    split at h
    case h_2 => cases h
    case h_1 flight r hflight producer =>
      obtain ⟨req, here, h⟩ := System.onRequest_eq_some.mp h
      obtain ⟨⟨building, first, fits⟩, h⟩ := Option.ite_none_right_eq_some.mp h
      cases h
      exact .claim f r flight req ⟨hflight, building⟩ producer here first fits
  | claimThrew f =>
    simp only [System.fire] at h
    split at h
    case h_2 => cases h
    case h_1 flight r hflight producer =>
      obtain ⟨req, here, h⟩ := System.onRequest_eq_some.mp h
      obtain ⟨⟨building, first, exceeds⟩, h⟩ := Option.ite_none_right_eq_some.mp h
      obtain ⟨cache, act, rfl⟩ := System.acts_eq_some.mp h
      exact .claimThrew f r flight req cache ⟨hflight, building⟩ producer here first exceeds act
  | task a =>
    obtain ⟨may, h⟩ := Option.ite_none_right_eq_some.mp h
    obtain ⟨cache, act, rfl⟩ := System.acts_eq_some.mp h
    exact .task a cache may act

/-- Events in a row. -/
def System.run (cfg : Settings κ) : List (Event κ) → System κ → Option (System κ)
  | [], s => some s
  | event :: events, s => (s.fire cfg event).bind (System.run cfg events)

/-- What a list of events leads to is reached by a run. -/
theorem System.run_transitions {events : List (Event κ)} (h : System.run cfg events s = some t) :
    Relation.ReflTransGen (fun s t => ∃ event, Transition cfg s event t) s t := by
  induction events generalizing s with
  | nil =>
    cases h
    exact .refl
  | cons event events ih =>
    obtain ⟨u, hfire, hrun⟩ := Option.bind_eq_some_iff.mp h
    exact .head ⟨event, .of_fire hfire⟩ (ih hrun)

end Transitions

end Ninfer.Media
