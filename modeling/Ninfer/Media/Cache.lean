import Mathlib

/-!
# The media cache

`media_cache.cpp` with the queue of `core/host_worker_pool.cpp`. Callers and worker threads share
the cache, the memory account, the flights and the queue; each of their critical sections is one
step, and the steps of any number of them may come in any order. Between its steps a call of
`begin_prepare` that has become the producer, and the task it has submitted, are the stage of their
flight.

A payload is a shared pointer. Its references are in the ready entries, in the task or the result of
a flight, and with callers and builders outside the cache; dropping the last one releases its bytes
in the same step. Memory for the containers of the cache itself is taken to be there.

The calls of `std::terminate` set a flag.

## Main definitions

* `Stage`, `Flight`: a flight with the producer and the task behind it
* `State`: the cache, the account, the flights, the queue and the references
* `State.evictOne`, `State.retain`: `evict_one_locked` and the publication of a built payload
* `Step`, `Reachable`: the critical sections, and the runs
-/

namespace Ninfer.Media

/-- The sizes the cache is constructed with. -/
structure Limits where
  capacityBytes : Nat
  liveBytes : Nat
  threads : Nat
  queueCapacity : Nat
  threads_pos : 0 < threads
  queueCapacity_pos : 0 < queueCapacity
  deriving Repr

/-- Where the producer of a flight, or its task, stands. -/
inductive Stage
  /-- The producer is in `enqueue`. -/
  | submitting
  /-- `submit` has thrown; the producer is in the handler. -/
  | refused
  /-- The task waits in the queue. -/
  | queued
  /-- A worker runs the builder. -/
  | building
  /-- The builder has returned. -/
  | built
  /-- The control has been checked, and the bytes of the payload are known. -/
  | checked
  /-- The task has left its `try` block. -/
  | settled
  /-- The task has set `done`. -/
  | marked
  /-- The handler of the producer has set `done`. -/
  | unwound
  /-- The key has been erased from `inflight`. -/
  | finished
  deriving DecidableEq, Repr

variable {κ ε : Type}

/-- `MediaCacheFlight` of a key. The payload is held by the task, and by the result once it is
done. -/
structure Flight (κ ε : Type) where
  key : κ
  stage : Stage := .submitting
  payload : Option Nat := none
  error : Option ε := none
  bytes : Nat := 0
  done : Bool := false
  deriving DecidableEq, Repr

/-- `Ready`. -/
structure Entry where
  payload : Nat
  bytes : Nat
  deriving DecidableEq, Repr

/-- `State` and `MemoryAccount`, with the flights, the queue of the workers, and what callers are
in the middle of: the calls of `begin_prepare` before their critical section, the reservations of
`allocate_payload`, and the references outside the cache. The list of payloads has their bytes, and
`passed` counts the calls of `begin_prepare` past the control check. -/
structure State (κ ε : Type) where
  lru : List κ := []
  ready : List (κ × Entry) := []
  inflight : List (κ × Nat) := []
  retainedBytes : Nat := 0
  hits : Nat := 0
  misses : Nat := 0
  singleflightWaits : Nat := 0
  evictions : Nat := 0
  oversizeBypasses : Nat := 0
  live : Nat := 0
  flights : List (Flight κ ε) := []
  queue : List Nat := []
  entering : List κ := []
  reservations : List Nat := []
  payloads : List Nat := []
  held : List Nat := []
  passed : Nat := 0
  terminated : Bool := false
  deriving DecidableEq, Repr

namespace State

/-- The references to payloads. -/
def refs (s : State κ ε) : List Nat :=
  s.ready.map (fun entry => entry.2.payload) ++ s.flights.filterMap (fun flight => flight.payload) ++
    s.held

/-- The bytes of a payload. -/
def bytesOf (s : State κ ε) (payload : Nat) : Nat := s.payloads.getD payload 0

/-- The tasks the workers run. -/
def active (s : State κ ε) : Nat :=
  s.flights.countP fun flight =>
    flight.stage ∈ [Stage.building, .built, .checked, .settled, .marked]

/-- `MemoryAccount::release`. -/
def release (s : State κ ε) (bytes : Nat) : State κ ε :=
  if s.live < bytes then { s with terminated := true } else { s with live := s.live - bytes }

/-- A reference to a payload has been dropped. -/
def unref (s : State κ ε) (payload : Nat) : State κ ε :=
  if payload ∈ s.refs then s else s.release (s.bytesOf payload)

section Cache

variable [DecidableEq κ]

/-- The entry that is least recently used leaves the cache. -/
def removeEntry (s : State κ ε) (key : κ) (entry : Entry) : State κ ε :=
  { s with
    retainedBytes := s.retainedBytes - entry.bytes
    lru := s.lru.dropLast
    ready := s.ready.filter fun e => e.1 ≠ key
    evictions := s.evictions + 1 }

/-- `evict_one_locked`. -/
def evictOne (s : State κ ε) : Bool × State κ ε :=
  match s.lru.getLast? with
  | none => (false, s)
  | some key =>
    match s.ready.lookup key with
    | none => (true, { s with terminated := true })
    | some entry =>
      if s.retainedBytes < entry.bytes then (true, { s with terminated := true })
      else (true, (s.removeEntry key entry).unref entry.payload)

/-- The eviction loop of a task; an eviction shortens the list, which bounds their number. -/
def makeRoom (capacity bytes : Nat) : Nat → State κ ε → State κ ε
  | 0, s => s
  | n + 1, s =>
    if capacity - bytes < s.retainedBytes then
      if s.evictOne.1 then makeRoom capacity bytes n s.evictOne.2 else s
    else s

/-- `emplace`, which leaves an entry alone. -/
def emplace (ready : List (κ × Entry)) (key : κ) (entry : Entry) : List (κ × Entry) :=
  if (ready.lookup key).isSome then ready else (key, entry) :: ready

/-- A payload enters the cache. -/
def publish (s : State κ ε) (key : κ) (entry : Entry) : State κ ε :=
  { s with
    lru := key :: s.lru
    ready := emplace s.ready key entry
    retainedBytes := s.retainedBytes + entry.bytes }

/-- The critical section of a task with a built payload. -/
def retain (s : State κ ε) (capacity : Nat) (key : κ) (entry : Entry) : State κ ε :=
  if entry.bytes ≤ capacity then
    let room := s.makeRoom capacity entry.bytes s.lru.length
    if room.retainedBytes ≤ capacity - entry.bytes then room.publish key entry
    else { room with oversizeBypasses := room.oversizeBypasses + 1 }
  else { s with oversizeBypasses := s.oversizeBypasses + 1 }

/-! ## Calls -/

/-- A call of `begin_prepare` passes the control check. -/
def enter (s : State κ ε) (key : κ) : State κ ε :=
  { s with entering := key :: s.entering, passed := s.passed + 1 }

/-- The critical section of `begin_prepare`, for a key that is ready. -/
def hit (s : State κ ε) (key : κ) (entry : Entry) : State κ ε :=
  { s with
    entering := s.entering.erase key
    lru := key :: s.lru.erase key
    hits := s.hits + 1
    held := entry.payload :: s.held }

/-- The critical section of `begin_prepare`, for a key in flight. -/
def join (s : State κ ε) (key : κ) : State κ ε :=
  { s with entering := s.entering.erase key, singleflightWaits := s.singleflightWaits + 1 }

/-- The critical section of `begin_prepare`, for the producer. -/
def produce (s : State κ ε) (key : κ) : State κ ε :=
  { s with
    entering := s.entering.erase key
    flights := s.flights ++ [{ key := key }]
    inflight := (key, s.flights.length) :: s.inflight
    misses := s.misses + 1 }

/-- `inflight.erase`. -/
def eraseInflight (s : State κ ε) (key : κ) : State κ ε :=
  { s with inflight := s.inflight.filter fun e => e.1 ≠ key }

end Cache

/-- A flight has changed. -/
def setFlight (s : State κ ε) (f : Nat) (flight : Flight κ ε) : State κ ε :=
  { s with flights := s.flights.set f flight }

/-- A reference outside the cache. -/
def hold (s : State κ ε) (payload : Nat) : State κ ε := { s with held := payload :: s.held }

/-- A reference outside the cache is given away or dropped. -/
def unhold (s : State κ ε) (payload : Nat) : State κ ε := { s with held := s.held.erase payload }

/-- `try_reserve`, which succeeds. -/
def reserve (s : State κ ε) (bytes : Nat) : State κ ε :=
  { s with live := s.live + bytes, reservations := bytes :: s.reservations }

/-- A payload of reserved bytes has been constructed. -/
def construct (s : State κ ε) (bytes : Nat) : State κ ε :=
  { s with
    reservations := s.reservations.erase bytes
    payloads := s.payloads ++ [bytes]
    held := s.payloads.length :: s.held }

/-- A payload of reserved bytes could not be constructed. -/
def abandon (s : State κ ε) (bytes : Nat) : State κ ε :=
  ({ s with reservations := s.reservations.erase bytes } : State κ ε).release bytes

end State

/-- A flight at a stage. -/
def State.At (s : State κ ε) (f : Nat) (flight : Flight κ ε) (stage : Stage) : Prop :=
  s.flights[f]? = some flight ∧ flight.stage = stage

section Steps

variable [DecidableEq κ] (limits : Limits)

/-- The critical sections. A builder is any code of a caller that runs on a worker. -/
inductive Step (s : State κ ε) : State κ ε → Prop
  | enter (key : κ) : Step s (s.enter key)
  | hit (key : κ) (entry : Entry) (call : key ∈ s.entering)
      (found : s.ready.lookup key = some entry) : Step s (s.hit key entry)
  | join (key : κ) (f : Nat) (call : key ∈ s.entering) (missing : s.ready.lookup key = none)
      (found : s.inflight.lookup key = some f) : Step s (s.join key)
  | produce (key : κ) (call : key ∈ s.entering) (missing : s.ready.lookup key = none)
      (first : s.inflight.lookup key = none) : Step s (s.produce key)
  /-- `enqueue` finds space. -/
  | enqueue (f : Nat) (flight : Flight κ ε) (here : s.At f flight .submitting)
      (space : s.queue.length < limits.queueCapacity) :
      Step s (({ s with queue := s.queue ++ [f] } : State κ ε).setFlight f
        { flight with stage := .queued })
  /-- The checkpoint of `enqueue` throws, or the pool is stopping. -/
  | refuse (f : Nat) (flight : Flight κ ε) (e : ε) (here : s.At f flight .submitting) :
      Step s (s.setFlight f { flight with stage := .refused, error := some e })
  /-- The handler of the producer marks the flight. -/
  | unwind (f : Nat) (flight : Flight κ ε) (here : s.At f flight .refused) :
      Step s (s.setFlight f { flight with stage := .unwound, done := true })
  /-- A worker that is free takes the first task. -/
  | take (f : Nat) (flight : Flight κ ε) (rest : List Nat) (here : s.At f flight .queued)
      (first : s.queue = f :: rest) (free : s.active < limits.threads) :
      Step s (({ s with queue := rest } : State κ ε).setFlight f
        { flight with stage := .building })
  | returned (f : Nat) (flight : Flight κ ε) (payload : Nat) (here : s.At f flight .building)
      (owned : payload ∈ s.held) :
      Step s ((s.unhold payload).setFlight f
        { flight with stage := .built, payload := some payload })
  | returnedEmpty (f : Nat) (flight : Flight κ ε) (here : s.At f flight .building) :
      Step s (s.setFlight f { flight with stage := .built })
  | threw (f : Nat) (flight : Flight κ ε) (e : ε) (here : s.At f flight .building) :
      Step s (s.setFlight f { flight with stage := .settled, error := some e })
  | check (f : Nat) (flight : Flight κ ε) (payload : Nat) (here : s.At f flight .built)
      (filled : flight.payload = some payload) :
      Step s (s.setFlight f { flight with stage := .checked, bytes := s.bytesOf payload })
  /-- The control reports after the builder, or there is no payload. -/
  | checkThrew (f : Nat) (flight : Flight κ ε) (e : ε) (here : s.At f flight .built) :
      Step s (s.setFlight f { flight with stage := .settled, error := some e })
  | retain (f : Nat) (flight : Flight κ ε) (payload : Nat) (here : s.At f flight .checked)
      (filled : flight.payload = some payload) :
      Step s ((s.retain limits.capacityBytes flight.key ⟨payload, flight.bytes⟩).setFlight f
        { flight with stage := .settled })
  /-- The task marks the flight. -/
  | mark (f : Nat) (flight : Flight κ ε) (here : s.At f flight .settled) :
      Step s (s.setFlight f { flight with stage := .marked, done := true })
  | erase (f : Nat) (flight : Flight κ ε) (here : s.At f flight .marked ∨ s.At f flight .unwound) :
      Step s ((s.eraseInflight flight.key).setFlight f { flight with stage := .finished })
  /-- `await` copies the result. -/
  | await (f : Nat) (flight : Flight κ ε) (payload : Nat) (here : s.flights[f]? = some flight)
      (done : flight.done = true) (ok : flight.error = none)
      (result : flight.payload = some payload) : Step s (s.hold payload)
  /-- The last reference to a flight is dropped. -/
  | forget (f : Nat) (flight : Flight κ ε) (payload : Nat) (here : s.At f flight .finished)
      (result : flight.payload = some payload) :
      Step s ((s.setFlight f { flight with payload := none }).unref payload)
  | copy (payload : Nat) (owned : payload ∈ s.held) : Step s (s.hold payload)
  | drop (payload : Nat) (owned : payload ∈ s.held) : Step s ((s.unhold payload).unref payload)
  | reserve (bytes : Nat) (small : bytes ≤ limits.liveBytes)
      (fits : s.live ≤ limits.liveBytes - bytes) : Step s (s.reserve bytes)
  /-- `allocate_payload` evicts when its reservation fails. -/
  | evict : Step s s.evictOne.2
  | construct (bytes : Nat) (reserved : bytes ∈ s.reservations) : Step s (s.construct bytes)
  | abandon (bytes : Nat) (reserved : bytes ∈ s.reservations) : Step s (s.abandon bytes)

/-- The states of the runs. -/
def Reachable (s : State κ ε) : Prop := Relation.ReflTransGen (Step limits) {} s

end Steps

end Ninfer.Media
