import Ninfer.Media.Runs

/-!
# The critical sections as functions

An action names a critical section and what it does not read off the state. The cache takes an
action or refuses it, and an action it takes is a step of its runs.

## Main definitions

* `Action`, `State.act`: the actions, and their effect
* `FlightChange`: what an action does to the flights

## Main results

* `Step.of_act`: an action the cache takes is a step
* `act_flights`: an action does one thing to the flights, and throws what it says
-/

namespace Ninfer.Media

variable {κ ε : Type}

/-- The critical sections, by name. The key of a flight is erased by its task, or by the handler of
its producer. -/
inductive Action (κ ε : Type)
  | enter (key : κ)
  | hit (key : κ)
  | join (key : κ) (f : Nat)
  | produce (key : κ)
  | enqueue (f : Nat)
  | refuse (f : Nat) (e : ε)
  | unwind (f : Nat)
  | take (f : Nat)
  | returned (f : Nat) (payload : Nat)
  | returnedEmpty (f : Nat)
  | threw (f : Nat) (e : ε)
  | check (f : Nat)
  | checkThrew (f : Nat) (e : ε)
  | retain (f : Nat)
  | mark (f : Nat)
  | erase (f : Nat)
  | eraseRefused (f : Nat)
  | await (f : Nat)
  | forget (f : Nat)
  | copy (payload : Nat)
  | drop (payload : Nat)
  | reserve (bytes : Nat)
  | evict
  | construct (bytes : Nat)
  | abandon (bytes : Nat)
  deriving DecidableEq, Repr

namespace State

/-- A critical section of a flight that stands at a stage. -/
def onFlight (s : State κ ε) (f : Nat) (stage : Stage)
    (section' : Flight κ ε → Option (State κ ε)) : Option (State κ ε) :=
  match s.flights[f]? with
  | none => none
  | some flight => if flight.stage = stage then section' flight else none

theorem onFlight_eq_some {s t : State κ ε} {f : Nat} {stage : Stage}
    {section' : Flight κ ε → Option (State κ ε)} :
    s.onFlight f stage section' = some t ↔
      ∃ flight, s.At f flight stage ∧ section' flight = some t := by
  unfold onFlight State.At
  cases s.flights[f]? with
  | none => exact iff_of_false nofun nofun
  | some flight =>
    dsimp only
    constructor
    · intro h
      split_ifs at h with hstage
      exact ⟨flight, ⟨rfl, hstage⟩, h⟩
    · rintro ⟨_, ⟨⟨⟩, hstage⟩, h⟩
      rw [if_pos hstage, h]

variable [DecidableEq κ]

/-- The effect of an action, when the cache can take it. -/
def act (limits : Limits) (s : State κ ε) : Action κ ε → Option (State κ ε)
  | .enter key => some (s.enter key)
  | .hit key =>
    if key ∈ s.entering then (s.ready.lookup key).map fun entry => s.hit key entry else none
  | .join key f =>
    if key ∈ s.entering ∧ s.ready.lookup key = none ∧ s.inflight.lookup key = some f then
      some (s.join key)
    else none
  | .produce key =>
    if key ∈ s.entering ∧ s.ready.lookup key = none ∧ s.inflight.lookup key = none then
      some (s.produce key)
    else none
  | .enqueue f => s.onFlight f .submitting fun flight =>
    if s.queue.length < limits.queueCapacity then
      some (({ s with queue := s.queue ++ [f] } : State κ ε).setFlight f
        { flight with stage := .queued })
    else none
  | .refuse f e => s.onFlight f .submitting fun flight =>
    some (s.setFlight f { flight with stage := .refused, error := some e })
  | .unwind f => s.onFlight f .refused fun flight =>
    some (s.setFlight f { flight with stage := .unwound, done := true })
  | .take f => s.onFlight f .queued fun flight =>
    if s.queue.head? = some f ∧ s.active < limits.threads then
      some (({ s with queue := s.queue.tail } : State κ ε).setFlight f
        { flight with stage := .building })
    else none
  | .returned f payload => s.onFlight f .building fun flight =>
    if payload ∈ s.held then
      some ((s.unhold payload).setFlight f
        { flight with stage := .built, payload := some payload })
    else none
  | .returnedEmpty f => s.onFlight f .building fun flight =>
    some (s.setFlight f { flight with stage := .built })
  | .threw f e => s.onFlight f .building fun flight =>
    some (s.setFlight f { flight with stage := .settled, error := some e })
  | .check f => s.onFlight f .built fun flight =>
    flight.payload.map fun payload =>
      s.setFlight f { flight with stage := .checked, bytes := s.bytesOf payload }
  | .checkThrew f e => s.onFlight f .built fun flight =>
    some (s.setFlight f { flight with stage := .settled, error := some e })
  | .retain f => s.onFlight f .checked fun flight =>
    flight.payload.map fun payload =>
      (s.retain limits.capacityBytes flight.key ⟨payload, flight.bytes⟩).setFlight f
        { flight with stage := .settled }
  | .mark f => s.onFlight f .settled fun flight =>
    some (s.setFlight f { flight with stage := .marked, done := true })
  | .erase f => s.onFlight f .marked fun flight =>
    some ((s.eraseInflight flight.key).setFlight f { flight with stage := .finished })
  | .eraseRefused f => s.onFlight f .unwound fun flight =>
    some ((s.eraseInflight flight.key).setFlight f { flight with stage := .finished })
  | .await f =>
    match s.flights[f]? with
    | none => none
    | some flight =>
      if flight.done = true ∧ flight.error.isNone = true then flight.payload.map s.hold else none
  | .forget f => s.onFlight f .finished fun flight =>
    flight.payload.map fun payload =>
      (s.setFlight f { flight with payload := none }).unref payload
  | .copy payload => if payload ∈ s.held then some (s.hold payload) else none
  | .drop payload => if payload ∈ s.held then some ((s.unhold payload).unref payload) else none
  | .reserve bytes =>
    if bytes ≤ limits.liveBytes ∧ s.live ≤ limits.liveBytes - bytes then some (s.reserve bytes)
    else none
  | .evict => some s.evictOne.2
  | .construct bytes => if bytes ∈ s.reservations then some (s.construct bytes) else none
  | .abandon bytes => if bytes ∈ s.reservations then some (s.abandon bytes) else none

end State

variable [DecidableEq κ] {limits : Limits} {s t : State κ ε}

/-- An action that the cache takes is a step. -/
theorem Step.of_act {a : Action κ ε} (h : s.act limits a = some t) : Step limits s t := by
  -- One case per action: `act` tests what the step of that name asks for.
  cases a with
  | enter key =>
    cases h
    exact .enter key
  | hit key =>
    simp only [State.act, Option.ite_none_right_eq_some, Option.map_eq_some_iff] at h
    obtain ⟨call, entry, found, rfl⟩ := h
    exact .hit key entry call found
  | join key f =>
    simp only [State.act, Option.ite_none_right_eq_some, Option.some_inj] at h
    obtain ⟨⟨call, missing, found⟩, rfl⟩ := h
    exact .join key f call missing found
  | produce key =>
    simp only [State.act, Option.ite_none_right_eq_some, Option.some_inj] at h
    obtain ⟨⟨call, missing, first⟩, rfl⟩ := h
    exact .produce key call missing first
  | enqueue f =>
    obtain ⟨flight, here, h⟩ := State.onFlight_eq_some.mp h
    simp only [Option.ite_none_right_eq_some, Option.some_inj] at h
    obtain ⟨space, rfl⟩ := h
    exact .enqueue f flight here space
  | refuse f e =>
    obtain ⟨flight, here, h⟩ := State.onFlight_eq_some.mp h
    cases h
    exact .refuse f flight e here
  | unwind f =>
    obtain ⟨flight, here, h⟩ := State.onFlight_eq_some.mp h
    cases h
    exact .unwind f flight here
  | take f =>
    obtain ⟨flight, here, h⟩ := State.onFlight_eq_some.mp h
    simp only [Option.ite_none_right_eq_some, Option.some_inj] at h
    obtain ⟨⟨first, free⟩, rfl⟩ := h
    exact .take f flight _ here (List.eq_cons_of_mem_head? first) free
  | returned f payload =>
    obtain ⟨flight, here, h⟩ := State.onFlight_eq_some.mp h
    simp only [Option.ite_none_right_eq_some, Option.some_inj] at h
    obtain ⟨owned, rfl⟩ := h
    exact .returned f flight payload here owned
  | returnedEmpty f =>
    obtain ⟨flight, here, h⟩ := State.onFlight_eq_some.mp h
    cases h
    exact .returnedEmpty f flight here
  | threw f e =>
    obtain ⟨flight, here, h⟩ := State.onFlight_eq_some.mp h
    cases h
    exact .threw f flight e here
  | check f =>
    obtain ⟨flight, here, h⟩ := State.onFlight_eq_some.mp h
    obtain ⟨payload, filled, rfl⟩ := Option.map_eq_some_iff.mp h
    exact .check f flight payload here filled
  | checkThrew f e =>
    obtain ⟨flight, here, h⟩ := State.onFlight_eq_some.mp h
    cases h
    exact .checkThrew f flight e here
  | retain f =>
    obtain ⟨flight, here, h⟩ := State.onFlight_eq_some.mp h
    obtain ⟨payload, filled, rfl⟩ := Option.map_eq_some_iff.mp h
    exact .retain f flight payload here filled
  | mark f =>
    obtain ⟨flight, here, h⟩ := State.onFlight_eq_some.mp h
    cases h
    exact .mark f flight here
  | erase f =>
    obtain ⟨flight, here, h⟩ := State.onFlight_eq_some.mp h
    cases h
    exact .erase f flight (Or.inl here)
  | eraseRefused f =>
    obtain ⟨flight, here, h⟩ := State.onFlight_eq_some.mp h
    cases h
    exact .erase f flight (Or.inr here)
  | await f =>
    simp only [State.act] at h
    split at h
    · cases h
    · next flight here =>
      simp only [Option.ite_none_right_eq_some, Option.map_eq_some_iff, Option.isNone_iff_eq_none] at h
      obtain ⟨⟨done, ok⟩, payload, result, rfl⟩ := h
      exact .await f flight payload here done ok result
  | forget f =>
    obtain ⟨flight, here, h⟩ := State.onFlight_eq_some.mp h
    obtain ⟨payload, result, rfl⟩ := Option.map_eq_some_iff.mp h
    exact .forget f flight payload here result
  | copy payload =>
    simp only [State.act, Option.ite_none_right_eq_some, Option.some_inj] at h
    obtain ⟨owned, rfl⟩ := h
    exact .copy payload owned
  | drop payload =>
    simp only [State.act, Option.ite_none_right_eq_some, Option.some_inj] at h
    obtain ⟨owned, rfl⟩ := h
    exact .drop payload owned
  | reserve bytes =>
    simp only [State.act, Option.ite_none_right_eq_some, Option.some_inj] at h
    obtain ⟨⟨small, fits⟩, rfl⟩ := h
    exact .reserve bytes small fits
  | evict =>
    cases h
    exact .evict
  | construct bytes =>
    simp only [State.act, Option.ite_none_right_eq_some, Option.some_inj] at h
    obtain ⟨reserved, rfl⟩ := h
    exact .construct bytes reserved
  | abandon bytes =>
    simp only [State.act, Option.ite_none_right_eq_some, Option.some_inj] at h
    obtain ⟨reserved, rfl⟩ := h
    exact .abandon bytes reserved

/-! ## Flights -/

/-- The error that an action gives to a flight. -/
def Action.throws : Action κ ε → Option (Nat × ε)
  | .refuse f e => some (f, e)
  | .threw f e => some (f, e)
  | .checkThrew f e => some (f, e)
  | _ => none

/-- What an action does to the flights: one more, nothing, or a change of one of them. -/
inductive FlightChange (a : Action κ ε) (s t : State κ ε) : Prop
  | new (key : κ) (label : a = .produce key) (flights : t.flights = s.flights ++ [{ key := key }])
  | same (label : ∀ key, a ≠ .produce key) (flights : t.flights = s.flights)
  | set (f : Nat) (flight flight' : Flight κ ε) (label : ∀ key, a ≠ .produce key)
      (here : s.flights[f]? = some flight) (flights : t.flights = s.flights.set f flight')
      (error : flight'.error = flight.error ∨ ∃ e, a.throws = some (f, e) ∧ flight'.error = some e)

theorem act_flights {a : Action κ ε} (h : s.act limits a = some t) : FlightChange a s t := by
  cases a with
  | enter key =>
    cases h
    exact .same nofun rfl
  | hit key =>
    simp only [State.act, Option.ite_none_right_eq_some, Option.map_eq_some_iff] at h
    obtain ⟨-, entry, -, rfl⟩ := h
    exact .same nofun rfl
  | join key f =>
    obtain ⟨-, h⟩ := Option.ite_none_right_eq_some.mp h
    cases h
    exact .same nofun rfl
  | produce key =>
    obtain ⟨-, h⟩ := Option.ite_none_right_eq_some.mp h
    cases h
    exact .new key rfl rfl
  | enqueue f =>
    obtain ⟨flight, here, h⟩ := State.onFlight_eq_some.mp h
    obtain ⟨-, h⟩ := Option.ite_none_right_eq_some.mp h
    cases h
    exact .set f flight _ nofun here.1 rfl (Or.inl rfl)
  | refuse f e =>
    obtain ⟨flight, here, h⟩ := State.onFlight_eq_some.mp h
    cases h
    exact .set f flight _ nofun here.1 rfl (Or.inr ⟨e, rfl, rfl⟩)
  | unwind f =>
    obtain ⟨flight, here, h⟩ := State.onFlight_eq_some.mp h
    cases h
    exact .set f flight _ nofun here.1 rfl (Or.inl rfl)
  | take f =>
    obtain ⟨flight, here, h⟩ := State.onFlight_eq_some.mp h
    obtain ⟨-, h⟩ := Option.ite_none_right_eq_some.mp h
    cases h
    exact .set f flight _ nofun here.1 rfl (Or.inl rfl)
  | returned f payload =>
    obtain ⟨flight, here, h⟩ := State.onFlight_eq_some.mp h
    obtain ⟨-, h⟩ := Option.ite_none_right_eq_some.mp h
    cases h
    exact .set f flight _ nofun here.1 rfl (Or.inl rfl)
  | returnedEmpty f =>
    obtain ⟨flight, here, h⟩ := State.onFlight_eq_some.mp h
    cases h
    exact .set f flight _ nofun here.1 rfl (Or.inl rfl)
  | threw f e =>
    obtain ⟨flight, here, h⟩ := State.onFlight_eq_some.mp h
    cases h
    exact .set f flight _ nofun here.1 rfl (Or.inr ⟨e, rfl, rfl⟩)
  | check f =>
    obtain ⟨flight, here, h⟩ := State.onFlight_eq_some.mp h
    obtain ⟨payload, -, rfl⟩ := Option.map_eq_some_iff.mp h
    exact .set f flight _ nofun here.1 rfl (Or.inl rfl)
  | checkThrew f e =>
    obtain ⟨flight, here, h⟩ := State.onFlight_eq_some.mp h
    cases h
    exact .set f flight _ nofun here.1 rfl (Or.inr ⟨e, rfl, rfl⟩)
  | retain f =>
    obtain ⟨flight, here, h⟩ := State.onFlight_eq_some.mp h
    obtain ⟨payload, -, rfl⟩ := Option.map_eq_some_iff.mp h
    refine .set f flight { flight with stage := .settled } nofun here.1 ?_ (Or.inl rfl)
    show (s.retain _ _ _).flights.set f _ = _
    rw [State.retain_flights]
  | mark f =>
    obtain ⟨flight, here, h⟩ := State.onFlight_eq_some.mp h
    cases h
    exact .set f flight _ nofun here.1 rfl (Or.inl rfl)
  | erase f =>
    obtain ⟨flight, here, h⟩ := State.onFlight_eq_some.mp h
    cases h
    exact .set f flight _ nofun here.1 rfl (Or.inl rfl)
  | eraseRefused f =>
    obtain ⟨flight, here, h⟩ := State.onFlight_eq_some.mp h
    cases h
    exact .set f flight _ nofun here.1 rfl (Or.inl rfl)
  | await f =>
    simp only [State.act] at h
    split at h
    · cases h
    · obtain ⟨-, h⟩ := Option.ite_none_right_eq_some.mp h
      obtain ⟨payload, -, rfl⟩ := Option.map_eq_some_iff.mp h
      exact .same nofun rfl
  | forget f =>
    obtain ⟨flight, here, h⟩ := State.onFlight_eq_some.mp h
    obtain ⟨payload, -, rfl⟩ := Option.map_eq_some_iff.mp h
    exact .set f flight { flight with payload := none } nofun here.1 (State.unref_flights ..)
      (Or.inl rfl)
  | copy payload =>
    obtain ⟨-, h⟩ := Option.ite_none_right_eq_some.mp h
    cases h
    exact .same nofun rfl
  | drop payload =>
    obtain ⟨-, h⟩ := Option.ite_none_right_eq_some.mp h
    cases h
    exact .same nofun (State.unref_flights ..)
  | reserve bytes =>
    obtain ⟨-, h⟩ := Option.ite_none_right_eq_some.mp h
    cases h
    exact .same nofun rfl
  | evict =>
    cases h
    exact .same nofun (State.evictOne_flights s)
  | construct bytes =>
    obtain ⟨-, h⟩ := Option.ite_none_right_eq_some.mp h
    cases h
    exact .same nofun rfl
  | abandon bytes =>
    obtain ⟨-, h⟩ := Option.ite_none_right_eq_some.mp h
    cases h
    refine .same nofun ?_
    unfold State.abandon State.release
    split_ifs <;> rfl

/-- An action that is not a producer's keeps the number of flights. -/
theorem act_length {a : Action κ ε} (h : s.act limits a = some t) (ha : ∀ key, a ≠ .produce key) :
    t.flights.length = s.flights.length := by
  cases act_flights h with
  | new key label => exact absurd label (ha key)
  | same _ flights => rw [flights]
  | set f flight flight' _ _ flights => rw [flights, List.length_set]

/-- The error of a flight after an action: its own, or what the action throws. -/
theorem act_error {a : Action κ ε} {f : Nat} {flight flight' : Flight κ ε}
    (h : s.act limits a = some t) (here : s.flights[f]? = some flight)
    (here' : t.flights[f]? = some flight') :
    flight'.error = flight.error ∨ ∃ e, a.throws = some (f, e) ∧ flight'.error = some e := by
  have hf : f < s.flights.length := (List.getElem?_eq_some_iff.mp here).1
  cases act_flights h with
  | new key label flights =>
    rw [flights, List.getElem?_append_left hf, here] at here'
    cases here'
    exact Or.inl rfl
  | same label flights =>
    rw [flights, here] at here'
    cases here'
    exact Or.inl rfl
  | set g old new label hg flights error =>
    by_cases hgf : g = f
    · subst hgf
      cases here.symm.trans hg
      rw [flights, List.getElem?_set_self hf] at here'
      cases here'
      exact error
    · rw [flights, List.getElem?_set_ne hgf, here] at here'
      cases here'
      exact Or.inl rfl

end Ninfer.Media
