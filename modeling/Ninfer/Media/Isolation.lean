import Ninfer.Media.Lifetimes

/-!
# Failures of other requests

A flight runs under the control and the budget of its producer, and `await` rethrows its error to
everyone who waits on it. So a request whose own control never reports can fail with the
cancellation, the timeout or the exhausted budget of another. It cannot in a run in which no such
error meets a second request: none is thrown while another request waits on the flight, and no
request joins a flight that already has one.

## Main definitions

* `System.spreads`: the events that hand the failure of a request to another
* `System.Isolated`: every request holds only failures of its own, and waits on no other's

## Main results

* `not_isolating`: a request fails with the cancellation of another
* `CleanReachable.own_failure`: in the runs without such an event a request fails only with what is
  its own
-/

namespace Ninfer.Media

variable {κ : Type} {cfg : Settings κ} {s t : System κ}

/-- A failure that is nobody's, or comes from the request. -/
def Failure.OwnOf (e : Failure) (r : Nat) : Prop := e.origin = none ∨ e.origin = some r

/-- Another request than its producer waits on a flight. -/
def System.shared (s : System κ) (f : Nat) : Bool :=
  (List.range s.requests.length).any fun q =>
    s.producers[f]? ≠ some q ∧
      (s.requests[q]?.elim false fun req => req.phase.pending.any fun item =>
        match item with
        | .waiter _ g => g = f
        | _ => false)

/-- The events that hand a failure which comes from one request to another: its flight gets the
error while another request waits on it, or another request joins the flight afterwards. -/
def System.spreads (s : System κ) : Event κ → Bool
  | .refuse r e =>
    e.origin.isSome && s.requests[r]?.elim false fun req =>
      match req.phase with
      | .submitting _ f _ _ => s.shared f
      | _ => false
  | .claimThrew f => s.shared f
  | .task (.threw f e) => e.origin.isSome && s.shared f
  | .task (.checkThrew f e) => e.origin.isSome && s.shared f
  | .join q f =>
    s.producers[f]? ≠ some q ∧ (s.cache.flights[f]?.elim false fun flight =>
      flight.error.elim false fun e => e.origin.isSome)
  | _ => false

/-- What an item of a request can hand it is its own. -/
def System.Safe (s : System κ) (r : Nat) : Pending κ → Prop
  | .hit .. => True
  | .producer _ f => s.producers[f]? = some r
  | .waiter _ f => s.producers[f]? = some r ∨
      ∀ flight e, s.cache.flights[f]? = some flight → flight.error = some e → e.origin = none

/-- Every flight has only failures of its producer, every request only its own, and what it waits on
can hand it no other. -/
structure System.Isolated (s : System κ) : Prop where
  flights : ∀ (f r : Nat) (flight : Flight κ Failure) (e : Failure), s.producers[f]? = some r →
    s.cache.flights[f]? = some flight → flight.error = some e → e.OwnOf r
  items : ∀ (r : Nat) (req : Request κ), s.requests[r]? = some req →
    ∀ item ∈ req.phase.pending, s.Safe r item
  submitting : ∀ (r : Nat) (req : Request κ) (key : κ) (f : Nat) (rest : List κ)
    (pending : List (Pending κ)), s.requests[r]? = some req →
    req.phase = .submitting key f rest pending → s.producers[f]? = some r
  errors : ∀ (r : Nat) (req : Request κ) (e : Failure), s.requests[r]? = some req →
    req.error = some e ∨ req.phase = .threw e → e.OwnOf r

theorem System.isolated_init : ({} : System κ).Isolated where
  flights := by simp
  items := by simp
  submitting := by simp
  errors := by simp

/-! ## Requests -/

section Requests

variable {r : Nat} {req req' : Request κ}

/-- What a thread throws by itself is its own. -/
theorem Failure.ownOf_of_mayThrow {e : Failure} (h : req.mayThrow r e = true) : e.OwnOf r := by
  cases e with
  | cancelled q =>
    obtain ⟨rfl, -⟩ := of_decide_eq_true h
    exact Or.inr rfl
  | queueTimeout q =>
    obtain ⟨rfl, -⟩ := of_decide_eq_true h
    exact Or.inr rfl
  | budgetExceeded q => cases h
  | other => exact Or.inl rfl

theorem Failure.ownOf_of_workerMayThrow {e : Failure} (h : req.workerMayThrow r e = true) :
    e.OwnOf r := by
  cases e with
  | cancelled q =>
    obtain ⟨rfl, -⟩ := of_decide_eq_true h
    exact Or.inr rfl
  | queueTimeout q =>
    obtain ⟨rfl, -⟩ := of_decide_eq_true h
    exact Or.inr rfl
  | budgetExceeded q => cases h
  | other => exact Or.inl rfl

/-- What an item that is safe hands to a request is its own. -/
theorem System.Isolated.outcome (h : s.Isolated) {item : Pending κ} {e : Failure}
    (hsafe : s.Safe r item) (thrown : s.outcome item = some (some e)) : e.OwnOf r := by
  have hread : ∀ f, item.flight = some f → ∃ flight, s.cache.flights[f]? = some flight ∧
      flight.error = some e := by
    intro f hf
    simp only [System.outcome, hf] at thrown
    split at thrown
    case h_1 => cases thrown
    case h_2 flight here =>
      split_ifs at thrown
      exact ⟨flight, here, Option.some_inj.mp thrown⟩
  cases item with
  | hit => cases thrown
  | producer key f =>
    obtain ⟨flight, here, herror⟩ := hread f rfl
    exact h.flights f r flight e hsafe here herror
  | waiter key f =>
    obtain ⟨flight, here, herror⟩ := hread f rfl
    rcases hsafe with hmine | hclear
    · exact h.flights f r flight e hmine here herror
    · exact Or.inl (hclear flight e here herror)

/-- A waiter that is not the producer makes a flight shared. -/
theorem System.producer_of_not_shared {f q : Nat} {req : Request κ} {key : κ}
    (h : s.shared f = false) (here : s.requests[q]? = some req)
    (hmem : Pending.waiter key f ∈ req.phase.pending) : s.producers[f]? = some q := by
  by_contra hne
  have hq : q ∈ List.range s.requests.length :=
    List.mem_range.mpr (List.getElem?_eq_some_iff.mp here).1
  have hshared : s.shared f = true := by
    refine List.any_eq_true.mpr ⟨q, hq, decide_eq_true ⟨hne, ?_⟩⟩
    rw [here]
    exact List.any_eq_true.mpr ⟨_, hmem, decide_eq_true rfl⟩
  exact Bool.noConfusion (h.symm.trans hshared)

/-- One request has changed. -/
theorem System.Isolated.update (h : s.Isolated) (here : s.requests[r]? = some req)
    (hrequests : t.requests = s.requests.set r req') (hcache : t.cache = s.cache)
    (hproducers : t.producers = s.producers)
    (hitems : ∀ item ∈ req'.phase.pending, item ∈ req.phase.pending ∨ s.Safe r item)
    (hsubmitting : ∀ key f rest pending, req'.phase = .submitting key f rest pending →
      s.producers[f]? = some r)
    (herrors : ∀ e, req'.error = some e ∨ req'.phase = .threw e → e.OwnOf r) : t.Isolated := by
  have hget : ∀ (q : Nat) (req₀ : Request κ), t.requests[q]? = some req₀ →
      q = r ∧ req₀ = req' ∨ q ≠ r ∧ s.requests[q]? = some req₀ := by
    intro q req₀ hq
    rw [hrequests] at hq
    exact getElem?_set_cases here hq
  have hsafe : ∀ q item, s.Safe q item → t.Safe q item := by
    intro q item hsafe
    cases item with
    | hit => trivial
    | producer key f =>
      show t.producers[f]? = some q
      rw [hproducers]
      exact hsafe
    | waiter key f =>
      show t.producers[f]? = some q ∨ _
      rw [hproducers, hcache]
      exact hsafe
  refine ⟨fun f q flight e hf hflight => ?_, fun q req₀ hq item hitem => ?_,
    fun q req₀ key f rest pending hq hphase => ?_, fun q req₀ e hq herror => ?_⟩
  · exact h.flights f q flight e (hproducers ▸ hf) (hcache ▸ hflight)
  · rcases hget q req₀ hq with ⟨rfl, rfl⟩ | ⟨-, hq⟩
    · rcases hitems item hitem with hold | hnew
      · exact hsafe q item (h.items q req here item hold)
      · exact hsafe q item hnew
    · exact hsafe q item (h.items q req₀ hq item hitem)
  · rw [hproducers]
    rcases hget q req₀ hq with ⟨rfl, rfl⟩ | ⟨-, hq⟩
    · exact hsubmitting key f rest pending hphase
    · exact h.submitting q req₀ key f rest pending hq hphase
  · rcases hget q req₀ hq with ⟨rfl, rfl⟩ | ⟨-, hq⟩
    · exact herrors e herror
    · exact h.errors q req₀ e hq herror

/-- A request changes, and its permit may be released. -/
theorem System.Isolated.release (h : s.Isolated) (here : s.requests[r]? = some req)
    (hitems : ∀ item ∈ req'.phase.pending, item ∈ req.phase.pending ∨ s.Safe r item)
    (hsubmitting : ∀ key f rest pending, req'.phase = .submitting key f rest pending →
      s.producers[f]? = some r)
    (herrors : ∀ e, req'.error = some e ∨ req'.phase = .threw e → e.OwnOf r) :
    (s.release r req').Isolated := by
  unfold System.release
  split_ifs
  · exact ⟨h.flights, h.items, h.submitting, h.errors⟩
  · exact h.update here rfl rfl rfl hitems hsubmitting herrors
  · exact h.update here rfl rfl rfl hitems hsubmitting herrors

end Requests

/-! ## The cache -/

section Cache

variable [DecidableEq κ] {a : Action κ Failure} {cache : State κ Failure}

/-- An action keeps requests apart when what it throws belongs to the producer of the flight, and
meets no other request. -/
theorem System.Isolated.acts (h : s.Isolated) (act : s.cache.act cfg.limits a = some cache)
    (ha : ∀ key, a ≠ .produce key)
    (hown : ∀ f e r, a.throws = some (f, e) → s.producers[f]? = some r → e.OwnOf r)
    (hclean : ∀ f e, a.throws = some (f, e) → e.origin = none ∨ s.shared f = false) :
    (s.setCache cache).Isolated := by
  have hback : ∀ (f : Nat) (flight' : Flight κ Failure), cache.flights[f]? = some flight' →
      ∃ flight, s.cache.flights[f]? = some flight ∧ (flight'.error = flight.error ∨
        ∃ e, a.throws = some (f, e) ∧ flight'.error = some e) := by
    intro f flight' here'
    have hlt : f < cache.flights.length := (List.getElem?_eq_some_iff.mp here').1
    rw [act_length act ha] at hlt
    have here := List.getElem?_eq_getElem hlt
    exact ⟨_, here, act_error act here here'⟩
  refine ⟨fun f r flight' e hf hflight herror => ?_, fun r req hr item hitem => ?_, h.submitting,
    h.errors⟩
  · obtain ⟨flight, here, hsame | ⟨e', hthrows, herror'⟩⟩ := hback f flight' hflight
    · exact h.flights f r flight e hf here (hsame ▸ herror)
    · cases herror'.symm.trans herror
      exact hown f e r hthrows hf
  · have hsafe := h.items r req hr item hitem
    cases item with
    | hit => trivial
    | producer key f => exact hsafe
    | waiter key f =>
      rcases hsafe with hmine | hclear
      · exact Or.inl hmine
      · by_cases hmine : s.producers[f]? = some r
        · exact Or.inl hmine
        · refine Or.inr fun flight' e hflight herror => ?_
          obtain ⟨flight, here, hsame | ⟨e', hthrows, herror'⟩⟩ := hback f flight' hflight
          · exact hclear flight e here (hsame ▸ herror)
          · cases herror'.symm.trans herror
            rcases hclean f e hthrows with hnone | hnot
            · exact hnone
            · exact absurd (System.producer_of_not_shared hnot hr hitem) hmine

/-- An action that throws nothing keeps requests apart. -/
theorem System.Isolated.acts_of_silent (h : s.Isolated)
    (act : s.cache.act cfg.limits a = some cache) (ha : ∀ key, a ≠ .produce key)
    (hsilent : a.throws = none) : (s.setCache cache).Isolated := by
  refine h.acts act ha (fun f e r hthrows => ?_) fun f e hthrows => ?_
  · cases hsilent.symm.trans hthrows
  · cases hsilent.symm.trans hthrows

/-- A new flight has no failure yet. -/
theorem System.Isolated.produce (h : s.Isolated) (hinv : s.Inv cfg) {r : Nat} {req : Request κ}
    {key : κ} {rest : List κ} {pending : List (Pending κ)} (here : s.requests[r]? = some req)
    (phase : req.phase = .entering key rest pending)
    (act : s.cache.act cfg.limits (.produce key) = some cache) :
    (({ s.setCache cache with producers := s.producers ++ [r] } : System κ).setRequest r
      { req with phase := .submitting key s.cache.flights.length rest pending }).Isolated := by
  have hflights : cache.flights = s.cache.flights ++ [{ key := key }] := by
    cases act_flights act with
    | new key' label flights =>
      cases label
      exact flights
    | same label => exact absurd rfl (label key)
    | set _ _ _ label => exact absurd rfl (label key)
  -- Flights with a failure were there before, with the same producer.
  have hback : ∀ (f : Nat) (flight : Flight κ Failure) (e : Failure),
      cache.flights[f]? = some flight → flight.error = some e →
      s.cache.flights[f]? = some flight ∧ (s.producers ++ [r])[f]? = s.producers[f]? := by
    intro f flight e hflight herror
    rw [hflights, List.getElem?_append] at hflight
    split_ifs at hflight with hlt
    · exact ⟨hflight, List.getElem?_append_left (hinv.length ▸ hlt)⟩
    · rw [List.getElem?_singleton] at hflight
      split_ifs at hflight
      cases hflight
      cases herror
  have hkeep : ∀ {f q : Nat}, s.producers[f]? = some q → (s.producers ++ [r])[f]? = some q := by
    intro f q hf
    rw [List.getElem?_append_left (List.getElem?_eq_some_iff.mp hf).1, hf]
  have hlast : (s.producers ++ [r])[s.cache.flights.length]? = some r := by
    rw [← hinv.length]
    exact List.getElem?_concat_length
  have hsafe : ∀ q item, s.Safe q item → System.Safe
      ({ s.setCache cache with producers := s.producers ++ [r] } : System κ) q item := by
    intro q item hsafe
    cases item with
    | hit => trivial
    | producer key f => exact hkeep hsafe
    | waiter key f =>
      rcases hsafe with hmine | hclear
      · exact Or.inl (hkeep hmine)
      · refine Or.inr fun flight e hflight herror => ?_
        exact hclear flight e (hback f flight e hflight herror).1 herror
  refine ⟨fun f q flight e hf hflight herror => ?_, fun q req₀ hq item hitem => ?_,
    fun q req₀ key' f rest' pending' hq hphase => ?_, fun q req₀ e hq herror => ?_⟩
  · obtain ⟨hold, hproducer⟩ := hback f flight e hflight herror
    exact h.flights f q flight e (hproducer.symm.trans hf) hold herror
  · rcases getElem?_set_cases here hq with ⟨rfl, rfl⟩ | ⟨-, hq⟩
    · refine hsafe q item (h.items q req here item ?_)
      rw [phase]
      exact hitem
    · exact hsafe q item (h.items q req₀ hq item hitem)
  · rcases getElem?_set_cases here hq with ⟨rfl, rfl⟩ | ⟨-, hq⟩
    · cases hphase
      exact hlast
    · exact hkeep (h.submitting q req₀ key' f rest' pending' hq hphase)
  · rcases getElem?_set_cases here hq with ⟨rfl, rfl⟩ | ⟨-, hq⟩
    · refine h.errors q req e here (herror.imp_right nofun)
    · exact h.errors q req₀ e hq herror

end Cache

/-! ## Transitions -/

section Transitions

theorem Failure.ownOf_budget (r : Nat) : (Failure.budgetExceeded r).OwnOf r := Or.inr rfl

/-- A request goes on in its phase. -/
theorem System.Isolated.keep (h : s.Isolated) {r : Nat} {req req' : Request κ}
    (here : s.requests[r]? = some req) (hphase : req'.phase = req.phase)
    (herror : req'.error = req.error) : (s.setRequest r req').Isolated := by
  refine h.update here rfl rfl rfl (fun item hitem => Or.inl (hphase ▸ hitem))
    (fun key f rest pending hsub => ?_) fun e he => ?_
  · exact h.submitting r req key f rest pending here (hphase ▸ hsub)
  · rw [hphase, herror] at he
    exact h.errors r req e here he

/-- What a builder throws belongs to the producer of its flight. -/
theorem ownOf_of_taskMay {a : Action κ Failure} {f r : Nat} {e : Failure} (may : s.taskMay a = true)
    (hthrows : a.throws = some (f, e)) (hr : s.producers[f]? = some r) : e.OwnOf r := by
  have hbuilder : s.builderMayThrow f e = true := by
    cases a <;> cases hthrows <;> first | exact may | cases may
  unfold System.builderMayThrow at hbuilder
  rw [hr] at hbuilder
  dsimp only at hbuilder
  split at hbuilder
  case h_1 => cases hbuilder
  case h_2 req here => exact Failure.ownOf_of_workerMayThrow hbuilder

/-- What a builder throws in a clean run is nobody's, or meets no other request. -/
theorem clean_of_taskMay {a : Action κ Failure} {f : Nat} {e : Failure} (may : s.taskMay a = true)
    (hclean : s.spreads (.task a) = false) (hthrows : a.throws = some (f, e)) :
    e.origin = none ∨ s.shared f = false := by
  have hboth : (e.origin.isSome && s.shared f) = false := by
    cases a <;> cases hthrows <;> first | exact hclean | cases may
  rwa [Bool.and_eq_false_iff, Option.isSome_eq_false_iff, Option.isNone_iff_eq_none] at hboth

/-- The phases in which a request neither submits nor has thrown. -/
def Phase.isPlain : Phase κ → Bool
  | .submitting .. | .threw _ => false
  | _ => true

/-- A request goes on to a plain phase, with items it had or that are safe, and with an error that
it had or that is its own. -/
theorem System.Isolated.move (h : s.Isolated) {r : Nat} {req req' : Request κ}
    (here : s.requests[r]? = some req) (hphase : req'.phase.isPlain = true)
    (hitems : ∀ item ∈ req'.phase.pending, item ∈ req.phase.pending ∨ s.Safe r item)
    (herror : ∀ e, req'.error = some e → req.error = some e ∨ e.OwnOf r) :
    (s.setRequest r req').Isolated := by
  refine h.update here rfl rfl rfl hitems (fun key f rest pending hsub => ?_) fun e he => ?_
  · rw [hsub] at hphase
    cases hphase
  · rcases he with he | he
    · rcases herror e he with hold | hown
      · exact h.errors r req e here (Or.inl hold)
      · exact hown
    · rw [he] at hphase
      cases hphase

/-- A request goes on with the items and the error it had. -/
theorem System.Isolated.proceed (h : s.Isolated) {r : Nat} {req req' : Request κ}
    (here : s.requests[r]? = some req) (hphase : req'.phase.isPlain = true)
    (hitems : ∀ item ∈ req'.phase.pending, item ∈ req.phase.pending)
    (herror : req'.error = req.error) : (s.setRequest r req').Isolated :=
  h.move here hphase (fun item hitem => Or.inl (hitems item hitem)) fun _ he =>
    Or.inl (herror ▸ he)

theorem Phase.pending_of_isOver {phase : Phase κ} (h : phase.isOver = true) : phase.pending = [] := by
  cases phase <;> first | rfl | cases h

/-- A request has thrown, or is past its media phase. -/
theorem System.Isolated.leave (h : s.Isolated) {r : Nat} {req req' : Request κ}
    (here : s.requests[r]? = some req) (hover : req'.phase.isOver = true)
    (herror : req'.error = req.error) (hthrew : ∀ e, req'.phase = .threw e → e.OwnOf r) :
    (s.release r req').Isolated := by
  refine h.release here (fun item hitem => ?_) (fun key f rest pending hsub => ?_) fun e he => ?_
  · rw [Phase.pending_of_isOver hover] at hitem
    cases hitem
  · rw [hsub] at hover
    cases hover
  · rcases he with he | he
    · exact h.errors r req e here (Or.inl (herror ▸ he))
    · exact hthrew e he

variable [DecidableEq κ] {event : Event κ}

/-- **A transition that hands no failure on keeps requests apart.** -/
theorem Transition.isolated (h : s.Isolated) (hinv : s.Inv cfg) (step : Transition cfg s event t)
    (hclean : s.spreads event = false) : t.Isolated := by
  cases step with
  | arrive parts =>
    have hget : ∀ (r : Nat) (req : Request κ), (s.requests ++ [{ parts := parts }])[r]? = some req →
        s.requests[r]? = some req ∨ req = { parts := parts } := by
      intro r req hr
      rw [List.getElem?_append] at hr
      split_ifs at hr with hlt
      · exact Or.inl hr
      · rw [List.getElem?_singleton] at hr
        split_ifs at hr
        exact Or.inr (Option.some_inj.mp hr).symm
    refine ⟨h.flights, fun r req hr item hitem => ?_, fun r req key f rest pending hr hphase => ?_,
      fun r req e hr herror => ?_⟩
    · rcases hget r req hr with hr | rfl
      · exact h.items r req hr item hitem
      · cases hitem
    · rcases hget r req hr with hr | rfl
      · exact h.submitting r req key f rest pending hr hphase
      · cases hphase
    · rcases hget r req hr with hr | rfl
      · exact h.errors r req e hr herror
      · rcases herror with herror | herror <;> cases herror
  | cancel r req here => exact h.keep here rfl rfl
  | expire r req here => exact h.keep here rfl rfl
  | reject r req e here phase why =>
    refine h.update here rfl rfl rfl nofun nofun fun e' he => ?_
    rcases he with he | he
    · exact h.errors r req e' here (Or.inl he)
    · cases he
      rcases why with why | rfl
      · exact Failure.ownOf_of_mayThrow why
      · exact Failure.ownOf_budget r
  | acquire r req here phase free =>
    refine h.update here rfl rfl rfl nofun nofun fun e he => ?_
    exact h.errors r req e here (he.imp_right nofun)
  | render r req here phase => exact h.proceed here rfl nofun rfl
  | renderThrew r req here phase =>
    refine h.leave here rfl rfl fun e he => ?_
    cases he
    exact Or.inl rfl
  | start r req key rest pending cache here phase running timely act =>
    refine (h.acts_of_silent act nofun rfl).proceed here rfl (fun item hitem => ?_) rfl
    rw [phase]
    exact hitem
  | startThrew r req e key rest pending here phase why =>
    refine h.move here rfl (fun item hitem => Or.inl ?_) fun e' he => Or.inr ?_
    · rw [phase]
      exact hitem
    · cases he
      exact Failure.ownOf_of_mayThrow why
  | hit r req key rest pending entry cache here phase found act =>
    refine (h.acts_of_silent act nofun rfl).move here rfl (fun item hitem => ?_) fun _ he => Or.inl he
    rcases List.mem_append.mp hitem with hitem | hitem
    · rw [phase]
      exact Or.inl hitem
    · cases List.mem_singleton.mp hitem
      exact Or.inr trivial
  | join r f req key rest pending cache here phase act =>
    have hisolated := h.acts_of_silent act nofun rfl
    refine hisolated.move here rfl (fun item hitem => ?_) fun _ he => Or.inl he
    rcases List.mem_append.mp hitem with hitem | hitem
    · rw [phase]
      exact Or.inl hitem
    · cases List.mem_singleton.mp hitem
      refine Or.inr ?_
      -- The flight that is joined is the request's own, or has no failure of another.
      by_cases hmine : s.producers[f]? = some r
      · exact Or.inl hmine
      · refine Or.inr fun flight e hflight herror => ?_
        have hsame : cache.flights = s.cache.flights := by
          obtain ⟨-, hact⟩ := Option.ite_none_right_eq_some.mp act
          cases hact
          rfl
        have hflight' : s.cache.flights[f]? = some flight := hsame ▸ hflight
        have hnot := of_decide_eq_false hclean
        rw [hflight'] at hnot
        cases horigin : e.origin with
        | none => rfl
        | some q =>
          refine absurd ⟨hmine, ?_⟩ hnot
          show (flight.error.elim false fun e => e.origin.isSome) = true
          rw [herror]
          show e.origin.isSome = true
          rw [horigin]
          rfl
  | produce r req key rest pending cache here phase act => exact h.produce hinv here phase act
  | submit r req key f rest pending cache here phase act =>
    have hmine := h.submitting r req key f rest pending here phase
    refine (h.acts_of_silent act nofun rfl).move here rfl (fun item hitem => ?_) fun _ he => Or.inl he
    rcases List.mem_append.mp hitem with hitem | hitem
    · rw [phase]
      exact Or.inl hitem
    · cases List.mem_singleton.mp hitem
      exact Or.inr hmine
  | refuse r req e key f rest pending cache here phase why act =>
    have hmine := h.submitting r req key f rest pending here phase
    refine h.acts act nofun (fun g e' q hthrows hq => ?_) fun g e' hthrows => ?_
    · cases hthrows
      cases hmine.symm.trans hq
      exact Failure.ownOf_of_workerMayThrow why
    · cases hthrows
      simp only [System.spreads, here, phase, Option.elim, Bool.and_eq_false_iff,
        Option.isSome_eq_false_iff, Option.isNone_iff_eq_none] at hclean
      exact hclean
  | unwind r req key f rest pending cache here phase act =>
    exact h.acts_of_silent act nofun rfl
  | rethrow r req e key f rest pending cache here phase act thrown =>
    have hmine := h.submitting r req key f rest pending here phase
    refine (h.acts_of_silent act nofun rfl).move here rfl (fun item hitem => Or.inl ?_)
      fun e' he => Or.inr ?_
    · rw [phase]
      exact hitem
    · cases he
      exact h.outcome (show s.Safe r (.producer key f) from hmine) thrown
  | started r req pending here phase =>
    refine h.proceed here rfl (fun item hitem => ?_) rfl
    rw [phase]
    exact hitem
  | awaitThrew r req e item pending here phase clear why =>
    refine h.move here rfl (fun item hitem => Or.inl ?_) fun e' he => Or.inr ?_
    · rw [phase]
      exact hitem
    · cases he
      exact Failure.ownOf_of_mayThrow why
  | accept r req item pending cache here phase clear ok act =>
    have hisolated : (s.setCache cache).Isolated := by
      cases hflight : item.flight with
      | none =>
        rw [hflight] at act
        cases act
        exact h
      | some g =>
        rw [hflight] at act
        have hact : s.cache.act cfg.limits (.await g) = some cache := act
        exact h.acts_of_silent hact nofun rfl
    refine hisolated.move here rfl (fun item hitem => Or.inl ?_) fun e he => ?_
    · rw [phase]
      exact List.mem_cons_of_mem _ hitem
    · have he' : (req.accept cfg r item.key).error = some e := he
      unfold Request.accept at he'
      dsimp only at he'
      split_ifs at he'
      · exact Or.inl he'
      · cases he'
        exact Or.inr (Failure.ownOf_budget r)
  | misaligned r req item pending here phase clear ok =>
    refine h.move here rfl (fun item hitem => Or.inl ?_) fun e' he => Or.inr ?_
    · rw [phase]
      exact List.mem_cons_of_mem _ hitem
    · cases he
      exact Or.inl rfl
  | receive r req e item pending here phase clear thrown =>
    have hmem : item ∈ req.phase.pending := by
      rw [phase]
      exact List.mem_cons_self
    refine h.move here rfl (fun item hitem => Or.inl ?_) fun e' he => Or.inr ?_
    · rw [phase]
      exact hitem
    · cases he
      exact h.outcome (h.items r req here item hmem) thrown
  | skip r req item pending found here phase done =>
    refine h.proceed here rfl (fun item hitem => ?_) rfl
    rcases phase with phase | ⟨phase, -⟩ <;> rw [phase] <;> exact List.mem_cons_of_mem _ hitem
  | settle r req here phase =>
    refine h.leave here ?_ rfl fun e he => ?_
    · show (req.error.elim Phase.finishing Phase.threw).isOver = true
      cases req.error <;> rfl
    · have he' : req.error.elim Phase.finishing Phase.threw = .threw e := he
      cases herror : req.error with
      | none =>
        rw [herror] at he'
        cases he'
      | some e' =>
        rw [herror] at he'
        cases he'
        exact h.errors r req e here (Or.inl herror)
  | mismatch r req here phase clear =>
    refine h.leave here rfl rfl fun e he => ?_
    cases he
    exact Or.inl rfl
  | finish r req here phase => exact h.leave here rfl rfl nofun
  | finishThrew r req e here phase why =>
    refine h.leave here rfl rfl fun e' he => ?_
    cases he
    rcases why with why | rfl
    · exact Failure.ownOf_of_mayThrow why
    · exact Failure.ownOf_budget r
  | claim f r flight req building producer here first fits => exact h.keep here rfl rfl
  | claimThrew f r flight req cache building producer here first exceeds act =>
    have hisolated : (s.setCache cache).Isolated := by
      refine h.acts act nofun (fun g e q hthrows hq => ?_) fun g e hthrows => ?_
      · cases hthrows
        cases producer.symm.trans hq
        exact Failure.ownOf_budget r
      · cases hthrows
        exact Or.inr hclean
    exact hisolated.keep here rfl rfl
  | task a cache may act =>
    refine h.acts act (fun key label => ?_) (fun f e r hthrows hr => ?_) fun f e hthrows => ?_
    · rw [label] at may
      cases may
    · exact ownOf_of_taskMay may hthrows hr
    · exact clean_of_taskMay may hclean hthrows

/-- The states of the runs whose events all keep failures to themselves. -/
def CleanReachable (cfg : Settings κ) (s : System κ) : Prop :=
  Relation.ReflTransGen
    (fun s t => ∃ event, Transition cfg s event t ∧ s.spreads event = false) {} s

theorem CleanReachable.isolated (h : CleanReachable cfg s) : s.Inv cfg ∧ s.Isolated := by
  induction h with
  | refl => exact ⟨System.inv_init cfg, System.isolated_init⟩
  | tail _ step ih =>
    obtain ⟨event, step, hclean⟩ := step
    exact ⟨step.inv ih.1, step.isolated ih.2 ih.1 hclean⟩

/-- **A request fails only with what is its own**, in every run in which no failure that comes from
one request is thrown in a flight on which another waits, and no request joins a flight of another
that has such a failure. -/
theorem CleanReachable.own_failure (h : CleanReachable cfg s) {r : Nat} {req : Request κ}
    {e : Failure} (here : s.requests[r]? = some req) (threw : req.phase = .threw e) :
    ∀ q, e.origin = some q → q = r := by
  intro q hq
  rcases h.isolated.2.errors r req e here (Or.inr threw) with hnone | hown
  · cases hnone.symm.trans hq
  · exact Option.some_inj.mp (hq.symm.trans hown)

/-- Media that a request alone would prepare. -/
def PreparesAlone (cfg : Settings κ) (parts : List κ) : Prop :=
  ∃ t : System κ, t.Reachable cfg ∧ ∃ req : Request κ,
    t.requests = [req] ∧ req.parts = parts ∧ req.phase = .returned

/-- No request fails because of another: a request whose control has not reported, and which would
prepare its media alone, does not fail with what comes from another request. -/
def Isolating (cfg : Settings κ) : Prop :=
  ∀ (s : System κ) (r : Nat) (req : Request κ) (e : Failure), s.Reachable cfg →
    s.requests[r]? = some req → req.cancelled = false → req.expired = false →
    PreparesAlone cfg req.parts → req.phase = .threw e → ∀ q, e.origin = some q → q = r

/-- Events in a row that keep failures to themselves. -/
def System.runClean (cfg : Settings κ) : List (Event κ) → System κ → Option (System κ)
  | [], s => some s
  | event :: events, s =>
    if s.spreads event = false then (s.fire cfg event).bind (System.runClean cfg events) else none

theorem System.runClean_transitions {events : List (Event κ)}
    (h : System.runClean cfg events s = some t) : Relation.ReflTransGen
      (fun s t => ∃ event, Transition cfg s event t ∧ s.spreads event = false) s t := by
  induction events generalizing s with
  | nil =>
    cases h
    exact .refl
  | cons event events ih =>
    obtain ⟨hclean, h⟩ := Option.ite_none_right_eq_some.mp h
    obtain ⟨u, hfire, hrun⟩ := Option.bind_eq_some_iff.mp h
    exact .head ⟨event, .of_fire hfire, hclean⟩ (ih hrun)

end Transitions

/-- A request prepares one item alone. -/
def aloneRun : List (Event Nat) :=
  [.arrive [7], .acquire 0, .render 0, .start 0, .produce 0, .submit 0, .started 0,
    .task (.take 0), .claim 0, .task (.reserve 4), .task (.construct 4), .task (.returned 0 0),
    .task (.check 0), .task (.retain 0), .task (.mark 0), .accept 0, .settle 0, .finish 0]

/-- A second request joins the flight of the first, and the client of the first cancels. -/
def joinedRun : List (Event Nat) :=
  [.arrive [7], .arrive [7], .acquire 0, .render 0, .start 0, .produce 0, .submit 0,
    .acquire 1, .render 1, .start 1, .join 1 0, .started 1, .started 0, .task (.take 0),
    .cancel 0, .awaitThrew 0 (.cancelled 0), .task (.threw 0 (.cancelled 0)), .task (.mark 0),
    .receive 1, .skip 1, .settle 1]

/-- The second request at the end: its control has not reported. -/
def joinedRequest : Request Nat where
  parts := [7]
  phase := .threw (.cancelled 0)
  stop := true
  error := some (.cancelled 0)
  acquired := 1
  released := 1

theorem preparesAlone_sample : PreparesAlone sampleSettings [7] := by
  have hrun : System.run sampleSettings aloneRun {} = some (endOf sampleSettings aloneRun) := by
    decide +kernel
  refine ⟨endOf sampleSettings aloneRun, System.run_transitions hrun, ?_⟩
  exact ⟨{
    parts := [7]
    phase := .returned
    claims := [0]
    claimed := ⟨4, 1⟩
    accepted := ⟨4, 1⟩
    acquired := 1
    released := 1 }, by decide +kernel, rfl, rfl⟩

/-- **A request fails with the cancellation of another.** -/
theorem not_isolating : ¬ Isolating sampleSettings := by
  intro h
  have hrun : System.run sampleSettings joinedRun {} = some (endOf sampleSettings joinedRun) := by
    decide +kernel
  have here : (endOf sampleSettings joinedRun).requests[1]? = some joinedRequest := by
    decide +kernel
  have hown := h _ 1 joinedRequest (.cancelled 0) (System.run_transitions hrun) here rfl rfl
    preparesAlone_sample rfl 0 rfl
  cases hown

/-- A second request joins the flight of the first, and its own client cancels: it waits for the
builder, which goes on for the first. -/
def waitingRun : List (Event Nat) :=
  [.arrive [7], .arrive [7], .acquire 0, .render 0, .start 0, .produce 0, .submit 0,
    .acquire 1, .render 1, .start 1, .join 1 0, .started 1, .started 0, .task (.take 0),
    .cancel 1, .awaitThrew 1 (.cancelled 1), .claim 0, .task (.reserve 4), .task (.construct 4),
    .task (.returned 0 0), .task (.check 0), .task (.retain 0), .task (.mark 0), .skip 1,
    .settle 1, .accept 0, .settle 0, .finish 0]

/-- The run hands no failure on: the first request returns, the second fails with its own. -/
theorem waitingRun_own_failure : CleanReachable sampleSettings (endOf sampleSettings waitingRun) ∧
    (endOf sampleSettings waitingRun).requests.map Request.phase =
      [.returned, .threw (.cancelled 1)] ∧
    ∀ q, (Failure.cancelled 1).origin = some q → q = 1 := by
  have hrun : System.runClean sampleSettings waitingRun {} =
      some (endOf sampleSettings waitingRun) := by
    decide +kernel
  have hclean : CleanReachable sampleSettings (endOf sampleSettings waitingRun) :=
    System.runClean_transitions hrun
  have hphases : (endOf sampleSettings waitingRun).requests.map Request.phase =
      [.returned, .threw (.cancelled 1)] := by
    decide +kernel
  have hphase : (endOf sampleSettings waitingRun).requests[1]?.map Request.phase =
      some (.threw (.cancelled 1)) := by
    rw [← List.getElem?_map, hphases]
    rfl
  obtain ⟨req, here, threw⟩ := Option.map_eq_some_iff.mp hphase
  exact ⟨hclean, hphases, hclean.own_failure here threw⟩

end Ninfer.Media
