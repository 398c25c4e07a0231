import Ninfer.Executor.System

/-!
# The invariants of the executor

Two layers. `Inv` holds in every state, whatever the threads are doing: each request is consistent
with its consumer, and `outstanding_` is the number of units that have not been given back. `Work`
is what the worker knows between two of its actions: where every open request is, counting those it
holds in its hands, and what it owes to the request it is completing. The callers cannot invalidate
either.

## Main definitions

* `ReqInv`, `Inv`: the invariant of a request and of the state
* `places`: how often a request is in the queue, in a slot or in the worker's hands
* `Focus`, `Work`: the worker's assertion, with the exceptions it has to make at the moment

## Main results

* `ReqInv.consumer`, `Inv.caller`, `Work.caller`: the callers keep both
-/

namespace Ninfer.Executor

/-! ## Requests -/

/-- The events a waiter has swapped out and not handed on yet. -/
def ConsumerPc.inFlight : ConsumerPc → List OutputDelta
  | .publishing events _ => events
  | _ => []

/-- The waiter has seen `done`. -/
def ConsumerPc.sawDone : ConsumerPc → Bool
  | .publishing _ done => done
  | .polling done => done
  | .finishing => true
  | _ => false

/-- `release_consumer` has run. -/
def ConsumerPc.released : ConsumerPc → Bool
  | .releasing => true
  | .gone => true
  | _ => false

/-- A request that is done has exactly one of a result and an error, and an open one neither. The
texts of a result are those of the published deltas. -/
structure OutcomeInv (r : Request) : Prop where
  undecided : r.done = false → r.result = none ∧ r.error = none
  decided : r.done = true →
    (r.result.isSome ∧ r.error = none) ∨ (r.result = none ∧ r.error.isSome)
  text : ∀ res, r.result = some res →
    res.content = channelText .content r.published ∧
      res.reasoning = channelText .reasoning r.published

/-- The unit of a request is given back at most once, and only after it was taken from a request
that is done and released by its consumer. -/
structure CapacityInv (r : Request) : Prop where
  taken : r.capacityReleased = true → r.done = true ∧ r.consumerReleased = true
  released : r.consumerReleased = r.consumer.pc.released
  releasing : r.consumer.pc = .releasing → r.capacityReleased = true ∧ r.unitsReturned = 0
  submitting : r.phase = .idle ∨ r.phase = .reserved ∨ r.phase = .failing → r.unitsReturned = 0
  failed : r.phase = .failed → r.unitsReturned = 1
  accepted : r.phase = .accepted →
    r.unitsReturned ≤ 1 ∧ (r.unitsReturned = 1 → r.capacityReleased = true)

/-- Every published delta is delivered, in flight or still among the events, as long as the
caller's code has not thrown. -/
structure StreamInv (r : Request) : Prop where
  holding : r.consumer.pc = .holding →
    r.consumer.delivered = [] ∧ r.events = r.published ∧ r.consumer.outcome = none
  stream : r.consumer.hasSink = true → r.consumer.callerError = none →
    r.consumer.delivered ++ r.consumer.pc.inFlight ++ r.events = r.published
  ended : r.consumer.pc.sawDone = true ∨ r.consumer.outcome ≠ none → r.done = true ∧ r.events = []
  waited : r.consumer.outcome ≠ none →
    r.consumer.pc = .leaving ∨ r.consumer.pc.released = true
  returned : ∀ res, r.consumer.outcome = some (.returned res) →
    r.consumer.callerError = none ∧ r.result = some res
  rethrown : ∀ e, r.consumer.outcome = some (.rethrown e) →
    r.consumer.callerError ≠ none ∨ r.error ≠ none

/-- The invariant of a request. One that was not accepted has not been touched. -/
structure ReqInv (r : Request) : Prop where
  untouched : r.phase ≠ .accepted → r = { phase := r.phase, unitsReturned := r.unitsReturned }
  outcome : OutcomeInv r
  capacity : CapacityInv r
  stream : StreamInv r

/-- A request that nobody but its `submit` call has touched. -/
theorem reqInv_untouched {phase : SubmitPhase} {units : Nat}
    (hunits : units = if phase = .failed then 1 else 0) :
    ReqInv { phase := phase, unitsReturned := units } where
  untouched := fun _ => rfl
  outcome := by constructor <;> simp
  capacity := by
    refine ⟨nofun, rfl, nofun, ?_, ?_, ?_⟩
    · rintro (h | h | h) <;> simp_all
    · intro h
      simp_all
    · intro h
      simp_all
  stream := by constructor <;> simp [ConsumerPc.sawDone, ConsumerPc.inFlight]

theorem ReqInv.job {r : Request} (h : ReqInv r) (ha : r.phase = .accepted) (j : Job) :
    ReqInv { r with job := j } where
  untouched := fun hn => absurd ha hn
  outcome := { h.outcome with }
  capacity := { h.capacity with }
  stream := { h.stream with }

/-- What a consumer does not change. -/
theorem ConsumerStep.same {r r' : Request} (h : ConsumerStep r r') :
    r'.phase = r.phase ∧ r'.job = r.job ∧ r'.content = r.content ∧ r'.reasoning = r.reasoning ∧
      r'.result = r.result ∧ r'.error = r.error ∧ r'.done = r.done ∧ r'.published = r.published ∧
      r'.unitsReturned = r.unitsReturned := by
  cases h with
  | releaseConsumer =>
    unfold Request.releaseConsumer
    split <;> exact ⟨rfl, rfl, rfl, rfl, rfl, rfl, rfl, rfl, rfl⟩
  | _ => exact ⟨rfl, rfl, rfl, rfl, rfl, rfl, rfl, rfl, rfl⟩

theorem OutcomeInv.consumer {r r' : Request} (h : OutcomeInv r) (hs : ConsumerStep r r') :
    OutcomeInv r' := by
  obtain ⟨-, -, -, -, hres, herr, hdone, hpub, -⟩ := hs.same
  refine ⟨?_, ?_, ?_⟩
  · rw [hdone, hres, herr]
    exact h.undecided
  · rw [hdone, hres, herr]
    exact h.decided
  · rw [hres, hpub]
    exact h.text

/-- A consumer that moves between two places before `release_consumer`. -/
theorem CapacityInv.moveTo {r r' : Request} (h : CapacityInv r) {pc : ConsumerPc}
    (hold : r.consumer.pc.released = false) (hnew : pc.released = false)
    (hpc : r'.consumer.pc = pc) (hphase : r'.phase = r.phase) (hdone : r'.done = r.done)
    (hunits : r'.unitsReturned = r.unitsReturned) (hcons : r'.consumerReleased = r.consumerReleased)
    (hcap : r'.capacityReleased = r.capacityReleased) : CapacityInv r' where
  taken := by
    rw [hcap, hdone, hcons]
    exact h.taken
  released := by rw [hcons, h.released, hpc, hold, hnew]
  releasing := by
    intro hr
    rw [hpc] at hr
    rw [hr] at hnew
    cases hnew
  submitting := by
    rw [hphase, hunits]
    exact h.submitting
  failed := by
    rw [hphase, hunits]
    exact h.failed
  accepted := by
    rw [hphase, hunits, hcap]
    exact h.accepted

theorem CapacityInv.consumer {r r' : Request} (h : CapacityInv r) (ha : r.phase = .accepted)
    (hs : ConsumerStep r r') : CapacityInv r' := by
  cases hs with
  | releaseConsumer hpc =>
    have hrel : r.consumerReleased = false := by rw [h.released, hpc]; rfl
    have hcap : r.capacityReleased = false := by
      cases hc : r.capacityReleased with
      | false => rfl
      | true => rw [(h.taken hc).2] at hrel; cases hrel
    have hunits : r.unitsReturned = 0 := by
      obtain ⟨hle, hone⟩ := h.accepted ha
      by_contra hne
      rw [hone (by omega)] at hcap
      cases hcap
    unfold Request.releaseConsumer
    split
    next hd =>
      simp only [Bool.and_eq_true, Bool.not_eq_true'] at hd
      refine ⟨fun _ => ⟨hd.1, rfl⟩, rfl, fun _ => ⟨rfl, hunits⟩, ?_, ?_, ?_⟩
      · exact h.submitting
      · exact h.failed
      · exact fun _ => ⟨hunits.le.trans (by decide), fun _ => rfl⟩
    next hd =>
      refine ⟨fun hc => ⟨(h.taken hc).1, rfl⟩, rfl, nofun, ?_, ?_, h.accepted⟩
      · exact h.submitting
      · exact h.failed
  | abandon hpc => exact h.moveTo (by rw [hpc]; rfl) rfl rfl rfl rfl rfl rfl rfl
  | wait _ hpc => exact h.moveTo (by rw [hpc]; rfl) rfl rfl rfl rfl rfl rfl rfl
  | swap hpc => exact h.moveTo (by rw [hpc]; rfl) rfl rfl rfl rfl rfl rfl rfl
  | publish hpc => exact h.moveTo (by rw [hpc]; rfl) rfl rfl rfl rfl rfl rfl rfl
  | sinkThrows hpc => exact h.moveTo (by rw [hpc]; rfl) rfl rfl rfl rfl rfl rfl rfl
  | published hpc => exact h.moveTo (by rw [hpc]; rfl) rfl rfl rfl rfl rfl rfl rfl
  | finish hpc => exact h.moveTo (by rw [hpc]; rfl) rfl rfl rfl rfl rfl rfl rfl
  | @poll done _ hpc =>
    exact h.moveTo (by rw [hpc]; rfl) (by cases done <;> rfl) rfl rfl rfl rfl rfl rfl
  | @pollThrows done hpc =>
    exact h.moveTo (by rw [hpc]; rfl) (by cases done <;> rfl) rfl rfl rfl rfl rfl rfl

/-- Before `wait` has ended there is no outcome. -/
theorem StreamInv.outcome_none {r : Request} (h : StreamInv r) (hl : r.consumer.pc ≠ .leaving)
    (hr : r.consumer.pc.released = false) : r.consumer.outcome = none := by
  by_contra hne
  rcases h.waited hne with hpc | hpc
  · exact hl hpc
  · rw [hr] at hpc
    cases hpc

/-- A step inside the loop of `wait_for_request`, or into it: there is no outcome, and what is seen
of `done` is seen under the lock. -/
theorem StreamInv.loop {r : Request} (hout : r.consumer.outcome = none)
    (hpc : r.consumer.pc ≠ .holding)
    (hstream : r.consumer.hasSink = true → r.consumer.callerError = none →
      r.consumer.delivered ++ r.consumer.pc.inFlight ++ r.events = r.published)
    (hended : r.consumer.pc.sawDone = true → r.done = true ∧ r.events = []) : StreamInv r where
  holding := fun h => absurd h hpc
  stream := hstream
  ended := by
    rintro (h | h)
    · exact hended h
    · exact absurd hout h
  waited := fun h => absurd hout h
  returned := fun res h => by rw [hout] at h; cases h
  rethrown := fun e h => by rw [hout] at h; cases h

theorem StreamInv.consumer {r r' : Request} (h : StreamInv r)
    (hs : ConsumerStep r r') : StreamInv r' := by
  cases hs with
  | abandon hpc =>
    obtain ⟨hdel, hev, hout⟩ := h.holding hpc
    refine StreamInv.loop hout (nofun) (fun _ _ => ?_) nofun
    simp [Request.moveTo, ConsumerPc.inFlight, hdel, hev]
  | wait hasSink hpc =>
    obtain ⟨hdel, hev, hout⟩ := h.holding hpc
    refine StreamInv.loop hout (nofun) (fun _ _ => ?_) nofun
    simp [Request.moveTo, ConsumerPc.inFlight, hdel, hev]
  | swap hpc =>
    have hout := h.outcome_none (by simp [hpc]) (by rw [hpc]; rfl)
    refine StreamInv.loop hout (nofun) (fun hsink hclean => ?_) (fun hd => ⟨hd, rfl⟩)
    have := h.stream hsink hclean
    rw [hpc] at this
    simpa [Request.moveTo, ConsumerPc.inFlight] using this
  -- The event moves from the batch in flight to what was delivered.
  | @publish event rest done hpc =>
    have hout := h.outcome_none (by simp [hpc]) (by rw [hpc]; rfl)
    refine StreamInv.loop hout (nofun) (fun hsink hclean => ?_)
      (fun hd => h.ended (Or.inl (by rw [hpc]; exact hd)))
    have hgive : r.consumer.hasSink = true ∧ r.consumer.callerError = none := ⟨hsink, hclean⟩
    have := h.stream hsink hclean
    rw [hpc] at this
    simpa [Request.moveTo, Request.deliver, ConsumerPc.inFlight, hgive] using this
  | @sinkThrows event rest done hpc hsink hclean =>
    have hout := h.outcome_none (by simp [hpc]) (by rw [hpc]; rfl)
    refine StreamInv.loop hout (nofun) (fun _ hclean' => by cases hclean')
      (fun hd => h.ended (Or.inl (by rw [hpc]; exact hd)))
  | @published done hpc =>
    have hout := h.outcome_none (by simp [hpc]) (by rw [hpc]; rfl)
    refine StreamInv.loop hout (nofun) (fun hsink hclean => ?_)
      (fun hd => h.ended (Or.inl (by rw [hpc]; exact hd)))
    have := h.stream hsink hclean
    rw [hpc] at this
    simpa [Request.moveTo, ConsumerPc.inFlight] using this
  | @poll done requested hpc =>
    have hout := h.outcome_none (by simp [hpc]) (by rw [hpc]; rfl)
    refine StreamInv.loop hout (by cases done <;> nofun) (fun hsink hclean => ?_)
      (fun hd => h.ended (Or.inl ?_))
    · have := h.stream hsink hclean
      rw [hpc] at this
      cases done <;> simpa [Request.moveTo, ConsumerPc.inFlight] using this
    · cases done
      · cases hd
      · rw [hpc]; rfl
  | @pollThrows done hpc hclean =>
    have hout := h.outcome_none (by simp [hpc]) (by rw [hpc]; rfl)
    refine StreamInv.loop hout (by cases done <;> nofun) (fun _ hclean' => by cases hclean')
      (fun hd => h.ended (Or.inl ?_))
    cases done
    · cases hd
    · rw [hpc]; rfl
  -- The outcome is chosen here: the caller's error, the request's, or the result.
  | finish hpc =>
    obtain ⟨hdone, hev⟩ := h.ended (Or.inl (by rw [hpc]; rfl))
    refine ⟨nofun, fun hsink hclean => ?_, fun _ => ⟨hdone, hev⟩, fun _ => Or.inl rfl,
      fun res hres => ?_, fun e he => ?_⟩
    · have := h.stream hsink hclean
      rw [hpc] at this
      simpa [Request.moveTo, ConsumerPc.inFlight] using this
    · simp only [Request.moveTo, Request.waitOutcome] at hres ⊢
      cases hc : r.consumer.callerError with
      | some e => simp [hc] at hres
      | none =>
        cases he : r.error with
        | some e => simp [hc, he] at hres
        | none =>
          simp only [hc, he, Option.map_eq_some_iff, WaitOutcome.returned.injEq,
            exists_eq_right] at hres
          exact ⟨rfl, hres⟩
    · simp only [Request.moveTo, Request.waitOutcome] at he ⊢
      cases hc : r.consumer.callerError with
      | some e' => exact Or.inl nofun
      | none =>
        cases herr : r.error with
        | some e' => exact Or.inr nofun
        | none => simp [hc, herr] at he
  | releaseConsumer hpc =>
    have hstream : r.consumer.hasSink = true → r.consumer.callerError = none →
        r.consumer.delivered ++ [] ++ r.events = r.published := by
      intro hsink hclean
      have := h.stream hsink hclean
      rwa [hpc] at this
    have hended : r.consumer.outcome ≠ none → r.done = true ∧ r.events = [] :=
      fun hne => h.ended (Or.inr hne)
    unfold Request.releaseConsumer
    split
    · exact ⟨nofun, hstream, fun h' => hended (by rcases h' with h' | h'; cases h'; exact h'),
        fun _ => Or.inr rfl, h.returned, h.rethrown⟩
    · exact ⟨nofun, hstream, fun h' => hended (by rcases h' with h' | h'; cases h'; exact h'),
        fun _ => Or.inr rfl, h.returned, h.rethrown⟩

/-- **A consumer keeps the invariant of its request.** -/
theorem ReqInv.consumer {r r' : Request} (h : ReqInv r) (ha : r.phase = .accepted)
    (hs : ConsumerStep r r') : ReqInv r' where
  untouched := fun hn => absurd (hs.same.1.trans ha) hn
  outcome := h.outcome.consumer hs
  capacity := h.capacity.consumer ha hs
  stream := h.stream.consumer hs

/-! ## The state -/

/-- The unit of `outstanding_` that a submission holds. -/
def Request.unit (r : Request) : Nat := if r.phase ≠ .idle ∧ r.unitsReturned = 0 then 1 else 0

/-- The invariant of every state. -/
structure Inv (maxOutstanding : Nat) (s : State) : Prop where
  reqs : ∀ id, ReqInv (s.reqs id)
  ids : ∀ id, (s.reqs id).phase = .idle ↔ id = 0 ∨ s.nextRequestId ≤ id
  next_pos : 0 < s.nextRequestId
  outstanding : s.outstanding = ∑ id ∈ Finset.range s.nextRequestId, (s.reqs id).unit
  bounded : s.outstanding ≤ maxOutstanding
  no_underflow : s.underflowed = false

theorem inv_init (maxOutstanding : Nat) : Inv maxOutstanding {} where
  reqs := fun _ => reqInv_untouched rfl
  ids := by
    intro id
    simp only [true_iff]
    omega
  next_pos := Nat.one_pos
  outstanding := rfl
  bounded := Nat.zero_le _
  no_underflow := rfl

section Inv

variable {maxOutstanding : Nat} {s : State} {id : Nat}

theorem Inv.id_lt (hi : Inv maxOutstanding s) (h : (s.reqs id).phase ≠ .idle) :
    id < s.nextRequestId := by
  have := mt (hi.ids id).mpr h
  omega

/-- The units after one request has changed. -/
theorem sum_unit_setReq (h : id < s.nextRequestId) (r : Request) :
    ∑ i ∈ Finset.range s.nextRequestId, ((s.setReq id r).reqs i).unit + (s.reqs id).unit =
      ∑ i ∈ Finset.range s.nextRequestId, (s.reqs i).unit + r.unit := by
  have hmem := Finset.mem_range.mpr h
  have hrest : ∑ i ∈ (Finset.range s.nextRequestId).erase id, ((s.setReq id r).reqs i).unit =
      ∑ i ∈ (Finset.range s.nextRequestId).erase id, (s.reqs i).unit :=
    Finset.sum_congr rfl fun i hne => by rw [State.setReq_reqs_of_ne _ _ _ (Finset.ne_of_mem_erase hne)]
  have hself : ((s.setReq id r).reqs id).unit = r.unit := by rw [State.setReq_reqs_self]
  have hnew := Finset.add_sum_erase _ (fun i => ((s.setReq id r).reqs i).unit) hmem
  have hold := Finset.add_sum_erase _ (fun i => (s.reqs i).unit) hmem
  omega

/-- A request with a phase changes and keeps its unit. -/
theorem Inv.setReq (hi : Inv maxOutstanding s) (h : (s.reqs id).phase ≠ .idle) {r : Request}
    (hr : ReqInv r) (hphase : r.phase ≠ .idle) (hunit : r.unit = (s.reqs id).unit) :
    Inv maxOutstanding (s.setReq id r) where
  reqs := by
    intro i
    rcases eq_or_ne i id with rfl | hne
    · rwa [State.setReq_reqs_self]
    · rw [State.setReq_reqs_of_ne _ _ _ hne]
      exact hi.reqs i
  ids := by
    intro i
    rcases eq_or_ne i id with rfl | hne
    · rw [State.setReq_reqs_self]
      exact ⟨fun h' => absurd h' hphase, fun h' => absurd ((hi.ids i).mpr h') h⟩
    · rw [State.setReq_reqs_of_ne _ _ _ hne]
      exact hi.ids i
  next_pos := hi.next_pos
  outstanding := by
    have := sum_unit_setReq (hi.id_lt h) r
    have hout := hi.outstanding
    simp only [State.setReq] at this hout ⊢
    omega
  bounded := hi.bounded
  no_underflow := hi.no_underflow

theorem giveBack_reqs (s : State) (id : Nat) (r : Request) :
    ((s.setReq id r).giveBack id).reqs =
      (s.setReq id { r with unitsReturned := r.unitsReturned + 1 }).reqs := by
  simp [State.giveBack, State.updateReq, State.setReq]

/-- **A unit is given back**: `outstanding_` was not zero. -/
theorem Inv.giveBack (hi : Inv maxOutstanding s) (h : (s.reqs id).phase ≠ .idle)
    (hunits : (s.reqs id).unitsReturned = 0) {r : Request}
    (hr : ReqInv { r with unitsReturned := r.unitsReturned + 1 }) (hphase : r.phase ≠ .idle) :
    Inv maxOutstanding ((s.setReq id r).giveBack id) := by
  have hold : (s.reqs id).unit = 1 := if_pos ⟨h, hunits⟩
  have hnew : ({ r with unitsReturned := r.unitsReturned + 1 } : Request).unit = 0 :=
    if_neg (by simp)
  have hsum := sum_unit_setReq (hi.id_lt h) { r with unitsReturned := r.unitsReturned + 1 }
  have hreqs := giveBack_reqs s id r
  have hout := hi.outstanding
  have hpos : s.outstanding ≠ 0 := by omega
  have hdec : ((s.setReq id r).giveBack id).outstanding = s.outstanding - 1 := if_pos hpos
  refine ⟨?_, ?_, hi.next_pos, ?_, ?_, ?_⟩
  · intro i
    rw [hreqs]
    rcases eq_or_ne i id with rfl | hne
    · rwa [State.setReq_reqs_self]
    · rw [State.setReq_reqs_of_ne _ _ _ hne]
      exact hi.reqs i
  · intro i
    rw [hreqs]
    rcases eq_or_ne i id with rfl | hne
    · rw [State.setReq_reqs_self]
      exact ⟨fun h' => absurd h' hphase, fun h' => absurd ((hi.ids i).mpr h') h⟩
    · rw [State.setReq_reqs_of_ne _ _ _ hne]
      exact hi.ids i
  · rw [hreqs, hdec]
    change s.outstanding - 1 = ∑ i ∈ Finset.range s.nextRequestId, _
    omega
  · have := hi.bounded
    omega
  · simp [State.giveBack, State.updateReq, State.setReq, hi.no_underflow, hpos]

/-- The worker's part of an accepted request is free. -/
theorem Inv.updateJob (hi : Inv maxOutstanding s) (ha : (s.reqs id).phase = .accepted)
    (g : Job → Job) : Inv maxOutstanding (s.updateJob id g) :=
  hi.setReq (by simp [ha]) ((hi.reqs id).job ha _) (by simp [ha]) rfl

/-- What a request is before `submit` has ended. -/
theorem Inv.submitting (hi : Inv maxOutstanding s)
    (h : (s.reqs id).phase = .idle ∨ (s.reqs id).phase = .reserved ∨ (s.reqs id).phase = .failing) :
    s.reqs id = { phase := (s.reqs id).phase } := by
  have hunits := (hi.reqs id).capacity.submitting h
  have hr := (hi.reqs id).untouched (by rcases h with h | h | h <;> simp [h])
  rwa [hunits] at hr

/-- A `submit` call moves on to another phase. -/
theorem Inv.setPhase (hi : Inv maxOutstanding s) (h : (s.reqs id).phase = .reserved)
    {phase : SubmitPhase} (hp : phase = .failing ∨ phase = .accepted) :
    Inv maxOutstanding (s.updateReq id fun r => { r with phase := phase }) := by
  have hr := hi.submitting (Or.inr (Or.inl h))
  rw [h] at hr
  refine hi.setReq (by simp [h]) ?_ (by rcases hp with rfl | rfl <;> simp) ?_
  · rw [hr]
    exact reqInv_untouched (by rcases hp with rfl | rfl <;> rfl)
  · rw [hr]
    rcases hp with rfl | rfl <;> rfl

/-- A `submit` call fails and gives its unit back. -/
theorem Inv.reject (hi : Inv maxOutstanding s)
    (h : (s.reqs id).phase = .reserved ∨ (s.reqs id).phase = .failing) :
    Inv maxOutstanding ((s.updateReq id fun r => { r with phase := .failed }).giveBack id) := by
  have hr := hi.submitting (Or.inr h)
  refine hi.giveBack (by rcases h with h | h <;> simp [h]) (by rw [hr]) ?_ (by simp)
  rw [hr]
  exact reqInv_untouched rfl

/-- **The callers keep the invariant.** -/
theorem Inv.caller {s' : State} (hi : Inv maxOutstanding s) (hs : CallerStep maxOutstanding s s') :
    Inv maxOutstanding s' := by
  cases hs with
  | reserve _ hroom =>
    have hidle : (s.reqs s.nextRequestId).phase = .idle := (hi.ids _).mpr (Or.inr (le_refl _))
    have hr := hi.submitting (Or.inl hidle)
    rw [hidle] at hr
    have hne : ∀ i, i ≠ s.nextRequestId → s.reserve.reqs i = s.reqs i := fun i h =>
      State.setReq_reqs_of_ne _ _ _ h
    have hself : s.reserve.reqs s.nextRequestId = { phase := .reserved } := by
      refine (State.setReq_reqs_self ..).trans ?_
      rw [hr]
    refine ⟨fun i => ?_, fun i => ?_, Nat.succ_pos _, ?_, hroom, hi.no_underflow⟩
    · rcases eq_or_ne i s.nextRequestId with rfl | h
      · rw [hself]
        exact reqInv_untouched rfl
      · rw [hne i h]
        exact hi.reqs i
    · have hpos := hi.next_pos
      change _ ↔ i = 0 ∨ s.nextRequestId + 1 ≤ i
      rcases eq_or_ne i s.nextRequestId with rfl | h
      · rw [hself]
        simp only [reduceCtorEq, false_iff]
        omega
      · rw [hne i h, hi.ids i]
        omega
    -- The new identifier adds the one unit that was taken.
    · change s.outstanding + 1 = ∑ i ∈ Finset.range (s.nextRequestId + 1), (s.reserve.reqs i).unit
      rw [Finset.sum_range_succ, hself, hi.outstanding]
      refine congrArg (· + 1) (Finset.sum_congr rfl fun i hlt => ?_)
      rw [hne i (Finset.mem_range.mp hlt).ne]
  | sessionFails h => exact hi.setPhase h (Or.inl rfl)
  | releaseReserved h => exact hi.reject (Or.inr h)
  | enqueue h => exact { hi.setPhase h (Or.inr rfl) with }
  | refuse h => exact hi.reject (Or.inl h)
  | @consumer id r h hstep =>
    obtain ⟨hphase, -, -, -, -, -, -, -, hunits⟩ := hstep.same
    refine hi.setReq (by simp [h]) ((hi.reqs id).consumer h hstep) (by simp [hphase, h]) ?_
    simp only [Request.unit, hphase, hunits]
  | @releaseCapacity id h hpc =>
    have hr := hi.reqs id
    obtain ⟨hcap, hunits⟩ := hr.capacity.releasing hpc
    refine hi.giveBack (by simp [h]) hunits ⟨fun hn => absurd h hn, { hr.outcome with }, ?_, ?_⟩
      (by simp [Request.moveTo, h])
    · refine ⟨hr.capacity.taken, ?_, nofun, ?_, ?_,
        fun _ => ⟨by simp [Request.moveTo, hunits], fun _ => hcap⟩⟩
      · exact (hr.capacity.taken hcap).2
      · intro hp
        simp [Request.moveTo, h] at hp
      · intro hp
        simp [Request.moveTo, h] at hp
    · refine ⟨nofun, fun hsink hclean => ?_, fun h' => ?_, fun _ => Or.inr rfl, hr.stream.returned,
        hr.stream.rethrown⟩
      · have := hr.stream.stream hsink hclean
        rwa [hpc] at this
      · rcases h' with h' | h'
        · cases h'
        · exact hr.stream.ended (Or.inr h')
  | stop => exact { hi with }

end Inv

/-! ## The worker -/

/-- The slots of the lanes below `n` that hold the request `id`. -/
def slotCount (n : Nat) (s : State) (id : Nat) : Nat :=
  ∑ lane ∈ Finset.range n, if s.slots lane = some id then 1 else 0

/-- How often the request `id` is in the queue, in a slot and in the worker's hands. -/
def places (n : Nat) (s : State) (hand : List Nat) (id : Nat) : Nat :=
  s.pending.count id + slotCount n s id + hand.count id

/-- The exceptions the worker's assertion makes at the moment. -/
structure Focus where
  /-- Requests in the worker's hands: neither in the queue nor in a slot. -/
  hand : List Nat := []
  /-- The request that is done and still in its slot. -/
  removing : Option Nat := none
  /-- The request whose texts have been moved out. -/
  moved : Option Nat := none
  /-- The request that is done and for which `mark_completed` is due. -/
  completing : Option Nat := none
  /-- The request whose unit `mark_completed` has taken, and which is to be given back. -/
  returning : Option Nat := none

/-- What is owed for a request that is done. Its unit has been taken if the consumer is gone, and if
it has been taken, it was given back or the consumer is about to; the worker may have to do the one
or the other itself. -/
structure Settled (f : Focus) (id : Nat) (r : Request) : Prop where
  taken : f.completing ≠ some id → r.consumerReleased = true → r.capacityReleased = true
  returned : f.returning ≠ some id → r.capacityReleased = true →
    r.unitsReturned = 1 ∨ r.consumer.pc = .releasing
  due : f.returning = some id →
    r.capacityReleased = true ∧ r.unitsReturned = 0 ∧ r.consumer.pc = .gone

/-- The texts of an open request are those of its published deltas. -/
def TextKept (r : Request) : Prop :=
  r.content = channelText .content r.published ∧ r.reasoning = channelText .reasoning r.published

/-- Whether a request has a place: it is open, or it is done and still to be removed. -/
def Placed (s : State) (f : Focus) (id : Nat) : Prop :=
  (s.reqs id).phase = .accepted ∧ ((s.reqs id).done = false ∨ f.removing = some id)

/-- What the worker knows between two of its actions. -/
structure Work (o : Options) (f : Focus) (s : State) : Prop where
  inv : Inv o.maxOutstanding s
  placed : ∀ id, Placed s f id → places o.maxConcurrency s f.hand id = 1
  unplaced : ∀ id, ¬ Placed s f id → places o.maxConcurrency s f.hand id = 0
  queued : ∀ id ∈ s.pending, (s.reqs id).job.output = {}
  lanes : ∀ lane id, s.slots lane = some id →
    lane < o.maxConcurrency ∧ (s.reqs id).job.lane = some lane
  text : ∀ id, (s.reqs id).done = false → f.moved ≠ some id → TextKept (s.reqs id)
  settled : ∀ id, (s.reqs id).done = true → Settled f id (s.reqs id)

theorem work_init (o : Options) : Work o {} {} where
  inv := inv_init _
  placed := by
    rintro id ⟨h, -⟩
    cases h
  unplaced := by
    intro id _
    simp [places, slotCount]
  queued := nofun
  lanes := nofun
  text := fun _ _ _ => ⟨rfl, rfl⟩
  settled := nofun

section Caller

variable {o : Options} {f : Focus} {s s' : State} {id : Nat}

/-- As long as the consumer has not released the request, nothing is owed. -/
theorem settled_of_not_released {r : Request} (hr : ReqInv r)
    (h : r.consumer.pc.released = false) (hret : f.returning ≠ some id) : Settled f id r := by
  have hrel : r.consumerReleased = false := hr.capacity.released.trans h
  refine ⟨fun _ h' => ?_, fun _ h' => ?_, fun h' => absurd h' hret⟩
  · rw [hrel] at h'
    cases h'
  · rw [(hr.capacity.taken h').2] at hrel
    cases hrel

/-- A consumer that releases a request which is done takes its unit. -/
theorem Settled.consumer {r r' : Request} (h : Settled f id r) (hr : ReqInv r)
    (ha : r.phase = .accepted) (hdone : r.done = true) (hs : ConsumerStep r r') :
    Settled f id r' := by
  have hr' := hr.consumer ha hs
  -- The worker returns units of requests whose consumer is gone.
  have hret : f.returning ≠ some id := fun hret => by
    have hgone := (h.due hret).2.2
    cases hs <;> simp_all
  cases hs with
  | releaseConsumer hpc =>
    have hcap : r.capacityReleased = false := by
      cases hc : r.capacityReleased with
      | false => rfl
      | true =>
        have hrel := hr.capacity.released
        rw [(hr.capacity.taken hc).2, hpc] at hrel
        cases hrel
    have htake : (r.done && !r.capacityReleased) = true := by simp [hdone, hcap]
    rw [Request.releaseConsumer, if_pos htake]
    exact ⟨fun _ _ => rfl, fun _ _ => Or.inr rfl, fun h' => absurd h' hret⟩
  | @poll done => exact settled_of_not_released hr' (by cases done <;> rfl) hret
  | @pollThrows done => exact settled_of_not_released hr' (by cases done <;> rfl) hret
  | _ => exact settled_of_not_released hr' rfl hret

/-- A change that leaves alone what the worker's assertion speaks of, beside the invariant. -/
theorem Work.transfer (hw : Work o f s) (hinv : Inv o.maxOutstanding s')
    (hpending : s'.pending = s.pending) (hslots : s'.slots = s.slots)
    (hreqs : ∀ id, ((s'.reqs id).phase = .accepted ↔ (s.reqs id).phase = .accepted) ∧
      (s'.reqs id).job = (s.reqs id).job ∧ (s'.reqs id).done = (s.reqs id).done ∧
      (TextKept (s.reqs id) → TextKept (s'.reqs id)))
    (hsettled : ∀ id, (s.reqs id).done = true → Settled f id (s.reqs id) →
      Settled f id (s'.reqs id)) :
    Work o f s' := by
  have hplaced : ∀ id, Placed s' f id ↔ Placed s f id := fun id => by
    rw [Placed, Placed, (hreqs id).1, (hreqs id).2.2.1]
  have hplaces : ∀ id, places o.maxConcurrency s' f.hand id =
      places o.maxConcurrency s f.hand id := fun id => by
    rw [places, places, slotCount, slotCount, hpending, hslots]
  refine ⟨hinv, fun id h => ?_, fun id h => ?_, fun id h => ?_, fun lane id h => ?_,
    fun id h hm => ?_, fun id h => ?_⟩
  · rw [hplaces]
    exact hw.placed id ((hplaced id).mp h)
  · rw [hplaces]
    exact hw.unplaced id (mt (hplaced id).mpr h)
  · rw [(hreqs id).2.1]
    exact hw.queued id (hpending ▸ h)
  · rw [(hreqs id).2.1]
    exact hw.lanes lane id (hslots ▸ h)
  · rw [(hreqs id).2.2.1] at h
    exact (hreqs id).2.2.2 (hw.text id h hm)
  · rw [(hreqs id).2.2.1] at h
    exact hsettled id h (hw.settled id h)

/-- A change of one request, to which the same applies. -/
theorem Work.setReq (hw : Work o f s) {r : Request} (hinv : Inv o.maxOutstanding s')
    (hpending : s'.pending = s.pending) (hslots : s'.slots = s.slots)
    (hreqs : s'.reqs = (s.setReq id r).reqs)
    (hphase : r.phase = .accepted ↔ (s.reqs id).phase = .accepted)
    (hjob : r.job = (s.reqs id).job) (hdone : r.done = (s.reqs id).done)
    (htext : TextKept (s.reqs id) → TextKept r)
    (hsettled : (s.reqs id).done = true → Settled f id (s.reqs id) → Settled f id r) : Work o f s' := by
  refine hw.transfer hinv hpending hslots (fun i => ?_) (fun i => ?_) <;> rw [hreqs]
  · rcases eq_or_ne i id with rfl | hne
    · rw [State.setReq_reqs_self]
      exact ⟨hphase, hjob, hdone, htext⟩
    · rw [State.setReq_reqs_of_ne _ _ _ hne]
      exact ⟨Iff.rfl, rfl, rfl, fun h => h⟩
  · rcases eq_or_ne i id with rfl | hne
    · rw [State.setReq_reqs_self]
      exact hsettled
    · rw [State.setReq_reqs_of_ne _ _ _ hne]
      exact fun _ h => h

/-- A `submit` call that does not end in the queue. -/
theorem Work.setPhase (hw : Work o f s) {r : Request} (hinv : Inv o.maxOutstanding s')
    (hpending : s'.pending = s.pending) (hslots : s'.slots = s.slots)
    (hreqs : s'.reqs = (s.setReq id r).reqs) (hold : (s.reqs id).phase ≠ .accepted)
    (hnew : r.phase ≠ .accepted)
    (hsame : { s.reqs id with phase := r.phase, unitsReturned := r.unitsReturned } = r) :
    Work o f s' := by
  have hfresh := (hw.inv.reqs id).untouched hold
  have hdone : (s.reqs id).done = false := by rw [hfresh]
  refine hw.setReq hinv hpending hslots hreqs ⟨fun h => absurd h hnew, fun h => absurd h hold⟩
    ?_ ?_ ?_ ?_
  · rw [← hsame]
  · rw [← hsame]
  · rw [← hsame]
    exact fun h => h
  · intro h
    rw [hdone] at h
    cases h

/-- An accepted request enters the queue. -/
theorem Work.enqueue (hw : Work o f s) (h : (s.reqs id).phase = .reserved)
    (hinv : Inv o.maxOutstanding (s.enqueue id)) : Work o f (s.enqueue id) := by
  have hfresh := hw.inv.submitting (Or.inr (Or.inl h))
  have hself : (s.enqueue id).reqs id = { s.reqs id with phase := .accepted } :=
    State.setReq_reqs_self ..
  have hne : ∀ i, i ≠ id → (s.enqueue id).reqs i = s.reqs i := fun i hi =>
    State.setReq_reqs_of_ne _ _ _ hi
  have hplaces : ∀ i, places o.maxConcurrency (s.enqueue id) f.hand i =
      places o.maxConcurrency s f.hand i + if i = id then 1 else 0 := by
    intro i
    have hcount : (s.pending ++ [id]).count i = s.pending.count i + if i = id then 1 else 0 := by
      rw [List.count_append, List.count_singleton]
      by_cases hi : i = id
      · simp [hi]
      · simp [hi, Ne.symm hi]
    change (s.pending ++ [id]).count i + slotCount _ s i + f.hand.count i = _
    rw [hcount, places]
    omega
  have hout : ¬ Placed s f id := fun hp => by
    rw [Placed, h] at hp
    cases hp.1
  refine ⟨hinv, fun i hp => ?_, fun i hp => ?_, fun i hmem => ?_, fun lane i hslot => ?_,
    fun i hd hm => ?_, fun i hd => ?_⟩
  · rw [hplaces]
    rcases eq_or_ne i id with rfl | hi
    · rw [hw.unplaced i hout, if_pos rfl]
    · rw [Placed, hne i hi] at hp
      rw [hw.placed i hp, if_neg hi]
  · rw [hplaces]
    rcases eq_or_ne i id with rfl | hi
    · refine absurd ⟨?_, Or.inl ?_⟩ hp
      · rw [hself]
      · rw [hself, hfresh]
    · rw [Placed, hne i hi] at hp
      rw [hw.unplaced i hp, if_neg hi]
  · rcases eq_or_ne i id with rfl | hi
    · rw [hself, hfresh]
    · rw [hne i hi]
      refine hw.queued i ?_
      simpa [State.enqueue, hi] using hmem
  · rcases eq_or_ne i id with rfl | hi
    · rw [hself]
      exact hw.lanes lane i hslot
    · rw [hne i hi]
      exact hw.lanes lane i hslot
  · rcases eq_or_ne i id with rfl | hi
    · rw [hself] at hd ⊢
      exact hw.text i hd hm
    · rw [hne i hi] at hd ⊢
      exact hw.text i hd hm
  · rcases eq_or_ne i id with rfl | hi
    · rw [hself] at hd ⊢
      exact { hw.settled i hd with }
    · rw [hne i hi] at hd ⊢
      exact hw.settled i hd

/-- **The callers keep the worker's assertion.** -/
theorem Work.caller (hw : Work o f s) (hs : CallerStep o.maxOutstanding s s') : Work o f s' := by
  have hinv := hw.inv.caller hs
  cases hs with
  | reserve =>
    have hidle : (s.reqs s.nextRequestId).phase = .idle := (hw.inv.ids _).mpr (Or.inr (le_refl _))
    exact hw.setPhase hinv rfl rfl rfl (by simp [hidle]) (by simp) rfl
  | sessionFails h => exact hw.setPhase hinv rfl rfl rfl (by simp [h]) (by simp) rfl
  | releaseReserved h =>
    exact hw.setPhase hinv rfl rfl (giveBack_reqs ..) (by simp [h]) (by simp) rfl
  | enqueue h => exact hw.enqueue h hinv
  | refuse h => exact hw.setPhase hinv rfl rfl (giveBack_reqs ..) (by simp [h]) (by simp) rfl
  | consumer h hstep =>
    obtain ⟨hphase, hjob, hcont, hreas, -, -, hdone, hpub, -⟩ := hstep.same
    refine hw.setReq hinv rfl rfl rfl (by rw [hphase]) hjob hdone (fun ht => ?_) (fun hd hset => ?_)
    · rw [TextKept, hcont, hreas, hpub]
      exact ht
    · exact hset.consumer (hw.inv.reqs _) h hd hstep
  | releaseCapacity h hpc =>
    have hunits := ((hw.inv.reqs _).capacity.releasing hpc).2
    refine hw.setReq hinv rfl rfl (giveBack_reqs ..) Iff.rfl rfl rfl (fun ht => ht)
      (fun _ hset => ⟨hset.taken, fun _ _ => Or.inl ?_, fun hret => ?_⟩)
    · simp [Request.moveTo, hunits]
    · have hgone := (hset.due hret).2.2
      rw [hpc] at hgone
      cases hgone
  | stop =>
    exact hw.transfer hinv rfl rfl (fun _ => ⟨Iff.rfl, rfl, rfl, fun h => h⟩) fun _ _ h => h

end Caller

end Ninfer.Executor
