import Ninfer.Executor.Admit

/-!
# The runs of the executor

The assertion of the worker holds at every boundary of its loops, whatever the callers do in
between, and so do the consequences: no request is lost or completed twice, the units of
`outstanding_` are given back once each, and a consumer is handed what the result says.

## Main definitions

* `blockPre`: what holds at a label of the worker
* `InOnePlace`: a request is in the queue once, or in exactly one slot
* `workerStep`: the worker as a function, for given answers of the oracle

## Main results

* `reachable_good`, `reachable_inv`: the assertion and the invariant along every interleaving
* `no_request_lost`, `capacity_accounting`, `streamed_output_complete`
-/

namespace Ninfer.Executor

variable {o : Options} {c c' : Config} {id : Nat}

/-- What holds at a label of the worker. -/
def blockPre (o : Options) : Label → State → Prop
  | .top _ => Work o {}
  | .admitting .. => Work o {}
  | .failing _ => Work o {}
  | .returned => Ended o

theorem blockPre_caller (l : Label) {s s' : State} (hs : CallerStep o.maxOutstanding s s')
    (h : blockPre o l s) : blockPre o l s' := by
  cases l with
  | top => exact Work.caller h hs
  | admitting => exact Work.caller h hs
  | failing => exact Work.caller h hs
  | returned => exact Ended.rely h (.single hs)

theorem blockPre_work {l : Label} {s : State} (h : blockPre o l s) : Work o {} s := by
  cases l with
  | top => exact h
  | admitting => exact h
  | failing => exact h
  | returned => exact h.work

theorem decodeOrIdle_spec {s : State} (hw : Work o {} s) (previousUnitWasDecode : Bool)
    (membership : List (Nat × Nat)) :
    Spec o (decodeOrIdle previousUnitWasDecode membership) (blockPre o) (fun _ => Work o {}) s :=
  Prog.wp_ite (fun _ => hw) fun _ => Prog.wp_seq (runDecodeRound_spec hw membership) fun _ _ h => h

theorem iteration_spec {s : State} (hw : Work o {} s) (previousUnitWasDecode : Bool) :
    Spec o (iteration o previousUnitWasDecode) (blockPre o) (fun _ => Work o {}) s := by
  refine Prog.wp_seq (expirePendingRequests_spec hw) fun havePending s₁ hw => ?_
  refine read_seq hw fun s₂ hrely => ?_
  refine Prog.wp_seq (cancelActiveRequests_spec (hw.rely hrely) _ _) fun _ s₃ hw => ?_
  refine Prog.wp_seq (buildRoundMembership_spec hw _) fun membership s₄ hw => ?_
  refine read_seq hw fun s₅ hrely => ?_
  have hw := hw.rely hrely
  refine Prog.wp_ite (fun _ => Prog.wp_ite (fun _ => ?_) fun _ => ?_) fun _ =>
    Prog.wp_ite (fun _ => hw) fun _ => decodeOrIdle_spec hw _ _
  · exact Prog.wp_seq (runDecodeRound_spec hw membership) fun _ _ h => h
  · exact Prog.wp_seq (runPrefillStep_spec hw) fun _ _ h => h

theorem admission_spec {s : State} (hw : Work o {} s) (previousUnitWasDecode : Bool)
    (membership : List (Nat × Nat)) (control : Bool) :
    Spec o (admission o previousUnitWasDecode membership control) (blockPre o)
      (fun _ => Work o {}) s := by
  refine Prog.wp_seq (tryAdmitOnce_spec hw control) fun next s₁ hw => ?_
  split
  · exact hw
  · exact hw
  · exact Prog.wp_ite (fun _ => hw) fun _ => decodeOrIdle_spec hw _ _

/-- **Every block of the worker leads from its precondition to those of its successors.** -/
theorem workerLoop_spec (l : Label) (p : Worker Label) (s : State) (hl : workerLoop o l = some p)
    (h : blockPre o l s) : Spec o p (blockPre o) (fun _ _ => True) s := by
  cases l with
  | top previousUnitWasDecode =>
    obtain rfl := Option.some.inj hl
    have hw : Work o {} s := h
    refine read_seq hw fun s₁ hrely => ?_
    have hw := hw.rely hrely
    split
    · exact hw
    · exact hw
    · exact (Prog.wp_handle _ _ _).mpr ((iteration_spec hw _).mono (fun _ _ h => h) fun _ _ h => h)
  | admitting previousUnitWasDecode membership control =>
    obtain rfl := Option.some.inj hl
    exact (Prog.wp_handle _ _ _).mpr
      ((admission_spec h _ membership control).mono (fun _ _ h => h) fun _ _ h => h)
  | failing error =>
    obtain rfl := Option.some.inj hl
    exact Prog.wp_seq (failAll_spec h error) fun _ _ h => h
  | returned => cases hl

/-- **The assertion of the worker holds along every interleaving.** -/
theorem reachable_good (h : Reachable o c) :
    Good (CallerStep o.maxOutstanding) (Guarantee o) (blockPre o) c := by
  refine machine_good (c := Config.init) ?_ workerLoop_spec (work_init o) h
  exact fun l => blockPre_caller l

/-- What one step of a run does to the state. -/
theorem ExecutorStep.effect (h : Reachable o c) (hs : ExecutorStep o c c') :
    CallerStep o.maxOutstanding c.2 c'.2 ∨ Guarantee o c.2 c'.2 ∨ c'.2 = c.2 := by
  refine (machineStep_good ?_ workerLoop_spec (reachable_good h) hs).2
  exact fun l => blockPre_caller l

/-- **The invariant holds in every state of every run.** -/
theorem reachable_inv (h : Reachable o c) : Inv o.maxOutstanding c.2 := by
  induction h with
  | refl => exact inv_init _
  | tail hr hs ih =>
    rcases ExecutorStep.effect hr hs with h | h | h
    · exact ih.caller h
    · exact h.inv
    · rw [h]
      exact ih

/-- At a label of the worker, its assertion holds. -/
theorem reachable_work (h : Reachable o c) {l : Label} (hl : c.1 = .label l) : Work o {} c.2 := by
  have hg := reachable_good h
  obtain ⟨w, s⟩ := c
  obtain rfl : w = .label l := hl
  exact blockPre_work hg

theorem reachable_ended (h : Reachable o c) (hl : c.1 = .label .returned) : Ended o c.2 := by
  have hg := reachable_good h
  obtain ⟨w, s⟩ := c
  obtain rfl : w = .label .returned := hl
  exact hg

/-! ## No request is lost -/

/-- The request `id` is in the queue once and in no slot, or in exactly one slot and not in the
queue. -/
def InOnePlace (o : Options) (s : State) (id : Nat) : Prop :=
  (s.pending.count id = 1 ∧ ∀ lane < o.maxConcurrency, s.slots lane ≠ some id) ∨
    (id ∉ s.pending ∧ ∃! lane, lane < o.maxConcurrency ∧ s.slots lane = some id)

theorem slotCount_eq_card (n : Nat) (s : State) (id : Nat) :
    slotCount n s id = ((Finset.range n).filter fun lane => s.slots lane = some id).card :=
  (Finset.card_filter _ _).symm

theorem inOnePlace_of_count {s : State}
    (h : s.pending.count id + slotCount o.maxConcurrency s id = 1) : InOnePlace o s id := by
  rw [slotCount_eq_card] at h
  set lanes := (Finset.range o.maxConcurrency).filter fun lane => s.slots lane = some id with hlanes
  rcases Nat.eq_zero_or_pos (s.pending.count id) with hzero | hpos
  · refine Or.inr ⟨List.count_eq_zero.mp hzero, ?_⟩
    obtain ⟨lane, hlane⟩ := Finset.card_eq_one.mp (by omega : lanes.card = 1)
    have hmem : ∀ l, l < o.maxConcurrency ∧ s.slots l = some id ↔ l = lane := fun l => by
      have hl : l ∈ lanes ↔ l = lane := by rw [hlane, Finset.mem_singleton]
      rw [← hl, hlanes, Finset.mem_filter, Finset.mem_range]
    exact ⟨lane, (hmem lane).mpr rfl, fun l hl => (hmem l).mp hl⟩
  · refine Or.inl ⟨by omega, fun lane hl hslot => ?_⟩
    have hempty := Finset.card_eq_zero.mp (by omega : lanes.card = 0)
    exact Finset.notMem_empty lane (hempty ▸ Finset.mem_filter.mpr ⟨Finset.mem_range.mpr hl, hslot⟩)

/-- An outcome, once it is there, stays. -/
theorem outcome_stable (h : Reachable o c) (hr : Relation.ReflTransGen (ExecutorStep o) c c')
    (hd : (c.2.reqs id).done = true) :
    (c'.2.reqs id).done = true ∧ (c'.2.reqs id).result = (c.2.reqs id).result ∧
      (c'.2.reqs id).error = (c.2.reqs id).error := by
  induction hr with
  | refl => exact ⟨hd, rfl, rfl⟩
  | tail hr hs ih =>
    obtain ⟨hd', hres, herr⟩ := ih
    rw [← hres, ← herr]
    rcases ExecutorStep.effect (h.trans hr) hs with h' | h' | h'
    · exact ⟨(h'.quiet.done id).trans hd', (h'.quiet.outcome id).1, (h'.quiet.outcome id).2⟩
    · exact h'.outcome id hd'
    · rw [h']
      exact ⟨hd', rfl, rfl⟩

/-- Once the engine has failed, no `submit` call succeeds. -/
theorem CallerStep.accepted_of_failed {s s' : State} (h : CallerStep o.maxOutstanding s s')
    (hf : s.failed = true) (ha : (s'.reqs id).phase = .accepted) : (s.reqs id).phase = .accepted := by
  have kept : ∀ {r : Request} {i : Nat}, ((s.setReq i r).reqs id).phase = .accepted →
      (r.phase = .accepted → (s.reqs i).phase = .accepted) → (s.reqs id).phase = .accepted := by
    intro r i ha hr
    rcases eq_or_ne id i with rfl | hne
    · rw [State.setReq_reqs_self] at ha
      exact hr ha
    · rwa [State.setReq_reqs_of_ne _ _ _ hne] at ha
  cases h with
  | reserve hopen =>
    rw [hf] at hopen
    cases hopen.2
  | enqueue _ hopen =>
    rw [hf] at hopen
    cases hopen.2
  | sessionFails => exact kept ha (by rintro ⟨⟩)
  | consumer h => exact kept ha fun _ => h
  | releaseReserved =>
    rw [State.updateReq, giveBack_reqs] at ha
    exact kept ha (by rintro ⟨⟩)
  | refuse =>
    rw [State.updateReq, giveBack_reqs] at ha
    exact kept ha (by rintro ⟨⟩)
  | releaseCapacity h =>
    rw [State.updateReq, giveBack_reqs] at ha
    exact kept ha fun _ => h
  | stop => exact ha

/-- After the worker has returned, it stays there, and no request is accepted any more. -/
theorem accepted_before_returned (h : Reachable o c) (hl : c.1 = .label .returned)
    (hr : Relation.ReflTransGen (ExecutorStep o) c c') :
    c'.1 = .label .returned ∧
      ((c'.2.reqs id).phase = .accepted → (c.2.reqs id).phase = .accepted) := by
  induction hr with
  | refl => exact ⟨hl, fun ha => ha⟩
  | @tail c₁ c₂ hr hs ih =>
    obtain ⟨w, s⟩ := c₁
    obtain ⟨rfl, hacc⟩ : w = .label .returned ∧ _ := ih
    have hended := reachable_ended (h.trans hr) rfl
    cases hs with
    | enter hcode => cases hcode
    | env he => exact ⟨rfl, fun ha => hacc (he.accepted_of_failed hended.failed ha)⟩

/-- **No request is lost or completed twice.** At every boundary of the worker's loops an accepted
request that is not done is in exactly one place; a request that is done has exactly one of a result
and an error, and keeps it; when the worker has returned, every accepted request is done and no
later `submit` is accepted. -/
theorem no_request_lost (h : Reachable o c) :
    (∀ l, c.1 = .label l → ∀ id, (c.2.reqs id).phase = .accepted → (c.2.reqs id).done = false →
      InOnePlace o c.2 id) ∧
    (∀ id, ((c.2.reqs id).done = false →
        (c.2.reqs id).result = none ∧ (c.2.reqs id).error = none) ∧
      ((c.2.reqs id).done = true →
        ((c.2.reqs id).result.isSome ∧ (c.2.reqs id).error = none) ∨
          ((c.2.reqs id).result = none ∧ (c.2.reqs id).error.isSome))) ∧
    (∀ c', Relation.ReflTransGen (ExecutorStep o) c c' → ∀ id, (c.2.reqs id).done = true →
      (c'.2.reqs id).done = true ∧ (c'.2.reqs id).result = (c.2.reqs id).result ∧
        (c'.2.reqs id).error = (c.2.reqs id).error) ∧
    (c.1 = .label .returned →
      (∀ id, (c.2.reqs id).phase = .accepted → (c.2.reqs id).done = true) ∧
      ∀ c', Relation.ReflTransGen (ExecutorStep o) c c' → ∀ id,
        (c'.2.reqs id).phase = .accepted → (c.2.reqs id).phase = .accepted) := by
  refine ⟨fun l hl id ha hd => ?_, fun id => ?_, fun c' hr id hd => outcome_stable h hr hd,
    fun hl => ⟨fun id ha => ?_, fun c' hr id => ?_⟩⟩
  -- The invariant counts the places of a request: one as long as it is not done.
  · have hone := (reachable_work h hl).placed id ⟨ha, Or.inl hd⟩
    exact inOnePlace_of_count (by simpa [places] using hone)
  · have hout := ((reachable_inv h).reqs id).outcome
    exact ⟨hout.undecided, hout.decided⟩
  · exact (reachable_ended h hl).done ha
  · exact (accepted_before_returned h hl hr).2

/-! ## Concrete runs -/

/-- The worker as a function, for given answers of the oracle. It stays where it has returned or
ended. -/
def workerStep (o : Options) (answers : ∀ {β : Type}, Oracle β → β) : Config → Config
  | (.label l, s) =>
    match workerLoop o l with
    | some p => (.run p, s)
    | none => (.label l, s)
  | (.run (.act f k), s) => (.run (k (f s).1), (f s).2)
  | (.run (.ask q k), s) => (.run (k (answers q)), s)
  | (.run (.ret l), s) => (.label l, s)
  | c => c

theorem Reachable.workerStep (h : Reachable o c) (answers : ∀ {β : Type}, Oracle β → β) :
    Reachable o (workerStep o answers c) := by
  unfold Executor.workerStep
  split
  · split
    next hl => exact h.tail (.enter hl)
    · exact h
  · exact h.tail .act
  · exact h.tail (.ask _ trivial)
  · exact h.tail .goto
  · exact h

/-- The worker makes `n` steps. -/
def workerSteps (o : Options) (answers : ∀ {β : Type}, Oracle β → β) : Nat → Config → Config
  | 0, c => c
  | n + 1, c => workerSteps o answers n (workerStep o answers c)

theorem Reachable.workerSteps (answers : ∀ {β : Type}, Oracle β → β) :
    ∀ (n : Nat) {c : Config}, Reachable o c → Reachable o (workerSteps o answers n c)
  | 0, _, h => h
  | n + 1, _, h => Reachable.workerSteps answers n (h.workerStep answers)

theorem Reachable.caller (h : Reachable o c) {s : State}
    (hs : CallerStep o.maxOutstanding c.2 s) : Reachable o (c.1, s) :=
  h.tail (.env hs)

/-- An engine that runs one request, with one more in the queue. -/
def smallEngine : Options where
  maxConcurrency := 1
  maxPendingRequests := 1
  admissionCapacity := { activeLanes := 1 }
  maxConcurrency_pos := by decide
  maxConcurrency_le := by decide
  maxPendingRequests_pos := by decide

/-- A plan for one token. -/
def smallPlan : RequestPlanSummary where
  promptTokens := 1
  requestedOutputTokens := 1
  effectiveOutputTokens := 1
  effectiveLimitReason := .outputLimit
  admission := { activeLanes := 1 }
  serviceWorkQuanta := 2

/-- A target that admits everything and finishes each request with its first token. -/
def smallTarget : ∀ {β : Type}, Oracle β → β
  | _, .deadlinesPassed => fun _ => false
  | _, .planRequestBase _ => .ok smallPlan
  | _, .planRequestForLane _ _ => .ok smallPlan
  | _, .canAdmitLane _ _ => true
  | _, .canAdmitLaneAfterRetainedEviction _ _ => true
  | _, .hasRetainedLane _ => false
  | _, .evictRetainedLane _ => ()
  | _, .abortLane _ => ()
  | _, .startPrefillLane _ _ => .ok { tokens := [7], complete := true }
  | _, .advancePrefillLane _ => .ok { tokens := [7], complete := true }
  | _, .resolvePrefillLane _ _ => .ok ()
  | _, .decodeBatch _ _ => .ok {}
  | _, .resolvePendingBatch _ _ _ _ => .ok ()
  | _, .activateRequestMemory _ _ => .ok ()
  | _, .decodeRound _ _ _ => .ok (⟨1, .outputLimit⟩, [⟨.content, "a"⟩])
  | _, .terminalize _ => .ok []

/-- One request in the queue. -/
def queuedOne : State := State.enqueue (State.reserve {}) 1

theorem queuedOne_reachable : Reachable smallEngine (.label (.top false), queuedOne) := by
  have hreserved : Reachable smallEngine (.label (.top false), State.reserve {}) :=
    Reachable.caller .refl (.reserve ⟨rfl, rfl⟩ (by decide))
  exact hreserved.caller (.enqueue rfl ⟨rfl, rfl⟩)

/-- The request that was just accepted is in one place. -/
theorem queuedOne_inOnePlace : InOnePlace smallEngine queuedOne 1 :=
  (no_request_lost queuedOne_reachable).1 (.top false) rfl 1 rfl rfl

/-! ## Outstanding capacity -/

namespace State

/-- The submissions between `++outstanding_` and their end. -/
def submitting (s : State) : Nat :=
  ((Finset.range s.nextRequestId).filter fun id =>
    (s.reqs id).phase = .reserved ∨ (s.reqs id).phase = .failing).card

/-- The accepted requests whose `capacity_released` is false. -/
def unreleased (s : State) : Nat :=
  ((Finset.range s.nextRequestId).filter fun id =>
    (s.reqs id).phase = .accepted ∧ (s.reqs id).capacityReleased = false).card

/-- The accepted requests whose unit has been taken, and for which the decrement is still due. -/
def returning (s : State) : Nat :=
  ((Finset.range s.nextRequestId).filter fun id =>
    (s.reqs id).phase = .accepted ∧ (s.reqs id).capacityReleased = true ∧
      (s.reqs id).unitsReturned = 0).card

end State

/-- What the unit of a request is for. -/
theorem CapacityInv.unit_eq {r : Request} (h : CapacityInv r) :
    r.unit = (if r.phase = .reserved ∨ r.phase = .failing then 1 else 0) +
      (if r.phase = .accepted ∧ r.capacityReleased = false then 1 else 0) +
      (if r.phase = .accepted ∧ r.capacityReleased = true ∧ r.unitsReturned = 0 then 1 else 0) := by
  unfold Request.unit
  cases hphase : r.phase with
  | idle => simp
  | reserved => simp [h.submitting (by simp [hphase])]
  | failing => simp [h.submitting (by simp [hphase])]
  | failed => simp [h.failed hphase]
  | accepted =>
    obtain ⟨hle, hone⟩ := h.accepted hphase
    cases hcap : r.capacityReleased with
    | true => simp
    | false =>
      -- A unit that was not taken has not been given back.
      have hzero : r.unitsReturned = 0 := by
        by_contra hne
        rw [hone (by omega)] at hcap
        cases hcap
      simp [hzero]

theorem Inv.outstanding_eq {maxOutstanding : Nat} {s : State} (h : Inv maxOutstanding s) :
    s.outstanding = s.submitting + s.unreleased + s.returning := by
  rw [h.outstanding, State.submitting, State.unreleased, State.returning]
  simp only [Finset.card_filter]
  rw [← Finset.sum_add_distrib, ← Finset.sum_add_distrib]
  exact Finset.sum_congr rfl fun id _ => (h.reqs id).capacity.unit_eq

/-- **Outstanding capacity.** `outstanding_` counts the open submissions, the accepted requests
whose unit is not taken, and those whose unit is taken with the decrement still due. It does not
exceed its bound, and no decrement finds it at zero. A unit is given back at most once, only after
the request is done and released by its consumer; and whenever the worker is between its actions, it
has been given back then, or the consumer is about to do it. -/
theorem capacity_accounting (h : Reachable o c) :
    c.2.outstanding = c.2.submitting + c.2.unreleased + c.2.returning ∧
    c.2.outstanding ≤ o.maxOutstanding ∧ c.2.underflowed = false ∧
    (∀ id, (c.2.reqs id).phase = .accepted → (c.2.reqs id).unitsReturned ≤ 1 ∧
      ((c.2.reqs id).unitsReturned = 1 →
        (c.2.reqs id).done = true ∧ (c.2.reqs id).consumerReleased = true)) ∧
    (∀ l, c.1 = .label l → ∀ id, (c.2.reqs id).done = true →
      (c.2.reqs id).consumerReleased = true →
        (c.2.reqs id).unitsReturned = 1 ∨ (c.2.reqs id).consumer.pc = .releasing) := by
  have hi := reachable_inv h
  refine ⟨hi.outstanding_eq, hi.bounded, hi.no_underflow, fun id ha => ?_, fun l hl id hd hrel => ?_⟩
  · have hcap := (hi.reqs id).capacity
    obtain ⟨hle, hone⟩ := hcap.accepted ha
    exact ⟨hle, fun hu => hcap.taken (hone hu)⟩
  -- Between critical sections a released consumer has given its unit back, or is about to.
  · have hset := (reachable_work h hl).settled id hd
    exact hset.returned nofun (hset.taken nofun hrel)

/-- The accepted request is dropped without a `wait`. -/
def abandonedOne : State :=
  queuedOne.setReq 1 ({ queuedOne.reqs 1 with cancelled := true }.moveTo .leaving)

/-- Its consumer has released it. -/
def releasedOne : State := abandonedOne.setReq 1 (abandonedOne.reqs 1).releaseConsumer

theorem releasedOne_reachable : Reachable smallEngine (.label (.top false), releasedOne) := by
  have habandoned : Reachable smallEngine (.label (.top false), abandonedOne) :=
    queuedOne_reachable.caller (.consumer rfl (.abandon rfl))
  exact habandoned.caller (.consumer rfl (.releaseConsumer rfl))

/-- The worker completes the request as cancelled, up to the end of `mark_completed`. -/
def takenOne : Config := workerSteps smallEngine smallTarget 12 (.label (.top false), releasedOne)

theorem capacity_accounting_taken :
    takenOne.2.outstanding = takenOne.2.submitting + takenOne.2.unreleased + takenOne.2.returning ∧
      takenOne.2.returning = 1 :=
  ⟨(capacity_accounting (releasedOne_reachable.workerSteps smallTarget 12)).1, by decide⟩

/-- Between `mark_completed` and `release_reserved_capacity`, `outstanding_` exceeds the open
submissions and the requests whose `capacity_released` is false. -/
theorem outstanding_not_unreleased :
    ¬ ∀ (o : Options) (c : Config), Reachable o c →
      c.2.outstanding = c.2.submitting + c.2.unreleased := by
  intro h
  have htaken := h smallEngine takenOne (releasedOne_reachable.workerSteps smallTarget 12)
  exact absurd htaken (by decide)

/-! ## Streamed output -/

/-- After `wait` has ended, its consumer is handed nothing more. -/
theorem ConsumerStep.after_wait {r r' : Request} (hr : ReqInv r) (h : ConsumerStep r r')
    (hout : r.consumer.outcome ≠ none) :
    r'.consumer.delivered = r.consumer.delivered ∧ r'.consumer.outcome = r.consumer.outcome := by
  have hpc := hr.stream.waited hout
  cases h with
  | releaseConsumer =>
    unfold Request.releaseConsumer
    split
    · exact ⟨rfl, rfl⟩
    · exact ⟨rfl, rfl⟩
  | publish hpc' => simp [hpc', ConsumerPc.released] at hpc
  | finish hpc' => simp [hpc', ConsumerPc.released] at hpc
  | _ => exact ⟨rfl, rfl⟩

theorem CallerStep.after_wait {s s' : State} (hi : Inv o.maxOutstanding s)
    (h : CallerStep o.maxOutstanding s s') (hout : (s.reqs id).consumer.outcome ≠ none) :
    (s'.reqs id).consumer.delivered = (s.reqs id).consumer.delivered ∧
      (s'.reqs id).consumer.outcome = (s.reqs id).consumer.outcome := by
  have kept : ∀ {r : Request} {i : Nat}, (r.consumer.delivered = (s.reqs i).consumer.delivered ∧
        r.consumer.outcome = (s.reqs i).consumer.outcome) →
      ((s.setReq i r).reqs id).consumer.delivered = (s.reqs id).consumer.delivered ∧
        ((s.setReq i r).reqs id).consumer.outcome = (s.reqs id).consumer.outcome := fun hr =>
    ⟨s.setReq_proj _ _ (·.consumer.delivered) hr.1 id,
      s.setReq_proj _ _ (·.consumer.outcome) hr.2 id⟩
  cases h with
  | reserve => exact kept ⟨rfl, rfl⟩
  | sessionFails => exact kept ⟨rfl, rfl⟩
  | enqueue => exact kept ⟨rfl, rfl⟩
  | @consumer i r ha hstep =>
    rcases eq_or_ne id i with rfl | hne
    · rw [State.setReq_reqs_self]
      exact hstep.after_wait (hi.reqs id) hout
    · rw [State.setReq_reqs_of_ne _ _ _ hne]
      exact ⟨rfl, rfl⟩
  | releaseReserved =>
    rw [State.updateReq, giveBack_reqs]
    exact kept ⟨rfl, rfl⟩
  | refuse =>
    rw [State.updateReq, giveBack_reqs]
    exact kept ⟨rfl, rfl⟩
  | releaseCapacity =>
    rw [State.updateReq, giveBack_reqs]
    exact kept ⟨rfl, rfl⟩
  | stop => exact ⟨rfl, rfl⟩

theorem delivered_stable (h : Reachable o c) (hr : Relation.ReflTransGen (ExecutorStep o) c c')
    (hout : (c.2.reqs id).consumer.outcome ≠ none) :
    (c'.2.reqs id).consumer.delivered = (c.2.reqs id).consumer.delivered ∧
      (c'.2.reqs id).consumer.outcome = (c.2.reqs id).consumer.outcome := by
  induction hr with
  | refl => exact ⟨rfl, rfl⟩
  | tail hr hs ih =>
    have hout' := ih.2 ▸ hout
    rw [← ih.1, ← ih.2]
    rcases ExecutorStep.effect (h.trans hr) hs with h' | h' | h'
    · exact h'.after_wait (reachable_inv (h.trans hr)) hout'
    · rw [h'.consumer id]
      exact ⟨rfl, rfl⟩
    · rw [h']
      exact ⟨rfl, rfl⟩

/-- **Streamed output equals the final result.** When `wait` has ended on a request that finished
with success, and neither the sink nor the cancellation callback has thrown, the sink was handed
every published delta once, in order; per channel they are the texts of the result; and nothing is
delivered afterwards. -/
theorem streamed_output_complete (h : Reachable o c)
    (hended : (c.2.reqs id).consumer.outcome ≠ none)
    (hsink : (c.2.reqs id).consumer.hasSink = true)
    (hclean : (c.2.reqs id).consumer.callerError = none) (hok : (c.2.reqs id).error = none) :
    ∃ res, (c.2.reqs id).consumer.outcome = some (.returned res) ∧
      (c.2.reqs id).result = some res ∧
      (c.2.reqs id).consumer.delivered = (c.2.reqs id).published ∧
      channelText .content (c.2.reqs id).consumer.delivered = res.content ∧
      channelText .reasoning (c.2.reqs id).consumer.delivered = res.reasoning ∧
      ∀ c', Relation.ReflTransGen (ExecutorStep o) c c' →
        (c'.2.reqs id).consumer.delivered = (c.2.reqs id).consumer.delivered := by
  have hr := (reachable_inv h).reqs id
  have hnext : ∀ c', Relation.ReflTransGen (ExecutorStep o) c c' →
      (c'.2.reqs id).consumer.delivered = (c.2.reqs id).consumer.delivered := fun c' hrun =>
    (delivered_stable h hrun hended).1
  cases hout : (c.2.reqs id).consumer.outcome with
  | none => exact absurd hout hended
  | some outcome =>
    cases outcome with
    | rethrown e =>
      rcases hr.stream.rethrown e hout with h' | h'
      · exact absurd hclean h'
      · exact absurd hok h'
    | returned res =>
      have hres := (hr.stream.returned res hout).2
      -- The consumer has ended: no event waits for it and none is in flight.
      have hev := (hr.stream.ended (Or.inr hended)).2
      have hflight : (c.2.reqs id).consumer.pc.inFlight = [] := by
        rcases hr.stream.waited hended with hpc | hpc
        · rw [hpc]
          rfl
        · cases hpc' : (c.2.reqs id).consumer.pc with
          | publishing => simp [hpc', ConsumerPc.released] at hpc
          | _ => rfl
      have hstream := hr.stream.stream hsink hclean
      rw [hev, hflight, List.append_nil, List.append_nil] at hstream
      obtain ⟨hcont, hreas⟩ := hr.outcome.text res hres
      refine ⟨res, rfl, hres, hstream, ?_, ?_, hnext⟩
      · rw [hstream, hcont]
      · rw [hstream, hreas]

/-- The consumer of the first request makes a step. -/
theorem Reachable.consumer {r : Request} (h : Reachable o c) (ha : (c.2.reqs 1).phase = .accepted)
    (hs : ConsumerStep (c.2.reqs 1) r) : Reachable o (c.1, c.2.setReq 1 r) :=
  h.caller (.consumer ha hs)

/-- The consumer of the first request waits with a sink. -/
def waitingOne : State :=
  queuedOne.setReq 1 ({ queuedOne.reqs 1 with
    consumer := { (queuedOne.reqs 1).consumer with hasSink := true } }.moveTo .waiting)

theorem waitingOne_reachable : Reachable smallEngine (.label (.top false), waitingOne) :=
  queuedOne_reachable.consumer rfl (.wait true rfl)

/-- The sink is handed the one delta of the request. -/
theorem waitingOne_streamed : ∃ c res, Reachable smallEngine c ∧
    (c.2.reqs 1).consumer.outcome = some (.returned res) ∧ res.content = "a" ∧
      channelText .content (c.2.reqs 1).consumer.delivered = res.content := by
  have hserved := waitingOne_reachable.workerSteps smallTarget 57
  have hswapped := hserved.consumer rfl (.swap rfl)
  have hpublished := (hswapped.consumer rfl (.publish rfl)).consumer rfl (.published rfl)
  have hended := (hpublished.consumer rfl (.poll false rfl)).consumer rfl (.finish rfl)
  obtain ⟨res, hout, hres, -, hcont, -⟩ :=
    @streamed_output_complete _ _ 1 hended (by decide) (by decide) (by decide) (by decide)
  have hvalue : res = ⟨[7], "a", "", .outputLimit⟩ := Option.some.inj (hres.symm.trans rfl)
  exact ⟨_, res, hended, hout, congrArg GenerationResult.content hvalue, hcont⟩

/-- A cancellation callback that throws while the worker is past its last look at `cancelled`: the
request finishes with success, the sink has not thrown, and the delta is dropped. -/
theorem streamed_output_dropped :
    ¬ ∀ (o : Options) (c : Config) (id : Nat) (res : GenerationResult), Reachable o c →
      (c.2.reqs id).consumer.outcome ≠ none → (c.2.reqs id).consumer.hasSink = true →
      (c.2.reqs id).consumer.sinkThrew = false → (c.2.reqs id).result = some res →
      channelText .content (c.2.reqs id).consumer.delivered = res.content ∧
        channelText .reasoning (c.2.reqs id).consumer.delivered = res.reasoning := by
  intro h
  have hrunning := waitingOne_reachable.workerSteps smallTarget 40
  have hpolling := (hrunning.consumer rfl (.swap rfl)).consumer rfl (.published rfl)
  have hserved := (hpolling.consumer rfl (.pollThrows rfl rfl)).workerSteps smallTarget 17
  have hswapped := hserved.consumer rfl (.swap rfl)
  have hpublished := (hswapped.consumer rfl (.publish rfl)).consumer rfl (.published rfl)
  have hended := (hpublished.consumer rfl (.poll false rfl)).consumer rfl (.finish rfl)
  obtain ⟨hcont, -⟩ := h smallEngine _ 1 ⟨[7], "a", "", .outputLimit⟩ hended (by decide) (by decide)
    (by decide) (by decide)
  exact absurd hcont (by decide)

end Ninfer.Executor
