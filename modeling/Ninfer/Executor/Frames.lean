import Ninfer.Executor.Runs

/-!
# What the worker leaves alone

Most of the worker's functions touch neither the slots nor the lane that is prefilled: they plan,
decode and complete. This can be read off their actions, whatever the state. In the same way what
they throw can be read off them, as far as the target keeps its promises: an admission that has
nothing to prefill is complete with its first step, and the errors that the executor raises when it
has lost track of a prefill are not those of the target.

## Main definitions

* `ownershipErrors`: the errors of an executor that has lost track of a prefill
* `Promised`: the answers of a target that keeps its promises
* `Calm`: the slots, the prefilled lane and what is known of the requests in the slots stay
* `Grows`: the units on the GPU are counted up, and what is done stays done
* `Progressed`: a unit has run on the GPU, or a request has been completed

## Main results

* `completeError_calm`, `completeSuccess_calm`, `completeCancelled_calm`: completions are calm
* `examine_calm`, `makeFeasible_calm`, `protectHead_calm`: and so is admission up to its end
-/

namespace Ninfer.Executor

open Prog (readState writeState atomically query attempt forEach mapEach catching)

/-! ## Promises of the target -/

/-- The errors of an executor that has lost track of a prefill. -/
def ownershipErrors : List Failure :=
  [logicError "no request owns staged prefill",
    logicError "staged prefill lane has invalid request state",
    logicError "decode-ready request has no generation budget",
    logicError "partial prefill did not retain its execution owner"]

/-- The exception of an answer. -/
def errorOf {α : Type} : Except Failure α → Option Failure
  | .ok _ => none
  | .error e => some e

/-- The exception that a call has raised. -/
def Oracle.raised : ∀ {β : Type}, Oracle β → β → Option Failure
  | _, .planRequestBase _, answer => errorOf answer
  | _, .planRequestForLane _ _, answer => errorOf answer
  | _, .startPrefillLane _ _, answer => errorOf answer
  | _, .advancePrefillLane _, answer => errorOf answer
  | _, .resolvePrefillLane _ _, answer => errorOf answer
  | _, .decodeBatch _ _, answer => errorOf answer
  | _, .resolvePendingBatch _ _ _ _, answer => errorOf answer
  | _, .activateRequestMemory _ _, answer => errorOf answer
  | _, .decodeRound _ _ _, answer => errorOf answer
  | _, .terminalize _, answer => errorOf answer
  | _, _, _ => none

/-- The request that a call has started, with its first step. -/
def Oracle.firstStep : ∀ {β : Type}, Oracle β → β → Option (Nat × PrefillStepResult)
  | _, .startPrefillLane _ id, .ok first => some (id, first)
  | _, _, _ => none

/-- A plan with something to prefill. -/
def RequestPlanSummary.NeedsPrefill (plan : RequestPlanSummary) : Prop :=
  plan.reusablePromptTokens < plan.promptTokens

/-- The answers of a target that keeps its promises: its exceptions are its own, and a request with
nothing to prefill is complete with its first step. -/
def Promised : Answers State Oracle := fun _ q s answer =>
  (∀ e, q.raised answer = some e → e ∉ ownershipErrors) ∧
    ∀ id first, q.firstStep answer = some (id, first) → ∀ plan,
      (s.reqs id).job.admitted = some plan → ¬plan.NeedsPrefill → first.complete = true

/-- A contract under which the target keeps its promises. -/
def Reliable (A : Answers State Oracle) : Prop :=
  ∀ (β : Type) (q : Oracle β) (s : State) (answer : β), A β q s answer → Promised β q s answer

/-- An error that a target which keeps its promises cannot lead to is not thrown. -/
def Excused (A : Answers State Oracle) (e : Failure) : Prop := Reliable A → e ∉ ownershipErrors

variable {A : Answers State Oracle} {s s' s'' : State} {id : Nat}

/-! ## Calm -/

/-- What is known of a request that runs. -/
structure KeepsJob (j j' : Job) : Prop where
  decodeReady : j'.decodeReady = j.decodeReady
  budget : j.budget.isSome = true → j'.budget.isSome = true
  admitted : j'.admitted = j.admitted

theorem KeepsJob.refl (j : Job) : KeepsJob j j := ⟨rfl, fun h => h, rfl⟩

theorem KeepsJob.trans {j j' j'' : Job} (h : KeepsJob j j') (h' : KeepsJob j' j'') :
    KeepsJob j j'' :=
  ⟨h'.decodeReady.trans h.decodeReady, fun hb => h'.budget (h.budget hb),
    h'.admitted.trans h.admitted⟩

/-- The slots, the prefilled lane and what is known of the requests in the slots stay, and so does a
request that is done. -/
structure Calm (s s' : State) : Prop where
  slots : s'.slots = s.slots
  prefillLane : s'.schedule.prefillLane = s.schedule.prefillLane
  requestMemory : s'.schedule.requestMemory = s.schedule.requestMemory
  gpuUnits : s'.schedule.gpuUnits = s.schedule.gpuUnits
  job : ∀ id, KeepsJob (s.reqs id).job (s'.reqs id).job
  done : ∀ id, (s.reqs id).done = true → (s'.reqs id).done = true

theorem Calm.refl (s : State) : Calm s s :=
  ⟨rfl, rfl, rfl, rfl, fun _ => .refl _, fun _ h => h⟩

theorem Calm.trans (h : Calm s s') (h' : Calm s' s'') : Calm s s'' where
  slots := h'.slots.trans h.slots
  prefillLane := h'.prefillLane.trans h.prefillLane
  requestMemory := h'.requestMemory.trans h.requestMemory
  gpuUnits := h'.gpuUnits.trans h.gpuUnits
  job := fun id => (h.job id).trans (h'.job id)
  done := fun id hd => h'.done id (h.done id hd)

/-- **The callers are calm.** -/
theorem Quiet.calm (h : Quiet s s') : Calm s s' where
  slots := h.slots
  prefillLane := by rw [h.schedule]
  requestMemory := by rw [h.schedule]
  gpuUnits := by rw [h.schedule]
  job := fun id => by
    rw [h.job id]
    exact .refl _
  done := fun id hd => (h.done id).trans hd

theorem calm_of_rely {o : Options} (h : Rely o s s') : Calm s s' := (quiet_of_rely h).calm

/-- A change of one request. -/
theorem calm_setReq {r : Request} (hjob : KeepsJob (s.reqs id).job r.job)
    (hdone : (s.reqs id).done = true → r.done = true) : Calm s (s.setReq id r) where
  slots := rfl
  prefillLane := rfl
  requestMemory := rfl
  gpuUnits := rfl
  job := fun i => by
    rcases eq_or_ne i id with rfl | hne
    · rw [State.setReq_reqs_self]
      exact hjob
    · rw [State.setReq_reqs_of_ne _ _ _ hne]
      exact .refl _
  done := fun i hd => by
    rcases eq_or_ne i id with rfl | hne
    · rw [State.setReq_reqs_self]
      exact hdone hd
    · rwa [State.setReq_reqs_of_ne _ _ _ hne]

theorem calm_updateJob {f : Job → Job} (hf : ∀ j, KeepsJob j (f j)) :
    Calm s (s.updateJob id f) := calm_setReq (hf _) fun h => h

/-- A change of one request that leaves its job alone. -/
theorem calm_updateReq {f : Request → Request} (hf : ∀ r, (f r).job = r.job)
    (hdone : ∀ r, r.done = true → (f r).done = true) : Calm s (s.updateReq id f) :=
  calm_setReq (by rw [hf]; exact .refl _) (hdone _)

/-- A change of the schedule that leaves the prefilled lane alone. -/
theorem calm_schedule {schedule : Schedule} (hlane : schedule.prefillLane = s.schedule.prefillLane)
    (hmemory : schedule.requestMemory = s.schedule.requestMemory)
    (hunits : schedule.gpuUnits = s.schedule.gpuUnits) : Calm s { s with schedule := schedule } :=
  ⟨rfl, hlane, hmemory, hunits, fun _ => .refl _, fun _ h => h⟩

/-- A program all of whose actions are calm, and that throws no error of ownership. -/
abbrev IsCalm (A : Answers State Oracle) {α : Type} (p : Worker α) : Prop :=
  p.Always A Calm (Excused A)

section Calls

variable {α : Type}

theorem calm_read (f : State → α) : IsCalm A (readState f : Worker α) :=
  Prog.always_readState Calm.refl f

theorem calm_attempt {q : Oracle (Except Failure α)} (hq : ∀ e, q.raised (.error e) = some e) :
    IsCalm A (attempt q) :=
  Prog.always_attempt fun s e he hA => (hA _ q s _ he).1 e (hq e)

theorem calm_writeJob {f : State → Job → Job} (hf : ∀ s j, KeepsJob j (f s j)) :
    IsCalm A (writeState fun s => s.updateJob id (f s)) :=
  Prog.always_writeState fun s => calm_updateJob (hf s)

end Calls

/-- What is thrown by the executor for another reason. -/
theorem excused {e : Failure} (h : e ∉ ownershipErrors) : Excused A e := fun _ => h

/-! ## Output sessions and completions -/

theorem storePreview_calm (output : List OutputDelta) (terminal : Bool) :
    IsCalm A (storePreview id output terminal) := calm_writeJob fun _ _ => ⟨rfl, fun h => h, rfl⟩

theorem preview_calm (tokens : List TokenId) (budgetRemaining : Nat) (limitReason : FinishReason) :
    IsCalm A (preview id tokens budgetRemaining limitReason) := by
  refine Prog.always_bind (calm_read _) fun session => ?_
  refine Prog.always_ite (fun _ => excused (by decide)) fun _ => ?_
  refine Prog.always_ite (fun _ => excused (by decide)) fun _ => ?_
  refine Prog.always_ite (fun _ => excused (by decide)) fun _ => ?_
  refine Prog.always_ite (fun _ => excused (by decide)) fun _ => ?_
  refine Prog.always_ite (fun _ => excused (by decide)) fun _ => ?_
  refine Prog.always_bind (calm_attempt fun _ => rfl) fun decoded => ?_
  exact Prog.always_bind (storePreview_calm _ _) fun _ => trivial

theorem previewTerminal_calm (reason : FinishReason) : IsCalm A (previewTerminal id reason) := by
  refine Prog.always_bind (calm_read _) fun session => ?_
  refine Prog.always_ite (fun _ => excused (by decide)) fun _ => ?_
  refine Prog.always_ite (fun _ => excused (by decide)) fun _ => ?_
  refine Prog.always_ite (fun _ => excused (by decide)) fun _ => ?_
  refine Prog.always_ite (fun _ => storePreview_calm _ _) fun _ => ?_
  exact Prog.always_bind (calm_attempt fun _ => rfl) fun _ => storePreview_calm _ _

theorem commitPreview_calm : IsCalm A (commitPreview id) := by
  refine Prog.always_bind (Prog.always_atomically fun s => ?_) fun committed => ?_
  · dsimp only
    split
    · dsimp only
      exact calm_updateJob (s := s) fun _ => ⟨rfl, fun h => h, rfl⟩
    · exact .refl s
  · cases committed <;> trivial

theorem appendOutput_calm (output : List OutputDelta) : IsCalm A (appendOutput id output) :=
  Prog.always_ite (fun _ => trivial) fun _ =>
    Prog.always_writeState fun _ => calm_updateReq (fun _ => rfl) fun _ h => h

theorem giveBack_calm (s : State) (id : Nat) : Calm s (s.giveBack id) := by
  have h : Calm s (s.updateReq id fun r => { r with unitsReturned := r.unitsReturned + 1 }) :=
    calm_updateReq (fun _ => rfl) fun _ h => h
  exact { h with }

theorem afterCompletion_calm (stored : Bool) : IsCalm A (afterCompletion id stored) := by
  refine Prog.always_ite (fun _ => ?_) fun _ => trivial
  refine Prog.always_bind (Prog.always_atomically fun s => ?_) fun release => ?_
  · split
    · dsimp only
      exact calm_updateReq (s := s) (fun _ => rfl) fun _ h => h
    · exact .refl s
  · exact Prog.always_ite (fun _ => Prog.always_writeState fun s => giveBack_calm s id)
      fun _ => trivial

theorem releasePlanningState_calm : IsCalm A (releasePlanningState id) :=
  calm_writeJob fun _ _ => ⟨rfl, fun h => h, rfl⟩

theorem completeError_calm (error : Failure) : IsCalm A (completeError id error) := by
  refine Prog.always_bind releasePlanningState_calm fun _ => ?_
  refine Prog.always_bind (Prog.always_atomically fun s => ?_) fun _ => afterCompletion_calm _
  split
  · exact .refl s
  · dsimp only
    exact calm_updateReq (s := s) (fun _ => rfl) fun _ _ => rfl

theorem completeSuccess_calm (reason : FinishReason) : IsCalm A (completeSuccess id reason) := by
  refine Prog.always_bind releasePlanningState_calm fun _ => ?_
  refine Prog.always_bind (Prog.always_atomically fun s => ?_) fun result => ?_
  · exact calm_setReq ⟨rfl, fun h => h, rfl⟩ fun h => h
  refine Prog.always_bind (Prog.always_atomically fun s => ?_) fun _ => afterCompletion_calm _
  split
  · exact .refl s
  · dsimp only
    exact calm_updateReq (s := s) (fun _ => rfl) fun _ _ => rfl

theorem completeCancelled_calm : IsCalm A (completeCancelled id) :=
  Prog.always_bind (previewTerminal_calm _) fun _ => Prog.always_bind commitPreview_calm fun output =>
    Prog.always_bind (appendOutput_calm output) fun _ => completeSuccess_calm _

/-! ## Rounds -/

theorem commitBudget_calm (tokens : Nat) : IsCalm A (commitBudget id tokens) := by
  refine Prog.always_bind (Prog.always_atomically fun s => ?_) fun _ =>
    Prog.always_ite (fun _ => trivial) fun _ => trivial
  split
  · exact .refl s
  · split
    · exact .refl s
    · dsimp only
      exact calm_updateJob (s := s) fun _ => ⟨rfl, fun _ => rfl, rfl⟩

/-- The error of a request that has used up its service work is another one. -/
theorem consumed_not_mem (work remaining : Nat) :
    logicError ("request service projection consumed " ++ toString work ++ " quanta with " ++
      toString remaining ++ " remaining") ∉ ownershipErrors := by
  intro h
  simp only [ownershipErrors, logicError, List.mem_cons, List.not_mem_nil, or_false, Failure.std.injEq,
    Exception.logicError.injEq] at h
  rcases h with h | h | h | h <;>
    simpa [String.toList_append] using congrArg (fun text => text.toList.head?) h

theorem consumeServiceWork_calm (work : Nat) : IsCalm A (consumeServiceWork id work) := by
  refine Prog.always_bind (calm_read _) fun remaining => ?_
  exact Prog.always_ite (fun _ => excused (consumed_not_mem work remaining)) fun _ =>
    calm_writeJob fun _ _ => ⟨rfl, fun h => h, rfl⟩

theorem resolveRound_calm (token : TokenId) (cancelAtBoundary : Bool) :
    IsCalm A (resolveRound id token cancelAtBoundary) := by
  refine Prog.always_bind (calm_read _) fun lane => ?_
  cases lane with
  | none => trivial
  | some lane =>
    refine Prog.always_ite (fun _ => ?_) fun _ => ?_
    · refine Prog.always_bind (previewTerminal_calm _) fun _ => ?_
      refine Prog.always_bind (Prog.always_query _) fun _ => ?_
      refine Prog.always_bind commitPreview_calm fun output => ?_
      refine Prog.always_bind (appendOutput_calm output) fun _ => ?_
      exact Prog.always_bind (completeSuccess_calm _) fun _ => trivial
    · refine Prog.always_bind (calm_read _) fun budget => ?_
      cases budget with
      | none => trivial
      | some budget =>
        refine Prog.always_bind (preview_calm _ _ _) fun decision => ?_
        refine Prog.always_ite (fun _ => excused (by decide)) fun _ => ?_
        refine Prog.always_bind (calm_writeJob fun _ _ => ⟨rfl, fun h => h, rfl⟩) fun _ => ?_
        refine Prog.always_bind (calm_attempt fun _ => rfl) fun _ => ?_
        refine Prog.always_bind (commitBudget_calm _) fun _ => ?_
        refine Prog.always_bind commitPreview_calm fun output => ?_
        refine Prog.always_bind (appendOutput_calm output) fun _ => ?_
        exact Prog.always_ite (fun _ => Prog.always_bind (completeSuccess_calm _) fun _ => trivial)
          fun _ => trivial

theorem decideRow_calm (round : BatchedGeneratedRound) (row : Nat × Nat × Bool) :
    IsCalm A (decideRow round row) := by
  refine Prog.always_bind (calm_read _) fun slot => ?_
  cases slot with
  | none => trivial
  | some id =>
    refine Prog.always_ite (fun _ => excused (by decide)) fun _ => ?_
    refine Prog.always_ite (fun _ => Prog.always_bind (previewTerminal_calm _) fun _ => trivial)
      fun _ => Prog.always_bind (calm_read _) fun budget => ?_
    cases budget with
    | none => trivial
    | some budget =>
      refine Prog.always_bind (preview_calm _ _ _) fun decision => ?_
      exact Prog.always_ite (fun _ => excused (by decide)) fun _ => trivial

theorem advanceRow_calm (row : RowDecision) : IsCalm A (advanceRow id row) := by
  refine Prog.always_ite (fun _ => trivial) fun _ => ?_
  refine Prog.always_bind (calm_writeJob fun _ _ => ⟨rfl, fun h => h, rfl⟩) fun _ => ?_
  exact Prog.always_bind (commitBudget_calm _) fun _ => consumeServiceWork_calm _

theorem loadCancelled_calm (lane : Nat) : IsCalm A (loadCancelled lane) := by
  refine Prog.always_bind (calm_read _) fun flag => ?_
  cases flag <;> trivial

/-! ## The queue -/

theorem expirePendingRequests_calm : IsCalm A expirePendingRequests := by
  refine Prog.always_bind (Prog.always_query _) fun late => ?_
  refine Prog.always_bind (Prog.always_atomically fun s => { Calm.refl s with }) fun removed => ?_
  refine Prog.always_bind (Prog.always_writeState fun s => ?_) fun _ => ?_
  · split
    · exact .refl s
    · split
      · exact calm_schedule rfl rfl rfl
      · exact .refl s
  refine Prog.always_bind (Prog.always_forEach (fun _ => completeCancelled_calm) _) fun _ => ?_
  exact Prog.always_bind (Prog.always_forEach (fun _ => completeError_calm _) _) fun _ => trivial

theorem erasePending_calm : IsCalm A (erasePending id) := by
  refine Prog.always_atomically fun s => ?_
  split
  · exact { Calm.refl s with }
  · exact .refl s

theorem clearProtectionIfHead_calm : IsCalm A (clearProtectionIfHead id) := by
  refine Prog.always_writeState fun s => ?_
  split
  · exact .refl s
  · split
    · exact calm_schedule rfl rfl rfl
    · exact .refl s

theorem removePendingError_calm (error : Failure) : IsCalm A (removePendingError id error) := by
  refine Prog.always_bind erasePending_calm fun erased => Prog.always_ite (fun _ => ?_) fun _ => trivial
  refine Prog.always_bind clearProtectionIfHead_calm fun _ => ?_
  exact Prog.always_bind (completeError_calm error) fun _ => trivial

theorem removePendingCancelled_calm (isCandidate : Bool) :
    IsCalm A (removePendingCancelled id isCandidate) := by
  refine Prog.always_bind erasePending_calm fun erased => Prog.always_ite (fun _ => ?_) fun _ => trivial
  refine Prog.always_ite (fun _ => ?_) fun _ => ?_
  · exact Prog.always_bind completeCancelled_calm fun _ => trivial
  · refine Prog.always_bind clearProtectionIfHead_calm fun _ => ?_
    exact Prog.always_bind completeCancelled_calm fun _ => trivial

/-! ## Plans and lanes -/

theorem ensureBasePlan_calm : IsCalm A (ensureBasePlan id) := by
  refine Prog.always_bind (calm_read _) fun present => ?_
  refine Prog.always_bind ?_ fun summary =>
    Prog.always_ite (fun _ => excused (by decide)) fun _ => trivial
  cases present with
  | some summary => trivial
  | none =>
    refine Prog.always_bind (calm_attempt fun _ => rfl) fun summary => ?_
    exact Prog.always_bind (calm_writeJob fun _ _ => ⟨rfl, fun h => h, rfl⟩) fun _ => trivial

theorem ensureLanePlan_calm (lane : Nat) : IsCalm A (ensureLanePlan id lane) := by
  refine Prog.always_bind (calm_read _) fun cached => Prog.always_ite (fun _ => trivial) fun _ => ?_
  refine Prog.always_bind (calm_writeJob fun _ _ => ⟨rfl, fun h => h, rfl⟩) fun _ => ?_
  refine Prog.always_bind (calm_attempt fun _ => rfl) fun plan => ?_
  exact calm_writeJob fun _ _ => ⟨rfl, fun h => h, rfl⟩

theorem selectLane_calm (feasible : Nat → Oracle Bool) (evictRetained : Bool) (lanes : List Nat)
    (selected : Option (LaneChoice × Nat)) :
    IsCalm A (selectLane id feasible evictRetained lanes selected) := by
  induction lanes generalizing selected with
  | nil => trivial
  | cons lane lanes ih =>
    refine Prog.always_bind (calm_read _) fun slot => ?_
    cases slot with
    | some _ => exact ih _
    | none =>
      refine Prog.always_bind (ensureLanePlan_calm lane) fun _ => ?_
      refine Prog.always_bind (calm_read _) fun plan => ?_
      cases plan with
      | none => trivial
      | some plan => exact Prog.always_bind (Prog.always_query _) fun _ => ih _

theorem findAdmissionLane_calm (n : Nat) : IsCalm A (findAdmissionLane n id) := by
  refine Prog.always_bind (selectLane_calm _ _ _ _) fun direct => ?_
  cases direct with
  | some choice => trivial
  | none => exact Prog.always_bind (selectLane_calm _ _ _ _) fun _ => trivial

theorem evictRetainedLanes_calm (lane : Nat) (lanes : List Nat) :
    IsCalm A (evictRetainedLanes lane id lanes) := by
  induction lanes with
  | nil => trivial
  | cons retainedLane lanes ih =>
    refine Prog.always_bind (Prog.always_query _) fun admits =>
      Prog.always_ite (fun _ => trivial) fun _ => ?_
    refine Prog.always_bind (calm_read _) fun slot => ?_
    refine Prog.always_bind (Prog.always_query _) fun retained =>
      Prog.always_ite (fun _ => ?_) fun _ => ih
    refine Prog.always_bind (Prog.always_query _) fun _ => ?_
    exact Prog.always_bind (Prog.always_writeState fun s => calm_schedule rfl rfl rfl) fun _ => ih

theorem makeFeasible_calm (n : Nat) (choice : LaneChoice) : IsCalm A (makeFeasible n id choice) :=
  Prog.always_ite (fun _ => Prog.always_bind (evictRetainedLanes_calm _ _) fun _ =>
    Prog.always_query _) fun _ => trivial

theorem spendTemporalCredit_calm (backfillClass : BackfillClass) (backfillEpoch work : Nat) :
    IsCalm A (spendTemporalCredit backfillClass backfillEpoch work) := by
  refine Prog.always_ite (fun _ => ?_) fun _ => trivial
  refine Prog.always_bind (Prog.always_atomically fun s => ?_) fun spent =>
    Prog.always_ite (fun _ => trivial) fun _ => excused (by decide)
  split
  · exact .refl s
  · split
    · exact .refl s
    · exact calm_schedule rfl rfl rfl

theorem examine_calm (o : Options) (isCandidate : Bool) : IsCalm A (examine o id isCandidate) := by
  have removed : ∀ e, IsCalm A (removePendingError id e >>= fun _ =>
      pure (Examined.removed .controlProgress)) := fun e =>
    Prog.always_bind (removePendingError_calm e) fun _ => trivial
  refine Prog.always_bind (calm_read _) fun cancelled => Prog.always_ite (fun _ => ?_) fun _ => ?_
  · exact Prog.always_bind (removePendingCancelled_calm isCandidate) fun _ => trivial
  refine Prog.always_bind (Prog.always_query _) fun late =>
    Prog.always_ite (fun _ => removed _) fun _ => ?_
  refine Prog.always_bind (Prog.always_catching ensureBasePlan_calm) fun base => ?_
  cases base with
  | error e => exact removed e
  | ok base =>
    refine Prog.always_ite (fun _ => ?_) fun _ => removed _
    refine Prog.always_bind (Prog.always_catching (findAdmissionLane_calm _)) fun lane => ?_
    cases lane with
    | error e => exact removed e
    | ok lane => trivial

theorem activeAdmissionSet_calm (n : Nat) : IsCalm A (activeAdmissionSet n) :=
  Prog.always_bind (calm_read _) fun _ =>
    Prog.always_ite (fun _ => excused (by decide)) fun _ => trivial

theorem pickDonors_error {capacity : AdmissionResources} {e : Exception}
    {donors : List ActiveAdmissionSnapshot} {out : AdmissionProtection}
    {survivors : AdmissionResources} (h : pickDonors capacity out survivors donors = .error e) :
    Failure.std e ∉ ownershipErrors := by
  induction donors generalizing out survivors with
  | nil =>
    obtain rfl := Except.error.inj h
    decide
  | cons donor donors ih =>
    rw [pickDonors] at h
    split at h
    · obtain rfl := Except.error.inj h
      decide
    · dsimp only at h
      split at h
      · cases h
      · exact ih h

/-- The errors of a protection are not those of ownership. -/
theorem makeAdmissionProtection_error {epochId headRequestId : Nat}
    {headResources capacity : AdmissionResources} {active : List ActiveAdmissionSnapshot}
    {e : Exception}
    (h : makeAdmissionProtection epochId headRequestId headResources active capacity = .error e) :
    Failure.std e ∉ ownershipErrors := by
  rw [makeAdmissionProtection] at h
  split at h
  · obtain rfl := Except.error.inj h
    decide
  split at h
  · obtain rfl := Except.error.inj h
    decide
  dsimp only at h
  split at h
  · obtain rfl := Except.error.inj h
    decide
  · exact pickDonors_error h

theorem protectHead_calm (o : Options) (head : Nat) (base : RequestPlanSummary)
    (active : List ActiveAdmissionSnapshot) : IsCalm A (protectHead o head base active) := by
  refine Prog.always_bind (calm_read _) fun present => ?_
  refine Prog.always_bind ?_ fun protection =>
    Prog.always_bind (Prog.always_writeState fun s => calm_schedule rfl rfl rfl) fun _ => trivial
  cases present with
  | some protection => trivial
  | none =>
    refine Prog.always_bind (Prog.always_atomically fun s => calm_schedule rfl rfl rfl) fun epoch => ?_
    split
    next he => exact excused (makeAdmissionProtection_error he)
    · trivial

/-! ## What grows -/

/-- The units on the GPU are counted up, and a request that is done stays so. -/
structure Grows (s s' : State) : Prop where
  gpuUnits : s.schedule.gpuUnits ≤ s'.schedule.gpuUnits
  done : ∀ id, (s.reqs id).done = true → (s'.reqs id).done = true

theorem Grows.refl (s : State) : Grows s s := ⟨le_refl _, fun _ h => h⟩

theorem Grows.trans (h : Grows s s') (h' : Grows s' s'') : Grows s s'' :=
  ⟨h.gpuUnits.trans h'.gpuUnits, fun id hd => h'.done id (h.done id hd)⟩

theorem Calm.grows (h : Calm s s') : Grows s s' := ⟨h.gpuUnits.ge, h.done⟩

/-- A unit has run on the GPU, or a request has been completed. -/
def Progressed (s s' : State) : Prop :=
  s.schedule.gpuUnits < s'.schedule.gpuUnits ∨
    ∃ id, (s.reqs id).done = false ∧ (s'.reqs id).done = true

theorem Progressed.grows (h : Progressed s s') (h' : Grows s' s'') : Progressed s s'' := by
  rcases h with h | ⟨id, hopen, hdone⟩
  · exact Or.inl (h.trans_le h'.gpuUnits)
  · exact Or.inr ⟨id, hopen, h'.done id hdone⟩

theorem Grows.progressed (h : Grows s s') (h' : Progressed s' s'') : Progressed s s'' := by
  rcases h' with h' | ⟨id, hopen, hdone⟩
  · exact Or.inl (h.gpuUnits.trans_lt h')
  · refine Or.inr ⟨id, ?_, hdone⟩
    by_contra hd
    rw [h.done id (by simpa using hd)] at hopen
    cases hopen

/-- A program all of whose actions grow. -/
abbrev IsGrowing (A : Answers State Oracle) {α : Type} (p : Worker α) : Prop :=
  p.Always A Grows fun _ => True

theorem growing_of_calm {α : Type} {p : Worker α} (h : IsCalm A p) : IsGrowing A p :=
  Prog.Always.mono h Calm.grows fun _ => trivial

theorem clearPrefillLane_growing (lane : Nat) : IsGrowing A (clearPrefillLane lane) := by
  refine Prog.always_writeState fun s => ?_
  split
  · exact ⟨le_refl _, fun _ h => h⟩
  · exact .refl s

theorem removeCompletedSlot_growing (lane : Nat) : IsGrowing A (removeCompletedSlot lane) :=
  Prog.always_writeState fun _ => ⟨le_refl _, fun _ h => h⟩

theorem resolvePrefillStep_growing (step : PrefillStepResult) (cancelAtBoundary : Bool) :
    IsGrowing A (resolvePrefillStep id step cancelAtBoundary) := by
  refine Prog.always_bind (growing_of_calm (consumeServiceWork_calm 1)) fun _ =>
    Prog.always_bind (growing_of_calm (calm_read _)) fun lane => ?_
  refine Prog.always_ite (fun _ => ?_) fun _ => Prog.always_ite (fun _ => ?_) fun _ => trivial
  · cases lane with
    | none => trivial
    | some lane =>
      refine Prog.always_bind (clearPrefillLane_growing lane) fun _ =>
        Prog.always_bind (Prog.always_query _) fun _ => ?_
      exact Prog.always_bind (growing_of_calm completeCancelled_calm) fun _ =>
        removeCompletedSlot_growing lane
  · cases lane with
    | none => trivial
    | some lane =>
      refine Prog.always_bind (clearPrefillLane_growing lane) fun _ => ?_
      split
      · refine Prog.always_bind (growing_of_calm (resolveRound_calm _ false)) fun finished => ?_
        refine Prog.always_ite (fun _ => removeCompletedSlot_growing lane) fun _ => ?_
        exact Prog.always_writeState fun s =>
          ⟨le_refl _, fun i hd => (s.setReq_proj id _ (·.done) (by rfl) i).trans hd⟩
      · trivial

theorem occupyLane_growing (lane : Nat) (backfillClass : BackfillClass) (backfillEpoch : Nat)
    (summary : RequestPlanSummary) :
    IsGrowing A (occupyLane id lane backfillClass backfillEpoch summary) := by
  refine Prog.always_ite (fun _ => trivial) fun _ => ?_
  refine Prog.always_bind (Prog.always_writeState fun s =>
    ⟨le_refl _, fun i hd => (s.setReq_proj id _ (·.done) (by rfl) i).trans hd⟩) fun _ => ?_
  refine Prog.always_ite (fun _ => ?_) fun _ => trivial
  exact Prog.always_bind (Prog.always_attempt fun _ _ _ => trivial) fun _ =>
    Prog.always_writeState fun s => ⟨le_refl _, fun _ h => h⟩

theorem commitRow_growing (row : RowDecision) : IsGrowing A (commitRow row) := by
  refine Prog.always_bind (growing_of_calm (calm_read _)) fun slot => ?_
  cases slot with
  | none => trivial
  | some id =>
    refine Prog.always_bind (growing_of_calm (advanceRow_calm row)) fun _ => ?_
    refine Prog.always_bind (growing_of_calm commitPreview_calm) fun output => ?_
    refine Prog.always_bind (growing_of_calm (appendOutput_calm output)) fun _ => ?_
    refine Prog.always_ite (fun _ => ?_) fun _ => trivial
    exact Prog.always_bind (growing_of_calm (completeSuccess_calm row.reason)) fun _ =>
      removeCompletedSlot_growing row.lane

end Ninfer.Executor
