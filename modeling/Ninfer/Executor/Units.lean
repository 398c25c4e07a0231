import Ninfer.Commons.History
import Ninfer.Executor.Loop

/-!
# Units on the GPU

Three calls of the target run a unit on the GPU: the two that prefill, and a decode round. All else
that the worker calls runs none. This can be read off its functions, whatever the state.

## Main definitions

* `UnitKind`, `Oracle.unit`: the calls that run a unit
* `UnitFree`: a program without a unit

## Main results

* `cancelActiveRequests_unitFree`, `examine_unitFree`, `occupyLane_unitFree`, `commitRow_unitFree`,
  `failAll_unitFree`: the functions around a unit
-/

namespace Ninfer.Executor

open Prog (readState writeState atomically query attempt forEach mapEach catching)

/-- A step of a prefill, or a decode round. -/
inductive UnitKind
  | prefill
  | decode
  deriving DecidableEq, Repr

/-- The unit that a call runs on the GPU. -/
def Oracle.unit : ∀ {β : Type}, Oracle β → Option UnitKind
  | _, .startPrefillLane _ _ => some .prefill
  | _, .advancePrefillLane _ => some .prefill
  | _, .decodeBatch _ _ => some .decode
  | _, _ => none

/-- A program that runs no unit on the GPU. -/
abbrev UnitFree {α : Type} (p : Worker α) : Prop := p.Asks fun q => q.unit = none

variable {id lane : Nat}

/-! ## Completions -/

theorem previewTerminal_unitFree (reason : FinishReason) :
    UnitFree (previewTerminal id reason) := by
  refine Prog.asks_bind (Prog.asks_readState _) fun session => ?_
  refine Prog.asks_ite trivial (Prog.asks_ite trivial (Prog.asks_ite trivial ?_))
  refine Prog.asks_ite (Prog.asks_writeState _) ?_
  exact Prog.asks_bind (Prog.asks_attempt rfl) fun _ => Prog.asks_writeState _

theorem preview_unitFree (tokens : List TokenId) (budgetRemaining : Nat)
    (limitReason : FinishReason) : UnitFree (preview id tokens budgetRemaining limitReason) := by
  refine Prog.asks_bind (Prog.asks_readState _) fun session => ?_
  refine Prog.asks_ite trivial (Prog.asks_ite trivial (Prog.asks_ite trivial ?_))
  refine Prog.asks_ite trivial (Prog.asks_ite trivial ?_)
  refine Prog.asks_bind (Prog.asks_attempt rfl) fun decoded => ?_
  exact Prog.asks_bind (Prog.asks_writeState _) fun _ => trivial

theorem commitPreview_unitFree : UnitFree (commitPreview id) := by
  refine Prog.asks_bind (Prog.asks_atomically _) fun committed => ?_
  cases committed <;> trivial

theorem appendOutput_unitFree (output : List OutputDelta) : UnitFree (appendOutput id output) :=
  Prog.asks_ite trivial (Prog.asks_writeState _)

theorem afterCompletion_unitFree (stored : Bool) : UnitFree (afterCompletion id stored) :=
  Prog.asks_ite (Prog.asks_bind (Prog.asks_atomically _) fun _ =>
    Prog.asks_ite (Prog.asks_writeState _) trivial) trivial

theorem completeError_unitFree (error : Failure) : UnitFree (completeError id error) :=
  Prog.asks_bind (Prog.asks_writeState _) fun _ =>
    Prog.asks_bind (Prog.asks_atomically _) fun _ => afterCompletion_unitFree _

theorem completeSuccess_unitFree (reason : FinishReason) : UnitFree (completeSuccess id reason) :=
  Prog.asks_bind (Prog.asks_writeState _) fun _ =>
    Prog.asks_bind (Prog.asks_atomically _) fun _ =>
      Prog.asks_bind (Prog.asks_atomically _) fun _ => afterCompletion_unitFree _

theorem completeCancelled_unitFree : UnitFree (completeCancelled id) :=
  Prog.asks_bind (previewTerminal_unitFree _) fun _ =>
    Prog.asks_bind commitPreview_unitFree fun output =>
      Prog.asks_bind (appendOutput_unitFree output) fun _ => completeSuccess_unitFree _

/-! ## Rounds -/

theorem commitBudget_unitFree (tokens : Nat) : UnitFree (commitBudget id tokens) :=
  Prog.asks_bind (Prog.asks_atomically _) fun _ => Prog.asks_ite trivial trivial

theorem consumeServiceWork_unitFree (work : Nat) : UnitFree (consumeServiceWork id work) :=
  Prog.asks_bind (Prog.asks_readState _) fun _ => Prog.asks_ite trivial (Prog.asks_writeState _)

theorem resolveRound_unitFree (token : TokenId) (cancelAtBoundary : Bool) :
    UnitFree (resolveRound id token cancelAtBoundary) := by
  refine Prog.asks_bind (Prog.asks_readState _) fun lane => ?_
  cases lane with
  | none => trivial
  | some lane =>
    refine Prog.asks_ite ?_ (Prog.asks_bind (Prog.asks_readState _) fun budget => ?_)
    · refine Prog.asks_bind (previewTerminal_unitFree _) fun _ => ?_
      refine Prog.asks_bind (Prog.asks_query rfl) fun _ => ?_
      refine Prog.asks_bind commitPreview_unitFree fun output => ?_
      refine Prog.asks_bind (appendOutput_unitFree output) fun _ => ?_
      exact Prog.asks_bind (completeSuccess_unitFree _) fun _ => trivial
    · cases budget with
      | none => trivial
      | some budget =>
        refine Prog.asks_bind (preview_unitFree _ _ _) fun decision => Prog.asks_ite trivial ?_
        refine Prog.asks_bind (Prog.asks_writeState _) fun _ => ?_
        refine Prog.asks_bind (Prog.asks_attempt rfl) fun _ => ?_
        refine Prog.asks_bind (commitBudget_unitFree _) fun _ => ?_
        refine Prog.asks_bind commitPreview_unitFree fun output => ?_
        refine Prog.asks_bind (appendOutput_unitFree output) fun _ => ?_
        exact Prog.asks_ite (Prog.asks_bind (completeSuccess_unitFree _) fun _ => trivial) trivial

theorem resolvePrefillStep_unitFree (step : PrefillStepResult) (cancelAtBoundary : Bool) :
    UnitFree (resolvePrefillStep id step cancelAtBoundary) := by
  refine Prog.asks_bind (consumeServiceWork_unitFree 1) fun _ =>
    Prog.asks_bind (Prog.asks_readState _) fun lane => ?_
  cases lane with
  | none => exact Prog.asks_ite trivial (Prog.asks_ite trivial trivial)
  | some lane =>
    refine Prog.asks_ite ?_ (Prog.asks_ite ?_ trivial)
    · refine Prog.asks_bind (Prog.asks_writeState _) fun _ => ?_
      refine Prog.asks_bind (Prog.asks_query rfl) fun _ => ?_
      exact Prog.asks_bind completeCancelled_unitFree fun _ => Prog.asks_writeState _
    · refine Prog.asks_bind (Prog.asks_writeState _) fun _ => ?_
      split
      · refine Prog.asks_bind (resolveRound_unitFree _ _) fun _ => ?_
        exact Prog.asks_ite (Prog.asks_writeState _) (Prog.asks_writeState _)
      · trivial

theorem loadCancelled_unitFree : UnitFree (loadCancelled lane) := by
  refine Prog.asks_bind (Prog.asks_readState _) fun flag => ?_
  cases flag <;> trivial

theorem decideRow_unitFree (round : BatchedGeneratedRound) (row : Nat × Nat × Bool) :
    UnitFree (decideRow round row) := by
  refine Prog.asks_bind (Prog.asks_readState _) fun slot => ?_
  cases slot with
  | none => trivial
  | some id =>
    refine Prog.asks_ite trivial (Prog.asks_ite ?_ ?_)
    · exact Prog.asks_bind (previewTerminal_unitFree _) fun _ => trivial
    · refine Prog.asks_bind (Prog.asks_readState _) fun budget => ?_
      cases budget with
      | none => trivial
      | some budget =>
        exact Prog.asks_bind (preview_unitFree _ _ _) fun _ => Prog.asks_ite trivial trivial

theorem commitRow_unitFree (row : RowDecision) : UnitFree (commitRow row) := by
  refine Prog.asks_bind (Prog.asks_readState _) fun slot => ?_
  cases slot with
  | none => trivial
  | some id =>
    refine Prog.asks_bind (Prog.asks_ite trivial ?_) fun _ => ?_
    · refine Prog.asks_bind (Prog.asks_writeState _) fun _ => ?_
      exact Prog.asks_bind (commitBudget_unitFree _) fun _ => consumeServiceWork_unitFree _
    · refine Prog.asks_bind commitPreview_unitFree fun output => ?_
      refine Prog.asks_bind (appendOutput_unitFree output) fun _ => Prog.asks_ite ?_ trivial
      exact Prog.asks_bind (completeSuccess_unitFree _) fun _ => Prog.asks_writeState _

/-! ## The queue -/

theorem cancelActiveRequests_unitFree (n : Nat) (cancelledAtBoundary : List Nat) :
    UnitFree (cancelActiveRequests n cancelledAtBoundary) := by
  refine Prog.asks_forEach (fun lane => ?_) _
  refine Prog.asks_bind (Prog.asks_readState _) fun slot => ?_
  cases slot with
  | none => trivial
  | some id =>
    refine Prog.asks_ite ?_ trivial
    refine Prog.asks_bind (Prog.asks_query rfl) fun _ => ?_
    refine Prog.asks_bind (Prog.asks_writeState _) fun _ => ?_
    exact Prog.asks_bind completeCancelled_unitFree fun _ => Prog.asks_writeState _

theorem buildRoundMembership_unitFree (n : Nat) : UnitFree (buildRoundMembership n) :=
  Prog.asks_bind (Prog.asks_readState _) fun _ => Prog.asks_ite trivial trivial

theorem removePendingError_unitFree (error : Failure) : UnitFree (removePendingError id error) :=
  Prog.asks_bind (Prog.asks_atomically _) fun _ => Prog.asks_ite
    (Prog.asks_bind (Prog.asks_writeState _) fun _ =>
      Prog.asks_bind (completeError_unitFree error) fun _ => trivial) trivial

theorem removePendingCancelled_unitFree (isCandidate : Bool) :
    UnitFree (removePendingCancelled id isCandidate) := by
  have completed : UnitFree (completeCancelled id >>= fun _ =>
      pure AdmissionProgress.controlProgress) :=
    Prog.asks_bind completeCancelled_unitFree fun _ => trivial
  refine Prog.asks_bind (Prog.asks_atomically _) fun _ =>
    Prog.asks_ite (Prog.asks_ite ?_ ?_) trivial
  · exact completed
  · exact Prog.asks_bind (Prog.asks_writeState _) fun _ => completed

/-! ## Admission -/

theorem ensureBasePlan_unitFree : UnitFree (ensureBasePlan id) := by
  refine Prog.asks_bind (Prog.asks_readState _) fun present =>
    Prog.asks_bind ?_ fun summary => Prog.asks_ite trivial trivial
  cases present with
  | some summary => trivial
  | none =>
    exact Prog.asks_bind (Prog.asks_attempt rfl) fun _ =>
      Prog.asks_bind (Prog.asks_writeState _) fun _ => trivial

theorem ensureLanePlan_unitFree : UnitFree (ensureLanePlan id lane) :=
  Prog.asks_bind (Prog.asks_readState _) fun _ => Prog.asks_ite trivial
    (Prog.asks_bind (Prog.asks_writeState _) fun _ =>
      Prog.asks_bind (Prog.asks_attempt rfl) fun _ => Prog.asks_writeState _)

theorem selectLane_unitFree {feasible : Nat → Oracle Bool}
    (hf : ∀ lane, (feasible lane).unit = none) (evictRetained : Bool) (lanes : List Nat)
    (selected : Option (LaneChoice × Nat)) :
    UnitFree (selectLane id feasible evictRetained lanes selected) := by
  induction lanes generalizing selected with
  | nil => trivial
  | cons lane lanes ih =>
    refine Prog.asks_bind (Prog.asks_readState _) fun slot => ?_
    cases slot with
    | some _ => exact ih _
    | none =>
      refine Prog.asks_bind ensureLanePlan_unitFree fun _ =>
        Prog.asks_bind (Prog.asks_readState _) fun plan => ?_
      cases plan with
      | none => trivial
      | some plan => exact Prog.asks_bind (Prog.asks_query (hf lane)) fun _ => ih _

theorem findAdmissionLane_unitFree (n : Nat) : UnitFree (findAdmissionLane n id) := by
  refine Prog.asks_bind (selectLane_unitFree (fun _ => rfl) _ _ _) fun direct => ?_
  cases direct with
  | some choice => trivial
  | none => exact Prog.asks_bind (selectLane_unitFree (fun _ => rfl) _ _ _) fun _ => trivial

theorem examine_unitFree (o : Options) (isCandidate : Bool) :
    UnitFree (examine o id isCandidate) := by
  have removed : ∀ e, UnitFree (removePendingError id e >>= fun _ =>
      pure (Examined.removed .controlProgress)) := fun e =>
    Prog.asks_bind (removePendingError_unitFree e) fun _ => trivial
  refine Prog.asks_bind (Prog.asks_readState _) fun cancelled => Prog.asks_ite ?_ ?_
  · exact Prog.asks_bind (removePendingCancelled_unitFree _) fun _ => trivial
  refine Prog.asks_bind (Prog.asks_query rfl) fun late => Prog.asks_ite (removed _) ?_
  refine Prog.asks_bind (Prog.asks_catching ensureBasePlan_unitFree) fun base => ?_
  cases base with
  | error e => exact removed e
  | ok base =>
    refine Prog.asks_ite ?_ (removed _)
    refine Prog.asks_bind (Prog.asks_catching (findAdmissionLane_unitFree _)) fun lane => ?_
    cases lane with
    | error e => exact removed e
    | ok lane => trivial

theorem evictRetainedLanes_unitFree (lanes : List Nat) :
    UnitFree (evictRetainedLanes lane id lanes) := by
  induction lanes with
  | nil => trivial
  | cons retainedLane lanes ih =>
    refine Prog.asks_bind (Prog.asks_query rfl) fun admits => Prog.asks_ite trivial ?_
    refine Prog.asks_bind (Prog.asks_readState _) fun slot =>
      Prog.asks_bind (Prog.asks_query rfl) fun retained => Prog.asks_ite ?_ ih
    exact Prog.asks_bind (Prog.asks_query rfl) fun _ =>
      Prog.asks_bind (Prog.asks_writeState _) fun _ => ih

theorem makeFeasible_unitFree (n : Nat) (choice : LaneChoice) :
    UnitFree (makeFeasible n id choice) :=
  Prog.asks_ite (Prog.asks_bind (evictRetainedLanes_unitFree _) fun _ => Prog.asks_query rfl)
    trivial

theorem spendTemporalCredit_unitFree (backfillClass : BackfillClass) (backfillEpoch work : Nat) :
    UnitFree (spendTemporalCredit backfillClass backfillEpoch work) :=
  Prog.asks_ite (Prog.asks_bind (Prog.asks_atomically _) fun _ => Prog.asks_ite trivial trivial)
    trivial

theorem occupyLane_unitFree (backfillClass : BackfillClass) (backfillEpoch : Nat)
    (summary : RequestPlanSummary) :
    UnitFree (occupyLane id lane backfillClass backfillEpoch summary) :=
  Prog.asks_ite trivial (Prog.asks_bind (Prog.asks_writeState _) fun _ => Prog.asks_ite
    (Prog.asks_bind (Prog.asks_attempt rfl) fun _ => Prog.asks_writeState _) trivial)

theorem abandonAdmission_unitFree (targetStarted : Bool) (error : Failure) :
    UnitFree (abandonAdmission id lane targetStarted error) :=
  Prog.asks_bind (Prog.asks_ite (Prog.asks_query rfl) trivial) fun _ =>
    Prog.asks_bind (Prog.asks_writeState _) fun _ =>
      Prog.asks_bind (Prog.asks_writeState _) fun _ =>
        Prog.asks_bind (completeError_unitFree error) fun _ => trivial

theorem activeAdmissionSet_unitFree (n : Nat) : UnitFree (activeAdmissionSet n) :=
  Prog.asks_bind (Prog.asks_readState _) fun _ => Prog.asks_ite trivial trivial

theorem protectHead_unitFree (o : Options) (head : Nat) (base : RequestPlanSummary)
    (active : List ActiveAdmissionSnapshot) : UnitFree (protectHead o head base active) := by
  refine Prog.asks_bind (Prog.asks_readState _) fun present => Prog.asks_bind ?_ fun protection =>
    Prog.asks_bind (Prog.asks_writeState _) fun _ => trivial
  cases present with
  | some protection => trivial
  | none =>
    refine Prog.asks_bind (Prog.asks_atomically _) fun epoch => ?_
    split <;> trivial

/-! ## The end of the engine -/

theorem failAll_unitFree (n : Nat) (error : Failure) : UnitFree (failAll n error) := by
  refine Prog.asks_bind (Prog.asks_atomically _) fun pending =>
    Prog.asks_bind (Prog.asks_writeState _) fun _ => Prog.asks_bind ?_ fun _ =>
      Prog.asks_forEach (fun _ => completeError_unitFree error) _
  refine Prog.asks_forEach (fun lane => Prog.asks_bind (Prog.asks_readState _) fun slot => ?_) _
  cases slot with
  | none => trivial
  | some id =>
    exact Prog.asks_bind (Prog.asks_query rfl) fun _ =>
      Prog.asks_bind (completeError_unitFree error) fun _ => Prog.asks_writeState _

end Ninfer.Executor
