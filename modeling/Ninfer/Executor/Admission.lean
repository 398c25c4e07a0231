import Ninfer.Commons.Call

/-!
# The admission policy

`runtime/engine/admission_policy.cpp`: when the request at the head of the queue does not fit, the
requests that are active then are frozen as its incumbents, the shortest prefix of them in the
order of completion that makes room is chosen as donors, and younger requests may be admitted
before the head only as far as that does not push it back.

## Main definitions

* `AdmissionResources`, `ActiveAdmissionSnapshot`, `AdmissionProtection`: the data of the policy
* `makeAdmissionProtection`: freezes the incumbents and picks the donors
* `persistentBackfillIsSafe`, `protectionFrontierDistance`, `protectedHeadSafeWithoutTemporal`:
  the three tests made of a frozen head
-/

namespace Ninfer.Executor

/-- `kMaximumConcurrency`. -/
def kMaximumConcurrency : Nat := 8

/-- `AdmissionResources`, which is also `ResourceTotals`: the totals are 64-bit sums of at most
nine 32-bit values. -/
structure AdmissionResources where
  activeLanes : Nat := 0
  mainKvPages : Nat := 0
  backendKvPages : Nat := 0
  deriving DecidableEq, Repr

inductive BackfillClass
  | none
  | persistent
  | temporal
  deriving DecidableEq, Repr

structure ActiveAdmissionSnapshot where
  requestId : Nat := 0
  resources : AdmissionResources := {}
  remainingWorkQuanta : Nat := 0
  backfillEpoch : Nat := 0
  backfillClass : BackfillClass := .none
  deriving DecidableEq, Repr

inductive ProtectionPhase
  | open
  | drain
  deriving DecidableEq, Repr

/-- `AdmissionProtection`, its arrays with their counts as lists. -/
structure AdmissionProtection where
  epochId : Nat := 0
  headRequestId : Nat := 0
  headResources : AdmissionResources := {}
  incumbentIds : List Nat := []
  donorIds : List Nat := []
  temporalCredit : Nat := 0
  phase : ProtectionPhase := .open
  deriving DecidableEq, Repr

namespace AdmissionResources

/-- `add`. -/
def add (total resources : AdmissionResources) : AdmissionResources where
  activeLanes := total.activeLanes + resources.activeLanes
  mainKvPages := total.mainKvPages + resources.mainKvPages
  backendKvPages := total.backendKvPages + resources.backendKvPages

/-- `subtract`; `none` is its underflow error. -/
def subtract (total resources : AdmissionResources) : Option AdmissionResources :=
  if total.activeLanes < resources.activeLanes ∨ total.mainKvPages < resources.mainKvPages ∨
      total.backendKvPages < resources.backendKvPages then none
  else
    some
      { activeLanes := total.activeLanes - resources.activeLanes
        mainKvPages := total.mainKvPages - resources.mainKvPages
        backendKvPages := total.backendKvPages - resources.backendKvPages }

/-- `fits`. -/
def fits (used capacity : AdmissionResources) : Bool :=
  decide (used.activeLanes ≤ capacity.activeLanes) &&
    decide (used.mainKvPages ≤ capacity.mainKvPages) &&
      decide (used.backendKvPages ≤ capacity.backendKvPages)

end AdmissionResources

/-- `admission_resources_fit`. -/
def admissionResourcesFit (used capacity : AdmissionResources) : Bool :=
  (AdmissionResources.add {} used).fits capacity

namespace AdmissionProtection

variable (protection : AdmissionProtection)

/-- `is_incumbent`. -/
def isIncumbent (id : Nat) : Bool := protection.incumbentIds.contains id

/-- `is_donor`. -/
def isDonor (id : Nat) : Bool := protection.donorIds.contains id

end AdmissionProtection

/-- The order of projected completion: less work first, then the smaller id. -/
def completesBefore (lhs rhs : ActiveAdmissionSnapshot) : Prop :=
  if lhs.remainingWorkQuanta ≠ rhs.remainingWorkQuanta then
    lhs.remainingWorkQuanta < rhs.remainingWorkQuanta
  else lhs.requestId ≤ rhs.requestId

instance : DecidableRel completesBefore := fun lhs rhs =>
  inferInstanceAs (Decidable (if lhs.remainingWorkQuanta ≠ rhs.remainingWorkQuanta then
    lhs.remainingWorkQuanta < rhs.remainingWorkQuanta else lhs.requestId ≤ rhs.requestId))

/-- The donor loop of `make_admission_protection`, from the survivors on. -/
def pickDonors (capacity : AdmissionResources) (out : AdmissionProtection)
    (survivors : AdmissionResources) :
    List ActiveAdmissionSnapshot → Except Exception AdmissionProtection
  | [] => .error (.logicError "exclusive-feasible head has no releasing incumbent frontier")
  | donor :: rest =>
    match survivors.subtract donor.resources with
    | none => .error (.logicError "admission resource subtraction underflow")
    | some survivors' =>
      let out' := { out with
        donorIds := out.donorIds ++ [donor.requestId]
        temporalCredit := donor.remainingWorkQuanta }
      if survivors'.fits capacity then .ok out' else pickDonors capacity out' survivors' rest

/-- `make_admission_protection`. -/
def makeAdmissionProtection (epochId headRequestId : Nat) (headResources : AdmissionResources)
    (active : List ActiveAdmissionSnapshot) (capacity : AdmissionResources) :
    Except Exception AdmissionProtection :=
  if epochId = 0 ∨ headRequestId = 0 ∨ active = [] ∨ kMaximumConcurrency < active.length ∨
      headResources.activeLanes = 0 ∨ admissionResourcesFit headResources capacity = false then
    .error (.invalidArgument "invalid protected-admission frontier")
  else if active.any fun a => a.requestId == 0 || a.remainingWorkQuanta == 0 then
    .error (.invalidArgument "protected incumbent has invalid progress state")
  else
    let survivors := AdmissionResources.add
      (active.foldl (fun total a => AdmissionResources.add total a.resources) {}) headResources
    if survivors.fits capacity then
      .error (.invalidArgument "protected head is not blocked by frozen incumbents")
    else
      pickDonors capacity
        { epochId := epochId, headRequestId := headRequestId, headResources := headResources
          incumbentIds := active.map fun a => a.requestId }
        survivors (active.insertionSort completesBefore)

/-- `persistent_backfill_is_safe`. -/
def persistentBackfillIsSafe (protection : AdmissionProtection)
    (active : List ActiveAdmissionSnapshot) (candidate capacity : AdmissionResources) : Bool :=
  let future := active.foldl (fun total request =>
    if protection.isIncumbent request.requestId then
      if protection.isDonor request.requestId then total else total.add request.resources
    else if request.backfillEpoch = protection.epochId ∧ request.backfillClass = .persistent then
      total.add request.resources
    else total) (AdmissionResources.add {} protection.headResources)
  (future.add candidate).fits capacity

/-- `protection_frontier_distance`. -/
def protectionFrontierDistance (protection : AdmissionProtection)
    (active : List ActiveAdmissionSnapshot) : Nat :=
  active.foldl (fun distance request =>
    if protection.isDonor request.requestId then max distance request.remainingWorkQuanta
    else distance) 0

/-- `protected_head_safe_without_temporal`. -/
def protectedHeadSafeWithoutTemporal (protection : AdmissionProtection)
    (active : List ActiveAdmissionSnapshot) (capacity : AdmissionResources) : Bool :=
  let used := active.foldl (fun total request =>
    if protection.isIncumbent request.requestId ∨ request.backfillEpoch ≠ protection.epochId ∨
        request.backfillClass ≠ .temporal then total.add request.resources
    else total) (AdmissionResources.add {} protection.headResources)
  used.fits capacity

/-! ## Totals -/

/-- A component of the resources. -/
inductive Component
  | activeLanes
  | mainKvPages
  | backendKvPages
  deriving DecidableEq, Repr

namespace AdmissionResources

/-- The amount of a component. -/
def amount (r : AdmissionResources) : Component → Nat
  | .activeLanes => r.activeLanes
  | .mainKvPages => r.mainKvPages
  | .backendKvPages => r.backendKvPages

@[simp] theorem amount_zero (k : Component) : amount {} k = 0 := by
  cases k <;> rfl

@[simp] theorem amount_add (r r' : AdmissionResources) (k : Component) :
    (r.add r').amount k = r.amount k + r'.amount k := by
  cases k <;> rfl

theorem fits_iff {used capacity : AdmissionResources} :
    used.fits capacity = true ↔ ∀ k, used.amount k ≤ capacity.amount k := by
  simp only [fits, Bool.and_eq_true, decide_eq_true_eq]
  constructor
  · rintro ⟨⟨h₁, h₂⟩, h₃⟩ k
    cases k with
    | activeLanes => exact h₁
    | mainKvPages => exact h₂
    | backendKvPages => exact h₃
  · intro h
    exact ⟨⟨h .activeLanes, h .mainKvPages⟩, h .backendKvPages⟩

/-- **A total of the requests that a test selects**, component by component. -/
theorem amount_foldl_ite {α : Type} (resources : α → AdmissionResources) (test : α → Prop)
    [DecidablePred test] (k : Component) : ∀ (xs : List α) (total : AdmissionResources),
    (xs.foldl (fun total x => if test x then total.add (resources x) else total) total).amount k =
      total.amount k + (xs.map fun x => if test x then (resources x).amount k else 0).sum
  | [], _ => rfl
  | x :: xs, total => by
    rw [List.foldl_cons, amount_foldl_ite resources test k xs, List.map_cons, List.sum_cons]
    by_cases h : test x
    · rw [if_pos h, if_pos h, amount_add, Nat.add_assoc]
    · rw [if_neg h, if_neg h, Nat.zero_add]

/-- The total of all requests. -/
theorem amount_foldl {α : Type} (resources : α → AdmissionResources) (k : Component) (xs : List α)
    (total : AdmissionResources) :
    (xs.foldl (fun total x => total.add (resources x)) total).amount k =
      total.amount k + (xs.map fun x => (resources x).amount k).sum := by
  simpa using amount_foldl_ite resources (fun _ => True) k xs total

end AdmissionResources

theorem admissionResourcesFit_iff {used capacity : AdmissionResources} :
    admissionResourcesFit used capacity = true ↔ ∀ k, used.amount k ≤ capacity.amount k := by
  simp [admissionResourcesFit, AdmissionResources.fits_iff]

end Ninfer.Executor
