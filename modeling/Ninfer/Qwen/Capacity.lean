import Ninfer.Qwen.Layouts

/-!
# Resolving the KV capacity

`runtime/engine/kv_capacity.cpp`, which picks a number of page groups on the line through the two
layouts a planner has probed, and the finalization of the plan for that number, up to the check
`construct_registered` makes of the two.

## Main definitions

* `SequenceCapacityCurve.reservationBytes`, `SequenceCapacityCurve.resolvedTokens`: a point of the
  curve
* `resolveKvCapacity`: the number of page groups a policy gets
* `finalizeSequencePlan`: the plan for a number of page groups
* `finalizeResolved`: the finalization as `construct_registered` makes it
-/

namespace Ninfer.Qwen.Layouts

namespace SequenceCapacityCurve

/-- `validate_curve`. -/
def validate (curve : SequenceCapacityCurve) : Except Exception Unit := do
  check (curve.mainPageTokens ≠ 0 ∧ curve.minimumMainPageGroups ≠ 0 ∧
      curve.minimumMainPageGroups ≤ curve.maximumMainPageGroups ∧
      curve.minimumDeviceReservationBytes ≠ 0)
    (.invalidArgument "sequence capacity curve is invalid")
  check (curve.minimumMainPageGroups < curve.maximumMainPageGroups →
      curve.bytesPerAdditionalMainPageGroup ≠ 0)
    (.invalidArgument "expandable sequence capacity curve has zero byte stride")

/-- The check of a page count against the curve. -/
def checkRange (curve : SequenceCapacityCurve) (mainPageGroups : Nat) : Except Exception Unit :=
  check (curve.minimumMainPageGroups ≤ mainPageGroups ∧
      mainPageGroups ≤ curve.maximumMainPageGroups)
    (.invalidArgument "Main KV page count is outside the target capacity curve")

/-- `SequenceCapacityCurve::reservation_bytes`. -/
def reservationBytes (curve : SequenceCapacityCurve) (mainPageGroups : Nat) :
    Except Exception Nat := do
  curve.validate
  curve.checkRange mainPageGroups
  let increment ← checkedMul (mainPageGroups - curve.minimumMainPageGroups)
    curve.bytesPerAdditionalMainPageGroup "sequence capacity increment overflows size_t"
  checkedAdd curve.minimumDeviceReservationBytes increment
    "sequence capacity reservation overflows size_t"

/-- `SequenceCapacityCurve::resolved_tokens`. -/
def resolvedTokens (curve : SequenceCapacityCurve) (mainPageGroups : Nat) :
    Except Exception Nat := do
  curve.validate
  curve.checkRange mainPageGroups
  check (mainPageGroups * curve.mainPageTokens ≤ uint32Max)
    (.overflowError "resolved KV token capacity exceeds uint32")
  return mainPageGroups * curve.mainPageTokens

/-- `explicit_page_groups`. -/
def explicitPageGroups (curve : SequenceCapacityCurve) (tokens : Nat) : Except Exception Nat := do
  check (tokens ≠ 0) (.invalidArgument "explicit KV capacity must be positive")
  let pages := 1 + (tokens - 1) / curve.mainPageTokens
  check (pages ≤ uint32Max) (.overflowError "explicit KV page count exceeds uint32")
  return pages

end SequenceCapacityCurve

/-- `KvCapacityResolution`. Its mode and the slack are read off the policy and the sizes. -/
structure KvCapacityResolution where
  mainPageGroups : Nat
  maximumMainPageGroups : Nat
  resolvedTokens : Nat
  minimumRuntimeReservationBytes : Nat
  bytesPerAdditionalMainPageGroup : Nat
  runtimeReservationBytes : Nat
  availableAfterWeightsBytes : Nat
  deriving DecidableEq, Repr

/-- The text of the error when the headroom alone does not fit. -/
def headroomText (headroom available : Nat) : String :=
  "automatic KV headroom requires " ++ toString headroom ++ " bytes, but only " ++
    toString available ++ " bytes are available after weights"

/-- The text of the error when the smallest reservation does not fit. -/
def minimumText (minimum headroom available : Nat) : String :=
  "minimum Engine runtime reservation requires " ++ toString minimum ++
    " bytes in addition to " ++ toString headroom ++ " bytes of automatic headroom, but only " ++
    toString available ++ " bytes are available after weights"

/-- The text of the error when the requested reservation does not fit. -/
def requestedText (reservation budget : Nat) : String :=
  "requested Engine runtime reservation requires " ++ toString reservation ++
    " bytes, but only " ++ toString budget ++ " bytes are available for runtime capacity"

/-- The number of page groups a policy asks for, and the bytes it may use. -/
def requestedPages (policy : KvCapacityPolicy) (curve : SequenceCapacityCurve)
    (available : Nat) : Except Exception (Nat × Nat) :=
  match policy with
  | .explicit tokens headroom => do
    check (headroom = 0)
      (.invalidArgument "explicit KV capacity must not carry automatic headroom")
    let pages ← curve.explicitPageGroups tokens
    return (pages, available)
  | .automatic headroom => do
    check (headroom ≤ available) (.invalidArgument (headroomText headroom available))
    let budget := available - headroom
    check (curve.minimumDeviceReservationBytes ≤ budget)
      (.invalidArgument (minimumText curve.minimumDeviceReservationBytes headroom available))
    if curve.minimumMainPageGroups < curve.maximumMainPageGroups then
      let additional := (budget - curve.minimumDeviceReservationBytes) /
        curve.bytesPerAdditionalMainPageGroup
      return (min ((curve.minimumMainPageGroups + additional) % U64.size)
        curve.maximumMainPageGroups, budget)
    else return (curve.minimumMainPageGroups, budget)

/-- `resolve_kv_capacity`. -/
def resolveKvCapacity (policy : KvCapacityPolicy) (curve : SequenceCapacityCurve)
    (available : Nat) : Except Exception KvCapacityResolution := do
  curve.validate
  let (pages, budget) ← requestedPages policy curve available
  let reservation ← curve.reservationBytes pages
  check (reservation ≤ budget) (.invalidArgument (requestedText reservation budget))
  let tokens ← curve.resolvedTokens pages
  return ⟨pages, curve.maximumMainPageGroups, tokens, curve.minimumDeviceReservationBytes,
    curve.bytesPerAdditionalMainPageGroup, reservation, available⟩

/-- `finalize_sequence_plan_impl`, of a planner that is not empty. -/
def finalizeSequencePlan (v : Variant) (leaves : Leaves) (planner : SequencePlanner)
    (mainPageGroups : Nat) : Except Exception SequencePlan := do
  let expected ← planner.curve.reservationBytes mainPageGroups
  let plan ←
    if mainPageGroups = planner.curve.minimumMainPageGroups then .ok planner.minimum
    else buildSequenceCandidate v leaves planner.inputs mainPageGroups
  check (plan.deviceReservationBytes = expected)
    (.logicError "Qwen3.6 physical sequence layout is not affine in Main KV page capacity")
  return plan

/-- The finalization of a resolved capacity in `construct_registered`. -/
def finalizeResolved (v : Variant) (leaves : Leaves) (planner : SequencePlanner)
    (resolution : KvCapacityResolution) : Except Exception SequencePlan := do
  let plan ← finalizeSequencePlan v leaves planner resolution.mainPageGroups
  check (plan.deviceReservationBytes = resolution.runtimeReservationBytes ∧
      plan.kvCapacity = resolution.resolvedTokens)
    (.logicError "resolved KV capacity does not match the finalized target plan")
  return plan

end Ninfer.Qwen.Layouts
