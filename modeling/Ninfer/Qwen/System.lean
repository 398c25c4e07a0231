import Ninfer.Qwen.Resolving
import Ninfer.Qwen.Service

/-!
# The program and its executor

`concurrent_executor.h` calls the program by what it keeps of the requests in its slots. This module
has that part of the executor: which lane runs a request and how far it is, its budget, its
admission resources and its service work, and the lanes of a decode round that is not resolved yet.
An action is one call of the program with the accounting that follows it; an exception of an action
ends in `fail_all`.

What decides about an action is left open, as far as the executor leaves it open: which prompt comes
next, when a request is cancelled, what the device samples, and how many tokens the output policy
accepts.

## Main definitions

* `Account`: what the executor accounts for a request in a slot
* `System`: the program with the slots of the executor
* `System.activeAdmissionSet`: the accounting as the admission policy sees it
* `Action`, `Action.Enabled`, `Action.run`: the calls, when the executor makes them, what they do
* `Step`, `Reachable`: the runs
* `System.perform`, `System.serve`: runs that compute
-/

namespace Ninfer.Qwen

open PagedKV
open Executor (AdmissionResources ActiveAdmissionSnapshot BackfillClass)

/-- The accounting of a request in a slot: `admission_resources` and `remaining_service_work`. The
other fields are records: the projection of the plan, the prefill steps taken, and the tokens
accepted in decode rounds. -/
structure Account where
  admission : AdmissionResources := {}
  remaining : Nat := 0
  quanta : Nat := 0
  prefillUnits : Nat := 0
  steps : Nat := 0
  accepted : Nat := 0
  deriving DecidableEq, Repr

/-- The program, and what the executor keeps of the lanes: the request in each slot, with its
accounting, and the lanes of the decode round that is not resolved. The last field is a record: the
accounting of the requests that have left their slots. -/
structure System (n : Nat) where
  program : Program n
  slots : Fin n → Slot := fun _ => {}
  accounts : Fin n → Account := fun _ => {}
  round : List (Fin n) := []
  closed : List Account := []

variable {n : Nat} (cfg : Config n)

namespace System

/-- The system as constructed. -/
def init : System n where
  program := Program.init cfg

/-- A request takes the slot of a lane. -/
def occupy (s : System n) (l : Fin n) (plan : RequestPlan) : System n :=
  { s with
    slots := Function.update s.slots l ⟨.prefilling, plan.summary.effectiveOutputTokens⟩
    accounts := Function.update s.accounts l
      { admission := plan.summary.admission
        remaining := plan.summary.serviceWorkQuanta
        quanta := plan.summary.serviceWorkQuanta
        prefillUnits := plan.prefillUnits cfg } }

/-- The slot of a lane with another phase or budget. -/
def setSlot (s : System n) (l : Fin n) (slot : Slot) : System n :=
  { s with slots := Function.update s.slots l slot }

/-- The accounting of a lane changed. -/
def setAccount (s : System n) (l : Fin n) (account : Account) : System n :=
  { s with accounts := Function.update s.accounts l account }

/-- `remove_completed_slot`. -/
def release (s : System n) (l : Fin n) : System n :=
  { (s.setSlot l {}).setAccount l {} with closed := s.closed ++ [s.accounts l] }

/-- `abort_lane` for the request in the slot of a lane, which is removed. -/
def abandon (s : System n) (l : Fin n) : System n :=
  ({ s with program := abortLane l s.program } : System n).release l

/-- `fail_all`, as far as the lanes are concerned. -/
def failAll (s : System n) : System n where
  program := clearLanes ((List.finRange n).filter fun l => (s.slots l).phase ≠ .idle) s.program
  closed := s.closed

end System

/-! ## Accounting -/

/-- A call of the program. -/
def onProgram {α : Type} (c : Call (Program n) α) : Call (System n) α := fun s =>
  match c s.program with
  | .ok a program => .ok a { s with program := program }
  | .error e program => .error e { s with program := program }

theorem onProgram_of_ok {α : Type} {c : Call (Program n) α} {s : System n} {a : α} {p : Program n}
    (hc : c s.program = .ok a p) : onProgram c s = .ok a { s with program := p } := by
  simp only [onProgram, hc]

theorem onProgram_of_error {α : Type} {c : Call (Program n) α} {s : System n} {e : Exception}
    {p : Program n} (hc : c s.program = .error e p) :
    onProgram c s = .error e { s with program := p } := by
  simp only [onProgram, hc]

/-- `consume_service_work`, for the request of a lane. -/
def consumeServiceWork (l : Fin n) (work : Nat) : Call (System n) Unit := fun s =>
  let account := s.accounts l
  if work = 0 ∨ account.remaining < work then
    .error (.logicError ("request service projection consumed " ++ toString work ++
      " quanta with " ++ toString account.remaining ++ " remaining")) s
  else .ok () (s.setAccount l { account with remaining := account.remaining - work })

/-- `resolve_prefill_step` before the first token is resolved. -/
def resolvePrefillStep (l : Fin n) (step : PrefillStep) : Call (System n) Unit := do
  consumeServiceWork l 1
  modify fun s => (s.setAccount l { s.accounts l with steps := (s.accounts l).steps + 1 }).setSlot l
    { s.slots l with phase := if step.token.isSome then .firstToken else .prefilling }

/-- The commit loop of `run_decode_round` at one row. -/
def commitDecoded (l : Fin n) (row : Resolution) : Call (System n) Unit := do
  if row.cancelled then pure ()
  else do
    modify fun s => s.setSlot l { s.slots l with budget := (s.slots l).budget - row.accepted }
    consumeServiceWork l row.accepted
    modify fun s => s.setAccount l
      { s.accounts l with accepted := (s.accounts l).accepted + row.accepted }
  if row.terminal then modify (·.release l) else pure ()

/-- What the admission policy keeps of a request besides its accounting. -/
structure Ticket where
  requestId : Nat
  backfillEpoch : Nat := 0
  backfillClass : BackfillClass := .none
  deriving DecidableEq, Repr

/-- The snapshot of the request of a lane. -/
def System.snapshot (s : System n) (tickets : Fin n → Ticket) (l : Fin n) :
    ActiveAdmissionSnapshot where
  requestId := (tickets l).requestId
  resources := (s.accounts l).admission
  remainingWorkQuanta := (s.accounts l).remaining
  backfillEpoch := (tickets l).backfillEpoch
  backfillClass := (tickets l).backfillClass

/-- The lanes with a request. -/
def System.occupied (s : System n) : List (Fin n) :=
  (List.finRange n).filter fun l => (s.slots l).phase ≠ .idle

/-- `active_admission_set`. -/
def System.activeAdmissionSet (s : System n) (tickets : Fin n → Ticket) :
    Except Exception (List ActiveAdmissionSnapshot) :=
  let active := s.occupied.map (s.snapshot tickets)
  if active.any fun a => a.resources.activeLanes == 0 || a.remainingWorkQuanta == 0 then
    .error (.logicError "active request has no admission accounting")
  else .ok active

/-! ## Actions -/

/-- The calls of the program that the executor makes. -/
inductive Action (n : Nat)
  /-- `admit_planned_request`, up to the first step of the prefill. -/
  | start (l : Fin n) (prompt : PreparedPromptData) (options : ExecutionOptions)
      (base : RequestBasePlan) (plan : RequestPlan) (transient : TransientRegion) (sampled : Sampled)
  /-- `run_prefill_step`. -/
  | advance (l : Fin n) (sampled : Sampled)
  /-- `resolve_round`. -/
  | resolvePrefill (l : Fin n) (terminal : Bool)
  /-- `run_decode_round`, the decode call. -/
  | decode (rows : List (Fin n × Verdict))
  /-- `run_decode_round`, the resolution. -/
  | resolve (rows : List (Fin n × Resolution))
  /-- The cancellation of a request in a slot. -/
  | abort (l : Fin n)
  /-- The eviction of a retained lane. -/
  | evict (l : Fin n)

/-- The rows of a decode call. -/
def System.batch (s : System n) (rows : List (Fin n × Verdict)) : List (BatchRow n) :=
  rows.map fun row => ⟨row.1, (s.slots row.1).budget, row.2⟩

/-- When the executor makes a call. A plan was made for the lane as it is, a request that goes on has
budget left, and the resolution of a round follows its rows. -/
def Action.Enabled (s : System n) : Action n → Prop
  | .start l prompt options base plan transient _ =>
    (s.slots l).phase = .idle ∧ Prepared prompt ∧ planRequestBase cfg prompt options = .ok base ∧
      planRequestForLane cfg (s.program.lanes l) prompt base = .ok plan ∧
      canAdmitLane cfg s.program l plan = true ∧ Satisfies plan transient
  | .advance l _ => (s.slots l).phase = .prefilling
  | .resolvePrefill l terminal =>
    (s.slots l).phase = .firstToken ∧ (terminal = false → 1 < (s.slots l).budget)
  | .decode rows =>
    s.round = [] ∧ rows ≠ [] ∧ (rows.map Prod.fst).Nodup ∧
      ∀ row ∈ rows, (s.slots row.1).phase = .decoding
  | .resolve rows =>
    rows ≠ [] ∧ rows.map Prod.fst = s.round ∧
      ∀ row ∈ rows, ResolutionOk (s.program.lanes row.1) (s.slots row.1).budget row.2 ∧
        (row.2.cancelled = true → row.2.terminal = true)
  | .abort l => (s.slots l).phase ≠ .idle ∧ l ∉ s.round
  | .evict l => (s.slots l).phase = .idle

/-- What a call does, with the accounting that follows it. -/
def Action.run : Action n → Call (System n) Unit
  | .start l prompt _ _ plan transient sampled => do
    modify (·.occupy cfg l plan)
    Call.handle
      (do let step ← onProgram (startPrefillLane cfg l prompt plan transient sampled)
          resolvePrefillStep l step)
      fun e s => .error e (s.abandon l)
  | .advance l sampled => do
    let step ← onProgram (advancePrefillLane cfg l sampled)
    resolvePrefillStep l step
  | .resolvePrefill l terminal => do
    onProgram (resolvePrefillLane cfg l terminal)
    modify fun s => if terminal then s.release l
      else s.setSlot l ⟨.decoding, (s.slots l).budget - 1⟩
  | .decode rows => do
    let s ← get
    let _ ← onProgram (decodeBatch cfg (s.batch rows))
    modify fun s => { s with round := rows.map Prod.fst }
  | .resolve rows => do
    onProgram (resolvePendingBatch cfg rows)
    modify fun s => { s with round := [] }
    rows.forM fun row => commitDecoded row.1 row.2
  | .abort l => modify (·.abandon l)
  | .evict l => onProgram (modify (evictRetainedLane l))

/-- One action, or one that throws: `worker_loop` catches the exception and calls `fail_all`. -/
inductive Step (s : System n) : System n → Prop
  | returned {action : Action n} {s' : System n} (enabled : action.Enabled cfg s)
      (run : action.run cfg s = .ok () s') : Step s s'
  | threw {action : Action n} {e : Exception} {s' : System n} (enabled : action.Enabled cfg s)
      (run : action.run cfg s = .error e s') : Step s s'.failAll

/-- The states of the runs. -/
def Reachable (s : System n) : Prop := Relation.ReflTransGen (Step cfg) (System.init cfg) s

/-! ## Runs that compute -/

/-- The state after an action. -/
def System.perform (s : System n) (action : Action n) : System n :=
  match action.run cfg s with
  | .ok _ s' => s'
  | .error _ s' => s'.failAll

/-- The state after a request was planned and started, if the lane can take it. -/
def System.serve (s : System n) (l : Fin n) (prompt : PreparedPromptData)
    (options : ExecutionOptions) (transient : TransientRegion) (sampled : Sampled) : System n :=
  match planRequestBase cfg prompt options with
  | .error _ => s
  | .ok base =>
    match planRequestForLane cfg (s.program.lanes l) prompt base with
    | .error _ => s
    | .ok plan =>
      if canAdmitLane cfg s.program l plan = true ∧ Satisfies plan transient then
        s.perform cfg (.start l prompt options base plan transient sampled)
      else s

variable {cfg} {s : System n}

theorem Reachable.perform {action : Action n} (hr : Reachable cfg s)
    (he : action.Enabled cfg s) : Reachable cfg (s.perform cfg action) := by
  unfold System.perform
  split
  next h => exact hr.tail (.returned he h)
  next h => exact hr.tail (.threw he h)

theorem Reachable.serve {l : Fin n} {prompt : PreparedPromptData} {options : ExecutionOptions}
    {transient : TransientRegion} {sampled : Sampled} (hr : Reachable cfg s)
    (hidle : (s.slots l).phase = .idle) (hprep : Prepared prompt) :
    Reachable cfg (s.serve cfg l prompt options transient sampled) := by
  unfold System.serve
  split
  next => exact hr
  next base hbase =>
    split
    next => exact hr
    next plan hplan =>
      split_ifs with h
      · exact hr.perform ⟨hidle, hprep, hbase, hplan, h.1, h.2⟩
      · exact hr

end Ninfer.Qwen
