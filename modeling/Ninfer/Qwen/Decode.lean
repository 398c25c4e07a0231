import Ninfer.Qwen.Prefill

/-!
# Decode rounds of one lane

`program_impl.h`: what a decode round and its resolution do to one lane. Without a speculative
backend a round executes the last token of the ledger and samples the next one. With one, it
verifies the last token and a number of drafts after it, keeps the drafts the target accepts and
adds a token of its own; the linear state is folded only when the executor has decided how many of
these tokens it commits.

The verdict of the target, its tokens and the drafts come from the device: a row is given them. The
extent of the next MTP round is computed by the device too, but from numbers the host knows.

## Main definitions

* `decodeReady`: the checks that a lane can decode
* `roundExtent`, `roundTokens`: how many drafts a round verifies, and the KV extents it needs
* `decodeRow`: one row of a round
* `nextExtent`: the extent the device computes for the next MTP round
* `commitRow`: one row of the resolution of a speculative round
* `resolveNonSpeculative`: the resolution of a prefill and of an ordinary round
-/

namespace Ninfer.Qwen

open PagedKV (pagesForTokens kPagedKVPageSize)

variable {n : Nat} (cfg : Config n)

/-- `width`: a round verifies the last token and the drafts. -/
def Config.width {n : Nat} (cfg : Config n) : Nat := cfg.draftWindow + 1

/-! ## A round -/

/-- The readiness checks of the three batches, for a lane with the given rows bound. -/
def decodeReady (x : Lane) (budget : Nat) (textRow backendRow : Int) : Prop :=
  x.lifecycle = .active ∧ budget ≠ 0 ∧ x.kv.isSome ∧ 0 ≤ textRow ∧
    x.executionFrontier < cfg.capacity ∧ x.ledgerFrontier = x.executionFrontier + 1 ∧
    x.ledger.length = x.ledgerFrontier ∧ x.prefixIdentity.size = x.ledgerFrontier ∧
    match cfg.backend with
    | .none => True
    | .mtp => x.kv.any (·.backend) ∧ 0 ≤ backendRow ∧ x.mtpKvValid = x.executionFrontier ∧
        x.mtpDraftCount ≤ cfg.draftWindow
    | .dflash => x.kv.any (·.backend) ∧ 0 ≤ backendRow ∧ x.textKvValid = x.executionFrontier ∧
        x.dflashContextFrontier ≤ x.executionFrontier ∧
        x.executionFrontier - x.dflashContextFrontier ≤ cfg.width

instance (x : Lane) (budget : Nat) (textRow backendRow : Int) :
    Decidable (decodeReady cfg x budget textRow backendRow) := by
  unfold decodeReady
  cases cfg.backend <;> infer_instance

/-- `max_by_budget`. -/
def maxByBudget (budget : Nat) : Nat := if 1 < budget then budget - 1 else 0

/-- `extent`: the drafts a round verifies. -/
def roundExtent (x : Lane) (budget : Nat) : Nat :=
  match cfg.backend with
  | .none => 0
  | .mtp => min x.mtpDraftCount (min cfg.draftWindow
      (min (maxByBudget budget) (cfg.capacity - x.executionFrontier - 1)))
  | .dflash => min cfg.draftWindow
      (min (maxByBudget budget) (cfg.capacity - x.executionFrontier - 1))

/-- The KV extents a round materializes, in the text cache and in that of the backend. -/
def roundTokens (x : Lane) (extent : Nat) : Nat × Nat :=
  (x.executionFrontier + extent + 1,
    match cfg.backend with
    | .none => 0
    | .mtp => min cfg.capacity (x.executionFrontier + extent + cfg.draftWindow)
    | .dflash => x.executionFrontier)

/-- What the device returns for a row: the number of drafts the target agrees with, the token it
adds, and the drafts proposed in this round and for the next one. -/
structure Verdict where
  agreed : Nat
  token : TokenId
  proposals : Nat → TokenId
  nextDrafts : Nat → TokenId

/-- The drafts a row verifies: those the lane holds, or those DFlash proposes. -/
def roundDrafts (x : Lane) (extent : Nat) (verdict : Verdict) : List TokenId :=
  match cfg.backend with
  | .none => []
  | .mtp => (List.range extent).map fun j => x.mtpDrafts.getD j 0
  | .dflash => (List.range extent).map verdict.proposals

/-- The accepted drafts of a row: at most those it verifies. -/
def acceptedDrafts (extent : Nat) (verdict : Verdict) : Nat := min verdict.agreed extent

/-- `speculative_accept_greedy_drafts`: the accepted drafts and one token of the target. -/
def licensedTokens (x : Lane) (extent : Nat) (verdict : Verdict) : List TokenId :=
  (roundDrafts cfg x extent verdict).take (acceptedDrafts extent verdict) ++ [verdict.token]

/-- `mtp_prepare_next_round`: the extent the device computes for the next round, from the budget and
the frontier after the licensed tokens. -/
def nextExtent (remaining frontier : Int) : Int :=
  let budgetExtent := if 1 < remaining then remaining - 1 else 0
  let contextExtent := cfg.capacity - frontier - 1
  max 0 (min cfg.draftWindow (min budgetExtent contextExtent))

/-- The rotary positions of the columns of a row. DFlash takes the cache positions. -/
def columnPosition (x : Lane) (i : Nat) : Position :=
  match cfg.backend with
  | .dflash => .same i
  | _ => .same (i + x.ropeDelta)

/-- The entries of the columns of a row: the last token of the ledger, and the drafts. -/
def columnEntries (x : Lane) (drafts : List TokenId) : List Entry :=
  (x.ledger.getLastD 0 :: drafts).mapIdx fun j token =>
    ⟨token, 0, columnPosition cfg x (x.executionFrontier + j), none⟩

/-- What a decode round returns to the host for one row. -/
structure RowEgress where
  licensed : List TokenId := []
  nextExtent : Int := 0
  nextDrafts : List TokenId := []
  deriving DecidableEq, Repr

/-- The KV rows a round writes: the columns it verifies; in the cache of MTP the aligned columns of
the licensed tokens and the draft steps after them, in that of DFlash the context up to the
frontier. -/
def roundSpans (x : Lane) (extent licensed : Nat) (next : Int) : List KvSpan :=
  ⟨.text, x.executionFrontier, extent + 1⟩ ::
    (match cfg.backend with
    | .none => []
    | .mtp => [⟨.backend, x.executionFrontier, licensed⟩,
        ⟨.backend, x.executionFrontier + licensed, min (cfg.draftWindow - 1) (next.toNat - 1)⟩]
    | .dflash => [⟨.backend, x.dflashContextFrontier,
        x.executionFrontier - x.dflashContextFrontier⟩])

/-- What a row of a round does to its lane. -/
structure RowResult where
  lane : Lane
  egress : RowEgress
  spans : List KvSpan

/-- The row of an ordinary round. -/
def ordinaryRow (x : Lane) (verdict : Verdict) : Except Exception RowResult := do
  let entries := columnEntries cfg x []
  let run := x.device.forwardAll x.executionFrontier entries
  validateLicensedTokens [verdict.token]
  let identity ← x.prefixIdentity.appendGenerated x.ropeDelta 1
  .ok
    { lane := { x with
        device := { run.1 with tailHidden := run.2.getLastD none }
        textKvValid := x.executionFrontier + 1
        tailHiddenValid := true
        ledger := x.ledger ++ [verdict.token]
        prefixIdentity := identity
        pending := ⟨.ordinary, x.executionFrontier, x.ledgerFrontier, 0, 1⟩
        lifecycle := .pending }
      egress := { licensed := [verdict.token] }
      spans := roundSpans cfg x 0 1 0 }

/-- The row metadata that the host accepts. -/
def rowMetadata (x : Lane) (budget extent accepted count : Nat) (next : Int) : Prop :=
  count ≠ 0 ∧ count ≤ cfg.width ∧ accepted + 1 = count ∧
    (cfg.backend = .mtp → 0 ≤ next ∧ next ≤ cfg.draftWindow) ∧
    (cfg.backend = .dflash → accepted ≤ extent) ∧ count ≤ budget ∧
    x.executionFrontier + count ≤ cfg.capacity

instance (x : Lane) (budget extent accepted count : Nat) (next : Int) :
    Decidable (rowMetadata cfg x budget extent accepted count next) := by
  unfold rowMetadata
  infer_instance

/-- The row of a speculative round. The metadata the host checks come from the device. -/
def speculativeRow (x : Lane) (budget : Nat) (verdict : Verdict) : Except Exception RowResult := do
  let extent := roundExtent cfg x budget
  let accepted := acceptedDrafts extent verdict
  let licensed := licensedTokens cfg x extent verdict
  let count := licensed.length
  let next := if cfg.backend = .mtp then
    nextExtent cfg ((budget : Int) - count) (x.executionFrontier + count) else 0
  let verified := x.device.verify x.executionFrontier
    (columnEntries cfg x (roundDrafts cfg x extent verdict))
  check (rowMetadata cfg x budget extent accepted count next)
    (.runtimeError (if cfg.backend = .mtp then "MTP batch returned invalid row metadata"
      else "DFlash batch returned invalid row metadata"))
  validateLicensedTokens licensed
  .ok
    { lane := { x with
        device := { verified with tailHidden := verified.columns.getD accepted none }
        dflashContextFrontier :=
          if cfg.backend = .dflash then x.executionFrontier else x.dflashContextFrontier
        pending := ⟨.speculative, x.executionFrontier, x.ledgerFrontier, 0, count⟩
        lifecycle := .pending }
      egress :=
        { licensed := licensed
          nextExtent := next
          nextDrafts := (List.range cfg.draftWindow).map verdict.nextDrafts }
      spans := roundSpans cfg x extent count next }

/-- One row of `decode_batch`. -/
def decodeRow (x : Lane) (budget : Nat) (verdict : Verdict) : Except Exception RowResult :=
  if cfg.backend = .none then ordinaryRow cfg x verdict else speculativeRow cfg x budget verdict

/-! ## Its resolution -/

/-- What the executor has decided about a row. -/
structure Resolution where
  accepted : Nat
  terminal : Bool
  cancelled : Bool
  deriving DecidableEq, Repr

/-- The checks of the resolution of a speculative round on one row. -/
def checkPending (x : Lane) (row : Resolution) : Except Exception Unit := do
  check (x.lifecycle = .pending ∧ x.pending.kind = .speculative)
    (.logicError "speculative pending batch no longer matches Program state")
  check (x.executionFrontier = x.pending.baseE ∧ x.ledgerFrontier = x.pending.baseS ∧
      x.ledger.length = x.pending.baseS ∧ x.prefixIdentity.size = x.pending.baseS ∧
      x.textKvValid = x.pending.baseE ∧ (cfg.backend = .mtp → x.mtpKvValid = x.pending.baseE) ∧
      (cfg.backend = .dflash → x.dflashContextFrontier = x.pending.baseE))
    (.logicError "speculative pending row is not at its recorded base")
  check (if row.cancelled then row.accepted = 0
      else row.accepted ≠ 0 ∧ row.accepted ≤ x.pending.produced ∧
        (row.terminal ∨ row.accepted = x.pending.produced))
    (.logicError "speculative pending row has an invalid committed prefix")

/-- `commit_columns` of a row. -/
def Resolution.committed (row : Resolution) : Nat := if row.cancelled then 0 else row.accepted

/-- `partial_terminal`. -/
def Resolution.partialTerminal (row : Resolution) (x : Lane) : Bool :=
  !row.cancelled && row.terminal && decide (row.accepted < x.pending.produced)

/-- The device part of a resolution: the fold of the committed columns and, when a row of the batch
needs it, the choice of the hidden vectors again. -/
def foldRow (x : Lane) (row : Resolution) (correct : Bool) : Lane :=
  let folded := x.device.fold row.committed
  let selector := if row.partialTerminal x then row.accepted - 1 else x.pending.produced - 1
  { x with device :=
      if correct then { folded with tailHidden := folded.columns.getD selector none } else folded }

/-- The commit loop of the resolution of a speculative round, for a row that is not cancelled. The
lane is trimmed afterwards. -/
def commitRow (x : Lane) (row : Resolution) (egress : RowEgress) : Except Exception Lane := do
  let committed := row.accepted
  let frontier := x.pending.baseE + committed
  let identity ← x.prefixIdentity.appendGenerated x.ropeDelta committed
  .ok { x with
    ledger := x.ledger ++ egress.licensed.take committed
    prefixIdentity := identity
    executionFrontier := frontier
    ledgerFrontier := x.pending.baseS + committed
    textKvValid := frontier
    tailHiddenValid := true
    mtpKvValid := if cfg.backend = .mtp then frontier else x.mtpKvValid
    mtpDraftCount :=
      if cfg.backend = .mtp then (if row.terminal then 0 else egress.nextExtent.toNat)
      else x.mtpDraftCount
    mtpDrafts :=
      if cfg.backend = .mtp ∧ ¬row.terminal then egress.nextDrafts.take egress.nextExtent.toNat
      else x.mtpDrafts
    dflashContextFrontier :=
      if cfg.backend = .mtp then x.dflashContextFrontier
      else if row.terminal then frontier else x.pending.baseE }

/-- The lane after a resolution, trimmed and, when the request has ended, retained. -/
def settle (x : Lane) (terminal : Bool) : Lane :=
  { x with
    device := x.device.cut (pagesForTokens x.textKvValid * kPagedKVPageSize)
    retained := if terminal then true else x.retained
    lifecycle := if terminal then .complete else .active
    pending := {} }

/-- The frontiers that `resolve_non_speculative_pending` sets. -/
def resolveNonSpeculative (x : Lane) (accepted : Nat) (terminal : Bool) :
    Except Exception Lane := do
  check (x.lifecycle = .pending) (.logicError "pending resolution requires a pending generated round")
  check ((x.pending.kind = .start ∨ x.pending.kind = .ordinary) ∧ x.pending.produced = 1 ∧
      accepted = 1)
    (.logicError "non-speculative pending round must commit its single token")
  let frontier := if x.pending.kind = .start then x.pending.promptTokens
    else x.pending.baseE + x.pending.produced
  let ledgerFrontier := if x.pending.kind = .start then x.pending.promptTokens + 1
    else x.pending.baseS + x.pending.produced
  check (ledgerFrontier = frontier + 1 ∧ x.ledger.length = ledgerFrontier ∧
      x.prefixIdentity.size = ledgerFrontier)
    (.logicError "resolved round did not establish a valid frontier")
  .ok { x with
    executionFrontier := frontier
    ledgerFrontier := ledgerFrontier
    mtpDraftCount := if terminal then 0 else x.mtpDraftCount }

end Ninfer.Qwen
