import Ninfer.Qwen.Decode

/-!
# The program

`program_impl.h`: the lanes of a target together with their KV pools, and the functions the executor
calls. What they do to a lane is in `Ninfer.Qwen.Prefill` and `Ninfer.Qwen.Decode`; here the
allocations of the lanes are reserved, materialized, trimmed and released along with it.

Two fields of the program are records of its run: the calls of `materialize_tokens` with the pages
reserved for the request, and the KV rows written with the tokens mapped when they were.

## Main definitions

* `Pools`, `materializeSequenceKv`: the KV pools and the calls made on them
* `Program`
* `canAdmitLane`, `canAdmitLaneAfterRetainedEviction`
* `startPrefillLane`, `advancePrefillLane`, `resolvePrefillLane`
* `decodeBatch`, `resolvePendingBatch`
* `abortLane`, `evictRetainedLane`
-/

namespace Ninfer.Qwen

open PagedKV

/-- A call of `materialize_tokens`, with the pages reserved for the request. -/
structure MaterializeCall where
  cache : Cache
  tokens : Nat
  reserved : Nat
  deriving DecidableEq, Repr

/-- The KV pools, with the calls of `materialize_tokens` made so far. -/
structure Pools (n : Nat) where
  heap : KvHeap n
  calls : List MaterializeCall := []

/-- A span of KV rows written, with the tokens whose pages were mapped then. -/
structure KvWrite where
  span : KvSpan
  mapped : Nat
  deriving DecidableEq, Repr

/-- `ProgramImplCore`: the lanes and the KV pools, the device scalar `io.rope_delta`, and the host
egress of the last decode round. The last two fields are records of the run. -/
structure Program (n : Nat) where
  pools : Pools n
  lanes : Fin n → Lane
  ropeDelta : Int := 0
  egress : List RowEgress := []
  writes : List KvWrite := []
  prefills : List PrefillRecord := []

variable {n : Nat} (cfg : Config n)

/-- The program as constructed. -/
def Program.init : Program n where
  pools := { heap := Heap.init cfg.pools }
  lanes := fun _ => {}

/-- One lane of the program is replaced. -/
def Program.setLane (s : Program n) (l : Fin n) (x : Lane) : Program n :=
  { s with lanes := Function.update s.lanes l x }

/-- The writes of spans of a lane. -/
def Program.record (s : Program n) (l : Fin n) (spans : List KvSpan) : Program n :=
  { s with writes := s.writes ++ spans.map fun span =>
      ⟨span, (s.pools.heap.allocs (l, span.cache)).mappedTokenCapacity⟩ }

/-- `clear_lane`. -/
def clearLane (l : Fin n) (s : Program n) : Program n :=
  { s with
    pools := { s.pools with heap := resetKv l s.pools.heap }
    lanes := Function.update s.lanes l (s.lanes l).cleared }

/-- The clearing loops of the handlers. -/
def clearLanes (lanes : List (Fin n)) (s : Program n) : Program n :=
  lanes.foldl (fun s l => clearLane l s) s

/-! ## The pools -/

/-- A call on the heap of the pools. -/
def onHeap {α : Type} (c : Call (KvHeap n) α) : Call (Pools n) α := fun p =>
  match c p.heap with
  | .ok a h => .ok a { p with heap := h }
  | .error e h => .error e { p with heap := h }

/-- One of the two conditional calls of `materialize_tokens`, recorded. -/
def growLane (a : Fin n × Cache) (tokens reserved : Nat) : Call (Pools n) Unit := fun p =>
  if (p.heap.allocs a).mappedTokenCapacity < tokens then
    onHeap (materializeTokens a tokens) { p with calls := p.calls ++ [⟨a.2, tokens, reserved⟩] }
  else .ok () p

/-- `materialize_sequence_kv`, for a request with the pages `reserved`. -/
def materializeSequenceKv (l : Fin n) (kv : Option SequenceKVBundle) (reserved : Cache → Nat)
    (mainTokens backendTokens : Nat) : Call (Pools n) Unit := fun p =>
  match kv with
  | none => .error (.logicError "KV materialization request is outside the sequence bundle") p
  | some bundle =>
    if cfg.capacity < mainTokens ∨ cfg.capacity < backendTokens then
      .error (.logicError "KV materialization request is outside the sequence bundle") p
    else if backendTokens ≠ 0 ∧ !bundle.backend then
      .error (.logicError "backend KV materialization requested without an allocation") p
    else
      (do growLane (l, .text) mainTokens (reserved .text)
          if backendTokens = 0 then pure ()
          else growLane (l, .backend) backendTokens (reserved .backend) : Call (Pools n) Unit) p

/-! ## Admission -/

/-- The entitlement of a lane in a cache. -/
def entitlement (s : Program n) (l : Fin n) (c : Cache) : Nat :=
  (s.pools.heap.allocs (l, c)).pageEntitlement

/-- `can_admit_lane`. Its test is that of `can_replace_entitlement`. -/
def canAdmitLane (s : Program n) (l : Fin n) (plan : RequestPlan) : Bool :=
  !(s.lanes l).busy &&
    (s.pools.heap.pools .text).canReplaceEntitlement (entitlement s l .text)
      plan.textKvPageEntitlement &&
    (if cfg.hasBackend then
      (s.pools.heap.pools .backend).canReplaceEntitlement (entitlement s l .backend)
        plan.backendKvPageEntitlement
    else plan.backendKvPageEntitlement == 0)

/-- The entitlements of the other retained lanes, on `std::uint32_t`. -/
def reclaimable (s : Program n) (l : Fin n) (c : Cache) : Nat :=
  (((List.finRange n).filter fun other => other ≠ l ∧ (s.lanes other).retained ∧
    (s.lanes other).kv.isSome).map fun other => entitlement s other c).sum % U32.size

/-- The test of `can_admit_lane_after_retained_eviction` on one pool. -/
def canReplaceAfterEviction (pool : PagedKVPool) (oldPages reclaimablePages newPages : Nat) : Bool :=
  decide (oldPages ≤ pool.entitledPages) &&
    decide (reclaimablePages ≤ pool.entitledPages - oldPages) &&
    decide (newPages ≤ pool.spec.logicalPageCapacity) &&
    decide (newPages ≤ U32.sub pool.spec.pageGroupCount
      (pool.entitledPages - oldPages - reclaimablePages))

/-- `can_admit_lane_after_retained_eviction`. -/
def canAdmitLaneAfterRetainedEviction (s : Program n) (l : Fin n) (plan : RequestPlan) : Bool :=
  !(s.lanes l).busy &&
    canReplaceAfterEviction (s.pools.heap.pools .text) (entitlement s l .text)
      (reclaimable s l .text) plan.textKvPageEntitlement &&
    (if cfg.hasBackend then
      canReplaceAfterEviction (s.pools.heap.pools .backend) (entitlement s l .backend)
        (reclaimable s l .backend) plan.backendKvPageEntitlement
    else plan.backendKvPageEntitlement == 0)

/-! ## Prefill -/

/-- The result of a prefill step: the prompt tokens processed, and the first token once the prefill
has ended. -/
structure PrefillStep where
  processed : Nat := 0
  token : Option TokenId := none
  deriving DecidableEq, Repr

/-- What the branches of `start_prefill_lane` on the reuse path do to the allocations of the lane
`x`, which is already at the reuse base: they are reserved anew, or trimmed and resized. -/
def claimKv (l : Fin n) (x : Lane) (plan : RequestPlan) : Call (Pools n) SequenceKVBundle :=
  if plan.reuse = .fullReset then do
    onHeap fun h => .ok () (resetKv l h)
    onHeap (reserveSequenceKv cfg l none plan.textKvPageEntitlement plan.backendKvPageEntitlement)
  else do
    onHeap (trimSequenceKv cfg l x.kv plan.reuseBase (x.backendKvValid cfg))
    onHeap (resizeSequenceKvEntitlement l x.kv plan.textKvPageEntitlement
      plan.backendKvPageEntitlement)
    pure (x.kv.getD ⟨false⟩)

/-- What `start_prefill_lane` does to the allocations of the lane `x`: they are claimed, trimmed to
the base, bound, and grown to the prompt. -/
def stageKv (l : Fin n) (x : Lane) (prompt : PreparedPromptData) (plan : RequestPlan) :
    Call (Pools n) SequenceKVBundle := do
  let base := plan.reuseBase
  let bundle ← claimKv cfg l x plan
  onHeap (trimSequenceKv cfg l (some bundle) base (x.backendKvValid cfg))
  onHeap (bindSequenceKv l (some bundle))
  let extent := initialMtpExtent cfg prompt.size plan.summary.effectiveOutputTokens
  materializeSequenceKv cfg l (some bundle) plan.pages prompt.size
    (backendMaterialized cfg prompt.size extent)
  pure bundle

/-- The body of `start_prefill_lane` before its first step. -/
def stagePrefill (l : Fin n) (prompt : PreparedPromptData) (plan : RequestPlan)
    (transient : TransientRegion) : Call (Program n) Unit := fun s =>
  match stageReuse cfg (s.lanes l) prompt plan with
  | .error e => .error e s
  | .ok x =>
    match stageKv cfg l x prompt plan s.pools with
    | .error e pools => .error e { s with pools := pools }
    | .ok bundle pools =>
      match stageLane cfg x bundle prompt plan transient with
      | .error e => .error e { s with pools := pools }
      | .ok x =>
        .ok () { ({ s with pools := pools } : Program n).setLane l x with
          ropeDelta := prompt.ropeDelta }

/-- The KV views of `advance_prefill`. -/
def checkViews (l : Fin n) (s : Program n) : Except Exception Unit := do
  check ((s.lanes l).kv.isSome) (.logicError "sequence has no KV allocation bundle")
  check (0 ≤ (s.pools.heap.allocs (l, .text)).boundRow)
    (.logicError "Paged KV allocation is not bound")
  check (cfg.backend = .mtp → (s.lanes l).kv.any (·.backend))
    (.logicError "sequence has no MTP KV allocation")
  check (cfg.backend = .mtp → 0 ≤ (s.pools.heap.allocs (l, .backend)).boundRow)
    (.logicError "Paged KV allocation is not bound")

/-- `advance_prefill`. -/
def advancePrefill (l : Fin n) (sampled : Sampled) : Call (Program n) PrefillStep := fun s =>
  match (s.lanes l).lifecycle, (s.lanes l).prefill with
  | .prefilling, some staged =>
    match (do checkViews cfg l s; advanceLane cfg (s.lanes l) staged s.ropeDelta sampled) with
    | .error e => .error e (clearLane l s)
    | .ok step =>
      .ok ⟨step.processed, if step.record.isSome then some sampled.token else none⟩
        { (s.record l step.spans).setLane l step.lane with
          ropeDelta := step.ropeDelta
          prefills := s.prefills ++ step.record.toList }
  | _, _ => .error (.logicError "staged prefill step requires an active concurrent request") s

/-- `start_prefill_lane`. -/
def startPrefillLane (l : Fin n) (prompt : PreparedPromptData) (plan : RequestPlan)
    (transient : TransientRegion) (sampled : Sampled) : Call (Program n) PrefillStep := do
  let s ← get
  Call.ofExcept (validateStart (s.lanes l) prompt plan transient)
  Call.handle (do stagePrefill cfg l prompt plan transient; advancePrefill cfg l sampled)
    fun e s => .error e (clearLane l s)

/-- `advance_prefill_lane`. -/
def advancePrefillLane (l : Fin n) (sampled : Sampled) : Call (Program n) PrefillStep :=
  advancePrefill cfg l sampled

/-! ## Resolution of a prefill and of an ordinary round -/

/-- The end of both resolutions: the bundle is trimmed to what is valid and, when the request has
ended, gives up its growth and its row. -/
def settleKv (l : Fin n) (x : Lane) (terminal : Bool) : Call (Pools n) Unit := do
  onHeap (trimSequenceKv cfg l x.kv x.textKvValid (x.backendKvValid cfg))
  if terminal then
    onHeap fun h => .ok () (unbindSequenceKv l x.kv (releaseSequenceGrowthEntitlement l x.kv h))
  else pure ()

/-- A lane whose frontiers are resolved is settled. -/
def settleLane (l : Fin n) (x : Lane) (terminal : Bool) : Call (Program n) Unit := fun s =>
  match settleKv cfg l x terminal s.pools with
  | .error e pools => .error e ({ s with pools := pools }.setLane l x)
  | .ok _ pools => .ok () ({ s with pools := pools }.setLane l (settle x terminal))

/-- `resolve_non_speculative_pending`. -/
def resolveNonSpeculativePending (l : Fin n) (accepted : Nat) (terminal : Bool) :
    Call (Program n) Unit := do
  let s ← get
  let x ← Call.ofExcept (resolveNonSpeculative (s.lanes l) accepted terminal)
  settleLane cfg l x terminal

/-- `resolve_prefill_lane`. -/
def resolvePrefillLane (l : Fin n) (terminal : Bool) : Call (Program n) Unit := do
  let s ← get
  Call.ofExcept (check ((s.lanes l).pending.kind = .start)
    (.logicError "resolve_prefill_lane requires a pending prefill token"))
  resolveNonSpeculativePending cfg l 1 terminal

/-! ## Decode rounds -/

/-- A row of a batch: the lane, its remaining budget, and what the device returns for it. -/
structure BatchRow (n : Nat) where
  lane : Fin n
  budget : Nat
  verdict : Verdict

/-- The label of the messages of a batch. -/
def batchLabel : String :=
  match cfg.backend with
  | .none => "ordinary batch"
  | .mtp => "MTP batch"
  | .dflash => "DFlash batch"

/-- The membership loop of `decode_batch`. -/
def checkRows (s : Program n) (seen : List (Fin n)) : List (BatchRow n) → Except Exception Unit
  | [] => .ok ()
  | row :: rows => do
    check (row.lane ∉ seen)
      (.invalidArgument (batchLabel cfg ++ " contains an invalid or duplicate lane"))
    check (decodeReady cfg (s.lanes row.lane) row.budget
        (s.pools.heap.allocs (row.lane, .text)).boundRow
        (s.pools.heap.allocs (row.lane, .backend)).boundRow)
      (.logicError (batchLabel cfg ++ " row is not decode-ready"))
    checkRows s (row.lane :: seen) rows

/-- The ingress loop of `decode_batch`, which materializes what the round needs. -/
def materializeRows (lanes : Fin n → Lane) : List (BatchRow n) → Call (Pools n) Unit
  | [] => pure ()
  | row :: rows => do
    let x := lanes row.lane
    let tokens := roundTokens cfg x (roundExtent cfg x row.budget)
    materializeSequenceKv cfg row.lane x.kv x.reserved tokens.1 tokens.2
    materializeRows lanes rows

/-- The egress loop of `decode_batch`. -/
def decodeRows : List (BatchRow n) → Call (Program n) (List RowEgress)
  | [] => pure []
  | row :: rows => do
    let s ← get
    let result ← Call.ofExcept (decodeRow cfg (s.lanes row.lane) row.budget row.verdict)
    set ((s.record row.lane result.spans).setLane row.lane result.lane)
    let rest ← decodeRows rows
    pure (result.egress :: rest)

/-- A call on the pools of the program. -/
def onPools {α : Type} (c : Call (Pools n) α) : Call (Program n) α := fun s =>
  match c s.pools with
  | .ok a pools => .ok a { s with pools := pools }
  | .error e pools => .error e { s with pools := pools }

/-- `decode_batch`. A throw of the round clears every lane of the batch. -/
def decodeBatch (rows : List (BatchRow n)) : Call (Program n) (List RowEgress) := do
  let s ← get
  Call.ofExcept (check (rows ≠ [] ∧ rows.length ≤ n)
    (.invalidArgument (batchLabel cfg ++ " membership is invalid")))
  Call.ofExcept (checkRows cfg s [] rows)
  Call.handle
    (do onPools (materializeRows cfg s.lanes rows)
        let egress ← decodeRows cfg rows
        modify fun s => { s with egress := egress }
        pure egress)
    fun e s => .error e (clearLanes (rows.map (·.lane)) s)

/-! ## Resolution of a round -/

/-- One row of `resolve_pending_batch` without a speculative backend. -/
def resolveOrdinaryPending (l : Fin n) (row : Resolution) : Call (Program n) Unit := do
  let s ← get
  Call.ofExcept (check ((s.lanes l).lifecycle = .pending ∧ (s.lanes l).pending.kind = .ordinary)
    (.logicError "ordinary pending batch no longer matches Program state"))
  if row.cancelled then modify (clearLane l)
  else resolveNonSpeculativePending cfg l row.accepted row.terminal

/-- `resolve_pending_batch` without a speculative backend. -/
def resolveOrdinary : List (Fin n × Resolution) → Call (Program n) Unit
  | [] => pure ()
  | (l, row) :: rows => do
    resolveOrdinaryPending cfg l row
    resolveOrdinary rows

/-- The row loop of `enqueue_dflash_context_append`, for the rows that end. -/
def appendRows (s : Program n) (seen : List (Fin n)) :
    List (Fin n × Resolution) → Call (Pools n) (List (Fin n × KvSpan))
  | [] => pure []
  | (l, row) :: rows => do
    let x := s.lanes l
    let stop := x.pending.baseE + row.accepted
    Call.ofExcept (check (row.accepted ≠ 0 ∧ row.accepted ≤ cfg.width ∧ l ∉ seen)
      (.logicError "DFlash context append contains an invalid row"))
    let pools ← get
    Call.ofExcept (check (x.kv.any (·.backend) ∧ 0 ≤ (pools.heap.allocs (l, .text)).boundRow ∧
        0 ≤ (pools.heap.allocs (l, .backend)).boundRow ∧ stop ≤ cfg.capacity)
      (.logicError "DFlash context append is outside retained target storage"))
    materializeSequenceKv cfg l x.kv x.reserved (max x.textKvValid stop) stop
    let rest ← appendRows s (l :: seen) rows
    pure ((l, ⟨.backend, x.pending.baseE, row.accepted⟩) :: rest)

/-- `enqueue_dflash_context_append` of the rows that end, if there are any. -/
def enqueueDflashContextAppend (rows : List (Fin n × Resolution)) : Call (Program n) Unit := do
  let ending := rows.filter fun row => !row.2.cancelled && row.2.terminal
  if cfg.backend = .dflash ∧ ending ≠ [] then do
    let s ← get
    let spans ← onPools (appendRows cfg s [] ending)
    modify fun s => spans.foldl (fun s span => s.record span.1 [span.2]) s
  else pure ()

/-- The device part of `resolve_pending_batch`. -/
def foldRows (rows : List (Fin n × Resolution)) (s : Program n) : Program n :=
  let correct := rows.any fun row => row.2.partialTerminal (s.lanes row.1)
  rows.foldl (fun s row => s.setLane row.1 (foldRow (s.lanes row.1) row.2 correct)) s

/-- One row of the commit loop of `resolve_pending_batch`. -/
def commitPending (l : Fin n) (row : Resolution) (egress : RowEgress) : Call (Program n) Unit :=
  if row.cancelled then modify (clearLane l)
  else do
    let s ← get
    let x ← Call.ofExcept (commitRow cfg (s.lanes l) row egress)
    settleLane cfg l x row.terminal

/-- The commit loop of `resolve_pending_batch`. -/
def commitRows : List (Fin n × Resolution) → List RowEgress → Call (Program n) Unit
  | [], _ => pure ()
  | (l, row) :: rows, egress => do
    commitPending cfg l row (egress.headD {})
    commitRows rows egress.tail

/-- `resolve_pending_batch`. A throw after the checks clears every lane of the batch. -/
def resolvePendingBatch (rows : List (Fin n × Resolution)) : Call (Program n) Unit := do
  Call.ofExcept (check (rows ≠ [] ∧ rows.length ≤ n)
    (.invalidArgument "pending batch resolution has inconsistent membership"))
  if cfg.backend = .none then resolveOrdinary cfg rows
  else do
    let s ← get
    Call.ofExcept (rows.forM fun row => checkPending cfg (s.lanes row.1) row.2)
    Call.handle
      (do modify (foldRows rows)
          enqueueDflashContextAppend cfg rows
          let s ← get
          commitRows cfg rows s.egress)
      fun e s => .error e (clearLanes (rows.map (·.1)) s)

/-! ## Abandoning a lane -/

/-- `abort_lane`. -/
def abortLane (l : Fin n) (s : Program n) : Program n := clearLane l s

/-- `has_retained_lane`. -/
def hasRetainedLane (s : Program n) (l : Fin n) : Bool := (s.lanes l).retained

/-- `evict_retained_lane`. -/
def evictRetainedLane (l : Fin n) (s : Program n) : Program n :=
  if hasRetainedLane s l then clearLane l s else s

end Ninfer.Qwen
