import Ninfer.Qwen.Plan

/-!
# Prefill of one lane

`program_impl.h`: what `start_prefill_lane` and `advance_prefill` do to the lane itself. The
functions below take a lane and return it changed, or throw; the KV pools, which they do not touch,
are the subject of `Ninfer.Qwen.Program`. Every throw clears the lane, so what a failed step has
changed before is not kept.

Tokens are sampled by the device, and drafts proposed by it: a step is given both.

## Main definitions

* `validateStart`: the checks of `start_prefill_lane` before it touches the lane
* `stageReuse`, `stageLane`: the lane that continues a resident prefix, with its prefill staged
* `advanceLane`: one step of the prefill, with `bridgeLane`, `chunkLane`, `exactHitLane` and
  `finishLane`
-/

namespace Ninfer.Qwen

open PagedKV (pagesForTokens kPagedKVPageSize)

variable {n : Nat} (cfg : Config n)

/-! ## Starting -/

/-- The checks of `start_prefill_lane` on the checkpoint action of the plan. -/
def validateAction (x : Lane) (prompt : PreparedPromptData) (plan : RequestPlan) :
    Except Exception Unit :=
  let matching (spec : RewriteCheckpointSpec) : Prop :=
    x.rewriteCheckpoint.valid ∧ x.rewriteCheckpoint.frontier = spec.frontier ∧
      plan.reuse ≠ .fullReset ∧
      prefixMatches prompt x.ledger x.prefixIdentity x.rewriteCheckpoint.frontier
  match plan.rewriteCheckpointAction, prompt.identity.rewriteCheckpoint with
  | .keepExisting, some spec =>
    check (x.rewriteCheckpoint.kind = spec.kind ∧ matching spec)
      (.logicError "planned rewrite checkpoint retention is unavailable")
  | .keepExisting, none =>
    .error (.logicError "planned rewrite checkpoint retention is unavailable")
  | .reclassifyExisting, some spec =>
    check (x.rewriteCheckpoint.kind ≠ spec.kind ∧ matching spec)
      (.logicError "planned rewrite checkpoint reclassification is unavailable")
  | .reclassifyExisting, none =>
    .error (.logicError "planned rewrite checkpoint reclassification is unavailable")
  | .captureNew, spec =>
    check (spec.isSome ∧ plan.rewriteCheckpointCapture = spec ∧
        ∀ capture ∈ plan.rewriteCheckpointCapture,
          plan.reuseBase < capture.frontier ∧ capture.frontier ≤ prompt.size)
      (.logicError "planned rewrite checkpoint capture is invalid")
  | .drop, some _ =>
    .error (.logicError "planned rewrite checkpoint drop does not describe the prompt")
  | .drop, none => .ok ()
  | .deferCapture, some spec =>
    check (plan.reuse ≠ .fullReset ∧ spec.frontier ≤ plan.reuseBase)
      (.logicError "planned rewrite checkpoint deferral is invalid")
  | .deferCapture, none => .error (.logicError "planned rewrite checkpoint deferral is invalid")

/-- The checks of `start_prefill_lane` before it touches the lane. -/
def validateStart (x : Lane) (prompt : PreparedPromptData) (plan : RequestPlan)
    (transient : TransientRegion) : Except Exception Unit := do
  check (¬x.busy) (.logicError "staged prefill requires a free request lane")
  check (prompt.size = plan.summary.promptTokens ∧ (plan.vision.isSome → prompt.hasMedia))
    (.invalidArgument "request plan does not describe the prepared prompt")
  check (∀ spec ∈ prompt.identity.rewriteCheckpoint, spec.frontier ≠ 0 ∧ spec.frontier ≤ prompt.size)
    (.invalidArgument "prepared prompt has an invalid rewrite checkpoint")
  check (suffixHasVisual prompt plan.reuseBase = plan.vision.isSome)
    (.invalidArgument "request plan does not describe the prompt suffix modality")
  check (plan.summary.transientBytes ≠ 0 → transient.data ∧
      plan.summary.transientBytes ≤ transient.size ∧
      plan.summary.transientAlignment ≤ transient.alignment)
    (.invalidArgument "request transient region does not satisfy the plan")
  check (plan.reuse ≠ .fullReset →
      x.retained ∧ prefixMatches prompt x.ledger x.prefixIdentity plan.reuseBase)
    (.logicError "planned resident prefix is no longer reusable")
  check (isRewriteCheckpointRestore plan.reuse → x.rewriteCheckpoint.valid ∧
      x.rewriteCheckpoint.frontier = plan.reuseBase ∧
      plan.reuse = restorePath x.rewriteCheckpoint.kind)
    (.logicError "planned rewrite checkpoint is unavailable")
  validateAction x prompt plan

/-- `initial_mtp_extent` of `start_prefill_lane`. -/
def initialMtpExtent (promptTokens effectiveOutputTokens : Nat) : Nat :=
  if cfg.backend = .mtp then
    min cfg.draftWindow (min (if 1 < effectiveOutputTokens then effectiveOutputTokens - 2 else 0)
      (if 0 < cfg.capacity - promptTokens then cfg.capacity - promptTokens - 1 else 0))
  else 0

/-- `backend_materialized` of `start_prefill_lane`. -/
def backendMaterialized (promptTokens extent : Nat) : Nat :=
  match cfg.backend with
  | .none => 0
  | .mtp => min cfg.capacity (promptTokens + (if extent = 0 then 0 else extent - 1))
  | .dflash => promptTokens

/-- The branches of `start_prefill_lane` on the reuse path, as far as they concern the lane: it
continues with the first `base` tokens of its sequence. -/
def stageReuse (x : Lane) (prompt : PreparedPromptData) (plan : RequestPlan) :
    Except Exception Lane :=
  let base := plan.reuseBase
  let x := { x with lifecycle := Lifecycle.empty, retained := false }
  match plan.reuse with
  | .fullReset =>
    .ok { x with
      kv := none
      ledger := []
      textKvValid := 0
      mtpKvValid := 0
      dflashContextFrontier := 0
      device := { x.device with linear := some [] } }
  | .appendAtFrontier => do
    check (x.kv.isSome) (.logicError "resident prefix has no KV allocation bundle")
    check (base ≤ x.textKvValid)
      (.logicError "resident Text KV is shorter than the append frontier")
    check (cfg.backend = .mtp → plan.prepareMtp ∧ base - 1 ≤ x.mtpKvValid)
      (.logicError "resident MTP KV is shorter than the bridge frontier")
    check (cfg.backend = .dflash → x.dflashContextFrontier = base)
      (.logicError "resident DFlash context is not at the append frontier")
    .ok { x with
      mtpKvValid := if cfg.backend = .mtp then base - 1 else x.mtpKvValid
      textKvValid := base
      ledger := x.ledger.take base }
  | .restoreTurnCheckpoint | .restoreResponseCheckpoint => do
    check (x.kv.isSome ∧ base ≤ x.textKvValid)
      (.logicError "resident rewrite checkpoint has no complete KV allocation")
    check (cfg.backend = .mtp → plan.prepareMtp ∧ base - 1 ≤ x.mtpKvValid)
      (.logicError "rewrite-checkpoint MTP KV is shorter than the bridge frontier")
    check (cfg.backend = .dflash → x.kv.any (·.backend) ∧ base ≤ x.dflashContextFrontier)
      (.logicError "planned DFlash rewrite checkpoint is unavailable")
    .ok { x with
      mtpKvValid := if cfg.backend = .mtp then base - 1 else x.mtpKvValid
      dflashContextFrontier := if cfg.backend = .dflash then base else x.dflashContextFrontier
      textKvValid := base
      ledger := x.ledger.take base
      tailHiddenValid := x.tailHiddenValid || decide (base = prompt.size)
      device := { x.device with
        linear := x.device.checkpointLinear
        tailHidden :=
          if base = prompt.size then x.device.checkpointHidden else x.device.tailHidden } }

/-- The payloads of the items that are used. -/
def usedPayloads (prompt : PreparedPromptData) (uses : List VisionUseSpan) : List (Option Nat) :=
  prompt.mediaPayloads.mapIdx fun i payload =>
    if uses.any fun use => use.itemIndex == i then payload else none

/-- The payload loop of `start_prefill_lane`: those the plan does not use are released. -/
def releaseUnused (prompt : PreparedPromptData) (vision : Option VisionPrefillPlan) :
    Except Exception PreparedPromptData :=
  match vision with
  | none => .ok (if prompt.hasMedia then prompt.releaseAllMediaPayloads else prompt)
  | some vision => do
    check (∀ use ∈ vision.uses, use.itemIndex < prompt.mediaPayloads.length)
      (.logicError "Vision plan references a missing media payload")
    .ok { prompt with mediaPayloads := usedPayloads prompt vision.uses }

/-- The vision session of a plan that needs one. -/
def createSession (vision : Option VisionPrefillPlan) (transient : TransientRegion) :
    Except Exception (Option VisionPrefillSession) :=
  match vision with
  | none => .ok none
  | some vision => (VisionPrefillSession.create vision transient).map some

/-- What the checkpoint action makes of the checkpoint of the lane. -/
def RewriteCheckpoint.act (checkpoint : RewriteCheckpoint) (action : RewriteCheckpointAction)
    (desired : Option RewriteCheckpointSpec) : RewriteCheckpoint :=
  match action with
  | .drop | .captureNew => {}
  | .reclassifyExisting =>
    { checkpoint with kind := (desired.map (·.kind)).getD checkpoint.kind }
  | .keepExisting | .deferCapture => checkpoint

/-- The rest of `start_prefill_lane` before the first step: the prefill is staged. -/
def stageLane (x : Lane) (bundle : SequenceKVBundle) (prompt : PreparedPromptData)
    (plan : RequestPlan) (transient : TransientRegion) : Except Exception Lane := do
  let base := plan.reuseBase
  let identity ← ResidentPrefixIdentity.assign prompt
  check (cfg.backend = .dflash → bundle.backend) (.logicError "DFlash prefill state is incomplete")
  let released ← releaseUnused prompt plan.vision
  let session ← createSession plan.vision transient
  .ok { x with
    kv := some bundle
    ropeDelta := prompt.ropeDelta
    rewriteCheckpoint :=
      x.rewriteCheckpoint.act plan.rewriteCheckpointAction prompt.identity.rewriteCheckpoint
    pending := {}
    mtpDraftCount := 0
    tailHiddenValid := decide (base = prompt.size) && x.tailHiddenValid
    ledger := prompt.tokenIds
    prefixIdentity := identity
    device := x.device.cut (pagesForTokens base * kPagedKVPageSize)
    prefill := some
      { prompt := released
        visionPlan := plan.vision
        vision := session
        transient := transient
        rewriteCheckpointCapture := plan.rewriteCheckpointCapture
        base := base
        cursor := base
        promptTokens := prompt.size
        initialMtpExtent := initialMtpExtent cfg prompt.size plan.summary.effectiveOutputTokens
        prepareMtp := plan.prepareMtp
        reuse := plan.reuse
        mtpBridge := plan.mtpBridge }
    lifecycle := .prefilling
    reserved := plan.pages }

/-! ## Advancing -/

/-- What the device returns to a step of a prefill: the token sampled after the prompt, and the
drafts proposed after it. -/
structure Sampled where
  token : TokenId
  drafts : Nat → TokenId

/-- A span of KV rows that a step writes. -/
structure KvSpan where
  cache : Cache
  first : Nat
  count : Nat
  deriving DecidableEq, Repr

/-- The span of the draft steps that close a prefill. -/
def closingDrafts (promptTokens extent : Nat) : List KvSpan :=
  if extent = 0 then [] else [⟨.backend, promptTokens, extent - 1⟩]

/-- The part of the bridge that concerns the vision session: a visual token needs its embedding. -/
def bridgeSession (staged : Prefill) : Except Exception (Option VisionPrefillSession) :=
  match staged.vision, staged.visionPlan with
  | some session, some plan =>
    if staged.prompt.tokenTypes.getD staged.base 0 = 0 then .ok (some session)
    else do
      let (chunk, session) ← prepareChunk cfg.outHidden staged.prompt plan staged.transient
        session staged.base 1
      check chunk.item.isSome (.logicError "visual MTP bridge has no encoded Vision item")
      check ((chunk.itemAt staged.prompt plan staged.base).any fun found =>
          found.1.modality.code = staged.prompt.tokenTypes.getD staged.base 0)
        (.logicError "visual MTP bridge does not match Vision scatter metadata")
      .ok (some session)
  | session, _ => .ok session

/-- The `BeforeSuffix` bridge of `advance_prefill`: the draft state of the token before the suffix
is built from the hidden vector that precedes it. -/
def bridgeLane (x : Lane) (staged : Prefill) : Except Exception (Lane × Prefill × List KvSpan) :=
  if staged.mtpBridge ≠ .beforeSuffix then .ok (x, staged, [])
  else do
    check (staged.cursor = staged.base ∧ staged.base ≠ 0 ∧ staged.cursor < staged.promptTokens)
      (.logicError "staged MTP bridge is outside the reusable suffix")
    check (staged.base - 1 < staged.prompt.size ∧
        staged.prompt.positions.length = staged.prompt.size)
      (.invalidArgument "MTP bridge position is outside prepared prompt metadata")
    let session ← bridgeSession cfg staged
    .ok ({ x with mtpKvValid := staged.base },
      { staged with vision := session, mtpBridge := .none },
      [⟨.backend, staged.base - 1, 1⟩])

/-- The length of a chunk before the vision session cuts it: it ends at the checkpoint to
capture. -/
def chunkLength (cursor nominal : Nat) (capture : Option RewriteCheckpointSpec) : Nat :=
  match capture with
  | some spec =>
    if cursor < spec.frontier ∧ spec.frontier < cursor + nominal then spec.frontier - cursor
    else nominal
  | none => nominal

/-- What a text chunk gives the model for the token at `i`: positions start at the cache base, and a
fresh context has the rope delta zero. -/
def textEntry (prompt : PreparedPromptData) (i : Nat) : Entry :=
  ⟨prompt.tokenIds.getD i 0, 0, .same i, none⟩

/-- What a multimodal chunk gives the model for the token at `i`. -/
def visionEntry (prompt : PreparedPromptData) (plan : VisionPrefillPlan) (chunk : VisionChunk)
    (i : Nat) : Entry :=
  ⟨prompt.tokenIds.getD i 0, prompt.tokenTypes.getD i 0, prompt.positionAt i,
    chunk.itemAt prompt plan i⟩

/-- A chunk that has run: its entries, and the device rope delta it has set. -/
structure Chunk where
  entries : List Entry
  ropeDelta : Int
  vision : Option VisionPrefillSession

/-- The two chunk functions of the schedule. -/
def runChunk (staged : Prefill) (nominal : Nat) : Except Exception Chunk :=
  let len := chunkLength staged.cursor nominal staged.rewriteCheckpointCapture
  match staged.vision, staged.visionPlan with
  | some session, some plan => do
    check (cfg.backend ≠ .dflash) (.logicError "DFlash staged multimodal prefill is unavailable")
    let (chunk, session) ← prepareChunk cfg.outHidden staged.prompt plan staged.transient session
      staged.cursor len
    .ok ⟨(List.range' staged.cursor chunk.length).map (visionEntry staged.prompt plan chunk),
      staged.prompt.ropeDelta, some session⟩
  | session, _ =>
    .ok ⟨(List.range' staged.cursor len).map (textEntry staged.prompt), 0, session⟩

/-- The device after a chunk: when it ends at the checkpoint to capture, the linear state and the
hidden vector are copied to the checkpoint slot. -/
def chunkDevice (d : LaneDevice) (staged : Prefill) (entries : List Entry) :
    LaneDevice × Contents :=
  let run := d.forwardAll staged.cursor entries
  let hidden := run.2.getLastD none
  if staged.rewriteCheckpointCapture.any (·.frontier = staged.cursor + entries.length) then
    ({ run.1 with checkpointLinear := run.1.linear, checkpointHidden := hidden }, hidden)
  else (run.1, hidden)

/-- The KV rows a chunk writes. -/
def chunkSpans (staged : Prefill) (len : Nat) (finalized : Bool) : List KvSpan :=
  [⟨.text, staged.cursor, len⟩] ++
    (match cfg.backend with
    | .none => []
    | .mtp =>
      [⟨.backend, staged.cursor, len⟩] ++
        (if finalized then closingDrafts staged.promptTokens staged.initialMtpExtent else [])
    | .dflash => [⟨.backend, staged.cursor, len⟩])

/-- What one part of a step returns. -/
structure Advanced where
  lane : Lane
  staged : Prefill
  ropeDelta : Int
  spans : List KvSpan
  processed : Nat
  finalized : Bool

/-- The release of encoded payloads after a chunk. -/
def releaseChunk (prompt : PreparedPromptData) (vision : Option VisionPrefillSession) :
    PreparedPromptData × Option VisionPrefillSession :=
  match vision with
  | some session =>
    let released := releaseEncodedMediaPayloads prompt session
    (released.1, some released.2)
  | none => (prompt, none)

/-- One chunk of `advance_prefill`. -/
def chunkLane (x : Lane) (staged : Prefill) : Except Exception Advanced := do
  let nominal := min cfg.prefillChunk (staged.promptTokens - staged.cursor)
  let finalCandidate := decide (staged.cursor + nominal = staged.promptTokens)
  let chunk ← runChunk cfg staged nominal
  let len := chunk.entries.length
  check (len ≠ 0 ∧ len ≤ nominal) (.logicError "ordinary prefill chunk made invalid progress")
  let finalized := finalCandidate && decide (len = nominal)
  let (device, hidden) := chunkDevice x.device staged chunk.entries
  let released := releaseChunk staged.prompt chunk.vision
  let staged' := { staged with
    prompt := released.1
    vision := released.2
    cursor := staged.cursor + len
    given := staged.given ++ (List.range' staged.cursor len).zip (chunk.entries.map (·.position)) }
  check (finalized ∨ staged'.cursor ≠ staged.promptTokens)
    (.logicError "staged prefill reached the prompt without sampling")
  check (finalized → staged'.cursor = staged.promptTokens)
    (.logicError "staged prefill sampled before the prompt frontier")
  let x' := { x with
    textKvValid := staged'.cursor
    mtpKvValid := if staged.prepareMtp then staged'.cursor else x.mtpKvValid
    dflashContextFrontier :=
      if cfg.backend = .dflash then staged'.cursor else x.dflashContextFrontier
    tailHiddenValid := if finalized then true else x.tailHiddenValid
    device := if finalized then { device with tailHidden := hidden } else device }
  .ok ⟨x', staged', chunk.ropeDelta, chunkSpans cfg staged len finalized, len, finalized⟩

/-- The branch of `advance_prefill` for a prompt that is resident as a whole. -/
def exactHitLane (x : Lane) (staged : Prefill) (ropeDelta : Int) : Except Exception Advanced := do
  check x.tailHiddenValid (.logicError "zero-suffix reuse has no target tail hidden")
  if staged.prepareMtp then do
    check (staged.mtpBridge = .afterExactHit)
      (.logicError "zero-suffix MTP reuse has no exact-hit bridge")
    check (staged.promptTokens - 1 < staged.prompt.size ∧
        staged.prompt.positions.length = staged.prompt.size)
      (.invalidArgument "MTP bridge position is outside prepared prompt metadata")
    .ok ⟨{ x with mtpKvValid := staged.promptTokens }, { staged with mtpBridge := .none }, ropeDelta,
      ⟨.backend, staged.promptTokens - 1, 1⟩ ::
        closingDrafts staged.promptTokens staged.initialMtpExtent, 0, true⟩
  else .ok ⟨x, staged, ropeDelta, [], 0, true⟩

/-- `validate_licensed_tokens`. -/
def validateLicensedTokens (tokens : List TokenId) : Except Exception Unit :=
  check (∀ token ∈ tokens, 0 ≤ token ∧ token < tokenDomain)
    (.runtimeError "target returned a token outside the 248077-token domain")

/-- The checkpoint after the prefill: the one captured, if the plan has one to capture. -/
def captureCheckpoint (x : Lane) (staged : Prefill) : Except Exception RewriteCheckpoint :=
  match staged.rewriteCheckpointCapture with
  | none => .ok x.rewriteCheckpoint
  | some spec => do
    check (spec.frontier ≠ 0 ∧ spec.frontier ≤ staged.promptTokens)
      (.logicError "rewrite checkpoint was not materialized by Text prefill")
    check (cfg.backend = .mtp → staged.prepareMtp ∧ spec.frontier - 1 ≤ x.mtpKvValid)
      (.logicError "rewrite checkpoint has no complete MTP prefix")
    check (cfg.backend = .dflash → x.kv.any (·.backend) ∧ spec.frontier ≤ x.dflashContextFrontier)
      (.logicError "rewrite checkpoint has no complete DFlash prefix")
    .ok ⟨true, spec.kind, spec.frontier⟩

/-- The end of `advance_prefill`: the sampled token is the candidate of the prefill. -/
def finishLane (x : Lane) (staged : Prefill) (sampled : Sampled) : Except Exception Lane := do
  let promptTokens := staged.promptTokens
  validateLicensedTokens [sampled.token]
  check (x.ledger.length = promptTokens)
    (.logicError "candidate token ledger does not match prompt length")
  let identity ← x.prefixIdentity.appendGenerated x.ropeDelta 1
  check (staged.prepareMtp → x.mtpKvValid = promptTokens)
    (.logicError "staged MTP prefill did not reach the prompt frontier")
  check (¬staged.prepareMtp ∧ cfg.backend = .dflash → x.dflashContextFrontier = promptTokens)
    (.logicError "staged DFlash prefill did not reach the prompt frontier")
  let checkpoint ← captureCheckpoint cfg x staged
  .ok { x with
    ledger := x.ledger ++ [sampled.token]
    prefixIdentity := identity
    textKvValid := promptTokens
    mtpDraftCount := if staged.prepareMtp then staged.initialMtpExtent else x.mtpDraftCount
    mtpDrafts :=
      if staged.prepareMtp then (List.range staged.initialMtpExtent).map sampled.drafts
      else x.mtpDrafts
    tailHiddenValid := true
    rewriteCheckpoint := checkpoint
    prefill := none
    pending := { kind := .start, baseE := 0, baseS := 0, promptTokens := promptTokens, produced := 1 }
    lifecycle := .pending }

/-- A step of a prefill: the lane, the device rope delta, the KV rows written, the prompt tokens
processed and, when the prefill has ended, its record. -/
structure PrefillAdvance where
  lane : Lane
  ropeDelta : Int
  spans : List KvSpan
  processed : Nat
  record : Option PrefillRecord

/-- The chunk of a step, or the exact hit. -/
def stepLane (x : Lane) (staged : Prefill) (ropeDelta : Int) : Except Exception Advanced :=
  if staged.cursor < staged.promptTokens then chunkLane cfg x staged
  else exactHitLane x staged ropeDelta

/-- The end of a step: the prefill goes on, or its first token is there. -/
def concludeLane (step : Advanced) (bridge : List KvSpan) (sampled : Sampled) :
    Except Exception PrefillAdvance :=
  if step.finalized then do
    let x ← finishLane cfg step.lane step.staged sampled
    .ok ⟨x, step.ropeDelta, bridge ++ step.spans, step.processed,
      some ⟨step.staged.prompt, step.staged.base, step.staged.given, x.ropeDelta, step.ropeDelta⟩⟩
  else
    .ok ⟨{ step.lane with prefill := some step.staged }, step.ropeDelta, bridge ++ step.spans,
      step.processed, none⟩

/-- The body of `advance_prefill`. -/
def advanceLane (x : Lane) (staged : Prefill) (ropeDelta : Int) (sampled : Sampled) :
    Except Exception PrefillAdvance := do
  let (x, staged, bridge) ← bridgeLane cfg x staged
  let step ← stepLane cfg x staged ropeDelta
  concludeLane cfg step bridge sampled

end Ninfer.Qwen
