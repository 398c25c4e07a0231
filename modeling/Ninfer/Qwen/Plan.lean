import Ninfer.Qwen.SequenceKV
import Ninfer.Executor.State

/-!
# Request plans

`request_plan_impl.h`: a request is planned in two steps. The base plan depends on the prompt and
the options only: it checks the prompt, and computes the output budget and the pages to reserve. The
plan for a lane adds which part of the resident sequence is reused and how, what happens to the
rewrite checkpoint, and which media items the rest of the prompt needs.

Sampling parameters are not modelled: the options carry the exception that their validation throws,
if any.

## Main definitions

* `planRequestBase`, `RequestBasePlan`
* `planRequestForLane`, `RequestPlan`, with the steps `selectReuse`, `backendFallback`,
  `checkpointAction` and `visionUses`

## Main results

* `planRequestBase_spec`: what an accepted prompt satisfies, and the pages of its plan
* `planRequestForLane_spec`: what a lane plan says about the lane
-/

namespace Ninfer.Qwen

open PagedKV (pagesForTokens kPagedKVPageSize)
open Executor (RequestPlanSummary AdmissionResources)

/-- `ResolvedExecutionOptions`; `samplingError` is what `validate_sampling` throws. -/
structure ExecutionOptions where
  requestedOutputTokens : Nat
  allowPrefixReuse : Bool := true
  samplingError : Option Exception := none
  deriving DecidableEq, Repr

/-- `RequestBasePlanImpl`. -/
structure RequestBasePlan where
  summary : RequestPlanSummary
  allowPrefixReuse : Bool
  textKvPageEntitlement : Nat
  backendKvPageEntitlement : Nat
  visionControl : Option (List VisionItemControl)
  visionTransientBytes : Nat
  rewriteCheckpoint : Option RewriteCheckpointSpec
  deriving DecidableEq, Repr

/-- `RequestPlanImpl`. -/
structure RequestPlan where
  summary : RequestPlanSummary
  textKvPageEntitlement : Nat
  backendKvPageEntitlement : Nat
  reuse : ReusePath
  reuseBase : Nat
  rewriteCheckpointAction : RewriteCheckpointAction
  rewriteCheckpointCapture : Option RewriteCheckpointSpec
  prepareMtp : Bool
  mtpBridge : MtpBridgeMode
  vision : Option VisionPrefillPlan
  deriving DecidableEq, Repr

/-- The pages a plan reserves. -/
def RequestPlan.pages (plan : RequestPlan) : Cache → Nat
  | .text => plan.textKvPageEntitlement
  | .backend => plan.backendKvPageEntitlement

/-- `pages_for_tokens` of the planner. On `std::uint32_t` zero tokens wrap around, but a request
reserves at least its prompt. -/
def planPagesForTokens (tokens : Nat) : Nat := 1 + U32.sub tokens 1 / kPagedKVPageSize

/-- `prefill_units` of `projected_service_work`. -/
def prefillUnits (promptTokens reuseBase prefillChunk splits : Nat) : Nat :=
  let suffix := promptTokens - reuseBase
  if suffix = 0 then 1 else 1 + (suffix - 1) / prefillChunk + splits

/-- `projected_service_work`. -/
def projectedServiceWork (summary : RequestPlanSummary) (reuseBase prefillChunk splits : Nat) :
    Nat :=
  prefillUnits summary.promptTokens reuseBase prefillChunk splits +
    (if summary.effectiveOutputTokens = 0 then 0 else summary.effectiveOutputTokens - 1)

variable {n : Nat} (cfg : Config n)

/-! ## The base plan -/

/-- Where the use of an item starts whose first token is `first`: the MTP draft of a token needs the
embedding of the next one. -/
def useBegin (mtp : Bool) (first : Nat) : Nat := if mtp ∧ first ≠ 0 then first - 1 else first

/-- The control loop of `plan_request_base`: the largest merged count of an item. -/
def checkConsumers (promptTokens previousEnd maxMerged : Nat) :
    List VisionItemControl → Except Exception Nat
  | [] => .ok maxMerged
  | item :: items =>
    match item.scatterIndices.head?, item.scatterIndices.getLast? with
    | some first, some last => do
      check (previousEnd ≤ useBegin (decide (cfg.backend = .mtp)) first)
        (.invalidArgument "vision item consumer spans overlap")
      check (last + 1 ≤ promptTokens) (.invalidArgument "vision item consumer span exceeds prompt")
      check (cfg.workspaceFits item)
        (.invalidArgument "vision item exceeds the Program workspace envelope")
      checkConsumers promptTokens (last + 1) (max maxMerged item.mergedCount) items
    | _, _ => .error (.invalidArgument "vision item has no Text consumer columns")

/-- The media part of `plan_request_base`: the control records and the transient bytes. -/
def planVision (prompt : PreparedPromptData) :
    Except Exception (Option (List VisionItemControl) × Nat) :=
  if prompt.hasMedia then do
    let control ← buildVisionControl prompt
    let maxMerged ← checkConsumers cfg prompt.size 0 0 control
    let bytes ← outputTransientBytes cfg.outHidden maxMerged
    .ok (some control, bytes)
  else .ok (none, 0)

/-- The checks of `plan_request_base` before it computes anything. -/
def validatePrompt (prompt : PreparedPromptData) (options : ExecutionOptions) :
    Except Exception Unit := do
  check (prompt.tokenIds ≠ []) (.invalidArgument "prompt must contain tokens")
  check (prompt.size ≤ cfg.capacity) (.invalidArgument "prompt exceeds configured context capacity")
  check (prompt.size < U32.size) (.overflowError "prompt token count exceeds uint32")
  check (∀ id ∈ prompt.tokenIds, 0 ≤ id ∧ id < tokenDomain)
    (.invalidArgument "prompt contains token outside the 248077-token domain")
  check (prompt.tokenTypes.length = prompt.size ∧ prompt.positions.length = prompt.size)
    (.invalidArgument "prepared prompt token metadata has an invalid shape")
  check (prompt.hasMedia = !prompt.mediaPayloads.isEmpty ∧
      prompt.mediaPayloads.length = prompt.visionItems.length)
    (.invalidArgument "prepared prompt media payload is incomplete")
  check (prompt.mediaPayloads = prompt.visionItems.map fun item =>
      some (item.patchCount * kPreparedVisionPatchFeatures))
    (.invalidArgument "prepared prompt media item payload has an invalid shape")
  check (prompt.hasMedia → cfg.visionEnabled)
    (.invalidArgument "Vision is disabled for this Engine")
  match options.samplingError with
  | some e => .error e
  | none => .ok ()

/-- `effective_output_tokens`. -/
def effectiveOutputTokens (prompt : PreparedPromptData) (options : ExecutionOptions) : Nat :=
  min options.requestedOutputTokens (cfg.capacity - prompt.size + 1)

/-- `reserved_context_tokens`: the last output token is not executed. -/
def reservedContextTokens (prompt : PreparedPromptData) (options : ExecutionOptions) : Nat :=
  prompt.size + (effectiveOutputTokens cfg prompt options - 1)

/-- The tokens for which `plan_request_base` reserves pages of the backend's cache. -/
def reservedBackendTokens (tokens : Nat) : Nat :=
  match cfg.backend with
  | .none => 0
  | .mtp => min cfg.capacity (tokens + cfg.draftWindow - 1)
  | .dflash => tokens

/-- `plan_request_base`. -/
def planRequestBase (prompt : PreparedPromptData) (options : ExecutionOptions) :
    Except Exception RequestBasePlan := do
  validatePrompt cfg prompt options
  let capacityOutput := cfg.capacity - prompt.size + 1
  let reserved := reservedContextTokens cfg prompt options
  let textPages := planPagesForTokens reserved
  let backendPages :=
    if cfg.backend = .none then 0 else planPagesForTokens (reservedBackendTokens cfg reserved)
  let (control, bytes) ← planVision cfg prompt
  check (∀ candidate ∈ prompt.identity.rewriteCheckpoint,
      candidate.frontier ≠ 0 ∧ candidate.frontier ≤ prompt.size)
    (.invalidArgument "rewrite checkpoint frontier must lie at or inside the prompt frontier")
  let summary : RequestPlanSummary :=
    { promptTokens := prompt.size
      requestedOutputTokens := options.requestedOutputTokens
      effectiveOutputTokens := effectiveOutputTokens cfg prompt options
      effectiveLimitReason :=
        if options.requestedOutputTokens ≤ capacityOutput then .outputLimit else .contextCapacity
      transientAlignment := 1
      transientBytes := 0
      admission := ⟨1, textPages, backendPages⟩ }
  let splits := (control.map List.length).getD 0 +
    (if prompt.identity.rewriteCheckpoint.any (·.frontier < prompt.size) then 1 else 0)
  .ok
    { summary := { summary with
        serviceWorkQuanta := projectedServiceWork summary 0 cfg.prefillChunk splits }
      allowPrefixReuse := options.allowPrefixReuse
      textKvPageEntitlement := textPages
      backendKvPageEntitlement := backendPages
      visionControl := control
      visionTransientBytes := bytes
      rewriteCheckpoint := prompt.identity.rewriteCheckpoint }

/-! ## The plan for a lane -/

/-- The prefix tests of `plan_request_for_lane`. -/
def selectReuse (x : Lane) (prompt : PreparedPromptData) (base : RequestBasePlan) :
    ReusePath × Nat :=
  if base.allowPrefixReuse ∧ prompt.identity.reusable ∧ x.retained then
    if x.executionFrontier ≠ 0 ∧
        (cfg.backend ≠ .dflash ∨ x.dflashContextFrontier = x.executionFrontier) ∧
        prefixMatches prompt x.ledger x.prefixIdentity x.executionFrontier then
      (.appendAtFrontier, x.executionFrontier)
    else if x.rewriteCheckpoint.valid ∧ x.rewriteCheckpoint.frontier ≠ 0 ∧
        x.rewriteCheckpoint.frontier ≤ prompt.size ∧
        prefixMatches prompt x.ledger x.prefixIdentity x.rewriteCheckpoint.frontier then
      (restorePath x.rewriteCheckpoint.kind, x.rewriteCheckpoint.frontier)
    else (.fullReset, 0)
  else (.fullReset, 0)

/-- The full resets of `plan_request_for_lane` when the backend's state does not reach the reuse
base. -/
def backendFallback (x : Lane) (reuse : ReusePath × Nat) : ReusePath × Nat :=
  match cfg.backend with
  | .none => reuse
  | .mtp =>
    let appendReady := reuse.1 = .appendAtFrontier ∧ x.tailHiddenValid ∧
      (reuse.2 = 0 ∨ reuse.2 - 1 ≤ x.mtpKvValid)
    let checkpointReady := isRewriteCheckpointRestore reuse.1 ∧ reuse.2 ≠ 0 ∧
      reuse.2 - 1 ≤ x.mtpKvValid
    if reuse.1 ≠ .fullReset ∧ ¬appendReady ∧ ¬checkpointReady then (.fullReset, 0) else reuse
  | .dflash =>
    if isRewriteCheckpointRestore reuse.1 ∧
        (¬(x.kv.any (·.backend)) ∨ x.dflashContextFrontier < reuse.2) then (.fullReset, 0)
    else reuse

/-- The rewrite checkpoint actions of `plan_request_for_lane`, with the checkpoint to capture. -/
def checkpointAction (x : Lane) (prompt : PreparedPromptData) (reuse : ReusePath × Nat)
    (desired : Option RewriteCheckpointSpec) :
    RewriteCheckpointAction × Option RewriteCheckpointSpec :=
  match desired with
  | none => (.drop, none)
  | some desired =>
    if reuse.1 ≠ .fullReset ∧ x.rewriteCheckpoint.valid ∧
        x.rewriteCheckpoint.frontier = desired.frontier ∧
        prefixMatches prompt x.ledger x.prefixIdentity desired.frontier then
      (if x.rewriteCheckpoint.kind = desired.kind then .keepExisting else .reclassifyExisting, none)
    else if reuse.2 < desired.frontier then (.captureNew, some desired)
    -- The state reused is already past the boundary: a later request can still use the
    -- checkpoint retained now.
    else (.deferCapture, none)

/-- The first token of an item. -/
def VisionItemControl.first (item : VisionItemControl) : Nat := item.scatterIndices.head?.getD 0

/-- The last token of an item. -/
def VisionItemControl.last (item : VisionItemControl) : Nat := item.scatterIndices.getLast?.getD 0

/-- The use of the item at an index, if it ends after the reuse base. -/
def useOf (prepareMtp : Bool) (reuseBase : Nat) (p : VisionItemControl × Nat) :
    Option VisionUseSpan :=
  if p.1.last + 1 ≤ reuseBase then none
  else some ⟨useBegin prepareMtp p.1.first, p.1.last + 1, p.2⟩

/-- The item loop of `plan_request_for_lane`. -/
def visionUses (prepareMtp : Bool) (reuseBase : Nat) (control : List VisionItemControl) :
    List VisionUseSpan :=
  control.zipIdx.filterMap (useOf prepareMtp reuseBase)

/-- The vision plan of `plan_request_for_lane`, if an item is needed. -/
def planUses (prepareMtp : Bool) (reuseBase : Nat) (control : Option (List VisionItemControl)) :
    Option VisionPrefillPlan :=
  control.bind fun control =>
    let uses := visionUses prepareMtp reuseBase control
    if uses = [] then none else some ⟨control, uses⟩

/-- The MTP bridge of a plan: none after a full reset. -/
def planBridge (reuse : ReusePath × Nat) (promptTokens : Nat) : MtpBridgeMode :=
  if cfg.backend = .mtp ∧ reuse.1 ≠ .fullReset then
    if reuse.2 < promptTokens then .beforeSuffix else .afterExactHit
  else .none

/-- `prefill_splits` of a plan. -/
def RequestPlan.prefillSplits (plan : RequestPlan) : Nat :=
  (plan.vision.map (·.uses.length)).getD 0 +
    (if plan.rewriteCheckpointCapture.any (·.frontier < plan.summary.promptTokens) then 1 else 0)

/-- The prefill units in the service work of a plan. -/
def RequestPlan.prefillUnits (plan : RequestPlan) : Nat :=
  Qwen.prefillUnits plan.summary.promptTokens plan.reuseBase cfg.prefillChunk plan.prefillSplits

/-- `plan_request_for_lane`, for the lane `x`. -/
def planRequestForLane (x : Lane) (prompt : PreparedPromptData) (base : RequestBasePlan) :
    Except Exception RequestPlan :=
  if x.busy then
    .error (.logicError "cannot plan a request while Program is active or pending")
  else
    let reuse := backendFallback cfg x (selectReuse cfg x prompt base)
    let action := checkpointAction x prompt reuse base.rewriteCheckpoint
    let prepareMtp := decide (cfg.backend = .mtp)
    let vision := planUses prepareMtp reuse.2 base.visionControl
    let summary : RequestPlanSummary :=
      { base.summary with
        reusablePromptTokens := reuse.2
        transientAlignment := if vision.isSome then 256 else base.summary.transientAlignment
        transientBytes :=
          if vision.isSome then base.visionTransientBytes else base.summary.transientBytes }
    let splits := (vision.map (·.uses.length)).getD 0 +
      (if action.2.any (·.frontier < summary.promptTokens) then 1 else 0)
    .ok
      { summary := { summary with
          serviceWorkQuanta := projectedServiceWork summary reuse.2 cfg.prefillChunk splits }
        textKvPageEntitlement := base.textKvPageEntitlement
        backendKvPageEntitlement := base.backendKvPageEntitlement
        reuse := reuse.1
        reuseBase := reuse.2
        rewriteCheckpointAction := action.1
        rewriteCheckpointCapture := action.2
        prepareMtp := prepareMtp
        mtpBridge := planBridge cfg reuse summary.promptTokens
        vision := vision }

/-! ## What the base plan says -/

section Base

variable {cfg} {prompt : PreparedPromptData}

theorem planPagesForTokens_eq {tokens : Nat} (hpos : 0 < tokens) (hlt : tokens < U32.size) :
    planPagesForTokens tokens = pagesForTokens tokens := by
  unfold planPagesForTokens pagesForTokens
  rw [U32.sub_eq hpos hlt, if_neg (by omega)]

theorem useBegin_le (mtp : Bool) (first : Nat) : useBegin mtp first ≤ first := by
  unfold useBegin
  split_ifs <;> omega

/-- **The control loop** keeps the uses of the items apart, and bounds their merged counts. -/
theorem checkConsumers_spec {promptTokens : Nat} : ∀ {items : List VisionItemControl}
    {previousEnd maxMerged bound : Nat}, (∀ item ∈ items, item.first ≤ item.last) →
    checkConsumers cfg promptTokens previousEnd maxMerged items = .ok bound →
    maxMerged ≤ bound ∧
      (∀ item ∈ items, item.mergedCount ≤ bound ∧ item.last + 1 ≤ promptTokens ∧
        previousEnd ≤ useBegin (decide (cfg.backend = .mtp)) item.first) ∧
      items.Pairwise fun a b => a.last + 1 ≤ useBegin (decide (cfg.backend = .mtp)) b.first
  | [], previousEnd, maxMerged, bound, _, h => by
    cases h
    exact ⟨Nat.le_refl _, by simp, List.Pairwise.nil⟩
  | item :: items, previousEnd, maxMerged, bound, hsorted, h => by
    unfold checkConsumers at h
    split at h
    next first last hf hl =>
      have hfirst : item.first = first := by rw [VisionItemControl.first, hf, Option.getD_some]
      have hlast : item.last = last := by rw [VisionItemControl.last, hl, Option.getD_some]
      simp only [check_bind_eq_ok] at h
      obtain ⟨hprev, hend, -, h⟩ := h
      have hle := hsorted item (List.mem_cons_self ..)
      have hbegin := useBegin_le (decide (cfg.backend = .mtp)) first
      obtain ⟨hmax, hitems, hpair⟩ :=
        checkConsumers_spec (fun x hx => hsorted x (List.mem_cons_of_mem _ hx)) h
      refine ⟨by omega, ?_, ?_⟩
      · intro x hx
        rcases List.mem_cons.mp hx with rfl | hx
        · rw [hfirst, hlast]
          exact ⟨by omega, hend, hprev⟩
        · obtain ⟨h₁, h₂, h₃⟩ := hitems x hx
          exact ⟨h₁, h₂, by omega⟩
      · refine List.pairwise_cons.mpr ⟨?_, hpair⟩
        intro x hx
        rw [hlast]
        exact (hitems x hx).2.2
    next => cases h

/-- What the runtime has made sure of about the media of an accepted prompt. -/
structure MediaOk (cfg : Config n) (prompt : PreparedPromptData) (base : RequestBasePlan) :
    Prop where
  placed : WellPlaced prompt.visionItems prompt.size
  types : ∀ item ∈ prompt.visionItems, ∀ i ∈ item.scatterIndices,
    prompt.tokenTypes.getD i 0 = item.modality.code
  control : base.visionControl =
    if prompt.hasMedia then
      some (prompt.visionItems.map fun item => item.control item.scatterIndices)
    else none
  apart : (prompt.visionItems.map fun item => item.control item.scatterIndices).Pairwise
    fun a b => a.last + 1 ≤ useBegin (decide (cfg.backend = .mtp)) b.first
  fits : ∀ item ∈ prompt.visionItems,
    itemOutputBytes cfg.outHidden item.scatterIndices.length ≤ base.visionTransientBytes
  payloads : prompt.mediaPayloads = prompt.visionItems.map fun item =>
    some (item.patchCount * kPreparedVisionPatchFeatures)
  enabled : prompt.hasMedia → cfg.visionEnabled

/-- A prompt that `plan_request_base` has accepted, and what the plan says. -/
structure Accepted (cfg : Config n) (prompt : PreparedPromptData) (options : ExecutionOptions)
    (base : RequestBasePlan) : Prop where
  size_pos : 0 < prompt.size
  size_le : prompt.size ≤ cfg.capacity
  tokens : ∀ id ∈ prompt.tokenIds, 0 ≤ id ∧ id < tokenDomain
  promptTokens : base.summary.promptTokens = prompt.size
  output : base.summary.effectiveOutputTokens = effectiveOutputTokens cfg prompt options
  noTransient : base.summary.transientBytes = 0
  admission : base.summary.admission =
    ⟨1, base.textKvPageEntitlement, base.backendKvPageEntitlement⟩
  textPages : base.textKvPageEntitlement = pagesForTokens (reservedContextTokens cfg prompt options)
  backendPages : base.backendKvPageEntitlement =
    pagesForTokens (reservedBackendTokens cfg (reservedContextTokens cfg prompt options))
  checkpoint : base.rewriteCheckpoint = prompt.identity.rewriteCheckpoint
  frontier : ∀ spec ∈ prompt.identity.rewriteCheckpoint,
    spec.frontier ≠ 0 ∧ spec.frontier ≤ prompt.size
  media : MediaOk cfg prompt base

theorem first_control (item : VisionItem) {first : TokenSpan}
    (hf : item.tokenSpans.head? = some first) (hc : 0 < first.count) :
    (item.control item.scatterIndices).first = first.start := by
  obtain ⟨spans, hspans⟩ := List.head?_eq_some_iff.mp hf
  have hcons : List.range' first.start first.count =
      first.start :: List.range' (first.start + 1) (first.count - 1) := by
    rw [← List.range'_succ, Nat.sub_add_cancel hc]
  simp [VisionItemControl.first, VisionItem.control, VisionItem.scatterIndices, hspans, hcons]

theorem last_control (item : VisionItem) {last : TokenSpan}
    (hl : item.tokenSpans.getLast? = some last) (hc : 0 < last.count) :
    (item.control item.scatterIndices).last + 1 = last.stop := by
  have hlast := scatterIndices_getLast hl hc
  simp only [VisionItemControl.last, VisionItem.control, hlast, Option.getD_some]
  unfold TokenSpan.stop
  omega

/-- The tokens of a well placed item lie between its first and its last one. -/
theorem WellPlaced.between {items : List VisionItem} {size : Nat} (h : WellPlaced items size)
    {item : VisionItem} (hm : item ∈ items) :
    (item.control item.scatterIndices).last ∈ item.scatterIndices ∧
      ∀ i ∈ item.scatterIndices, (item.control item.scatterIndices).first ≤ i ∧
        i ≤ (item.control item.scatterIndices).last := by
  obtain ⟨first, hf⟩ : ∃ first, item.tokenSpans.head? = some first :=
    ⟨_, List.head?_eq_some_head (h.nonempty item hm)⟩
  obtain ⟨last, hl⟩ : ∃ last, item.tokenSpans.getLast? = some last :=
    ⟨_, List.getLast?_eq_some_getLast (h.nonempty item hm)⟩
  have hcf := h.positive item hm first (List.mem_of_head? hf)
  have hcl := h.positive item hm last (List.mem_of_getLast? hl)
  have hstop := last_control item hl hcl
  rw [first_control item hf hcf]
  refine ⟨?_, ?_⟩
  · rw [mem_scatterIndices]
    refine ⟨last, List.mem_of_getLast? hl, ?_⟩
    unfold TokenSpan.stop at *
    omega
  · intro i hi
    refine ⟨h.first_le hm hf hi, ?_⟩
    obtain ⟨span, hs, -, hlt⟩ := mem_scatterIndices.mp hi
    -- No span of the item ends after the last one.
    have hend : span.stop ≤ last.stop := by
      obtain ⟨spans, hsplit⟩ := List.getLast?_eq_some_iff.mp hl
      have hord := h.item_ordered hm
      rw [hsplit] at hs hord
      rcases List.mem_append.mp hs with hs | hs
      · have := (List.pairwise_append.mp hord).2.2 span hs last (List.mem_singleton.mpr rfl)
        unfold TokenSpan.stop at *
        omega
      · rw [List.mem_singleton.mp hs]
    omega

theorem itemOutputBytes_mono {outHidden a b : Nat} (h : a ≤ b) :
    itemOutputBytes outHidden a ≤ itemOutputBytes outHidden b := by
  unfold itemOutputBytes
  exact Nat.mul_le_mul_right _ (Nat.mul_le_mul_left _ h)

/-- The transient bytes hold the output of an item with the largest merged count. -/
theorem itemOutputBytes_le {outHidden merged bytes : Nat}
    (h : outputTransientBytes outHidden merged = .ok bytes) :
    itemOutputBytes outHidden merged ≤ bytes := by
  unfold outputTransientBytes at h
  split_ifs at h
  cases h
  unfold kWorkspaceAlignment
  omega

/-- **The media of an accepted prompt.** -/
theorem planVision_spec {control : Option (List VisionItemControl)} {bytes : Nat}
    (h : planVision cfg prompt = .ok (control, bytes)) :
    WellPlaced prompt.visionItems prompt.size ∧
      (∀ item ∈ prompt.visionItems, ∀ i ∈ item.scatterIndices,
        prompt.tokenTypes.getD i 0 = item.modality.code) ∧
      (control = if prompt.hasMedia then
        some (prompt.visionItems.map fun item => item.control item.scatterIndices) else none) ∧
      ((prompt.visionItems.map fun item => item.control item.scatterIndices).Pairwise
        fun a b => a.last + 1 ≤ useBegin (decide (cfg.backend = .mtp)) b.first) ∧
      ∀ item ∈ prompt.visionItems, itemOutputBytes cfg.outHidden item.scatterIndices.length ≤ bytes := by
  unfold planVision at h
  by_cases hm : prompt.hasMedia = true
  · rw [if_pos hm] at h
    simp only [bind_eq_ok] at h
    obtain ⟨controls, hbuild, merged, hcheck, bytes', hbytes, h⟩ := h
    cases h
    obtain ⟨rfl, hplaced, htypes⟩ := buildVisionControl_spec hbuild
    have hsorted : ∀ c ∈ prompt.visionItems.map (fun item => item.control item.scatterIndices),
        c.first ≤ c.last := by
      intro c hc
      obtain ⟨item, hi, rfl⟩ := List.mem_map.mp hc
      obtain ⟨hlast, hbetween⟩ := hplaced.between hi
      exact (hbetween _ hlast).1
    obtain ⟨-, hitems, hpair⟩ := checkConsumers_spec hsorted hcheck
    refine ⟨hplaced, htypes, (if_pos hm).symm, hpair, ?_⟩
    intro item hi
    have hle := (hitems _ (List.mem_map_of_mem hi)).1
    exact (itemOutputBytes_mono hle).trans (itemOutputBytes_le hbytes)
  · rw [if_neg hm] at h
    cases h
    have hnil : prompt.visionItems = [] := by
      simpa [PreparedPromptData.hasMedia] using hm
    rw [hnil]
    exact ⟨wellPlaced_nil _, by simp, (if_neg hm).symm, by simp, by simp⟩

theorem reservedContextTokens_le (options : ExecutionOptions) (hle : prompt.size ≤ cfg.capacity) :
    reservedContextTokens cfg prompt options ≤ cfg.capacity := by
  unfold reservedContextTokens effectiveOutputTokens
  omega

/-- **An accepted prompt.** -/
theorem planRequestBase_spec {options : ExecutionOptions} {base : RequestBasePlan}
    (h : planRequestBase cfg prompt options = .ok base) : Accepted cfg prompt options base := by
  unfold planRequestBase at h
  rw [bind_eq_ok] at h
  obtain ⟨_, hvalid, h⟩ := h
  rw [bind_eq_ok] at h
  obtain ⟨⟨control, bytes⟩, hvision, h⟩ := h
  rw [check_bind_eq_ok] at h
  obtain ⟨hfrontier, h⟩ := h
  cases h
  simp only [validatePrompt, check_bind_eq_ok] at hvalid
  obtain ⟨hne, hle, -, htokens, -, -, hpayloads, henabled, -⟩ := hvalid
  obtain ⟨hplaced, htypes, hcontrol, hpair, hfits⟩ := planVision_spec hvision
  have hpos : 0 < prompt.size := List.length_pos_of_ne_nil hne
  have hcap := cfg.capacity_le
  have hres : prompt.size ≤ reservedContextTokens cfg prompt options := Nat.le_add_right _ _
  have hresle : reservedContextTokens cfg prompt options ≤ cfg.capacity :=
    reservedContextTokens_le _ hle
  refine ⟨hpos, hle, htokens, rfl, rfl, rfl, rfl, ?_, ?_, rfl, ?_, hplaced, htypes, hcontrol, hpair,
    hfits, hpayloads, henabled⟩
  · exact planPagesForTokens_eq (by omega) (U32.lt_size (by omega))
  · show (if cfg.backend = .none then 0 else planPagesForTokens (reservedBackendTokens cfg
      (reservedContextTokens cfg prompt options))) = _
    cases hb : cfg.backend with
    | none => simp [reservedBackendTokens, hb, pagesForTokens]
    | mtp =>
      have hw := cfg.draftWindow_pos (by rw [hb]; simp)
      have := cfg.capacity_pos
      rw [if_neg (by simp)]
      apply planPagesForTokens_eq
      · simp only [reservedBackendTokens, hb]
        omega
      · apply U32.lt_size
        simp only [reservedBackendTokens, hb]
        omega
    | dflash =>
      rw [if_neg (by simp)]
      apply planPagesForTokens_eq
      · simp only [reservedBackendTokens, hb]
        omega
      · apply U32.lt_size
        simp only [reservedBackendTokens, hb]
        omega
  · intro spec hs
    exact hfrontier spec hs

end Base

/-! ## What a lane plan says -/

/-- What a reuse says about the lane whose sequence it continues. -/
structure ReuseOk (cfg : Config n) (x : Lane) (prompt : PreparedPromptData) (reuse : ReusePath)
    (base : Nat) : Prop where
  reset : reuse = .fullReset → base = 0
  resident : reuse ≠ .fullReset → x.retained = true ∧ base ≠ 0 ∧
    prefixMatches prompt x.ledger x.prefixIdentity base = true
  append : reuse = .appendAtFrontier → base = x.executionFrontier ∧
    (cfg.backend = .dflash → x.dflashContextFrontier = x.executionFrontier) ∧
    (cfg.backend = .mtp → x.tailHiddenValid = true ∧ base - 1 ≤ x.mtpKvValid)
  restore : isRewriteCheckpointRestore reuse = true → x.rewriteCheckpoint.valid = true ∧
    x.rewriteCheckpoint.frontier = base ∧ reuse = restorePath x.rewriteCheckpoint.kind ∧
    (cfg.backend = .mtp → base - 1 ≤ x.mtpKvValid) ∧
    (cfg.backend = .dflash → x.kv.any (·.backend) = true ∧ base ≤ x.dflashContextFrontier)

section LanePlan

variable {cfg} {x : Lane} {prompt : PreparedPromptData}

theorem reuseOk_reset (cfg : Config n) (x : Lane) (prompt : PreparedPromptData) :
    ReuseOk cfg x prompt .fullReset 0 where
  reset := fun _ => rfl
  resident := fun h => absurd rfl h
  append := nofun
  restore := nofun

@[simp] theorem isRewriteCheckpointRestore_restorePath (kind : RewriteCheckpointKind) :
    isRewriteCheckpointRestore (restorePath kind) = true := by
  cases kind <;> rfl

theorem restorePath_ne (kind : RewriteCheckpointKind) :
    restorePath kind ≠ .fullReset ∧ restorePath kind ≠ .appendAtFrontier := by
  cases kind <;> exact ⟨nofun, nofun⟩

theorem prefixMatches_le {ledger : List TokenId} {identity : ResidentPrefixIdentity} {count : Nat}
    (h : prefixMatches prompt ledger identity count = true) :
    count ≤ prompt.size ∧ count ≤ ledger.length := by
  unfold prefixMatches at h
  split_ifs at h
  omega

/-- **The reuse of a plan**, after the fallbacks of the backend. -/
theorem reuse_spec (x : Lane) (prompt : PreparedPromptData) (base : RequestBasePlan) :
    ReuseOk cfg x prompt (backendFallback cfg x (selectReuse cfg x prompt base)).1
      (backendFallback cfg x (selectReuse cfg x prompt base)).2 := by
  unfold selectReuse
  split_ifs with hallow happend hrestore
  · -- The prompt continues the whole resident sequence.
    obtain ⟨hpos, hready, hmatch⟩ := happend
    have hother : isRewriteCheckpointRestore .appendAtFrontier = false := rfl
    unfold backendFallback
    cases hb : cfg.backend with
    | none =>
      refine ⟨nofun, fun _ => ⟨hallow.2.2, hpos, hmatch⟩, fun _ => ⟨rfl, ?_, ?_⟩, nofun⟩
      · exact fun h => nomatch hb.symm.trans h
      · exact fun h => nomatch hb.symm.trans h
    | mtp =>
      dsimp only
      split_ifs with hfall
      · exact reuseOk_reset cfg x prompt
      · refine ⟨nofun, fun _ => ⟨hallow.2.2, hpos, hmatch⟩, fun _ => ⟨rfl, ?_, fun _ => ?_⟩,
          nofun⟩
        · exact fun h => nomatch hb.symm.trans h
        simp only [ne_eq, reduceCtorEq, not_false_eq_true, true_and, hother, Bool.false_eq_true,
          false_and, and_true, not_not, hpos, false_or] at hfall
        exact hfall
    | dflash =>
      refine ⟨nofun, fun _ => ⟨hallow.2.2, hpos, hmatch⟩, fun _ => ⟨rfl, fun _ => ?_, ?_⟩,
        nofun⟩
      · rcases hready with hready | hready
        · exact absurd hb hready
        · exact hready
      · exact fun h => nomatch hb.symm.trans h
  · -- The prompt continues the checkpoint.
    obtain ⟨hvalid, hpos, -, hmatch⟩ := hrestore
    have hne := restorePath_ne x.rewriteCheckpoint.kind
    unfold backendFallback
    cases hb : cfg.backend with
    | none =>
      refine ⟨fun h => absurd h hne.1, fun _ => ⟨hallow.2.2, hpos, hmatch⟩,
        fun h => absurd h hne.2, fun _ => ⟨hvalid, rfl, rfl, ?_, ?_⟩⟩
      · exact fun h => nomatch hb.symm.trans h
      · exact fun h => nomatch hb.symm.trans h
    | mtp =>
      dsimp only
      split_ifs with hfall
      · exact reuseOk_reset cfg x prompt
      · refine ⟨fun h => absurd h hne.1, fun _ => ⟨hallow.2.2, hpos, hmatch⟩,
          fun h => absurd h hne.2, fun _ => ⟨hvalid, rfl, rfl, fun _ => ?_, ?_⟩⟩
        rotate_left
        · exact fun h => nomatch hb.symm.trans h
        simp only [ne_eq, hne.1, not_false_eq_true, true_and, hne.2, false_and,
          isRewriteCheckpointRestore_restorePath, hpos, not_not] at hfall
        exact hfall
    | dflash =>
      dsimp only
      split_ifs with hfall
      · exact reuseOk_reset cfg x prompt
      · refine ⟨fun h => absurd h hne.1, fun _ => ⟨hallow.2.2, hpos, hmatch⟩,
          fun h => absurd h hne.2, fun _ => ⟨hvalid, rfl, rfl, ?_, fun _ => ?_⟩⟩
        · exact fun h => nomatch hb.symm.trans h
        simp only [isRewriteCheckpointRestore_restorePath, true_and, not_or, not_not,
          Nat.not_lt] at hfall
        exact hfall
  all_goals
    have hreset : backendFallback cfg x (.fullReset, 0) = (.fullReset, 0) := by
      unfold backendFallback
      split <;> simp [isRewriteCheckpointRestore]
    rw [hreset]
    exact reuseOk_reset cfg x prompt

/-- A plan for the lane `x`. -/
structure PlanOk (cfg : Config n) (x : Lane) (prompt : PreparedPromptData) (base : RequestBasePlan)
    (plan : RequestPlan) : Prop where
  free : x.busy = false
  reuse : ReuseOk cfg x prompt plan.reuse plan.reuseBase
  promptTokens : plan.summary.promptTokens = base.summary.promptTokens
  output : plan.summary.effectiveOutputTokens = base.summary.effectiveOutputTokens
  textPages : plan.textKvPageEntitlement = base.textKvPageEntitlement
  backendPages : plan.backendKvPageEntitlement = base.backendKvPageEntitlement
  action : (plan.rewriteCheckpointAction, plan.rewriteCheckpointCapture) =
    checkpointAction x prompt (plan.reuse, plan.reuseBase) base.rewriteCheckpoint
  prepareMtp : plan.prepareMtp = decide (cfg.backend = .mtp)
  bridge : plan.mtpBridge = planBridge cfg (plan.reuse, plan.reuseBase) base.summary.promptTokens
  vision : plan.vision = planUses plan.prepareMtp plan.reuseBase base.visionControl
  alignment : plan.vision.isSome = true → plan.summary.transientAlignment = 256
  transient : plan.summary.transientBytes =
    if plan.vision.isSome then base.visionTransientBytes else base.summary.transientBytes
  work : plan.summary.serviceWorkQuanta =
    plan.prefillUnits cfg + (plan.summary.effectiveOutputTokens - 1)
  reusable : plan.summary.reusablePromptTokens = plan.reuseBase
  admission : plan.summary.admission = base.summary.admission

/-- **The plan for a lane.** -/
theorem planRequestForLane_spec {base : RequestBasePlan} {plan : RequestPlan}
    (h : planRequestForLane cfg x prompt base = .ok plan) : PlanOk cfg x prompt base plan := by
  unfold planRequestForLane at h
  split_ifs at h with hbusy
  cases h
  exact
    { free := by simpa using hbusy
      reuse := reuse_spec x prompt base
      promptTokens := rfl
      output := rfl
      textPages := rfl
      backendPages := rfl
      action := rfl
      prepareMtp := rfl
      bridge := rfl
      vision := rfl
      alignment := fun hv => if_pos hv
      transient := rfl
      work := by
        dsimp only [projectedServiceWork, RequestPlan.prefillUnits, RequestPlan.prefillSplits]
        congr 1
        split_ifs <;> omega
      reusable := rfl
      admission := rfl }

theorem ReuseOk.base_le {reuse : ReusePath} {base : Nat} (h : ReuseOk cfg x prompt reuse base) :
    base ≤ prompt.size := by
  by_cases hr : reuse = .fullReset
  · rw [h.reset hr]
    exact Nat.zero_le _
  · exact (prefixMatches_le (h.resident hr).2.2).1

end LanePlan

/-! ## The uses of a lane plan -/

section Uses

variable {cfg} {prompt : PreparedPromptData} {base : RequestBasePlan}

/-- The control records of a prompt. -/
def PreparedPromptData.controls (prompt : PreparedPromptData) : List VisionItemControl :=
  prompt.visionItems.map fun item => item.control item.scatterIndices

/-- The uses of a plan are those of the items that end after the reuse base. -/
theorem mem_visionUses {mtp : Bool} {reuseBase : Nat} {control : List VisionItemControl}
    {use : VisionUseSpan} : use ∈ visionUses mtp reuseBase control ↔
      ∃ item, control[use.itemIndex]? = some item ∧ reuseBase < item.last + 1 ∧
        use = ⟨useBegin mtp item.first, item.last + 1, use.itemIndex⟩ := by
  unfold visionUses useOf
  simp only [List.mem_filterMap, Prod.exists, List.mk_mem_zipIdx_iff_getElem?]
  constructor
  · rintro ⟨item, index, hitem, h⟩
    split_ifs at h with hle
    cases h
    exact ⟨item, hitem, Nat.not_le.mp hle, rfl⟩
  · rintro ⟨item, hitem, hlt, huse⟩
    refine ⟨item, use.itemIndex, hitem, ?_⟩
    rw [if_neg (Nat.not_le.mpr hlt)]
    exact congrArg some huse.symm

/-- **The uses are in order** and do not overlap. -/
theorem MediaOk.usesOrdered (h : MediaOk cfg prompt base) (reuseBase : Nat) :
    UsesOrdered (visionUses (decide (cfg.backend = .mtp)) reuseBase prompt.controls) := by
  have hitem : ∀ use ∈ visionUses (decide (cfg.backend = .mtp)) reuseBase prompt.controls,
      use.start < use.stop := by
    intro use hu
    obtain ⟨c, hc, -, huse⟩ := mem_visionUses.mp hu
    rw [PreparedPromptData.controls, List.getElem?_map, Option.map_eq_some_iff] at hc
    obtain ⟨item, hi, rfl⟩ := hc
    obtain ⟨hlast, hbetween⟩ := h.placed.between (List.mem_of_getElem? hi)
    have := useBegin_le (decide (cfg.backend = .mtp)) (item.control item.scatterIndices).first
    have := (hbetween _ hlast).1
    rw [huse]
    show useBegin _ _ < _ + 1
    omega
  have hpair : prompt.controls.zipIdx.Pairwise fun a b =>
      a.1.last + 1 ≤ useBegin (decide (cfg.backend = .mtp)) b.1.first ∧ a.2 < b.2 := by
    rw [List.pairwise_iff_getElem]
    intro i j hi hj hij
    rw [List.length_zipIdx] at hi hj
    simp only [List.getElem_zipIdx, Nat.zero_add]
    exact ⟨List.pairwise_iff_getElem.mp h.apart i j hi hj hij, hij⟩
  have hfilter : (visionUses (decide (cfg.backend = .mtp)) reuseBase prompt.controls).Pairwise
      fun a b => a.stop ≤ b.start ∧ a.itemIndex < b.itemIndex := by
    refine List.Pairwise.filterMap _ ?_ hpair
    intro a b hab use hu use' hu'
    unfold useOf at hu hu'
    split_ifs at hu with ha
    split_ifs at hu' with hb
    cases hu
    cases hu'
    exact hab
  exact ⟨hitem, hfilter.imp fun hab => hab.1, hfilter.imp fun hab => hab.2⟩

theorem MediaOk.visionControl (h : MediaOk cfg prompt base) {mtp : Bool} {reuseBase : Nat} :
    planUses mtp reuseBase base.visionControl =
      if visionUses mtp reuseBase prompt.controls = [] then none
      else some ⟨prompt.controls, visionUses mtp reuseBase prompt.controls⟩ := by
  rw [h.control]
  by_cases hm : prompt.hasMedia = true
  · rw [if_pos hm]
    rfl
  · have hnil : prompt.visionItems = [] := by
      simpa [PreparedPromptData.hasMedia] using hm
    rw [if_neg hm, if_pos]
    · rfl
    · simp [PreparedPromptData.controls, hnil, visionUses]

/-- `suffix_has_visual` of `start_prefill_lane`. -/
def suffixHasVisual (prompt : PreparedPromptData) (base : Nat) : Bool :=
  (prompt.tokenTypes.drop base).any fun type => decide (type ≠ 0)

theorem suffixHasVisual_iff {b : Nat} :
    suffixHasVisual prompt b = true ↔ ∃ i, b ≤ i ∧ prompt.tokenTypes.getD i 0 ≠ 0 := by
  unfold suffixHasVisual
  rw [List.any_eq_true]
  constructor
  · rintro ⟨type, hmem, hne⟩
    obtain ⟨j, hj, rfl⟩ := List.mem_iff_getElem.mp hmem
    rw [List.length_drop] at hj
    refine ⟨b + j, Nat.le_add_right _ _, ?_⟩
    rw [List.getElem_drop] at hne
    rw [List.getD_eq_getElem _ _ (by omega)]
    exact of_decide_eq_true hne
  · rintro ⟨i, hbi, hne⟩
    have hlt : i < prompt.tokenTypes.length := by
      by_contra hge
      exact hne (List.getD_eq_default _ _ (Nat.not_lt.mp hge))
    rw [List.getD_eq_getElem _ _ hlt] at hne
    refine ⟨prompt.tokenTypes[i], ?_, decide_eq_true hne⟩
    rw [List.mem_iff_getElem]
    refine ⟨i - b, by rw [List.length_drop]; omega, ?_⟩
    rw [List.getElem_drop]
    congr 1
    omega

theorem PromptModality.code_ne_zero (m : PromptModality) : m.code ≠ 0 := by
  cases m <;> exact nofun

/-- **A suffix has a visual token exactly when the plan needs an item.** -/
theorem MediaOk.suffix_visual (h : MediaOk cfg prompt base) (hp : Prepared prompt) (mtp : Bool)
    (b : Nat) : suffixHasVisual prompt b = (planUses mtp b base.visionControl).isSome := by
  have hiff : suffixHasVisual prompt b = true ↔ visionUses mtp b prompt.controls ≠ [] := by
    rw [suffixHasVisual_iff]
    constructor
    · rintro ⟨i, hbi, hne⟩
      obtain ⟨item, hitem, hspan⟩ := hp.covered hne
      have hi : i ∈ item.scatterIndices := mem_scatterIndices.mpr hspan
      obtain ⟨k, hk⟩ := List.mem_iff_getElem?.mp hitem
      have hle := ((h.placed.between hitem).2 i hi).2
      have hc : prompt.controls[k]? = some (item.control item.scatterIndices) := by
        rw [PreparedPromptData.controls, List.getElem?_map, hk, Option.map_some]
      have hmem : (⟨useBegin mtp (item.control item.scatterIndices).first,
          (item.control item.scatterIndices).last + 1, k⟩ : VisionUseSpan) ∈
          visionUses mtp b prompt.controls :=
        mem_visionUses.mpr ⟨_, hc, by omega, rfl⟩
      exact List.ne_nil_of_mem hmem
    · intro hne
      obtain ⟨use, hu⟩ := List.exists_mem_of_ne_nil _ hne
      obtain ⟨c, hc, hlt, -⟩ := mem_visionUses.mp hu
      rw [PreparedPromptData.controls, List.getElem?_map, Option.map_eq_some_iff] at hc
      obtain ⟨item, hitem, rfl⟩ := hc
      have hmem := List.mem_of_getElem? hitem
      have hlast := (h.placed.between hmem).1
      refine ⟨_, Nat.lt_succ_iff.mp hlt, ?_⟩
      rw [h.types item hmem _ hlast]
      exact item.modality.code_ne_zero
  rw [h.visionControl, Bool.eq_iff_iff, hiff]
  by_cases hnil : visionUses mtp b prompt.controls = []
  · simp [hnil]
  · simp [hnil]

end Uses

end Ninfer.Qwen
