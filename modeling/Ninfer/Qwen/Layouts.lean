import Ninfer.Core.Layout
import Ninfer.Qwen.Lane

/-!
# The device memory plan

`layouts_impl.h` with the planners it calls: the regions of the persistent allocation, placed one
after the other by a `LayoutBuilder`, and the reservation they make with the workspace, the request
transient and the graph allowance. The text pool, and the pool of the speculative backend, grow
with the number of page groups; nothing else does.

A planner returns the regions it has placed in their order. The workspace plan, which reads the
planning inputs only, and the graph profiles of a variant are parameters.

## Main definitions

* `Variant`, `qwen27b`, `qwen35bA3b`: the extents of the two model variants
* `planPagedKVPool`, `planCache`, `planDecoderState`, `planGdnReplayRecords`, `planCyclicKVCache`,
  `beginRoundStateLayout`, `completeRoundStateLayout`: the planners
* `persistentLayout`: the persistent allocation
* `buildSequenceCandidate`: the reservation for a number of page groups
* `makeSequencePlanner`: the planner of a sequence
-/

namespace Ninfer.Qwen.Layouts

open Ninfer.Core (DType LayoutBuilder LayoutRegion TensorRegion kArenaAlign)
open PagedKV (kPagedKVPageSize int32Max)

/-- A check inside a planner. -/
def require (p : Prop) [Decidable p] (e : Exception) : Call LayoutBuilder Unit :=
  Call.ofExcept (check p e)

/-- `add_tensor`, of positive extents. -/
def addTensor (dtype : DType) (shape : List Nat) (label : String) :
    Call LayoutBuilder TensorRegion :=
  LayoutBuilder.addTensor dtype (shape.map Int.ofNat) kArenaAlign label

/-- A part that is planned under a condition. -/
def planIf (p : Prop) [Decidable p] {α : Type} (c : Call LayoutBuilder α) :
    Call LayoutBuilder (Option α) :=
  if p then some <$> c else pure none

/-- A tensor that a planner places. -/
structure TensorRequest where
  dtype : DType
  shape : List Nat
  label : String
  deriving DecidableEq, Repr

/-- Tensors placed one after the other. -/
def addTensors : List TensorRequest → Call LayoutBuilder (List TensorRegion)
  | [] => pure []
  | request :: requests => do
    let region ← addTensor request.dtype request.shape request.label
    let regions ← addTensors requests
    return region :: regions

/-! ## Pools and states -/

/-- `page_count`. -/
def pageCount (capacity : Nat) : Except Exception Nat := do
  check (capacity ≠ 0) (.invalidArgument "Paged KV capacity must be positive")
  return 1 + (capacity - 1) / kPagedKVPageSize

/-- `PagedKVPlaneOrder`. -/
inductive PagedKVPlaneOrder
  | pageMajor
  | headMajor
  deriving DecidableEq, Repr

/-- `PagedKVPlaneSpec`, aligned as every region. -/
structure PagedKVPlaneSpec where
  dtype : DType
  leadingExtent : Nat
  headExtent : Nat
  deriving DecidableEq, Repr

/-- The shape of a plane. -/
def PagedKVPlaneSpec.shape (plane : PagedKVPlaneSpec) (order : PagedKVPlaneOrder) (pages : Nat) :
    List Nat :=
  match order with
  | .pageMajor => [plane.leadingExtent, kPagedKVPageSize, plane.headExtent, pages]
  | .headMajor => [plane.leadingExtent, kPagedKVPageSize, pages, plane.headExtent]

/-- `PagedKVPoolSpec`. -/
structure PagedKVPoolSpec where
  pageGroupCount : Nat
  logicalPageCapacity : Nat
  tableRows : Nat
  planeOrder : PagedKVPlaneOrder := .pageMajor
  planes : List PagedKVPlaneSpec
  deriving DecidableEq, Repr

/-- `PagedKVPoolLayout`. -/
structure PagedKVPoolLayout where
  spec : PagedKVPoolSpec
  planes : List TensorRegion
  blockTables : TensorRegion
  deriving DecidableEq, Repr

/-- The loop of `plan_paged_kv_pool` over the planes, from an index on. -/
def planPlanes (order : PagedKVPlaneOrder) (pages : Nat) :
    Nat → List PagedKVPlaneSpec → Call LayoutBuilder (List TensorRegion)
  | _, [] => pure []
  | index, plane :: planes => do
    require (0 < plane.leadingExtent ∧ 0 < plane.headExtent)
      (.invalidArgument "Paged KV plane extents must be positive")
    let storage ← addTensor plane.dtype (plane.shape order pages)
      ("Paged KV plane " ++ toString index)
    let rest ← planPlanes order pages (index + 1) planes
    return storage :: rest

/-- `plan_paged_kv_pool`. -/
def planPagedKVPool (spec : PagedKVPoolSpec) : Call LayoutBuilder PagedKVPoolLayout := do
  require (0 < spec.pageGroupCount ∧ spec.pageGroupCount ≤ int32Max)
    (.invalidArgument "Paged KV page count must fit positive int32")
  require (0 < spec.logicalPageCapacity ∧ spec.logicalPageCapacity ≤ int32Max)
    (.invalidArgument "Paged KV logical page capacity must fit positive int32")
  require (0 < spec.tableRows) (.invalidArgument "Paged KV table row count must be positive")
  require (spec.planes ≠ []) (.invalidArgument "Paged KV pool must contain planes")
  let planes ← planPlanes spec.planeOrder spec.pageGroupCount 0 spec.planes
  let blockTables ← addTensor .i32 [spec.logicalPageCapacity, spec.tableRows]
    "Paged KV block tables"
  return ⟨spec, planes, blockTables⟩

/-- `kKvQuantGroup`. -/
def kKvQuantGroup : Nat := 64

/-- The planes of a layer in `plan_cache`. -/
def layerPlanes (dtype : DType) (kvHeads headDim quantGroup : Nat) : List PagedKVPlaneSpec :=
  [⟨dtype, headDim, kvHeads⟩, ⟨dtype, headDim, kvHeads⟩] ++
    if dtype = .i8 then
      [⟨.fp16, headDim / quantGroup, kvHeads⟩, ⟨.fp16, headDim / quantGroup, kvHeads⟩]
    else []

/-- `plan_cache`. -/
def planCache (layers capacity kvHeads headDim : Nat) (dtype : DType)
    (quantGroup tableRows physicalPageGroups : Nat) : Call LayoutBuilder PagedKVPoolLayout := do
  require (layers ≠ 0 ∧ layers ≤ int32Max ∧ 0 < kvHeads ∧ 0 < headDim ∧ 0 < tableRows)
    (.invalidArgument "Paged KV cache geometry is invalid")
  require (if dtype = .i8 then quantGroup = kKvQuantGroup ∧ headDim % quantGroup = 0
      else dtype = .bf16 ∧ quantGroup = 0)
    (.invalidArgument "Paged KV cache dtype or quantization is invalid")
  let logicalPages ← Call.ofExcept (pageCount capacity)
  require (logicalPages ≤ physicalPageGroups)
    (.invalidArgument "Paged KV physical pages are below logical capacity")
  planPagedKVPool
    { pageGroupCount := physicalPageGroups
      logicalPageCapacity := logicalPages
      tableRows := tableRows
      planes := (List.replicate layers (layerPlanes dtype kvHeads headDim quantGroup)).flatten }

/-- `LinearAttentionStatePoolSpec`. -/
structure LinearAttentionStatePoolSpec where
  layers : Nat
  convChannels : Nat
  convWidth : Nat
  valueHeads : Nat
  valueHeadDim : Nat
  keyHeadDim : Nat
  slotCount : Nat
  convDtype : DType
  deriving DecidableEq, Repr

/-- The loop of `plan_linear_attention_state_pool` over the layers, from one on. -/
def planLinearLayers (convShape recurrentShape : Core.Tensor) :
    Nat → Nat → Call LayoutBuilder (List (LayoutRegion × LayoutRegion))
  | _, 0 => pure []
  | layer, layers + 1 => do
    let convBytes ← Call.ofExcept convShape.bytes
    let conv ← LayoutBuilder.add convBytes kArenaAlign
      ("Linear Attention layer " ++ toString layer ++ " conv")
    let recurrentBytes ← Call.ofExcept recurrentShape.bytes
    let recurrent ← LayoutBuilder.add recurrentBytes kArenaAlign
      ("Linear Attention layer " ++ toString layer ++ " recurrent")
    let rest ← planLinearLayers convShape recurrentShape (layer + 1) layers
    return (conv, recurrent) :: rest

/-- `plan_linear_attention_state_pool`. -/
def planLinearAttentionStatePool (spec : LinearAttentionStatePoolSpec) :
    Call LayoutBuilder (List (LayoutRegion × LayoutRegion)) := do
  require (spec.layers ≠ 0) (.invalidArgument "LinearAttentionStatePool layers must be nonzero")
  require (spec.layers ≤ int32Max)
    (.overflowError "LinearAttentionStatePool layer count exceeds int32")
  require (0 < spec.convChannels)
    (.invalidArgument "LinearAttentionStatePool conv_channels must be positive")
  require (0 < spec.convWidth)
    (.invalidArgument "LinearAttentionStatePool conv_width must be positive")
  require (0 < spec.valueHeads)
    (.invalidArgument "LinearAttentionStatePool value_heads must be positive")
  require (0 < spec.valueHeadDim)
    (.invalidArgument "LinearAttentionStatePool value_head_dim must be positive")
  require (0 < spec.keyHeadDim)
    (.invalidArgument "LinearAttentionStatePool key_head_dim must be positive")
  require (0 < spec.slotCount)
    (.invalidArgument "LinearAttentionStatePool slot_count must be positive")
  require (spec.convDtype = .bf16 ∨ spec.convDtype = .fp32)
    (.invalidArgument "LinearAttentionStatePool conv_dtype must be BF16 or FP32")
  let convShape ← Call.ofExcept (Core.Tensor.new 0 spec.convDtype
    ([spec.convChannels, spec.convWidth, spec.slotCount].map Int.ofNat))
  let recurrentShape ← Call.ofExcept (Core.Tensor.new 0 .fp32
    ([spec.keyHeadDim, spec.valueHeadDim, spec.valueHeads, spec.slotCount].map Int.ofNat))
  planLinearLayers convShape recurrentShape 0 spec.layers

/-- `GdnReplayRecordSpec`. -/
structure GdnReplayRecordSpec where
  layers : Nat
  recordCapacity : Nat
  width : Nat
  convChannels : Nat
  qkHeads : Nat
  valueHeads : Nat
  keyDim : Nat
  valueDim : Nat
  deriving DecidableEq, Repr

/-- `validate_spec` of the replay records. -/
def GdnReplayRecordSpec.validate (spec : GdnReplayRecordSpec) : Except Exception Unit := do
  check (0 < spec.layers) (.invalidArgument "GDN replay layer count must be positive")
  check (0 < spec.recordCapacity) (.invalidArgument "GDN replay record capacity must be positive")
  check (0 < spec.width) (.invalidArgument "GDN replay width must be positive")
  check (0 < spec.convChannels)
    (.invalidArgument "GDN replay convolution channel count must be positive")
  check (0 < spec.qkHeads) (.invalidArgument "GDN replay Q/K head count must be positive")
  check (0 < spec.valueHeads) (.invalidArgument "GDN replay value head count must be positive")
  check (0 < spec.keyDim) (.invalidArgument "GDN replay key dimension must be positive")
  check (0 < spec.valueDim) (.invalidArgument "GDN replay value dimension must be positive")
  check (spec.recordCapacity ≤ 8)
    (.invalidArgument "GDN replay record capacity exceeds eight rows")
  check (spec.valueHeads % spec.qkHeads = 0)
    (.invalidArgument "GDN replay value heads must be grouped by Q/K heads")
  check (spec.layers ≤ int32Max / spec.recordCapacity)
    (.overflowError "GDN replay layer/row extent exceeds int32")

/-- `plan_gdn_replay_records`. -/
def planGdnReplayRecords (spec : GdnReplayRecordSpec) : Call LayoutBuilder (List TensorRegion) := do
  Call.ofExcept spec.validate
  let outer := spec.layers * spec.recordCapacity
  addTensors
    [⟨.bf16, [spec.convChannels, spec.width, outer], "GDN replay conv records"⟩,
      ⟨.bf16, [spec.keyDim, spec.qkHeads, spec.width, outer], "GDN replay key records"⟩,
      ⟨.bf16, [spec.valueDim, spec.valueHeads, spec.width, outer], "GDN replay value records"⟩,
      ⟨.fp32, [2, spec.valueHeads, spec.width, outer], "GDN replay gate records"⟩]

/-- The tensors of a layer in `plan_cyclic_kv_cache`. -/
def cyclicLayer (headDim padded kvHeads laneCapacity layer : Nat) : List TensorRequest :=
  [⟨.bf16, [headDim, padded, kvHeads, laneCapacity],
      "Cyclic KV layer " ++ toString layer ++ " K"⟩,
    ⟨.bf16, [headDim, padded, kvHeads, laneCapacity],
      "Cyclic KV layer " ++ toString layer ++ " V"⟩]

/-- `plan_cyclic_kv_cache`. -/
def planCyclicKVCache (layers capacity kvHeads headDim laneCapacity : Nat) :
    Call LayoutBuilder (List TensorRegion) := do
  require (layers ≠ 0 ∧ capacity ≠ 0 ∧ capacity ≤ int32Max ∧ 0 < kvHeads ∧ 0 < headDim ∧
      0 < laneCapacity) (.invalidArgument "Cyclic KV geometry is invalid")
  require (roundUp capacity 128 ≤ int32Max)
    (.invalidArgument "Cyclic KV padded capacity is out of range")
  addTensors ((List.range layers).flatMap
    (cyclicLayer headDim (roundUp capacity 128) kvHeads laneCapacity))

/-! ## Variants -/

/-- `DFlashConfig` of a variant that supports it. -/
structure DFlashConfig where
  localLayers : Nat
  localCapacity : Nat
  kvHeads : Nat
  headDim : Nat
  featureRows : Nat
  deriving DecidableEq, Repr

/-- The extents of a variant: its `TextConfig`, its `DFlashConfig` and its limits. -/
structure Variant where
  hidden : Nat
  layers : Nat
  outputRows : Nat
  tokenDomain : Nat
  gdnConvStateWidth : Nat
  gdnKeyHeads : Nat
  gdnKeyHeadDim : Nat
  gdnValueHeads : Nat
  gdnValueHeadDim : Nat
  kvHeads : Nat
  headDim : Nat
  mtpLayers : Nat
  dflash : Option DFlashConfig
  maximumMtpDraftTokens : Nat
  maximumDFlashDraftTokens : Nat
  maximumContext : Nat
  deriving DecidableEq, Repr

namespace Variant

/-- `full_attention_layers`. -/
def fullAttentionLayers (v : Variant) : Nat := v.layers / 4

/-- `gdn_layers`. -/
def gdnLayers (v : Variant) : Nat := v.layers - v.fullAttentionLayers

/-- `convolution_dim`. -/
def convolutionDim (v : Variant) : Nat :=
  2 * (v.gdnKeyHeads * v.gdnKeyHeadDim) + v.gdnValueHeads * v.gdnValueHeadDim

end Variant

/-- The 27B variant. -/
def qwen27b : Variant where
  hidden := 5120
  layers := 64
  outputRows := 248320
  tokenDomain := 248077
  gdnConvStateWidth := 3
  gdnKeyHeads := 16
  gdnKeyHeadDim := 128
  gdnValueHeads := 48
  gdnValueHeadDim := 128
  kvHeads := 4
  headDim := 256
  mtpLayers := 1
  dflash := none
  maximumMtpDraftTokens := 5
  maximumDFlashDraftTokens := 0
  maximumContext := 262144

/-- The 35B-A3B variant. -/
def qwen35bA3b : Variant where
  hidden := 2048
  layers := 40
  outputRows := 248320
  tokenDomain := 248077
  gdnConvStateWidth := 3
  gdnKeyHeads := 16
  gdnKeyHeadDim := 128
  gdnValueHeads := 32
  gdnValueHeadDim := 128
  kvHeads := 2
  headDim := 256
  mtpLayers := 1
  dflash := some
    { localLayers := 5
      localCapacity := 4096
      kvHeads := 8
      headDim := 128
      featureRows := 16384 }
  maximumMtpDraftTokens := 5
  maximumDFlashDraftTokens := 15
  maximumContext := 262144

/-! ## Options -/

/-- `KvCacheStorage`. -/
inductive KvCacheStorage
  | bfloat16
  | int8
  deriving DecidableEq, Repr

/-- `ProposalHead`. -/
inductive ProposalHead
  | full
  | optimized
  deriving DecidableEq, Repr

/-- `KvCapacityPolicy`: the tokens of an explicit capacity, or the headroom of an automatic one. -/
inductive KvCapacityPolicy
  | explicit (tokens headroom : Nat)
  | automatic (headroom : Nat)
  deriving DecidableEq, Repr

/-- The members of `EngineOptions` the planning reads. -/
structure EngineOptions where
  maxContext : Nat
  maxConcurrency : Nat
  prefillChunk : Nat
  kvCapacity : KvCapacityPolicy
  kvCache : KvCacheStorage
  backend : SpeculativeBackend
  draftTokens : Nat
  proposalHead : ProposalHead
  enableVision : Bool
  useCudaGraph : Bool
  deriving DecidableEq, Repr

/-- `SequencePlanningInputs`. The weights profile and the device are read by the workspace plan
only. -/
structure SequencePlanningInputs where
  capacity : Nat
  maxConcurrency : Nat
  prefillChunk : Nat
  draftWindow : Nat
  backend : SpeculativeBackend
  kvDtype : DType
  kvQuantGroup : Nat
  proposalHead : ProposalHead
  vision : Bool
  useCudaGraph : Bool
  deriving DecidableEq, Repr

/-- `std::numeric_limits<std::uint32_t>::max()`. -/
def uint32Max : Nat := 2 ^ 32 - 1

/-- The check of an explicit capacity in `validate_target_options`. -/
def validateKvCapacity (options : EngineOptions) (minimumPages maximumPages : Nat) :
    Except Exception Unit :=
  match options.kvCapacity with
  | .explicit tokens _ => do
    check (options.maxContext ≤ tokens)
      (.invalidArgument "kv_capacity must be at least max_context")
    let requested ← pageCount tokens
    check (minimumPages ≤ requested ∧ requested ≤ maximumPages)
      (.invalidArgument
        "kv_capacity is outside the usable range for max_context and max_concurrency")
  | .automatic _ => .ok ()

/-- The check of the speculative backend in `validate_target_options`. -/
def validateBackend (v : Variant) (options : EngineOptions) : Except Exception Unit :=
  match options.backend with
  | .none =>
    check (options.draftTokens = 0 ∧ options.proposalHead = .full)
      (.invalidArgument
        "disabled speculative decoding requires draft_tokens=0 and the full proposal head")
  | .mtp =>
    check (options.draftTokens ≠ 0 ∧ options.draftTokens ≤ v.maximumMtpDraftTokens)
      (.invalidArgument "MTP draft window must be in [1,5]")
  | .dflash => do
    check (v.maximumDFlashDraftTokens ≠ 0)
      (.invalidArgument "DFlash is not supported by this target")
    check (options.draftTokens ≠ 0 ∧ options.draftTokens ≤ v.maximumDFlashDraftTokens)
      (.invalidArgument "DFlash draft window must be in [1,15]")
    check (options.enableVision = false)
      (.invalidArgument "DFlash and Vision cannot be enabled together")

/-- `validate_target_options`. -/
def validateTargetOptions (v : Variant) (sm : Nat) (options : EngineOptions) :
    Except Exception Unit := do
  check (options.maxContext ≠ 0 ∧ options.maxContext ≤ v.maximumContext)
    (.invalidArgument "max_context exceeds the variant native context capacity")
  check (options.prefillChunk ≠ 0 ∧ options.prefillChunk % 128 = 0)
    (.invalidArgument "prefill_chunk must be a nonzero multiple of 128")
  check (options.maxConcurrency ≠ 0 ∧ options.maxConcurrency ≤ 8)
    (.invalidArgument "max_concurrency must be in [1,8]")
  let logicalPages ← pageCount options.maxContext
  let maximumPages := options.maxConcurrency * logicalPages
  check (maximumPages ≤ uint32Max)
    (.overflowError "maximum Main KV page count exceeds uint32")
  validateKvCapacity options (max logicalPages options.maxConcurrency) maximumPages
  validateBackend v options
  check (sm = 120)
    (.invalidArgument "Qwen3.6 family runtime requires compute capability 12.0")

/-! ## The state of a round -/

/-- `RoundStateSpec`. -/
structure RoundStateSpec where
  hidden : Nat
  outputRows : Nat
  batchCapacity : Nat
  draftWindow : Nat
  enableMtp : Bool
  enableDFlash : Bool
  deriving DecidableEq, Repr

/-- `validate_spec` of the round state. -/
def RoundStateSpec.validate (spec : RoundStateSpec) : Except Exception Unit := do
  check (¬(spec.enableMtp = true ∧ spec.enableDFlash = true))
    (.invalidArgument "RoundState speculative extensions are mutually exclusive")
  check (0 < spec.hidden) (.invalidArgument "RoundState hidden must be positive")
  check (0 < spec.outputRows) (.invalidArgument "RoundState output_rows must be positive")
  check (spec.enableMtp = true → spec.draftWindow ≠ 0)
    (.invalidArgument "RoundState cannot enable MTP with an empty draft window")
  check (spec.enableMtp = true → spec.draftWindow ≤ 5)
    (.invalidArgument "RoundState MTP draft window exceeds the decode frame domain")
  check (spec.enableDFlash = true → spec.draftWindow ≠ 0 ∧ spec.draftWindow ≤ 15)
    (.invalidArgument "RoundState DFlash draft window exceeds the decode frame domain")
  check (spec.batchCapacity ≠ 0 ∧ spec.batchCapacity ≤ 8)
    (.invalidArgument "RoundState batch capacity must be in [1,8]")
  check (spec.draftWindow + 1 ≤ int32Max)
    (.invalidArgument "RoundState draft window exceeds int32")

/-- The size of `ops::SamplingConfig`. -/
def samplingConfigBytes : Nat := 40

/-- The size of `kMaximumConcurrency` words of four bytes. -/
def laneWords (count : Nat) : Nat := count * (8 * 4)

/-- The sizes of the transfer formats of a round: ingress and egress. -/
def ordinaryIngressBytes : Nat := laneWords 5 + 8 * samplingConfigBytes
def ordinaryEgressBytes : Nat := laneWords 1
def mtpIngressBytes : Nat := laneWords (5 + 5 + 6 + 4) + 8 * samplingConfigBytes
def mtpEgressBytes : Nat := laneWords (6 + 2 + 5 + 1)
def dflashIngressBytes : Nat := laneWords 8 + 8 * samplingConfigBytes
def dflashEgressBytes : Nat := laneWords (16 + 2)

/-- The ordinary decoding part of `begin_round_state_layout`. -/
def planOrdinaryRound (spec : RoundStateSpec) : Call LayoutBuilder (List LayoutRegion) := do
  let ingress ← LayoutBuilder.add ordinaryIngressBytes kArenaAlign "ordinary decode ingress"
  let egress ← LayoutBuilder.add ordinaryEgressBytes kArenaAlign "ordinary decode egress"
  let tensors ← addTensors
    [⟨.bf16, [spec.outputRows, spec.batchCapacity], "ordinary decode logits"⟩,
      ⟨.bf16, [spec.hidden, spec.batchCapacity], "ordinary decode hidden"⟩]
  return [ingress, egress] ++ tensors.map TensorRegion.region

/-- `begin_round_state_layout`: the regions of ordinary decoding, if no backend is enabled, and
those of a step. -/
def beginRoundStateLayout (spec : RoundStateSpec) : Call LayoutBuilder (List LayoutRegion) := do
  Call.ofExcept spec.validate
  let ordinary ← planIf (spec.enableMtp = false ∧ spec.enableDFlash = false)
    (planOrdinaryRound spec)
  let step ← addTensors
    [⟨.i32, [1], "step token"⟩, ⟨.i32, [1], "step position"⟩, ⟨.i32, [1], "step rope position"⟩,
      ⟨.i32, [1], "step rope delta"⟩, ⟨.bf16, [spec.outputRows, 1], "step logits"⟩,
      ⟨.i32, [1], "step Text KV table row"⟩, ⟨.i32, [1], "step backend KV table row"⟩]
  return ordinary.getD [] ++ step.map TensorRegion.region

/-- The MTP part of `complete_round_state_layout`. -/
def planMtpRound (spec : RoundStateSpec) : Call LayoutBuilder (List LayoutRegion) := do
  let columns := spec.draftWindow + 1
  let drafts := max 1 spec.draftWindow
  let arSteps := max 1 (spec.draftWindow - 1)
  let batch := spec.batchCapacity
  let prefill ← addTensors
    [⟨.i32, [1], "MTP prefill autoregressive position"⟩,
      ⟨.bf16, [spec.hidden, 1], "MTP prefill autoregressive hidden"⟩,
      ⟨.i32, [drafts], "MTP prefill draft tokens"⟩,
      ⟨.i32, [columns], "MTP prefill target input ids"⟩,
      ⟨.i32, [columns], "MTP prefill target positions"⟩]
  let ingress ← LayoutBuilder.add mtpIngressBytes kArenaAlign "MTP decode ingress"
  let egress ← LayoutBuilder.add mtpEgressBytes kArenaAlign "MTP decode egress"
  let decode ← addTensors
    [⟨.i32, [columns, batch], "MTP decode verify ids"⟩,
      ⟨.i32, [columns, batch], "MTP decode target positions"⟩,
      ⟨.i32, [columns, batch], "MTP decode target argmax"⟩,
      ⟨.bf16, [spec.outputRows, columns, batch], "MTP decode target logits"⟩,
      ⟨.bf16, [spec.hidden, columns, batch], "MTP decode target hidden"⟩,
      ⟨.bf16, [spec.hidden, batch], "MTP decode target continuation hidden"⟩,
      ⟨.bf16, [spec.outputRows, batch], "MTP decode proposal logits"⟩,
      ⟨.i32, [columns, batch], "MTP decode alignment ids"⟩,
      ⟨.bf16, [spec.hidden, columns, batch], "MTP decode alignment hidden"⟩,
      ⟨.bf16, [spec.hidden, batch], "MTP decode autoregressive hidden"⟩,
      ⟨.bf16, [spec.hidden, batch], "MTP decode next hidden"⟩,
      ⟨.i32, [batch, arSteps], "MTP decode autoregressive positions"⟩,
      ⟨.i32, [batch, arSteps], "MTP decode autoregressive rope positions"⟩,
      ⟨.i32, [batch, arSteps], "MTP decode autoregressive valid columns"⟩]
  return prefill.map TensorRegion.region ++ ([ingress, egress] ++ decode.map TensorRegion.region)

/-- The DFlash part of `complete_round_state_layout`. -/
def planDFlashRound (spec : RoundStateSpec) : Call LayoutBuilder (List LayoutRegion) := do
  let columns := spec.draftWindow + 1
  let batch := spec.batchCapacity
  let produced ← addTensor .i32 [1] "DFlash prefill produced count"
  let ingress ← LayoutBuilder.add dflashIngressBytes kArenaAlign "DFlash decode ingress"
  let egress ← LayoutBuilder.add dflashEgressBytes kArenaAlign "DFlash decode egress"
  let decode ← addTensors
    [⟨.i32, [columns, batch], "DFlash proposal ids"⟩,
      ⟨.i32, [columns, batch], "DFlash proposal positions"⟩,
      ⟨.i32, [columns, batch], "DFlash append positions"⟩,
      ⟨.i32, [batch], "DFlash append counts"⟩,
      ⟨.i32, [columns - 1, batch], "DFlash proposal draft tokens"⟩,
      ⟨.i32, [columns, batch], "DFlash target verify ids"⟩,
      ⟨.i32, [columns, batch], "DFlash target argmax"⟩,
      ⟨.bf16, [spec.outputRows, columns, batch], "DFlash target logits"⟩,
      ⟨.bf16, [spec.hidden, columns, batch], "DFlash target hidden"⟩,
      ⟨.bf16, [spec.hidden, batch], "DFlash target continuation hidden"⟩]
  return [produced.region, ingress, egress] ++ decode.map TensorRegion.region

/-- `complete_round_state_layout`. -/
def completeRoundStateLayout (spec : RoundStateSpec) : Call LayoutBuilder (List LayoutRegion) := do
  Call.ofExcept spec.validate
  let mtp ← planIf (spec.enableMtp = true) (planMtpRound spec)
  let dflash ← planIf (spec.enableDFlash = true) (planDFlashRound spec)
  return mtp.getD [] ++ dflash.getD []

/-! ## The persistent allocation -/

/-- `checked_i32` of the planner. -/
def checkedI32 (value : Nat) (label : String) : Except Exception Nat := do
  check (value ≠ 0 ∧ value ≤ int32Max) (.overflowError label)
  return value

/-- `mtp_physical_pages`. -/
def mtpPhysicalPages (inputs : SequencePlanningInputs) (physicalPages : Nat) :
    Except Exception Nat :=
  let extraPages := if inputs.backend = .mtp then
      inputs.maxConcurrency *
        ((inputs.draftWindow - 1 + kPagedKVPageSize - 1) / kPagedKVPageSize)
    else 0
  checkedI32 (physicalPages + extraPages) "MTP Paged KV physical pages exceed int32"

/-- `DecoderStateLayout`. -/
structure DecoderStateLayout where
  textKv : PagedKVPoolLayout
  mtpKv : Option PagedKVPoolLayout
  linearAttention : List (LayoutRegion × LayoutRegion)
  deriving DecidableEq, Repr

/-- `LinearStateSlots::state_slot_count`. -/
def stateSlotCount (maxConcurrency : Nat) : Except Exception Nat := do
  check (maxConcurrency ≠ 0 ∧ maxConcurrency ≤ int32Max / 2)
    (.invalidArgument "Qwen3.6 Linear Attention concurrency is invalid")
  return 2 * maxConcurrency

/-- The linear attention of a variant. -/
def Variant.linearAttention (v : Variant) (slots : Nat) : LinearAttentionStatePoolSpec where
  layers := v.gdnLayers
  convChannels := v.convolutionDim
  convWidth := v.gdnConvStateWidth
  valueHeads := v.gdnValueHeads
  valueHeadDim := v.gdnValueHeadDim
  keyHeadDim := v.gdnKeyHeadDim
  slotCount := slots
  convDtype := .bf16

/-- `plan_decoder_state`. -/
def planDecoderState (v : Variant) (inputs : SequencePlanningInputs)
    (slots physicalPages mtpPages : Nat) : Call LayoutBuilder DecoderStateLayout := do
  let textKv ← planCache v.fullAttentionLayers inputs.capacity v.kvHeads v.headDim inputs.kvDtype
    inputs.kvQuantGroup inputs.maxConcurrency physicalPages
  let mtpKv ← planIf (inputs.backend = .mtp)
    (planCache v.mtpLayers inputs.capacity v.kvHeads v.headDim inputs.kvDtype
      inputs.kvQuantGroup inputs.maxConcurrency mtpPages)
  let linearAttention ← planLinearAttentionStatePool (v.linearAttention slots)
  return ⟨textKv, mtpKv, linearAttention⟩

/-- The replay records of a variant. -/
def Variant.replayRecords (v : Variant) (inputs : SequencePlanningInputs) :
    GdnReplayRecordSpec where
  layers := v.gdnLayers
  recordCapacity := inputs.maxConcurrency
  width := inputs.draftWindow + 1
  convChannels := v.convolutionDim
  qkHeads := v.gdnKeyHeads
  valueHeads := v.gdnValueHeads
  keyDim := v.gdnKeyHeadDim
  valueDim := v.gdnValueHeadDim

/-- `DFlashPersistentLayout`. -/
structure DFlashPersistentLayout where
  localCache : List TensorRegion
  rewriteCheckpointLocal : List TensorRegion
  full : PagedKVPoolLayout
  features : List TensorRegion
  deriving DecidableEq, Repr

/-- The pool of the full attention layer of DFlash. -/
def DFlashConfig.fullPool (config : DFlashConfig) (inputs : SequencePlanningInputs)
    (physicalPages logicalPages : Nat) : PagedKVPoolSpec where
  pageGroupCount := physicalPages
  logicalPageCapacity := logicalPages
  tableRows := inputs.maxConcurrency
  planeOrder := .headMajor
  planes := [⟨.bf16, config.headDim, config.kvHeads⟩, ⟨.bf16, config.headDim, config.kvHeads⟩]

/-- The state of DFlash. -/
def planDFlash (config : DFlashConfig) (inputs : SequencePlanningInputs)
    (physicalPages logicalPages chunk : Nat) : Call LayoutBuilder DFlashPersistentLayout := do
  let localCache ← planCyclicKVCache config.localLayers config.localCapacity config.kvHeads
    config.headDim inputs.maxConcurrency
  let checkpoint ← planCyclicKVCache config.localLayers config.localCapacity config.kvHeads
    config.headDim inputs.maxConcurrency
  let full ← planPagedKVPool (config.fullPool inputs physicalPages logicalPages)
  let features ← addTensors
    [⟨.bf16, [config.featureRows, chunk], "DFlash prefill target features"⟩,
      ⟨.i32, [chunk], "DFlash prefill target positions"⟩,
      ⟨.bf16, [config.featureRows, inputs.draftWindow + 1, inputs.maxConcurrency],
        "DFlash pending target features"⟩]
  return ⟨localCache, checkpoint, full, features⟩

/-- The round state of a variant. -/
def Variant.roundState (v : Variant) (inputs : SequencePlanningInputs) : RoundStateSpec where
  hidden := v.hidden
  outputRows := v.outputRows
  batchCapacity := inputs.maxConcurrency
  draftWindow := inputs.draftWindow
  enableMtp := inputs.backend = .mtp
  enableDFlash := inputs.backend = .dflash

/-- The last regions of `persistent_layout`. -/
def tailRequests (v : Variant) (inputs : SequencePlanningInputs) : List TensorRequest :=
  let configWords := (samplingConfigBytes + 4 - 1) / 4
  [⟨.i32, [v.tokenDomain, inputs.maxConcurrency], "sampling token counts"⟩,
    ⟨.i32, [configWords, inputs.maxConcurrency], "sampling config"⟩,
    ⟨.bf16, [v.hidden, inputs.maxConcurrency], "tail hidden"⟩,
    ⟨.bf16, [v.hidden, inputs.maxConcurrency], "rewrite checkpoint hidden"⟩]

/-- `PersistentLayout`. -/
structure PersistentLayout where
  decoder : DecoderStateLayout
  replayRecords : Option (List TensorRegion)
  dflash : Option DFlashPersistentLayout
  round : List LayoutRegion
  prefillHidden : TensorRegion
  tail : List TensorRegion
  bytes : Nat
  deriving DecidableEq, Repr

/-- The DFlash part of `persistent_layout`, of a variant that supports it. -/
def planVariantDFlash (v : Variant) (inputs : SequencePlanningInputs)
    (physicalPages logicalPages chunk : Nat) :
    Call LayoutBuilder (Option DFlashPersistentLayout) :=
  match v.dflash with
  | some config =>
    planIf (inputs.backend = .dflash) (planDFlash config inputs physicalPages logicalPages chunk)
  | none => pure none

/-- The regions of `persistent_layout`; its size is filled in by `finish`. -/
def planRegions (v : Variant) (inputs : SequencePlanningInputs)
    (slots logicalPages physicalPages mtpPages : Nat) : Call LayoutBuilder PersistentLayout := do
  let chunk := min inputs.prefillChunk inputs.capacity
  let decoder ← planDecoderState v inputs slots physicalPages mtpPages
  let replayRecords ← planIf (inputs.backend ≠ .none)
    (planGdnReplayRecords (v.replayRecords inputs))
  let dflash ← planVariantDFlash v inputs physicalPages logicalPages chunk
  let begun ← beginRoundStateLayout (v.roundState inputs)
  let prefillHidden ← addTensor .bf16 [v.hidden, chunk] "step prefill hidden"
  let completed ← completeRoundStateLayout (v.roundState inputs)
  let tail ← addTensors (tailRequests v inputs)
  return ⟨decoder, replayRecords, dflash, begun ++ completed, prefillHidden, tail, 0⟩

/-- `persistent_layout`. -/
def persistentLayout (v : Variant) (inputs : SequencePlanningInputs) (mainPageGroups : Nat) :
    Except Exception PersistentLayout := do
  let slots ← stateSlotCount inputs.maxConcurrency
  let logicalPages ← pageCount inputs.capacity
  let mtpPages ← mtpPhysicalPages inputs mainPageGroups
  match planRegions v inputs slots logicalPages mainPageGroups mtpPages .fresh with
  | .error e _ => .error e
  | .ok layout builder => do
    let bytes ← builder.finish kArenaAlign "persistent layout"
    return { layout with bytes := bytes }

/-! ## The reservation -/

/-- `GraphExecutionProfile`. -/
structure GraphExecutionProfile where
  min : Nat
  max : Nat
  topologyClass : Nat
  deriving DecidableEq, Repr

/-- What the plan takes from elsewhere: the capacity of the workspace plan, and the graph profiles
of the variant. -/
structure Leaves where
  workspace : SequencePlanningInputs → Except Exception Nat
  mtpGraphProfiles : (capacity draftWindow : Nat) → List GraphExecutionProfile
  dflashGraphProfiles : (capacity draftWindow batchSize : Nat) → List GraphExecutionProfile

/-- `checked_add` of the planner. -/
def checkedAdd (a b : Nat) (label : String) : Except Exception Nat := do
  check (b ≤ U64.size - 1 - a) (.overflowError label)
  return a + b

/-- `checked_mul` of the planner. -/
def checkedMul (a b : Nat) (label : String) : Except Exception Nat := do
  check (b = 0 ∨ a ≤ (U64.size - 1) / b) (.overflowError label)
  return a * b

/-- `kMiB`. -/
def kMiB : Nat := 1024 * 1024

/-- The loop of `graph_topology_allowance` over the profiles: the largest allowance of each
class. -/
def topologyClasses (allowance : GraphExecutionProfile → Nat) :
    List (Nat × Nat) → List GraphExecutionProfile → List (Nat × Nat)
  | classes, [] => classes
  | classes, profile :: profiles =>
    let bytes := allowance profile
    let classes' :=
      if classes.any fun entry => entry.1 == profile.topologyClass then
        classes.map fun entry =>
          if entry.1 = profile.topologyClass then (entry.1, Nat.max entry.2 bytes) else entry
      else classes ++ [(profile.topologyClass, bytes)]
    topologyClasses allowance classes' profiles

/-- `graph_topology_allowance`. -/
def graphTopologyAllowance (profiles : List GraphExecutionProfile)
    (allowance : GraphExecutionProfile → Nat) (label : String) : Except Exception Nat :=
  (topologyClasses allowance [] profiles).foldlM (fun total entry =>
    checkedAdd total entry.2 label) 0

/-- The allowance of a profile: a small one while no more than 4096 keys are visible. -/
def profileAllowance (capacity ahead small large : Nat) (profile : GraphExecutionProfile) : Nat :=
  (if Nat.min capacity (profile.max + ahead) ≤ 4096 then small else large) * kMiB

/-- `graph_allowance_bytes`. -/
def graphAllowance (leaves : Leaves) (inputs : SequencePlanningInputs) : Except Exception Nat :=
  if inputs.useCudaGraph = false then .ok 0
  else
    match inputs.backend with
    | .none => checkedMul (12 * kMiB) inputs.maxConcurrency "ordinary exact-b graph allowance"
    | .mtp => do
      let perBatch ← graphTopologyAllowance
        (leaves.mtpGraphProfiles inputs.capacity inputs.draftWindow)
        (profileAllowance inputs.capacity (2 * inputs.draftWindow) 12 82) "MTP graph allowance"
      checkedMul perBatch inputs.maxConcurrency "MTP exact-b graph allowance"
    | .dflash =>
      (List.range inputs.maxConcurrency).foldlM (fun total i => do
        let bytes ← graphTopologyAllowance
          (leaves.dflashGraphProfiles inputs.capacity inputs.draftWindow (i + 1))
          (profileAllowance inputs.capacity (inputs.draftWindow + 1) 64 96)
          "DFlash graph allowance"
        checkedAdd total bytes "DFlash exact-b graph allowance") 0

/-- `request_transient_capacity_bytes`. -/
def requestTransient (v : Variant) (inputs : SequencePlanningInputs) : Except Exception Nat :=
  if inputs.vision = true then outputTransientBytes v.hidden (min inputs.capacity 32768) else .ok 0

/-- `SequencePlanImpl`, as far as the planning is concerned. -/
structure SequencePlan where
  mainPageGroups : Nat
  kvCapacity : Nat
  persistent : PersistentLayout
  deviceReservationBytes : Nat
  deriving DecidableEq, Repr

/-- `build_sequence_candidate`. -/
def buildSequenceCandidate (v : Variant) (leaves : Leaves) (inputs : SequencePlanningInputs)
    (mainPageGroups : Nat) : Except Exception SequencePlan := do
  check (mainPageGroups ≠ 0) (.invalidArgument "Main KV physical page count must be positive")
  let kvCapacity ← checkedI32 (mainPageGroups * kPagedKVPageSize)
    "resolved Paged KV capacity exceeds int32"
  let persistent ← persistentLayout v inputs mainPageGroups
  let workspace ← leaves.workspace inputs
  let transient ← requestTransient v inputs
  let graphs ← graphAllowance leaves inputs
  let memory ← checkedAdd persistent.bytes workspace "sequence memory plan"
  let withTransient ← checkedAdd memory transient "request transient reservation"
  let reservation ← checkedAdd withTransient graphs "sequence graph allowance"
  return ⟨mainPageGroups, kvCapacity, persistent, reservation⟩

/-- `SequenceCapacityCurve`. -/
structure SequenceCapacityCurve where
  mainPageTokens : Nat
  minimumMainPageGroups : Nat
  maximumMainPageGroups : Nat
  minimumDeviceReservationBytes : Nat
  bytesPerAdditionalMainPageGroup : Nat
  deriving DecidableEq, Repr

/-- `SequencePlannerImpl`. -/
structure SequencePlanner where
  inputs : SequencePlanningInputs
  curve : SequenceCapacityCurve
  minimum : SequencePlan

/-- The inputs `make_sequence_planner_impl` takes from the options. -/
def EngineOptions.planningInputs (options : EngineOptions) : SequencePlanningInputs where
  capacity := options.maxContext
  maxConcurrency := options.maxConcurrency
  prefillChunk := min options.prefillChunk options.maxContext
  draftWindow := options.draftTokens
  backend := options.backend
  kvDtype := if options.kvCache = .bfloat16 then .bf16 else .i8
  kvQuantGroup := if options.kvCache = .bfloat16 then 0 else kKvQuantGroup
  proposalHead := options.proposalHead
  vision := options.enableVision
  useCudaGraph := options.useCudaGraph

/-- The stride of the curve: the difference of two adjacent candidates, if there are two. -/
def curveStride (v : Variant) (leaves : Leaves) (inputs : SequencePlanningInputs)
    (minimum : SequencePlan) (minimumPages maximumPages : Nat) : Except Exception Nat :=
  if minimumPages < maximumPages then do
    let adjacent ← buildSequenceCandidate v leaves inputs (minimumPages + 1)
    check (minimum.deviceReservationBytes < adjacent.deviceReservationBytes)
      (.logicError "Qwen3.6 sequence layout has a nonpositive KV capacity stride")
    return adjacent.deviceReservationBytes - minimum.deviceReservationBytes
  else .ok 0

/-- `make_sequence_planner_impl`. -/
def makeSequencePlanner (v : Variant) (leaves : Leaves) (sm : Nat) (options : EngineOptions) :
    Except Exception SequencePlanner := do
  validateTargetOptions v sm options
  let inputs := options.planningInputs
  let logicalPages ← pageCount inputs.capacity
  let minimumPages := max logicalPages inputs.maxConcurrency
  let maximumPages := inputs.maxConcurrency * logicalPages
  check (maximumPages ≤ uint32Max)
    (.overflowError "maximum Main KV page count exceeds uint32")
  let minimum ← buildSequenceCandidate v leaves inputs minimumPages
  let stride ← curveStride v leaves inputs minimum minimumPages maximumPages
  return ⟨inputs, ⟨kPagedKVPageSize, minimumPages, maximumPages,
    minimum.deviceReservationBytes, stride⟩, minimum⟩

end Ninfer.Qwen.Layouts
