import Ninfer.Core.Planning
import Ninfer.Qwen.Capacity
import Ninfer.Qwen.GraphProfiles

/-!
# The device memory plan is a line

Every planner takes a size that does not depend on where it starts, and among the regions of the
persistent allocation only the planes of the paged pools depend on the number of page groups. A
page of a plane is a multiple of the alignment, so that a plane is never padded, and the whole
allocation is affine in the number of page groups. Two probes therefore tell the reservation of
every other layout.

## Main definitions

* `Variant.Extents`: what the planners need of the extents of a variant
* `SequencePlanningInputs.Valid`: what a validated option set is planned with

## Main results

* `plans_planPagedKVPool`: a pool takes a fixed size for every page group
* `exists_affine_regions`: the regions of the persistent allocation
* `exists_affine_candidate`: the reservation
* `reservation_affine`: the plan that is finalized has the predicted reservation
-/

namespace Ninfer.Qwen.Layouts

open Ninfer.Core (DType LayoutBuilder LayoutRegion TensorRegion Plans SmallShape tensorBytes kArenaAlign
  dtypeSize plans_bind plans_pure plans_map plans_bind_pure plans_ofExcept_bind plans_add)
open PagedKV (kPagedKVPageSize int32Max)

/-! ## Steps of a planner -/

section Steps

variable {α : Type} {n : Nat}

/-- A check that passes takes nothing. -/
theorem plans_require {p : Prop} [Decidable p] {e : Exception}
    {f : Unit → Call LayoutBuilder α} (h : p) (hf : Plans (f ()) n) :
    Plans (require p e >>= f) n :=
  plans_ofExcept_bind (check_of h) hf

theorem plans_planIf {p : Prop} [Decidable p] {c : Call LayoutBuilder α}
    (h : p → Plans c n) : Plans (planIf p c) (if p then n else 0) := by
  unfold planIf
  split_ifs with hp
  · exact plans_map (h hp)
  · exact plans_pure none

theorem plans_addTensor {dtype : DType} {shape : List Nat} (label : String)
    (h : SmallShape shape) : Plans (addTensor dtype shape label) (tensorBytes dtype shape) :=
  Core.plans_addTensor label h

/-- The room a list of tensors takes. -/
def requestBytes (requests : List TensorRequest) : Nat :=
  (requests.map fun request => tensorBytes request.dtype request.shape).sum

/-- All tensors of a list are small. -/
def AllSmall : List TensorRequest → Prop
  | [] => True
  | request :: requests => SmallShape request.shape ∧ AllSmall requests

theorem allSmall_of_forall {requests : List TensorRequest}
    (h : ∀ request ∈ requests, SmallShape request.shape) : AllSmall requests := by
  induction requests with
  | nil => trivial
  | cons request requests ih =>
    exact ⟨h request List.mem_cons_self, ih fun r hr => h r (List.mem_cons_of_mem _ hr)⟩

theorem plans_addTensors {requests : List TensorRequest} (h : AllSmall requests) :
    Plans (addTensors requests) (requestBytes requests) := by
  induction requests with
  | nil => exact plans_pure []
  | cons request requests ih =>
    unfold addTensors requestBytes
    rw [List.map_cons, List.sum_cons]
    apply plans_bind (plans_addTensor _ h.1)
    intro region
    exact plans_bind_pure (ih h.2)

end Steps

/-! ## Pools -/

/-- The bytes of a page of a plane. -/
def PagedKVPlaneSpec.pageBytes (plane : PagedKVPlaneSpec) : Nat :=
  plane.leadingExtent * (kPagedKVPageSize * plane.headExtent) * dtypeSize plane.dtype

/-- A plane whose pages are aligned. -/
structure PagedKVPlaneSpec.Regular (plane : PagedKVPlaneSpec) : Prop where
  leading_pos : 0 < plane.leadingExtent
  leading_le : plane.leadingExtent ≤ 2 ^ 8
  head_pos : 0 < plane.headExtent
  head_le : plane.headExtent ≤ 2 ^ 16
  aligned : kArenaAlign ∣ plane.pageBytes

/-- The bytes of a page of all planes. -/
def pageBytes (planes : List PagedKVPlaneSpec) : Nat :=
  (planes.map PagedKVPlaneSpec.pageBytes).sum

section Pools

variable {plane : PagedKVPlaneSpec} {order : PagedKVPlaneOrder} {pages : Nat}

theorem PagedKVPlaneSpec.Regular.smallShape (h : plane.Regular) (hpos : 0 < pages)
    (hle : pages ≤ 2 ^ 16) : SmallShape (plane.shape order pages) := by
  have hpage : 0 < kPagedKVPageSize ∧ kPagedKVPageSize ≤ 2 ^ 16 := by decide
  cases order with
  | pageMajor =>
    exact ⟨⟨h.leading_pos, h.leading_le⟩, hpage, ⟨h.head_pos, h.head_le⟩, hpos, hle⟩
  | headMajor =>
    exact ⟨⟨h.leading_pos, h.leading_le⟩, hpage, ⟨hpos, hle⟩, h.head_pos, h.head_le⟩

/-- A plane of aligned pages is not padded, in either order of its extents. -/
theorem PagedKVPlaneSpec.Regular.tensorBytes_eq (h : plane.Regular) :
    tensorBytes plane.dtype (plane.shape order pages) = pages * plane.pageBytes := by
  have hprod : (plane.shape order pages).prod * dtypeSize plane.dtype =
      pages * plane.pageBytes := by
    unfold PagedKVPlaneSpec.shape PagedKVPlaneSpec.pageBytes
    cases order with
    | pageMajor =>
      simp only [List.prod_cons, List.prod_nil, Nat.mul_one]
      ac_rfl
    | headMajor =>
      simp only [List.prod_cons, List.prod_nil, Nat.mul_one]
      ac_rfl
  unfold tensorBytes
  rw [hprod]
  exact roundUp_of_dvd (by decide) (Nat.dvd_mul_left_of_dvd h.aligned pages)

theorem plans_planPlanes {planes : List PagedKVPlaneSpec} (index : Nat) (hpos : 0 < pages)
    (hle : pages ≤ 2 ^ 16) (h : ∀ plane ∈ planes, plane.Regular) :
    Plans (planPlanes order pages index planes) (pages * pageBytes planes) := by
  induction planes generalizing index with
  | nil => exact plans_pure []
  | cons plane planes ih =>
    have hplane := h plane List.mem_cons_self
    unfold planPlanes pageBytes
    rw [List.map_cons, List.sum_cons, Nat.mul_add, ← hplane.tensorBytes_eq]
    apply plans_require ⟨hplane.leading_pos, hplane.head_pos⟩
    apply plans_bind (plans_addTensor _ (hplane.smallShape hpos hle))
    intro storage
    exact plans_bind_pure (ih (index + 1) fun p hp => h p (List.mem_cons_of_mem _ hp))

/-- The block tables of a pool. -/
def PagedKVPoolSpec.tableBytes (spec : PagedKVPoolSpec) : Nat :=
  tensorBytes .i32 [spec.logicalPageCapacity, spec.tableRows]

/-- A pool takes a fixed size for every page group. -/
theorem plans_planPagedKVPool {spec : PagedKVPoolSpec}
    (hpages : 0 < spec.pageGroupCount ∧ spec.pageGroupCount ≤ 2 ^ 16)
    (hlogical : 0 < spec.logicalPageCapacity ∧ spec.logicalPageCapacity ≤ 2 ^ 18)
    (hrows : 0 < spec.tableRows ∧ spec.tableRows ≤ 2 ^ 18) (hplanes : spec.planes ≠ [])
    (h : ∀ plane ∈ spec.planes, plane.Regular) :
    Plans (planPagedKVPool spec)
      (spec.pageGroupCount * pageBytes spec.planes + spec.tableBytes) := by
  have hmax : 2 ^ 18 ≤ int32Max := by decide
  unfold planPagedKVPool
  apply plans_require ⟨hpages.1, by omega⟩
  apply plans_require ⟨hlogical.1, by omega⟩
  apply plans_require hrows.1
  apply plans_require hplanes
  apply plans_bind (plans_planPlanes 0 hpages.1 hpages.2 h)
  intro planes
  exact plans_bind_pure (plans_addTensor _ ⟨hlogical, hrows⟩)

end Pools

/-! ## Variants and inputs -/

/-- What the planners need of the extents of DFlash. -/
structure DFlashConfig.Extents (config : DFlashConfig) : Prop where
  layers_pos : 0 < config.localLayers
  capacity_pos : 0 < config.localCapacity
  capacity_le : config.localCapacity ≤ 2 ^ 15
  kvHeads_pos : 0 < config.kvHeads
  kvHeads_le : config.kvHeads ≤ 2 ^ 16
  headDim_pos : 0 < config.headDim
  headDim_le : config.headDim ≤ 2 ^ 8
  features_pos : 0 < config.featureRows
  features_le : config.featureRows ≤ 2 ^ 18
  aligned : kArenaAlign ∣ (PagedKVPlaneSpec.mk .bf16 config.headDim config.kvHeads).pageBytes

/-- What the planners need of the extents of a variant. -/
structure Variant.Extents (v : Variant) : Prop where
  hidden_pos : 0 < v.hidden
  hidden_le : v.hidden ≤ 2 ^ 18
  output_pos : 0 < v.outputRows
  output_le : v.outputRows ≤ 2 ^ 18
  tokens_pos : 0 < v.tokenDomain
  tokens_le : v.tokenDomain ≤ 2 ^ 18
  layers_pos : 0 < v.fullAttentionLayers
  layers_le : v.fullAttentionLayers ≤ int32Max
  gdn_pos : 0 < v.gdnLayers
  gdn_le : v.gdnLayers ≤ 2 ^ 12
  convolution_pos : 0 < v.convolutionDim
  convolution_le : v.convolutionDim ≤ 2 ^ 18
  width_pos : 0 < v.gdnConvStateWidth
  width_le : v.gdnConvStateWidth ≤ 2 ^ 18
  keyHeads_pos : 0 < v.gdnKeyHeads
  keyHeads_le : v.gdnKeyHeads ≤ 2 ^ 16
  keyDim_pos : 0 < v.gdnKeyHeadDim
  keyDim_le : v.gdnKeyHeadDim ≤ 2 ^ 8
  valueHeads_pos : 0 < v.gdnValueHeads
  valueHeads_le : v.gdnValueHeads ≤ 2 ^ 16
  valueDim_pos : 0 < v.gdnValueHeadDim
  valueDim_le : v.gdnValueHeadDim ≤ 2 ^ 8
  grouped : v.gdnValueHeads % v.gdnKeyHeads = 0
  kvHeads_pos : 0 < v.kvHeads
  kvHeads_le : v.kvHeads ≤ 2 ^ 16
  headDim_le : v.headDim ≤ 2 ^ 8
  quantized : 0 < v.headDim / kKvQuantGroup ∧ v.headDim % kKvQuantGroup = 0
  aligned : ∀ dtype ∈ [DType.bf16, DType.i8],
    kArenaAlign ∣ (PagedKVPlaneSpec.mk dtype v.headDim v.kvHeads).pageBytes
  scaleAligned :
    kArenaAlign ∣ (PagedKVPlaneSpec.mk .fp16 (v.headDim / kKvQuantGroup) v.kvHeads).pageBytes
  mtp_pos : 0 < v.mtpLayers
  mtp_le : v.mtpLayers ≤ int32Max
  dflash : ∀ config, v.dflash = some config → config.Extents
  context_le : v.maximumContext ≤ 2 ^ 18
  drafts_le : v.maximumMtpDraftTokens ≤ 5 ∧ v.maximumDFlashDraftTokens ≤ 15

theorem Variant.Extents.headDim_pos {v : Variant} (h : v.Extents) : 0 < v.headDim := by
  have hq := h.quantized.1
  unfold kKvQuantGroup at hq
  omega

theorem extents_qwen27b : qwen27b.Extents := by
  constructor
  case dflash => exact fun config h => nomatch h
  all_goals decide

theorem extents_qwen35bA3b : qwen35bA3b.Extents := by
  constructor
  case dflash =>
    intro config h
    cases h
    constructor <;> decide
  all_goals decide

/-- What a validated option set is planned with. -/
structure SequencePlanningInputs.Valid (v : Variant) (inputs : SequencePlanningInputs) : Prop where
  capacity_pos : 0 < inputs.capacity
  capacity_le : inputs.capacity ≤ 2 ^ 18
  concurrency_pos : 0 < inputs.maxConcurrency
  concurrency_le : inputs.maxConcurrency ≤ 8
  chunk_pos : 0 < inputs.prefillChunk
  mtp : inputs.backend = .mtp → 0 < inputs.draftWindow ∧ inputs.draftWindow ≤ 5
  dflash : inputs.backend = .dflash → 0 < inputs.draftWindow ∧ inputs.draftWindow ≤ 15
  none : inputs.backend = .none → inputs.draftWindow = 0
  storage : (inputs.kvDtype = .bf16 ∧ inputs.kvQuantGroup = 0) ∨
    (inputs.kvDtype = .i8 ∧ inputs.kvQuantGroup = kKvQuantGroup)

namespace SequencePlanningInputs.Valid

variable {v : Variant} {inputs : SequencePlanningInputs}

theorem batch_small (h : inputs.Valid v) :
    0 < inputs.maxConcurrency ∧ inputs.maxConcurrency ≤ 2 ^ 18 :=
  ⟨h.concurrency_pos, Nat.le_trans h.concurrency_le (by decide)⟩

theorem draft_le (h : inputs.Valid v) : inputs.draftWindow ≤ 15 := by
  cases hb : inputs.backend with
  | none => rw [h.none hb]; decide
  | mtp => exact Nat.le_trans (h.mtp hb).2 (by decide)
  | dflash => exact (h.dflash hb).2

end SequencePlanningInputs.Valid

theorem valid_of_options {v : Variant} {sm : Nat} {options : EngineOptions} (hv : v.Extents)
    (h : validateTargetOptions v sm options = .ok ()) : options.planningInputs.Valid v := by
  obtain ⟨hcontext, h⟩ := check_bind_eq_ok.mp h
  obtain ⟨hchunk, h⟩ := check_bind_eq_ok.mp h
  obtain ⟨hconcurrency, h⟩ := check_bind_eq_ok.mp h
  obtain ⟨logical, -, h⟩ := bind_eq_ok.mp h
  obtain ⟨-, h⟩ := check_bind_eq_ok.mp h
  obtain ⟨⟨⟩, -, h⟩ := bind_eq_ok.mp h
  obtain ⟨⟨⟩, hbackend, -⟩ := bind_eq_ok.mp h
  have hdrafts := hv.drafts_le
  have hmax := hv.context_le
  refine
    { capacity_pos := Nat.pos_of_ne_zero hcontext.1
      capacity_le := Nat.le_trans hcontext.2 hmax
      concurrency_pos := Nat.pos_of_ne_zero hconcurrency.1
      concurrency_le := hconcurrency.2
      chunk_pos := ?_
      mtp := ?_
      dflash := ?_
      none := ?_
      storage := ?_ }
  · show 0 < min options.prefillChunk options.maxContext
    omega
  · intro hb
    change options.backend = .mtp at hb
    simp only [validateBackend, hb] at hbackend
    have hd : options.draftTokens ≠ 0 ∧ options.draftTokens ≤ v.maximumMtpDraftTokens := by
      by_contra hno
      rw [check, if_neg hno] at hbackend
      cases hbackend
    show 0 < options.draftTokens ∧ options.draftTokens ≤ 5
    omega
  · intro hb
    change options.backend = .dflash at hb
    simp only [validateBackend, hb] at hbackend
    obtain ⟨-, hbackend⟩ := check_bind_eq_ok.mp hbackend
    obtain ⟨hd, -⟩ := check_bind_eq_ok.mp hbackend
    show 0 < options.draftTokens ∧ options.draftTokens ≤ 15
    omega
  · intro hb
    change options.backend = .none at hb
    simp only [validateBackend, hb] at hbackend
    by_contra hno
    rw [check, if_neg fun hd => hno hd.1] at hbackend
    cases hbackend
  · unfold EngineOptions.planningInputs
    by_cases hs : options.kvCache = .bfloat16
    · simp [hs]
    · simp [hs]

/-! ## The planners -/

section Planners

variable {v : Variant} {inputs : SequencePlanningInputs}

theorem pageCount_le {capacity logical : Nat} (hcapacity : capacity ≤ 2 ^ 18)
    (h : pageCount capacity = .ok logical) : 0 < logical ∧ logical ≤ 2 ^ 12 := by
  obtain ⟨hpos, h⟩ := check_bind_eq_ok.mp h
  cases h
  unfold kPagedKVPageSize
  omega

/-- The planes of a layer are regular, quantized or not. -/
theorem regular_layerPlanes (hv : v.Extents) (h : inputs.Valid v) {plane : PagedKVPlaneSpec}
    (hplane : plane ∈ layerPlanes inputs.kvDtype v.kvHeads v.headDim inputs.kvQuantGroup) :
    plane.Regular := by
  have hq := hv.quantized
  rcases h.storage with ⟨hd, hg⟩ | ⟨hd, hg⟩
  · simp only [layerPlanes, hd, List.mem_append, List.mem_cons, List.not_mem_nil, or_false,
      reduceCtorEq, ↓reduceIte, or_self] at hplane
    rw [hplane]
    exact ⟨hv.headDim_pos, hv.headDim_le, hv.kvHeads_pos, hv.kvHeads_le,
      hv.aligned .bf16 (by decide)⟩
  · simp only [layerPlanes, hd, hg, List.mem_append, List.mem_cons, List.not_mem_nil, or_false,
      ↓reduceIte, or_self] at hplane
    rcases hplane with rfl | rfl
    · exact ⟨hv.headDim_pos, hv.headDim_le, hv.kvHeads_pos, hv.kvHeads_le,
        hv.aligned .i8 (by decide)⟩
    · refine ⟨hq.1, ?_, hv.kvHeads_pos, hv.kvHeads_le, hv.scaleAligned⟩
      exact Nat.le_trans (Nat.div_le_self _ _) hv.headDim_le

/-- The planes of a cache. -/
def cachePlanes (v : Variant) (inputs : SequencePlanningInputs) (layers : Nat) :
    List PagedKVPlaneSpec :=
  (List.replicate layers
    (layerPlanes inputs.kvDtype v.kvHeads v.headDim inputs.kvQuantGroup)).flatten

/-- The block tables of a cache. -/
def tableBytes (inputs : SequencePlanningInputs) (logical : Nat) : Nat :=
  tensorBytes .i32 [logical, inputs.maxConcurrency]

theorem plans_planCache (hv : v.Extents) (h : inputs.Valid v) {layers pages logical : Nat}
    (hlayers : 0 < layers) (hlayersLe : layers ≤ int32Max)
    (hlogical : pageCount inputs.capacity = .ok logical) (hle : logical ≤ pages)
    (hpages : pages ≤ 2 ^ 16) :
    Plans (planCache layers inputs.capacity v.kvHeads v.headDim inputs.kvDtype
        inputs.kvQuantGroup inputs.maxConcurrency pages)
      (pages * pageBytes (cachePlanes v inputs layers) + tableBytes inputs logical) := by
  have hbound := pageCount_le h.capacity_le hlogical
  have hrows := h.concurrency_le
  unfold planCache
  apply plans_require ⟨Nat.pos_iff_ne_zero.mp hlayers, hlayersLe, hv.kvHeads_pos, hv.headDim_pos,
    h.concurrency_pos⟩
  apply plans_require
  · rcases h.storage with ⟨hd, hg⟩ | ⟨hd, hg⟩
    · simp [hd, hg]
    · simpa [hd, hg] using hv.quantized.2
  apply plans_ofExcept_bind hlogical
  apply plans_require hle
  refine plans_planPagedKVPool ⟨by show 0 < pages; omega, hpages⟩ ⟨hbound.1, ?_⟩
    ⟨h.concurrency_pos, ?_⟩ ?_ ?_
  · show logical ≤ _
    omega
  · show inputs.maxConcurrency ≤ _
    omega
  · obtain ⟨n, rfl⟩ : ∃ n, layers = n + 1 := ⟨layers - 1, by omega⟩
    simp [List.replicate_succ, layerPlanes]
  · intro plane hplane
    obtain ⟨planes, hmem, hplane⟩ := List.mem_flatten.mp hplane
    rw [List.eq_of_mem_replicate hmem] at hplane
    exact regular_layerPlanes hv h hplane

theorem plans_planLinearLayers {conv recurrent : Core.Tensor} {convBytes recurrentBytes : Nat}
    (hconv : conv.bytes = .ok convBytes) (hrecurrent : recurrent.bytes = .ok recurrentBytes)
    (layer layers : Nat) :
    Plans (planLinearLayers conv recurrent layer layers)
      (layers * (roundUp convBytes kArenaAlign + roundUp recurrentBytes kArenaAlign)) := by
  induction layers generalizing layer with
  | zero =>
    rw [Nat.zero_mul]
    exact plans_pure []
  | succ layers ih =>
    have hconvPos := Core.Tensor.bytes_pos hconv
    have hrecurrentPos := Core.Tensor.bytes_pos hrecurrent
    have hsize (a b c : Nat) : (c + 1) * (a + b) = a + (b + c * (a + b)) := by
      rw [Nat.succ_mul]
      omega
    unfold planLinearLayers
    rw [hsize]
    apply plans_ofExcept_bind hconv
    apply plans_bind (plans_add _ (by omega))
    intro conv'
    apply plans_ofExcept_bind hrecurrent
    apply plans_bind (plans_add _ (by omega))
    intro recurrent'
    exact plans_bind_pure (ih (layer + 1))

theorem exists_plans_linearAttention (hv : v.Extents) {slots : Nat} (hslots : 0 < slots)
    (hle : slots ≤ 2 ^ 16) :
    ∃ n, Plans (planLinearAttentionStatePool (v.linearAttention slots)) n := by
  have hgdn := hv.gdn_le
  have hmax : 2 ^ 12 ≤ int32Max := by decide
  have hconvShape : SmallShape [v.convolutionDim, v.gdnConvStateWidth, slots] :=
    ⟨⟨hv.convolution_pos, hv.convolution_le⟩, ⟨hv.width_pos, hv.width_le⟩, hslots, by omega⟩
  have hvalueDim : v.gdnValueHeadDim ≤ 2 ^ 16 := Nat.le_trans hv.valueDim_le (by decide)
  have hrecurrentShape :
      SmallShape [v.gdnKeyHeadDim, v.gdnValueHeadDim, v.gdnValueHeads, slots] :=
    ⟨⟨hv.keyDim_pos, hv.keyDim_le⟩, ⟨hv.valueDim_pos, hvalueDim⟩,
      ⟨hv.valueHeads_pos, hv.valueHeads_le⟩, hslots, hle⟩
  obtain ⟨conv, hconv, hconvBytes⟩ := Core.exists_tensor .bf16 hconvShape
  obtain ⟨recurrent, hrecurrent, hrecurrentBytes⟩ := Core.exists_tensor .fp32 hrecurrentShape
  obtain ⟨n, hlayers⟩ : ∃ n, Plans (planLinearLayers conv recurrent 0 v.gdnLayers) n :=
    ⟨_, plans_planLinearLayers hconvBytes hrecurrentBytes 0 v.gdnLayers⟩
  refine ⟨n, ?_⟩
  unfold planLinearAttentionStatePool
  apply plans_require (Nat.pos_iff_ne_zero.mp hv.gdn_pos)
  apply plans_require (show v.gdnLayers ≤ int32Max by omega)
  apply plans_require hv.convolution_pos
  apply plans_require hv.width_pos
  apply plans_require hv.valueHeads_pos
  apply plans_require hv.valueDim_pos
  apply plans_require hv.keyDim_pos
  apply plans_require hslots
  apply plans_require (Or.inl rfl)
  apply plans_ofExcept_bind hconv
  apply plans_ofExcept_bind hrecurrent
  exact hlayers

theorem exists_plans_replayRecords (hv : v.Extents) (h : inputs.Valid v) :
    ∃ n, Plans (planGdnReplayRecords (v.replayRecords inputs)) n := by
  have hdraft := h.draft_le
  have hconcurrency := h.concurrency_le
  have houter : v.gdnLayers * inputs.maxConcurrency ≤ 2 ^ 12 * 8 :=
    Nat.mul_le_mul hv.gdn_le hconcurrency
  have houterPos : 0 < v.gdnLayers * inputs.maxConcurrency :=
    Nat.mul_pos hv.gdn_pos h.concurrency_pos
  have hlayers : v.gdnLayers ≤ int32Max / inputs.maxConcurrency := by
    apply (Nat.le_div_iff_mul_le h.concurrency_pos).mpr
    exact Nat.le_trans houter (by decide)
  have hvalidate : (v.replayRecords inputs).validate = .ok () := by
    apply check_bind_eq_ok.mpr ⟨hv.gdn_pos, ?_⟩
    apply check_bind_eq_ok.mpr ⟨h.concurrency_pos, ?_⟩
    apply check_bind_eq_ok.mpr ⟨Nat.succ_pos _, ?_⟩
    apply check_bind_eq_ok.mpr ⟨hv.convolution_pos, ?_⟩
    apply check_bind_eq_ok.mpr ⟨hv.keyHeads_pos, ?_⟩
    apply check_bind_eq_ok.mpr ⟨hv.valueHeads_pos, ?_⟩
    apply check_bind_eq_ok.mpr ⟨hv.keyDim_pos, ?_⟩
    apply check_bind_eq_ok.mpr ⟨hv.valueDim_pos, ?_⟩
    apply check_bind_eq_ok.mpr ⟨hconcurrency, ?_⟩
    apply check_bind_eq_ok.mpr ⟨hv.grouped, ?_⟩
    exact check_of hlayers
  refine ⟨_, plans_ofExcept_bind hvalidate (plans_addTensors ?_)⟩
  have hwidth : 0 < inputs.draftWindow + 1 ∧ inputs.draftWindow + 1 ≤ 2 ^ 16 := by omega
  have hwidthLe : inputs.draftWindow + 1 ≤ 2 ^ 18 := by omega
  have houterLe : v.gdnLayers * inputs.maxConcurrency ≤ 2 ^ 16 := by omega
  have houterLe' : v.gdnLayers * inputs.maxConcurrency ≤ 2 ^ 18 := by omega
  have hvalueHeads := And.intro hv.valueHeads_pos hv.valueHeads_le
  refine ⟨?_, ?_, ?_, ?_, trivial⟩
  · exact ⟨⟨hv.convolution_pos, hv.convolution_le⟩, ⟨hwidth.1, hwidthLe⟩, houterPos, houterLe'⟩
  · exact ⟨⟨hv.keyDim_pos, hv.keyDim_le⟩, ⟨hv.keyHeads_pos, hv.keyHeads_le⟩, hwidth, houterPos,
      houterLe⟩
  · exact ⟨⟨hv.valueDim_pos, hv.valueDim_le⟩, hvalueHeads, hwidth, houterPos, houterLe⟩
  · exact ⟨⟨by decide, by decide⟩, hvalueHeads, hwidth, houterPos, houterLe⟩

theorem exists_plans_cyclicKVCache {config : DFlashConfig} (hc : config.Extents)
    (h : inputs.Valid v) :
    ∃ n, Plans (planCyclicKVCache config.localLayers config.localCapacity config.kvHeads
      config.headDim inputs.maxConcurrency) n := by
  have hcapacity := hc.capacity_le
  have hpadded : roundUp config.localCapacity 128 ≤ 2 ^ 16 :=
    roundUp_le (by decide) (by decide) (by omega)
  have hpaddedPos : config.localCapacity ≤ roundUp config.localCapacity 128 :=
    le_roundUp _ (by decide)
  have hcapacityPos := hc.capacity_pos
  have hmax : 2 ^ 18 ≤ int32Max := by decide
  have hconcurrency := h.concurrency_le
  refine ⟨_, plans_require ?_ (plans_require ?_ (plans_addTensors ?_))⟩
  · exact ⟨Nat.pos_iff_ne_zero.mp hc.layers_pos, by omega, by omega, hc.kvHeads_pos,
      hc.headDim_pos, h.concurrency_pos⟩
  · omega
  · apply allSmall_of_forall
    intro request hrequest
    obtain ⟨layer, -, hrequest⟩ := List.mem_flatMap.mp hrequest
    have hshape : request.shape = [config.headDim, roundUp config.localCapacity 128,
        config.kvHeads, inputs.maxConcurrency] := by
      simp only [cyclicLayer, List.mem_cons, List.not_mem_nil, or_false] at hrequest
      rcases hrequest with rfl | rfl <;> rfl
    rw [hshape]
    exact ⟨⟨hc.headDim_pos, hc.headDim_le⟩, ⟨by omega, hpadded⟩, ⟨hc.kvHeads_pos, hc.kvHeads_le⟩,
      h.concurrency_pos, by omega⟩

/-- DFlash takes a fixed size, and one for every page group. -/
theorem exists_affine_dflash {config : DFlashConfig} (hc : config.Extents) (h : inputs.Valid v)
    {logical chunk : Nat} (hlogical : 0 < logical ∧ logical ≤ 2 ^ 12)
    (hchunk : 0 < chunk ∧ chunk ≤ 2 ^ 18) :
    ∃ base slope, ∀ pages, 0 < pages → pages ≤ 2 ^ 16 →
      Plans (planDFlash config inputs pages logical chunk) (base + slope * pages) := by
  have hdraft := h.draft_le
  have hconcurrency := h.concurrency_le
  obtain ⟨cyclic, hcyclic⟩ := exists_plans_cyclicKVCache hc h
  have hplane : (PagedKVPlaneSpec.mk .bf16 config.headDim config.kvHeads).Regular :=
    ⟨hc.headDim_pos, hc.headDim_le, hc.kvHeads_pos, hc.kvHeads_le, hc.aligned⟩
  obtain ⟨features, hfeatures⟩ : ∃ n, Plans (addTensors
      [⟨.bf16, [config.featureRows, chunk], "DFlash prefill target features"⟩,
        ⟨.i32, [chunk], "DFlash prefill target positions"⟩,
        ⟨.bf16, [config.featureRows, inputs.draftWindow + 1, inputs.maxConcurrency],
          "DFlash pending target features"⟩]) n := by
    have hfeatureRows := And.intro hc.features_pos hc.features_le
    have hcolumns : 0 < inputs.draftWindow + 1 ∧ inputs.draftWindow + 1 ≤ 2 ^ 18 := by omega
    exact ⟨_, plans_addTensors ⟨⟨hfeatureRows, hchunk⟩, hchunk,
      ⟨hfeatureRows, hcolumns, h.batch_small⟩, trivial⟩⟩
  obtain ⟨planes, hplanes⟩ : ∃ n, n = pageBytes
      [⟨.bf16, config.headDim, config.kvHeads⟩, ⟨.bf16, config.headDim, config.kvHeads⟩] :=
    ⟨_, rfl⟩
  refine ⟨cyclic + cyclic + tableBytes inputs logical + features, planes, ?_⟩
  intro pages hpos hle
  have hfull : Plans (planPagedKVPool (config.fullPool inputs pages logical))
      (pages * planes + tableBytes inputs logical) := by
    rw [hplanes]
    refine plans_planPagedKVPool ⟨hpos, hle⟩ ⟨hlogical.1, ?_⟩ ⟨h.concurrency_pos, ?_⟩ ?_ ?_
    · exact Nat.le_trans hlogical.2 (by decide)
    · exact Nat.le_trans hconcurrency (by decide)
    · exact List.cons_ne_nil _ _
    · intro plane hmem
      simp only [DFlashConfig.fullPool, List.mem_cons, List.not_mem_nil, or_false, or_self] at hmem
      rw [hmem]
      exact hplane
  have hsize : cyclic + cyclic + tableBytes inputs logical + features + planes * pages =
      cyclic + (cyclic + (pages * planes + tableBytes inputs logical + features)) := by
    rw [Nat.mul_comm planes pages]
    omega
  rw [hsize]
  apply plans_bind hcyclic
  intro localCache
  apply plans_bind hcyclic
  intro checkpoint
  apply plans_bind hfull
  intro full
  exact plans_bind_pure hfeatures

theorem validate_roundState (hv : v.Extents) (h : inputs.Valid v) :
    (v.roundState inputs).validate = .ok () := by
  have hdraft := h.draft_le
  have hmax : 16 ≤ int32Max := by decide
  have hconcurrency := h.concurrency_pos
  apply check_bind_eq_ok.mpr
  refine ⟨?_, ?_⟩
  · rintro ⟨hm, hd⟩
    simp only [Variant.roundState, decide_eq_true_eq] at hm hd
    rw [hm] at hd
    cases hd
  apply check_bind_eq_ok.mpr ⟨hv.hidden_pos, ?_⟩
  apply check_bind_eq_ok.mpr ⟨hv.output_pos, ?_⟩
  have hmtp : (v.roundState inputs).enableMtp = true → inputs.backend = .mtp := fun he => by
    simpa [Variant.roundState] using he
  have hdflash : (v.roundState inputs).enableDFlash = true → inputs.backend = .dflash :=
    fun he => by simpa [Variant.roundState] using he
  apply check_bind_eq_ok.mpr
  refine ⟨fun he => Nat.pos_iff_ne_zero.mp (h.mtp (hmtp he)).1, ?_⟩
  apply check_bind_eq_ok.mpr
  refine ⟨fun he => (h.mtp (hmtp he)).2, ?_⟩
  apply check_bind_eq_ok.mpr
  refine ⟨fun he => ?_, ?_⟩
  · have hd := h.dflash (hdflash he)
    exact ⟨Nat.pos_iff_ne_zero.mp hd.1, hd.2⟩
  apply check_bind_eq_ok.mpr
  refine ⟨⟨Nat.pos_iff_ne_zero.mp hconcurrency, h.concurrency_le⟩, ?_⟩
  exact check_of (show inputs.draftWindow + 1 ≤ int32Max by omega)

theorem exists_plans_beginRound (hv : v.Extents) (h : inputs.Valid v) :
    ∃ n, Plans (beginRoundStateLayout (v.roundState inputs)) n := by
  have hhidden := And.intro hv.hidden_pos hv.hidden_le
  have houtput := And.intro hv.output_pos hv.output_le
  have hbatch := h.batch_small
  have hone : 0 < 1 ∧ 1 ≤ 2 ^ 18 := by decide
  have hordinary : Plans (planOrdinaryRound (v.roundState inputs)) _ :=
    plans_bind (plans_add _ (by decide)) fun ingress =>
      plans_bind (plans_add _ (by decide)) fun egress =>
        plans_bind_pure (plans_addTensors ⟨⟨houtput, hbatch⟩, ⟨hhidden, hbatch⟩, trivial⟩)
  exact ⟨_, plans_ofExcept_bind (validate_roundState hv h)
    (plans_bind (plans_planIf fun _ => hordinary) fun ordinary =>
      plans_bind_pure (plans_addTensors
        ⟨hone, hone, hone, hone, ⟨houtput, hone⟩, hone, hone, trivial⟩))⟩

theorem exists_plans_mtpRound (hv : v.Extents) (h : inputs.Valid v) :
    ∃ n, Plans (planMtpRound (v.roundState inputs)) n := by
  have hdraft := h.draft_le
  have hhidden := And.intro hv.hidden_pos hv.hidden_le
  have houtput := And.intro hv.output_pos hv.output_le
  have hbatch := h.batch_small
  have hone : 0 < 1 ∧ 1 ≤ 2 ^ 18 := by decide
  have hcolumns : 0 < inputs.draftWindow + 1 ∧ inputs.draftWindow + 1 ≤ 2 ^ 18 := by omega
  have hdrafts : 0 < max 1 inputs.draftWindow ∧ max 1 inputs.draftWindow ≤ 2 ^ 18 := by omega
  have hsteps : 0 < max 1 (inputs.draftWindow - 1) ∧
      max 1 (inputs.draftWindow - 1) ≤ 2 ^ 18 := by omega
  have hrows : SmallShape [inputs.draftWindow + 1, inputs.maxConcurrency] := ⟨hcolumns, hbatch⟩
  have hstates : SmallShape [v.hidden, inputs.maxConcurrency] := ⟨hhidden, hbatch⟩
  have hpositions : SmallShape [inputs.maxConcurrency, max 1 (inputs.draftWindow - 1)] :=
    ⟨hbatch, hsteps⟩
  exact ⟨_, plans_bind (plans_addTensors
      ⟨hone, ⟨hhidden, hone⟩, hdrafts, hcolumns, hcolumns, trivial⟩) fun prefill =>
    plans_bind (plans_add _ (by decide)) fun ingress =>
      plans_bind (plans_add _ (by decide)) fun egress =>
        plans_bind_pure (plans_addTensors
          ⟨hrows, hrows, hrows, ⟨houtput, hcolumns, hbatch⟩, ⟨hhidden, hcolumns, hbatch⟩, hstates,
            ⟨houtput, hbatch⟩, hrows, ⟨hhidden, hcolumns, hbatch⟩, hstates, hstates, hpositions,
            hpositions, hpositions, trivial⟩)⟩

theorem exists_plans_dflashRound (hv : v.Extents) (h : inputs.Valid v)
    (hpos : 0 < inputs.draftWindow) :
    ∃ n, Plans (planDFlashRound (v.roundState inputs)) n := by
  have hdraft := h.draft_le
  have hhidden := And.intro hv.hidden_pos hv.hidden_le
  have houtput := And.intro hv.output_pos hv.output_le
  have hbatch := h.batch_small
  have hone : 0 < 1 ∧ 1 ≤ 2 ^ 18 := by decide
  have hcolumns : 0 < inputs.draftWindow + 1 ∧ inputs.draftWindow + 1 ≤ 2 ^ 18 := by omega
  have hdrafts : 0 < inputs.draftWindow + 1 - 1 ∧ inputs.draftWindow + 1 - 1 ≤ 2 ^ 18 := by omega
  have hrows : SmallShape [inputs.draftWindow + 1, inputs.maxConcurrency] := ⟨hcolumns, hbatch⟩
  exact ⟨_, plans_bind (plans_addTensor _ hone) fun produced =>
    plans_bind (plans_add _ (by decide)) fun ingress =>
      plans_bind (plans_add _ (by decide)) fun egress =>
        plans_bind_pure (plans_addTensors
          ⟨hrows, hrows, hrows, hbatch, ⟨hdrafts, hbatch⟩, hrows, hrows,
            ⟨houtput, hcolumns, hbatch⟩, ⟨hhidden, hcolumns, hbatch⟩, ⟨hhidden, hbatch⟩,
            trivial⟩)⟩

theorem exists_plans_completeRound (hv : v.Extents) (h : inputs.Valid v) :
    ∃ n, Plans (completeRoundStateLayout (v.roundState inputs)) n := by
  obtain ⟨mtp, hmtp⟩ := exists_plans_mtpRound hv h
  obtain ⟨dflash, hdflash⟩ : ∃ n, (v.roundState inputs).enableDFlash = true →
      Plans (planDFlashRound (v.roundState inputs)) n := by
    by_cases hb : inputs.backend = .dflash
    · obtain ⟨n, hn⟩ := exists_plans_dflashRound hv h (h.dflash hb).1
      exact ⟨n, fun _ => hn⟩
    · refine ⟨0, fun he => ?_⟩
      exact absurd (by simpa [Variant.roundState] using he) hb
  exact ⟨_, plans_ofExcept_bind (validate_roundState hv h)
    (plans_bind (plans_planIf fun _ => hmtp) fun mtp =>
      plans_bind_pure (plans_planIf hdflash))⟩

theorem exists_plans_tail (hv : v.Extents) (h : inputs.Valid v) :
    ∃ n, Plans (addTensors (tailRequests v inputs)) n := by
  have hbatch := h.batch_small
  have hhidden := And.intro hv.hidden_pos hv.hidden_le
  have htokens := And.intro hv.tokens_pos hv.tokens_le
  have hwords : 0 < (samplingConfigBytes + 4 - 1) / 4 ∧
      (samplingConfigBytes + 4 - 1) / 4 ≤ 2 ^ 18 := by decide
  exact ⟨_, plans_addTensors
    ⟨⟨htokens, hbatch⟩, ⟨hwords, hbatch⟩, ⟨hhidden, hbatch⟩, ⟨hhidden, hbatch⟩, trivial⟩⟩

/-! ## The allocation -/

/-- The pages by which the pool of MTP is larger than the text pool. -/
def mtpExtraPages (inputs : SequencePlanningInputs) : Nat :=
  if inputs.backend = .mtp then
    inputs.maxConcurrency * ((inputs.draftWindow - 1 + kPagedKVPageSize - 1) / kPagedKVPageSize)
  else 0

theorem mtpExtraPages_le (h : inputs.Valid v) : mtpExtraPages inputs ≤ 8 := by
  unfold mtpExtraPages
  split_ifs with hb
  · have hdraft := (h.mtp hb).2
    have hlookahead :
        (inputs.draftWindow - 1 + kPagedKVPageSize - 1) / kPagedKVPageSize ≤ 1 := by
      unfold kPagedKVPageSize
      omega
    exact Nat.mul_le_mul h.concurrency_le hlookahead
  · exact Nat.zero_le _

theorem mtpPhysicalPages_eq (h : inputs.Valid v) {pages : Nat} (hpos : 0 < pages)
    (hle : pages ≤ 2 ^ 15) :
    mtpPhysicalPages inputs pages = .ok (pages + mtpExtraPages inputs) := by
  have hextra := mtpExtraPages_le h
  have hmax : 2 ^ 16 ≤ int32Max := by decide
  apply check_bind_eq_ok.mpr
  refine ⟨?_, rfl⟩
  show pages + mtpExtraPages inputs ≠ 0 ∧ pages + mtpExtraPages inputs ≤ int32Max
  omega

variable {logical slots : Nat}

theorem exists_affine_decoder (hv : v.Extents) (h : inputs.Valid v)
    (hlogical : pageCount inputs.capacity = .ok logical) (hslots : 0 < slots)
    (hslotsLe : slots ≤ 2 ^ 16) :
    ∃ base slope, ∀ pages, logical ≤ pages → pages ≤ 2 ^ 15 →
      Plans (planDecoderState v inputs slots pages (pages + mtpExtraPages inputs))
        (base + slope * pages) := by
  have hextra := mtpExtraPages_le h
  obtain ⟨linear, hlinear⟩ := exists_plans_linearAttention hv hslots hslotsLe
  obtain ⟨text, htext⟩ : ∃ n, n = pageBytes (cachePlanes v inputs v.fullAttentionLayers) :=
    ⟨_, rfl⟩
  obtain ⟨mtp, hmtp⟩ : ∃ n, n = pageBytes (cachePlanes v inputs v.mtpLayers) := ⟨_, rfl⟩
  refine ⟨tableBytes inputs logical +
      (if inputs.backend = .mtp then mtpExtraPages inputs * mtp + tableBytes inputs logical
        else 0) + linear,
    text + if inputs.backend = .mtp then mtp else 0, ?_⟩
  intro pages hle hpages
  have htextPlans := plans_planCache hv h hv.layers_pos hv.layers_le hlogical hle (by omega)
  have hmtpPlans := plans_planCache hv h hv.mtp_pos hv.mtp_le hlogical
    (show logical ≤ pages + mtpExtraPages inputs by omega) (by omega)
  rw [← htext] at htextPlans
  rw [← hmtp] at hmtpPlans
  have hplans := plans_bind htextPlans fun textKv =>
    plans_bind (plans_planIf fun _ : inputs.backend = .mtp => hmtpPlans) fun mtpKv =>
      plans_bind_pure (g := fun linearAttention =>
        DecoderStateLayout.mk textKv mtpKv linearAttention) hlinear
  refine Core.Plans.of_eq hplans ?_
  split_ifs
  · ring
  · ring

theorem exists_affine_variantDFlash (hv : v.Extents) (h : inputs.Valid v) {chunk : Nat}
    (hlogical : 0 < logical ∧ logical ≤ 2 ^ 12) (hchunk : 0 < chunk ∧ chunk ≤ 2 ^ 18) :
    ∃ base slope, ∀ pages, 0 < pages → pages ≤ 2 ^ 16 →
      Plans (planVariantDFlash v inputs pages logical chunk) (base + slope * pages) := by
  unfold planVariantDFlash
  cases hconfig : v.dflash with
  | none =>
    refine ⟨0, 0, fun pages _ _ => ?_⟩
    rw [Nat.zero_mul]
    exact plans_pure none
  | some config =>
    obtain ⟨base, slope, hplans⟩ :=
      exists_affine_dflash (hv.dflash config hconfig) h hlogical hchunk
    by_cases hb : inputs.backend = .dflash
    · refine ⟨base, slope, fun pages hpos hle => ?_⟩
      have hif := plans_planIf fun _ : inputs.backend = .dflash => hplans pages hpos hle
      rwa [if_pos hb] at hif
    · refine ⟨0, 0, fun pages hpos hle => ?_⟩
      have hif := plans_planIf fun _ : inputs.backend = .dflash => hplans pages hpos hle
      rwa [if_neg hb, ← Nat.zero_mul pages, ← Nat.zero_add (0 * pages)] at hif

/-- The regions of the persistent allocation take an affine size. -/
theorem exists_affine_regions (hv : v.Extents) (h : inputs.Valid v)
    (hlogical : pageCount inputs.capacity = .ok logical) (hslots : 0 < slots)
    (hslotsLe : slots ≤ 2 ^ 16) :
    ∃ base slope, ∀ pages, logical ≤ pages → pages ≤ 2 ^ 15 →
      Plans (planRegions v inputs slots logical pages (pages + mtpExtraPages inputs))
        (base + slope * pages) := by
  have hbound := pageCount_le h.capacity_le hlogical
  have hcapacity := h.capacity_pos
  have hcapacityLe := h.capacity_le
  have hprefill := h.chunk_pos
  have hchunk : 0 < min inputs.prefillChunk inputs.capacity ∧
      min inputs.prefillChunk inputs.capacity ≤ 2 ^ 18 := by omega
  obtain ⟨base₁, slope₁, hdecoder⟩ := exists_affine_decoder hv h hlogical hslots hslotsLe
  obtain ⟨base₂, slope₂, hdflash⟩ := exists_affine_variantDFlash hv h hbound hchunk
  obtain ⟨replay, hreplay⟩ := exists_plans_replayRecords hv h
  obtain ⟨begun, hbegun⟩ := exists_plans_beginRound hv h
  obtain ⟨completed, hcompleted⟩ := exists_plans_completeRound hv h
  obtain ⟨tail, htail⟩ := exists_plans_tail hv h
  have hprefillHidden : Plans (addTensor .bf16
      [v.hidden, min inputs.prefillChunk inputs.capacity] "step prefill hidden") _ :=
    plans_addTensor _ ⟨⟨hv.hidden_pos, hv.hidden_le⟩, hchunk⟩
  refine ⟨base₁ + (if inputs.backend ≠ .none then replay else 0) + base₂ + begun +
    tensorBytes .bf16 [v.hidden, min inputs.prefillChunk inputs.capacity] + completed + tail,
    slope₁ + slope₂, ?_⟩
  intro pages hle hpages
  have hplans : Plans (planRegions v inputs slots logical pages (pages + mtpExtraPages inputs)) _ :=
    plans_bind (hdecoder pages hle hpages) fun decoder =>
      plans_bind (plans_planIf fun _ => hreplay) fun replayRecords =>
        plans_bind (hdflash pages (by omega) (by omega)) fun dflash =>
          plans_bind hbegun fun begun =>
            plans_bind hprefillHidden fun prefillHidden =>
              plans_bind hcompleted fun completed =>
                plans_bind_pure htail
  refine hplans.of_eq ?_
  ring

theorem stateSlotCount_eq (h : inputs.Valid v) :
    stateSlotCount inputs.maxConcurrency = .ok (2 * inputs.maxConcurrency) := by
  have hpos := h.concurrency_pos
  have hle := h.concurrency_le
  have hmax : 8 ≤ int32Max / 2 := by decide
  exact check_bind_eq_ok.mpr ⟨by omega, rfl⟩

/-- The size of the persistent allocation lies on a line, and the allocation is planned whenever
that size is in the range of `std::size_t`. -/
theorem exists_affine_layout (hv : v.Extents) (h : inputs.Valid v)
    (hlogical : pageCount inputs.capacity = .ok logical) :
    ∃ base slope, ∀ pages, logical ≤ pages → pages ≤ 2 ^ 15 →
      (∀ layout, persistentLayout v inputs pages = .ok layout →
        layout.bytes = base + slope * pages ∧ base + slope * pages < U64.size) ∧
      (base + slope * pages < U64.size → ∃ layout, persistentLayout v inputs pages = .ok layout) := by
  have hconcurrency := h.concurrency_pos
  have hconcurrencyLe := h.concurrency_le
  have hbound := pageCount_le h.capacity_le hlogical
  obtain ⟨base, slope, hregions⟩ := exists_affine_regions hv h hlogical
    (show 0 < 2 * inputs.maxConcurrency by omega) (by omega)
  refine ⟨base, slope, fun pages hle hpages => ?_⟩
  have hplans := hregions pages hle hpages
  have hmtp := mtpPhysicalPages_eq h (show 0 < pages by omega) hpages
  have hfresh := Core.growing_fresh
  constructor
  · intro layout hlayout
    obtain ⟨slots, hslots, hlayout⟩ := bind_eq_ok.mp hlayout
    obtain ⟨logical', hlogical', hlayout⟩ := bind_eq_ok.mp hlayout
    obtain ⟨mtpPages, hmtp', hlayout⟩ := bind_eq_ok.mp hlayout
    cases (stateSlotCount_eq h).symm.trans hslots
    cases hlogical.symm.trans hlogical'
    cases hmtp.symm.trans hmtp'
    cases hrun : planRegions v inputs (2 * inputs.maxConcurrency) logical pages
        (pages + mtpExtraPages inputs) .fresh with
    | error e b =>
      simp only [hrun] at hlayout
      cases hlayout
    | ok regions b =>
      simp only [hrun] at hlayout
      obtain ⟨bytes, hbytes, hlayout⟩ := bind_eq_ok.mp hlayout
      cases hlayout
      obtain ⟨hb, hfilled⟩ := hplans.exact hfresh hrun
      obtain ⟨rfl, hlt⟩ := Core.filled_of_finish hb hbytes
      rw [Core.filled_fresh, Nat.zero_add] at hfilled
      rw [← hfilled]
      exact ⟨rfl, hlt⟩
  · intro hlt
    have hfits : LayoutBuilder.fresh.filled + (base + slope * pages) < U64.size := by
      rw [Core.filled_fresh, Nat.zero_add]
      exact hlt
    obtain ⟨regions, b, hrun⟩ := hplans.total hfresh hfits
    obtain ⟨hb, hfilled⟩ := hplans.exact hfresh hrun
    have hfinish := Core.finish_eq_filled "persistent layout" hb (hfilled ▸ hfits)
    refine ⟨{ regions with bytes := b.filled }, ?_⟩
    refine bind_of_eq_ok (stateSlotCount_eq h) ?_
    refine bind_of_eq_ok hlogical ?_
    refine bind_of_eq_ok hmtp ?_
    simp only [hrun]
    exact bind_of_eq_ok hfinish rfl

end Planners

/-! ## The reservation -/

theorem checkedAdd_eq_ok {a b c : Nat} {label : String} (ha : a < U64.size) :
    checkedAdd a b label = .ok c ↔ c = a + b ∧ a + b < U64.size := by
  constructor
  · intro h
    obtain ⟨hle, h⟩ := check_bind_eq_ok.mp h
    cases h
    exact ⟨rfl, by omega⟩
  · rintro ⟨rfl, hlt⟩
    exact check_bind_eq_ok.mpr ⟨by omega, rfl⟩

section Reservation

variable {v : Variant} {inputs : SequencePlanningInputs} {leaves : Leaves} {logical : Nat}

/-- A candidate is a layout with what does not depend on it. -/
theorem buildSequenceCandidate_eq_ok {pages : Nat} (leaves : Leaves) (plan : SequencePlan)
    (hpos : 0 < pages) (hpages : pages ≤ 2 ^ 15)
    (hbytes : ∀ layout, persistentLayout v inputs pages = .ok layout → layout.bytes < U64.size) :
    buildSequenceCandidate v leaves inputs pages = .ok plan ↔
      ∃ layout workspace transient graphs, persistentLayout v inputs pages = .ok layout ∧
        leaves.workspace inputs = .ok workspace ∧ requestTransient v inputs = .ok transient ∧
        graphAllowance leaves inputs = .ok graphs ∧
        layout.bytes + workspace + transient + graphs < U64.size ∧
        plan = ⟨pages, pages * kPagedKVPageSize, layout,
          layout.bytes + workspace + transient + graphs⟩ := by
  have hcapacity : checkedI32 (pages * kPagedKVPageSize)
      "resolved Paged KV capacity exceeds int32" = .ok (pages * kPagedKVPageSize) := by
    apply check_bind_eq_ok.mpr
    refine ⟨?_, rfl⟩
    unfold kPagedKVPageSize int32Max
    omega
  constructor
  · intro h
    obtain ⟨-, h⟩ := check_bind_eq_ok.mp h
    obtain ⟨kvCapacity, hkv, h⟩ := bind_eq_ok.mp h
    cases hcapacity.symm.trans hkv
    obtain ⟨layout, hlayout, h⟩ := bind_eq_ok.mp h
    obtain ⟨workspace, hworkspace, h⟩ := bind_eq_ok.mp h
    obtain ⟨transient, htransient, h⟩ := bind_eq_ok.mp h
    obtain ⟨graphs, hgraphs, h⟩ := bind_eq_ok.mp h
    obtain ⟨memory, hmemory, h⟩ := bind_eq_ok.mp h
    obtain ⟨rfl, hlt⟩ := (checkedAdd_eq_ok (hbytes layout hlayout)).mp hmemory
    obtain ⟨withTransient, hwith, h⟩ := bind_eq_ok.mp h
    obtain ⟨rfl, hlt'⟩ := (checkedAdd_eq_ok hlt).mp hwith
    obtain ⟨reservation, hreservation, h⟩ := bind_eq_ok.mp h
    obtain ⟨rfl, hlt''⟩ := (checkedAdd_eq_ok hlt').mp hreservation
    exact ⟨layout, workspace, transient, graphs, hlayout, hworkspace, htransient, hgraphs, hlt'',
      (Except.ok.inj h).symm⟩
  · rintro ⟨layout, workspace, transient, graphs, hlayout, hworkspace, htransient, hgraphs, hlt,
      rfl⟩
    have hmemory : layout.bytes + workspace < U64.size := by omega
    have hwith : layout.bytes + workspace + transient < U64.size := by omega
    apply check_bind_eq_ok.mpr
    refine ⟨by omega, ?_⟩
    refine bind_of_eq_ok hcapacity ?_
    refine bind_of_eq_ok hlayout ?_
    refine bind_of_eq_ok hworkspace ?_
    refine bind_of_eq_ok htransient ?_
    refine bind_of_eq_ok hgraphs ?_
    refine bind_of_eq_ok ((checkedAdd_eq_ok (hbytes layout hlayout)).mpr ⟨rfl, hmemory⟩) ?_
    refine bind_of_eq_ok ((checkedAdd_eq_ok hmemory).mpr ⟨rfl, hwith⟩) ?_
    exact bind_of_eq_ok ((checkedAdd_eq_ok hwith).mpr ⟨rfl, hlt⟩) rfl

/-- Once one candidate is planned, the reservations of all lie on a line, and a candidate is planned
whenever its reservation is in the range of `std::size_t`. -/
theorem exists_affine_candidate (hv : v.Extents) (h : inputs.Valid v)
    (hlogical : pageCount inputs.capacity = .ok logical) {minimum : SequencePlan} {first : Nat}
    (hfirst : logical ≤ first) (hfirstLe : first ≤ 2 ^ 15)
    (hminimum : buildSequenceCandidate v leaves inputs first = .ok minimum) :
    ∃ base slope, ∀ pages, logical ≤ pages → pages ≤ 2 ^ 15 →
      (∀ plan, buildSequenceCandidate v leaves inputs pages = .ok plan →
        plan.deviceReservationBytes = base + slope * pages ∧
          base + slope * pages < U64.size ∧ plan.kvCapacity = pages * kPagedKVPageSize) ∧
      (base + slope * pages < U64.size →
        ∃ plan, buildSequenceCandidate v leaves inputs pages = .ok plan) := by
  have hbound := pageCount_le h.capacity_le hlogical
  obtain ⟨base, slope, hlayouts⟩ := exists_affine_layout hv h hlogical
  have hfits (pages : Nat) (hle : logical ≤ pages) (hpages : pages ≤ 2 ^ 15) :
      ∀ layout, persistentLayout v inputs pages = .ok layout → layout.bytes < U64.size := by
    intro layout hlayout
    obtain ⟨hbytes, hlt⟩ := (hlayouts pages hle hpages).1 layout hlayout
    omega
  have hstep (pages : Nat) (hle : logical ≤ pages) (hpages : pages ≤ 2 ^ 15) (plan : SequencePlan) :=
    buildSequenceCandidate_eq_ok leaves plan (show 0 < pages by omega) hpages
      (hfits pages hle hpages)
  -- what does not depend on the pages is read off the first candidate
  obtain ⟨-, workspace, transient, graphs, -, hworkspace, htransient, hgraphs, -, -⟩ :=
    (hstep first hfirst hfirstLe minimum).mp hminimum
  refine ⟨base + workspace + transient + graphs, slope, fun pages hle hpages => ⟨?_, ?_⟩⟩
  · intro plan hplan
    obtain ⟨layout, workspace', transient', graphs', hlayout, hworkspace', htransient', hgraphs',
      hlt, rfl⟩ := (hstep pages hle hpages plan).mp hplan
    cases hworkspace.symm.trans hworkspace'
    cases htransient.symm.trans htransient'
    cases hgraphs.symm.trans hgraphs'
    obtain ⟨hbytes, -⟩ := (hlayouts pages hle hpages).1 layout hlayout
    refine ⟨?_, by omega, rfl⟩
    show layout.bytes + workspace + transient + graphs = _
    omega
  · intro hlt
    obtain ⟨layout, hlayout⟩ := (hlayouts pages hle hpages).2 (by omega)
    obtain ⟨hbytes, -⟩ := (hlayouts pages hle hpages).1 layout hlayout
    refine ⟨_, (hstep pages hle hpages _).mpr ⟨layout, workspace, transient, graphs, hlayout,
      hworkspace, htransient, hgraphs, ?_, rfl⟩⟩
    omega

end Reservation

/-! ## Finalization -/

section Finalization

variable {v : Variant} {leaves : Leaves} {sm : Nat} {options : EngineOptions}
  {planner : SequencePlanner}

/-- The extents the planners need are those of both variants. -/
theorem extents_of_supported (hv : v = qwen27b ∨ v = qwen35bA3b) : v.Extents := by
  rcases hv with rfl | rfl
  · exact extents_qwen27b
  · exact extents_qwen35bA3b

/-- What a planner that is made has probed. -/
theorem makeSequencePlanner_eq_ok (hv : v.Extents)
    (h : makeSequencePlanner v leaves sm options = .ok planner) :
    planner.inputs.Valid v ∧ ∃ logical stride,
      pageCount planner.inputs.capacity = .ok logical ∧
      buildSequenceCandidate v leaves planner.inputs
        (max logical planner.inputs.maxConcurrency) = .ok planner.minimum ∧
      curveStride v leaves planner.inputs planner.minimum
        (max logical planner.inputs.maxConcurrency)
        (planner.inputs.maxConcurrency * logical) = .ok stride ∧
      planner.curve = ⟨kPagedKVPageSize, max logical planner.inputs.maxConcurrency,
        planner.inputs.maxConcurrency * logical, planner.minimum.deviceReservationBytes,
        stride⟩ := by
  obtain ⟨⟨⟩, hoptions, h⟩ := bind_eq_ok.mp h
  obtain ⟨logical, hlogical, h⟩ := bind_eq_ok.mp h
  obtain ⟨-, h⟩ := check_bind_eq_ok.mp h
  obtain ⟨minimum, hminimum, h⟩ := bind_eq_ok.mp h
  obtain ⟨stride, hstride, h⟩ := bind_eq_ok.mp h
  cases Except.ok.inj h
  exact ⟨valid_of_options hv hoptions, logical, stride, hlogical, hminimum, hstride, rfl⟩

/-- A point of a curve that is not refused. -/
theorem reservationBytes_eq_ok {curve : SequenceCapacityCurve} {pages expected : Nat}
    (hminimum : curve.minimumDeviceReservationBytes < U64.size)
    (h : curve.reservationBytes pages = .ok expected) :
    curve.minimumMainPageGroups ≤ pages ∧ pages ≤ curve.maximumMainPageGroups ∧
      expected = curve.minimumDeviceReservationBytes +
        (pages - curve.minimumMainPageGroups) * curve.bytesPerAdditionalMainPageGroup ∧
      expected < U64.size := by
  obtain ⟨⟨⟩, -, h⟩ := bind_eq_ok.mp h
  obtain ⟨hrange, h⟩ := check_bind_eq_ok.mp h
  obtain ⟨increment, hincrement, h⟩ := bind_eq_ok.mp h
  obtain ⟨-, hincrement⟩ := check_bind_eq_ok.mp hincrement
  cases hincrement
  obtain ⟨rfl, hlt⟩ := (checkedAdd_eq_ok hminimum).mp h
  exact ⟨hrange.1, hrange.2, rfl, hlt⟩

/-- The candidates of a planner lie on the line `base + slope * pages`, and are planned when they
fit. -/
def OnLine (v : Variant) (leaves : Leaves) (planner : SequencePlanner) (base slope : Nat) : Prop :=
  ∀ pages, planner.curve.minimumMainPageGroups ≤ pages →
    pages ≤ planner.curve.maximumMainPageGroups →
      (∀ plan, buildSequenceCandidate v leaves planner.inputs pages = .ok plan →
        plan.deviceReservationBytes = base + slope * pages ∧
          base + slope * pages < U64.size ∧ plan.kvCapacity = pages * kPagedKVPageSize) ∧
      (base + slope * pages < U64.size →
        ∃ plan, buildSequenceCandidate v leaves planner.inputs pages = .ok plan)

/-- The curve of a planner is a line: it starts at the smallest candidate, and the stride is the
slope if there is a second one. -/
structure Through (v : Variant) (leaves : Leaves) (planner : SequencePlanner) (slope : Nat) :
    Prop where
  tokens : planner.curve.mainPageTokens = kPagedKVPageSize
  minimum : buildSequenceCandidate v leaves planner.inputs planner.curve.minimumMainPageGroups =
    .ok planner.minimum
  start : planner.curve.minimumDeviceReservationBytes = planner.minimum.deviceReservationBytes
  stride : planner.curve.minimumMainPageGroups < planner.curve.maximumMainPageGroups →
    planner.curve.bytesPerAdditionalMainPageGroup = slope

/-- The two probes of a planner determine the line. -/
theorem exists_line (hv : v.Extents)
    (h : makeSequencePlanner v leaves sm options = .ok planner) :
    ∃ base slope, OnLine v leaves planner base slope ∧ Through v leaves planner slope := by
  obtain ⟨hvalid, logical, stride, hlogical, hminimum, hstride, hcurve⟩ :=
    makeSequencePlanner_eq_ok hv h
  have hbound := pageCount_le hvalid.capacity_le hlogical
  have hconcurrency := hvalid.concurrency_le
  have hmaximum : planner.inputs.maxConcurrency * logical ≤ 8 * 2 ^ 12 :=
    Nat.mul_le_mul hconcurrency hbound.2
  obtain ⟨base, slope, hcandidates⟩ := exists_affine_candidate hv hvalid hlogical
    (Nat.le_max_left _ _) (by omega) hminimum
  refine ⟨base, slope, ?_, ⟨by rw [hcurve], by rw [hcurve]; exact hminimum, by rw [hcurve], ?_⟩⟩
  · intro pages hle hpages
    rw [hcurve] at hle hpages
    have hlogicalLe : logical ≤ max logical planner.inputs.maxConcurrency := Nat.le_max_left _ _
    exact hcandidates pages (Nat.le_trans hlogicalLe hle) (Nat.le_trans hpages (by omega))
  · rw [hcurve]
    intro hlt
    dsimp only at hlt ⊢
    rw [curveStride, if_pos hlt] at hstride
    obtain ⟨adjacent, hadjacent, hstride⟩ := bind_eq_ok.mp hstride
    obtain ⟨-, hstride⟩ := check_bind_eq_ok.mp hstride
    cases hstride
    obtain ⟨hfirst, -⟩ := (hcandidates _ (Nat.le_max_left _ _) (by omega)).1 _ hminimum
    obtain ⟨hnext, -⟩ := (hcandidates _ (by omega) (by omega)).1 _ hadjacent
    rw [hfirst, hnext, Nat.mul_succ]
    omega

/-- A point of the curve is planned as predicted. -/
theorem finalize_of_line {base slope pages expected : Nat}
    (hline : OnLine v leaves planner base slope) (hcurve : Through v leaves planner slope)
    (h : planner.curve.reservationBytes pages = .ok expected) :
    ∃ plan, finalizeSequencePlan v leaves planner pages = .ok plan ∧
      plan.deviceReservationBytes = expected ∧ plan.kvCapacity = pages * kPagedKVPageSize := by
  obtain ⟨⟨⟩, hvalidate, -⟩ := bind_eq_ok.mp h
  obtain ⟨hcurveValid, -⟩ := check_bind_eq_ok.mp hvalidate
  obtain ⟨hfirst, hfirstLt, hfirstCapacity⟩ :=
    (hline _ (Nat.le_refl _) hcurveValid.2.2.1).1 _ hcurve.minimum
  have hstart := hcurve.start
  obtain ⟨hle, hpages, hexpected, hlt⟩ := reservationBytes_eq_ok (by omega) h
  by_cases hmin : pages = planner.curve.minimumMainPageGroups
  · have hbytes : planner.minimum.deviceReservationBytes = expected := by
      rw [hexpected, hmin, Nat.sub_self, Nat.zero_mul, hstart, Nat.add_zero]
    refine ⟨planner.minimum, ?_, hbytes, by rw [hfirstCapacity, hmin]⟩
    refine bind_of_eq_ok h ?_
    simp only [if_pos hmin]
    exact check_bind_eq_ok.mpr ⟨hbytes, rfl⟩
  · -- a larger count lies between the ends of the curve, so that the stride is the slope
    have hstride := hcurve.stride (by omega)
    obtain ⟨extra, rfl⟩ : ∃ n, pages = planner.curve.minimumMainPageGroups + n :=
      ⟨pages - planner.curve.minimumMainPageGroups, by omega⟩
    have hpoint : expected = base + slope * (planner.curve.minimumMainPageGroups + extra) := by
      rw [hexpected, hstart, hfirst, hstride, Nat.add_sub_cancel_left, Nat.mul_add,
        Nat.mul_comm extra slope]
      omega
    obtain ⟨plan, hplan⟩ := (hline _ hle hpages).2 (by omega)
    obtain ⟨hbytes, -, hcapacity⟩ := (hline _ hle hpages).1 plan hplan
    refine ⟨plan, ?_, by omega, hcapacity⟩
    refine bind_of_eq_ok h ?_
    simp only [if_neg hmin]
    refine bind_of_eq_ok hplan ?_
    exact check_bind_eq_ok.mpr ⟨by omega, rfl⟩

/-- What a resolution takes from the curve. -/
theorem resolveKvCapacity_eq_ok {policy : KvCapacityPolicy} {curve : SequenceCapacityCurve}
    {available : Nat} {resolution : KvCapacityResolution}
    (h : resolveKvCapacity policy curve available = .ok resolution) :
    curve.reservationBytes resolution.mainPageGroups = .ok resolution.runtimeReservationBytes ∧
      resolution.resolvedTokens = resolution.mainPageGroups * curve.mainPageTokens := by
  obtain ⟨⟨⟩, -, h⟩ := bind_eq_ok.mp h
  obtain ⟨⟨pages, budget⟩, -, h⟩ := bind_eq_ok.mp h
  obtain ⟨reservation, hreservation, h⟩ := bind_eq_ok.mp h
  obtain ⟨-, h⟩ := check_bind_eq_ok.mp h
  obtain ⟨tokens, htokens, h⟩ := bind_eq_ok.mp h
  cases h
  obtain ⟨⟨⟩, -, htokens⟩ := bind_eq_ok.mp htokens
  obtain ⟨-, htokens⟩ := check_bind_eq_ok.mp htokens
  obtain ⟨-, htokens⟩ := check_bind_eq_ok.mp htokens
  cases htokens
  exact ⟨hreservation, rfl⟩

/-- The reservation is affine in the number of page groups, and the plan that is finalized for a
resolved capacity has the reservation and the capacity that were resolved. -/
theorem reservation_affine (hv : v = qwen27b ∨ v = qwen35bA3b)
    (hplanner : makeSequencePlanner v leaves sm options = .ok planner) :
    (∃ base slope, ∀ pages, planner.curve.minimumMainPageGroups ≤ pages →
      pages ≤ planner.curve.maximumMainPageGroups →
        (∀ plan, buildSequenceCandidate v leaves planner.inputs pages = .ok plan →
          plan.deviceReservationBytes = base + slope * pages) ∧
        (base + slope * pages < U64.size →
          ∃ plan, buildSequenceCandidate v leaves planner.inputs pages = .ok plan)) ∧
    (∀ pages expected, planner.curve.reservationBytes pages = .ok expected →
      ∃ plan, finalizeSequencePlan v leaves planner pages = .ok plan ∧
        plan.deviceReservationBytes = expected) ∧
    ∀ policy available resolution,
      resolveKvCapacity policy planner.curve available = .ok resolution →
        ∃ plan, finalizeResolved v leaves planner resolution = .ok plan ∧
          plan.deviceReservationBytes = resolution.runtimeReservationBytes ∧
          plan.kvCapacity = resolution.resolvedTokens := by
  obtain ⟨base, slope, hbuilds, hcurve⟩ := exists_line (extents_of_supported hv) hplanner
  refine ⟨⟨base, slope, fun pages hle hpages => ?_⟩, fun pages expected hexpected => ?_,
    fun policy available resolution hresolution => ?_⟩
  · obtain ⟨hexact, htotal⟩ := hbuilds pages hle hpages
    exact ⟨fun plan hplan => (hexact plan hplan).1, htotal⟩
  · obtain ⟨plan, hplan, hbytes, -⟩ := finalize_of_line hbuilds hcurve hexpected
    exact ⟨plan, hplan, hbytes⟩
  -- The resolution and the plan read the same line, so that the closing comparison holds.
  · obtain ⟨hexpected, htokens⟩ := resolveKvCapacity_eq_ok hresolution
    obtain ⟨plan, hplan, hbytes, hcapacity⟩ := finalize_of_line hbuilds hcurve hexpected
    have hmatch : plan.kvCapacity = resolution.resolvedTokens := by
      rw [hcapacity, htokens, hcurve.tokens]
    refine ⟨plan, ?_, hbytes, hmatch⟩
    refine bind_of_eq_ok hplan ?_
    exact check_bind_eq_ok.mpr ⟨⟨hbytes, hmatch⟩, rfl⟩

end Finalization

/-- Three lanes of 8192 tokens with the DFlash backend. -/
def sampleOptions : EngineOptions where
  maxContext := 8192
  maxConcurrency := 3
  prefillChunk := 1024
  kvCapacity := .automatic 0
  kvCache := .int8
  backend := .dflash
  draftTokens := 7
  proposalHead := .full
  enableVision := false
  useCudaGraph := true

/-- A gigabyte of workspace, and the graph profiles of the 35B target. -/
def sampleLeaves : Leaves where
  workspace := fun _ => .ok (2 ^ 30)
  mtpGraphProfiles := mtpGraphProfiles35b
  dflashGraphProfiles := dflashGraphProfiles

theorem sample_curve :
    (makeSequencePlanner qwen35bA3b sampleLeaves 120 sampleOptions).toOption.map (fun p => p.curve) =
      some ⟨64, 128, 384, 2728784384, 937984⟩ := by
  decide +kernel

theorem sample_reservation_affine :
    ∃ planner resolution plan,
      makeSequencePlanner qwen35bA3b sampleLeaves 120 sampleOptions = .ok planner ∧
      resolveKvCapacity (.automatic 0) planner.curve 2900000000 = .ok resolution ∧
      resolution.mainPageGroups = 310 ∧
      finalizeResolved qwen35bA3b sampleLeaves planner resolution = .ok plan ∧
      plan.deviceReservationBytes = resolution.runtimeReservationBytes := by
  have hcurve := sample_curve
  cases hplanner : makeSequencePlanner qwen35bA3b sampleLeaves 120 sampleOptions with
  | error e =>
    rw [hplanner] at hcurve
    cases hcurve
  | ok planner =>
    rw [hplanner] at hcurve
    have hline : planner.curve = ⟨64, 128, 384, 2728784384, 937984⟩ := Option.some.inj hcurve
    have hresolved : resolveKvCapacity (.automatic 0) planner.curve 2900000000 =
        .ok ⟨310, 384, 19840, 2728784384, 937984, 2899497472, 2900000000⟩ := by
      rw [hline]
      rfl
    obtain ⟨plan, hplan, hbytes, -⟩ :=
      (reservation_affine (Or.inr rfl) hplanner).2.2 _ _ _ hresolved
    exact ⟨planner, _, plan, rfl, hresolved, rfl, hplan, hbytes⟩

end Ninfer.Qwen.Layouts
