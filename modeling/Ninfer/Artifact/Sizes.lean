import Ninfer.Artifact.Layouts
import Ninfer.Artifact.StorageLayouts

/-!
# The two size computations agree

The converter computes the size of a tensor on Python integers, the engine on `std::uint64_t`
with every operation checked. The engine returns a size exactly when the converter does and
nothing overflows; besides the size itself the two quantities that can overflow while the size
does not are the padded width of a row-split tensor and the element count of a block-scaled one.

## Main definitions

* `CountsFit`: these two quantities fit

## Main results

* `checkedAdd_eq_ok_iff`, `checkedMul_eq_ok_iff`, `alignUp_eq_ok_iff`: the checked operations
* `rowSplitGeometry_agrees`, `blockScaleGeometry_agrees`, `rowScaleGeometry_agrees`: the planes of
  the two computations are the same
* `tensorEncodedSize_eq_ok_iff`: so are the sizes
-/

namespace Ninfer.Artifact

section Checked

variable {a b c : Nat} {label : String}

theorem checkedAdd_eq_ok_iff (ha : a < U64.size) :
    checkedAdd a b label = .ok c ↔ a + b < U64.size ∧ c = a + b := by
  unfold checkedAdd
  rw [ensure_bind_eq_ok]
  constructor
  · rintro ⟨hle, h⟩
    cases h
    exact ⟨by omega, rfl⟩
  · rintro ⟨hlt, rfl⟩
    exact ⟨by omega, rfl⟩

theorem checkedMul_eq_ok_iff : checkedMul a b label = .ok c ↔ a * b < U64.size ∧ c = a * b := by
  unfold checkedMul
  rw [ensure_bind_eq_ok]
  have hcheck : (a = 0 ∨ b ≤ (U64.size - 1) / a) ↔ a * b < U64.size := by
    rcases Nat.eq_zero_or_pos a with rfl | hpos
    · simp [U64.size]
    · rw [Nat.le_div_iff_mul_le hpos, Nat.mul_comm b a]
      have : 0 < U64.size := by decide
      omega
  rw [hcheck]
  constructor
  · rintro ⟨hlt, h⟩
    cases h
    exact ⟨hlt, rfl⟩
  · rintro ⟨hlt, rfl⟩
    exact ⟨hlt, rfl⟩

theorem alignUp_eq_ok_iff (ha : a < U64.size) (hb : 0 < b) (hd : b ∣ U64.size) :
    alignUp a b label = .ok c ↔ roundUp a b < U64.size ∧ c = roundUp a b := by
  unfold alignUp
  rw [bind_eq_ok, roundUp_lt_iff hb hd]
  constructor
  · rintro ⟨biased, hbiased, h⟩
    obtain ⟨hlt, rfl⟩ := (checkedAdd_eq_ok_iff ha).mp hbiased
    cases h
    exact ⟨hlt, rfl⟩
  · rintro ⟨hlt, rfl⟩
    exact ⟨_, (checkedAdd_eq_ok_iff ha).mpr ⟨hlt, rfl⟩, rfl⟩

/-- A computation with one value, and the rest after it. -/
theorem bind_eq_ok_of {ε α β : Type} {x : Except ε β} {P : Prop} {v : β} {f : β → Except ε α} {r : α}
    (hx : ∀ {c}, x = .ok c ↔ P ∧ c = v) : (x >>= f) = .ok r ↔ P ∧ f v = .ok r := by
  rw [bind_eq_ok]
  constructor
  · rintro ⟨c, hc, h⟩
    obtain ⟨hP, rfl⟩ := hx.mp hc
    exact ⟨hP, h⟩
  · rintro ⟨hP, h⟩
    exact ⟨v, hx.mpr ⟨hP, rfl⟩, h⟩

end Checked

/-- The planes of a row-split tensor of `n` rows of `k` columns. -/
def rowSplitPlanes (q : QuantGeometry) (n k : Nat) : RowSplitGeometry :=
  let paddedColumns := roundUp k 128
  let groupsPerRow := paddedColumns / q.groupSize
  let lowPlaneBytes := n * groupsPerRow * q.baseBytesPerGroup
  let highPlaneBytes := n * groupsPerRow * q.highBytesPerGroup
  let highPlaneOffset := roundUp lowPlaneBytes 256
  let scalePlaneOffset := highPlaneOffset + roundUp highPlaneBytes 256
  { rows := n
    columns := k
    paddedColumns := paddedColumns
    groupSize := q.groupSize
    groupsPerRow := groupsPerRow
    lowBytesPerGroup := q.baseBytesPerGroup
    highBytesPerGroup := q.highBytesPerGroup
    lowPlaneBytes := lowPlaneBytes
    highPlaneOffset := highPlaneOffset
    highPlaneBytes := highPlaneBytes
    scalePlaneOffset := scalePlaneOffset
    scalePlaneBytes := n * groupsPerRow * 2
    encodedBytes := scalePlaneOffset + n * groupsPerRow * 2 }

theorem rowSplitGeometry_eq_ok {format : NumericFormat} {q : QuantGeometry} {shape : List Nat}
    {g : RowSplitGeometry} (hq : quantGeometry format = .ok q) (hbase : 0 < q.baseBytesPerGroup)
    (hcolumns : shape.getD 1 0 < U64.size) :
    rowSplitGeometry format shape = .ok g ↔ PositiveRankTwo shape ∧
      roundUp (shape.getD 1 0) 128 < U64.size ∧
      (rowSplitPlanes q (shape.getD 0 0) (shape.getD 1 0)).encodedBytes < U64.size ∧
      g = rowSplitPlanes q (shape.getD 0 0) (shape.getD 1 0) := by
  have h256 : 256 ∣ U64.size := by decide
  have h128 : 128 ∣ U64.size := by decide
  unfold rowSplitGeometry
  rw [ensure_bind_eq_ok, hq, ok_bind]
  set n := shape.getD 0 0
  set k := shape.getD 1 0
  constructor
  · rintro ⟨hshape, h⟩
    obtain ⟨hpad, h⟩ := (bind_eq_ok_of (alignUp_eq_ok_iff hcolumns (by decide) h128)).mp h
    obtain ⟨-, h⟩ := (bind_eq_ok_of checkedMul_eq_ok_iff).mp h
    obtain ⟨hlowLt, h⟩ := (bind_eq_ok_of checkedMul_eq_ok_iff).mp h
    obtain ⟨hhighLt, h⟩ := (bind_eq_ok_of checkedMul_eq_ok_iff).mp h
    obtain ⟨-, h⟩ := (bind_eq_ok_of checkedMul_eq_ok_iff).mp h
    obtain ⟨hoffsetLt, h⟩ := (bind_eq_ok_of (alignUp_eq_ok_iff hlowLt (by decide) h256)).mp h
    obtain ⟨-, h⟩ := (bind_eq_ok_of (alignUp_eq_ok_iff hhighLt (by decide) h256)).mp h
    obtain ⟨hsumLt, h⟩ := (bind_eq_ok_of (checkedAdd_eq_ok_iff hoffsetLt)).mp h
    obtain ⟨hencodedLt, h⟩ := (bind_eq_ok_of (checkedAdd_eq_ok_iff hsumLt)).mp h
    cases h
    exact ⟨hshape, hpad, hencodedLt, rfl⟩
  · rintro ⟨hshape, hpad, hencoded, rfl⟩
    dsimp only [rowSplitPlanes] at hencoded
    set groups := n * (roundUp k 128 / q.groupSize)
    -- every quantity is at most the size
    have hlow := le_roundUp (groups * q.baseBytesPerGroup) (show 0 < 256 by decide)
    have hhigh := le_roundUp (groups * q.highBytesPerGroup) (show 0 < 256 by decide)
    have hgroups : groups ≤ groups * q.baseBytesPerGroup := Nat.le_mul_of_pos_right groups hbase
    refine ⟨hshape, ?_⟩
    refine (bind_eq_ok_of (alignUp_eq_ok_iff hcolumns (by decide) h128)).mpr ⟨hpad, ?_⟩
    refine (bind_eq_ok_of (v := groups) checkedMul_eq_ok_iff).mpr ⟨by omega, ?_⟩
    refine (bind_eq_ok_of checkedMul_eq_ok_iff).mpr ⟨by omega, ?_⟩
    refine (bind_eq_ok_of checkedMul_eq_ok_iff).mpr ⟨by omega, ?_⟩
    refine (bind_eq_ok_of checkedMul_eq_ok_iff).mpr ⟨by omega, ?_⟩
    refine (bind_eq_ok_of (alignUp_eq_ok_iff (by omega) (by decide) h256)).mpr ⟨by omega, ?_⟩
    refine (bind_eq_ok_of (alignUp_eq_ok_iff (by omega) (by decide) h256)).mpr ⟨by omega, ?_⟩
    refine (bind_eq_ok_of (checkedAdd_eq_ok_iff (by omega))).mpr ⟨by omega, ?_⟩
    exact (bind_eq_ok_of (checkedAdd_eq_ok_iff (by omega))).mpr ⟨by omega, rfl⟩

/-- The planes of a block-scaled tensor of `n` rows of `k` columns. -/
def blockScalePlanes (n k : Nat) : BlockScaleGeometry :=
  let scalePlaneOffset := roundUp (n * k / 2) 256
  { rows := n
    columns := k
    groupsPerRow := k / 16
    kTiles := k / 64
    codePlaneBytes := n * k / 2
    scalePlaneOffset := scalePlaneOffset
    scalePlaneBytes := n * k / 16
    weightDivisorOffset := scalePlaneOffset + n * k / 16
    encodedBytes := scalePlaneOffset + n * k / 16 + 4 }

theorem blockScaleGeometry_eq_ok {format : NumericFormat} {shape : List Nat}
    {g : BlockScaleGeometry} :
    blockScaleGeometry format shape = .ok g ↔ format = .nvfp4 ∧ PositiveRankTwo shape ∧
      (shape.getD 0 0 % 128 = 0 ∧ shape.getD 1 0 % 64 = 0) ∧
      shape.getD 0 0 * shape.getD 1 0 < U64.size ∧
      (blockScalePlanes (shape.getD 0 0) (shape.getD 1 0)).encodedBytes < U64.size ∧
      g = blockScalePlanes (shape.getD 0 0) (shape.getD 1 0) := by
  have h256 : 256 ∣ U64.size := by decide
  unfold blockScaleGeometry
  rw [ensure_bind_eq_ok, ensure_bind_eq_ok]
  set n := shape.getD 0 0
  set k := shape.getD 1 0
  constructor
  · rintro ⟨hformat, hshape, h⟩
    obtain ⟨hdiv, h⟩ := ensure_bind_eq_ok.mp h
    obtain ⟨helementsLt, h⟩ := (bind_eq_ok_of checkedMul_eq_ok_iff).mp h
    obtain ⟨hoffsetLt, h⟩ := (bind_eq_ok_of (alignUp_eq_ok_iff (by omega) (by decide) h256)).mp h
    obtain ⟨hdivisorLt, h⟩ := (bind_eq_ok_of (checkedAdd_eq_ok_iff hoffsetLt)).mp h
    obtain ⟨hencodedLt, h⟩ := (bind_eq_ok_of (checkedAdd_eq_ok_iff hdivisorLt)).mp h
    cases h
    exact ⟨hformat, hshape, hdiv, helementsLt, hencodedLt, rfl⟩
  · rintro ⟨hformat, hshape, hdiv, helements, hencoded, rfl⟩
    dsimp only [blockScalePlanes] at hencoded
    refine ⟨hformat, hshape, ?_⟩
    apply ensure_bind_eq_ok.mpr
    refine ⟨hdiv, ?_⟩
    refine (bind_eq_ok_of checkedMul_eq_ok_iff).mpr ⟨helements, ?_⟩
    refine (bind_eq_ok_of (alignUp_eq_ok_iff (by omega) (by decide) h256)).mpr ⟨by omega, ?_⟩
    refine (bind_eq_ok_of (checkedAdd_eq_ok_iff (by omega))).mpr ⟨by omega, ?_⟩
    exact (bind_eq_ok_of (checkedAdd_eq_ok_iff (by omega))).mpr ⟨by omega, rfl⟩

/-- The planes of a row-scaled tensor of `n` rows of `k` columns. -/
def rowScalePlanes (n k : Nat) : RowScaleGeometry :=
  let scalePlaneOffset := roundUp (n * k) 256
  { rows := n
    columns := k
    codePlaneBytes := n * k
    scalePlaneOffset := scalePlaneOffset
    scalePlaneBytes := n * 2
    encodedBytes := scalePlaneOffset + n * 2 }

theorem rowScaleGeometry_eq_ok {format : NumericFormat} {shape : List Nat}
    {g : RowScaleGeometry} :
    rowScaleGeometry format shape = .ok g ↔ format = .fp8E4m3fnRowBf16s ∧ PositiveRankTwo shape ∧
      (rowScalePlanes (shape.getD 0 0) (shape.getD 1 0)).encodedBytes < U64.size ∧
      g = rowScalePlanes (shape.getD 0 0) (shape.getD 1 0) := by
  have h256 : 256 ∣ U64.size := by decide
  unfold rowScaleGeometry
  rw [ensure_bind_eq_ok, ensure_bind_eq_ok]
  set n := shape.getD 0 0
  set k := shape.getD 1 0
  constructor
  · rintro ⟨hformat, hshape, h⟩
    obtain ⟨hcodesLt, h⟩ := (bind_eq_ok_of checkedMul_eq_ok_iff).mp h
    obtain ⟨hoffsetLt, h⟩ := (bind_eq_ok_of (alignUp_eq_ok_iff hcodesLt (by decide) h256)).mp h
    obtain ⟨-, h⟩ := (bind_eq_ok_of checkedMul_eq_ok_iff).mp h
    obtain ⟨hencodedLt, h⟩ := (bind_eq_ok_of (checkedAdd_eq_ok_iff hoffsetLt)).mp h
    cases h
    exact ⟨hformat, hshape, hencodedLt, rfl⟩
  · rintro ⟨hformat, hshape, hencoded, rfl⟩
    dsimp only [rowScalePlanes] at hencoded
    have hcodes := le_roundUp (n * k) (show 0 < 256 by decide)
    refine ⟨hformat, hshape, ?_⟩
    refine (bind_eq_ok_of checkedMul_eq_ok_iff).mpr ⟨by omega, ?_⟩
    refine (bind_eq_ok_of (alignUp_eq_ok_iff (by omega) (by decide) h256)).mpr ⟨by omega, ?_⟩
    refine (bind_eq_ok_of checkedMul_eq_ok_iff).mpr ⟨by omega, ?_⟩
    exact (bind_eq_ok_of (checkedAdd_eq_ok_iff (by omega))).mpr ⟨by omega, rfl⟩

/-- The loop over a contiguous shape: no dimension is zero, and no partial product overflows
because the last one does not. -/
theorem elementCount_eq_ok {elements c : Nat} {shape : List Nat} (helements : 0 < elements)
    (hlt : elements < U64.size) :
    elementCount elements shape = .ok c ↔
      (∀ dim ∈ shape, dim ≠ 0) ∧ elements * shape.prod < U64.size ∧
        c = elements * shape.prod := by
  induction shape generalizing elements with
  | nil =>
    simp only [elementCount, List.prod_nil, Nat.mul_one, List.not_mem_nil, false_implies,
      implies_true, true_and]
    constructor
    · intro h
      cases h
      exact ⟨hlt, rfl⟩
    · rintro ⟨-, rfl⟩
      rfl
  | cons dim dims ih =>
    unfold elementCount
    rw [ensure_bind_eq_ok, List.prod_cons, ← Nat.mul_assoc, List.forall_mem_cons]
    constructor
    · rintro ⟨hdim, h⟩
      obtain ⟨product, hproduct, h⟩ := bind_eq_ok.mp h
      obtain ⟨hproductLt, rfl⟩ := checkedMul_eq_ok_iff.mp hproduct
      have hpos : 0 < elements * dim := Nat.mul_pos helements (Nat.pos_of_ne_zero hdim)
      obtain ⟨hdims, hlt', rfl⟩ := (ih hpos hproductLt).mp h
      exact ⟨⟨hdim, hdims⟩, hlt', rfl⟩
    · rintro ⟨⟨hdim, hdims⟩, hlt', rfl⟩
      have hpos : 0 < elements * dim := Nat.mul_pos helements (Nat.pos_of_ne_zero hdim)
      have hprod : 0 < dims.prod := 
        List.prod_pos_iff_forall_pos_nat.mpr fun d hd => Nat.pos_of_ne_zero (hdims d hd)
      have hproductLt : elements * dim < U64.size :=
        Nat.lt_of_le_of_lt (Nat.le_mul_of_pos_right _ hprod) hlt'
      refine ⟨hdim, ?_⟩
      refine bind_of_eq_ok (checkedMul_eq_ok_iff.mpr ⟨hproductLt, rfl⟩) ?_
      exact (ih hpos hproductLt).mpr ⟨hdims, hlt', rfl⟩

/-- The format of the converter with the name of a format of the engine. -/
def toolsFormat : NumericFormat → Tools.NumericFormat
  | .bf16 => .direct "BF16" 2
  | .fp32 => .direct "FP32" 4
  | .i32 => .direct "I32" 4
  | .q4g64F16s => .quant "Q4G64_F16S" 4 64
  | .q5g64F16s => .quant "Q5G64_F16S" 5 64
  | .q6g64F16s => .quant "Q6G64_F16S" 6 64
  | .w8g32F16s => .quant "W8G32_F16S" 8 32
  | .nvfp4 => .nvfp4 "NVFP4" 16
  | .fp8E4m3fnRowBf16s => .fp8Row "FP8_E4M3FN_ROW_BF16S"

/-- The layout of the converter with the name of a layout of the engine. -/
def toolsLayout : StorageLayout → Tools.Layout
  | .contiguousLeV1 => Tools.contiguousLeV1
  | .rowSplitK128V1 => Tools.rowSplitK128V1
  | .blockScaleK16M128x4V1 => Tools.blockscaleK16M128x4V1
  | .rowScaleV1 => Tools.rowScaleV1

section Agreement

variable {shape : List Nat}

theorem checkedShape_eq_ok {rank : Option Nat} {dims : List Nat} :
    Tools.checkedShape (shape.map Int.ofNat) rank = .ok dims ↔
      (∀ dim ∈ shape, dim ≠ 0) ∧ (∀ r ∈ rank, shape.length = r) ∧ dims = shape := by
  have hpos : (∀ dim ∈ shape.map Int.ofNat, 0 < dim) ↔ ∀ dim ∈ shape, dim ≠ 0 := by
    rw [List.forall_mem_map]
    constructor <;> intro h dim hdim <;> have := h dim hdim <;>
      simp only [Int.ofNat_eq_natCast] at * <;> omega
  have hcast : (shape.map Int.ofNat).map Int.toNat = shape := by
    rw [List.map_map]
    exact List.map_id'' (fun _ => rfl) shape
  unfold Tools.checkedShape
  rw [ensure_bind_eq_ok, ensure_bind_eq_ok, hpos, hcast, List.length_map]
  constructor
  · rintro ⟨hdims, hrank, h⟩
    cases h
    exact ⟨hdims, hrank, rfl⟩
  · rintro ⟨hdims, hrank, rfl⟩
    exact ⟨hdims, hrank, rfl⟩

theorem positiveRankTwo_iff :
    PositiveRankTwo shape ↔ (∀ dim ∈ shape, dim ≠ 0) ∧ (∀ r ∈ some 2, shape.length = r) := by
  unfold PositiveRankTwo
  constructor
  · rintro ⟨hlength, hn, hk⟩
    obtain ⟨n, k, rfl⟩ := List.length_eq_two.mp hlength
    simp only [List.getD_cons_zero, List.getD_cons_succ] at hn hk
    refine ⟨?_, fun r hr => (Option.mem_some_iff.mp hr) ▸ rfl⟩
    intro dim hdim
    rcases List.mem_pair.mp hdim with rfl | rfl
    · exact hn
    · exact hk
  · rintro ⟨hdims, hrank⟩
    obtain ⟨n, k, rfl⟩ := List.length_eq_two.mp (hrank 2 rfl)
    exact ⟨rfl, hdims n (List.mem_cons_self ..), hdims k (by simp)⟩

/-- The planes of a row-split tensor as the two computations name them. -/
structure SameRowSplit (g : RowSplitGeometry) (g' : Tools.RowSplitGeometry) : Prop where
  rows : g.rows = g'.n
  columns : g.columns = g'.k
  paddedColumns : g.paddedColumns = g'.kPad
  groupsPerRow : g.groupsPerRow = g'.groupsPerRow
  lowBytesPerGroup : g.lowBytesPerGroup = g'.baseBytesPerGroup
  highBytesPerGroup : g.highBytesPerGroup = g'.highBytesPerGroup
  lowPlaneBytes : g.lowPlaneBytes = g'.baseBytes
  highPlaneOffset : g.highPlaneOffset = g'.highOffset
  highPlaneBytes : g.highPlaneBytes = g'.highBytes
  scalePlaneOffset : g.scalePlaneOffset = g'.scaleOffset
  scalePlaneBytes : g.scalePlaneBytes = g'.scaleBytes
  encodedBytes : g.encodedBytes = g'.payloadBytes

/-- The planes of a block-scaled tensor as the two computations name them. -/
structure SameBlockScale (g : BlockScaleGeometry) (g' : Tools.BlockScaleGeometry) : Prop where
  rows : g.rows = g'.n
  columns : g.columns = g'.k
  groupsPerRow : g.groupsPerRow = g'.groupsPerRow
  kTiles : g.kTiles = g'.kTiles
  codePlaneBytes : g.codePlaneBytes = g'.codePlaneBytes
  scalePlaneOffset : g.scalePlaneOffset = g'.scalePlaneOffset
  scalePlaneBytes : g.scalePlaneBytes = g'.scalePlaneBytes
  weightDivisorOffset : g.weightDivisorOffset = g'.weightDivisorOffset
  encodedBytes : g.encodedBytes = g'.payloadBytes

/-- The planes of a row-scaled tensor as the two computations name them. -/
structure SameRowScale (g : RowScaleGeometry) (g' : Tools.RowScaleGeometry) : Prop where
  rows : g.rows = g'.n
  columns : g.columns = g'.k
  codePlaneBytes : g.codePlaneBytes = g'.codePlaneBytes
  scalePlaneOffset : g.scalePlaneOffset = g'.scalePlaneOffset
  scalePlaneBytes : g.scalePlaneBytes = g'.scalePlaneBytes
  encodedBytes : g.encodedBytes = g'.payloadBytes

/-- The group sizes of the engine are those computed from the bits of the converter's format. -/
theorem sameRowSplit_planes {format : NumericFormat} {q : QuantGeometry} {name : String}
    {bits groupSize : Nat} (hq : quantGeometry format = .ok q)
    (hf : toolsFormat format = .quant name bits groupSize) (n k : Nat) :
    SameRowSplit (rowSplitPlanes q n k) (Tools.quantGeometry bits groupSize n k) := by
  cases format <;> cases hq <;> cases hf <;>
    constructor <;>
    simp [rowSplitPlanes, Tools.quantGeometry, Tools.alignUp, Tools.kAlignment,
      Tools.planeAlignment, Nat.mul_assoc]

/-- The formats the engine has group sizes for are the grouped formats of the converter. -/
theorem quantGeometry_iff {format : NumericFormat} :
    (∃ q, quantGeometry format = .ok q) ↔
      ∃ name bits groupSize, toolsFormat format = .quant name bits groupSize := by
  cases format <;> simp [quantGeometry, toolsFormat]

/-- The two quantities that can overflow where the size of the tensor does not. -/
def CountsFit (layout : StorageLayout) (shape : List Nat) : Prop :=
  match layout with
  | .contiguousLeV1 => True
  | .rowSplitK128V1 => roundUp (shape.getD 1 0) 128 < U64.size
  | .blockScaleK16M128x4V1 => shape.getD 0 0 * shape.getD 1 0 < U64.size
  | .rowScaleV1 => True

/-- The grouped formats have at least one byte for a group in the base plane. -/
theorem quantGeometry_base_pos {format : NumericFormat} {q : QuantGeometry}
    (hq : quantGeometry format = .ok q) : 0 < q.baseBytesPerGroup := by
  cases format <;> cases hq <;> decide

theorem toolsRowSplitGeometry_eq_ok {format : NumericFormat} {g' : Tools.RowSplitGeometry} :
    Tools.rowSplitGeometry (toolsFormat format) (shape.map Int.ofNat) = .ok g' ↔
      ∃ name bits groupSize, toolsFormat format = .quant name bits groupSize ∧
        PositiveRankTwo shape ∧
        g' = Tools.quantGeometry bits groupSize (shape.getD 0 0) (shape.getD 1 0) := by
  rw [positiveRankTwo_iff]
  cases hf : toolsFormat format with
  | quant name bits groupSize =>
    unfold Tools.rowSplitGeometry
    dsimp only
    rw [bind_eq_ok]
    constructor
    · rintro ⟨dims, hdims, h⟩
      obtain ⟨hpos, hrank, rfl⟩ := checkedShape_eq_ok.mp hdims
      cases h
      exact ⟨name, bits, groupSize, rfl, ⟨hpos, hrank⟩, rfl⟩
    · rintro ⟨name', bits', groupSize', heq, ⟨hpos, hrank⟩, rfl⟩
      cases heq
      exact ⟨shape, checkedShape_eq_ok.mpr ⟨hpos, hrank, rfl⟩, rfl⟩
  | direct name wordBytes => simp [Tools.rowSplitGeometry]
  | nvfp4 name groupSize => simp [Tools.rowSplitGeometry]
  | fp8Row name => simp [Tools.rowSplitGeometry]

/-- The planes of the engine are planes of the converter. -/
theorem rowSplitGeometry_agrees {format : NumericFormat} {g : RowSplitGeometry}
    (hcolumns : shape.getD 1 0 < U64.size) (h : rowSplitGeometry format shape = .ok g) :
    ∃ g', Tools.rowSplitGeometry (toolsFormat format) (shape.map Int.ofNat) = .ok g' ∧
      SameRowSplit g g' ∧ g'.kPad < U64.size ∧ g'.payloadBytes < U64.size := by
  cases hq : quantGeometry format with
  | error e =>
    unfold rowSplitGeometry at h
    obtain ⟨-, h⟩ := ensure_bind_eq_ok.mp h
    rw [hq] at h
    cases h
  | ok q =>
    obtain ⟨name, bits, groupSize, hf⟩ := quantGeometry_iff.mp ⟨q, hq⟩
    obtain ⟨hshape, hpad, hencoded, rfl⟩ :=
      (rowSplitGeometry_eq_ok hq (quantGeometry_base_pos hq) hcolumns).mp h
    have hsame := sameRowSplit_planes hq hf (shape.getD 0 0) (shape.getD 1 0)
    refine ⟨_, toolsRowSplitGeometry_eq_ok.mpr ⟨name, bits, groupSize, hf, hshape, rfl⟩, hsame,
      hpad, ?_⟩
    rw [← hsame.encodedBytes]
    exact hencoded

/-- Planes of the converter are planes of the engine when the padded width and the size fit. -/
theorem rowSplitGeometry_of_tools {format : NumericFormat} {g' : Tools.RowSplitGeometry}
    (hcolumns : shape.getD 1 0 < U64.size)
    (h : Tools.rowSplitGeometry (toolsFormat format) (shape.map Int.ofNat) = .ok g')
    (hpad : g'.kPad < U64.size) (hsize : g'.payloadBytes < U64.size) :
    ∃ g, rowSplitGeometry format shape = .ok g ∧ SameRowSplit g g' := by
  obtain ⟨name, bits, groupSize, hf, hshape, rfl⟩ := toolsRowSplitGeometry_eq_ok.mp h
  obtain ⟨q, hq⟩ := quantGeometry_iff.mpr ⟨name, bits, groupSize, hf⟩
  have hsame := sameRowSplit_planes hq hf (shape.getD 0 0) (shape.getD 1 0)
  refine ⟨_, (rowSplitGeometry_eq_ok hq (quantGeometry_base_pos hq) hcolumns).mpr
    ⟨hshape, hpad, ?_, rfl⟩, hsame⟩
  rw [hsame.encodedBytes]
  exact hsize

theorem toolsBlockScaleGeometry_eq_ok {format : NumericFormat} {g' : Tools.BlockScaleGeometry} :
    Tools.blockScaleGeometry (toolsFormat format) (shape.map Int.ofNat) = .ok g' ↔
      format = .nvfp4 ∧ PositiveRankTwo shape ∧
        (shape.getD 0 0 % 128 = 0 ∧ shape.getD 1 0 % 64 = 0) ∧
        SameBlockScale (blockScalePlanes (shape.getD 0 0) (shape.getD 1 0)) g' := by
  rw [positiveRankTwo_iff]
  by_cases hf : format = .nvfp4
  · subst hf
    dsimp only [Tools.blockScaleGeometry, toolsFormat]
    rw [bind_eq_ok]
    constructor
    · rintro ⟨dims, hdims, h⟩
      obtain ⟨hpos, hrank, rfl⟩ := checkedShape_eq_ok.mp hdims
      obtain ⟨hdiv, h⟩ := ensure_bind_eq_ok.mp h
      cases h
      exact ⟨rfl, ⟨hpos, hrank⟩, hdiv, ⟨rfl, rfl, rfl, rfl, rfl, rfl, rfl, rfl, rfl⟩⟩
    · rintro ⟨-, ⟨hpos, hrank⟩, hdiv, hsame⟩
      refine ⟨shape, checkedShape_eq_ok.mpr ⟨hpos, hrank, rfl⟩, ?_⟩
      apply ensure_bind_eq_ok.mpr
      refine ⟨hdiv, ?_⟩
      obtain ⟨n, k, groupsPerRow, kTiles, codes, scaleOffset, scales, divisor, payload⟩ := g'
      obtain ⟨rfl, rfl, rfl, rfl, rfl, rfl, rfl, rfl, rfl⟩ := hsame
      rfl
  · cases format <;> first | exact absurd rfl hf | simp [Tools.blockScaleGeometry, toolsFormat]

theorem toolsRowScaleGeometry_eq_ok {format : NumericFormat} {g' : Tools.RowScaleGeometry} :
    Tools.rowScaleGeometry (toolsFormat format) (shape.map Int.ofNat) = .ok g' ↔
      format = .fp8E4m3fnRowBf16s ∧ PositiveRankTwo shape ∧
        SameRowScale (rowScalePlanes (shape.getD 0 0) (shape.getD 1 0)) g' := by
  rw [positiveRankTwo_iff]
  by_cases hf : format = .fp8E4m3fnRowBf16s
  · subst hf
    dsimp only [Tools.rowScaleGeometry, toolsFormat]
    rw [bind_eq_ok]
    constructor
    · rintro ⟨dims, hdims, h⟩
      obtain ⟨hpos, hrank, rfl⟩ := checkedShape_eq_ok.mp hdims
      cases h
      exact ⟨rfl, ⟨hpos, hrank⟩, ⟨rfl, rfl, rfl, rfl, rfl, rfl⟩⟩
    · rintro ⟨-, ⟨hpos, hrank⟩, hsame⟩
      refine ⟨shape, checkedShape_eq_ok.mpr ⟨hpos, hrank, rfl⟩, ?_⟩
      obtain ⟨n, k, codes, scaleOffset, scales, payload⟩ := g'
      obtain ⟨rfl, rfl, rfl, rfl, rfl, rfl⟩ := hsame
      rfl
  · cases format <;> first | exact absurd rfl hf | simp [Tools.rowScaleGeometry, toolsFormat]

/-- The planes of the engine are planes of the converter. -/
theorem blockScaleGeometry_agrees {format : NumericFormat} {g : BlockScaleGeometry}
    (h : blockScaleGeometry format shape = .ok g) :
    ∃ g', Tools.blockScaleGeometry (toolsFormat format) (shape.map Int.ofNat) = .ok g' ∧
      SameBlockScale g g' ∧ shape.getD 0 0 * shape.getD 1 0 < U64.size ∧
      g'.payloadBytes < U64.size ∧ format = .nvfp4 := by
  obtain ⟨hf, hshape, hdiv, hcount, hsize, rfl⟩ := blockScaleGeometry_eq_ok.mp h
  have hsame : SameBlockScale (blockScalePlanes (shape.getD 0 0) (shape.getD 1 0))
      ⟨_, _, _, _, _, _, _, _, _⟩ := ⟨rfl, rfl, rfl, rfl, rfl, rfl, rfl, rfl, rfl⟩
  exact ⟨_, toolsBlockScaleGeometry_eq_ok.mpr ⟨hf, hshape, hdiv, hsame⟩, hsame, hcount, hsize, hf⟩

/-- The planes of the engine are planes of the converter. -/
theorem rowScaleGeometry_agrees {format : NumericFormat} {g : RowScaleGeometry}
    (h : rowScaleGeometry format shape = .ok g) :
    ∃ g', Tools.rowScaleGeometry (toolsFormat format) (shape.map Int.ofNat) = .ok g' ∧
      SameRowScale g g' ∧ g'.payloadBytes < U64.size ∧ format = .fp8E4m3fnRowBf16s := by
  obtain ⟨hf, hshape, hsize, rfl⟩ := rowScaleGeometry_eq_ok.mp h
  have hsame : SameRowScale (rowScalePlanes (shape.getD 0 0) (shape.getD 1 0))
      ⟨_, _, _, _, _, _⟩ := ⟨rfl, rfl, rfl, rfl, rfl, rfl⟩
  exact ⟨_, toolsRowScaleGeometry_eq_ok.mpr ⟨hf, hshape, hsame⟩, hsame, hsize, hf⟩

/-- Planes of the converter are planes of the engine when the element count and the size fit. -/
theorem blockScaleGeometry_of_tools {format : NumericFormat} {g' : Tools.BlockScaleGeometry}
    (h : Tools.blockScaleGeometry (toolsFormat format) (shape.map Int.ofNat) = .ok g')
    (hcount : shape.getD 0 0 * shape.getD 1 0 < U64.size) (hsize : g'.payloadBytes < U64.size) :
    ∃ g, blockScaleGeometry format shape = .ok g ∧ SameBlockScale g g' := by
  obtain ⟨hf, hshape, hdiv, hsame⟩ := toolsBlockScaleGeometry_eq_ok.mp h
  refine ⟨_, blockScaleGeometry_eq_ok.mpr ⟨hf, hshape, hdiv, hcount, ?_, rfl⟩, hsame⟩
  rw [hsame.encodedBytes]
  exact hsize

/-- Planes of the converter are planes of the engine when the size fits. -/
theorem rowScaleGeometry_of_tools {format : NumericFormat} {g' : Tools.RowScaleGeometry}
    (h : Tools.rowScaleGeometry (toolsFormat format) (shape.map Int.ofNat) = .ok g')
    (hsize : g'.payloadBytes < U64.size) :
    ∃ g, rowScaleGeometry format shape = .ok g ∧ SameRowScale g g' := by
  obtain ⟨hf, hshape, hsame⟩ := toolsRowScaleGeometry_eq_ok.mp h
  refine ⟨_, rowScaleGeometry_eq_ok.mpr ⟨hf, hshape, ?_, rfl⟩, hsame⟩
  rw [hsame.encodedBytes]
  exact hsize

/-- `encoded_size` by the layout and the format of the engine. -/
theorem encodedSize_names (layout : StorageLayout) (format : NumericFormat) (shape : List Int) :
    Tools.encodedSize (layoutName layout) (formatName format) shape = (do
      ensure ((toolsFormat format).name ∈ (toolsLayout layout).formats)
        (.formatNotAccepted (toolsLayout layout).name (toolsFormat format).name)
      match layout with
      | .contiguousLeV1 => Tools.contiguousSize (toolsFormat format) shape
      | .rowSplitK128V1 => do
        let geometry ← Tools.rowSplitGeometry (toolsFormat format) shape
        return geometry.payloadBytes
      | .blockScaleK16M128x4V1 => do
        let geometry ← Tools.blockScaleGeometry (toolsFormat format) shape
        return geometry.payloadBytes
      | .rowScaleV1 => do
        let geometry ← Tools.rowScaleGeometry (toolsFormat format) shape
        return geometry.payloadBytes) := by
  cases layout <;> cases format <;> rfl

theorem contiguousSize_agrees {format : NumericFormat} {s : Nat} :
    tensorEncodedSize .contiguousLeV1 format shape = .ok s ↔
      Tools.encodedSize (layoutName .contiguousLeV1) (formatName format) (shape.map Int.ofNat) =
        .ok s ∧ s < U64.size := by
  have hone : 1 < U64.size := by decide
  rw [encodedSize_names, ensure_bind_eq_ok]
  unfold tensorEncodedSize
  dsimp only
  rw [ensure_bind_eq_ok]
  cases hword : directWordBytes format with
  | error e =>
    -- the engine has no word size for the formats the layout does not accept
    constructor
    · rintro ⟨-, h⟩
      obtain ⟨elements, -, h⟩ := bind_eq_ok.mp h
      cases h
    · rintro ⟨⟨hmem, -⟩, -⟩
      cases format <;> first | exact absurd hmem (by decide) | cases hword
  | ok wordBytes =>
    obtain ⟨name, hf, hmem⟩ : ∃ name, toolsFormat format = .direct name wordBytes ∧
        (toolsFormat format).name ∈ (toolsLayout .contiguousLeV1).formats := by
      cases format <;> cases hword <;> exact ⟨_, rfl, by decide⟩
    rw [hf]
    unfold Tools.contiguousSize
    dsimp only
    rw [bind_eq_ok, bind_eq_ok]
    constructor
    · rintro ⟨hrank, elements, helements, h⟩
      obtain ⟨hdims, -, rfl⟩ := (elementCount_eq_ok Nat.one_pos hone).mp helements
      obtain ⟨hlt, rfl⟩ := checkedMul_eq_ok_iff.mp h
      rw [Nat.one_mul] at hlt ⊢
      refine ⟨⟨hf ▸ hmem, shape, checkedShape_eq_ok.mpr ⟨hdims, by simp, rfl⟩, ?_⟩, hlt⟩
      exact ensure_bind_eq_ok.mpr ⟨hrank, rfl⟩
    · rintro ⟨⟨-, dims, hdims, h⟩, hlt⟩
      obtain ⟨hpos, -, rfl⟩ := checkedShape_eq_ok.mp hdims
      obtain ⟨hrank, h⟩ := ensure_bind_eq_ok.mp h
      cases h
      have hprod : dims.prod < U64.size := by
        have hw : 0 < wordBytes := by cases format <;> cases hword <;> decide
        exact Nat.lt_of_le_of_lt (Nat.le_mul_of_pos_right _ hw) hlt
      refine ⟨hrank, dims.prod, ?_, checkedMul_eq_ok_iff.mpr ⟨hlt, rfl⟩⟩
      apply (elementCount_eq_ok Nat.one_pos hone).mpr
      rw [Nat.one_mul]
      exact ⟨hpos, hprod, rfl⟩

/-- **The two sizes agree.** On a shape of 64-bit dimensions the engine computes a size exactly
when the converter computes the same, it fits, and the two counts fit. -/
theorem tensorEncodedSize_eq_ok_iff {layout : StorageLayout} {format : NumericFormat} {s : Nat}
    (hdims : ∀ dim ∈ shape, dim < U64.size) :
    tensorEncodedSize layout format shape = .ok s ↔
      Tools.encodedSize (layoutName layout) (formatName format) (shape.map Int.ofNat) = .ok s ∧
        s < U64.size ∧ CountsFit layout shape := by
  have hcolumns : shape.getD 1 0 < U64.size := by
    rw [List.getD_eq_getElem?_getD]
    cases hk : shape[1]? with
    | none => decide
    | some k => exact hdims k (List.mem_of_getElem? hk)
  -- One case per layout: each side's geometry is that of the other, within the word.
  cases layout with
  | contiguousLeV1 =>
    rw [contiguousSize_agrees]
    simp only [CountsFit, and_true]
  | rowSplitK128V1 =>
    rw [encodedSize_names, ensure_bind_eq_ok]
    unfold tensorEncodedSize CountsFit
    dsimp only
    rw [ensure_bind_eq_ok, bind_eq_ok, bind_eq_ok]
    constructor
    · rintro ⟨-, g, hg, h⟩
      cases h
      obtain ⟨g', hg', hsame, hpad, hsize⟩ := rowSplitGeometry_agrees hcolumns hg
      obtain ⟨name, bits, groupSize, hf, -, rfl⟩ := toolsRowSplitGeometry_eq_ok.mp hg'
      refine ⟨⟨?_, _, hg', ?_⟩, ?_, hpad⟩
      · cases format <;> first | decide | cases hf
      · rw [hsame.encodedBytes]
        rfl
      · rw [hsame.encodedBytes]
        exact hsize
    · rintro ⟨⟨-, g', hg', h⟩, hlt, hpad⟩
      cases h
      obtain ⟨name, bits, groupSize, hf, hshape, rfl⟩ := toolsRowSplitGeometry_eq_ok.mp hg'
      obtain ⟨g, hg, hsame⟩ := rowSplitGeometry_of_tools hcolumns hg' hpad hlt
      refine ⟨hshape, g, hg, ?_⟩
      rw [hsame.encodedBytes]
      rfl
  | blockScaleK16M128x4V1 =>
    rw [encodedSize_names, ensure_bind_eq_ok]
    unfold tensorEncodedSize CountsFit
    dsimp only
    rw [bind_eq_ok, bind_eq_ok]
    constructor
    · rintro ⟨g, hg, h⟩
      cases h
      obtain ⟨g', hg', hsame, hcount, hsize, rfl⟩ := blockScaleGeometry_agrees hg
      rw [hsame.encodedBytes]
      exact ⟨⟨by decide, g', hg', rfl⟩, hsize, hcount⟩
    · rintro ⟨⟨-, g', hg', h⟩, hlt, hcount⟩
      cases h
      obtain ⟨g, hg, hsame⟩ := blockScaleGeometry_of_tools hg' hcount hlt
      refine ⟨g, hg, ?_⟩
      rw [hsame.encodedBytes]
      rfl
  | rowScaleV1 =>
    rw [encodedSize_names, ensure_bind_eq_ok]
    unfold tensorEncodedSize CountsFit
    dsimp only
    rw [bind_eq_ok, bind_eq_ok, and_true]
    constructor
    · rintro ⟨g, hg, h⟩
      cases h
      obtain ⟨g', hg', hsame, hsize, rfl⟩ := rowScaleGeometry_agrees hg
      rw [hsame.encodedBytes]
      exact ⟨⟨by decide, g', hg', rfl⟩, hsize⟩
    · rintro ⟨⟨-, g', hg', h⟩, hlt⟩
      cases h
      obtain ⟨g, hg, hsame⟩ := rowScaleGeometry_of_tools hg' hlt
      refine ⟨g, hg, ?_⟩
      rw [hsame.encodedBytes]
      rfl

end Agreement

end Ninfer.Artifact
