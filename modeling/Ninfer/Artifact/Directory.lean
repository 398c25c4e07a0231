import Ninfer.Artifact.Container
import Ninfer.Artifact.Reader
import Ninfer.Artifact.Sizes

/-!
# Directories both sides accept

What `plan_objects` guarantees of the objects it plans, and that both readers take a directory of
such objects back: the converter's reader always, the engine's where the sizes fit 64 bits.

## Main definitions

* `Tools.ArtifactObject.Valid`, `Placed`: what both readers check of an object and of the ranges
* `Describes`: the descriptor of the engine for an object of the converter
* `Fits`: the sizes of an object fit 64 bits

## Main results

* `planFrom_spec`: planned objects are valid, in order and have different names
* `Tools.parseObject_toJson`, `parseObject_toJson`: an entry of the directory is read back
* `Tools.parseDirectory_of_valid`, `readDirectory_of_valid`: so is the directory
-/

namespace Ninfer.Artifact

section Words

theorem unpackWord_packWord {value : Nat} (h : value < U64.size) :
    Tools.unpackWord (Tools.packWord value) = value := by
  simp only [Tools.packWord, Tools.unpackWord, List.range, List.range.loop, List.map_cons,
    List.map_nil, List.foldr_cons, List.foldr_nil, UInt8.toNat_ofNat']
  unfold U64.size at h
  omega

/-- A byte above the bits of a word is added to it. -/
theorem lor_shiftLeft {value byte i : Nat} (h : value < 2 ^ i) :
    value ||| byte <<< i = value + byte * 2 ^ i := by
  rw [Nat.or_comm, ← Nat.shiftLeft_add_eq_or_of_lt h, Nat.shiftLeft_eq, Nat.add_comm]

/-- The loop of `read_u64_le` adds up the bytes. -/
theorem readU64Le_cons (b₀ b₁ b₂ b₃ b₄ b₅ b₆ b₇ : UInt8) (rest : List UInt8) :
    readU64Le (b₀ :: b₁ :: b₂ :: b₃ :: b₄ :: b₅ :: b₆ :: b₇ :: rest) =
      Tools.unpackWord [b₀, b₁, b₂, b₃, b₄, b₅, b₆, b₇] := by
  have h₀ := b₀.toNat_lt
  have h₁ := b₁.toNat_lt
  have h₂ := b₂.toNat_lt
  have h₃ := b₃.toNat_lt
  have h₄ := b₄.toNat_lt
  have h₅ := b₅.toNat_lt
  have h₆ := b₆.toNat_lt
  simp only [readU64Le, List.range, List.range.loop, List.foldl_cons, List.foldl_nil,
    List.getD_cons_zero, List.getD_cons_succ, Tools.unpackWord, List.foldr_cons, List.foldr_nil,
    Nat.zero_mul, Nat.one_mul, Nat.shiftLeft_zero, Nat.zero_or, Nat.reduceMul]
  rw [lor_shiftLeft (i := 8) (by omega), lor_shiftLeft (i := 16) (by omega),
    lor_shiftLeft (i := 24) (by omega), lor_shiftLeft (i := 32) (by omega),
    lor_shiftLeft (i := 40) (by omega), lor_shiftLeft (i := 48) (by omega),
    lor_shiftLeft (i := 56) (by omega)]
  omega

theorem readU64Le_packWord {value : Nat} (h : value < U64.size) (rest : List UInt8) :
    readU64Le (Tools.packWord value ++ rest) = value := by
  refine Eq.trans ?_ (unpackWord_packWord h)
  exact readU64Le_cons _ _ _ _ _ _ _ _ rest

theorem length_packWord (value : Nat) : (Tools.packWord value).length = 8 := rfl

end Words

section Names

theorem getLayout_eq_ok {name : String} {layout : Tools.Layout}
    (h : Tools.getLayout name = .ok layout) :
    ∃ l, name = layoutName l ∧ layout = toolsLayout l := by
  unfold Tools.getLayout at h
  split at h
  · rename_i found hfound
    cases h
    have hname : layout.name = name := by
      have := List.find?_some hfound
      exact beq_iff_eq.mp this
    have hmem : layout ∈ Tools.layouts := List.mem_of_find?_eq_some hfound
    simp only [Tools.layouts, List.mem_cons, List.not_mem_nil, or_false] at hmem
    subst hname
    rcases hmem with rfl | rfl | rfl | rfl
    · exact ⟨.contiguousLeV1, rfl, rfl⟩
    · exact ⟨.rowSplitK128V1, rfl, rfl⟩
    · exact ⟨.blockScaleK16M128x4V1, rfl, rfl⟩
    · exact ⟨.rowScaleV1, rfl, rfl⟩
  · cases h

theorem getFormat_eq_ok {name : String} {format : Tools.NumericFormat}
    (h : Tools.getFormat name = .ok format) :
    ∃ f, name = formatName f ∧ format = toolsFormat f := by
  unfold Tools.getFormat at h
  split at h
  · rename_i found hfound
    cases h
    have hname : format.name = name := by
      have := List.find?_some hfound
      exact beq_iff_eq.mp this
    have hmem : format ∈ Tools.numericFormats := List.mem_of_find?_eq_some hfound
    simp only [Tools.numericFormats, List.mem_cons, List.not_mem_nil, or_false] at hmem
    subst hname
    rcases hmem with rfl | rfl | rfl | rfl | rfl | rfl | rfl | rfl | rfl
    · exact ⟨.bf16, rfl, rfl⟩
    · exact ⟨.fp32, rfl, rfl⟩
    · exact ⟨.i32, rfl, rfl⟩
    · exact ⟨.q4g64F16s, rfl, rfl⟩
    · exact ⟨.q5g64F16s, rfl, rfl⟩
    · exact ⟨.q6g64F16s, rfl, rfl⟩
    · exact ⟨.w8g32F16s, rfl, rfl⟩
    · exact ⟨.nvfp4, rfl, rfl⟩
    · exact ⟨.fp8E4m3fnRowBf16s, rfl, rfl⟩
  · cases h

/-- A size was computed for a layout and a format the engine has. -/
theorem encodedSize_eq_ok {layout format : String} {shape : List Int} {s : Nat}
    (h : Tools.encodedSize layout format shape = .ok s) :
    ∃ l f, layout = layoutName l ∧ format = formatName f := by
  obtain ⟨layoutSpec, hlayout, h⟩ := bind_eq_ok.mp h
  obtain ⟨numericSpec, hformat, h⟩ := bind_eq_ok.mp h
  obtain ⟨l, hl, -⟩ := getLayout_eq_ok hlayout
  obtain ⟨f, hf, -⟩ := getFormat_eq_ok hformat
  exact ⟨l, f, hl, hf⟩

theorem parseFormat_formatName (f : NumericFormat) : parseFormat (formatName f) = .ok f := by
  cases f <;> rfl

theorem parseLayout_layoutName (l : StorageLayout) : parseLayout (layoutName l) = .ok l := by
  cases l <;> rfl

end Names

section Extents

variable {shape : List Nat}

/-- The base plane has a byte for each row. -/
theorem le_quantGeometry (bits n : Nat) {groupSize k : Nat} (hgroup : 2 ≤ groupSize ∧ groupSize ≤ 128)
    (hk : 0 < k) : n ≤ (Tools.quantGeometry bits groupSize n k).payloadBytes := by
  have hpad : 128 ≤ roundUp k 128 := by
    have hdvd := dvd_roundUp k 128
    have hle := le_roundUp k (show 0 < 128 by decide)
    exact Nat.le_of_dvd (by omega) hdvd
  have hgroups : 0 < roundUp k 128 / groupSize := Nat.div_pos (by omega) (by omega)
  have hbase : 0 < if bits = 8 then groupSize else groupSize / 2 := by
    split_ifs <;> omega
  dsimp only [Tools.quantGeometry, Tools.alignUp, Tools.kAlignment, Tools.planeAlignment]
  have hrow : n ≤ n * (roundUp k 128 / groupSize * if bits = 8 then groupSize else groupSize / 2) :=
    Nat.le_mul_of_pos_right n (Nat.mul_pos hgroups hbase)
  have hup := le_roundUp
    (n * (roundUp k 128 / groupSize * if bits = 8 then groupSize else groupSize / 2))
    (show 0 < 256 by decide)
  omega

/-- The dimensions of a rank-two shape. -/
theorem PositiveRankTwo.exists (h : PositiveRankTwo shape) :
    ∃ n k, shape = [n, k] ∧ 0 < n ∧ 0 < k := by
  obtain ⟨hlength, hn, hk⟩ := h
  obtain ⟨n, k, rfl⟩ := List.length_eq_two.mp hlength
  exact ⟨n, k, rfl, Nat.pos_of_ne_zero hn, Nat.pos_of_ne_zero hk⟩

theorem toolsFormat_groupSize {f : NumericFormat} {name : String} {bits groupSize : Nat}
    (h : toolsFormat f = .quant name bits groupSize) : 2 ≤ groupSize ∧ groupSize ≤ 128 := by
  cases f <;> cases h <;> decide

/-- What a computed size says of the shape: it is positive, no dimension is zero, and the
dimensions fit 64 bits where the size and the counts do. -/
theorem encodedSize_extents {l : StorageLayout} {f : NumericFormat} {s : Nat}
    (h : Tools.encodedSize (layoutName l) (formatName f) (shape.map Int.ofNat) = .ok s) :
    0 < s ∧ (s < U64.size → CountsFit l shape → ∀ dim ∈ shape, dim < U64.size) := by
  rw [encodedSize_names] at h
  obtain ⟨hmem, h⟩ := ensure_bind_eq_ok.mp h
  cases l with
  | contiguousLeV1 =>
    obtain ⟨name, wordBytes, hf, hword⟩ :
        ∃ name wordBytes, toolsFormat f = .direct name wordBytes ∧ 0 < wordBytes := by
      cases f <;> first | exact absurd hmem (by decide) | exact ⟨_, _, rfl, by decide⟩
    dsimp only at h
    rw [hf] at h
    unfold Tools.contiguousSize at h
    obtain ⟨dims, hdims, hsize⟩ := bind_eq_ok.mp h
    obtain ⟨hpos, -, rfl⟩ := checkedShape_eq_ok.mp hdims
    obtain ⟨-, hsize⟩ := ensure_bind_eq_ok.mp hsize
    cases hsize
    -- A factor of a product is at most the product.
    have hprod : 0 < dims.prod :=
      List.prod_pos_iff_forall_pos_nat.mpr fun d hd => Nat.pos_of_ne_zero (hpos d hd)
    refine ⟨Nat.mul_pos hprod hword, ?_⟩
    intro hlt _ dim hdim
    have hle : dim ≤ dims.prod := Nat.le_of_dvd hprod (List.dvd_prod hdim)
    exact Nat.lt_of_le_of_lt (Nat.le_trans hle (Nat.le_mul_of_pos_right _ hword)) hlt
  | rowSplitK128V1 =>
    obtain ⟨g, hg, h⟩ := bind_eq_ok.mp h
    cases h
    obtain ⟨name, bits, groupSize, hf, hshape, rfl⟩ := toolsRowSplitGeometry_eq_ok.mp hg
    obtain ⟨n, k, rfl, hn, hk⟩ := hshape.exists
    have hle := le_quantGeometry bits n (toolsFormat_groupSize hf) hk
    simp only [List.getD_cons_zero, List.getD_cons_succ]
    refine ⟨Nat.lt_of_lt_of_le hn hle, ?_⟩
    intro hlt hcounts dim hdim
    rcases List.mem_pair.mp hdim with rfl | rfl
    · exact Nat.lt_of_le_of_lt hle hlt
    · exact Nat.lt_of_le_of_lt (le_roundUp _ (by decide)) hcounts
  | blockScaleK16M128x4V1 =>
    obtain ⟨g, hg, h⟩ := bind_eq_ok.mp h
    cases h
    obtain ⟨-, hshape, -, hsame⟩ := toolsBlockScaleGeometry_eq_ok.mp hg
    obtain ⟨n, k, rfl, hn, hk⟩ := hshape.exists
    rw [← hsame.encodedBytes]
    dsimp only [blockScalePlanes]
    refine ⟨by omega, ?_⟩
    intro hlt hcounts dim hdim
    have hcount : n * k < U64.size := hcounts
    rcases List.mem_pair.mp hdim with rfl | rfl
    · exact Nat.lt_of_le_of_lt (Nat.le_mul_of_pos_right _ hk) hcount
    · exact Nat.lt_of_le_of_lt (Nat.le_mul_of_pos_left _ hn) hcount
  | rowScaleV1 =>
    obtain ⟨g, hg, h⟩ := bind_eq_ok.mp h
    cases h
    obtain ⟨-, hshape, hsame⟩ := toolsRowScaleGeometry_eq_ok.mp hg
    obtain ⟨n, k, rfl, hn, hk⟩ := hshape.exists
    rw [← hsame.encodedBytes]
    simp only [rowScalePlanes, List.getD_cons_zero, List.getD_cons_succ]
    have hle := le_roundUp (n * k) (show 0 < 256 by decide)
    refine ⟨by omega, ?_⟩
    intro hlt _ dim hdim
    rcases List.mem_pair.mp hdim with rfl | rfl
    · have := Nat.le_mul_of_pos_right dim hk
      omega
    · have := Nat.le_mul_of_pos_left dim hn
      omega

end Extents

namespace Tools

/-- What both readers check of an object apart from its place. -/
def ArtifactObject.Valid : ArtifactObject → Prop
  | tensor object =>
    object.name ≠ "" ∧ object.format ≠ "" ∧ object.layout ≠ "" ∧
      (∀ dim ∈ object.shape, dim ≠ 0) ∧ 0 < object.bytes ∧
      encodedSize object.layout object.format (object.shape.map Int.ofNat) = .ok object.bytes
  | resource object => object.name ≠ "" ∧ object.encoding = rawBytesV1 ∧ 0 < object.bytes

/-- An object carries what its specification says. -/
def ArtifactObject.Matches : ObjectSpec → ArtifactObject → Prop
  | .tensor spec, .tensor object =>
    object.name = spec.name ∧ object.shape.map Int.ofNat = spec.shape ∧
      object.format = spec.format ∧ object.layout = spec.layout
  | .resource spec, .resource object =>
    object.name = spec.name ∧ object.encoding = spec.encoding ∧ (object.bytes : Int) = spec.bytes
  | _, _ => False

/-- The end of the last object from a cursor. -/
def lastEnd (cursor : Nat) : List ArtifactObject → Nat
  | [] => cursor
  | object :: objects => lastEnd (object.offset + object.bytes) objects

/-- Objects that lie one after the other from a cursor, aligned. -/
def Placed (cursor : Nat) : List ArtifactObject → Prop
  | [] => True
  | object :: objects =>
    cursor ≤ object.offset ∧
      (∃ alignment, objectAlignment object = .ok alignment ∧ object.offset % alignment = 0) ∧
      Placed (object.offset + object.bytes) objects

theorem le_lastEnd {cursor : Nat} {objects : List ArtifactObject} (h : Placed cursor objects) :
    cursor ≤ lastEnd cursor objects := by
  induction objects generalizing cursor with
  | nil => exact Nat.le_refl _
  | cons object objects ih =>
    have := ih h.2.2
    have := h.1
    unfold lastEnd
    omega

section Plan

theorem requireText_eq_ok {value field text : String} :
    requireText value field = .ok text ↔ value ≠ "" ∧ text = value := by
  unfold requireText
  rw [ensure_bind_eq_ok]
  constructor
  · rintro ⟨hne, h⟩
    cases h
    exact ⟨hne, rfl⟩
  · rintro ⟨hne, rfl⟩
    exact ⟨hne, rfl⟩

theorem requireInteger_eq_ok {value : Int} {field : String} {positive : Bool} {n : Nat} :
    requireInteger value field positive = .ok n ↔
      (n : Int) = value ∧ (positive = true → n ≠ 0) := by
  unfold requireInteger
  rw [ensure_bind_eq_ok]
  constructor
  · rintro ⟨hle, h⟩
    cases h
    cases positive
    · simp only [Bool.false_eq_true, if_false] at hle
      exact ⟨by omega, by simp⟩
    · simp only [if_true] at hle
      exact ⟨by omega, fun _ => by omega⟩
  · rintro ⟨rfl, hpos⟩
    refine ⟨?_, by simp [pure, Except.pure]⟩
    cases positive
    · simp
    · have := hpos rfl
      simp only [if_true]
      omega

theorem mapM_requireInteger {dims : List Int} {shape : List Nat} {field : String}
    (h : (dims.mapM fun dim => requireInteger dim field true) = .ok shape) :
    shape.map Int.ofNat = dims ∧ ∀ dim ∈ shape, dim ≠ 0 := by
  induction dims generalizing shape with
  | nil =>
    cases h
    exact ⟨rfl, by simp⟩
  | cons dim dims ih =>
    rw [List.mapM_cons] at h
    obtain ⟨n, hn, h⟩ := bind_eq_ok.mp h
    obtain ⟨rest, hrest, h⟩ := bind_eq_ok.mp h
    cases h
    obtain ⟨rfl, hne⟩ := requireInteger_eq_ok.mp hn
    obtain ⟨rfl, hnes⟩ := ih hrest
    refine ⟨rfl, ?_⟩
    intro d hd
    rcases List.mem_cons.mp hd with rfl | hd
    · exact hne rfl
    · exact hnes d hd

theorem planObject_spec {cursor : Nat} {spec : ObjectSpec} {object : ArtifactObject}
    (hname : spec.name ≠ "") (h : planObject cursor spec = .ok object) :
    object.Valid ∧ ArtifactObject.Matches spec object ∧ object.name = spec.name ∧
      cursor ≤ object.offset ∧
      ∃ alignment, objectAlignment object = .ok alignment ∧ object.offset % alignment = 0 := by
  cases spec with
  | tensor spec =>
    obtain ⟨shape, hshape, h⟩ := bind_eq_ok.mp h
    obtain ⟨layoutText, hlayoutText, h⟩ := bind_eq_ok.mp h
    obtain ⟨layout, hlayout, h⟩ := bind_eq_ok.mp h
    obtain ⟨size, hsize, h⟩ := bind_eq_ok.mp h
    obtain ⟨format, hformat, h⟩ := bind_eq_ok.mp h
    cases h
    obtain ⟨hlayoutNe, rfl⟩ := requireText_eq_ok.mp hlayoutText
    obtain ⟨hformatNe, rfl⟩ := requireText_eq_ok.mp hformat
    obtain ⟨hmap, hdims⟩ := mapM_requireInteger hshape
    obtain ⟨l, hl, rfl⟩ := getLayout_eq_ok hlayout
    have hlname : (toolsLayout l).name = spec.layout := by
      rw [hl]
      cases l <;> rfl
    have hpos : 0 < (toolsLayout l).alignment := by cases l <;> decide
    obtain ⟨l', f, hl', hf⟩ := encodedSize_eq_ok hsize
    have hsizePos : 0 < size := by
      rw [hl', hf] at hsize
      exact (encodedSize_extents hsize).1
    refine ⟨⟨hname, hformatNe, ?_, hdims, hsizePos, hsize⟩, ⟨rfl, hmap, rfl, hlname⟩, rfl,
      le_roundUp _ hpos, (toolsLayout l).alignment, ?_, ?_⟩
    · rw [hlname]
      exact hlayoutNe
    · dsimp only [objectAlignment]
      rw [hlname, hlayout]
      rfl
    · exact Nat.mod_eq_zero_of_dvd (dvd_roundUp _ _)
  | resource spec =>
    obtain ⟨encoding, hencoding, h⟩ := bind_eq_ok.mp h
    obtain ⟨alignment, halignment, h⟩ := bind_eq_ok.mp h
    obtain ⟨size, hsize, h⟩ := bind_eq_ok.mp h
    cases h
    obtain ⟨-, rfl⟩ := requireText_eq_ok.mp hencoding
    obtain ⟨hcast, hne⟩ := requireInteger_eq_ok.mp hsize
    have hone := halignment
    unfold resourceAlignment at hone
    obtain ⟨hencoded, hone⟩ := ensure_bind_eq_ok.mp hone
    cases hone
    refine ⟨⟨hname, hencoded, Nat.pos_of_ne_zero (hne rfl)⟩, ⟨rfl, rfl, hcast⟩, rfl,
      le_roundUp _ (by decide), 1, halignment, Nat.mod_one _⟩

/-- Planned objects are valid, carry their specifications, lie one after the other from the
cursor, and have names that differ from each other and from those already taken. -/
theorem planFrom_spec {cursor : Nat} {names : List String} {specs : List ObjectSpec}
    {objects : List ArtifactObject} (h : planFrom cursor names specs = .ok objects) :
    (∀ object ∈ objects, object.Valid) ∧ List.Forall₂ ArtifactObject.Matches specs objects ∧
      Placed cursor objects ∧ (objects.map ArtifactObject.name).Nodup ∧
      objects.map ArtifactObject.name = specs.map ObjectSpec.name ∧
      ∀ object ∈ objects, object.name ∉ names := by
  induction specs generalizing cursor names objects with
  | nil =>
    cases h
    exact ⟨by simp, .nil, trivial, List.nodup_nil, rfl, by simp⟩
  | cons spec specs ih =>
    unfold planFrom at h
    obtain ⟨name, hname, h⟩ := bind_eq_ok.mp h
    obtain ⟨hne, rfl⟩ := requireText_eq_ok.mp hname
    obtain ⟨hfresh, h⟩ := ensure_bind_eq_ok.mp h
    obtain ⟨object, hobject, h⟩ := bind_eq_ok.mp h
    obtain ⟨rest, hrest, h⟩ := bind_eq_ok.mp h
    cases h
    obtain ⟨hvalid, hmatches, hobjectName, hle, halign⟩ := planObject_spec hne hobject
    obtain ⟨hvalids, hall, hplaced, hnodup, hnames, hnotin⟩ := ih hrest
    refine ⟨?_, .cons hmatches hall, ⟨hle, halign, hplaced⟩, ?_, ?_, ?_⟩
    · exact List.forall_mem_cons.mpr ⟨hvalid, hvalids⟩
    · rw [List.map_cons, List.nodup_cons]
      refine ⟨?_, hnodup⟩
      intro hmem
      obtain ⟨other, hother, hsame⟩ := List.mem_map.mp hmem
      apply hnotin other hother
      rw [hsame, hobjectName]
      exact List.mem_cons_self ..
    · rw [List.map_cons, List.map_cons, hobjectName, hnames]
    · intro other hother hmem
      rcases List.mem_cons.mp hother with rfl | hother
      · rw [hobjectName] at hmem
        exact hfresh hmem
      · exact hnotin other hother (List.mem_cons_of_mem _ hmem)

end Plan

section Parse

variable {object : ArtifactObject} {objects : List ArtifactObject}

theorem requireString_str {text field : String} (h : text ≠ "") :
    requireString (.str text) field = .ok text :=
  requireText_eq_ok.mpr ⟨h, rfl⟩

theorem requireJsonInteger_int {n : Nat} {field : String} {positive : Bool}
    (h : positive = true → n ≠ 0) : requireJsonInteger (.int n) field positive = .ok n :=
  requireInteger_eq_ok.mpr ⟨rfl, h⟩

theorem requireShape_arr {shape : List Nat} (h : ∀ dim ∈ shape, dim ≠ 0) :
    requireShape (.arr (shape.map fun (dim : Nat) => .int dim)) = .ok shape := by
  unfold requireShape
  dsimp only
  rw [List.mapM_map]
  have := mapM_eq_ok (l := shape) (g := id)
    (f := fun (dim : Nat) => requireJsonInteger (.int dim) "shape dimension" true)
    fun dim hdim => requireJsonInteger_int fun _ => h dim hdim
  rw [List.map_id] at this
  exact this

/-- The converter reads back the entry of a valid object. -/
theorem parseObject_toJson (h : object.Valid) : parseObject object.toJson = .ok object := by
  cases object with
  | tensor object =>
    obtain ⟨hname, hformat, hlayout, hdims, hbytes, hsize⟩ := h
    show parseTensor _ = _
    apply ensure_bind_eq_ok.mpr
    refine ⟨⟨⟨_, rfl⟩, fun key hkey => hkey, fun key hkey => hkey⟩, ?_⟩
    refine bind_of_eq_ok (requireString_str hname) ?_
    refine bind_of_eq_ok (requireShape_arr hdims) ?_
    refine bind_of_eq_ok (requireString_str hformat) ?_
    refine bind_of_eq_ok (requireString_str hlayout) ?_
    refine bind_of_eq_ok (requireJsonInteger_int (by simp)) ?_
    refine bind_of_eq_ok (requireJsonInteger_int fun _ => Nat.ne_of_gt hbytes) ?_
    refine bind_of_eq_ok (b := object.bytes) (by unfold parsedSize; rw [hsize]) ?_
    exact ensure_bind_eq_ok.mpr ⟨rfl, rfl⟩
  | resource object =>
    obtain ⟨hname, hencoding, hbytes⟩ := h
    show parseResource _ = _
    apply ensure_bind_eq_ok.mpr
    refine ⟨⟨⟨_, rfl⟩, fun key hkey => hkey, fun key hkey => hkey⟩, ?_⟩
    refine bind_of_eq_ok (requireString_str hname) ?_
    refine bind_of_eq_ok (requireString_str (by rw [hencoding]; decide)) ?_
    refine bind_of_eq_ok (ensure_bind_eq_ok.mpr ⟨hencoding, rfl⟩) ?_
    refine bind_of_eq_ok (requireJsonInteger_int (by simp)) ?_
    exact bind_of_eq_ok (requireJsonInteger_int fun _ => Nat.ne_of_gt hbytes) rfl

theorem checkNames_of_nodup {names : List String}
    (hnodup : (objects.map ArtifactObject.name).Nodup)
    (hnotin : ∀ object ∈ objects, object.name ∉ names) : checkNames names objects = .ok () := by
  induction objects generalizing names with
  | nil => rfl
  | cons object objects ih =>
    obtain ⟨hfresh, hnodup⟩ := List.nodup_cons.mp hnodup
    apply ensure_bind_eq_ok.mpr
    refine ⟨hnotin object (List.mem_cons_self ..), ih hnodup ?_⟩
    intro other hother hmem
    rcases List.mem_cons.mp hmem with hsame | hmem
    · exact hfresh (hsame ▸ List.mem_map_of_mem hother)
    · exact hnotin other (List.mem_cons_of_mem _ hother) hmem

theorem validateRanges_of_placed {payloadBytes cursor : Nat} (h : Placed cursor objects)
    (hend : lastEnd cursor objects ≤ payloadBytes) :
    validateRanges payloadBytes cursor objects = .ok () := by
  induction objects generalizing cursor with
  | nil => rfl
  | cons object objects ih =>
    obtain ⟨hle, ⟨alignment, halignment, hmod⟩, hplaced⟩ := h
    have hstop : object.offset + object.bytes ≤ payloadBytes :=
      Nat.le_trans (le_lastEnd hplaced) hend
    refine bind_of_eq_ok halignment ?_
    apply ensure_bind_eq_ok.mpr
    refine ⟨hle, ?_⟩
    apply ensure_bind_eq_ok.mpr
    refine ⟨hmod, ?_⟩
    apply ensure_bind_eq_ok.mpr
    exact ⟨hstop, ih hplaced hend⟩

/-- Valid objects with different names, and an identity, as a directory the converter reads back
when the parser reads back its text. -/
theorem parseDirectory_of_valid {loads : List UInt8 → Option Json} {data : List UInt8}
    {identity : ArtifactIdentity} (hparse : loads data = some (directoryJson identity objects))
    (hmodel : identity.modelId ≠ "") (hweights : identity.weightsId ≠ "") (hne : objects ≠ [])
    (hvalid : ∀ object ∈ objects, object.Valid)
    (hnodup : (objects.map ArtifactObject.name).Nodup) :
    parseDirectory loads data = .ok (identity, objects) := by
  have hobjects : parseObjects (.arr (objects.map ArtifactObject.toJson)) = .ok objects := by
    apply ensure_bind_eq_ok.mpr
    refine ⟨by simpa using hne, ?_⟩
    refine bind_of_eq_ok (b := objects) ?_ ?_
    · rw [List.mapM_map]
      have := mapM_eq_ok (l := objects) (g := id) (f := parseObject ∘ ArtifactObject.toJson)
        fun object hobject => parseObject_toJson (hvalid object hobject)
      rw [List.map_id] at this
      exact this
    · apply bind_eq_ok.mpr
      exact ⟨(), checkNames_of_nodup hnodup (by simp), rfl⟩
  unfold parseDirectory
  rw [hparse]
  apply ensure_bind_eq_ok.mpr
  refine ⟨⟨⟨_, rfl⟩, fun key hkey => hkey, fun key hkey => hkey⟩, ?_⟩
  apply ensure_bind_eq_ok.mpr
  refine ⟨⟨⟨_, rfl⟩, fun key hkey => hkey, fun key hkey => hkey⟩, ?_⟩
  refine bind_of_eq_ok (requireString_str hmodel) ?_
  refine bind_of_eq_ok (requireString_str hweights) ?_
  exact bind_of_eq_ok hobjects rfl

end Parse

end Tools

/-- The descriptor says of an object what the converter says. -/
def Describes : Tools.ArtifactObject → ObjectDescriptor → Prop
  | .tensor object, .tensor descriptor =>
    descriptor.name = object.name ∧ descriptor.shape = object.shape ∧
      formatName descriptor.format = object.format ∧
      layoutName descriptor.layout = object.layout ∧ descriptor.offset = object.offset ∧
      descriptor.bytes = object.bytes
  | .resource object, .resource descriptor =>
    descriptor.name = object.name ∧ encodingName descriptor.encoding = object.encoding ∧
      descriptor.offset = object.offset ∧ descriptor.bytes = object.bytes
  | _, _ => False

/-- The sizes of an object fit 64 bits. -/
def Fits : Tools.ArtifactObject → Prop
  | .tensor object =>
    object.offset < U64.size ∧ object.bytes < U64.size ∧
      ∀ l, object.layout = layoutName l → CountsFit l object.shape
  | .resource object => object.offset < U64.size ∧ object.bytes < U64.size

section Read

variable {object : Tools.ArtifactObject} {objects : List Tools.ArtifactObject}

theorem Describes.name {d : ObjectDescriptor} (h : Describes object d) :
    objectName d = object.name := by
  cases object <;> cases d <;> first | exact h.1 | cases h

theorem Describes.offset {d : ObjectDescriptor} (h : Describes object d) :
    objectOffset d = object.offset := by
  cases object <;> cases d
  · exact h.2.2.2.2.1
  · cases h
  · cases h
  · exact h.2.2.1

theorem Describes.bytes {d : ObjectDescriptor} (h : Describes object d) :
    objectBytes d = object.bytes := by
  cases object <;> cases d
  · exact h.2.2.2.2.2
  · cases h
  · cases h
  · exact h.2.2.2

theorem Describes.alignment {d : ObjectDescriptor} {alignment : Nat} (h : Describes object d)
    (halignment : Tools.objectAlignment object = .ok alignment) :
    objectAlignment d = alignment := by
  cases object with
  | tensor object =>
    cases d with
    | tensor d =>
      unfold Tools.objectAlignment at halignment
      obtain ⟨layout, hlayout, halignment⟩ := bind_eq_ok.mp halignment
      obtain ⟨l, -, rfl⟩ := getLayout_eq_ok hlayout
      cases halignment
      cases l <;> rfl
    | resource d => cases h
  | resource object =>
    cases d with
    | tensor d => cases h
    | resource d =>
      unfold Tools.objectAlignment Tools.resourceAlignment at halignment
      obtain ⟨-, halignment⟩ := ensure_bind_eq_ok.mp halignment
      cases halignment
      rfl

theorem requireString_str {text label : String} (h : text ≠ "") :
    requireString (.str text) label = .ok text :=
  ensure_bind_eq_ok.mpr ⟨h, rfl⟩

theorem requireUnsigned_int {n : Nat} {label : String} {positive : Bool} (hn : n < U64.size)
    (h : positive = true → n ≠ 0) : requireUnsigned (.int n) label positive = .ok n := by
  apply ensure_bind_eq_ok.mpr
  refine ⟨by omega, ?_⟩
  apply ensure_bind_eq_ok.mpr
  exact ⟨fun hp => by have := h hp; omega, rfl⟩

theorem parseShape_arr {shape : List Nat} (hlt : ∀ dim ∈ shape, dim < U64.size)
    (h : ∀ dim ∈ shape, dim ≠ 0) :
    parseShape (.arr (shape.map fun (dim : Nat) => .int dim)) = .ok shape := by
  unfold parseShape
  dsimp only
  rw [List.mapM_map]
  have := mapM_eq_ok (l := shape) (g := id)
    (f := fun (dim : Nat) => requireUnsigned (.int dim) "shape dimension" true)
    fun dim hdim => requireUnsigned_int (hlt dim hdim) fun _ => h dim hdim
  rw [List.map_id] at this
  exact this

/-- The engine reads back the entry of a valid object whose sizes fit. -/
theorem parseObject_toJson (h : object.Valid) (hfits : Fits object) :
    ∃ d, parseObject object.toJson = .ok d ∧ Describes object d := by
  cases object with
  | tensor object =>
    obtain ⟨hname, hformat, hlayout, hdims, hbytes, hsize⟩ := h
    obtain ⟨hoffsetLt, hbytesLt, hcounts⟩ := hfits
    obtain ⟨l, f, hl, hf⟩ := encodedSize_eq_ok hsize
    have hcounts := hcounts l hl
    rw [hl, hf] at hsize
    have hdimsLt := (encodedSize_extents hsize).2 hbytesLt hcounts
    refine ⟨.tensor ⟨object.name, object.shape, f, l, object.offset, object.bytes⟩, ?_,
      rfl, rfl, hf.symm, hl.symm, rfl, rfl⟩
    show parseTensor _ = _
    refine bind_of_eq_ok (ensure_bind_eq_ok.mpr ⟨rfl, if_pos fun key hkey => hkey⟩) ?_
    refine bind_of_eq_ok (requireString_str hname) ?_
    refine bind_of_eq_ok (requireString_str hformat) ?_
    refine bind_of_eq_ok (b := f) (by rw [hf]; exact parseFormat_formatName f) ?_
    refine bind_of_eq_ok (requireString_str hlayout) ?_
    refine bind_of_eq_ok (b := l) (by rw [hl]; exact parseLayout_layoutName l) ?_
    refine bind_of_eq_ok (requireUnsigned_int hoffsetLt (by simp)) ?_
    refine bind_of_eq_ok (requireUnsigned_int hbytesLt fun _ => Nat.ne_of_gt hbytes) ?_
    refine bind_of_eq_ok (parseShape_arr hdimsLt hdims) ?_
    refine bind_of_eq_ok ((tensorEncodedSize_eq_ok_iff hdimsLt).mpr ⟨hsize, hbytesLt, hcounts⟩) ?_
    exact ensure_bind_eq_ok.mpr ⟨rfl, rfl⟩
  | resource object =>
    obtain ⟨hname, hencoding, hbytes⟩ := h
    obtain ⟨hoffsetLt, hbytesLt⟩ := hfits
    refine ⟨.resource ⟨object.name, .rawBytesV1, object.offset, object.bytes⟩, ?_,
      rfl, hencoding.symm, rfl, rfl⟩
    show parseResource _ = _
    refine bind_of_eq_ok (ensure_bind_eq_ok.mpr ⟨rfl, if_pos fun key hkey => hkey⟩) ?_
    refine bind_of_eq_ok (requireString_str hname) ?_
    refine bind_of_eq_ok (requireString_str (by rw [hencoding]; decide)) ?_
    refine bind_of_eq_ok (b := .rawBytesV1) (by rw [hencoding]; rfl) ?_
    refine bind_of_eq_ok (requireUnsigned_int hoffsetLt (by simp)) ?_
    exact bind_of_eq_ok (requireUnsigned_int hbytesLt fun _ => Nat.ne_of_gt hbytes) rfl

/-- The index of entries from a position. -/
def indexFrom : Nat → List ObjectDescriptor → List (String × Nat)
  | _, [] => []
  | position, d :: ds => (objectName d, position) :: indexFrom (position + 1) ds

/-- The engine reads back the entries of valid objects that lie one after the other in the
payload and have different names. -/
theorem readObjects_of_valid {payloadBytes cursor : Nat} {read : Entries}
    (hpayload : payloadBytes < U64.size) (hvalid : ∀ object ∈ objects, object.Valid)
    (hfits : ∀ object ∈ objects, Fits object) (hplaced : Tools.Placed cursor objects)
    (hend : Tools.lastEnd cursor objects ≤ payloadBytes)
    (hnodup : (objects.map Tools.ArtifactObject.name).Nodup)
    (hnotin : ∀ object ∈ objects, object.name ∉ read.index.map Prod.fst) :
    ∃ ds, List.Forall₂ Describes objects ds ∧
      readObjects payloadBytes cursor read (objects.map Tools.ArtifactObject.toJson) =
        .ok ⟨read.entries ++ ds, read.index ++ indexFrom read.entries.length ds⟩ := by
  induction objects generalizing cursor read with
  | nil =>
    refine ⟨[], .nil, ?_⟩
    rw [List.append_nil]
    show Except.ok read = .ok ⟨read.entries, read.index ++ []⟩
    rw [List.append_nil]
  | cons object objects ih =>
    obtain ⟨hle, ⟨alignment, halignment, hmod⟩, hplaced⟩ := hplaced
    obtain ⟨hfresh, hnodup⟩ := List.nodup_cons.mp hnodup
    obtain ⟨d, hd, hdescribes⟩ := parseObject_toJson (hvalid object (List.mem_cons_self ..))
      (hfits object (List.mem_cons_self ..))
    have hstop : object.offset + object.bytes ≤ payloadBytes :=
      Nat.le_trans (Tools.le_lastEnd hplaced) hend
    have hname := hdescribes.name
    have hnext : ∀ other ∈ objects, other.name ∉ (Entries.mk (read.entries ++ [d])
        (read.index ++ [(objectName d, read.entries.length)])).index.map Prod.fst := by
      intro other hother hmem
      rw [List.map_append, List.mem_append] at hmem
      rcases hmem with hmem | hmem
      · exact hnotin other (List.mem_cons_of_mem _ hother) hmem
      · have hsame : other.name = object.name := by
          rw [← hname]
          exact List.mem_singleton.mp hmem
        exact hfresh (hsame ▸ List.mem_map_of_mem hother)
    obtain ⟨ds, hds, hread⟩ := ih (fun o ho => hvalid o (List.mem_cons_of_mem _ ho))
      (fun o ho => hfits o (List.mem_cons_of_mem _ ho)) hplaced hend hnodup hnext
    refine ⟨d :: ds, .cons hdescribes hds, ?_⟩
    rw [List.map_cons]
    refine bind_of_eq_ok hd ?_
    apply ensure_bind_eq_ok.mpr
    refine ⟨by rwa [hdescribes.offset], ?_⟩
    apply ensure_bind_eq_ok.mpr
    refine ⟨by rwa [hdescribes.offset, hdescribes.alignment halignment], ?_⟩
    refine bind_of_eq_ok (b := object.offset + object.bytes) ?_ ?_
    · rw [hdescribes.offset, hdescribes.bytes]
      exact (checkedAdd_eq_ok_iff (by omega)).mpr ⟨by omega, rfl⟩
    apply ensure_bind_eq_ok.mpr
    refine ⟨hstop, ?_⟩
    apply ensure_bind_eq_ok.mpr
    refine ⟨by rw [hname]; exact hnotin object (List.mem_cons_self ..), ?_⟩
    rw [hread, List.append_assoc, List.append_assoc, List.length_append]
    rfl

/-- The engine reads back the directory of a file. -/
theorem readDirectory_of_valid {file : List UInt8} {payloadStart : Nat}
    {identity : Tools.ArtifactIdentity} (hfile : file.length < U64.size)
    (hmodel : identity.modelId ≠ "") (hweights : identity.weightsId ≠ "") (hne : objects ≠ [])
    (hvalid : ∀ object ∈ objects, object.Valid) (hfits : ∀ object ∈ objects, Fits object)
    (hplaced : Tools.Placed 0 objects)
    (hend : Tools.lastEnd 0 objects ≤ file.length - payloadStart)
    (hnodup : (objects.map Tools.ArtifactObject.name).Nodup) :
    ∃ ds, List.Forall₂ Describes objects ds ∧
      Reader.readDirectory file payloadStart (Tools.directoryJson identity objects) =
        .ok ⟨file, ⟨identity.modelId, identity.weightsId⟩, ds, indexFrom 0 ds, payloadStart⟩ := by
  have hempty : ∀ object ∈ objects, object.name ∉ (Entries.mk [] []).index.map Prod.fst := by
    simp
  obtain ⟨ds, hds, hread⟩ := readObjects_of_valid (by omega) hvalid hfits hplaced hend hnodup hempty
  refine ⟨ds, hds, ?_⟩
  refine bind_of_eq_ok (ensure_bind_eq_ok.mpr ⟨rfl, if_pos fun key hkey => hkey⟩) ?_
  refine bind_of_eq_ok (ensure_bind_eq_ok.mpr ⟨rfl, if_pos fun key hkey => hkey⟩) ?_
  refine bind_of_eq_ok (requireString_str hmodel) ?_
  refine bind_of_eq_ok (requireString_str hweights) ?_
  apply bind_eq_ok.mpr
  refine ⟨objects.map Tools.ArtifactObject.toJson, ensure_bind_eq_ok.mpr ⟨by simpa using hne, rfl⟩,
    ?_⟩
  exact bind_of_eq_ok hread rfl

/-- The index of different names finds each entry. -/
theorem lookup_indexFrom {ds : List ObjectDescriptor} {position : Nat}
    (hnodup : (ds.map objectName).Nodup) {i : Nat} {d : ObjectDescriptor} (hd : ds[i]? = some d) :
    (indexFrom position ds).lookup (objectName d) = some (position + i) := by
  induction ds generalizing position i with
  | nil => cases hd
  | cons first ds ih =>
    obtain ⟨hfresh, hnodup⟩ := List.nodup_cons.mp hnodup
    cases i with
    | zero =>
      cases hd
      exact List.lookup_cons_self
    | succ i =>
      rw [List.getElem?_cons_succ] at hd
      have hne : (objectName d == objectName first) = false := by
        apply beq_false_of_ne
        intro hsame
        exact hfresh (hsame ▸ List.mem_map_of_mem (List.mem_of_getElem? hd))
      unfold indexFrom
      rw [List.lookup_cons, hne]
      dsimp only
      rw [ih hnodup hd, Nat.add_right_comm, Nat.add_assoc]

end Read

section Files

variable {file directory rest : List UInt8} {identity : Tools.ArtifactIdentity}
  {objects : List Tools.ArtifactObject}

/-- The text of a directory is not empty. -/
theorem directoryJson_ne_nil (identity : Tools.ArtifactIdentity)
    (objects : List Tools.ArtifactObject) :
    utf8 ((Tools.directoryJson identity objects).dumps [','] [':']) ≠ [] := by
  obtain ⟨cs, hcs⟩ : ∃ cs, (Tools.directoryJson identity objects).dumps [','] [':'] =
      '\x7b' :: cs := ⟨_, rfl⟩
  rw [hcs]
  intro h
  cases h

/-- The parts of a file with a prefix and a directory. -/
theorem headed_parts (hfile : file = Tools.magic ++ (Tools.packWord directory.length ++
    (directory ++ rest))) :
    file.take 8 = Tools.magic ∧
      file.drop 8 = Tools.packWord directory.length ++ (directory ++ rest) ∧
      (file.drop 8).take 8 = Tools.packWord directory.length ∧
      (file.drop 16).take directory.length = directory ∧ 16 + directory.length ≤ file.length := by
  have hmagic : Tools.magic.length = 8 := rfl
  have hword := length_packWord directory.length
  subst hfile
  have hdrop : (Tools.magic ++ (Tools.packWord directory.length ++ (directory ++ rest))).drop 8 =
      Tools.packWord directory.length ++ (directory ++ rest) := List.drop_left' hmagic
  refine ⟨List.take_left' hmagic, hdrop, ?_, ?_, ?_⟩
  · rw [hdrop]
    exact List.take_left' hword
  · rw [show 16 = 8 + 8 from rfl, ← List.drop_drop, hdrop, List.drop_left' hword]
    exact List.take_left
  · rw [List.length_append, List.length_append, List.length_append, hmagic, hword]
    omega

/-- The converter opens a file with a directory of valid objects. -/
theorem openArtifact_of_valid {loads : List UInt8 → Option Json}
    (hfile : file = Tools.magic ++ (Tools.packWord directory.length ++ (directory ++ rest)))
    (hdirectory : directory.length < U64.size) (hempty : directory ≠ [])
    (hloads : loads directory = some (Tools.directoryJson identity objects))
    (hoffset : roundUp (16 + directory.length) 4096 ≤ file.length)
    (hmodel : identity.modelId ≠ "") (hweights : identity.weightsId ≠ "") (hne : objects ≠ [])
    (hvalid : ∀ object ∈ objects, object.Valid) (hplaced : Tools.Placed 0 objects)
    (hend : Tools.lastEnd 0 objects ≤ file.length - roundUp (16 + directory.length) 4096)
    (hnodup : (objects.map Tools.ArtifactObject.name).Nodup) :
    Tools.openArtifact loads file =
      .ok ⟨file.length, roundUp (16 + directory.length) 4096, identity, objects⟩ := by
  obtain ⟨htake, -, hword, hslice, hlength⟩ := headed_parts hfile
  have hunpack : Tools.unpackWord ((file.drop 8).take 8) = directory.length := by
    rw [hword]
    exact unpackWord_packWord hdirectory
  unfold Tools.openArtifact
  dsimp only
  rw [hunpack, htake]
  apply ensure_bind_eq_ok.mpr
  refine ⟨by unfold Tools.prefixBytes; omega, ?_⟩
  apply ensure_bind_eq_ok.mpr
  refine ⟨by decide, ?_⟩
  apply ensure_bind_eq_ok.mpr
  refine ⟨rfl, ?_⟩
  apply ensure_bind_eq_ok.mpr
  refine ⟨by simpa using hempty, ?_⟩
  apply ensure_bind_eq_ok.mpr
  refine ⟨⟨hlength, hoffset⟩, ?_⟩
  refine bind_of_eq_ok (b := (identity, objects)) ?_ ?_
  · apply Tools.parseDirectory_of_valid _ hmodel hweights hne hvalid hnodup
    show loads ((file.drop 16).take directory.length) = _
    rw [hslice]
    exact hloads
  · apply bind_eq_ok.mpr
    exact ⟨(), Tools.validateRanges_of_placed hplaced hend, rfl⟩

/-- The engine opens a file with a directory of valid objects whose sizes fit. -/
theorem openFile_of_valid {parse : List UInt8 → Option Json}
    (hfile : file = Tools.magic ++ (Tools.packWord directory.length ++ (directory ++ rest)))
    (hsize : file.length < U64.size) (hempty : directory ≠ [])
    (hparse : parse directory = some (Tools.directoryJson identity objects))
    (hoffset : roundUp (16 + directory.length) 4096 ≤ file.length)
    (hmodel : identity.modelId ≠ "") (hweights : identity.weightsId ≠ "") (hne : objects ≠ [])
    (hvalid : ∀ object ∈ objects, object.Valid) (hfits : ∀ object ∈ objects, Fits object)
    (hplaced : Tools.Placed 0 objects)
    (hend : Tools.lastEnd 0 objects ≤ file.length - roundUp (16 + directory.length) 4096)
    (hnodup : (objects.map Tools.ArtifactObject.name).Nodup) :
    ∃ ds, List.Forall₂ Describes objects ds ∧
      Reader.openFile parse file = .ok ⟨file, ⟨identity.modelId, identity.weightsId⟩, ds,
        indexFrom 0 ds, roundUp (16 + directory.length) 4096⟩ := by
  obtain ⟨htake, hdrop, -, hslice, hlength⟩ := headed_parts hfile
  obtain ⟨ds, hds, hread⟩ :=
    readDirectory_of_valid hsize hmodel hweights hne hvalid hfits hplaced hend hnodup
  refine ⟨ds, hds, ?_⟩
  have hjson : readU64Le (file.drop 8) = directory.length := by
    rw [hdrop]
    exact readU64Le_packWord (by omega) _
  unfold Reader.openFile
  dsimp only
  rw [hjson, htake]
  apply ensure_bind_eq_ok.mpr
  refine ⟨by omega, ?_⟩
  apply ensure_bind_eq_ok.mpr
  refine ⟨by unfold kPrefixBytes; omega, ?_⟩
  apply ensure_bind_eq_ok.mpr
  refine ⟨by decide, ?_⟩
  apply ensure_bind_eq_ok.mpr
  refine ⟨rfl, ?_⟩
  apply ensure_bind_eq_ok.mpr
  refine ⟨by simpa using hempty, ?_⟩
  apply bind_eq_ok.mpr
  refine ⟨16 + directory.length,
    (checkedAdd_eq_ok_iff (by decide)).mpr ⟨by unfold kPrefixBytes; omega, rfl⟩, ?_⟩
  apply bind_eq_ok.mpr
  refine ⟨roundUp (16 + directory.length) 4096,
    (alignUp_eq_ok_iff (by omega) (by decide) (by decide)).mpr
      ⟨Nat.lt_of_le_of_lt hoffset hsize, rfl⟩, ?_⟩
  apply ensure_bind_eq_ok.mpr
  refine ⟨⟨hlength, hoffset⟩, ?_⟩
  rw [show (file.drop kPrefixBytes).take directory.length = directory from hslice, hparse]
  exact hread

end Files

end Ninfer.Artifact
