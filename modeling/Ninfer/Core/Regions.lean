import Ninfer.Commons.Scopes
import Ninfer.Core.Planning

/-!
# Layout regions in scopes

The users of `LayoutBuilder` ask for regions inside scopes: a scope saves the cursor when it is
opened and its destructor puts it back, so that what comes after a scope reuses its space. A
program of regions and scopes runs over one builder. A request that throws is caught somewhere and
the program goes on, scopes are moved from object to object, and they are closed in stack order.

## Main definitions

* `LayoutRegion.bind`, `TensorRegion.bind`: a region inside the backing that was allocated for it
* `Planning`, `Planning.step`: a program over the builder and one of its operations
* `Planning.StackOrder`: the scopes of a program are closed in stack order

## Main results

* `LayoutBuilder.add_error`, `LayoutBuilder.addTensor_error`: a request that throws changes nothing
* `Planning.Sound.step`: what every operation preserves
* `Planning.layout_regions_sound`: regions never overlap while the scope of the first is open, and
  all of them can be bound
-/

namespace Ninfer.Core

/-- `LayoutRegion::bind`. -/
def LayoutRegion.bind (region : LayoutRegion) (backing : DeviceSpan) :
    Except Exception DeviceSpan := do
  check (backing.data ≠ 0) (.invalidArgument "layout backing is null")
  check (isPowerOfTwo region.alignment) (.logicError "layout region has an invalid alignment")
  -- the sum of a `std::uintptr_t` and a `std::size_t` wraps
  check ((backing.data + region.offset) % U64.size % region.alignment = 0)
    (.invalidArgument "layout backing does not satisfy region alignment")
  check (region.offset ≤ backing.bytes ∧ region.bytes ≤ backing.bytes - region.offset)
    (.outOfRange "layout region exceeds its backing allocation")
  return ⟨backing.data + region.offset, region.bytes⟩

/-- `TensorRegion::bind`. -/
def TensorRegion.bind (tensor : TensorRegion) (backing : DeviceSpan) :
    Except Exception Tensor := do
  let expected ← Tensor.new 0 tensor.dtype tensor.shape
  let bytes ← expected.bytes
  check (bytes = tensor.region.bytes)
    (.logicError "tensor layout has an inconsistent byte size")
  let span ← tensor.region.bind backing
  Tensor.new span.data tensor.dtype tensor.shape

/-- The end of a region. -/
def LayoutRegion.stop (region : LayoutRegion) : Nat := region.offset + region.bytes

/-- What a request for a region returned. -/
inductive Returned
  | region (region : LayoutRegion)
  | tensor (tensor : TensorRegion)
  deriving DecidableEq, Repr

namespace Returned

/-- The region of a request. -/
def place : Returned → LayoutRegion
  | .region r => r
  | .tensor t => t.region

/-- The address `bind` gives a region. -/
def bind (returned : Returned) (backing : DeviceSpan) : Except Exception Nat :=
  match returned with
  | .region r => DeviceSpan.data <$> r.bind backing
  | .tensor t => Tensor.data <$> t.bind backing

end Returned

/-- A program over a builder: its scopes, and every region returned, the latest first. -/
structure Planning where
  builder : LayoutBuilder
  scopes : Scopes
  placed : List (Placed Returned)
  deriving DecidableEq, Repr

namespace Planning

/-- The operations of a program. Scope objects are named by the order of their construction. -/
inductive Operation
  | add (bytes alignment : Nat) (label : String)
  | addTensor (dtype : DType) (shape : List Int) (alignment : Nat) (label : String)
  | openScope
  | moveScope (source : Nat)
  | closeScope (object : Nat)
  deriving DecidableEq, Repr

/-- A program before its first operation. -/
def start : Planning := ⟨.fresh, {}, []⟩

/-- What a request leaves behind, returned or thrown. -/
def record (s : Planning) : EStateM.Result Exception LayoutBuilder Returned → Planning
  | .ok returned builder =>
    { s with builder := builder, placed := ⟨returned, s.scopes.stack⟩ :: s.placed }
  | .error _ builder => { s with builder := builder }

/-- The destructor of the scope object `object`. -/
def closeScope (s : Planning) (object : Nat) : Planning :=
  let (saved, scopes) := s.scopes.closeScope object
  { s with builder := { s.builder with cursor := saved.getD s.builder.cursor }, scopes := scopes }

/-- One operation of a program. -/
def step (s : Planning) : Operation → Planning
  | .add bytes alignment label =>
    s.record ((Returned.region <$> LayoutBuilder.add bytes alignment label) s.builder)
  | .addTensor dtype shape alignment label =>
    s.record ((Returned.tensor <$> LayoutBuilder.addTensor dtype shape alignment label) s.builder)
  | .openScope => { s with scopes := s.scopes.openScope s.builder.cursor }
  | .moveScope source => { s with scopes := s.scopes.moveScope source }
  | .closeScope object => s.closeScope object

/-- A program. -/
def run (s : Planning) (ops : List Operation) : Planning := ops.foldl step s

/-- A scope object that is destroyed owns the innermost open scope or none. -/
def Permitted (s : Planning) : Operation → Prop
  | .closeScope object => s.scopes.Closes object
  | _ => True

/-- The scopes of a program are closed in stack order. -/
def StackOrder : Planning → List Operation → Prop
  | _, [] => True
  | s, op :: ops => s.Permitted op ∧ StackOrder (s.step op) ops

end Planning

namespace LayoutBuilder

variable {b b' : LayoutBuilder}

/-- A region that is returned is at the cursor rounded up, and the cursor is at its end. -/
theorem add_spec {bytes alignment : Nat} {label : String} {r : LayoutRegion}
    (hcursor : b.cursor < U64.size) (h : add bytes alignment label b = .ok r b') :
    r = ⟨roundUp b.cursor alignment, bytes, alignment⟩ ∧ isPowerOfTwo alignment ∧
      alignment ≤ U64.size ∧ b.cursor ≤ r.offset ∧ r.offset + bytes < U64.size ∧
      b' = ⟨r.offset + bytes, max b.peak (r.offset + bytes)⟩ := by
  obtain ⟨-, offset, cursor, haligned, hsum, rfl, rfl⟩ := add_eq_ok.mp h
  obtain ⟨sum, hmask, -⟩ := bind_eq_ok.mp (check_bind_eq_ok.mp haligned).2
  obtain ⟨hpow, rfl, hlt⟩ := alignUp_eq_ok hcursor haligned
  obtain ⟨rfl, hsumLt⟩ := checkedAdd_eq_ok hlt hsum
  have hle : alignment ≤ U64.size := by
    -- the mask of the alignment was added to the cursor without overflow
    obtain ⟨hmask, -⟩ := check_bind_eq_ok.mp hmask
    have := hpow.pos
    omega
  exact ⟨rfl, hpow, hle, le_roundUp _ hpow.pos, hsumLt, rfl⟩

/-- A request that throws leaves the cursor and the peak as they were. -/
theorem add_error {bytes alignment : Nat} {label : String} {e : Exception}
    (h : add bytes alignment label b = .error e b') : b' = b := by
  unfold add at h
  rcases Call.bind_ofExcept_eq_error h with ⟨-, rfl⟩ | ⟨u, -, h⟩
  · rfl
  change (Call.ofExcept (alignUp b.cursor alignment label) >>= _) b = _ at h
  rcases Call.bind_ofExcept_eq_error h with ⟨-, rfl⟩ | ⟨offset, -, h⟩
  · rfl
  rcases Call.bind_ofExcept_eq_error h with ⟨-, rfl⟩ | ⟨cursor, -, h⟩
  · rfl
  -- the cursor is stored after the last check
  cases h

/-- A tensor that is returned has a region of its size, and its shape is the one of rank four. -/
theorem addTensor_eq_ok {dtype : DType} {shape : List Int} {alignment : Nat} {label : String}
    {r : TensorRegion} (h : addTensor dtype shape alignment label b = .ok r b') :
    ∃ view, Tensor.new 0 dtype shape = .ok view ∧ view.bytes = .ok r.region.bytes ∧
      r.dtype = dtype ∧ r.shape = view.ne ∧
      add r.region.bytes alignment label b = .ok r.region b' := by
  unfold addTensor at h
  obtain ⟨view, hview, h⟩ := Call.bind_ofExcept_eq_ok h
  obtain ⟨bytes, hbytes, h⟩ := Call.bind_ofExcept_eq_ok h
  obtain ⟨region, t, hadd, h⟩ := Call.exists_of_bind_ok h
  cases h
  obtain ⟨-, offset, cursor, -, -, rfl, rfl⟩ := add_eq_ok.mp hadd
  exact ⟨view, hview, hbytes, rfl, rfl, hadd⟩

theorem addTensor_error {dtype : DType} {shape : List Int} {alignment : Nat} {label : String}
    {e : Exception} (h : addTensor dtype shape alignment label b = .error e b') : b' = b := by
  unfold addTensor at h
  rcases Call.bind_ofExcept_eq_error h with ⟨-, rfl⟩ | ⟨view, -, h⟩
  · rfl
  rcases Call.bind_ofExcept_eq_error h with ⟨-, rfl⟩ | ⟨bytes, -, h⟩
  · rfl
  cases hadd : add bytes alignment label b with
  | ok region t =>
    rw [Call.bind_of_ok hadd] at h
    cases h
  | error e' t =>
    rw [Call.bind_of_error hadd] at h
    cases h
    exact add_error hadd

end LayoutBuilder

/-- A region that can be bound: aligned, below `peak`, and of the size of its tensor. -/
structure Returned.Bindable (returned : Returned) (peak : Nat) : Prop where
  pow : isPowerOfTwo returned.place.alignment
  alignment_le : returned.place.alignment ≤ U64.size
  dvd : returned.place.alignment ∣ returned.place.offset
  end_le : returned.place.offset + returned.place.bytes ≤ peak
  size : ∀ t, returned = .tensor t →
    ∃ view, Tensor.new 0 t.dtype t.shape = .ok view ∧ view.bytes = .ok t.region.bytes

/-- The shape of rank four of a tensor is the shape of the same tensor. -/
theorem Tensor.new_ne {data : Nat} {dtype : DType} {shape : List Int} {t : Tensor}
    (h : Tensor.new data dtype shape = .ok t) : Tensor.new data dtype t.ne = .ok t := by
  obtain ⟨ne, hne, h⟩ := bind_eq_ok.mp h
  obtain ⟨nb, hnb, h⟩ := bind_eq_ok.mp h
  cases h
  obtain ⟨hrank, hne⟩ := check_bind_eq_ok.mp hne
  obtain ⟨hpos, hne⟩ := check_bind_eq_ok.mp hne
  cases hne
  have hlength : (shape ++ List.replicate (4 - shape.length) 1).length = 4 := by
    rw [List.length_append, List.length_replicate]
    omega
  have hnormal : normalizeShape (shape ++ List.replicate (4 - shape.length) 1) =
      .ok (shape ++ List.replicate (4 - shape.length) 1) := by
    refine check_bind_eq_ok.mpr ⟨by omega, check_bind_eq_ok.mpr ⟨?_, ?_⟩⟩
    · intro dim hdim
      rcases List.mem_append.mp hdim with hdim | hdim
      · exact hpos dim hdim
      · rw [List.eq_of_mem_replicate hdim]
        exact Int.one_pos
    · simp [hlength, pure, Except.pure]
  exact bind_eq_ok.mpr ⟨_, hnormal, bind_eq_ok.mpr ⟨nb, hnb, rfl⟩⟩

namespace Returned

variable {returned : Returned} {peak : Nat}

theorem Bindable.mono (h : returned.Bindable peak) {peak' : Nat} (hle : peak ≤ peak') :
    returned.Bindable peak' :=
  { h with end_le := Nat.le_trans h.end_le hle }

/-- A region is bound inside a backing that ends after it and whose base is aligned to more. -/
theorem Bindable.bind_region (h : returned.Bindable peak) {limit : Nat} {backing : DeviceSpan}
    (hlimit : isPowerOfTwo limit) (hle : returned.place.alignment ≤ limit)
    (hdata : backing.data ≠ 0) (hbase : limit ∣ backing.data) (hbytes : peak ≤ backing.bytes) :
    ∃ span, returned.place.bind backing = .ok span := by
  have hend := h.end_le
  have hword : returned.place.alignment ∣ U64.size :=
    h.pow.dvd (isPowerOfTwo_iff.mpr ⟨64, rfl⟩) h.alignment_le
  have hsum : returned.place.alignment ∣ backing.data + returned.place.offset :=
    Nat.dvd_add (Nat.dvd_trans (h.pow.dvd hlimit hle) hbase) h.dvd
  refine ⟨⟨backing.data + returned.place.offset, returned.place.bytes⟩, ?_⟩
  refine check_bind_eq_ok.mpr ⟨hdata, check_bind_eq_ok.mpr ⟨h.pow, ?_⟩⟩
  refine check_bind_eq_ok.mpr ⟨?_, check_bind_eq_ok.mpr ⟨by omega, rfl⟩⟩
  -- the alignment divides the number of addresses, so a sum that wraps is aligned too
  exact Nat.mod_eq_zero_of_dvd ((Nat.dvd_mod_iff hword).mpr hsum)

theorem Bindable.bind (h : returned.Bindable peak) {limit : Nat} {backing : DeviceSpan}
    (hlimit : isPowerOfTwo limit) (hle : returned.place.alignment ≤ limit)
    (hdata : backing.data ≠ 0) (hbase : limit ∣ backing.data) (hbytes : peak ≤ backing.bytes) :
    ∃ address, returned.bind backing = .ok address := by
  obtain ⟨span, hspan⟩ := h.bind_region hlimit hle hdata hbase hbytes
  cases hreturned : returned with
  | region r =>
    subst hreturned
    exact ⟨span.data, by simp only [Returned.bind]; rw [show r.bind backing = _ from hspan]; rfl⟩
  | tensor t =>
    obtain ⟨view, hnew, hview⟩ := h.size t hreturned
    subst hreturned
    have hbind : t.bind backing = .ok { view with data := span.data } := by
      refine bind_eq_ok.mpr ⟨view, hnew, bind_eq_ok.mpr ⟨_, hview, ?_⟩⟩
      refine check_bind_eq_ok.mpr ⟨rfl, bind_eq_ok.mpr ⟨span, hspan, ?_⟩⟩
      exact Tensor.new_data hnew span.data
    exact ⟨span.data, by simp only [Returned.bind]; rw [hbind]; rfl⟩

end Returned

namespace Planning

/-- What holds of a program whose scopes are closed in stack order, after any operation. -/
structure Sound (s : Planning) : Prop where
  cursor_lt : s.builder.cursor < U64.size
  peak_lt : s.builder.peak < U64.size
  bindable : ∀ p ∈ s.placed, p.item.Bindable s.builder.peak
  scopes : s.scopes.Sound (fun r : Returned => r.place.offset) (fun r => r.place.stop) 0
    s.builder.cursor s.placed

namespace Sound

variable {s : Planning}

theorem start : Sound start where
  cursor_lt := by decide
  peak_lt := by decide
  bindable := by
    intro p hp
    cases hp
  scopes := Scopes.Sound.start

/-- A region that is returned is above the cursor. -/
theorem returned (h : s.Sound) {r : Returned} {bytes alignment : Nat} {label : String}
    {builder : LayoutBuilder}
    (hadd : LayoutBuilder.add bytes alignment label s.builder = .ok r.place builder)
    (hsize : ∀ t, r = .tensor t →
      ∃ view, Tensor.new 0 t.dtype t.shape = .ok view ∧ view.bytes = .ok t.region.bytes) :
    Sound { s with builder := builder, placed := ⟨r, s.scopes.stack⟩ :: s.placed } := by
  obtain ⟨hplace, hpow, halignment, hoffset, hlt, rfl⟩ := LayoutBuilder.add_spec h.cursor_lt hadd
  have hbytes : r.place.bytes = bytes := by rw [hplace]
  have hstop : r.place.stop = r.place.offset + bytes := by rw [LayoutRegion.stop, hbytes]
  refine
    { cursor_lt := hlt
      peak_lt := Nat.max_lt.mpr ⟨h.peak_lt, hlt⟩
      bindable := ?_
      scopes := h.scopes.place (by simpa using hoffset) (by simp [hstop]) (by dsimp only; omega) }
  intro p hp
  rcases List.mem_cons.mp hp with rfl | hp
  · exact
      { pow := by rw [hplace]; exact hpow
        alignment_le := by rw [hplace]; exact halignment
        dvd := by rw [hplace]; exact dvd_roundUp _ _
        end_le := by rw [hbytes]; exact Nat.le_max_right _ _
        size := hsize }
  · exact (h.bindable p hp).mono (Nat.le_max_left _ _)

theorem add (h : s.Sound) (bytes alignment : Nat) (label : String) :
    (s.step (.add bytes alignment label)).Sound := by
  simp only [step]
  cases hadd : LayoutBuilder.add bytes alignment label s.builder with
  | ok r builder =>
    have hmap : (Returned.region <$> LayoutBuilder.add bytes alignment label) s.builder =
        .ok (.region r) builder := by
      simp only [Functor.map, EStateM.map, hadd]
    rw [hmap]
    apply h.returned (r := .region r) hadd
    intro t ht
    cases ht
  | error e builder =>
    have hmap : (Returned.region <$> LayoutBuilder.add bytes alignment label) s.builder =
        .error e builder := by
      simp only [Functor.map, EStateM.map, hadd]
    rw [hmap, LayoutBuilder.add_error hadd]
    exact h

theorem addTensor (h : s.Sound) (dtype : DType) (shape : List Int) (alignment : Nat)
    (label : String) : (s.step (.addTensor dtype shape alignment label)).Sound := by
  simp only [step]
  cases hadd : LayoutBuilder.addTensor dtype shape alignment label s.builder with
  | ok r builder =>
    have hmap : (Returned.tensor <$> LayoutBuilder.addTensor dtype shape alignment label)
        s.builder = .ok (.tensor r) builder := by
      simp only [Functor.map, EStateM.map, hadd]
    rw [hmap]
    obtain ⟨view, hview, hbytes, hdtype, hshape, hregion⟩ := LayoutBuilder.addTensor_eq_ok hadd
    apply h.returned (r := .tensor r) hregion
    intro t ht
    cases ht
    rw [hdtype, hshape]
    exact ⟨view, Tensor.new_ne hview, hbytes⟩
  | error e builder =>
    have hmap : (Returned.tensor <$> LayoutBuilder.addTensor dtype shape alignment label)
        s.builder = .error e builder := by
      simp only [Functor.map, EStateM.map, hadd]
    rw [hmap, LayoutBuilder.addTensor_error hadd]
    exact h

/-- The cursor that a scope saved is not above the cursor. -/
theorem closeScope (h : s.Sound) {object : Nat} (hpermitted : s.Permitted (.closeScope object)) :
    (s.closeScope object).Sound := by
  obtain ⟨hle, hscopes⟩ := h.scopes.closeScope hpermitted
  exact ⟨Nat.lt_of_le_of_lt hle h.cursor_lt, h.peak_lt, h.bindable, hscopes⟩

/-- Every operation of a program in stack order preserves what holds of it. -/
theorem step (h : s.Sound) {op : Operation} (hpermitted : s.Permitted op) : (s.step op).Sound := by
  cases op with
  | add bytes alignment label => exact h.add bytes alignment label
  | addTensor dtype shape alignment label => exact h.addTensor dtype shape alignment label
  | openScope => exact { h with scopes := h.scopes.openScope }
  | moveScope source => exact { h with scopes := h.scopes.moveScope source }
  | closeScope object => exact h.closeScope hpermitted

theorem run (h : s.Sound) {ops : List Operation} (horder : StackOrder s ops) :
    (s.run ops).Sound := by
  induction ops generalizing s with
  | nil => exact h
  | cons op ops ih => exact ih (h.step horder.1) horder.2

end Sound

/-- **Layout regions never overlap while alive.** After any program whose scopes are closed in
stack order: of two regions it was given the first is disjoint from the second if its scope was
still open when the second was asked for; every region is aligned and ends below the peak, and the
peak is at most what `finish` returns; and all of them can be bound in a backing of the size that
`finish` returned for an alignment at least theirs, if the base is aligned to it. A request that
throws leaves cursor and peak as they are. -/
theorem layout_regions_sound (ops : List Operation) (horder : StackOrder start ops) :
    let s := start.run ops
    (s.placed.Pairwise fun second first => first.OpenIn second.within →
      Apart LayoutRegion.offset LayoutRegion.stop first.item.place second.item.place) ∧
    (∀ p ∈ s.placed, p.item.place.alignment ∣ p.item.place.offset ∧
      p.item.place.stop ≤ s.builder.peak) ∧
    (∀ alignment label bytes, s.builder.finish alignment label = .ok bytes →
      s.builder.peak ≤ bytes ∧
      ∀ backing : DeviceSpan, backing.bytes = bytes → backing.data ≠ 0 →
        alignment ∣ backing.data → (∀ p ∈ s.placed, p.item.place.alignment ≤ alignment) →
        ∀ p ∈ s.placed, ∃ address, p.item.bind backing = .ok address) ∧
    (∀ bytes alignment label e builder,
      LayoutBuilder.add bytes alignment label s.builder = .error e builder →
      builder = s.builder) ∧
    (∀ dtype shape alignment label e builder,
      LayoutBuilder.addTensor dtype shape alignment label s.builder = .error e builder →
      builder = s.builder) := by
  intro s
  have h : s.Sound := Sound.start.run horder
  refine ⟨h.scopes.disjoint, ?_, ?_, ?_, ?_⟩
  · intro p hp
    exact ⟨(h.bindable p hp).dvd, (h.bindable p hp).end_le⟩
  · intro alignment label bytes hfinish
    -- `finish` rounds the peak up, so that every region ends inside the backing.
    obtain ⟨hpow, rfl, -⟩ := alignUp_eq_ok h.peak_lt hfinish
    have hpeak : s.builder.peak ≤ roundUp s.builder.peak alignment := le_roundUp _ hpow.pos
    refine ⟨hpeak, ?_⟩
    intro backing hbytes hdata hbase hle p hp
    exact (h.bindable p hp).bind hpow (hle p hp) hdata hbase (hbytes ▸ hpeak)
  · intro bytes alignment label e builder hadd
    exact LayoutBuilder.add_error hadd
  · intro dtype shape alignment label e builder hadd
    exact LayoutBuilder.addTensor_error hadd

/-- A scope that is moved, with a request that throws inside it. -/
def movedScope : List Operation :=
  [.add 3 1 "header", .openScope, .addTensor .fp32 [5, 2] 16 "scratch", .moveScope 0,
    .add 0 1 "nothing", .closeScope 0, .closeScope 1, .add 7 4 "tail"]

theorem layout_regions_sound_movedScope :
    (start.run movedScope).placed.Pairwise fun second first => first.OpenIn second.within →
      Apart LayoutRegion.offset LayoutRegion.stop first.item.place second.item.place := by
  refine (layout_regions_sound movedScope ?_).1
  refine ⟨trivial, trivial, trivial, trivial, trivial, ?_, ?_, trivial, trivial⟩
  · rintro _ ⟨⟩ ⟨⟩
  · rintro _ ⟨⟩ -
    rfl

end Planning

end Ninfer.Core
