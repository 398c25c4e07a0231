import Ninfer.Artifact.Reader
import Ninfer.Artifact.Sizes

/-!
# Binding an artifact to a target

`artifact/binder.cpp`: the target requires the objects it expects by name, and gives each of them a
place: a device tensor, a resource kept on the host, or nowhere. The tensors for the device are laid
out one after another. A call that throws may have marked its object as consumed; the plan it leaves
as it was.

## Main definitions

* `Binder`, `MaterializationPlan`: the binder and the plan it builds
* `Binder.requireTensor`, `Binder.requireResource`, `Binder.materializeOnDevice`,
  `Binder.retainOnHost`, `Binder.validateOnly`, `Binder.finish`: its operations
* `BinderCall`, `Binder.perform`: the calls of a target, in any order
* `Reader.Sound`: what the checks of the directory leave
* `MaterializationPlan.Sound`: the plan is a layout of distinct objects of the reader

## Main results

* `Reader.sound_of_openFile`: the objects of an opened file are not empty, in order and inside the
  file
* `Binder.sound_performAll`: whatever a target calls, the plan is sound
-/

namespace Ninfer.Artifact

/-- `ObjectHandle`. -/
structure ObjectHandle where
  index : Nat
  deriving DecidableEq, Repr

/-- `DeviceMaterialization`. -/
structure DeviceMaterialization where
  object : ObjectHandle
  offset : Nat
  bytes : Nat
  alignment : Nat
  deriving DecidableEq, Repr

/-- `HostMaterialization`. -/
structure HostMaterialization where
  object : ObjectHandle
  deriving DecidableEq, Repr

/-- `MaterializationPlan`. -/
structure MaterializationPlan where
  objectCount : Nat
  deviceCapacityBytes : Nat
  deviceObjects : List DeviceMaterialization
  hostObjects : List HostMaterialization
  deriving DecidableEq, Repr

/-- `Binder`. -/
structure Binder where
  reader : Reader
  consumed : List Bool
  planned : List Bool
  materialization : MaterializationPlan

/-- The position of the object that `Reader::find` points to. -/
def Reader.indexOf (reader : Reader) (name : String) : Option Nat :=
  match reader.index.lookup name with
  | some i => if i < reader.entries.length then some i else none
  | none => none

namespace Binder

/-- `align_up`. -/
def alignUp (value alignment : Nat) : Except ArtifactError Nat := do
  let mask := alignment - 1
  ensure (value ≤ U64.size - 1 - mask) ⟨"materialization plan size overflows u64"⟩
  return (value + mask) &&& U64.complement mask

/-- `Binder::Binder`. -/
def new (reader : Reader) : Binder where
  reader := reader
  consumed := List.replicate reader.entries.length false
  planned := List.replicate reader.entries.length false
  materialization := ⟨reader.entries.length, 0, [], []⟩

/-- `Binder::find_unconsumed`, and the binder after it. -/
def findUnconsumed (binder : Binder) (name : String) : Except ArtifactError ObjectHandle × Binder :=
  match binder.reader.indexOf name with
  | none => (.error ⟨"required artifact object is missing: " ++ name⟩, binder)
  | some index =>
    if binder.consumed.getD index false then
      (.error ⟨"artifact object was bound more than once: " ++ name⟩, binder)
    else (.ok ⟨index⟩, { binder with consumed := binder.consumed.set index true })

/-- `Binder::descriptor`. -/
def descriptor (binder : Binder) (handle : ObjectHandle) : Except ArtifactError ObjectDescriptor :=
  match binder.reader.entries[handle.index]? with
  | some object => .ok object
  | none => .error ⟨"artifact object handle is out of range"⟩

/-- `Binder::payload`. -/
def payload (binder : Binder) (handle : ObjectHandle) :
    Except ArtifactError Reader.PayloadSpan := do
  let object ← binder.descriptor handle
  binder.reader.payload object

/-- The descriptor of a tensor. -/
def tensorOf (text : String) : ObjectDescriptor → Except ArtifactError TensorDescriptor
  | .tensor tensor => .ok tensor
  | .resource _ => .error ⟨text⟩

/-- The descriptor of a resource. -/
def resourceOf (text : String) : ObjectDescriptor → Except ArtifactError ResourceDescriptor
  | .resource resource => .ok resource
  | .tensor _ => .error ⟨text⟩

/-- `Binder::require_tensor`, and the binder after it. -/
def requireTensor (binder : Binder) (name : String) (format : NumericFormat)
    (layout : StorageLayout) (shape : List Nat) : Except ArtifactError ObjectHandle × Binder :=
  let found := binder.findUnconsumed name
  (do
    let handle ← found.1
    let object ← found.2.descriptor handle
    let tensor ← tensorOf ("required tensor is a resource: " ++ name) object
    ensure (tensor.format = format ∧ tensor.layout = layout ∧ tensor.shape = shape)
      ⟨"tensor descriptor does not match target contract: " ++ name⟩
    return handle, found.2)

/-- `Binder::require_resource`, and the binder after it. -/
def requireResource (binder : Binder) (name : String) (encoding : ResourceEncoding) :
    Except ArtifactError ObjectHandle × Binder :=
  let found := binder.findUnconsumed name
  (do
    let handle ← found.1
    let object ← found.2.descriptor handle
    let resource ← resourceOf ("required resource is a tensor: " ++ name) object
    ensure (resource.encoding = encoding)
      ⟨"resource encoding does not match target contract: " ++ name⟩
    return handle, found.2)

/-- The text of a second placement of an object. -/
def placedTwice (name : String) : String :=
  "artifact object has more than one materialization placement: " ++ name

/-- `Binder::materialize_on_device`. It changes the binder only when it returns. -/
def materializeOnDevice (binder : Binder) (handle : ObjectHandle) :
    Except ArtifactError Binder := do
  let object ← binder.descriptor handle
  let tensor ← tensorOf "resource cannot be materialized as a device tensor" object
  ensure (binder.planned.getD handle.index false = false) ⟨placedTwice tensor.name⟩
  let alignment := tensorAlignment tensor.layout
  let offset ← alignUp binder.materialization.deviceCapacityBytes alignment
  ensure (tensor.bytes ≤ U64.size - 1 - offset) ⟨"materialization plan size overflows u64"⟩
  return { binder with
    planned := binder.planned.set handle.index true
    materialization := { binder.materialization with
      deviceObjects := binder.materialization.deviceObjects ++
        [⟨handle, offset, tensor.bytes, alignment⟩]
      deviceCapacityBytes := offset + tensor.bytes } }

/-- `Binder::retain_on_host`. It changes the binder only when it returns. -/
def retainOnHost (binder : Binder) (handle : ObjectHandle) : Except ArtifactError Binder := do
  let object ← binder.descriptor handle
  let resource ← resourceOf "tensor cannot be retained as a host resource" object
  ensure (binder.planned.getD handle.index false = false) ⟨placedTwice resource.name⟩
  return { binder with
    planned := binder.planned.set handle.index true
    materialization := { binder.materialization with
      hostObjects := binder.materialization.hostObjects ++ [⟨handle⟩] } }

/-- `Binder::validate_only`. It changes the binder only when it returns. -/
def validateOnly (binder : Binder) (handle : ObjectHandle) : Except ArtifactError Binder := do
  let object ← binder.descriptor handle
  ensure (binder.planned.getD handle.index false = false) ⟨placedTwice (objectName object)⟩
  return { binder with planned := binder.planned.set handle.index true }

/-- The name of the first object whose flag is not set. -/
def firstUnset (binder : Binder) (flags : List Bool) : String :=
  (binder.reader.entries[flags.idxOf false]?).elim "" objectName

/-- `Binder::finish`. -/
def finish (binder : Binder) : Except ArtifactError MaterializationPlan := do
  ensure (false ∉ binder.consumed)
    ⟨"artifact object was not consumed by the selected target: " ++
      binder.firstUnset binder.consumed⟩
  ensure (false ∉ binder.planned)
    ⟨"artifact object has no materialization placement: " ++ binder.firstUnset binder.planned⟩
  return binder.materialization

end Binder

/-- A call of a target that may change the binder. -/
inductive BinderCall
  | requireTensor (name : String) (format : NumericFormat) (layout : StorageLayout)
      (shape : List Nat)
  | requireResource (name : String) (encoding : ResourceEncoding)
  | materializeOnDevice (handle : ObjectHandle)
  | retainOnHost (handle : ObjectHandle)
  | validateOnly (handle : ObjectHandle)

/-- The binder that a call leaves, whether it returned or threw. -/
def Binder.perform (binder : Binder) : BinderCall → Binder
  | .requireTensor name format layout shape => (binder.requireTensor name format layout shape).2
  | .requireResource name encoding => (binder.requireResource name encoding).2
  | .materializeOnDevice handle => (binder.materializeOnDevice handle).toOption.getD binder
  | .retainOnHost handle => (binder.retainOnHost handle).toOption.getD binder
  | .validateOnly handle => (binder.validateOnly handle).toOption.getD binder

/-- The binder that the calls of a target leave. -/
def Binder.performAll (reader : Reader) (calls : List BinderCall) : Binder :=
  calls.foldl Binder.perform (Binder.new reader)

/-! ### What the directory checks leave -/

/-- One object ends before the other starts. -/
def Before (a b : ObjectDescriptor) : Prop := objectOffset a + objectBytes a ≤ objectOffset b

/-- The objects are not empty, in the order of their payloads, and inside the file. -/
structure Reader.Sound (reader : Reader) : Prop where
  pos : ∀ object ∈ reader.entries, 0 < objectBytes object
  within : ∀ object ∈ reader.entries,
    reader.payloadStart + (objectOffset object + objectBytes object) ≤ reader.file.length
  ordered : reader.entries.Pairwise Before

theorem requireUnsigned_pos {value : Json} {label : String} {n : Nat}
    (h : requireUnsigned value label true = .ok n) : 0 < n := by
  cases value with
  | int i =>
    obtain ⟨hrange, h⟩ := ensure_bind_eq_ok.mp h
    obtain ⟨hpos, h⟩ := ensure_bind_eq_ok.mp h
    have := hpos rfl
    cases h
    omega
  | _ => cases h

theorem parseObject_pos {value : Json} {object : ObjectDescriptor}
    (h : parseObject value = .ok object) : 0 < objectBytes object := by
  have htensor : ∀ v, parseTensor v = .ok object → 0 < objectBytes object := by
    intro v hv
    simp only [parseTensor, bind_eq_ok] at hv
    obtain ⟨-, -, name, -, -, -, format, -, -, -, layout, -, offset, -, bytes, hbytes, shape, -, -,
      -, -, -, hv⟩ := hv
    cases hv
    exact requireUnsigned_pos hbytes
  have hresource : ∀ v, parseResource v = .ok object → 0 < objectBytes object := by
    intro v hv
    simp only [parseResource, bind_eq_ok] at hv
    obtain ⟨-, -, name, -, -, -, encoding, -, offset, -, bytes, hbytes, hv⟩ := hv
    cases hv
    exact requireUnsigned_pos hbytes
  cases value with
  | obj members =>
    unfold parseObject at h
    dsimp only at h
    split at h
    · exact htensor _ h
    · exact hresource _ h
    · cases h
  | _ => cases h

/-- The entries read so far, all of which end before the cursor. -/
structure Read (payloadBytes cursor : Nat) (entries : List ObjectDescriptor) : Prop where
  pos : ∀ object ∈ entries, 0 < objectBytes object
  behind : ∀ object ∈ entries, objectOffset object + objectBytes object ≤ cursor
  ordered : entries.Pairwise Before
  cursor_le : cursor ≤ payloadBytes

theorem checkedAdd_eq_ok {a b n : Nat} {label : String} (h : checkedAdd a b label = .ok n) :
    n = a + b := by
  obtain ⟨-, h⟩ := ensure_bind_eq_ok.mp h
  cases h
  rfl

theorem readObjects_read {payloadBytes cursor : Nat} {read read' : Entries}
    {rawObjects : List Json} (h : readObjects payloadBytes cursor read rawObjects = .ok read')
    (hread : Read payloadBytes cursor read.entries) :
    ∃ stop, Read payloadBytes stop read'.entries := by
  induction rawObjects generalizing cursor read with
  | nil =>
    cases h
    exact ⟨cursor, hread⟩
  | cons raw rawObjects ih =>
    simp only [readObjects, bind_eq_ok, exists_ensure] at h
    obtain ⟨object, hobject, hcursor, -, stop, hadd, hstop, -, h⟩ := h
    obtain rfl := checkedAdd_eq_ok hadd
    refine ih h ⟨?_, ?_, ?_, hstop⟩
    · intro o ho
      rcases List.mem_append.mp ho with ho | ho
      · exact hread.pos o ho
      · rw [List.mem_singleton.mp ho]
        exact parseObject_pos hobject
    · intro o ho
      rcases List.mem_append.mp ho with ho | ho
      · have := hread.behind o ho
        omega
      · rw [List.mem_singleton.mp ho]
    · -- everything read before ends before the cursor, and the object starts after it
      simp only [List.pairwise_append, List.pairwise_singleton, List.mem_singleton, true_and]
      refine ⟨hread.ordered, ?_⟩
      rintro o ho _ rfl
      exact (hread.behind o ho).trans hcursor

/-- **What an opened file holds**: objects that are not empty, do not overlap and lie inside it. -/
theorem Reader.sound_of_openFile {parse : List UInt8 → Option Json} {file : List UInt8}
    {reader : Reader} (h : Reader.openFile parse file = .ok reader) :
    reader.Sound ∧ reader.file = file := by
  simp only [openFile, bind_eq_ok, exists_ensure] at h
  obtain ⟨-, -, -, -, -, metadataEnd, -, payloadStart, -, hstart, h⟩ := h
  cases hdirectory : parse ((file.drop kPrefixBytes).take (readU64Le (file.drop 8))) with
  | none => simp [hdirectory] at h
  | some directory =>
    simp only [hdirectory, readDirectory, bind_eq_ok] at h
    obtain ⟨-, -, -, -, modelId, -, weightsId, -, rawObjects, -, read, hread, h⟩ := h
    cases h
    obtain ⟨stop, hpos, hbehind, hordered, hstop⟩ :=
      readObjects_read hread ⟨by simp, by simp, by simp, Nat.zero_le _⟩
    refine ⟨⟨hpos, fun object ho => ?_, hordered⟩, rfl⟩
    have := hbehind object ho
    dsimp only
    omega

/-- The payload of an object of a sound reader. -/
theorem Reader.Sound.payload {reader : Reader} (h : reader.Sound)
    (hfile : reader.file.length < U64.size) {object : ObjectDescriptor}
    (hobject : object ∈ reader.entries) :
    reader.payload object = .ok ⟨reader.payloadStart + objectOffset object,
      (reader.file.drop (reader.payloadStart + objectOffset object)).take
        (objectBytes object)⟩ := by
  have hwithin := h.within object hobject
  have hstart : reader.payloadStart < U64.size := by omega
  unfold Reader.payload
  simp only [bind_eq_ok, exists_ensure]
  refine ⟨_, (checkedAdd_eq_ok_iff hstart).mpr ⟨by omega, rfl⟩, _,
    (checkedAdd_eq_ok_iff (by omega)).mpr ⟨by omega, rfl⟩, by omega, rfl⟩

/-! ### The plan -/

/-- The placements are laid out one after another from a position on, each at the first aligned
place, up to `stop`. -/
def LaidOut (stop : Nat) : Nat → List DeviceMaterialization → Prop
  | cursor, [] => cursor = stop
  | cursor, placement :: rest =>
    placement.offset = roundUp cursor placement.alignment ∧
      LaidOut stop (placement.offset + placement.bytes) rest

theorem LaidOut.concat {placements : List DeviceMaterialization} {cursor stop : Nat}
    (h : LaidOut stop cursor placements) (placement : DeviceMaterialization)
    (hoffset : placement.offset = roundUp stop placement.alignment) :
    LaidOut (placement.offset + placement.bytes) cursor (placements ++ [placement]) := by
  induction placements generalizing cursor with
  | nil =>
    cases h
    exact ⟨hoffset, rfl⟩
  | cons first placements ih => exact ⟨h.1, ih h.2⟩

/-- The placement is of a tensor of the reader, with its size and its alignment. -/
def DeviceMaterialization.Places (reader : Reader) (placement : DeviceMaterialization) : Prop :=
  ∃ tensor : TensorDescriptor, reader.entries[placement.object.index]? = some (.tensor tensor) ∧
    placement.bytes = tensor.bytes ∧ placement.alignment = tensorAlignment tensor.layout

/-- The placement is of a resource of the reader. -/
def HostMaterialization.Keeps (reader : Reader) (placement : HostMaterialization) : Prop :=
  ∃ resource : ResourceDescriptor,
    reader.entries[placement.object.index]? = some (.resource resource)

/-- The objects that a plan places. -/
def MaterializationPlan.indices (plan : MaterializationPlan) : List Nat :=
  plan.deviceObjects.map (·.object.index) ++ plan.hostObjects.map (·.object.index)

/-- The plan is a layout of distinct tensors, and it keeps distinct resources. -/
structure MaterializationPlan.Sound (reader : Reader) (plan : MaterializationPlan) : Prop where
  count : plan.objectCount = reader.entries.length
  capacity_lt : plan.deviceCapacityBytes < U64.size
  laidOut : LaidOut plan.deviceCapacityBytes 0 plan.deviceObjects
  places : ∀ placement ∈ plan.deviceObjects, placement.Places reader
  keeps : ∀ placement ∈ plan.hostObjects, placement.Keeps reader
  distinct : plan.indices.Nodup

namespace Binder

/-- The plan is sound, and every object it places has its flag. -/
structure Sound (reader : Reader) (binder : Binder) : Prop where
  reader_eq : binder.reader = reader
  plan : binder.materialization.Sound reader
  flags : binder.planned.length = reader.entries.length
  flagged : ∀ i ∈ binder.materialization.indices, binder.planned[i]? = some true

theorem sound_new (reader : Reader) : (new reader).Sound reader where
  reader_eq := rfl
  plan := ⟨rfl, by simp [new, U64.size], rfl, by simp [new], by simp [new],
    by simp [new, MaterializationPlan.indices]⟩
  flags := by simp [new]
  flagged := by simp [new, MaterializationPlan.indices]

theorem alignUp_eq_ok {value alignment n : Nat} (hpow : ∃ k, k ≤ 64 ∧ alignment = 2 ^ k)
    (h : alignUp value alignment = .ok n) : n = roundUp value alignment ∧ n < U64.size := by
  obtain ⟨k, hk, rfl⟩ := hpow
  obtain ⟨hle, h⟩ := ensure_bind_eq_ok.mp h
  cases h
  have hpow : 2 ^ k ≤ U64.size := Nat.pow_le_pow_right (by omega) hk
  have hpos := Nat.two_pow_pos k
  have hlt : value + (2 ^ k - 1) < U64.size := by omega
  rw [U64.land_complement hk hlt]
  exact ⟨rfl, (Nat.div_mul_le_self _ _).trans_lt hlt⟩

theorem descriptor_eq_ok {binder : Binder} {handle : ObjectHandle} {object : ObjectDescriptor} :
    binder.descriptor handle = .ok object ↔ binder.reader.entries[handle.index]? = some object := by
  unfold descriptor
  cases binder.reader.entries[handle.index]? <;> simp

variable {reader : Reader} {binder binder' : Binder} {handle : ObjectHandle}

/-- An object without its flag is not in the plan. -/
theorem Sound.notMem_indices (h : binder.Sound reader) {i : Nat}
    (hi : binder.planned.getD i false = false) : i ∉ binder.materialization.indices := by
  intro hmem
  have := h.flagged i hmem
  simp [this] at hi

/-- Setting a flag keeps those that are set. -/
theorem getElem?_set_true {flags : List Bool} {i j : Nat} (h : flags[j]? = some true) :
    (flags.set i true)[j]? = some true := by
  rw [List.getElem?_set]
  split_ifs with hij hlt
  · rfl
  · subst hij
    exact absurd (List.getElem?_eq_some_iff.mp h).1 hlt
  · exact h

/-- Placing one more object that had no flag: the new plan is sound when it places that object
besides the others. -/
theorem Sound.place (h : binder.Sound reader) {object : ObjectDescriptor}
    {plan : MaterializationPlan} (hobject : reader.entries[handle.index]? = some object)
    (hflag : binder.planned.getD handle.index false = false)
    (hindices : plan.indices.Perm (handle.index :: binder.materialization.indices))
    (hplan : plan.indices.Nodup → plan.Sound reader) :
    Sound reader ⟨reader, binder.consumed, binder.planned.set handle.index true, plan⟩ where
  reader_eq := rfl
  plan := hplan (hindices.nodup_iff.mpr
    (List.nodup_cons.mpr ⟨h.notMem_indices hflag, h.plan.distinct⟩))
  flags := by simp [h.flags]
  flagged := by
    intro i hi
    obtain ⟨hlt, -⟩ := List.getElem?_eq_some_iff.mp hobject
    rcases List.mem_cons.mp (hindices.mem_iff.mp hi) with rfl | hi
    · simp [h.flags, hlt]
    · exact getElem?_set_true (h.flagged i hi)

theorem Sound.materializeOnDevice (h : binder.Sound reader)
    (hcall : binder.materializeOnDevice handle = .ok binder') : binder'.Sound reader := by
  simp only [Binder.materializeOnDevice, bind_eq_ok, exists_ensure, descriptor_eq_ok,
    h.reader_eq] at hcall
  obtain ⟨object, hobject, tensor, htensor, hflag, offset, hoffset, hbytes, hcall⟩ := hcall
  cases object with
  | resource resource => cases htensor
  | tensor descriptor =>
    cases htensor
    cases hcall
    obtain ⟨hround, hlt⟩ := alignUp_eq_ok ⟨8, by omega, rfl⟩ hoffset
    refine h.place hobject hflag ?_ ?_
    · simp only [MaterializationPlan.indices, List.map_append, List.map_singleton,
        List.append_assoc, List.singleton_append]
      exact List.perm_middle
    intro hnodup
    refine ⟨h.plan.count, ?_, ?_, ?_, h.plan.keeps, hnodup⟩
    · dsimp only
      omega
    · exact h.plan.laidOut.concat
        (DeviceMaterialization.mk handle offset tensor.bytes (tensorAlignment tensor.layout)) hround
    · intro placement hp
      rcases List.mem_append.mp hp with hp | hp
      · exact h.plan.places placement hp
      · rw [List.mem_singleton.mp hp]
        exact ⟨tensor, hobject, rfl, rfl⟩

theorem Sound.retainOnHost (h : binder.Sound reader)
    (hcall : binder.retainOnHost handle = .ok binder') : binder'.Sound reader := by
  simp only [Binder.retainOnHost, bind_eq_ok, exists_ensure, descriptor_eq_ok,
    h.reader_eq] at hcall
  obtain ⟨object, hobject, resource, hresource, hflag, hcall⟩ := hcall
  cases object with
  | tensor descriptor => cases hresource
  | resource descriptor =>
    cases hresource
    cases hcall
    refine h.place hobject hflag ?_ ?_
    · simp only [MaterializationPlan.indices, List.map_append, List.map_singleton,
        ← List.append_assoc]
      exact List.perm_append_singleton _ _
    · intro hnodup
      refine ⟨h.plan.count, h.plan.capacity_lt, h.plan.laidOut, h.plan.places, ?_, hnodup⟩
      intro placement hp
      rcases List.mem_append.mp hp with hp | hp
      · exact h.plan.keeps placement hp
      · rw [List.mem_singleton.mp hp]
        exact ⟨resource, hobject⟩

theorem Sound.validateOnly (h : binder.Sound reader)
    (hcall : binder.validateOnly handle = .ok binder') : binder'.Sound reader := by
  simp only [Binder.validateOnly, bind_eq_ok, exists_ensure] at hcall
  obtain ⟨object, -, -, hcall⟩ := hcall
  cases hcall
  exact ⟨h.reader_eq, h.plan, by simp [h.flags], fun i hi => getElem?_set_true (h.flagged i hi)⟩

/-- Requiring an object changes nothing but its consumed flag. -/
theorem Sound.findUnconsumed (h : binder.Sound reader) (name : String) :
    (binder.findUnconsumed name).2.Sound reader := by
  unfold Binder.findUnconsumed
  cases binder.reader.indexOf name with
  | none => exact h
  | some index =>
    dsimp only
    split_ifs
    · exact h
    · exact ⟨h.reader_eq, h.plan, h.flags, h.flagged⟩

/-- A call that threw left the binder as it was. -/
theorem Sound.getD {result : Except ArtifactError Binder} (h : binder.Sound reader)
    (hresult : ∀ binder', result = .ok binder' → binder'.Sound reader) :
    (result.toOption.getD binder).Sound reader := by
  cases result with
  | ok binder' => exact hresult binder' rfl
  | error e => exact h

/-- A call keeps the plan sound, whether it returns or throws. -/
theorem Sound.perform (h : binder.Sound reader) (call : BinderCall) :
    (binder.perform call).Sound reader := by
  cases call with
  | requireTensor name format layout shape => exact h.findUnconsumed name
  | requireResource name encoding => exact h.findUnconsumed name
  | materializeOnDevice handle => exact h.getD fun _ => h.materializeOnDevice
  | retainOnHost handle => exact h.getD fun _ => h.retainOnHost
  | validateOnly handle => exact h.getD fun _ => h.validateOnly

/-- **Every plan a target can build is sound**, whatever it calls in whatever order. -/
theorem sound_performAll (reader : Reader) (calls : List BinderCall) :
    (performAll reader calls).Sound reader := by
  induction calls using List.reverseRecOn with
  | nil => exact sound_new reader
  | append_singleton calls call ih =>
    unfold performAll at ih ⊢
    rw [List.foldl_append, List.foldl_cons, List.foldl_nil]
    exact ih.perform call

/-- What a target that finished has planned. -/
theorem sound_of_finish {calls : List BinderCall} {plan : MaterializationPlan}
    (h : (performAll reader calls).finish = .ok plan) : plan.Sound reader := by
  simp only [finish, bind_eq_ok, exists_ensure] at h
  obtain ⟨-, -, h⟩ := h
  cases h
  exact (sound_performAll reader calls).plan

end Binder

end Ninfer.Artifact
