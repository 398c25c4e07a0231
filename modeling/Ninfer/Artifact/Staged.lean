import Ninfer.Artifact.Uploading

/-!
# What precedes the first read

A sound plan, staged from the file it was made for: its resources are retained and its tensors lie
in the arena where the plan says, apart from each other on the device and in the file.

## Main definitions

* `rangeOf`: the range of a placement in the file and on the device
* `Platform.Provides`: what the device and the pinned buffers are promised to be
* `StagedFor`: what `stage` leaves

## Main results

* `sum_sizeAt_le`: distinct objects have no more bytes than the file
* `stage_of_sound`: what precedes the first read does not fail, and leaves ranges in order
-/

namespace Ninfer.Artifact.Materializer

open Ninfer.Core Staging

/-- Where the payload of an object starts in the file. -/
def startOf (reader : Reader) (handle : ObjectHandle) : Nat :=
  reader.payloadStart + (reader.entries[handle.index]?).elim 0 objectOffset

/-- The size of the payload of an object. -/
def sizeAt (reader : Reader) (index : Nat) : Nat := (reader.entries[index]?).elim 0 objectBytes

/-- The payload of an object, as it stands in the file. -/
def payloadOf (reader : Reader) (handle : ObjectHandle) : List UInt8 :=
  (reader.file.drop (startOf reader handle)).take (sizeAt reader handle.index)

/-- The range of a placement in the file, and where it goes. -/
def rangeOf (base : Nat) (reader : Reader) (placement : DeviceMaterialization) : CopyRange :=
  ⟨startOf reader placement.object, startOf reader placement.object + placement.bytes,
    base + placement.offset⟩

/-- `cudaMalloc` returns an aligned block of the size asked for, and pinned buffers start on a
page. -/
structure Platform.Provides (platform : Platform) (capacity : Nat) : Prop where
  base_ne : platform.deviceBase ≠ 0
  base_dvd : 256 ∣ platform.deviceBase
  block : platform.deviceBase + capacity ≤ U64.size
  pinned : ∀ slot, directIoAlignment ∣ platform.pinned slot

variable {platform : Platform} {reader : Reader} {plan : MaterializationPlan} {progress : Bool}

/-! ### The sizes of distinct objects -/

theorem sum_objectBytes_le {entries : List ObjectDescriptor} (start stop : Nat)
    (hordered : entries.Pairwise Before) (hstart : ∀ object ∈ entries, start ≤ objectOffset object)
    (hstop : ∀ object ∈ entries, objectOffset object + objectBytes object ≤ stop)
    (hle : start ≤ stop) : start + (entries.map objectBytes).sum ≤ stop := by
  induction entries generalizing start with
  | nil => simpa using hle
  | cons object entries ih =>
    simp only [List.mem_cons, forall_eq_or_imp] at hstart hstop
    have := ih _ hordered.of_cons (fun o ho => List.rel_of_pairwise_cons hordered ho) hstop.2
      hstop.1
    rw [List.map_cons, List.sum_cons]
    omega

/-- Distinct objects of a sound reader have no more bytes than its file. -/
theorem sum_sizeAt_le (hreader : reader.Sound) {indices : List Nat} (hnodup : indices.Nodup)
    (hlt : ∀ i ∈ indices, i < reader.entries.length) :
    (indices.map (sizeAt reader)).sum ≤ reader.file.length := by
  have hsubset : indices ⊆ List.range reader.entries.length := fun i hi =>
    List.mem_range.mpr (hlt i hi)
  obtain ⟨chosen, hperm, hsub⟩ := List.subperm_of_subset hnodup hsubset
  have hall : (List.range reader.entries.length).map (sizeAt reader) =
      reader.entries.map objectBytes := by
    apply List.ext_getElem
    · simp
    · intro i h _
      have hi : i < reader.entries.length := by simpa using h
      simp [sizeAt, hi]
  calc (indices.map (sizeAt reader)).sum = (chosen.map (sizeAt reader)).sum :=
        (hperm.map _).sum_eq.symm
    _ ≤ ((List.range reader.entries.length).map (sizeAt reader)).sum :=
        (hsub.map _).sum_le_sum (fun _ _ => Nat.zero_le _)
    _ = (reader.entries.map objectBytes).sum := by rw [hall]
    _ ≤ reader.file.length := by
        have := sum_objectBytes_le 0 reader.file.length hreader.ordered
          (fun _ _ => Nat.zero_le _) (fun o ho => by have := hreader.within o ho; omega)
          (Nat.zero_le _)
        omega

/-! ### Changing objects one after another -/

section Modify

variable {ι α : Type} {f : ι → Nat} {g : ι → α → α} {l : List ι} {objects : List α}

theorem getElem?_foldl_modify_of_notMem {i : Nat} (h : i ∉ l.map f) :
    (l.foldl (fun o x => o.modify (f x) (g x)) objects)[i]? = objects[i]? := by
  induction l generalizing objects with
  | nil => rfl
  | cons x l ih =>
    simp only [List.map_cons, List.mem_cons, not_or] at h
    have hne : f x ≠ i := fun he => h.1 he.symm
    rw [List.foldl_cons, ih h.2]
    simp [hne]

/-- Changes at distinct positions: each finds what stood there at first. -/
theorem getElem?_foldl_modify_of_mem {x : ι} (hnodup : (l.map f).Nodup) (hx : x ∈ l) :
    (l.foldl (fun o x => o.modify (f x) (g x)) objects)[f x]? = objects[f x]?.map (g x) := by
  induction l generalizing objects with
  | nil => cases hx
  | cons y l ih =>
    obtain ⟨hy, hnodup⟩ := List.nodup_cons.mp hnodup
    rw [List.foldl_cons]
    rcases List.mem_cons.mp hx with rfl | hx
    · rw [getElem?_foldl_modify_of_notMem hy]
      simp
    · have hne : f y ≠ f x := fun he => hy (he ▸ List.mem_map_of_mem hx)
      rw [ih hnodup hx]
      simp [hne]

theorem length_foldl_modify :
    (l.foldl (fun o x => o.modify (f x) (g x)) objects).length = objects.length := by
  induction l generalizing objects with
  | nil => rfl
  | cons x l ih => rw [List.foldl_cons, ih, List.length_modify]

end Modify

/-! ### Before the first read -/

section Stage

/-- The payload of an object that a plan places. -/
theorem payload_at (hreader : reader.Sound) (hfile : reader.file.length < U64.size)
    {handle : ObjectHandle} {object : ObjectDescriptor}
    (hobject : reader.entries[handle.index]? = some object) :
    objectAt reader handle = .ok object ∧
      reader.payload object = .ok ⟨startOf reader handle, payloadOf reader handle⟩ ∧
      (payloadOf reader handle).length = sizeAt reader handle.index ∧
      startOf reader handle + sizeAt reader handle.index ≤ reader.file.length := by
  have hmem := List.mem_of_getElem? hobject
  have hwithin := hreader.within object hmem
  refine ⟨by simp [objectAt, hobject], ?_, ?_, ?_⟩
  · rw [hreader.payload hfile hmem]
    simp [startOf, payloadOf, sizeAt, hobject]
  · simp only [payloadOf, startOf, sizeAt, hobject, Option.elim_some, List.length_take,
      List.length_drop]
    omega
  · simp only [startOf, sizeAt, hobject, Option.elim_some]
    omega

theorem changeAt_of_lt {objects : List ObjectStorage} {handle : ObjectHandle}
    {change : ObjectStorage → ObjectStorage} (h : handle.index < objects.length) :
    changeAt objects handle change = .ok (objects.modify handle.index change) := by
  unfold changeAt
  rw [ensure_bind_of h]
  rfl

/-- The objects with the resources of some placements retained. -/
def retainAll (reader : Reader) (placements : List HostMaterialization)
    (objects : List ObjectStorage) : List ObjectStorage :=
  placements.foldl (fun objects placement => objects.modify placement.object.index fun storage =>
    { storage with resource := payloadOf reader placement.object }) objects

/-- The objects with the tensors of some placements placed. -/
def placeAll (base : Nat) (placements : List DeviceMaterialization)
    (objects : List ObjectStorage) : List ObjectStorage :=
  placements.foldl (fun objects placement => objects.modify placement.object.index fun storage =>
    { storage with device := base + placement.offset }) objects

/-- The sizes of the objects of some handles. -/
def sizesOf (reader : Reader) (handles : List ObjectHandle) : Nat :=
  (handles.map fun handle => sizeAt reader handle.index).sum

/-- Retaining resources does not fail. -/
theorem retain_fold (hreader : reader.Sound) (hfile : reader.file.length < U64.size)
    {placements : List HostMaterialization} (retained : Retained)
    (hkeeps : ∀ placement ∈ placements, placement.Keeps reader)
    (hlength : retained.objects.length = reader.entries.length)
    (hfits : retained.fileBytes + sizesOf reader (placements.map (·.object)) < U64.size) :
    placements.foldlM (retainResource reader) retained =
      .ok ⟨retainAll reader placements retained.objects,
        retained.retainedResourceBytes + sizesOf reader (placements.map (·.object)),
        retained.fileBytes + sizesOf reader (placements.map (·.object))⟩ := by
  induction placements generalizing retained with
  | nil => rfl
  | cons placement placements ih =>
    simp only [List.mem_cons, forall_eq_or_imp] at hkeeps
    obtain ⟨⟨resource, hentry⟩, hkeeps⟩ := hkeeps
    obtain ⟨hat, hpayload, hsize, -⟩ := payload_at hreader hfile hentry
    obtain ⟨hlt, -⟩ := List.getElem?_eq_some_iff.mp hentry
    have hsum : sizesOf reader ((placement :: placements).map (·.object)) =
        sizeAt reader placement.object.index + sizesOf reader (placements.map (·.object)) := by
      simp [sizesOf]
    rw [hsum] at hfits ⊢
    have hstep : retainResource reader retained placement =
        .ok ⟨retainAll reader [placement] retained.objects,
          retained.retainedResourceBytes + sizeAt reader placement.object.index,
          retained.fileBytes + sizeAt reader placement.object.index⟩ := by
      unfold retainResource
      rw [hat, ok_bind, hpayload]
      simp only [Except.mapError, ok_bind, hsize]
      rw [changeAt_of_lt (hlength ▸ hlt), ok_bind, checkedAdd_of_lt (by omega), ok_bind]
      rfl
    rw [List.foldlM_cons, hstep, ok_bind, ih _ hkeeps (by simp [retainAll, hlength])
      (by dsimp only; omega)]
    simp [retainAll, Nat.add_assoc]

/-- In an arena that ends where the placements laid out so far do, the next one is placed where the
plan says. -/
theorem place_of_fits {arena : DeviceArena} {bytes align : Nat} (hbase : arena.base ≠ 0)
    (hend : arena.base + arena.cap ≤ U64.size) (hpow : isPowerOfTwo align)
    (hdvd : align ∣ arena.base) (hbytes : bytes ≠ 0)
    (hfits : roundUp arena.off align + bytes ≤ arena.cap) :
    arena.place bytes align = .ok (⟨arena.base + roundUp arena.off align, bytes⟩,
      { arena with
        off := roundUp arena.off align + bytes
        peak := max arena.peak (roundUp arena.off align + bytes) }) := by
  have h := DeviceArena.allocBytes_of_fits hbase hend hpow hdvd hbytes hfits
  unfold DeviceArena.allocBytes at h
  cases hplace : arena.place bytes align with
  | error e => simp [hplace] at h
  | ok result =>
    simp only [hplace, EStateM.Result.ok.injEq] at h
    rw [← h.1, ← h.2]

theorem laidOut_le {stop cursor : Nat} {placements : List DeviceMaterialization}
    (h : LaidOut stop cursor placements)
    (hpos : ∀ placement ∈ placements, 0 < placement.alignment) :
    cursor ≤ stop := by
  induction placements generalizing cursor with
  | nil => exact Nat.le_of_eq h
  | cons placement placements ih =>
    simp only [List.mem_cons, forall_eq_or_imp] at hpos
    have := ih h.2 hpos.2
    have := le_roundUp cursor hpos.1
    have := h.1
    omega

/-- Placing the tensors of a plan does not fail, and puts them where the plan says. -/
theorem place_fold (hreader : reader.Sound) (hfile : reader.file.length < U64.size)
    {capacity : Nat} (hprovides : platform.Provides capacity)
    {placements : List DeviceMaterialization} (placed : Placed)
    (hplaces : ∀ placement ∈ placements, placement.Places reader)
    (hlength : placed.objects.length = reader.entries.length)
    (hbase : placed.arena.base = platform.deviceBase) (hcap : placed.arena.cap = capacity)
    (hlaid : LaidOut capacity placed.arena.off placements)
    (hfits : placed.total + sizesOf reader (placements.map (·.object)) < U64.size) :
    ∃ arena, placements.foldlM (placeTensor reader) placed =
      .ok ⟨arena, placeAll platform.deviceBase placements placed.objects,
        placed.ranges ++ placements.map (rangeOf platform.deviceBase reader),
        placed.total + sizesOf reader (placements.map (·.object))⟩ := by
  induction placements generalizing placed with
  | nil => exact ⟨placed.arena, by simp [placeAll, sizesOf]; rfl⟩
  | cons placement placements ih =>
    have hpos : ∀ p ∈ placement :: placements, 0 < p.alignment := by
      intro p hp
      obtain ⟨tensor, -, -, halign⟩ := hplaces p hp
      simp [halign, tensorAlignment, kTensorAlignment]
    simp only [List.mem_cons, forall_eq_or_imp] at hplaces
    obtain ⟨⟨tensor, hentry, hbytes, halign⟩, hplaces⟩ := hplaces
    obtain ⟨hat, hpayload, hsize, hwithin⟩ := payload_at hreader hfile hentry
    obtain ⟨hlt, -⟩ := List.getElem?_eq_some_iff.mp hentry
    have hsizeAt : sizeAt reader placement.object.index = placement.bytes := by
      simp [sizeAt, hentry, hbytes, objectBytes]
    have hnonempty : 0 < placement.bytes := by
      have := hreader.pos _ (List.mem_of_getElem? hentry)
      simpa [hbytes, objectBytes] using this
    have hsum : sizesOf reader ((placement :: placements).map (·.object)) =
        placement.bytes + sizesOf reader (placements.map (·.object)) := by
      simp [sizesOf, hsizeAt]
    rw [hsum] at hfits ⊢
    obtain ⟨hoffset, hrest⟩ := hlaid
    have hle := laidOut_le hrest fun p hp => hpos p (List.mem_cons_of_mem _ hp)
    have halignment : placement.alignment = 256 := by
      simp [halign, tensorAlignment, kTensorAlignment]
    have hblock : placed.arena.base + placed.arena.cap ≤ U64.size := by
      rw [hbase, hcap]
      exact hprovides.block
    have hdvd : placement.alignment ∣ placed.arena.base := by
      rw [hbase, halignment]
      exact hprovides.base_dvd
    have hpow : isPowerOfTwo placement.alignment := halignment ▸ isPowerOfTwo_iff.mpr ⟨8, rfl⟩
    have hroom : roundUp placed.arena.off placement.alignment + placement.bytes ≤
        placed.arena.cap := by omega
    -- The arena places the tensor where the binder has planned it.
    have hplace := place_of_fits (hbase ▸ hprovides.base_ne) hblock hpow hdvd hnonempty.ne' hroom
    rw [← hoffset, hbase] at hplace
    have hstep : placeTensor reader placed placement =
        .ok ⟨{ placed.arena with
            off := placement.offset + placement.bytes
            peak := max placed.arena.peak (placement.offset + placement.bytes) },
          placeAll platform.deviceBase [placement] placed.objects,
          placed.ranges ++ [rangeOf platform.deviceBase reader placement],
          placed.total + placement.bytes⟩ := by
      unfold placeTensor
      rw [hat, ok_bind, hpayload]
      simp only [Except.mapError, ok_bind, hplace, hsize, hsizeAt, hbase]
      rw [ensure_bind_of ⟨by omega, trivial⟩, changeAt_of_lt (hlength ▸ hlt), ok_bind,
        checkedAdd_of_lt (by omega), ok_bind, checkedAdd_of_lt (by omega), ok_bind]
      rfl
    obtain ⟨arena, hfold⟩ := ih ⟨{ placed.arena with
        off := placement.offset + placement.bytes
        peak := max placed.arena.peak (placement.offset + placement.bytes) },
      placeAll platform.deviceBase [placement] placed.objects,
      placed.ranges ++ [rangeOf platform.deviceBase reader placement],
      placed.total + placement.bytes⟩ hplaces (by simp [placeAll, hlength]) hbase hcap hrest
      (by dsimp only; omega)
    refine ⟨arena, ?_⟩
    rw [List.foldlM_cons, hstep, ok_bind, hfold]
    simp [placeAll, Nat.add_assoc]

/-- The placements laid out later start behind a position. -/
theorem le_offset_of_laidOut {stop cursor : Nat} {placements : List DeviceMaterialization}
    (h : LaidOut stop cursor placements)
    (hpos : ∀ placement ∈ placements, 0 < placement.alignment) :
    ∀ placement ∈ placements,
      cursor ≤ placement.offset ∧ placement.offset + placement.bytes ≤ stop := by
  induction placements generalizing cursor with
  | nil => simp
  | cons first placements ih =>
    have hle := laidOut_le h.2 fun p hp => hpos p (List.mem_cons_of_mem _ hp)
    have hround := le_roundUp cursor (hpos first (List.mem_cons_self ..))
    have hoffset := h.1
    intro placement hp
    rcases List.mem_cons.mp hp with rfl | hp
    · omega
    · have := ih h.2 (fun p hp => hpos p (List.mem_cons_of_mem _ hp)) placement hp
      omega

theorem dvd_offset_of_laidOut {stop cursor : Nat} {placements : List DeviceMaterialization}
    (h : LaidOut stop cursor placements) :
    ∀ placement ∈ placements, placement.alignment ∣ placement.offset := by
  induction placements generalizing cursor with
  | nil => simp
  | cons first placements ih =>
    intro placement hp
    rcases List.mem_cons.mp hp with rfl | hp
    · exact h.1 ▸ dvd_roundUp _ _
    · exact ih h.2 placement hp

/-- The regions of a layout lie one behind the other. -/
theorem pairwise_of_laidOut {stop cursor : Nat} {placements : List DeviceMaterialization}
    (h : LaidOut stop cursor placements)
    (hpos : ∀ placement ∈ placements, 0 < placement.alignment) :
    placements.Pairwise fun a b => a.offset + a.bytes ≤ b.offset := by
  induction placements generalizing cursor with
  | nil => exact List.Pairwise.nil
  | cons first placements ih =>
    have htail : ∀ p ∈ placements, 0 < p.alignment := fun p hp =>
      hpos p (List.mem_cons_of_mem _ hp)
    exact List.Pairwise.cons (fun p hp => (le_offset_of_laidOut h.2 htail p hp).1) (ih h.2 htail)

/-- What a placement of a sound plan is. -/
theorem placement_spec (hreader : reader.Sound) (hplan : plan.Sound reader)
    {placement : DeviceMaterialization} (hp : placement ∈ plan.deviceObjects) :
    placement.object.index < reader.entries.length ∧ 0 < placement.bytes ∧
      placement.alignment = 256 ∧ placement.bytes = sizeAt reader placement.object.index ∧
      startOf reader placement.object + placement.bytes ≤ reader.file.length ∧
      placement.offset + placement.bytes ≤ plan.deviceCapacityBytes := by
  have halignment : ∀ p ∈ plan.deviceObjects, p.alignment = 256 := by
    intro p hp
    obtain ⟨tensor, -, -, halign⟩ := hplan.places p hp
    simp [halign, tensorAlignment, kTensorAlignment]
  obtain ⟨tensor, hentry, hbytes, -⟩ := hplan.places placement hp
  obtain ⟨hlt, -⟩ := List.getElem?_eq_some_iff.mp hentry
  have hmem := List.mem_of_getElem? hentry
  have hpos := hreader.pos _ hmem
  have hwithin := hreader.within _ hmem
  have hinside := (le_offset_of_laidOut hplan.laidOut
    (fun p hp => by simp [halignment p hp]) placement hp).2
  simp only [objectBytes, objectOffset] at hpos hwithin
  refine ⟨hlt, by omega, halignment placement hp, ?_, ?_, hinside⟩
  · simp [sizeAt, hentry, hbytes, objectBytes]
  · simp only [startOf, hentry, Option.elim_some, objectOffset]
    omega

/-- Two objects of a sound reader have their payloads apart. -/
theorem apart_of_ne (hreader : reader.Sound) {a b : ObjectHandle} (hne : a.index ≠ b.index)
    (ha : a.index < reader.entries.length) (hb : b.index < reader.entries.length) :
    startOf reader a + sizeAt reader a.index ≤ startOf reader b ∨
      startOf reader b + sizeAt reader b.index ≤ startOf reader a := by
  have hordered := List.pairwise_iff_getElem.mp hreader.ordered
  simp only [startOf, sizeAt, List.getElem?_eq_getElem ha, List.getElem?_eq_getElem hb,
    Option.elim_some]
  rcases Nat.lt_or_gt_of_ne hne with hlt | hlt
  · have := hordered a.index b.index ha hb hlt
    unfold Before at this
    omega
  · have := hordered b.index a.index hb ha hlt
    unfold Before at this
    omega

theorem bytesBefore_perm {position : Nat} {ranges ranges' : List CopyRange}
    (h : ranges.Perm ranges') : bytesBefore position ranges = bytesBefore position ranges' :=
  (h.map _).sum_eq

/-- The ranges of a sound plan, sorted by their beginnings: in order, with their targets apart. -/
theorem ordered_of_sound (hreader : reader.Sound) (hplan : plan.Sound reader)
    {base : Nat} {sorted : List CopyRange}
    (hperm : sorted.Perm (plan.deviceObjects.map (rangeOf base reader)))
    (hsorted : sorted.Pairwise fun a b => a.sourceBegin ≤ b.sourceBegin) :
    Ordered sorted ∧ Targets sorted ∧ ∀ range ∈ sorted, range.sourceEnd ≤ reader.file.length := by
  have hspec : ∀ range ∈ sorted, range.sourceBegin < range.sourceEnd ∧
      range.sourceEnd ≤ reader.file.length := by
    intro range hr
    obtain ⟨placement, hp, rfl⟩ := List.mem_map.mp (hperm.mem_iff.mp hr)
    obtain ⟨-, hpos, -, -, hend, -⟩ := placement_spec hreader hplan hp
    exact ⟨by simp only [rangeOf]; omega, hend⟩
  have hpos : ∀ placement ∈ plan.deviceObjects, 0 < placement.alignment := fun p hp => by
    simp [(placement_spec hreader hplan hp).2.2.1]
  have hdistinct : plan.deviceObjects.Pairwise fun a b => a.object.index ≠ b.object.index := by
    have := (List.nodup_append.mp hplan.distinct).1
    exact List.pairwise_map.mp this
  -- distinct objects have their payloads apart
  have hapart : sorted.Pairwise fun a b =>
      a.sourceEnd ≤ b.sourceBegin ∨ b.sourceEnd ≤ a.sourceBegin := by
    refine (hperm.pairwise_iff fun h => h.symm).mpr (List.pairwise_map.mpr ?_)
    refine hdistinct.imp_of_mem fun ha hb hne => ?_
    obtain ⟨haLt, -, -, haBytes, -⟩ := placement_spec hreader hplan ha
    obtain ⟨hbLt, -, -, hbBytes, -⟩ := placement_spec hreader hplan hb
    have := apart_of_ne hreader hne haLt hbLt
    simp only [rangeOf]
    omega
  have htargets : Targets sorted := by
    refine (hperm.pairwise_iff fun h => h.symm).mpr (List.pairwise_map.mpr ?_)
    refine (pairwise_of_laidOut hplan.laidOut hpos).imp fun h => ?_
    simp only [rangeOf]
    omega
  refine ⟨⟨fun r hr => (hspec r hr).1, ?_⟩, htargets, fun r hr => (hspec r hr).2⟩
  refine (hsorted.and hapart).imp_of_mem fun ha hb h => ?_
  have := hspec _ ha
  have := hspec _ hb
  omega

/-- All bytes of the ranges lie before the end of the file. -/
theorem bytesBefore_rangeOf (hreader : reader.Sound) (hplan : plan.Sound reader) {base : Nat} :
    bytesBefore reader.file.length (plan.deviceObjects.map (rangeOf base reader)) =
      sizesOf reader (plan.deviceObjects.map (·.object)) := by
  unfold bytesBefore sizesOf
  rw [List.map_map, List.map_map]
  congr 1
  refine List.map_congr_left fun placement hp => ?_
  obtain ⟨-, -, -, hbytes, hend, -⟩ := placement_spec hreader hplan hp
  simp only [Function.comp_apply, rangeOf]
  omega

/-- What `stage` leaves of a sound plan. -/
structure StagedFor (platform : Platform) (reader : Reader) (plan : MaterializationPlan)
    (staged : Staged) : Prop where
  ready : Ready reader.file staged
  ranges : staged.ranges.Perm (plan.deviceObjects.map (rangeOf platform.deviceBase reader))
  objects : staged.objects = placeAll platform.deviceBase plan.deviceObjects
    (retainAll reader plan.hostObjects (List.replicate reader.entries.length ⟨0, []⟩))
  total : staged.total = sizesOf reader (plan.deviceObjects.map (·.object))
  retained : staged.retainedResourceBytes = sizesOf reader (plan.hostObjects.map (·.object))

/-- **What precedes the first read does not fail**, and it leaves the ranges in order. -/
theorem stage_of_sound (hreader : reader.Sound) (hfile : reader.file.length < 2 ^ 63)
    (hplan : plan.Sound reader) (hprovides : platform.Provides plan.deviceCapacityBytes)
    (htensors : plan.deviceObjects ≠ []) :
    ∃ staged, stage platform reader plan = .ok staged ∧ StagedFor platform reader plan staged := by
  have hsize : (2 : Nat) ^ 63 + 2 ^ 63 = U64.size := by simp [U64.size]
  have hio : directIoAlignment + directIoAlignment < 2 ^ 63 := by simp [directIoAlignment]
  -- the objects of the plan are distinct, so their sizes add up to no more than the file
  have hsizes : sizesOf reader (plan.deviceObjects.map (·.object)) +
      sizesOf reader (plan.hostObjects.map (·.object)) ≤ reader.file.length := by
    have h := sum_sizeAt_le hreader hplan.distinct fun i hi => by
      rcases List.mem_append.mp hi with hi | hi
      · obtain ⟨p, hp, rfl⟩ := List.mem_map.mp hi
        exact (placement_spec hreader hplan hp).1
      · obtain ⟨p, hp, rfl⟩ := List.mem_map.mp hi
        obtain ⟨resource, hentry⟩ := hplan.keeps p hp
        exact (List.getElem?_eq_some_iff.mp hentry).1
    simpa [MaterializationPlan.indices, sizesOf, Function.comp_def] using h
  obtain ⟨first, hfirst⟩ := List.exists_mem_of_ne_nil _ htensors
  obtain ⟨-, hfirstPos, -, -, -, hfirstEnd⟩ := placement_spec hreader hplan hfirst
  have hretain := retain_fold hreader (by omega)
    ⟨List.replicate plan.objectCount ⟨0, []⟩, 0, 0⟩ hplan.keeps (by simp [hplan.count])
    (by dsimp only; omega)
  obtain ⟨arena, hplaced⟩ := place_fold hreader (by omega) hprovides
    ⟨⟨platform.deviceBase, plan.deviceCapacityBytes, 0, 0⟩,
      retainAll reader plan.hostObjects (List.replicate plan.objectCount ⟨0, []⟩), [], 0⟩
    hplan.places (by simp [retainAll, length_foldl_modify, hplan.count]) rfl rfl hplan.laidOut
    (by dsimp only; omega)
  simp only [List.nil_append, Nat.zero_add] at hretain hplaced
  generalize hranges : plan.deviceObjects.map (rangeOf platform.deviceBase reader) = ranges
    at hplaced
  have hsorted := List.mergeSort_perm ranges fun a b => decide (a.sourceBegin ≤ b.sourceBegin)
  generalize hsort : ranges.mergeSort (fun a b => decide (a.sourceBegin ≤ b.sourceBegin)) = sorted
    at hsorted
  obtain ⟨hordered, htargets, hwithin⟩ := ordered_of_sound hreader hplan (hranges ▸ hsorted) (by
    rw [← hsort]
    have h := @List.pairwise_mergeSort CopyRange (fun a b => a.sourceBegin ≤ b.sourceBegin)
      (by simpa using fun a b c => Nat.le_trans) (by simpa using fun a b => Nat.le_total _ _) ranges
    simpa using h)
  obtain ⟨spans, hspansFold, hspans⟩ := spans_of_ordered hordered fun r hr => by
    have := hwithin r hr
    omega
  have hspanEnd : ∀ span ∈ spans, span.stop ≤ reader.file.length := by
    intro span hs
    obtain ⟨r, hr, he⟩ := hspans.ends span hs
    exact he ▸ hwithin r hr
  obtain ⟨bytes, hbytesFold, hdvd, -, hbytesPos⟩ := alignedBytes_of_spans 0 hspans.aligned
    hspans.pos hspans.apart (fun _ _ => Nat.zero_le _) (fun span hs => by
      have := roundUp_lt span.stop
      have := hspanEnd span hs
      exact (show _ ≤ reader.file.length + directIoAlignment by omega)) (Nat.zero_le _)
      (by omega)
  rw [Nat.zero_add] at hbytesFold
  have hrangesNe : ranges ≠ [] := by
    rw [← hranges]
    simpa using htensors
  have hspansNe : spans ≠ [] := by
    obtain ⟨r, hr⟩ := List.exists_mem_of_ne_nil _ hrangesNe
    obtain ⟨span, hs, -⟩ := hspans.holds r (hsorted.mem_iff.mpr hr)
    exact List.ne_nil_of_mem hs
  have hpos := hbytesPos hspansNe
  refine ⟨⟨arena, placeAll platform.deviceBase plan.deviceObjects
      (retainAll reader plan.hostObjects (List.replicate plan.objectCount ⟨0, []⟩)),
    sizesOf reader (plan.hostObjects.map (·.object)),
    sizesOf reader (plan.hostObjects.map (·.object)), sorted,
    sizesOf reader (plan.deviceObjects.map (·.object)), spans, min kSlotBytes bytes,
    min kMaximumSlotCount (1 + (bytes - 1) / min kSlotBytes bytes)⟩, ?_, ?_⟩
  · unfold stage
    dsimp only
    rw [ensure_bind_of (by have := hplan.capacity_lt; omega), hretain, ok_bind]
    dsimp only
    rw [hplaced, ok_bind]
    dsimp only
    rw [ensure_bind_of hrangesNe, hsort, ensure_bind_of hordered.pairwise.isChain, hspansFold,
      ok_bind, hbytesFold, ok_bind]
    rfl
  · have hslot : directIoAlignment ∣ min kSlotBytes bytes := by
      rcases Nat.le_total kSlotBytes bytes with h | h
      · rw [Nat.min_eq_left h]
        exact ⟨16384, rfl⟩
      · rwa [Nat.min_eq_right h]
    have hslotPos : 0 < kSlotBytes := by simp [kSlotBytes]
    have hcountPos : 0 < kMaximumSlotCount := by simp [kMaximumSlotCount]
    exact {
      ready := {
        ordered := hordered
        targets := htargets
        within := hwithin
        total := by
          rw [bytesBefore_perm hsorted, ← hranges]
          exact (bytesBefore_rangeOf hreader hplan).symm
        spans := hspans
        slot_dvd := hslot
        slot_pos := by dsimp only; omega
        slot_le := Nat.min_le_left _ _
        count_pos := Nat.lt_min.mpr ⟨hcountPos, Nat.add_pos_left Nat.one_pos _⟩
        fileBytes_le := by dsimp only; omega }
      ranges := hranges ▸ hsorted
      objects := by rw [hplan.count]
      total := rfl
      retained := rfl }

end Stage

end Ninfer.Artifact.Materializer
