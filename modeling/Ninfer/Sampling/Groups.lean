import Ninfer.Sampling.Blocks

/-!
# Selection in many blocks

A large vocabulary is selected from in two launches. The blocks of the first one each reduce a
tile of keys to its largest ones, those of the second one a group of such partial selections. The
block of the second launch that ends last merges the selections of all groups.

## Main definitions

* `Shape`, `kSamplerShape`: how the work is split
* `BlockSort`: the sort within a block, which the kernels take from a library
* `samplingMultiBlock`: the two launches

## Main results

* `samplingMultiBlock_eq`: the last block has the best candidates, for every split and for every
  order in which the blocks run
-/

namespace Ninfer.Sampling

/-- `kSamplerTileItems`. -/
def kSamplerTileItems : Nat := 256

/-- `kSamplerMaxColumns`. -/
def kSamplerMaxColumns : Nat := 16

/-- How the launches split a vocabulary. -/
structure Shape where
  block : Nat
  itemsPerThread : Nat
  groupBlock : Nat
  groupItemsPerThread : Nat
  partialsPerGroup : Nat
  partialsPerGroup_pos : 0 < partialsPerGroup
  /-- A tile holds what is selected from it. -/
  cap_le : kSamplerCandidateCap ≤ itemsPerThread * block
  /-- The group merge tile holds one group's candidates. -/
  group_fits : partialsPerGroup * kSamplerCandidateCap ≤ groupItemsPerThread * groupBlock

namespace Shape

variable (sh : Shape)

/-- `kSamplerPartialTileItems`. -/
def partialTileItems : Nat := sh.itemsPerThread * sh.block

/-- `kSamplerGroupTileItems`. -/
def groupTileItems : Nat := sh.groupItemsPerThread * sh.groupBlock

/-- `partial_blocks`. -/
def partialBlocks (vocab : Nat) : Nat := divUp vocab sh.partialTileItems

/-- `sampler_group_count`. -/
def groupCount (partialBlocks : Nat) : Nat := divUp partialBlocks sh.partialsPerGroup

/-- `group_partials`. -/
def groupPartials (partialBlocks group : Nat) : Nat :=
  min (partialBlocks - group * sh.partialsPerGroup) sh.partialsPerGroup

/-- `sampler_multiblock_ok`. -/
def multiblockOk (vocab cols : Nat) : Bool :=
  let groups := sh.groupCount (sh.partialBlocks vocab)
  decide (kSamplerTileItems < vocab ∧ 0 < cols ∧ cols ≤ kSamplerMaxColumns ∧
    0 < sh.partialBlocks vocab ∧ 0 < groups ∧ groups * kSamplerCandidateCap ≤ sh.groupTileItems)

theorem partialTileItems_pos : 0 < sh.partialTileItems :=
  lt_of_lt_of_le (by decide) sh.cap_le

end Shape

/-- The shape the kernels are compiled with. -/
def kSamplerShape : Shape where
  block := 256
  itemsPerThread := 2
  groupBlock := 256
  groupItemsPerThread := 2
  partialsPerGroup := 25
  partialsPerGroup_pos := by decide
  cap_le := by decide
  group_fits := by decide

/-- A sort of the keys of a block with `SamplingKeyGreater`. -/
structure BlockSort where
  sort : List (BitVec 64) → List (BitVec 64)
  perm : ∀ keys, (sort keys).Perm keys
  sorted : ∀ keys, ((sort keys).map BitVec.toNat).SortedGE

/-- A sort by insertion is one. -/
def BlockSort.insertion : BlockSort where
  sort keys := keys.insertionSort fun a b => b.toNat ≤ a.toNat
  perm keys := List.perm_insertionSort _ keys
  sorted keys := by
    rw [List.map_insertionSort (fun a b : BitVec 64 => b.toNat ≤ a.toNat) (· ≥ ·) _ _
      fun _ _ _ _ => Iff.rfl]
    exact List.sortedGE_insertionSort

/-- `partial_keys` of a column: the ranks of a partial or of a group. -/
abbrev Workspace := Nat → Nat → BitVec 64

/-! ## The launches -/

section Launches

variable (sh : Shape) (cub : BlockSort) (col : Column) (cap : Nat)

/-- The keys of a block, thread by thread. -/
def blockKeys (block items : Nat) (key : Nat → BitVec 64) : List (BitVec 64) :=
  (List.range block).flatMap fun tid => (List.range items).map fun item => key (item * block + tid)

/-- The key that is loaded for the place `p` of a tile. -/
def partialKey (part p : Nat) : BitVec 64 :=
  let v := part * sh.partialTileItems + p
  if v < col.vocab then samplingSortKey (col.logit v) v else 0

/-- The key that is loaded for the place `p` of a merge. -/
def mergeKey (ws : Workspace) (first count p : Nat) : BitVec 64 :=
  if p < count * cap then ws (first + p / cap) (p - p / cap * cap) else 0

/-- The threads with the ranks below `cap` store their keys. -/
def storeKeys (ws : Workspace) (slot : Nat) (keys : List (BitVec 64)) : Workspace :=
  fun s rank => if s = slot ∧ rank < cap then keys.getD rank (ws s rank) else ws s rank

/-- `sampling_partial_topk_kernel`, and the same kernel of a speculative round, for one block. -/
def partialBlock (ws : Workspace) (part : Nat) : Workspace :=
  storeKeys cap ws part
    (cub.sort (blockKeys sh.block sh.itemsPerThread (partialKey sh col part)))

/-- The second launch: `group_done`, and the candidates once they are selected. -/
structure Grouping where
  workspace : Workspace
  groupDone : Nat := 0
  candidates : Option (List (BitVec 32 × Nat)) := none

/-- The selection of `sampling_group_finalize_sample_kernel`, and of the kernel of a speculative
round, for one block. -/
def groupBlock (st : Grouping) (group : Nat) : Grouping :=
  let partials := sh.partialBlocks col.vocab
  let groups := sh.groupCount partials
  let ws := storeKeys cap st.workspace (partials + group)
    (cub.sort (blockKeys sh.groupBlock sh.groupItemsPerThread
      (mergeKey cap st.workspace (group * sh.partialsPerGroup)
        (sh.groupPartials partials group))))
  if st.groupDone + 1 = groups then
    let keys := cub.sort (blockKeys sh.groupBlock sh.groupItemsPerThread
      (mergeKey cap ws partials groups))
    { workspace := ws
      groupDone := 0
      candidates := some ((keys.take cap).map fun key =>
        (samplingKeyFloat key, samplingKeyIndex key)) }
  else { st with workspace := ws, groupDone := st.groupDone + 1 }

/-- The two launches, with the orders in which their blocks run, on a workspace with any
contents. -/
def samplingMultiBlock (partials groups : List Nat) (ws : Workspace) :
    Option (List (BitVec 32 × Nat)) :=
  (groups.foldl (groupBlock sh cub col cap)
    { workspace := partials.foldl (partialBlock sh cub col cap) ws }).candidates

end Launches

/-! ## Slots -/

section Slots

variable {sh : Shape} {cub : BlockSort} {col : Column} {cap slot : Nat} {ws : Workspace}

/-- The keys that are kept in a slot. -/
def slotKeys (cap : Nat) (ws : Workspace) (slot : Nat) : List Nat :=
  (List.range cap).map fun rank => (ws slot rank).toNat

/-- The first keys of a block are kept, and they are the largest ones. -/
theorem slotKeys_storeKeys {keys : List (BitVec 64)} (hlen : cap ≤ keys.length) (s : Nat) :
    slotKeys cap (storeKeys cap ws slot (cub.sort keys)) s =
      if s = slot then topK cap (keys.map BitVec.toNat) else slotKeys cap ws s := by
  have hlength := (cub.perm keys).length_eq
  split_ifs with h
  · rw [← take_eq_topK (cub.sorted keys) ((cub.perm keys).map _)]
    unfold slotKeys
    refine List.ext_getElem (by simp [hlength, hlen]) fun i hi hi' => ?_
    have hicap : i < cap := by simpa using hi
    rw [List.getElem_map, List.getElem_range, List.getElem_take, List.getElem_map, storeKeys,
      if_pos ⟨h, hicap⟩, List.getD_eq_getElem _ _ (by omega)]
  · refine List.map_congr_left fun rank _ => ?_
    rw [storeKeys, if_neg fun hs => h hs.1]

theorem length_blockKeys (block items : Nat) (key : Nat → BitVec 64) :
    (blockKeys block items key).length = items * block := by
  have h := (striped_perm block items).length_eq
  rw [List.length_range] at h
  rw [← h, blockKeys, List.length_flatMap, List.length_flatMap]
  simp

/-- Over its threads, a block has every place once. -/
theorem blockKeys_perm (block items : Nat) (key : Nat → BitVec 64) :
    ((blockKeys block items key).map BitVec.toNat).Perm
      ((List.range (items * block)).map fun p => (key p).toNat) := by
  have h := (striped_perm block items).map fun p => (key p).toNat
  rw [List.map_flatMap] at h
  rw [blockKeys, List.map_flatMap]
  simpa only [List.map_map, Function.comp_def] using h

/-- A block that merges slots has their keys, and no others. -/
theorem mergeKeys_padded {block items first count : Nat} (hfits : count * cap ≤ items * block) :
    Padded 0 ((blockKeys block items (mergeKey cap ws first count)).map BitVec.toNat)
      ((List.range count).flatMap fun i => slotKeys cap ws (first + i)) := by
  refine (Padded.of_perm (blockKeys_perm _ _ _)).trans ?_
  obtain ⟨n, hn⟩ := Nat.exists_eq_add_of_le hfits
  have hslots : (List.range (count * cap)).map (fun p => (mergeKey cap ws first count p).toNat) =
      (List.range count).flatMap fun i => slotKeys cap ws (first + i) := by
    unfold slotKeys
    rw [← map_range_mul count cap fun i rank => (ws (first + i) rank).toNat]
    refine List.map_congr_left fun p hp => ?_
    have hmod : p - p / cap * cap = p % cap := by
      have hsplit := Nat.div_add_mod p cap
      have hcomm := Nat.mul_comm cap (p / cap)
      omega
    rw [mergeKey, if_pos (List.mem_range.mp hp), hmod]
  have hrest : (List.range n).map ((fun p => (mergeKey cap ws first count p).toNat) ∘
      (count * cap + ·)) = List.replicate n 0 := by
    refine List.eq_replicate_iff.mpr ⟨by simp, fun k hk => ?_⟩
    obtain ⟨p, -, rfl⟩ := List.mem_map.mp hk
    rw [Function.comp_apply, mergeKey, if_neg (by omega)]
    rfl
  rw [hn, List.range_add, List.map_append, hslots, List.map_map, hrest]
  exact padded_append_replicate 0 _ _

end Slots

/-! ## Partial selections -/

section Partials

variable {sh : Shape} {cub : BlockSort} {col : Column} {cap : Nat}

/-- The keys of a tile. -/
def tileKeys (sh : Shape) (col : Column) (part : Nat) : List Nat :=
  (List.range sh.partialTileItems).map fun p => (partialKey sh col part p).toNat

theorem slotKeys_partials (hcap : cap ≤ kSamplerCandidateCap) (partials : List Nat)
    (ws : Workspace) (part : Nat) :
    slotKeys cap (partials.foldl (partialBlock sh cub col cap) ws) part =
      if part ∈ partials then topK cap (tileKeys sh col part) else slotKeys cap ws part := by
  induction partials generalizing ws with
  | nil => rfl
  | cons p partials ih =>
    have hlen : cap ≤ (blockKeys sh.block sh.itemsPerThread (partialKey sh col p)).length := by
      rw [length_blockKeys]
      exact hcap.trans sh.cap_le
    rw [List.foldl_cons, ih, partialBlock, slotKeys_storeKeys hlen, topK_perm (blockKeys_perm _ _ _)]
    by_cases hmem : part ∈ partials
    · rw [if_pos hmem, if_pos (List.mem_cons_of_mem _ hmem)]
    · by_cases heq : part = p
      · rw [if_neg hmem, if_pos heq, heq, if_pos List.mem_cons_self]
        rfl
      · rw [if_neg hmem, if_neg heq, if_neg (by simp [heq, hmem])]

/-- The tiles have the keys of the vocabulary, and no others. -/
theorem tileKeys_padded (sh : Shape) (col : Column) :
    Padded 0 ((List.range (sh.partialBlocks col.vocab)).flatMap (tileKeys sh col)) col.keys := by
  have hle : col.vocab ≤ sh.partialBlocks col.vocab * sh.partialTileItems :=
    le_divUp_mul _ sh.partialTileItems_pos
  have hflat := map_range_mul (sh.partialBlocks col.vocab) sh.partialTileItems
    fun part p => (partialKey sh col part p).toNat
  unfold tileKeys
  rw [← hflat]
  obtain ⟨n, hn⟩ := Nat.exists_eq_add_of_le hle
  have hkey : ∀ v, (partialKey sh col (v / sh.partialTileItems) (v % sh.partialTileItems)).toNat =
      if v < col.vocab then col.key v else 0 := by
    intro v
    have hv : v / sh.partialTileItems * sh.partialTileItems + v % sh.partialTileItems = v := by
      rw [Nat.mul_comm]
      exact Nat.div_add_mod v _
    unfold partialKey
    dsimp only
    rw [hv]
    split_ifs <;> rfl
  have hrest : (List.range n).map ((fun v => if v < col.vocab then col.key v else 0) ∘
      (col.vocab + ·)) = List.replicate n 0 := by
    refine List.eq_replicate_iff.mpr ⟨by simp, fun k hk => ?_⟩
    obtain ⟨p, -, rfl⟩ := List.mem_map.mp hk
    rw [Function.comp_apply, if_neg (by omega)]
  simp only [hkey]
  rw [hn, List.range_add, List.map_append, List.map_map, hrest,
    List.map_congr_left fun v hv => if_pos (List.mem_range.mp hv)]
  exact padded_append_replicate 0 _ _

end Partials

/-! ## Groups -/

section Groups

variable {sh : Shape} {cub : BlockSort} {col : Column} {cap : Nat}

/-- What is selected from a group of partial selections. -/
def groupKeys (sh : Shape) (col : Column) (cap group : Nat) : List Nat :=
  let partials := sh.partialBlocks col.vocab
  topK cap (((List.range (sh.groupPartials partials group)).flatMap fun i =>
    topK cap (tileKeys sh col (group * sh.partialsPerGroup + i))) ++ List.replicate cap 0)

/-- A merge selects from its slots. -/
theorem topK_mergeKeys {ws : Workspace} {block items first count : Nat}
    (hfits : count * cap ≤ items * block) (hcap : cap ≤ items * block) :
    topK cap ((blockKeys block items (mergeKey cap ws first count)).map BitVec.toNat) =
      topK cap (((List.range count).flatMap fun i => slotKeys cap ws (first + i)) ++
        List.replicate cap 0) := by
  have hzero : ∀ {xs : List Nat}, ∀ x ∈ xs, 0 ≤ x := fun x _ => Nat.zero_le x
  refine Padded.topK_eq (b := 0) ?_ hzero hzero ?_ (by simp)
  · exact (mergeKeys_padded hfits).trans (padded_append_replicate 0 _ _).symm
  · rw [List.length_map, length_blockKeys]
    exact hcap

/-- The selections of all groups have, but for places left, the selection from the vocabulary. -/
theorem topK_groupKeys (sh : Shape) (hcap : cap ≤ col.vocab) :
    topK cap (((List.range (sh.groupCount (sh.partialBlocks col.vocab))).flatMap
      (groupKeys sh col cap)) ++ List.replicate cap 0) = topK cap col.keys := by
  let partials := sh.partialBlocks col.vocab
  let groups := sh.groupCount partials
  have hzero : ∀ {xs : List Nat}, ∀ x ∈ xs, 0 ≤ x := fun x _ => Nat.zero_le x
  have hrange : ((List.range groups).flatMap fun g =>
      (List.range (sh.groupPartials partials g)).map fun i => g * sh.partialsPerGroup + i) =
        List.range partials := by
    have hle : partials ≤ groups * sh.partialsPerGroup := le_divUp_mul _ sh.partialsPerGroup_pos
    have hflat := flatMap_range_groups partials sh.partialsPerGroup groups
    rw [min_eq_left hle] at hflat
    exact hflat
  let parts : List (List Nat) := (List.range groups).map fun g =>
    ((List.range (sh.groupPartials partials g)).flatMap fun i =>
      topK cap (tileKeys sh col (g * sh.partialsPerGroup + i))) ++ List.replicate cap 0
  have hparts : (List.range groups).flatMap (groupKeys sh col cap) =
      (parts.map (topK cap)).flatten := by
    rw [List.flatMap_def, List.map_map]
    rfl
  have htiles : Padded 0 parts.flatten
      (((List.range partials).map (tileKeys sh col)).map (topK cap)).flatten := by
    have hstrip : Padded 0 parts.flatten ((List.range groups).map fun g =>
        ((List.range (sh.groupPartials partials g)).map fun i =>
          g * sh.partialsPerGroup + i).flatMap fun part => topK cap (tileKeys sh col part)).flatten := by
      refine Padded.flatten ?_
      rw [List.forall₂_map_left_iff, List.forall₂_map_right_iff]
      refine List.forall₂_same.mpr fun g _ => ?_
      rw [List.flatMap_map]
      exact padded_append_replicate 0 _ _
    refine hstrip.trans (Padded.of_perm (List.Perm.of_eq ?_))
    rw [← List.flatMap_def, ← List.flatMap_assoc, hrange, List.map_map, List.flatMap_def]
    rfl
  calc topK cap (((List.range groups).flatMap (groupKeys sh col cap)) ++ List.replicate cap 0)
      = topK cap (parts.flatten ++ List.replicate cap 0) := by
        rw [hparts, ← topK_topK_append, topK_flatten, topK_topK_append]
    _ = topK cap ((((List.range partials).map (tileKeys sh col)).map (topK cap)).flatten ++
          List.replicate cap 0) :=
        Padded.topK_eq (b := 0) (htiles.append (.refl 0 _)) hzero hzero (by simp) (by simp)
    _ = topK cap (((List.range partials).map (tileKeys sh col)).flatten ++
          List.replicate cap 0) := by
        rw [← topK_topK_append, topK_flatten, topK_topK_append]
    _ = topK cap col.keys := by
        refine Padded.topK_eq (b := 0) ?_ hzero hzero (by simp)
          (by rw [Column.length_keys]; exact hcap)
        rw [← List.flatMap_def]
        exact (padded_append_replicate 0 _ _).trans (tileKeys_padded sh col)

/-- What the second launch keeps while `seen` are the groups that have ended. -/
structure Grouped (sh : Shape) (col : Column) (cap : Nat) (seen : List Nat) (st : Grouping) :
    Prop where
  partials : ∀ part < sh.partialBlocks col.vocab,
    slotKeys cap st.workspace part = topK cap (tileKeys sh col part)
  groups : ∀ g ∈ seen,
    slotKeys cap st.workspace (sh.partialBlocks col.vocab + g) = groupKeys sh col cap g
  groupDone : st.groupDone = seen.length

variable {seen : List Nat} {st : Grouping} {g : Nat}

theorem groupPartials_le (sh : Shape) (partials group : Nat) :
    sh.groupPartials partials group ≤ sh.partialsPerGroup :=
  min_le_right _ _

variable (cub g) in
/-- A group stores its selection and leaves the other slots as they are. -/
theorem Grouped.slotKeys_groupBlock (h : Grouped sh col cap seen st)
    (hcap : cap ≤ kSamplerCandidateCap) (s : Nat) :
    slotKeys cap (groupBlock sh cub col cap st g).workspace s =
      if s = sh.partialBlocks col.vocab + g then groupKeys sh col cap g
      else slotKeys cap st.workspace s := by
  have hfits : sh.groupPartials (sh.partialBlocks col.vocab) g * cap ≤
      sh.groupItemsPerThread * sh.groupBlock :=
    (Nat.mul_le_mul (groupPartials_le _ _ _) hcap).trans sh.group_fits
  have htile : cap ≤ sh.groupItemsPerThread * sh.groupBlock :=
    (hcap.trans (Nat.le_mul_of_pos_left _ sh.partialsPerGroup_pos)).trans sh.group_fits
  have hws : (groupBlock sh cub col cap st g).workspace =
      storeKeys cap st.workspace (sh.partialBlocks col.vocab + g)
        (cub.sort (blockKeys sh.groupBlock sh.groupItemsPerThread
          (mergeKey cap st.workspace (g * sh.partialsPerGroup)
            (sh.groupPartials (sh.partialBlocks col.vocab) g)))) := by
    unfold groupBlock
    dsimp only
    split_ifs <;> rfl
  rw [hws, slotKeys_storeKeys (by rw [length_blockKeys]; exact htile), topK_mergeKeys hfits htile]
  refine if_congr Iff.rfl ?_ rfl
  unfold groupKeys
  dsimp only
  congr 2
  -- the slots of the group are those of partial selections
  rw [List.flatMap_def, List.flatMap_def]
  congr 1
  refine List.map_congr_left fun i hi => h.partials _ ?_
  have hi := List.mem_range.mp hi
  unfold Shape.groupPartials at hi
  omega

theorem Grouped.step (h : Grouped sh col cap seen st) (hcap : cap ≤ kSamplerCandidateCap)
    (hmore : seen.length + 1 ≠ sh.groupCount (sh.partialBlocks col.vocab)) :
    Grouped sh col cap (g :: seen) (groupBlock sh cub col cap st g) where
  partials part hpart := by
    rw [h.slotKeys_groupBlock cub g hcap, if_neg (by omega)]
    exact h.partials part hpart
  groups g' hg' := by
    rw [h.slotKeys_groupBlock cub g hcap]
    rcases List.mem_cons.mp hg' with rfl | hseen
    · exact if_pos rfl
    · split_ifs with heq
      · rw [Nat.add_left_cancel heq]
      · exact h.groups g' hseen
  groupDone := by
    unfold groupBlock
    dsimp only
    rw [h.groupDone, if_neg hmore]
    rfl

/-- The keys of the selected tokens are read as these tokens. -/
theorem read_keys {keys : List (BitVec 64)}
    (hkeys : keys.map BitVec.toNat = topK cap col.keys) :
    keys.map (fun key => (samplingKeyFloat key, samplingKeyIndex key)) =
      (col.best cap).map fun v => ((col.logit v).canonical.bits, v) := by
  have hsame : keys = (col.best cap).map fun v => samplingSortKey (col.logit v) v := by
    refine List.map_injective_iff.mpr (fun a b => BitVec.eq_of_toNat_eq) ?_
    rw [hkeys, ← Column.keys_best, List.map_map]
    rfl
  rw [hsame, List.map_map]
  refine List.map_congr_left fun v hv => ?_
  have hidx := Column.lt_intMax (Column.best_lt hv)
  rw [Function.comp_apply, samplingKeyFloat_key _ hidx, samplingKeyIndex_key _ hidx]

/-- The last group selects from the selections of all of them. -/
theorem Grouped.last (h : Grouped sh col cap seen st) (hcap : cap ≤ kSamplerCandidateCap)
    (hvocab : cap ≤ col.vocab)
    (hlast : seen.length + 1 = sh.groupCount (sh.partialBlocks col.vocab))
    (hall : ∀ g' < sh.groupCount (sh.partialBlocks col.vocab), g' ∈ g :: seen)
    (hfits : sh.groupCount (sh.partialBlocks col.vocab) * kSamplerCandidateCap ≤
      sh.groupTileItems) :
    (groupBlock sh cub col cap st g).candidates =
      some ((col.best cap).map fun v => ((col.logit v).canonical.bits, v)) := by
  have hslots := h.slotKeys_groupBlock cub g hcap
  have htile : cap ≤ sh.groupItemsPerThread * sh.groupBlock :=
    (hcap.trans (Nat.le_mul_of_pos_left _ sh.partialsPerGroup_pos)).trans sh.group_fits
  have hfits' : sh.groupCount (sh.partialBlocks col.vocab) * cap ≤
      sh.groupItemsPerThread * sh.groupBlock := (Nat.mul_le_mul_left _ hcap).trans hfits
  unfold groupBlock at hslots ⊢
  dsimp only at hslots ⊢
  rw [h.groupDone, if_pos hlast] at hslots ⊢
  dsimp only at hslots ⊢
  refine congrArg some (read_keys ?_)
  rw [List.map_take, take_eq_topK (cub.sorted _) ((cub.perm _).map _), topK_mergeKeys hfits' htile,
    ← topK_groupKeys sh hvocab]
  congr 2
  rw [List.flatMap_def, List.flatMap_def]
  congr 1
  refine List.map_congr_left fun g' hg' => ?_
  rw [hslots]
  rcases List.mem_cons.mp (hall g' (List.mem_range.mp hg')) with rfl | hseen
  · exact if_pos rfl
  · split_ifs with heq
    · rw [Nat.add_left_cancel heq]
    · exact h.groups g' hseen

variable (cub col) in
/-- **The multi-block route** selects the best candidates, for every split of the vocabulary and
for every order of the blocks of its launches. -/
theorem samplingMultiBlock_eq {cols : Nat} (hok : sh.multiblockOk col.vocab cols = true)
    (hcap : cap ≤ kSamplerCandidateCap) (hvocab : cap ≤ col.vocab) {partials groups : List Nat}
    (hpartials : partials.Perm (List.range (sh.partialBlocks col.vocab)))
    (hgroups : groups.Perm (List.range (sh.groupCount (sh.partialBlocks col.vocab))))
    (ws : Workspace) :
    samplingMultiBlock sh cub col cap partials groups ws =
      some ((col.best cap).map fun v => ((col.logit v).canonical.bits, v)) := by
  obtain ⟨-, -, -, -, hpos, hfits⟩ := of_decide_eq_true hok
  have hrun : ∀ (rest seen : List Nat) (st : Grouping), Grouped sh col cap seen st →
      rest ≠ [] → (seen ++ rest).Perm (List.range (sh.groupCount (sh.partialBlocks col.vocab))) →
      (rest.foldl (groupBlock sh cub col cap) st).candidates =
        some ((col.best cap).map fun v => ((col.logit v).canonical.bits, v)) := by
    intro rest
    induction rest with
    | nil => exact fun _ _ _ hne => absurd rfl hne
    | cons g rest ih =>
      intro seen st h _ hperm
      have hlen := hperm.length_eq
      rw [List.length_append, List.length_cons, List.length_range] at hlen
      rw [List.foldl_cons]
      cases rest with
      | nil =>
        refine h.last hcap hvocab hlen (fun g' hg' => ?_) hfits
        have hmem := hperm.mem_iff.mpr (List.mem_range.mpr hg')
        simpa [or_comm] using hmem
      | cons g' rest =>
        have hmore : seen.length + 1 ≠ sh.groupCount (sh.partialBlocks col.vocab) := by
          rw [List.length_cons] at hlen
          omega
        exact ih (g :: seen) _ (h.step hcap hmore) (by simp)
          (List.perm_middle.symm.trans hperm)
  have hne : groups ≠ [] := fun h => by
    have := hgroups.length_eq
    rw [h, List.length_range, List.length_nil] at this
    omega
  refine hrun groups [] _ ⟨fun part hpart => ?_, nofun, rfl⟩ hne hgroups
  rw [slotKeys_partials hcap, if_pos (hpartials.mem_iff.mpr (List.mem_range.mpr hpart))]

end Groups

end Ninfer.Sampling
