import Ninfer.Qwen.Identity

/-!
# Vision control and the vision session of a prefill

`impl/vision/control.cpp` and `runtime/vision_context_impl.h`: from the media items of a prompt the
runtime builds, once per request, a control record for each item with the tokens its embeddings are
scattered to. During the prefill a session encodes the items one after the other, and shortens a
chunk so that it needs the embeddings of at most one item.

The patch coordinates and interpolation tables of a control record are not modelled: no function
below reads them. Prompts fit `int32`, so the narrowing checks of the source never fire.

## Main definitions

* `VisionItemControl`, `buildVisionControl`: the control records and the checks on the items
* `VisionUseSpan`, `VisionPrefillPlan`: which tokens need which item
* `VisionPrefillSession`, `prepareChunk`: the session

## Main results

* `buildVisionControl_spec`: items that pass are well placed, and their tokens have their type
* `prepareChunk_spec`: with separated uses a chunk is never empty and needs one item only
-/

namespace Ninfer.Qwen

/-- `VisionItemControl`. -/
structure VisionItemControl where
  modality : PromptModality
  grid : VisionGrid
  patchBegin : Nat
  patchCount : Nat
  mergedCount : Nat
  segmentCount : Nat
  scatterIndices : List Nat
  deriving DecidableEq, Repr

/-- The span loop of `build_vision_control`: the scatter indices of one item. -/
def controlSpans (types : List Nat) (expected : Nat) (nextSpanBegin : Nat) :
    List TokenSpan → Except Exception (List Nat)
  | [] => .ok []
  | span :: spans =>
    if span.count = 0 ∨ types.length < span.start ∨ types.length - span.start < span.count then
      .error (.invalidArgument "vision control token span exceeds prompt")
    else if span.start < nextSpanBegin then
      .error (.invalidArgument "vision control token spans are not ordered")
    else if ((types.drop span.start).take span.count).all (· == expected) then
      (controlSpans types expected span.stop spans).map (List.range' span.start span.count ++ ·)
    else .error (.invalidArgument "vision control token span modality mismatch")

/-- The control record of an item whose spans have been checked. -/
def VisionItem.control (item : VisionItem) (scatterIndices : List Nat) : VisionItemControl where
  modality := item.modality
  grid := item.grid
  patchBegin := item.patchBegin
  patchCount := item.patchCount
  mergedCount := scatterIndices.length
  segmentCount := item.grid.temporal
  scatterIndices := scatterIndices

/-- The runs of an item in the prompt: one for each frame of a video. -/
def VisionItem.expectedSpans (item : VisionItem) : Nat :=
  if item.modality = .video then item.grid.temporal else 1

/-- The checks of `build_vision_control` on one item. -/
def controlItem (types : List Nat) (patchCursor nextSpanBegin : Nat) (item : VisionItem) :
    Except Exception VisionItemControl :=
  let t := item.grid.temporal
  let h := item.grid.height
  let w := item.grid.width
  if t = 0 ∨ h = 0 ∨ w = 0 ∨ h % kMerge ≠ 0 ∨ w % kMerge ≠ 0 then
    .error (.invalidArgument ("vision control grid must be positive and merge-aligned: " ++
      toString t ++ "x" ++ toString h ++ "x" ++ toString w))
  else if item.patchBegin ≠ patchCursor ∨ item.patchCount ≠ t * h * w then
    .error (.invalidArgument "vision control patch ranges are not canonical")
  else if item.tokenSpans.length ≠ item.expectedSpans then
    .error (.invalidArgument "vision control token spans do not match modality grid")
  else
    match controlSpans types item.modality.code nextSpanBegin item.tokenSpans with
    | .error e => .error e
    | .ok scatterIndices =>
      if scatterIndices.length ≠ t * h * w / (kMerge * kMerge) then
        .error (.invalidArgument "vision control token spans do not cover merged patches")
      else .ok (item.control scatterIndices)

/-- The token after those of the previous item. -/
def nextSpanBegin (tokenCursor : Nat) (previous : Option VisionItemControl) : Nat :=
  if tokenCursor = 0 then 0
  else ((previous.bind (·.scatterIndices.getLast?)).map (· + 1)).getD 0

/-- The item loop of `build_vision_control`, with the cursors it ends with. -/
def controlItems (types : List Nat) (patchCursor tokenCursor : Nat)
    (previous : Option VisionItemControl) :
    List VisionItem → Except Exception (List VisionItemControl × Nat × Nat)
  | [] => .ok ([], patchCursor, tokenCursor)
  | item :: items =>
    match controlItem types patchCursor (nextSpanBegin tokenCursor previous) item with
    | .error e => .error e
    | .ok control =>
      match controlItems types (patchCursor + control.patchCount)
          (tokenCursor + control.mergedCount) (some control) items with
      | .error e => .error e
      | .ok (controls, cursors) => .ok (control :: controls, cursors)

/-- `build_vision_control`. -/
def buildVisionControl (prompt : PreparedPromptData) : Except Exception (List VisionItemControl) :=
  if prompt.size ≠ prompt.tokenTypes.length then
    .error (.invalidArgument "vision control token types must cover the prompt")
  else
    match controlItems prompt.tokenTypes 0 0 none prompt.visionItems with
    | .error e => .error e
    | .ok (controls, patchCursor, tokenCursor) =>
      if patchCursor ≠ prompt.rawPatches ∨ tokenCursor ≠ prompt.visionTokens then
        .error (.invalidArgument "vision control metadata does not cover prepared prompt")
      else .ok controls

/-! ## What the checks establish -/

theorem controlSpans_spec {types : List Nat} {expected : Nat} :
    ∀ {spans : List TokenSpan} {next : Nat} {scatter : List Nat},
      controlSpans types expected next spans = .ok scatter →
      scatter = spans.flatMap (fun span => List.range' span.start span.count) ∧
        (∀ span ∈ spans, 0 < span.count ∧ span.stop ≤ types.length ∧ next ≤ span.start) ∧
        spans.Pairwise (fun a b => a.stop ≤ b.start) ∧
        ∀ i ∈ scatter, types.getD i 0 = expected
  | [], next, scatter, h => by
    cases h
    simp
  | span :: spans, next, scatter, h => by
    unfold controlSpans at h
    split_ifs at h with h₁ h₂ h₃
    cases hrest : controlSpans types expected span.stop spans with
    | error e =>
      rw [hrest] at h
      cases h
    | ok rest =>
      rw [hrest] at h
      cases h
      obtain ⟨rfl, hspans, hpair, htypes⟩ := controlSpans_spec hrest
      refine ⟨by simp, ?_, ?_, ?_⟩
      · intro s hs
        rcases List.mem_cons.mp hs with rfl | hs
        · unfold TokenSpan.stop
          omega
        · have := hspans s hs
          unfold TokenSpan.stop at this ⊢
          omega
      · refine List.pairwise_cons.mpr ⟨fun s hs => (hspans s hs).2.2, hpair⟩
      · intro i hi
        rcases List.mem_append.mp hi with hi | hi
        · rw [List.mem_range'_1] at hi
          have hlt : i < types.length := by omega
          have hmem : types[i] ∈ (types.drop span.start).take span.count := by
            rw [List.mem_take_iff_getElem]
            refine ⟨i - span.start, by simp; omega, ?_⟩
            rw [List.getElem_drop]
            congr 1
            omega
          have := List.all_eq_true.mp h₃ _ hmem
          rw [List.getD_eq_getElem _ _ hlt]
          exact beq_iff_eq.mp this
        · exact htypes i hi

theorem controlItem_spec {types : List Nat} {patchCursor next : Nat} {item : VisionItem}
    {control : VisionItemControl} (h : controlItem types patchCursor next item = .ok control) :
    control = item.control item.scatterIndices ∧ item.tokenSpans ≠ [] ∧
      (∀ span ∈ item.tokenSpans, 0 < span.count ∧ span.stop ≤ types.length ∧ next ≤ span.start) ∧
      item.tokenSpans.Pairwise (fun a b => a.stop ≤ b.start) ∧
      ∀ i ∈ item.scatterIndices, types.getD i 0 = item.modality.code := by
  unfold controlItem at h
  dsimp only at h
  split_ifs at h with h₁ h₂ h₃
  split at h
  · cases h
  next scatter hs =>
    split_ifs at h with h₄
    cases h
    obtain ⟨rfl, hspans, hpair, htypes⟩ := controlSpans_spec hs
    refine ⟨rfl, fun hnil => h₃ ?_, hspans, hpair, htypes⟩
    rw [hnil, List.length_nil, VisionItem.expectedSpans]
    split_ifs <;> omega

/-- The last token of an item is the one before the end of its last span. -/
theorem scatterIndices_getLast {item : VisionItem} {last : TokenSpan}
    (hl : item.tokenSpans.getLast? = some last) (hc : 0 < last.count) :
    item.scatterIndices.getLast? = some (last.stop - 1) := by
  obtain ⟨spans, hspans⟩ := List.getLast?_eq_some_iff.mp hl
  have hne : List.range' last.start last.count ≠ [] := by
    simp only [ne_eq, List.range'_eq_nil_iff]
    omega
  rw [VisionItem.scatterIndices, hspans, List.flatMap_append, List.flatMap_singleton,
    List.getLast?_append_of_ne_nil _ hne, List.getLast?_range', if_neg (by omega), TokenSpan.stop]

/-- The token after those of an item. -/
theorem nextSpanBegin_eq {item : VisionItem} {tokenCursor : Nat} (ht : tokenCursor ≠ 0)
    {last : TokenSpan} (hl : item.tokenSpans.getLast? = some last) (hc : 0 < last.count) :
    nextSpanBegin tokenCursor (some (item.control item.scatterIndices)) = last.stop := by
  unfold nextSpanBegin
  rw [if_neg ht]
  simp only [Option.bind_some, VisionItem.control, scatterIndices_getLast hl hc, Option.map_some,
    Option.getD_some]
  unfold TokenSpan.stop
  omega

/-- The spans of later items start after `next`. -/
theorem controlItems_spec {types : List Nat} : ∀ {items : List VisionItem}
    {patchCursor tokenCursor : Nat} {previous : Option VisionItemControl}
    {controls : List VisionItemControl} {cursors : Nat × Nat},
    controlItems types patchCursor tokenCursor previous items = .ok (controls, cursors) →
    controls = items.map (fun item => item.control item.scatterIndices) ∧
      WellPlaced items types.length ∧
      (∀ item ∈ items, ∀ span ∈ item.tokenSpans,
        nextSpanBegin tokenCursor previous ≤ span.start) ∧
      ∀ item ∈ items, ∀ i ∈ item.scatterIndices, types.getD i 0 = item.modality.code
  | [], _, _, _, _, _, h => by
    cases h
    exact ⟨rfl, wellPlaced_nil _, by simp, by simp⟩
  | item :: items, patchCursor, tokenCursor, previous, controls, cursors, h => by
    unfold controlItems at h
    split at h
    · cases h
    next control hitem =>
      obtain ⟨rfl, hne, hspans, hpair, htypes⟩ := controlItem_spec hitem
      split at h
      · cases h
      next controls' cursors' hrest =>
        cases h
        obtain ⟨rfl, hplaced, hnext, htypes'⟩ := controlItems_spec hrest
        obtain ⟨last, hlast⟩ : ∃ last, item.tokenSpans.getLast? = some last :=
          ⟨_, List.getLast?_eq_some_getLast hne⟩
        have hpos := (hspans last (List.mem_of_getLast? hlast)).1
        have hcursor : tokenCursor + (item.control item.scatterIndices).mergedCount ≠ 0 := by
          have := scatterIndices_getLast hlast hpos
          have hmem := List.mem_of_getLast? this
          have := List.length_pos_of_mem hmem
          simp only [VisionItem.control]
          omega
        rw [nextSpanBegin_eq hcursor hlast hpos] at hnext
        -- Within an item no span ends after the last one.
        have hend : ∀ span ∈ item.tokenSpans, span.stop ≤ last.stop := by
          intro span hs
          obtain ⟨spans, hsplit⟩ := List.getLast?_eq_some_iff.mp hlast
          rw [hsplit] at hs hpair
          rcases List.mem_append.mp hs with hs | hs
          · have := (List.pairwise_append.mp hpair).2.2 span hs last (List.mem_singleton.mpr rfl)
            unfold TokenSpan.stop at *
            omega
          · rw [List.mem_singleton.mp hs]
        refine ⟨rfl, ⟨?_, ?_, ?_, ?_⟩, ?_, ?_⟩
        · intro x hx
          rcases List.mem_cons.mp hx with rfl | hx
          · exact hne
          · exact hplaced.nonempty x hx
        · intro x hx span hs
          rcases List.mem_cons.mp hx with rfl | hx
          · exact (hspans span hs).1
          · exact hplaced.positive x hx span hs
        · rw [List.flatMap_cons]
          refine List.pairwise_append.mpr ⟨hpair, hplaced.ordered, fun a ha b hb => ?_⟩
          obtain ⟨x, hx, hb⟩ := List.mem_flatMap.mp hb
          exact (hend a ha).trans (hnext x hx b hb)
        · intro x hx span hs
          rcases List.mem_cons.mp hx with rfl | hx
          · exact (hspans span hs).2.1
          · exact hplaced.inside x hx span hs
        · intro x hx span hs
          rcases List.mem_cons.mp hx with rfl | hx
          · exact (hspans span hs).2.2
          · have h₁ := hnext x hx span hs
            have h₂ := (hspans last (List.mem_of_getLast? hlast)).2.2
            unfold TokenSpan.stop at h₁
            omega
        · intro x hx
          rcases List.mem_cons.mp hx with rfl | hx
          · exact htypes
          · exact htypes' x hx

/-- **Items that pass the checks** are well placed, each has its control record, and their tokens
have their type. -/
theorem buildVisionControl_spec {p : PreparedPromptData} {controls : List VisionItemControl}
    (h : buildVisionControl p = .ok controls) :
    controls = p.visionItems.map (fun item => item.control item.scatterIndices) ∧
      WellPlaced p.visionItems p.size ∧
      ∀ item ∈ p.visionItems, ∀ i ∈ item.scatterIndices,
        p.tokenTypes.getD i 0 = item.modality.code := by
  unfold buildVisionControl at h
  split_ifs at h with hlen
  split at h
  · cases h
  next controls' patchCursor tokenCursor hitems =>
    split_ifs at h with hcover
    cases h
    obtain ⟨hmap, hplaced, -, htypes⟩ := controlItems_spec hitems
    rw [ne_eq, not_not] at hlen
    exact ⟨hmap, hlen ▸ hplaced, htypes⟩

/-! ## The session -/

/-- `VisionUseSpan`: the tokens that need the embeddings of an item. -/
structure VisionUseSpan where
  start : Nat
  stop : Nat
  itemIndex : Nat
  deriving DecidableEq, Repr

/-- `VisionPrefillPlan`. -/
structure VisionPrefillPlan where
  control : List VisionItemControl
  uses : List VisionUseSpan
  deriving DecidableEq, Repr

/-- `TransientRegion`; `data` says that the region is there. -/
structure TransientRegion where
  data : Bool := false
  size : Nat := 0
  alignment : Nat := 1
  deriving DecidableEq, Repr

/-- `kPreparedVisionPatchFeatures`. -/
def kPreparedVisionPatchFeatures : Nat := 3 * 2 * 16 * 16

/-- `kWorkspaceAlignment` of the vision context. -/
def kWorkspaceAlignment : Nat := 256

/-- The bytes of an item's output: `outHidden` BF16 values for each merged token. -/
def itemOutputBytes (outHidden mergedCount : Nat) : Nat := outHidden * mergedCount * 2

/-- `VisionContext::output_transient_bytes`. -/
def outputTransientBytes (outHidden mergedTokens : Nat) : Except Exception Nat :=
  if mergedTokens = 0 ∨ PagedKV.int32Max < mergedTokens then
    .error (.invalidArgument "Vision output transient extent must fit positive int32")
  else
    .ok ((itemOutputBytes outHidden mergedTokens + (kWorkspaceAlignment - 1)) /
      kWorkspaceAlignment * kWorkspaceAlignment)

/-- `VisionPrefillSession`: the item whose embeddings are in the transient region, and the items
whose payloads can be released. -/
structure VisionPrefillSession where
  activeItem : Option Nat := none
  encodedPayloadsPendingRelease : List Nat := []
  deriving DecidableEq, Repr

/-- The constructor of the session. -/
def VisionPrefillSession.create (plan : VisionPrefillPlan) (transient : TransientRegion) :
    Except Exception VisionPrefillSession :=
  if plan.control.isEmpty ∨ plan.uses.isEmpty then
    .error (.invalidArgument "Vision prefill plan has no suffix item spans")
  else if !transient.data ∨ transient.alignment < kWorkspaceAlignment then
    .error (.invalidArgument "Vision item output transient is missing or misaligned")
  else .ok {}

/-- The end of a chunk that already has an item: the next use cuts it. -/
def cutAt (start stop : Nat) : List VisionUseSpan → Nat
  | [] => stop
  | use :: uses =>
    if use.stop ≤ start then cutAt start stop uses
    else if stop ≤ use.start then stop
    else min stop use.start

/-- The use loop of `prepare_chunk`: the item the chunk needs, and where the chunk ends. -/
def activeUse (start stop : Nat) : List VisionUseSpan → Option VisionUseSpan × Nat
  | [] => (none, stop)
  | use :: uses =>
    if use.stop ≤ start then activeUse start stop uses
    else if stop ≤ use.start then (none, stop)
    else (some use, cutAt start stop uses)

/-- `VisionChunk`: its length and the item it needs. -/
structure VisionChunk where
  length : Nat
  item : Option Nat
  deriving DecidableEq, Repr

/-- The checks of `prepare_chunk` on the item of the chunk, and its encoding unless its embeddings
are still in the transient region. -/
def prepareItem (outHidden : Nat) (prompt : PreparedPromptData) (plan : VisionPrefillPlan)
    (transient : TransientRegion) (session : VisionPrefillSession) (index : Nat) :
    Except Exception VisionPrefillSession :=
  match plan.control[index]?, prompt.visionItems[index]?, prompt.mediaPayloads[index]? with
  | some control, some source, some payload =>
    if source.modality ≠ control.modality ∨ source.grid ≠ control.grid ∨
        source.patchBegin ≠ control.patchBegin ∨ source.patchCount ≠ control.patchCount then
      .error (.invalidArgument "Vision prefill plan does not describe the prepared item")
    else if transient.size < itemOutputBytes outHidden control.mergedCount then
      .error (.invalidArgument "Vision item output transient is too small")
    else if session.activeItem = some index then .ok session
    else if session.activeItem.any fun active => decide (index ≤ active) then
      .error (.logicError "Vision items are not consumed in strictly increasing order")
    else if payload ≠ some (control.patchCount * kPreparedVisionPatchFeatures) then
      .error (.invalidArgument "Vision item patch payload has an invalid shape")
    else
      .ok { activeItem := some index
            encodedPayloadsPendingRelease := session.encodedPayloadsPendingRelease ++ [index] }
  | _, _, _ => .error (.logicError "Vision prefill item index is out of range")

/-- `prepare_chunk`. -/
def prepareChunk (outHidden : Nat) (prompt : PreparedPromptData) (plan : VisionPrefillPlan)
    (transient : TransientRegion) (session : VisionPrefillSession) (start nominalLength : Nat) :
    Except Exception (VisionChunk × VisionPrefillSession) :=
  if nominalLength = 0 ∨ prompt.size ≤ start then
    .error (.invalidArgument "Vision chunk range is empty or outside the prompt")
  else
    let found := activeUse start (min (start + nominalLength) prompt.size) plan.uses
    if found.2 ≤ start then .error (.logicError "Vision chunk cap made no forward progress")
    else
      match found.1 with
      | none => .ok (⟨found.2 - start, none⟩, session)
      | some use =>
        match prepareItem outHidden prompt plan transient session use.itemIndex with
        | .error e => .error e
        | .ok session' => .ok (⟨found.2 - start, some use.itemIndex⟩, session')

/-- `release_encoded_media_payloads`. -/
def releaseEncodedMediaPayloads (prompt : PreparedPromptData) (session : VisionPrefillSession) :
    PreparedPromptData × VisionPrefillSession :=
  ({ prompt with
      mediaPayloads := session.encodedPayloadsPendingRelease.foldl
        (fun payloads index => payloads.set index none) prompt.mediaPayloads },
    { session with encodedPayloadsPendingRelease := [] })

/-! ## What a session keeps -/

/-- The uses of a plan: in the order of the items, and not overlapping. -/
structure UsesOrdered (uses : List VisionUseSpan) : Prop where
  nonempty : ∀ use ∈ uses, use.start < use.stop
  separated : uses.Pairwise fun a b => a.stop ≤ b.start
  increasing : uses.Pairwise fun a b => a.itemIndex < b.itemIndex

/-- The invariant of a session at a cursor: the item in the transient region is not after the next
one needed, and the payloads of the items after it are still there. -/
structure SessionInv (outHidden : Nat) (prompt : PreparedPromptData) (plan : VisionPrefillPlan)
    (transient : TransientRegion) (session : VisionPrefillSession) (cursor : Nat) : Prop where
  placed : WellPlaced prompt.visionItems prompt.size
  control : plan.control = prompt.visionItems.map fun item => item.control item.scatterIndices
  uses : UsesOrdered plan.uses
  index : ∀ use ∈ plan.uses, use.itemIndex < prompt.visionItems.length
  covers : ∀ k item, prompt.visionItems[k]? = some item → ∀ i ∈ item.scatterIndices, cursor ≤ i →
    ∃ use ∈ plan.uses, use.itemIndex = k ∧ use.start ≤ i ∧ i < use.stop
  fits : ∀ use ∈ plan.uses, ∀ item, prompt.visionItems[use.itemIndex]? = some item →
    itemOutputBytes outHidden item.scatterIndices.length ≤ transient.size
  active : ∀ k, session.activeItem = some k → ∀ use ∈ plan.uses, cursor < use.stop →
    k ≤ use.itemIndex
  payload : ∀ use ∈ plan.uses, (∀ k, session.activeItem = some k → k < use.itemIndex) →
    ∀ item, prompt.visionItems[use.itemIndex]? = some item →
    prompt.mediaPayloads[use.itemIndex]? =
      some (some (item.patchCount * kPreparedVisionPatchFeatures))
  payloads : prompt.mediaPayloads.length = prompt.visionItems.length
  pending : ∀ k ∈ session.encodedPayloadsPendingRelease, ∃ a, session.activeItem = some a ∧ k ≤ a

theorem UsesOrdered.tail {use : VisionUseSpan} {uses : List VisionUseSpan}
    (h : UsesOrdered (use :: uses)) : UsesOrdered uses where
  nonempty := fun u hu => h.nonempty u (List.mem_cons_of_mem _ hu)
  separated := (List.pairwise_cons.mp h.separated).2
  increasing := (List.pairwise_cons.mp h.increasing).2

theorem SessionInv.mono {outHidden : Nat} {prompt : PreparedPromptData} {plan : VisionPrefillPlan}
    {transient : TransientRegion} {session : VisionPrefillSession} {cursor cursor' : Nat}
    (h : SessionInv outHidden prompt plan transient session cursor) (hle : cursor ≤ cursor') :
    SessionInv outHidden prompt plan transient session cursor' :=
  { h with
    covers := fun k item hk i hi hc => h.covers k item hk i hi (hle.trans hc)
    active := fun k hk use hu hc => h.active k hk use hu (lt_of_le_of_lt hle hc) }

theorem lt_cutAt {bound start stop : Nat} (hlt : bound < stop) : ∀ {uses : List VisionUseSpan},
    (∀ use ∈ uses, bound < use.start) → bound < cutAt start stop uses
  | [], _ => hlt
  | use :: uses, hs => by
    have hfirst := hs use (List.mem_cons_self ..)
    unfold cutAt
    split_ifs with h₁ h₂
    · exact lt_cutAt hlt fun u hu => hs u (List.mem_cons_of_mem _ hu)
    · exact hlt
    · omega

theorem cutAt_spec (start stop : Nat) : ∀ {uses : List VisionUseSpan}, UsesOrdered uses →
    cutAt start stop uses ≤ stop ∧
      ∀ use ∈ uses, use.stop ≤ start ∨ cutAt start stop uses ≤ use.start
  | [], _ => ⟨Nat.le_refl _, by simp⟩
  | use :: uses, ho => by
    have hsep := (List.pairwise_cons.mp ho.separated).1
    have hne := ho.nonempty use (List.mem_cons_self ..)
    unfold cutAt
    split_ifs with h₁ h₂
    · obtain ⟨h₃, h₄⟩ := cutAt_spec start stop ho.tail
      refine ⟨h₃, fun u hu => ?_⟩
      rcases List.mem_cons.mp hu with rfl | hu
      · exact Or.inl h₁
      · exact h₄ u hu
    · refine ⟨Nat.le_refl _, fun u hu => Or.inr ?_⟩
      rcases List.mem_cons.mp hu with rfl | hu
      · exact h₂
      · have := hsep u hu
        omega
    · refine ⟨by omega, fun u hu => Or.inr ?_⟩
      rcases List.mem_cons.mp hu with rfl | hu
      · omega
      · have := hsep u hu
        omega

/-- **The use loop**: the chunk ends before the next use after the one it needs. -/
theorem activeUse_spec {start stop : Nat} (hlt : start < stop) : ∀ {uses : List VisionUseSpan},
    UsesOrdered uses →
    start < (activeUse start stop uses).2 ∧ (activeUse start stop uses).2 ≤ stop ∧
      (∀ use, (activeUse start stop uses).1 = some use →
        use ∈ uses ∧ start < use.stop ∧ use.start < (activeUse start stop uses).2) ∧
      ∀ use ∈ uses, some use = (activeUse start stop uses).1 ∨ use.stop ≤ start ∨
        (activeUse start stop uses).2 ≤ use.start
  | [], _ => ⟨hlt, Nat.le_refl _, by simp [activeUse], by simp⟩
  | use :: uses, ho => by
    have hsep := (List.pairwise_cons.mp ho.separated).1
    have hne := ho.nonempty use (List.mem_cons_self ..)
    unfold activeUse
    split_ifs with h₁ h₂
    · obtain ⟨h₃, h₄, h₅, h₆⟩ := activeUse_spec hlt ho.tail
      refine ⟨h₃, h₄, fun u hu => ?_, fun u hu => ?_⟩
      · exact ⟨List.mem_cons_of_mem _ (h₅ u hu).1, (h₅ u hu).2⟩
      · rcases List.mem_cons.mp hu with rfl | hu
        · exact Or.inr (Or.inl h₁)
        · exact h₆ u hu
    · refine ⟨hlt, Nat.le_refl _, by simp, fun u hu => Or.inr (Or.inr ?_)⟩
      rcases List.mem_cons.mp hu with rfl | hu
      · exact h₂
      · have := hsep u hu
        omega
    · obtain ⟨h₄, h₅⟩ := cutAt_spec start stop ho.tail
      refine ⟨lt_cutAt hlt fun u hu => ?_, h₄, ?_, fun u hu => ?_⟩
      · have := hsep u hu
        omega
      · intro u hu
        cases hu
        refine ⟨List.mem_cons_self .., by omega, lt_cutAt (by omega) fun v hv => ?_⟩
        have := hsep v hv
        omega
      · rcases List.mem_cons.mp hu with rfl | hu
        · exact Or.inl rfl
        · exact Or.inr (h₅ u hu)

theorem cutAt_end (start stop : Nat) : ∀ uses : List VisionUseSpan,
    cutAt start stop uses = stop ∨ ∃ use ∈ uses, use.start = cutAt start stop uses
  | [] => Or.inl rfl
  | use :: uses => by
    unfold cutAt
    split_ifs with h₁ h₂
    · rcases cutAt_end start stop uses with h | ⟨u, hu, h⟩
      · exact Or.inl h
      · exact Or.inr ⟨u, List.mem_cons_of_mem _ hu, h⟩
    · exact Or.inl rfl
    · exact Or.inr ⟨use, List.mem_cons_self .., by omega⟩

/-- **A chunk that is cut** ends at the start of a use. -/
theorem activeUse_end (start stop : Nat) : ∀ uses : List VisionUseSpan,
    (activeUse start stop uses).2 = stop ∨ ∃ use ∈ uses, use.start = (activeUse start stop uses).2
  | [] => Or.inl rfl
  | use :: uses => by
    have hlater : ∀ {e}, (e = stop ∨ ∃ u ∈ uses, u.start = e) →
        e = stop ∨ ∃ u ∈ use :: uses, u.start = e := by
      rintro e (h | ⟨u, hu, h⟩)
      · exact Or.inl h
      · exact Or.inr ⟨u, List.mem_cons_of_mem _ hu, h⟩
    unfold activeUse
    split_ifs with h₁ h₂
    · exact hlater (activeUse_end start stop uses)
    · exact Or.inl rfl
    · exact hlater (cutAt_end start stop uses)

/-- An item before another one ends before the other starts. -/
theorem UsesOrdered.stop_le {uses : List VisionUseSpan} (ho : UsesOrdered uses)
    {a b : VisionUseSpan} (ha : a ∈ uses) (hb : b ∈ uses) (hlt : a.itemIndex < b.itemIndex) :
    a.stop ≤ b.start := by
  obtain ⟨i, hi, rfl⟩ := List.mem_iff_getElem.mp ha
  obtain ⟨j, hj, rfl⟩ := List.mem_iff_getElem.mp hb
  have hij : i < j := by
    by_contra hij
    rcases Nat.lt_or_eq_of_le (Nat.not_lt.mp hij) with hij | rfl
    · have := List.pairwise_iff_getElem.mp ho.increasing j i hj hi hij
      omega
    · omega
  exact List.pairwise_iff_getElem.mp ho.separated i j hi hj hij

section Session

variable {outHidden : Nat} {prompt : PreparedPromptData} {plan : VisionPrefillPlan}
  {transient : TransientRegion} {session : VisionPrefillSession} {cursor : Nat}

/-- The first item needed from the cursor on can be prepared, and is the one in the transient region
afterwards. -/
theorem prepareItem_spec (h : SessionInv outHidden prompt plan transient session cursor)
    {use : VisionUseSpan} (hu : use ∈ plan.uses) (hc : cursor < use.stop)
    (hfirst : ∀ other ∈ plan.uses, cursor < other.stop → use.itemIndex ≤ other.itemIndex) :
    ∃ session', prepareItem outHidden prompt plan transient session use.itemIndex = .ok session' ∧
      SessionInv outHidden prompt plan transient session' cursor := by
  have hidx := h.index use hu
  obtain ⟨item, hitem⟩ : ∃ item, prompt.visionItems[use.itemIndex]? = some item :=
    ⟨_, List.getElem?_eq_getElem hidx⟩
  have hcontrol : plan.control[use.itemIndex]? = some (item.control item.scatterIndices) := by
    rw [h.control, List.getElem?_map, hitem, Option.map_some]
  obtain ⟨payload, hpayload⟩ : ∃ payload, prompt.mediaPayloads[use.itemIndex]? = some payload :=
    ⟨_, List.getElem?_eq_getElem (by rw [h.payloads]; exact hidx)⟩
  have hfits := h.fits use hu item hitem
  have hle : ∀ k, session.activeItem = some k → k ≤ use.itemIndex := fun k hk =>
    h.active k hk use hu hc
  unfold prepareItem
  simp only [hcontrol, hitem, hpayload, VisionItem.control, ne_eq, not_true_eq_false, or_self,
    if_false, Nat.not_lt.mpr hfits]
  split_ifs with hsame hback hshape
  · exact ⟨session, rfl, h⟩
  · exfalso
    obtain ⟨k, hk, hki⟩ := Option.any_eq_true .. |>.mp hback
    have := hle k hk
    have hki : use.itemIndex ≤ k := of_decide_eq_true hki
    exact hsame (by rw [hk]; congr 1; omega)
  · refine ⟨_, rfl, { h with active := ?_, payload := ?_, pending := ?_ }⟩
    · rintro k hk other ho hco
      cases hk
      exact hfirst other ho hco
    · intro other ho hafter item' hitem'
      refine h.payload other ho (fun k hk => ?_) item' hitem'
      have h₁ := hafter use.itemIndex rfl
      have h₂ := hle k hk
      omega
    · intro k hk
      rcases List.mem_append.mp hk with hk | hk
      · obtain ⟨a, ha, hka⟩ := h.pending k hk
        exact ⟨use.itemIndex, rfl, hka.trans (hle a ha)⟩
      · rw [List.mem_singleton] at hk
        exact ⟨use.itemIndex, rfl, hk.le⟩
  · exfalso
    refine hshape ?_
    have := h.payload use hu (fun k hk => lt_of_le_of_ne (hle k hk) fun heq => hsame (heq ▸ hk))
      item hitem
    rw [hpayload] at this
    exact Option.some.inj this

/-- The item whose embedding the token at `i` of a chunk is given. -/
def VisionChunk.itemAt (chunk : VisionChunk) (prompt : PreparedPromptData) (plan : VisionPrefillPlan)
    (i : Nat) : Option (VisionItem × Nat) :=
  chunk.item.bind fun k =>
    match plan.control[k]?, prompt.visionItems[k]? with
    | some control, some item =>
      if i ∈ control.scatterIndices then some (item, control.scatterIndices.idxOf i) else none
    | _, _ => none

/-- A token lies in at most one item. -/
theorem WellPlaced.unique {items : List VisionItem} {size : Nat} (h : WellPlaced items size)
    {k l i : Nat} {a b : VisionItem} (ha : items[k]? = some a) (hb : items[l]? = some b)
    (hia : i ∈ a.scatterIndices) (hib : i ∈ b.scatterIndices) : k = l := by
  obtain ⟨hk, rfl⟩ := List.getElem?_eq_some_iff.mp ha
  obtain ⟨hl, rfl⟩ := List.getElem?_eq_some_iff.mp hb
  have across := List.pairwise_iff_getElem.mp (List.pairwise_flatMap.mp h.ordered).2
  obtain ⟨s, hs, hs₁, hs₂⟩ := mem_scatterIndices.mp hia
  obtain ⟨t, ht, ht₁, ht₂⟩ := mem_scatterIndices.mp hib
  rcases Nat.lt_trichotomy k l with hlt | heq | hlt
  · have := across k l hk hl hlt s hs t ht
    omega
  · exact heq
  · have := across l k hl hk hlt t ht s hs
    omega

/-- The item behind a token, by its index. -/
theorem itemAt_of_mem {items : List VisionItem} {size k i : Nat} (h : WellPlaced items size)
    {item : VisionItem} (hk : items[k]? = some item) (hi : i ∈ item.scatterIndices) :
    itemAt items i = some (item, item.scatterIndices.idxOf i) := by
  unfold itemAt
  cases hf : items.find? (fun item => decide (i ∈ item.scatterIndices)) with
  | none =>
    rw [List.find?_eq_none] at hf
    exact absurd hi (by simpa using hf item (List.mem_of_getElem? hk))
  | some other =>
    have hmem := List.mem_of_find?_eq_some hf
    have hother : i ∈ other.scatterIndices := by simpa using List.find?_some hf
    obtain ⟨l, hl, rfl⟩ := List.mem_iff_getElem.mp hmem
    obtain rfl := h.unique hk (List.getElem?_eq_getElem hl) hi hother
    rw [List.getElem?_eq_getElem hl] at hk
    cases hk
    rfl

theorem itemAt_eq_none {items : List VisionItem} {i : Nat}
    (h : ∀ (k : Nat) (item : VisionItem), items[k]? = some item → i ∉ item.scatterIndices) :
    itemAt items i = none := by
  unfold itemAt
  rw [Option.map_eq_none_iff, List.find?_eq_none]
  intro item hm
  obtain ⟨k, hk, rfl⟩ := List.mem_iff_getElem.mp hm
  simpa using h k _ (List.getElem?_eq_getElem hk)

/-- **A chunk** of a session is not empty, stays within the nominal length, and gives each of its
tokens the embedding of the item behind it. -/
theorem prepareChunk_spec (h : SessionInv outHidden prompt plan transient session cursor)
    {nominal : Nat} (hn : 0 < nominal) (hc : cursor < prompt.size) :
    ∃ chunk session', prepareChunk outHidden prompt plan transient session cursor nominal =
        .ok (chunk, session') ∧
      0 < chunk.length ∧ chunk.length ≤ nominal ∧ cursor + chunk.length ≤ prompt.size ∧
      (chunk.length = min nominal (prompt.size - cursor) ∨
        ∃ use ∈ plan.uses, use.start = cursor + chunk.length) ∧
      (∀ i, cursor ≤ i → i < cursor + chunk.length →
        chunk.itemAt prompt plan i = itemAt prompt.visionItems i) ∧
      SessionInv outHidden prompt plan transient session' cursor := by
  have hlt : cursor < min (cursor + nominal) prompt.size := by omega
  obtain ⟨h₁, h₂, h₃, h₄⟩ := activeUse_spec hlt h.uses
  set found := activeUse cursor (min (cursor + nominal) prompt.size) plan.uses with hfound
  have hsome : ∀ k item i, prompt.visionItems[k]? = some item → i ∈ item.scatterIndices →
      cursor ≤ i → i < found.2 → ∃ use, found.1 = some use ∧ use.itemIndex = k := by
    intro k item i hk hi hci hif
    obtain ⟨use, hu, hidx, hs, ht⟩ := h.covers k item hk i hi hci
    rcases h₄ use hu with heq | hle | hle
    · exact ⟨use, heq.symm, hidx⟩
    · omega
    · omega
  have hend : found.2 - cursor = min nominal (prompt.size - cursor) ∨
      ∃ use ∈ plan.uses, use.start = cursor + (found.2 - cursor) := by
    rcases activeUse_end cursor (min (cursor + nominal) prompt.size) plan.uses with h | ⟨u, hu, h⟩
    · rw [← hfound] at h
      exact Or.inl (by omega)
    · rw [← hfound] at h
      exact Or.inr ⟨u, hu, by omega⟩
  unfold prepareChunk
  rw [if_neg (by omega), ← hfound]
  dsimp only
  rw [if_neg (by omega)]
  -- The window meets at most one use, and a token of no use belongs to no item.
  cases hactive : found.1 with
  | none =>
    refine ⟨_, _, rfl, by dsimp only; omega, by dsimp only; omega, by dsimp only; omega, hend, ?_, h⟩
    intro i hci hi
    dsimp only at hi
    refine (itemAt_eq_none fun k item hk hmem => ?_).symm
    obtain ⟨use, hu, -⟩ := hsome k item i hk hmem hci (by omega)
    rw [hactive] at hu
    cases hu
  | some use =>
    obtain ⟨hu, hstop, hstart⟩ := h₃ use hactive
    have hfirst : ∀ other ∈ plan.uses, cursor < other.stop → use.itemIndex ≤ other.itemIndex := by
      intro other ho hco
      by_contra hlt'
      have := h.uses.stop_le ho hu (Nat.not_le.mp hlt')
      have hne := h.uses.nonempty other ho
      rcases h₄ other ho with heq | hle | hle
      · rw [hactive] at heq
        cases heq
        omega
      · omega
      · omega
    obtain ⟨session', hok, hi'⟩ := prepareItem_spec h hu hstop hfirst
    simp only [hok]
    refine ⟨_, _, rfl, by dsimp only; omega, by dsimp only; omega, by dsimp only; omega, hend, ?_, hi'⟩
    intro i hci hi
    dsimp only at hi
    obtain ⟨item, hitem⟩ : ∃ item, prompt.visionItems[use.itemIndex]? = some item :=
      ⟨_, List.getElem?_eq_getElem (h.index use hu)⟩
    have hcontrol : plan.control[use.itemIndex]? = some (item.control item.scatterIndices) := by
      rw [h.control, List.getElem?_map, hitem, Option.map_some]
    simp only [VisionChunk.itemAt, Option.bind_some, hcontrol, hitem, VisionItem.control]
    split_ifs with hmem
    · exact (itemAt_of_mem h.placed hitem hmem).symm
    · refine (itemAt_eq_none fun k other hk hother => ?_).symm
      obtain ⟨use', hu', hidx⟩ := hsome k other i hk hother hci (by omega)
      rw [hactive] at hu'
      cases hu'
      rw [← hidx, hitem] at hk
      cases hk
      exact hmem hother

/-- Releasing the payloads of encoded items keeps the invariant. -/
theorem SessionInv.release (h : SessionInv outHidden prompt plan transient session cursor) :
    SessionInv outHidden (releaseEncodedMediaPayloads prompt session).1 plan transient
      (releaseEncodedMediaPayloads prompt session).2 cursor := by
  have hset : ∀ (l : List Nat) (payloads : List (Option Nat)) (k : Nat), k ∉ l →
      (l.foldl (fun payloads index => payloads.set index none) payloads)[k]? = payloads[k]? := by
    intro l
    induction l with
    | nil => intro payloads k _; rfl
    | cons x xs ih =>
      intro payloads k hk
      rw [List.mem_cons, not_or] at hk
      rw [List.foldl_cons, ih _ k hk.2, List.getElem?_set_ne (Ne.symm hk.1)]
  have hlen : ∀ (l : List Nat) (payloads : List (Option Nat)),
      (l.foldl (fun payloads index => payloads.set index none) payloads).length =
        payloads.length := by
    intro l
    induction l with
    | nil => intro payloads; rfl
    | cons x xs ih =>
      intro payloads
      rw [List.foldl_cons, ih, List.length_set]
  refine
    { placed := h.placed, control := h.control, uses := h.uses, index := h.index
      covers := h.covers, fits := h.fits, active := h.active, payload := ?_, payloads := ?_
      pending := by simp [releaseEncodedMediaPayloads] }
  · intro use hu hafter item hitem
    simp only [releaseEncodedMediaPayloads] at hafter hitem ⊢
    rw [hset]
    · exact h.payload use hu hafter item hitem
    · intro hmem
      obtain ⟨a, ha, hle⟩ := h.pending _ hmem
      have := hafter a ha
      omega
  · simp only [releaseEncodedMediaPayloads, hlen]
    exact h.payloads

end Session

end Ninfer.Qwen
