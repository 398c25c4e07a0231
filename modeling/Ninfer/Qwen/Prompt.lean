import Ninfer.Commons.Call

/-!
# Prepared prompts

`targets/qwen3_6`: what the frontend hands to the runtime. A prompt is a list of tokens with the
modality of each, its three-axis rotary position and the media items behind the visual ones. The
positions come from `assign_positions` of the media processor, or are the token indices of a
prompt without media.

The source keeps the three axes of the positions in one array after the other, or in three arrays;
here a token carries its position. Extents are natural numbers: the `int32` grids are positive.

## Main definitions

* `VisionItem`, `PreparedPromptData`: the records of `prepared_prompt.h`
* `assignPositions`, `assignTextPositions`: where the positions come from
* `Prepared`, `PreparedPrompt`: the prompts the frontend returns

## Main results

* `Prepared.covered`: every visual token lies in a span of an item
* `Prepared.suffix_position`: after the last visual token, positions are the indices shifted by
  `ropeDelta`
* `Prepared.positions_max`: the shift is that of the position after the largest one
-/

namespace Ninfer.Qwen

/-- `TokenId`. -/
abbrev TokenId := Int

/-- A rotary position, one coordinate for each axis. -/
structure Position where
  temporal : Int
  height : Int
  width : Int
  deriving DecidableEq, Repr

/-- The position of a text token: the same on each axis. -/
def Position.same (value : Int) : Position := ⟨value, value, value⟩

/-- `PromptModality`. -/
inductive PromptModality
  | image
  | video
  deriving DecidableEq, Repr

/-- The value of the modality as a token type; text tokens have the type zero. -/
def PromptModality.code : PromptModality → Nat
  | image => 1
  | video => 2

/-- `VisionGrid`. -/
structure VisionGrid where
  temporal : Nat
  height : Nat
  width : Nat
  deriving DecidableEq, Repr

/-- `TokenSpan`. -/
structure TokenSpan where
  start : Nat
  count : Nat
  deriving DecidableEq, Repr

/-- The index after the last token of a span. -/
def TokenSpan.stop (span : TokenSpan) : Nat := span.start + span.count

/-- `VisionItem`. Its digest is that of the media bytes, and the timestamps are finite. -/
structure VisionItem where
  modality : PromptModality
  grid : VisionGrid
  patchBegin : Nat
  patchCount : Nat
  contentDigest : List Nat
  timestamps : List Rat
  tokenSpans : List TokenSpan
  deriving DecidableEq, Repr

/-- `RewriteCheckpointKind`. -/
inductive RewriteCheckpointKind
  | turnClosure
  | responseReplay
  deriving DecidableEq, Repr

/-- `RewriteCheckpointSpec`. -/
structure RewriteCheckpointSpec where
  kind : RewriteCheckpointKind
  frontier : Nat
  deriving DecidableEq, Repr

/-- `PromptIdentity`. -/
structure PromptIdentity where
  reusable : Bool := true
  rewriteCheckpoint : Option RewriteCheckpointSpec := none
  deriving DecidableEq, Repr

/-- `PreparedPromptData`. A payload is its number of patch elements, and absent once released. Of
the statistics of the preparation only the two that the runtime checks are kept. -/
structure PreparedPromptData where
  tokenIds : List TokenId
  tokenTypes : List Nat
  positions : List Position
  ropeDelta : Int
  mediaPayloads : List (Option Nat)
  visionItems : List VisionItem
  identity : PromptIdentity
  rawPatches : Nat
  visionTokens : Nat
  deriving DecidableEq, Repr

namespace PreparedPromptData

variable (p : PreparedPromptData)

/-- The number of tokens of the prompt. -/
abbrev size : Nat := p.tokenIds.length

/-- `has_media`. -/
def hasMedia : Bool := !p.visionItems.isEmpty

/-- `release_all_media_payloads`. -/
def releaseAllMediaPayloads : PreparedPromptData :=
  { p with mediaPayloads := p.mediaPayloads.map fun _ => none }

/-- The position the prompt assigns to its token at `i`. -/
def positionAt (i : Nat) : Position := p.positions.getD i (Position.same 0)

end PreparedPromptData

/-! ## Positions of a prompt with media -/

/-- `kMerge`: patches merged along each axis into one token. -/
def kMerge : Nat := 2

/-- The maximal runs of equal types, each with its length. -/
def runs : List Nat → List (Nat × Nat)
  | [] => []
  | t :: ts =>
    match runs ts with
    | [] => [(t, 1)]
    | (u, n) :: rest => if u = t then (t, n + 1) :: rest else (t, 1) :: (u, n) :: rest

/-- The local variables of `assign_positions`. -/
structure Assigning where
  items : List VisionItem
  imageIndex : Nat := 0
  videoIndex : Nat := 0
  videoT : Nat := 0
  current : Int := 0
  maximum : Int := 0
  positions : List Position := []
  deriving DecidableEq, Repr

/-- The index of the next item of a modality, or the number of items. -/
def seek (modality : PromptModality) (items : List VisionItem) (start : Nat) : Nat :=
  start + (items.drop start).findIdx fun item => decide (item.modality = modality)

/-- The item of a visual run: an image has one run, a video one for each frame. -/
def selectItem (a : Assigning) (modality : Nat) : Except Exception (Nat × VisionItem × Assigning) :=
  if modality = PromptModality.image.code then
    match a.items[seek .image a.items a.imageIndex]? with
    | none => .error (.invalidArgument "more image token runs than image inputs")
    | some item =>
      .ok (seek .image a.items a.imageIndex, item,
        { a with imageIndex := seek .image a.items a.imageIndex + 1 })
  else if modality = PromptModality.video.code then
    match a.items[seek .video a.items a.videoIndex]? with
    | none => .error (.invalidArgument "more video token runs than video temporal grids")
    | some item =>
      .ok (seek .video a.items a.videoIndex, item,
        if a.videoT + 1 = item.grid.temporal then
          { a with videoIndex := seek .video a.items a.videoIndex + 1, videoT := 0 }
        else { a with videoIndex := seek .video a.items a.videoIndex, videoT := a.videoT + 1 })
  else .error (.invalidArgument "invalid multimodal token type")

/-- The positions of a text run. -/
def textRun (current : Int) (count : Nat) : List Position :=
  (List.range count).map fun (offset : Nat) => Position.same (current + offset)

/-- The positions of a visual run, one frame of `gh` by `gw` tokens. -/
def visualRun (current : Int) (gh gw : Nat) : List Position :=
  (List.range gh).flatMap fun (y : Nat) => (List.range gw).map fun (x : Nat) =>
    ⟨current, current + y, current + x⟩

/-- The largest coordinate of the positions, and of what came before. -/
def maximumOf (start : Int) (positions : List Position) : Int :=
  positions.foldl (fun m p => max m (max p.temporal (max p.height p.width))) start

/-- One turn of the loop of `assign_positions`: the run of `count` tokens of the type `modality`
after the positions assigned so far. -/
def assignRun (a : Assigning) (modality count : Nat) : Except Exception Assigning :=
  if modality = 0 then
    .ok { a with
      positions := a.positions ++ textRun a.current count
      maximum := maximumOf a.maximum (textRun a.current count)
      current := a.current + count }
  else
    match selectItem a modality with
    | .error e => .error e
    | .ok (index, item, a') =>
      let gh := item.grid.height / kMerge
      let gw := item.grid.width / kMerge
      if count ≠ gh * gw then
        .error (.invalidArgument "vision placeholder run does not match media grid")
      else
        .ok { a' with
          items := a.items.set index
            { item with tokenSpans := item.tokenSpans ++ [⟨a.positions.length, count⟩] }
          positions := a.positions ++ visualRun a.current gh gw
          maximum := maximumOf a.maximum (visualRun a.current gh gw)
          current := a.current + (max gh gw : Nat) }

/-- The loop of `assign_positions`. -/
def assignRuns (a : Assigning) : List (Nat × Nat) → Except Exception Assigning
  | [] => .ok a
  | (modality, count) :: rest =>
    match assignRun a modality count with
    | .error e => .error e
    | .ok a' => assignRuns a' rest

/-- `assign_positions`: the items with their spans, the positions and the rope delta. The coordinates
are unbounded integers here and `int32` in the source, where they fit up to `2 ^ 31` tokens. -/
def assignPositions (tokenTypes : List Nat) (items : List VisionItem) :
    Except Exception (List VisionItem × List Position × Int) :=
  match assignRuns { items := items } (runs tokenTypes) with
  | .error e => .error e
  | .ok a =>
    if a.items.all fun item =>
        item.tokenSpans.length == (if item.modality = .image then 1 else item.grid.temporal) then
      .ok (a.items, a.positions, a.maximum + 1 - tokenTypes.length)
    else .error (.invalidArgument "media grid count does not match placeholder runs")

/-- The positions `assign_text_positions` gives to a prompt without media. Its check that an index is
in the range of `int32` is left out: it refuses no prompt of at most `2 ^ 31` tokens. -/
def assignTextPositions (count : Nat) : List Position := textRun 0 count

/-- `kImageToken`. -/
def kImageToken : TokenId := 248056

/-- `kVideoToken`. -/
def kVideoToken : TokenId := 248057

/-- The type `process` gives to a token. -/
def tokenType (token : TokenId) : Nat :=
  if token = kImageToken then PromptModality.image.code
  else if token = kVideoToken then PromptModality.video.code
  else 0

/-- The prompts that `prepare` and `prepare_tokens` return: without media, or from `process`, which
gives the items no spans before `assign_positions` does. -/
inductive Prepared (p : PreparedPromptData) : Prop
  | text (types : p.tokenTypes = List.replicate p.size 0)
      (positions : p.positions = assignTextPositions p.size) (delta : p.ropeDelta = 0)
      (items : p.visionItems = []) (payloads : p.mediaPayloads = []) : Prepared p
  | media (types : p.tokenTypes = p.tokenIds.map tokenType) (items : List VisionItem)
      (spans : ∀ item ∈ items, item.tokenSpans = [])
      (assigned : assignPositions p.tokenTypes items = .ok (p.visionItems, p.positions, p.ropeDelta)) :
      Prepared p

/-- `PreparedPrompt`: a prompt that the frontend has prepared. -/
structure PreparedPrompt extends PreparedPromptData where
  prepared : Prepared toPreparedPromptData

/-! ## The loop of `assign_positions` -/

theorem runs_flatten : ∀ types, (runs types).flatMap (fun r => List.replicate r.2 r.1) = types
  | [] => rfl
  | t :: ts => by
    have ih := runs_flatten ts
    unfold runs
    cases hr : runs ts with
    | nil =>
      rw [hr] at ih
      simpa using ih
    | cons r rest =>
      obtain ⟨u, n⟩ := r
      rw [hr] at ih
      dsimp only
      split_ifs with h
      · subst h
        simpa [List.replicate_succ] using ih
      · simpa using ih

theorem runs_pos : ∀ types, ∀ r ∈ runs types, 0 < r.2
  | [] => by simp [runs]
  | t :: ts => by
    have ih := runs_pos ts
    unfold runs
    cases hr : runs ts with
    | nil => simp
    | cons r rest =>
      obtain ⟨u, n⟩ := r
      rw [hr] at ih
      dsimp only
      split_ifs with h
      · intro r hm
        rcases List.mem_cons.mp hm with rfl | hm
        · exact Nat.succ_pos n
        · exact ih r (List.mem_cons_of_mem _ hm)
      · intro r hm
        rcases List.mem_cons.mp hm with rfl | hm
        · exact Nat.one_pos
        · exact ih r hm

@[simp] theorem length_textRun (current : Int) (count : Nat) :
    (textRun current count).length = count := by
  simp [textRun]

@[simp] theorem length_visualRun (current : Int) (gh gw : Nat) :
    (visualRun current gh gw).length = gh * gw := by
  simp [visualRun, List.length_flatMap]

theorem getD_textRun {current : Int} {count i : Nat} (hi : i < count) (d : Position) :
    (textRun current count).getD i d = Position.same (current + i) := by
  simp [textRun, List.getD_eq_getElem?_getD, hi]

/-- The largest coordinate is bounded by `bound` when every coordinate is, and reached when one
of them is. -/
theorem maximumOf_eq {bound : Int} : ∀ {positions : List Position} {start : Int}, start ≤ bound →
    (∀ p ∈ positions, p.temporal ≤ bound ∧ p.height ≤ bound ∧ p.width ≤ bound) →
    (start = bound ∨ ∃ p ∈ positions, p.temporal = bound ∨ p.height = bound ∨ p.width = bound) →
    maximumOf start positions = bound
  | [], start, _, _, hr => by
    rcases hr with hr | ⟨p, hp, -⟩
    · simpa [maximumOf] using hr
    · cases hp
  | q :: qs, start, hs, hb, hr => by
    obtain ⟨h₁, h₂, h₃⟩ := hb q (List.mem_cons_self ..)
    have hstep : maximumOf start (q :: qs) =
        maximumOf (max start (max q.temporal (max q.height q.width))) qs := rfl
    rw [hstep]
    refine maximumOf_eq (by omega) (fun p hp => hb p (List.mem_cons_of_mem _ hp)) ?_
    rcases hr with rfl | ⟨p, hp, hpe⟩
    · exact Or.inl (by omega)
    · rcases List.mem_cons.mp hp with rfl | hp
      · exact Or.inl (by omega)
      · exact Or.inr ⟨p, hp, hpe⟩

/-- The token at `i` lies in a span of an item. -/
def Covered (items : List VisionItem) (i : Nat) : Prop :=
  ∃ item ∈ items, ∃ span ∈ item.tokenSpans, span.start ≤ i ∧ i < span.stop

/-- The invariant of the loop, after the tokens of the given types. -/
structure AssignInv (types : List Nat) (a : Assigning) : Prop where
  length : a.positions.length = types.length
  current_le : a.current ≤ types.length
  current_pos : types ≠ [] → 0 < a.current
  current_empty : types = [] → a.current = 0 ∧ a.maximum = 0
  maximum : types ≠ [] → a.maximum + 1 = a.current
  bounded : ∀ q ∈ a.positions, 0 ≤ q.temporal ∧ 0 ≤ q.height ∧ 0 ≤ q.width ∧
    q.temporal ≤ a.maximum ∧ q.height ≤ a.maximum ∧ q.width ≤ a.maximum
  reached : types ≠ [] → ∃ q ∈ a.positions, q.temporal = a.maximum ∨ q.height = a.maximum ∨
    q.width = a.maximum
  covered : ∀ i, types.getD i 0 ≠ 0 → Covered a.items i
  suffix : ∀ b, (∀ i, b ≤ i → types.getD i 0 = 0) → ∀ i, b ≤ i → i < types.length →
    a.positions.getD i (Position.same 0) = Position.same (a.current - (types.length - i : Int))

theorem AssignInv.current_nonneg {types : List Nat} {a : Assigning} (h : AssignInv types a) :
    0 ≤ a.current := by
  by_cases hn : types = []
  · have := h.current_empty hn
    omega
  · have := h.current_pos hn
    omega

theorem AssignInv.maximum_lt {types : List Nat} {a : Assigning} (h : AssignInv types a) :
    a.maximum ≤ a.current ∧ -1 < a.maximum := by
  by_cases hn : types = []
  · rw [(h.current_empty hn).1, (h.current_empty hn).2]
    omega
  · have h₁ := h.maximum hn
    have h₂ := h.current_pos hn
    omega

theorem assignInv_init (items : List VisionItem) : AssignInv [] { items := items } where
  length := rfl
  current_le := by simp
  current_pos := by simp
  current_empty := by simp
  maximum := by simp
  bounded := by simp
  reached := by simp
  covered := by simp
  suffix := by simp

/-- Replacing an item by one with more spans covers no less. -/
theorem Covered.set {items : List VisionItem} {i index : Nat} {item : VisionItem}
    {span : TokenSpan} (hitem : items[index]? = some item) (h : Covered items i) :
    Covered (items.set index { item with tokenSpans := item.tokenSpans ++ [span] }) i := by
  obtain ⟨x, hx, s, hs, hin⟩ := h
  obtain ⟨k, hk, rfl⟩ := List.mem_iff_getElem.mp hx
  obtain ⟨hi, rfl⟩ := List.getElem?_eq_some_iff.mp hitem
  by_cases hki : index = k
  · subst hki
    exact ⟨_, List.mem_set hi .., s, List.mem_append_left _ hs, hin⟩
  · exact ⟨items[k], List.mem_iff_getElem.mpr ⟨k, by simpa using hk, List.getElem_set_ne hki ..⟩,
      s, hs, hin⟩

/-- The item a visual run belongs to is one of the items, and the choice changes no position. -/
theorem selectItem_spec {a a' : Assigning} {modality index : Nat} {item : VisionItem}
    (h : selectItem a modality = .ok (index, item, a')) :
    a.items[index]? = some item ∧ a'.positions = a.positions ∧ a'.items = a.items := by
  unfold selectItem at h
  split_ifs at h with h₁ h₂
  · split at h
    · cases h
    next hi =>
      cases h
      exact ⟨hi, rfl, rfl⟩
  · split at h
    · cases h
    next hi =>
      cases h
      refine ⟨hi, ?_, ?_⟩
      · split_ifs <;> rfl
      · split_ifs <;> rfl

theorem mem_textRun {current : Int} {count : Nat} {q : Position} :
    q ∈ textRun current count ↔ ∃ i : Nat, i < count ∧ q = Position.same (current + i) := by
  simp only [textRun, List.mem_map, List.mem_range]
  constructor
  · rintro ⟨i, hi, rfl⟩
    exact ⟨i, hi, rfl⟩
  · rintro ⟨i, hi, rfl⟩
    exact ⟨i, hi, rfl⟩

theorem mem_visualRun {current : Int} {gh gw : Nat} {q : Position} :
    q ∈ visualRun current gh gw ↔
      ∃ y x : Nat, y < gh ∧ x < gw ∧ q = ⟨current, current + y, current + x⟩ := by
  simp only [visualRun, List.mem_flatMap, List.mem_map, List.mem_range]
  constructor
  · rintro ⟨y, hy, x, hx, rfl⟩
    exact ⟨y, x, hy, hx, rfl⟩
  · rintro ⟨y, x, hy, hx, rfl⟩
    exact ⟨y, hy, x, hx, rfl⟩

/-- **One run** adds its positions, each at most the new maximum, which is reached; and the next
position is the one after it. -/
structure RunAdded (a a' : Assigning) (count : Nat) (added : List Position) : Prop where
  positions : a'.positions = a.positions ++ added
  length : added.length = count
  le : a'.current ≤ a.current + count
  grows : a.current < a'.current
  maximum : a'.maximum = maximumOf a.maximum added
  bounded : ∀ q ∈ added, a.current ≤ q.temporal ∧ a.current ≤ q.height ∧ a.current ≤ q.width ∧
    q.temporal < a'.current ∧ q.height < a'.current ∧ q.width < a'.current
  reached : ∃ q ∈ added, q.temporal + 1 = a'.current ∨ q.height + 1 = a'.current ∨
    q.width + 1 = a'.current

theorem RunAdded.maximum_eq {a a' : Assigning} {count : Nat} {added : List Position}
    (h : RunAdded a a' count added) (hm : a.maximum ≤ a.current) :
    a'.maximum + 1 = a'.current := by
  have hg := h.grows
  have : a'.maximum = a'.current - 1 := by
    rw [h.maximum]
    refine maximumOf_eq (by omega) (fun q hq => ?_) (Or.inr ?_)
    · have := h.bounded q hq
      omega
    · obtain ⟨q, hq, hr⟩ := h.reached
      exact ⟨q, hq, by omega⟩
  omega

theorem runAdded_text {a : Assigning} {count : Nat} (hc : 0 < count) :
    RunAdded a
      { a with
        positions := a.positions ++ textRun a.current count
        maximum := maximumOf a.maximum (textRun a.current count)
        current := a.current + count } count (textRun a.current count) where
  positions := rfl
  length := length_textRun ..
  le := Int.le_refl _
  grows := by
    dsimp only
    omega
  maximum := rfl
  bounded := by
    intro q hq
    obtain ⟨i, hi, rfl⟩ := mem_textRun.mp hq
    simp only [Position.same]
    omega
  reached := by
    refine ⟨_, mem_textRun.mpr ⟨count - 1, by omega, rfl⟩, Or.inl ?_⟩
    simp only [Position.same]
    omega

theorem runAdded_visual (a a' : Assigning) (items : List VisionItem) {gh gw : Nat}
    (hc : 0 < gh * gw) :
    RunAdded a
      { a' with
        items := items
        positions := a.positions ++ visualRun a.current gh gw
        maximum := maximumOf a.maximum (visualRun a.current gh gw)
        current := a.current + (max gh gw : Nat) } (gh * gw) (visualRun a.current gh gw) where
  positions := rfl
  length := length_visualRun ..
  le := by
    have hgh : 0 < gh := Nat.pos_of_mul_pos_right hc
    have hgw : 0 < gw := Nat.pos_of_mul_pos_left hc
    have h₁ : gh ≤ gh * gw := Nat.le_mul_of_pos_right gh hgw
    have h₂ : gw ≤ gh * gw := Nat.le_mul_of_pos_left gw hgh
    dsimp only
    omega
  grows := by
    have hgh : 0 < gh := Nat.pos_of_mul_pos_right hc
    dsimp only
    omega
  maximum := rfl
  bounded := by
    intro q hq
    obtain ⟨y, x, hy, hx, rfl⟩ := mem_visualRun.mp hq
    dsimp only
    omega
  reached := by
    have hgh : 0 < gh := Nat.pos_of_mul_pos_right hc
    have hgw : 0 < gw := Nat.pos_of_mul_pos_left hc
    refine ⟨_, mem_visualRun.mpr ⟨gh - 1, gw - 1, by omega, by omega, rfl⟩, Or.inr ?_⟩
    dsimp only
    omega

theorem getD_append_replicate {types : List Nat} {m count i : Nat} (h₁ : types.length ≤ i)
    (h₂ : i < types.length + count) : (types ++ List.replicate count m).getD i 0 = m := by
  rw [List.getD_append_right _ _ _ _ h₁, List.getD_replicate _ (by omega)]

/-- **The loop invariant over one run.** A text run extends every text suffix; a visual run ends
them all. -/
theorem AssignInv.run {types : List Nat} {a a' : Assigning} {m count : Nat}
    {added : List Position} (hi : AssignInv types a) (hr : RunAdded a a' count added)
    (hc : 0 < count)
    (hcov : ∀ i, (types ++ List.replicate count m).getD i 0 ≠ 0 → Covered a'.items i)
    (htext : m = 0 → added = textRun a.current count ∧ a'.current = a.current + count) :
    AssignInv (types ++ List.replicate count m) a' := by
  have hmax := hr.maximum_eq hi.maximum_lt.1
  have hgrows := hr.grows
  have hnonneg := hi.current_nonneg
  have hlen : (types ++ List.replicate count m).length = types.length + count := by simp
  have hne : types ++ List.replicate count m ≠ [] := by
    intro h
    have := congrArg List.length h
    simp at this
    omega
  refine
    { length := ?_, current_le := ?_, current_pos := fun _ => by omega
      current_empty := fun h => absurd h hne, maximum := fun _ => hmax
      bounded := ?_, reached := fun _ => ?_, covered := hcov, suffix := ?_ }
  · rw [hr.positions, List.length_append, hi.length, hr.length, hlen]
  · have h₁ := hr.le
    have h₂ := hi.current_le
    rw [hlen]
    omega
  · intro q hq
    rw [hr.positions] at hq
    rcases List.mem_append.mp hq with hq | hq
    · have h₁ := hi.bounded q hq
      have h₂ := hi.maximum_lt
      omega
    · have := hr.bounded q hq
      omega
  · obtain ⟨q, hq, hreach⟩ := hr.reached
    refine ⟨q, ?_, by omega⟩
    rw [hr.positions]
    exact List.mem_append_right _ hq
  · intro b hb i hbi hil
    rw [hlen] at hil
    -- The last token of the run is after `b`, so the run is a text run.
    have hm : m = 0 := by
      by_contra hm
      refine hm ?_
      have hlast : types.length + (count - 1) < types.length + count := by omega
      have heq : (types ++ List.replicate count m).getD (types.length + (count - 1)) 0 = m :=
        getD_append_replicate (Nat.le_add_right _ _) hlast
      rw [← heq]
      exact hb _ (by omega)
    obtain ⟨rfl, hcur⟩ := htext hm
    rw [hr.positions, hlen]
    by_cases hin : i < types.length
    · rw [List.getD_append _ _ _ _ (by rw [hi.length]; exact hin)]
      have hb' : ∀ j, b ≤ j → types.getD j 0 = 0 := by
        intro j hj
        by_cases hjt : j < types.length
        · have := hb j hj
          rwa [List.getD_append _ _ _ _ hjt] at this
        · rw [List.getD_eq_default _ _ (by omega)]
      rw [hi.suffix b hb' i hbi hin, hcur]
      congr 1
      push_cast
      omega
    · rw [List.getD_append_right _ _ _ _ (by rw [hi.length]; omega),
        getD_textRun (by rw [hi.length]; omega), hi.length, hcur]
      congr 1
      omega

/-- **One turn of the loop keeps its invariant.** -/
theorem assignRun_inv {types : List Nat} {a a' : Assigning} {m count : Nat}
    (hi : AssignInv types a) (hc : 0 < count) (h : assignRun a m count = .ok a') :
    AssignInv (types ++ List.replicate count m) a' := by
  have old : ∀ i, i < types.length → (types ++ List.replicate count m).getD i 0 ≠ 0 →
      Covered a.items i := by
    intro i hlt hi'
    rw [List.getD_append _ _ _ _ hlt] at hi'
    exact hi.covered i hi'
  unfold assignRun at h
  split_ifs at h with hm
  · cases h
    refine hi.run (runAdded_text hc) hc (fun i hne => ?_) fun _ => ⟨rfl, rfl⟩
    by_cases hlt : i < types.length
    · exact old i hlt hne
    · exfalso
      refine hne ?_
      by_cases hin : i < types.length + count
      · rw [getD_append_replicate (by omega) hin, hm]
      · rw [List.getD_eq_default _ _ (by simp; omega)]
  · split at h
    · cases h
    next index item a₁ hsel =>
      obtain ⟨hitem, -, -⟩ := selectItem_spec hsel
      obtain ⟨hlt', -⟩ := List.getElem?_eq_some_iff.mp hitem
      dsimp only at h
      split_ifs at h with hcount
      cases h
      rw [ne_eq, not_not] at hcount
      rw [hcount] at hc
      have hadded := runAdded_visual a a₁ (a.items.set index
        { item with tokenSpans := item.tokenSpans ++ [⟨a.positions.length, count⟩] }) hc
      rw [← hcount] at hadded hc
      refine hi.run hadded hc (fun i hne => ?_) fun hzero => absurd hzero hm
      by_cases hlt : i < types.length
      · exact (old i hlt hne).set hitem
      · refine ⟨_, List.mem_set hlt' .., ⟨a.positions.length, count⟩,
          List.mem_append_right _ (List.mem_singleton.mpr rfl), ?_⟩
        simp only [TokenSpan.stop, hi.length]
        refine ⟨by omega, ?_⟩
        by_contra hge
        exact hne (List.getD_eq_default _ _ (by simp; omega))

theorem assignRuns_inv : ∀ {rs : List (Nat × Nat)} {types : List Nat} {a a' : Assigning},
    AssignInv types a → (∀ r ∈ rs, 0 < r.2) → assignRuns a rs = .ok a' →
    AssignInv (types ++ rs.flatMap fun r => List.replicate r.2 r.1) a'
  | [], types, a, a', hi, _, h => by
    cases h
    simpa using hi
  | (m, count) :: rs, types, a, a', hi, hpos, h => by
    unfold assignRuns at h
    split at h
    · cases h
    next a₁ h₁ =>
      have hi₁ := assignRun_inv hi (hpos _ (List.mem_cons_self ..)) h₁
      have := assignRuns_inv hi₁ (fun r hr => hpos r (List.mem_cons_of_mem _ hr)) h
      simpa [List.append_assoc] using this

/-- The local variables `assign_positions` ends with. -/
theorem assignPositions_inv {types : List Nat} {items items' : List VisionItem}
    {positions : List Position} {delta : Int}
    (h : assignPositions types items = .ok (items', positions, delta)) :
    ∃ a, AssignInv types a ∧ a.items = items' ∧ a.positions = positions ∧
      delta = a.maximum + 1 - types.length := by
  unfold assignPositions at h
  split at h
  · cases h
  next a ha =>
    split_ifs at h
    cases h
    have := assignRuns_inv (assignInv_init items) (runs_pos types) ha
    rw [List.nil_append, runs_flatten] at this
    exact ⟨a, this, rfl, rfl, rfl⟩

/-! ## What holds of a prepared prompt -/

namespace Prepared

variable {p : PreparedPromptData}

/-- The positions of a prompt without media are those `assign_positions` would give it. -/
theorem assigning (h : Prepared p) :
    ∃ a, AssignInv p.tokenTypes a ∧ a.items = p.visionItems ∧ a.positions = p.positions ∧
      (0 < p.size → p.ropeDelta = a.maximum + 1 - p.size) ∧ p.tokenTypes.length = p.size := by
  cases h with
  | text types positions delta items payloads =>
    by_cases hs : 0 < p.size
    · have hrun := assignRun_inv (assignInv_init []) hs
        (show assignRun { items := [] } 0 p.size = .ok _ by rfl)
      rw [List.nil_append, ← types] at hrun
      have hne : p.tokenTypes ≠ [] := by
        rw [types]
        intro h
        have := congrArg List.length h
        rw [List.length_replicate, List.length_nil] at this
        omega
      refine ⟨_, hrun, items.symm, positions.symm, fun _ => ?_, by rw [types]; simp⟩
      have hmax := hrun.maximum hne
      dsimp only at hmax ⊢
      omega
    · have hz : p.size = 0 := by omega
      rw [hz] at types positions
      refine ⟨{ items := [] }, types ▸ assignInv_init [], items.symm, ?_, fun h => absurd h hs, ?_⟩
      · rw [positions]
        rfl
      · rw [types, hz]
        rfl
  | media types items spans assigned =>
    obtain ⟨a, hi, hitems, hpos, hdelta⟩ := assignPositions_inv assigned
    have hlen : p.tokenTypes.length = p.size := by rw [types, List.length_map]
    exact ⟨a, hi, hitems, hpos, fun _ => by rw [hdelta, hlen], hlen⟩

theorem types_length (h : Prepared p) : p.tokenTypes.length = p.size := by
  obtain ⟨a, -, -, -, -, hl⟩ := h.assigning
  exact hl

theorem types_ne_nil (h : Prepared p) (hs : 0 < p.size) : p.tokenTypes ≠ [] := by
  intro hnil
  have := h.types_length
  rw [hnil, List.length_nil] at this
  omega

theorem positions_length (h : Prepared p) : p.positions.length = p.size := by
  obtain ⟨a, hi, -, hp, -, hl⟩ := h.assigning
  rw [← hp, hi.length, hl]

/-- **Every visual token lies in a span of an item.** -/
theorem covered (h : Prepared p) {i : Nat} (hi : p.tokenTypes.getD i 0 ≠ 0) :
    Covered p.visionItems i := by
  obtain ⟨a, ha, hitems, -⟩ := h.assigning
  exact hitems ▸ ha.covered i hi

/-- **After the last visual token positions are indices**, shifted by the rope delta. -/
theorem suffix_position (h : Prepared p) {b i : Nat}
    (hb : ∀ j, b ≤ j → p.tokenTypes.getD j 0 = 0) (hbi : b ≤ i) (hi : i < p.size) :
    p.positionAt i = Position.same (i + p.ropeDelta) := by
  obtain ⟨a, ha, -, hp, hd, hl⟩ := h.assigning
  have hmax := ha.maximum (h.types_ne_nil (by omega))
  have hdelta := hd (by omega)
  rw [PreparedPromptData.positionAt, ← hp, ha.suffix b hb i hbi (by omega), hl]
  congr 1
  omega

/-- The rope delta is not positive: an item takes at least as many tokens as positions. -/
theorem ropeDelta_bounds (h : Prepared p) (hs : 0 < p.size) :
    -(p.size : Int) < p.ropeDelta ∧ p.ropeDelta ≤ 0 := by
  obtain ⟨a, ha, -, -, hd, hl⟩ := h.assigning
  have hne := h.types_ne_nil hs
  have h₁ := ha.maximum hne
  have h₂ := ha.current_pos hne
  have h₃ := ha.current_le
  have h₄ := hd hs
  omega

/-- A prompt without visual tokens has the rope delta zero. -/
theorem ropeDelta_of_text (h : Prepared p) (hs : 0 < p.size)
    (ht : ∀ j, p.tokenTypes.getD j 0 = 0) : p.ropeDelta = 0 := by
  obtain ⟨a, ha, -, hp, -, -⟩ := h.assigning
  have hfirst := h.suffix_position (b := 0) (fun j _ => ht j) (Nat.le_refl 0) hs
  have hlt : 0 < p.positions.length := h.positions_length ▸ hs
  have hmem : p.positionAt 0 ∈ p.positions := by
    rw [PreparedPromptData.positionAt, List.getD_eq_getElem _ _ hlt]
    exact List.getElem_mem hlt
  have hpos := (ha.bounded _ (hp ▸ hmem)).1
  rw [hfirst] at hpos
  have hle := (h.ropeDelta_bounds hs).2
  simp only [Position.same] at hpos
  omega

/-- **The position after the largest one** is the prompt length shifted by the rope delta. -/
theorem positions_max (h : Prepared p) (hs : 0 < p.size) :
    maximumOf 0 p.positions + 1 = p.size + p.ropeDelta := by
  obtain ⟨a, ha, -, hp, hd, hl⟩ := h.assigning
  have hne := h.types_ne_nil hs
  have hmax : maximumOf 0 p.positions = a.maximum := by
    rw [← hp]
    refine maximumOf_eq ?_ (fun q hq => ?_) (Or.inr (ha.reached hne))
    · have := ha.maximum_lt
      omega
    · have := ha.bounded q hq
      omega
  have := hd hs
  omega

end Prepared

/-- An image of sixteen patches after one text token: four visual tokens that share their first
axis, and the next token two positions after them. -/
example :
    assignPositions [0, 1, 1, 1, 1, 0]
      [{ modality := .image, grid := ⟨1, 4, 4⟩, patchBegin := 0, patchCount := 16,
         contentDigest := [], timestamps := [], tokenSpans := [] }] =
    .ok ([{ modality := .image, grid := ⟨1, 4, 4⟩, patchBegin := 0, patchCount := 16,
            contentDigest := [], timestamps := [], tokenSpans := [⟨1, 4⟩] }],
      [.same 0, ⟨1, 1, 1⟩, ⟨1, 1, 2⟩, ⟨1, 2, 1⟩, ⟨1, 2, 2⟩, .same 3], -2) := by
  decide

end Ninfer.Qwen
