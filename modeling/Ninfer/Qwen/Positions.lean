import Ninfer.Qwen.Identity

/-!
# Positions as an online assignment

`assign_positions` walks over the runs of a whole prompt. What it computes can be computed token by
token: the position of a token is a function of the tokens up to it and of the grids of their
items. This module states that function and shows that the loop computes it. A shorter prompt
therefore has the positions of the longer one, and text after a prompt has the positions that follow
the largest one.

## Main definitions

* `Cursor`, `place`: the online assignment
* `gridAt`, `placed`: the grid behind a token, and the tokens with their grids

## Main results

* `take_place`: the assignment is online
* `assignPositions_place`: **`assign_positions` computes it**
* `assignPositions_append`: a longer prompt keeps the items of a shorter one
* `assignPositions_take`: it keeps the positions
-/

namespace Ninfer.Qwen

/-! ## The online assignment -/

/-- Where the online assignment stands: the run of the last token, its first position, and the index
of the token in it. -/
structure Cursor where
  type : Nat
  grid : VisionGrid
  start : Int
  offset : Nat
  deriving DecidableEq, Repr

namespace Cursor

/-- The position of the last token. -/
def position (c : Cursor) : Position :=
  if c.type = 0 then .same (c.start + c.offset)
  else ⟨c.start, c.start + (c.offset / (c.grid.width / kMerge) : Nat),
    c.start + (c.offset % (c.grid.width / kMerge) : Nat)⟩

/-- The first position of the next run. -/
def next (c : Cursor) : Int :=
  if c.type = 0 then c.start + (c.offset + 1 : Nat)
  else c.start + (max (c.grid.height / kMerge) (c.grid.width / kMerge) : Nat)

/-- The cursor at the next token. -/
def advance : Option Cursor → Nat × VisionGrid → Cursor
  | none, (type, grid) => ⟨type, grid, 0, 0⟩
  | some c, (type, grid) =>
    if type = c.type then { c with offset := c.offset + 1 } else ⟨type, grid, c.next, 0⟩

end Cursor

/-- The positions of tokens after a cursor. -/
def placeFrom : Option Cursor → List (Nat × VisionGrid) → List Position
  | _, [] => []
  | c, token :: tokens =>
    (Cursor.advance c token).position :: placeFrom (some (Cursor.advance c token)) tokens

/-- The positions of tokens, each with its type and the grid of its item. -/
def place (tokens : List (Nat × VisionGrid)) : List Position := placeFrom none tokens

/-- The cursor after tokens. -/
def cursorAfter (c : Option Cursor) (tokens : List (Nat × VisionGrid)) : Option Cursor :=
  tokens.foldl (fun c token => some (Cursor.advance c token)) c

theorem placeFrom_append (c : Option Cursor) (tokens more : List (Nat × VisionGrid)) :
    placeFrom c (tokens ++ more) = placeFrom c tokens ++ placeFrom (cursorAfter c tokens) more := by
  induction tokens generalizing c with
  | nil => rfl
  | cons token tokens ih =>
    simp only [List.cons_append, placeFrom, ih, cursorAfter, List.foldl_cons]

@[simp] theorem length_placeFrom (c : Option Cursor) (tokens : List (Nat × VisionGrid)) :
    (placeFrom c tokens).length = tokens.length := by
  induction tokens generalizing c with
  | nil => rfl
  | cons token tokens ih => simp only [placeFrom, List.length_cons, ih]

/-- **The assignment is online**: the first positions are those of the first tokens. -/
theorem take_place (tokens : List (Nat × VisionGrid)) (count : Nat) :
    (place tokens).take count = place (tokens.take count) := by
  have hsplit : place tokens = place (tokens.take count) ++
      placeFrom (cursorAfter none (tokens.take count)) (tokens.drop count) := by
    unfold place
    rw [← placeFrom_append, List.take_append_drop]
  by_cases hc : count ≤ tokens.length
  · rw [hsplit]
    apply List.take_left'
    unfold place
    rw [length_placeFrom, List.length_take, Nat.min_eq_left hc]
  · have hle : tokens.length ≤ count := by omega
    rw [List.take_of_length_le hle, List.take_of_length_le]
    unfold place
    rwa [length_placeFrom]

/-! ## The positions of a run -/

/-- Tokens of one run after a cursor in it. -/
theorem placeFrom_replicate (c : Cursor) (grid : VisionGrid) (count : Nat) :
    placeFrom (some c) (List.replicate count (c.type, grid)) =
      (List.range count).map fun (i : Nat) =>
        ({ c with offset := c.offset + (i + 1) } : Cursor).position := by
  induction count generalizing c with
  | zero => rfl
  | succ count ih =>
    rw [List.replicate_succ, placeFrom, Cursor.advance, if_pos rfl, List.range_succ_eq_map,
      List.map_cons, List.map_map]
    have := ih { c with offset := c.offset + 1 }
    dsimp only at this
    rw [this]
    refine List.cons_eq_cons.mpr ⟨rfl, List.map_congr_left fun i _ => ?_⟩
    simp only [Function.comp_apply, Nat.succ_eq_add_one]
    rw [show c.offset + 1 + (i + 1) = c.offset + (i + 1 + 1) by omega]

theorem cursorAfter_replicate (c : Cursor) (grid : VisionGrid) (count : Nat) :
    cursorAfter (some c) (List.replicate count (c.type, grid)) =
      some { c with offset := c.offset + count } := by
  induction count generalizing c with
  | zero => rfl
  | succ count ih =>
    have := ih { c with offset := c.offset + 1 }
    dsimp only at this
    rw [List.replicate_succ, cursorAfter, List.foldl_cons, Cursor.advance, if_pos rfl]
    unfold cursorAfter at this
    rw [this]
    congr 2
    omega

/-- A run starts anew where the tokens before it are of another type. -/
def Fresh (c : Option Cursor) (type : Nat) : Prop := ∀ c' ∈ c, c'.type ≠ type

/-- The first position after a cursor. -/
def nextOf : Option Cursor → Int
  | none => 0
  | some c => c.next

theorem advance_of_fresh {c : Option Cursor} {type : Nat} {grid : VisionGrid}
    (h : Fresh c type) : Cursor.advance c (type, grid) = ⟨type, grid, nextOf c, 0⟩ := by
  cases c with
  | none => rfl
  | some c => exact if_neg fun heq => h c rfl heq.symm

/-- A run that starts anew. -/
theorem placeFrom_run {c : Option Cursor} {type : Nat} {grid : VisionGrid} {count : Nat}
    (h : Fresh c type) :
    placeFrom c (List.replicate count (type, grid)) =
      (List.range count).map fun (i : Nat) => (⟨type, grid, nextOf c, i⟩ : Cursor).position := by
  cases count with
  | zero => rfl
  | succ count =>
    rw [List.replicate_succ, placeFrom, advance_of_fresh h, List.range_succ_eq_map,
      List.map_cons, List.map_map]
    have := placeFrom_replicate ⟨type, grid, nextOf c, 0⟩ grid count
    dsimp only at this
    rw [this]
    refine List.cons_eq_cons.mpr ⟨rfl, List.map_congr_left fun i _ => ?_⟩
    simp only [Function.comp_apply, Nat.succ_eq_add_one, Nat.zero_add]

theorem cursorAfter_run {c : Option Cursor} {type : Nat} {grid : VisionGrid} {count : Nat}
    (h : Fresh c type) :
    cursorAfter c (List.replicate (count + 1) (type, grid)) =
      some ⟨type, grid, nextOf c, count⟩ := by
  rw [List.replicate_succ, cursorAfter, List.foldl_cons, advance_of_fresh h]
  have := cursorAfter_replicate ⟨type, grid, nextOf c, 0⟩ grid count
  dsimp only at this
  unfold cursorAfter at this
  rw [this, Nat.zero_add]

/-- A frame by rows is a frame by tokens. -/
theorem visualRun_eq_map (current : Int) (gh gw : Nat) :
    visualRun current gh gw = (List.range (gh * gw)).map fun (i : Nat) =>
      (⟨current, current + (i / gw : Nat), current + (i % gw : Nat)⟩ : Position) := by
  induction gh with
  | zero => simp [visualRun]
  | succ gh ih =>
    have hrow : visualRun current (gh + 1) gw = visualRun current gh gw ++
        (List.range gw).map fun (x : Nat) =>
          (⟨current, current + gh, current + x⟩ : Position) := by
      unfold visualRun
      rw [List.range_succ, List.flatMap_append, List.flatMap_singleton]
    rw [hrow, ih, Nat.succ_mul, List.range_add, List.map_append, List.map_map]
    congr 1
    refine List.map_congr_left fun x hx => ?_
    have hlt : x < gw := List.mem_range.mp hx
    have hpos : 0 < gw := Nat.zero_lt_of_lt hlt
    simp only [Function.comp_apply]
    rw [Nat.mul_comm gh gw, Nat.mul_add_div hpos, Nat.div_eq_of_lt hlt, Nat.add_zero,
      Nat.mul_add_mod, Nat.mod_eq_of_lt hlt]

/-! ## The grids behind the tokens -/

/-- The grid of the item behind the token at `i`. -/
def gridAt (items : List VisionItem) (i : Nat) : VisionGrid :=
  ((items.find? fun item => decide (i ∈ item.scatterIndices)).map (·.grid)).getD ⟨0, 0, 0⟩

/-- The token at `i` with the grid of its item; the grid of a text token is of no account. -/
def placedAt (types : List Nat) (items : List VisionItem) (i : Nat) : Nat × VisionGrid :=
  if types.getD i 0 = 0 then (0, ⟨0, 0, 0⟩) else (types.getD i 0, gridAt items i)

/-- The tokens with their grids. -/
def placed (types : List Nat) (items : List VisionItem) : List (Nat × VisionGrid) :=
  (List.range types.length).map (placedAt types items)

theorem find?_set_map {α β : Type} {p : α → Bool} {f : α → β} {x y : α} :
    ∀ {l : List α} {index : Nat}, l[index]? = some x → p y = p x → f y = f x →
      ((l.set index y).find? p).map f = (l.find? p).map f
  | [], _, h, _, _ => nomatch h
  | a :: l, 0, h, hp, hf => by
    cases h
    rw [List.set_cons_zero, List.find?_cons, List.find?_cons, hp]
    split
    · exact congrArg some hf
    · rfl
  | a :: l, index + 1, h, hp, hf => by
    have ih : ((l.set index y).find? p).map f = (l.find? p).map f := find?_set_map h hp hf
    rw [List.set_cons_succ, List.find?_cons, List.find?_cons]
    cases p a with
    | true => rfl
    | false => exact ih

theorem find?_set_of_none {α : Type} {p : α → Bool} {y : α} (hy : p y = true) :
    ∀ {l : List α} {index : Nat}, index < l.length → (∀ a ∈ l, p a = false) →
      (l.set index y).find? p = some y
  | [], _, h, _ => nomatch h
  | a :: l, 0, _, _ => by rw [List.set_cons_zero, List.find?_cons, hy]
  | a :: l, index + 1, h, hl => by
    have ih := find?_set_of_none hy (Nat.lt_of_succ_lt_succ h)
      fun b hb => hl b (List.mem_cons_of_mem _ hb)
    rw [List.set_cons_succ, List.find?_cons, hl a (List.mem_cons_self ..)]
    exact ih

/-- The spans of items end at or before `size`. -/
def SpansWithin (items : List VisionItem) (size : Nat) : Prop :=
  ∀ item ∈ items, ∀ span ∈ item.tokenSpans, span.stop ≤ size

/-- The spans of items lie on visual tokens. -/
def SpansVisual (items : List VisionItem) (types : List Nat) : Prop :=
  ∀ item ∈ items, ∀ span ∈ item.tokenSpans, ∀ i, span.start ≤ i → i < span.stop →
    types.getD i 0 ≠ 0

section GridAt

variable {items : List VisionItem} {index : Nat} {item : VisionItem} {size count : Nat}

theorem not_mem_scatterIndices (hs : SpansWithin items size) (hitem : item ∈ items) {i : Nat}
    (hi : size ≤ i) : i ∉ item.scatterIndices := by
  intro hm
  obtain ⟨span, hspan, -, hlt⟩ := mem_scatterIndices.mp hm
  have := hs item hitem span hspan
  omega

/-- A span after the tokens so far changes none of their grids. -/
theorem gridAt_set_of_lt (hitem : items[index]? = some item) {i : Nat} (hi : i < size) :
    gridAt (items.set index { item with tokenSpans := item.tokenSpans ++ [⟨size, count⟩] }) i =
      gridAt items i := by
  unfold gridAt
  congr 1
  refine find?_set_map hitem ?_ rfl
  rw [decide_eq_decide, mem_scatterIndices, mem_scatterIndices]
  constructor
  · rintro ⟨span, hspan, hle, hlt⟩
    rcases List.mem_append.mp hspan with hspan | hspan
    · exact ⟨span, hspan, hle, hlt⟩
    · cases List.mem_singleton.mp hspan
      exact absurd hle (Nat.not_le.mpr hi)
  · rintro ⟨span, hspan, hin⟩
    exact ⟨span, List.mem_append_left _ hspan, hin⟩

/-- The grid of the tokens of the span is that of the item. -/
theorem gridAt_set_of_mem (hitem : items[index]? = some item) (hs : SpansWithin items size)
    {i : Nat} (hle : size ≤ i) (hlt : i < size + count) :
    gridAt (items.set index { item with tokenSpans := item.tokenSpans ++ [⟨size, count⟩] }) i =
      item.grid := by
  obtain ⟨hindex, rfl⟩ := List.getElem?_eq_some_iff.mp hitem
  unfold gridAt
  rw [find?_set_of_none _ hindex]
  · rfl
  · intro other hother
    rw [decide_eq_false_iff_not]
    exact not_mem_scatterIndices hs hother hle
  · rw [decide_eq_true_iff, mem_scatterIndices]
    exact ⟨⟨size, count⟩, List.mem_append_right _ (List.mem_singleton_self _), hle, hlt⟩

theorem spansWithin_set (hitem : items[index]? = some item) (hs : SpansWithin items size) :
    SpansWithin (items.set index { item with tokenSpans := item.tokenSpans ++ [⟨size, count⟩] })
      (size + count) := by
  intro other hother span hspan
  rcases List.mem_or_eq_of_mem_set hother with hother | rfl
  · exact (hs other hother span hspan).trans (Nat.le_add_right ..)
  · rcases List.mem_append.mp hspan with hspan | hspan
    · exact (hs item (List.mem_of_getElem? hitem) span hspan).trans (Nat.le_add_right ..)
    · cases List.mem_singleton.mp hspan
      exact Nat.le_refl _

theorem SpansVisual.append {types : List Nat} {m : Nat} (hv : SpansVisual items types)
    (hs : SpansWithin items types.length) :
    SpansVisual items (types ++ List.replicate count m) := by
  intro other hother span hspan i hle hlt
  have hi : i < types.length := Nat.lt_of_lt_of_le hlt (hs other hother span hspan)
  rw [List.getD_append _ _ _ _ hi]
  exact hv other hother span hspan i hle hlt

theorem SpansVisual.set {types : List Nat} {m : Nat} (hm : m ≠ 0)
    (hitem : items[index]? = some item) (hv : SpansVisual items types)
    (hs : SpansWithin items types.length) :
    SpansVisual
      (items.set index { item with tokenSpans := item.tokenSpans ++ [⟨types.length, count⟩] })
      (types ++ List.replicate count m) := by
  intro other hother span hspan i hle hlt
  rcases List.mem_or_eq_of_mem_set hother with hother | rfl
  · exact hv.append hs other hother span hspan i hle hlt
  · rcases List.mem_append.mp hspan with hspan | hspan
    · exact hv.append hs item (List.mem_of_getElem? hitem) span hspan i hle hlt
    · cases List.mem_singleton.mp hspan
      rwa [getD_append_replicate hle hlt]

end GridAt

theorem placed_append_replicate {types : List Nat} {items items' : List VisionItem}
    {m count : Nat} (grid : VisionGrid)
    (hold : ∀ i < types.length, gridAt items' i = gridAt items i)
    (hnew : m ≠ 0 → ∀ i, types.length ≤ i → i < types.length + count → gridAt items' i = grid) :
    placed (types ++ List.replicate count m) items' =
      placed types items ++ List.replicate count (if m = 0 then (0, ⟨0, 0, 0⟩) else (m, grid)) := by
  unfold placed
  rw [List.length_append, List.length_replicate, List.range_add, List.map_append, List.map_map]
  congr 1
  · refine List.map_congr_left fun i hi => ?_
    have hlt : i < types.length := List.mem_range.mp hi
    unfold placedAt
    rw [List.getD_append _ _ _ _ hlt, hold i hlt]
  · rw [List.eq_replicate_iff]
    refine ⟨by rw [List.length_map, List.length_range], ?_⟩
    intro token htoken
    obtain ⟨i, hi, rfl⟩ := List.mem_map.mp htoken
    have hlt : i < count := List.mem_range.mp hi
    have htype : (types ++ List.replicate count m).getD (types.length + i) 0 = m :=
      getD_append_replicate (Nat.le_add_right ..) (Nat.add_lt_add_left hlt _)
    unfold placedAt
    simp only [Function.comp_apply]
    rw [htype]
    split_ifs with hm
    · rfl
    · rw [hnew hm _ (Nat.le_add_right ..) (Nat.add_lt_add_left hlt _)]

/-! ## The loop computes the online assignment -/

/-- The invariant of the loop, after the tokens of the given types: the positions so far are those of
the online assignment, and the next run starts where it would start. -/
structure PlacedInv (types : List Nat) (a : Assigning) : Prop where
  positions : a.positions = place (placed types a.items)
  within : SpansWithin a.items types.length
  visual : SpansVisual a.items types
  current : nextOf (cursorAfter none (placed types a.items)) = a.current
  last : ∀ m, types.getLast? ≠ some m → Fresh (cursorAfter none (placed types a.items)) m

theorem placedInv_init {items : List VisionItem} (hbare : ∀ item ∈ items, item.tokenSpans = []) :
    PlacedInv [] { items := items } where
  positions := rfl
  within item hitem span hspan := by
    rw [hbare item hitem] at hspan
    cases hspan
  visual item hitem span hspan := by
    rw [hbare item hitem] at hspan
    cases hspan
  current := rfl
  last _ _ := nofun

theorem PlacedInv.length {types : List Nat} {a : Assigning} (h : PlacedInv types a) :
    a.positions.length = types.length := by
  rw [h.positions, place, length_placeFrom, placed, List.length_map, List.length_range]

/-- The invariant after a run, from what the run adds. -/
theorem PlacedInv.run {types : List Nat} {a a' : Assigning} {m count : Nat} {grid : VisionGrid}
    (h : PlacedInv types a) (hc : 0 < count) (hlast : types.getLast? ≠ some m)
    (hold : ∀ i < types.length, gridAt a'.items i = gridAt a.items i)
    (hnew : m ≠ 0 → ∀ i, types.length ≤ i → i < types.length + count → gridAt a'.items i = grid)
    (hwithin : SpansWithin a'.items (types.length + count))
    (hvisual : SpansVisual a'.items (types ++ List.replicate count m))
    (hgrid : m = 0 → grid = ⟨0, 0, 0⟩)
    (hpos : a'.positions = a.positions ++ (List.range count).map fun (i : Nat) =>
      (⟨m, grid, a.current, i⟩ : Cursor).position)
    (hcur : a'.current = (⟨m, grid, a.current, count - 1⟩ : Cursor).next) :
    PlacedInv (types ++ List.replicate count m) a' := by
  have htoken : (if m = 0 then (0, ⟨0, 0, 0⟩) else (m, grid)) = (m, grid) := by
    split_ifs with hm
    · rw [hm, hgrid hm]
    · rfl
  have hplaced : placed (types ++ List.replicate count m) a'.items =
      placed types a.items ++ List.replicate count (m, grid) := by
    rw [placed_append_replicate grid hold hnew, htoken]
  have hfresh := h.last m hlast
  have hcursor : cursorAfter none (placed (types ++ List.replicate count m) a'.items) =
      some ⟨m, grid, a.current, count - 1⟩ := by
    have hafter : cursorAfter _ (List.replicate (count - 1 + 1) (m, grid)) = _ :=
      cursorAfter_run hfresh
    rw [Nat.sub_add_cancel hc, h.current] at hafter
    rw [hplaced, cursorAfter, List.foldl_append]
    exact hafter
  refine ⟨?_, ?_, hvisual, ?_, ?_⟩
  · rw [hplaced, place, placeFrom_append, placeFrom_run hfresh, h.current, hpos, h.positions]
    rfl
  · rwa [List.length_append, List.length_replicate]
  · rw [hcursor, hcur]
    rfl
  · intro m' hm' c hc'
    rw [hcursor] at hc'
    cases hc'
    rintro rfl
    refine hm' ?_
    rw [List.getLast?_append, List.getLast?_replicate, if_neg (Nat.ne_of_gt hc)]
    rfl

/-- **One turn of the loop** keeps the invariant: a text run takes the indices after `current`, a
visual run is a frame by tokens. -/
theorem assignRun_placed {types : List Nat} {a a' : Assigning} {m count : Nat}
    (h : PlacedInv types a) (hc : 0 < count) (hlast : types.getLast? ≠ some m)
    (hrun : assignRun a m count = .ok a') :
    PlacedInv (types ++ List.replicate count m) a' := by
  unfold assignRun at hrun
  split_ifs at hrun with hm
  · cases hrun
    subst hm
    refine h.run hc hlast (fun _ _ => rfl) (fun hne => absurd rfl hne) ?_
      (h.visual.append h.within) (fun _ => rfl) rfl ?_
    · exact fun item hitem span hspan => (h.within item hitem span hspan).trans (Nat.le_add_right ..)
    · unfold Cursor.next
      rw [if_pos rfl, Nat.sub_add_cancel hc]
  · split at hrun
    · cases hrun
    next index item a₁ hsel =>
      obtain ⟨hitem, -, -⟩ := selectItem_spec hsel
      dsimp only at hrun
      split_ifs at hrun with hcount
      cases hrun
      rw [ne_eq, not_not] at hcount
      rw [h.length]
      refine h.run hc hlast (fun i hi => gridAt_set_of_lt hitem hi)
        (fun _ i hle hlt => gridAt_set_of_mem hitem h.within hle hlt)
        (spansWithin_set hitem h.within) (h.visual.set hm hitem h.within)
        (fun hzero => absurd hzero hm) ?_ ?_
      · rw [hcount]
        refine congrArg (a.positions ++ ·) ?_
        rw [visualRun_eq_map]
        refine List.map_congr_left fun i _ => ?_
        unfold Cursor.position
        rw [if_neg hm]
      · unfold Cursor.next
        rw [if_neg hm]

/-- Adjacent runs have different types. -/
theorem runs_chain (types : List Nat) :
    (runs types).IsChain fun r s => r.1 ≠ s.1 := by
  induction types with
  | nil => exact List.isChain_nil
  | cons t ts ih =>
    unfold runs
    cases hr : runs ts with
    | nil => exact List.isChain_singleton _
    | cons r rest =>
      obtain ⟨u, n⟩ := r
      rw [hr] at ih
      dsimp only
      split_ifs with hut
      · subst hut
        cases rest with
        | nil => exact List.isChain_singleton _
        | cons s rest =>
          rw [List.isChain_cons_cons] at ih ⊢
          exact ih
      · exact List.isChain_cons_cons.mpr ⟨fun h => hut h.symm, ih⟩

/-- **The loop**, by induction on the runs that are left; each starts anew. -/
theorem assignRuns_placed : ∀ {rs : List (Nat × Nat)} {types : List Nat} {a a' : Assigning},
    PlacedInv types a → (∀ r ∈ rs, 0 < r.2) → (rs.IsChain fun r s => r.1 ≠ s.1) →
    (∀ r ∈ rs.head?, types.getLast? ≠ some r.1) → assignRuns a rs = .ok a' →
    PlacedInv (types ++ rs.flatMap fun r => List.replicate r.2 r.1) a'
  | [], types, a, a', h, _, _, _, hrun => by
    cases hrun
    rwa [List.flatMap_nil, List.append_nil]
  | (m, count) :: rs, types, a, a', h, hpos, hchain, hhead, hrun => by
    unfold assignRuns at hrun
    have hc : 0 < count := hpos (m, count) (List.mem_cons_self ..)
    split at hrun
    · cases hrun
    next a₁ h₁ =>
      have hi₁ := assignRun_placed h hc (hhead (m, count) rfl) h₁
      rw [List.flatMap_cons, ← List.append_assoc]
      refine assignRuns_placed hi₁ (fun r hr => hpos r (List.mem_cons_of_mem _ hr))
        hchain.tail (fun r hr => ?_) hrun
      rw [List.getLast?_append, List.getLast?_replicate, if_neg (Nat.ne_of_gt hc)]
      cases rs with
      | nil => cases hr
      | cons s rs =>
        cases hr
        intro heq
        exact (List.isChain_cons_cons.mp hchain).1 (Option.some.inj heq)

/-- What `assign_positions` has done when it returns. -/
theorem assignPositions_placed {types : List Nat} {items items' : List VisionItem}
    {positions : List Position} {delta : Int} (hbare : ∀ item ∈ items, item.tokenSpans = [])
    (h : assignPositions types items = .ok (items', positions, delta)) :
    ∃ a, PlacedInv types a ∧ AssignInv types a ∧ a.items = items' ∧ a.positions = positions ∧
      delta = a.maximum + 1 - types.length := by
  unfold assignPositions at h
  split at h
  · cases h
  next a ha =>
    split_ifs at h
    cases h
    have hplaced := assignRuns_placed (placedInv_init hbare) (runs_pos types) (runs_chain types)
      (fun _ _ => nofun) ha
    have hinv := assignRuns_inv (assignInv_init items) (runs_pos types) ha
    rw [List.nil_append, runs_flatten] at hplaced hinv
    exact ⟨a, hplaced, hinv, rfl, rfl, rfl⟩

/-- **`assign_positions` computes the online assignment** from the tokens and the grids behind
them. -/
theorem assignPositions_place {types : List Nat} {items items' : List VisionItem}
    {positions : List Position} {delta : Int} (hbare : ∀ item ∈ items, item.tokenSpans = [])
    (h : assignPositions types items = .ok (items', positions, delta)) :
    positions = place (placed types items') := by
  obtain ⟨a, hplaced, -, rfl, rfl, -⟩ := assignPositions_placed hbare h
  exact hplaced.positions

/-- The coordinates of positions. -/
def coordinates (positions : List Position) : Set Int :=
  {x | ∃ q ∈ positions, x = q.temporal ∨ x = q.height ∨ x = q.width}

/-- **The rope delta** takes the length of the prompt to the position after its largest one. -/
theorem assignPositions_delta {types : List Nat} {items items' : List VisionItem}
    {positions : List Position} {delta : Int} (hne : types ≠ [])
    (h : assignPositions types items = .ok (items', positions, delta)) :
    IsGreatest (coordinates positions) (delta + types.length - 1) := by
  obtain ⟨a, hinv, rfl, rfl, rfl⟩ := assignPositions_inv h
  have hmax : a.maximum + 1 - types.length + types.length - 1 = a.maximum := by omega
  rw [hmax]
  constructor
  · obtain ⟨q, hq, hreach⟩ := hinv.reached hne
    exact ⟨q, hq, hreach.imp Eq.symm (Or.imp Eq.symm Eq.symm)⟩
  · rintro x ⟨q, hq, hx⟩
    have := hinv.bounded q hq
    omega

/-- The coordinates of a prompt of at most `2 ^ 31` tokens are in the range of `int32`. -/
theorem assignPositions_int32 {types : List Nat} {items items' : List VisionItem}
    {positions : List Position} {delta : Int} (hsize : types.length ≤ 2 ^ 31)
    (h : assignPositions types items = .ok (items', positions, delta)) :
    ∀ x ∈ coordinates positions, 0 ≤ x ∧ x < 2 ^ 31 := by
  obtain ⟨a, hinv, rfl, rfl, rfl⟩ := assignPositions_inv h
  rintro x ⟨q, hq, hx⟩
  have hne : types ≠ [] := fun hnil => by
    have := List.length_pos_of_mem hq
    rw [hinv.length, hnil] at this
    cases this
  have hmax := hinv.maximum hne
  have hle := hinv.current_le
  have hbounded := hinv.bounded q hq
  omega

/-! ## A longer prompt -/

/-- The runs of a longer prompt: those of the shorter one, of which the last may go on. -/
theorem runs_append (types more : List Nat) (hne : types ≠ []) :
    ∃ init m c k tail, runs types = init ++ [(m, c)] ∧
      runs (types ++ more) = init ++ (m, c + k) :: tail := by
  induction types with
  | nil => exact absurd rfl hne
  | cons t ts ih =>
    cases ts with
    | nil =>
      have hone : runs [t] = [] ++ [(t, 1)] := rfl
      rw [List.singleton_append]
      cases hr : runs more with
      | nil => exact ⟨[], t, 1, 0, [], hone, by simp only [runs, hr, List.nil_append]⟩
      | cons r rest =>
        obtain ⟨u, n⟩ := r
        by_cases hut : u = t
        · refine ⟨[], t, 1, n, rest, hone, ?_⟩
          simp only [runs, hr, hut, if_true, List.nil_append, Nat.add_comm 1 n]
        · refine ⟨[], t, 1, 0, (u, n) :: rest, hone, ?_⟩
          simp only [runs, hr, hut, if_false, List.nil_append]
    | cons t' ts =>
      obtain ⟨init, m, c, k, tail, hruns, hmore⟩ := ih (List.cons_ne_nil _ _)
      rw [List.cons_append]
      cases init with
      | nil =>
        rw [List.nil_append] at hruns hmore
        by_cases hmt : m = t
        · refine ⟨[], t, c + 1, k, tail, ?_, ?_⟩
          · rw [runs, hruns]
            exact if_pos hmt
          · rw [runs, hmore, List.nil_append, Nat.add_right_comm]
            exact if_pos hmt
        · refine ⟨[(t, 1)], m, c, k, tail, ?_, ?_⟩
          · rw [runs, hruns]
            exact if_neg hmt
          · rw [runs, hmore]
            exact if_neg hmt
      | cons r init =>
        obtain ⟨u, n⟩ := r
        rw [List.cons_append (a := (u, n))] at hruns hmore
        by_cases hut : u = t
        · refine ⟨(t, n + 1) :: init, m, c, k, tail, ?_, ?_⟩
          · rw [runs, hruns]
            exact if_pos hut
          · rw [runs, hmore]
            exact if_pos hut
        · refine ⟨(t, 1) :: (u, n) :: init, m, c, k, tail, ?_, ?_⟩
          · rw [runs, hruns]
            exact if_neg hut
          · rw [runs, hmore]
            exact if_neg hut

/-- The local variables with more items behind those there are. -/
def Assigning.more (a : Assigning) (items : List VisionItem) : Assigning :=
  { a with items := a.items ++ items }

theorem seek_append {modality : PromptModality} {items more : List VisionItem} {start : Nat}
    {item : VisionItem} (h : items[seek modality items start]? = some item) :
    seek modality (items ++ more) start = seek modality items start := by
  obtain ⟨hlt, -⟩ := List.getElem?_eq_some_iff.mp h
  unfold seek at *
  have hstart : start ≤ items.length := by omega
  have hfound : (items.drop start).findIdx (fun item => decide (item.modality = modality)) <
      (items.drop start).length := by
    rw [List.length_drop]
    omega
  rw [List.drop_append_of_le_length hstart, List.findIdx_append, if_pos hfound]

theorem selectItem_more {a a' : Assigning} {modality index : Nat} {item : VisionItem}
    (more : List VisionItem) (h : selectItem a modality = .ok (index, item, a')) :
    selectItem (a.more more) modality = .ok (index, item, a'.more more) := by
  unfold selectItem at h ⊢
  split_ifs at h ⊢ with h₁ h₂
  · split at h
    · cases h
    next hi =>
      cases h
      have hseek : seek .image (a.items ++ more) a.imageIndex = seek .image a.items a.imageIndex :=
        seek_append hi
      have hlt := (List.getElem?_eq_some_iff.mp hi).1
      have hget : (a.items ++ more)[_]? = _ := List.getElem?_append_left hlt
      simp only [Assigning.more, hseek, hget, hi]
  · split at h
    · cases h
    next hi =>
      cases h
      have hseek : seek .video (a.items ++ more) a.videoIndex = seek .video a.items a.videoIndex :=
        seek_append hi
      have hlt := (List.getElem?_eq_some_iff.mp hi).1
      have hget : (a.items ++ more)[_]? = _ := List.getElem?_append_left hlt
      simp only [Assigning.more, hseek, hget, hi]
      split_ifs <;> rfl

/-- A run takes its item from those there are, whatever items follow. -/
theorem assignRun_more {a a' : Assigning} {m count : Nat} (more : List VisionItem)
    (h : assignRun a m count = .ok a') : assignRun (a.more more) m count = .ok (a'.more more) := by
  unfold assignRun at h ⊢
  split_ifs at h ⊢ with hm
  · cases h
    rfl
  · split at h
    · cases h
    next index item a₁ hsel =>
      obtain ⟨hitem, -, -⟩ := selectItem_spec hsel
      obtain ⟨hlt, -⟩ := List.getElem?_eq_some_iff.mp hitem
      rw [selectItem_more more hsel]
      dsimp only at h ⊢
      split_ifs at h ⊢ with hcount
      cases h
      unfold Assigning.more
      rw [List.set_append_left _ _ hlt]

theorem assignRuns_more {rs : List (Nat × Nat)} {a a' : Assigning} (more : List VisionItem)
    (h : assignRuns a rs = .ok a') : assignRuns (a.more more) rs = .ok (a'.more more) := by
  induction rs generalizing a with
  | nil =>
    cases h
    rfl
  | cons r rs ih =>
    obtain ⟨m, count⟩ := r
    unfold assignRuns at h ⊢
    split at h
    · cases h
    next a₁ h₁ =>
      rw [assignRun_more more h₁]
      exact ih h

theorem assignRuns_append {rs ss : List (Nat × Nat)} {a b : Assigning} :
    assignRuns a (rs ++ ss) = .ok b ↔ ∃ a', assignRuns a rs = .ok a' ∧ assignRuns a' ss = .ok b := by
  induction rs generalizing a with
  | nil =>
    constructor
    · exact fun h => ⟨a, rfl, h⟩
    · rintro ⟨a', h, h'⟩
      cases h
      exact h'
  | cons r rs ih =>
    obtain ⟨m, count⟩ := r
    rw [List.cons_append, assignRuns, assignRuns]
    cases assignRun a m count with
    | error e =>
      constructor
      · exact fun h => nomatch h
      · rintro ⟨a', h, -⟩
        cases h
    | ok a₁ => exact ih

/-- The items have only gained spans, on the tokens after those there were. -/
structure Grown (a b : Assigning) : Prop where
  length : b.items.length = a.items.length
  items : ∀ (j : Nat) (item : VisionItem), a.items[j]? = some item → ∃ extra : List TokenSpan,
    b.items[j]? = some { item with tokenSpans := item.tokenSpans ++ extra } ∧
      ∀ span ∈ extra, a.positions.length ≤ span.start ∧ 0 < span.count
  positions : ∃ added, b.positions = a.positions ++ added

theorem Grown.refl (a : Assigning) : Grown a a where
  length := rfl
  items j item h := ⟨[], by rw [h, List.append_nil], nofun⟩
  positions := ⟨[], (List.append_nil _).symm⟩

theorem Grown.trans {a b c : Assigning} (h : Grown a b) (h' : Grown b c) : Grown a c := by
  obtain ⟨added, hadded⟩ := h.positions
  obtain ⟨added', hadded'⟩ := h'.positions
  refine ⟨h'.length.trans h.length, fun j item hitem => ?_, added ++ added', ?_⟩
  · obtain ⟨extra, hb, hextra⟩ := h.items j item hitem
    obtain ⟨extra', hc, hextra'⟩ := h'.items j _ hb
    refine ⟨extra ++ extra', by rw [hc, List.append_assoc], fun span hspan => ?_⟩
    rcases List.mem_append.mp hspan with hspan | hspan
    · exact hextra span hspan
    · obtain ⟨hle, hpos⟩ := hextra' span hspan
      rw [hadded, List.length_append] at hle
      exact ⟨by omega, hpos⟩
  · rw [hadded', hadded, List.append_assoc]

theorem assignRun_grown {a a' : Assigning} {m count : Nat} (hc : 0 < count)
    (h : assignRun a m count = .ok a') : Grown a a' := by
  unfold assignRun at h
  split_ifs at h with hm
  · cases h
    exact ⟨rfl, (Grown.refl a).items, _, rfl⟩
  · split at h
    · cases h
    next index item a₁ hsel =>
      obtain ⟨hitem, -, -⟩ := selectItem_spec hsel
      obtain ⟨hlt, -⟩ := List.getElem?_eq_some_iff.mp hitem
      dsimp only at h
      split_ifs at h with hcount
      cases h
      refine ⟨List.length_set .., fun j x hx => ?_, _, rfl⟩
      by_cases hj : index = j
      · subst hj
        rw [hitem] at hx
        cases hx
        refine ⟨[⟨a.positions.length, count⟩], List.getElem?_set_self hlt, fun span hspan => ?_⟩
        cases List.mem_singleton.mp hspan
        exact ⟨Nat.le_refl _, hc⟩
      · refine ⟨[], ?_, nofun⟩
        rw [List.append_nil]
        exact (List.getElem?_set_ne hj).trans hx

theorem assignRuns_grown {rs : List (Nat × Nat)} {a b : Assigning} (hpos : ∀ r ∈ rs, 0 < r.2)
    (h : assignRuns a rs = .ok b) : Grown a b := by
  induction rs generalizing a with
  | nil =>
    cases h
    exact Grown.refl _
  | cons r rs ih =>
    obtain ⟨m, count⟩ := r
    unfold assignRuns at h
    split at h
    · cases h
    next a₁ h₁ =>
      have hfirst := assignRun_grown (hpos (m, count) (List.mem_cons_self ..)) h₁
      exact hfirst.trans (ih (fun r hr => hpos r (List.mem_cons_of_mem _ hr)) h)

theorem assignRun_length {a a' : Assigning} {m count : Nat} (h : assignRun a m count = .ok a') :
    a'.positions.length = a.positions.length + count := by
  unfold assignRun at h
  split_ifs at h with hm
  · cases h
    rw [List.length_append, length_textRun]
  · split at h
    · cases h
    next index item a₁ hsel =>
      dsimp only at h
      split_ifs at h with hcount
      cases h
      rw [ne_eq, not_not] at hcount
      rw [List.length_append, length_visualRun, hcount]

/-- A visual run has the length of its frame. -/
theorem assignRun_count_eq {a b b' : Assigning} {m count count' : Nat} (hm : m ≠ 0)
    (h : assignRun a m count = .ok b) (h' : assignRun a m count' = .ok b') : count = count' := by
  unfold assignRun at h h'
  rw [if_neg hm] at h h'
  cases hsel : selectItem a m with
  | error e =>
    rw [hsel] at h
    cases h
  | ok found =>
    obtain ⟨index, item, a₁⟩ := found
    rw [hsel] at h h'
    dsimp only at h h'
    split_ifs at h with hcount
    split_ifs at h' with hcount'
    rw [ne_eq, not_not] at hcount hcount'
    rw [hcount, hcount']

/-- The last run of the shorter prompt goes on only if it is text, and takes no other item then. -/
theorem assignRun_longer {a a' b : Assigning} {m count k : Nat} {more : List VisionItem}
    (h : assignRun a m count = .ok a') (hb : assignRun (a.more more) m (count + k) = .ok b) :
    b.items = a'.items ++ more ∧ a'.positions.length ≤ b.positions.length := by
  have hlen := assignRun_length h
  have hlenb := assignRun_length hb
  refine ⟨?_, ?_⟩
  · by_cases hm : m = 0
    · subst hm
      cases h
      cases hb
      rfl
    · have hmore := assignRun_more more h
      obtain rfl : k = 0 := by
        have := assignRun_count_eq hm hmore hb
        omega
      cases Except.ok.inj (hb.symm.trans hmore)
      rfl
  · rw [hlen, hlenb]
    unfold Assigning.more
    dsimp only
    omega

/-- The number of runs of an item, which `assign_positions` checks at its end. -/
def VisionItem.runCount (item : VisionItem) : Nat :=
  if item.modality = .image then 1 else item.grid.temporal

theorem assignPositions_eq_ok {types : List Nat} {items items' : List VisionItem}
    {positions : List Position} {delta : Int} :
    assignPositions types items = .ok (items', positions, delta) ↔
      ∃ a, assignRuns { items := items } (runs types) = .ok a ∧
        (∀ item ∈ a.items, item.tokenSpans.length = item.runCount) ∧ a.items = items' ∧
        a.positions = positions ∧ a.maximum + 1 - types.length = delta := by
  unfold assignPositions
  constructor
  · intro h
    split at h
    · cases h
    next a ha =>
      split_ifs at h with hall
      cases h
      refine ⟨a, ha, fun item hitem => ?_, rfl, rfl, rfl⟩
      exact beq_iff_eq.mp (List.all_eq_true.mp hall item hitem)
  · rintro ⟨a, ha, hall, rfl, rfl, rfl⟩
    rw [ha]
    refine if_pos (List.all_eq_true.mpr fun item hitem => beq_iff_eq.mpr (hall item hitem))

/-- **A longer prompt keeps the items of a shorter one**: the shorter one is its first tokens, with
the first of its items. The other items have their spans after it. -/
theorem assignPositions_append {types more : List Nat} {items moreItems items₁ items₂ : List VisionItem}
    {positions₁ positions₂ : List Position} {delta₁ delta₂ : Int} (hne : types ≠ [])
    (hbare : ∀ item ∈ moreItems, item.tokenSpans = [])
    (h₁ : assignPositions types items = .ok (items₁, positions₁, delta₁))
    (h₂ : assignPositions (types ++ more) (items ++ moreItems) = .ok (items₂, positions₂, delta₂)) :
    ∃ rest, items₂ = items₁ ++ rest ∧
      ∀ item ∈ rest, ∀ span ∈ item.tokenSpans, types.length ≤ span.start ∧ 0 < span.count := by
  obtain ⟨a, ha, hspans, rfl, rfl, -⟩ := assignPositions_eq_ok.mp h₁
  obtain ⟨b, hb, hspans', rfl, rfl, -⟩ := assignPositions_eq_ok.mp h₂
  obtain ⟨init, m, c, k, tail, hruns, hmore⟩ := runs_append types more hne
  have hpos := runs_pos (types ++ more)
  rw [hmore] at hb hpos
  rw [hruns] at ha
  obtain ⟨a₀, ha₀, hlast⟩ := assignRuns_append.mp ha
  obtain ⟨b₀, hb₀, hrest⟩ := assignRuns_append.mp hb
  cases Except.ok.inj (hb₀.symm.trans (assignRuns_more moreItems ha₀))
  unfold assignRuns at hlast hrest
  split at hlast
  · cases hlast
  next a₁ ha₁ =>
  cases hlast
  split at hrest
  · cases hrest
  next b₁ hb₁ =>
  obtain ⟨hitems, hlen⟩ := assignRun_longer ha₁ hb₁
  have hgrown := assignRuns_grown (fun r hr => hpos r (by simp [hr])) hrest
  have hsize : a.positions.length = types.length := by
    obtain ⟨a', hinv, -, hp, -⟩ := assignPositions_inv h₁
    rw [← hp, hinv.length]
  have hle : a.items.length ≤ b.items.length := by
    rw [hgrown.length, hitems, List.length_append]
    omega
  have htake : b.items.take a.items.length = a.items := by
    apply List.ext_getElem?
    intro j
    by_cases hj : j < a.items.length
    · obtain ⟨extra, hextra, -⟩ := hgrown.items j a.items[j] (by
        rw [hitems, List.getElem?_append_left hj, List.getElem?_eq_getElem hj])
      have hold := hspans _ (List.getElem_mem hj)
      have hnew := hspans' _ (List.mem_of_getElem? hextra)
      -- Both loops have given the item the number of spans they check.
      have hnil : extra = [] := by
        rw [List.length_append] at hnew
        have hexp : VisionItem.runCount
            { a.items[j] with tokenSpans := a.items[j].tokenSpans ++ extra } =
              a.items[j].runCount := rfl
        rw [hexp, hold] at hnew
        exact List.length_eq_zero_iff.mp (by omega)
      rw [List.getElem?_take_of_lt hj, hextra, hnil, List.append_nil, List.getElem?_eq_getElem hj]
    · rw [List.getElem?_eq_none (by rw [List.length_take]; omega),
        List.getElem?_eq_none (Nat.not_lt.mp hj)]
  refine ⟨b.items.drop a.items.length, ?_, fun item hitem span hspan => ?_⟩
  · conv_lhs => rw [← List.take_append_drop a.items.length b.items, htake]
  · obtain ⟨j, hj⟩ := List.mem_iff_getElem?.mp hitem
    rw [List.getElem?_drop] at hj
    have hlt : a.items.length + j < b.items.length := (List.getElem?_eq_some_iff.mp hj).1
    have hlt' : j < moreItems.length := by
      rw [hgrown.length, hitems, List.length_append] at hlt
      omega
    obtain ⟨extra, hextra, hafter⟩ := hgrown.items (a.items.length + j) moreItems[j] (by
      rw [hitems, List.getElem?_append_right (Nat.le_add_right ..), Nat.add_sub_cancel_left,
        List.getElem?_eq_getElem hlt'])
    cases Option.some.inj (hj.symm.trans hextra)
    rw [hbare _ (List.getElem_mem hlt'), List.nil_append] at hspan
    obtain ⟨hstart, hcount⟩ := hafter span hspan
    exact ⟨by omega, hcount⟩

/-- **A longer prompt keeps the positions of a shorter one.** -/
theorem assignPositions_take {types more : List Nat} {items moreItems items₁ items₂ : List VisionItem}
    {positions₁ positions₂ : List Position} {delta₁ delta₂ : Int} (hne : types ≠ [])
    (hbare : ∀ item ∈ items ++ moreItems, item.tokenSpans = [])
    (h₁ : assignPositions types items = .ok (items₁, positions₁, delta₁))
    (h₂ : assignPositions (types ++ more) (items ++ moreItems) = .ok (items₂, positions₂, delta₂)) :
    positions₂.take types.length = positions₁ := by
  obtain ⟨rest, rfl, hafter⟩ := assignPositions_append hne
    (fun item hitem => hbare item (List.mem_append_right _ hitem)) h₁ h₂
  rw [assignPositions_place hbare h₂,
    assignPositions_place (fun item hitem => hbare item (List.mem_append_left _ hitem)) h₁,
    take_place]
  congr 1
  unfold placed
  rw [← List.map_take, List.take_range, List.length_append, Nat.min_eq_left (Nat.le_add_right ..)]
  refine List.map_congr_left fun i hi => ?_
  have hlt := List.mem_range.mp hi
  unfold placedAt gridAt
  -- The items of the longer prompt have their spans after the tokens of the shorter one.
  have hnone : rest.find? (fun item => decide (i ∈ item.scatterIndices)) = none := by
    rw [List.find?_eq_none]
    intro item hitem hmem
    obtain ⟨span, hspan, hle, -⟩ := mem_scatterIndices.mp (of_decide_eq_true hmem)
    have := (hafter item hitem span hspan).1
    omega
  rw [List.getD_append _ _ _ _ hlt, List.find?_append, hnone, Option.or_none]

end Ninfer.Qwen
