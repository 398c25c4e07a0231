import Ninfer.Qwen.Positions

/-!
# A prompt that continues a conversation

A prompt, the tokens generated after it, and a later prompt that repeats both as text and media: the
positions that the resident identity has recorded for the generated tokens are those that
`assign_positions` gives them in the later prompt, so that the later prompt matches the resident
tokens as far as they go.

## Main definitions

* `VisionItem.bare`: an item before it gets its spans
* `Continues`: a later prompt that repeats a prompt and a reply
* `PreparedPromptData.recorded`: the identity of a prompt with generated tokens after it

## Main results

* `Prepared.assigned`: every prepared prompt has its positions from `assign_positions`
* `ResidentPrefixIdentity.appendGenerated_eq_ok`: what `append_generated` records
* `Continues.positions`, `Continues.prefixMatches`: **a later prompt matches**
-/

namespace Ninfer.Qwen

open PagedKV (int32Max)

/-! ## Every prompt has its positions from `assign_positions` -/

/-- The item without its spans. -/
def VisionItem.bare (item : VisionItem) : VisionItem := { item with tokenSpans := [] }

theorem spans_of_mem_map_bare {items : List VisionItem} :
    ∀ item ∈ items.map VisionItem.bare, item.tokenSpans = [] := by
  intro item hitem
  obtain ⟨other, -, rfl⟩ := List.mem_map.mp hitem
  rfl

theorem bare_of_spans_nil {item : VisionItem} (h : item.tokenSpans = []) : item.bare = item := by
  unfold VisionItem.bare
  rw [← h]

/-- The items that `assign_positions` returns are those it was given, with spans. -/
theorem map_bare_of_assignPositions {types : List Nat} {items items' : List VisionItem}
    {positions : List Position} {delta : Int} (hbare : ∀ item ∈ items, item.tokenSpans = [])
    (h : assignPositions types items = .ok (items', positions, delta)) :
    items'.map VisionItem.bare = items := by
  obtain ⟨a, ha, -, rfl, -, -⟩ := assignPositions_eq_ok.mp h
  have hgrown := assignRuns_grown (runs_pos types) ha
  apply List.ext_getElem?
  intro j
  rw [List.getElem?_map]
  cases hj : items[j]? with
  | none =>
    have hlen : items.length ≤ j := List.getElem?_eq_none_iff.mp hj
    rw [List.getElem?_eq_none (by rw [hgrown.length]; exact hlen), Option.map_none]
  | some item =>
    obtain ⟨extra, hextra, -⟩ := hgrown.items j item hj
    rw [hextra, Option.map_some]
    exact congrArg some (bare_of_spans_nil (hbare item (List.mem_of_getElem? hj)))

theorem runs_replicate (m count : Nat) :
    runs (List.replicate (count + 1) m) = [(m, count + 1)] := by
  induction count with
  | zero => rfl
  | succ count ih =>
    rw [List.replicate_succ, runs, ih]
    exact if_pos rfl

/-- A prompt without media has the positions that `assign_positions` gives it. -/
theorem assignPositions_replicate {count : Nat} (hc : 0 < count) :
    assignPositions (List.replicate count 0) [] = .ok ([], assignTextPositions count, 0) := by
  obtain ⟨k, rfl⟩ : ∃ k, count = k + 1 := ⟨count - 1, by omega⟩
  apply assignPositions_eq_ok.mpr
  have hinv := assignRun_inv (assignInv_init []) hc
    (show assignRun { items := [] } 0 (k + 1) = .ok _ by rfl)
  refine ⟨_, by rw [runs_replicate]; rfl, ?_, rfl, rfl, ?_⟩
  · intro item hitem
    cases hitem
  rw [List.nil_append] at hinv
  have hmax := hinv.maximum (by simp)
  dsimp only at hmax ⊢
  rw [hmax, List.length_replicate]
  omega

namespace Prepared

variable {p : PreparedPromptData}

/-- **Every prepared prompt has its positions from `assign_positions`.** -/
theorem assigned (h : Prepared p) (hs : 0 < p.size) :
    assignPositions p.tokenTypes (p.visionItems.map VisionItem.bare) =
      .ok (p.visionItems, p.positions, p.ropeDelta) := by
  cases h with
  | text types positions delta items payloads =>
    rw [types, positions, delta, items]
    exact assignPositions_replicate hs
  | media types items spans assigned =>
    rw [map_bare_of_assignPositions spans assigned]
    exact assigned

end Prepared

/-! ## Text after a prompt -/

/-- The positions of text after tokens: those after the ones there are. -/
theorem PlacedInv.text {types : List Nat} {a : Assigning} (h : PlacedInv types a) (count : Nat) :
    place (placed (types ++ List.replicate count 0) a.items) =
      a.positions ++ textRun a.current count := by
  have hplaced : placed (types ++ List.replicate count 0) a.items =
      placed types a.items ++ List.replicate count (0, ⟨0, 0, 0⟩) :=
    placed_append_replicate ⟨0, 0, 0⟩ (fun _ _ => rfl) fun hne => absurd rfl hne
  rw [hplaced, place, placeFrom_append, h.positions, place, ← h.current]
  congr 1
  cases cursorAfter none (placed types a.items) with
  | none =>
    have hfresh : Fresh none 0 := fun c hc => by cases hc
    rw [placeFrom_run hfresh]
    rfl
  | some c =>
    by_cases htype : c.type = 0
    · -- The last run is text and goes on.
      have hrun := placeFrom_replicate c ⟨0, 0, 0⟩ count
      rw [htype] at hrun
      rw [hrun]
      refine List.map_congr_left fun i _ => ?_
      unfold Cursor.position nextOf Cursor.next
      dsimp only
      rw [if_pos rfl, if_pos htype]
      congr 1
      push_cast
      omega
    · have hfresh : Fresh (some c) 0 := by
        intro c' hc'
        cases hc'
        exact htype
      rw [placeFrom_run hfresh]
      rfl

namespace ResidentPrefixIdentity

/-- What `append_generated` has recorded when it returns. -/
theorem appendGenerated_eq_ok {ropeDelta : Int} {count : Nat}
    {identity identity' : ResidentPrefixIdentity}
    (h : identity.appendGenerated ropeDelta count = .ok identity') :
    identity' = ⟨identity.tokenTypes ++ List.replicate count 0,
      identity.positions ++ generatedPositions identity.size ropeDelta count,
      identity.visionItems⟩ := by
  induction count generalizing identity with
  | zero =>
    cases h
    simp [generatedPositions]
  | succ count ih =>
    have hsize : (identity.push (identity.size + ropeDelta)).size = identity.size + 1 := by
      simp [push, size]
    unfold appendGenerated at h
    split_ifs at h
    rw [ih h, hsize]
    simp [push, generatedPositions_succ, List.replicate_succ]

end ResidentPrefixIdentity

/-- The identity that a prompt leaves with `count` generated tokens after it. -/
def PreparedPromptData.recorded (p : PreparedPromptData) (count : Nat) : ResidentPrefixIdentity where
  tokenTypes := p.tokenTypes ++ List.replicate count 0
  positions := p.positions ++ ResidentPrefixIdentity.generatedPositions p.size p.ropeDelta count
  visionItems := p.visionItems

theorem generatedPositions_add (size : Nat) (ropeDelta : Int) (m n : Nat) :
    ResidentPrefixIdentity.generatedPositions size ropeDelta (m + n) =
      ResidentPrefixIdentity.generatedPositions size ropeDelta m ++
        ResidentPrefixIdentity.generatedPositions (size + m) ropeDelta n := by
  unfold ResidentPrefixIdentity.generatedPositions
  rw [List.range_add, List.map_append, List.map_map]
  congr 1
  refine List.map_congr_left fun k _ => ?_
  simp only [Function.comp_apply]
  congr 1
  push_cast
  omega

/-- Generated tokens after generated tokens. -/
theorem PreparedPromptData.recorded_append (p : PreparedPromptData) (k count : Nat) :
    (⟨(p.recorded k).tokenTypes ++ List.replicate count 0, (p.recorded k).positions ++
      ResidentPrefixIdentity.generatedPositions (p.size + k) p.ropeDelta count,
      (p.recorded k).visionItems⟩ : ResidentPrefixIdentity) = p.recorded (k + count) := by
  unfold PreparedPromptData.recorded
  dsimp only
  rw [List.append_assoc, List.append_assoc, ← generatedPositions_add,
    List.replicate_append_replicate]

namespace Prepared

variable {p : PreparedPromptData}

/-- The positions recorded for generated tokens follow the largest position of the prompt. -/
theorem recorded_positions (h : Prepared p) (hs : 0 < p.size) {maximum : Int}
    (hmax : IsGreatest (coordinates p.positions) maximum) (count : Nat) :
    (p.recorded count).positions = p.positions ++
      (List.range count).map fun (k : Nat) => Position.same (maximum + 1 + k) := by
  have hdelta := assignPositions_delta (h.types_ne_nil hs) (h.assigned hs)
  have heq : maximum = p.ropeDelta + p.size - 1 := by
    rw [hmax.unique hdelta, h.types_length]
  unfold PreparedPromptData.recorded ResidentPrefixIdentity.generatedPositions
  refine congrArg (p.positions ++ ·) (List.map_congr_left fun k _ => ?_)
  congr 1
  omega

end Prepared

/-! ## A frontier between items -/

/-- Items that start at or after the frontier are not counted. -/
theorem prefixItemCount_of_after {items : List VisionItem} {tokens count : Nat} {sawSuffix : Bool}
    (h : ∀ item ∈ items, item.tokenSpans ≠ [] ∧
      ∀ span ∈ item.tokenSpans, tokens ≤ span.start ∧ 0 < span.count) :
    prefixItemCount tokens sawSuffix count items = some count := by
  induction items generalizing sawSuffix with
  | nil => rfl
  | cons item items ih =>
    obtain ⟨hne, hspans⟩ := h item (List.mem_cons_self ..)
    have ih' := @ih true fun other hother => h other (List.mem_cons_of_mem _ hother)
    obtain ⟨first, hfirst⟩ := Option.isSome_iff_exists.mp (List.isSome_head?.mpr hne)
    obtain ⟨last, hlast⟩ := Option.isSome_iff_exists.mp (List.getLast?_isSome.mpr hne)
    obtain ⟨hfle, hfpos⟩ := hspans first (List.mem_of_head? hfirst)
    obtain ⟨hlle, hlpos⟩ := hspans last (List.mem_of_getLast? hlast)
    have hstop : ¬last.stop ≤ tokens := by
      unfold TokenSpan.stop
      omega
    unfold prefixItemCount
    rw [hfirst, hlast]
    dsimp only
    rw [if_neg (by omega), if_neg hstop, if_pos hfle, ih']

/-- Items that end at or before the frontier are counted. -/
theorem prefixItemCount_append {items rest : List VisionItem} {tokens count : Nat}
    (h : ∀ item ∈ items, item.tokenSpans ≠ [] ∧
      ∀ span ∈ item.tokenSpans, 0 < span.count ∧ span.stop ≤ tokens)
    (hrest : ∀ item ∈ rest, item.tokenSpans ≠ [] ∧
      ∀ span ∈ item.tokenSpans, tokens ≤ span.start ∧ 0 < span.count) :
    prefixItemCount tokens false count (items ++ rest) = some (count + items.length) := by
  induction items generalizing count with
  | nil => exact prefixItemCount_of_after hrest
  | cons item items ih =>
    obtain ⟨hne, hspans⟩ := h item (List.mem_cons_self ..)
    have ih' := @ih (count + 1) fun other hother => h other (List.mem_cons_of_mem _ hother)
    obtain ⟨first, hfirst⟩ := Option.isSome_iff_exists.mp (List.isSome_head?.mpr hne)
    obtain ⟨last, hlast⟩ := Option.isSome_iff_exists.mp (List.getLast?_isSome.mpr hne)
    have hfpos := (hspans first (List.mem_of_head? hfirst)).1
    obtain ⟨hlpos, hstop⟩ := hspans last (List.mem_of_getLast? hlast)
    rw [List.cons_append]
    unfold prefixItemCount
    rw [hfirst, hlast]
    dsimp only
    rw [if_neg (by omega), if_pos hstop, if_neg Bool.false_ne_true, ih', List.length_cons]
    congr 1
    omega

/-- The items of a prompt have spans, each of some tokens of the prompt. -/
theorem Prepared.spans {p : PreparedPromptData} (h : Prepared p) (hs : 0 < p.size)
    (hgrids : ∀ item ∈ p.visionItems, 0 < item.grid.temporal) :
    ∀ item ∈ p.visionItems, item.tokenSpans ≠ [] ∧
      ∀ span ∈ item.tokenSpans, 0 < span.count ∧ span.stop ≤ p.size := by
  intro item hitem
  have hassigned := h.assigned hs
  obtain ⟨a, hplaced, -, hitems, -⟩ := assignPositions_placed spans_of_mem_map_bare hassigned
  obtain ⟨b, hb, hcount, hitems', -⟩ := assignPositions_eq_ok.mp hassigned
  have hgrown := assignRuns_grown (runs_pos p.tokenTypes) hb
  refine ⟨fun hnil => ?_, fun span hspan => ⟨?_, ?_⟩⟩
  · have hlen := hcount item (hitems' ▸ hitem)
    have hpos := hgrids item hitem
    unfold VisionItem.runCount at hlen
    rw [hnil, List.length_nil] at hlen
    split_ifs at hlen
    omega
  · obtain ⟨j, hj⟩ := List.mem_iff_getElem?.mp (hitems' ▸ hitem)
    have hlt := (List.getElem?_eq_some_iff.mp hj).1
    rw [hgrown.length] at hlt
    obtain ⟨extra, hextra, hspans⟩ := hgrown.items j _ (List.getElem?_eq_getElem hlt)
    cases Option.some.inj (hj.symm.trans hextra)
    rw [spans_of_mem_map_bare _ (List.getElem_mem hlt), List.nil_append] at hspan
    exact (hspans span hspan).2
  · rw [← h.types_length]
    exact hplaced.within item (hitems ▸ hitem) span hspan

/-! ## A later prompt -/

/-- A later prompt that repeats a prompt and a reply: its tokens begin with theirs, those of the
reply are text in it, and its items begin with the items of the prompt. -/
structure Continues (p : PreparedPromptData) (reply : List TokenId) (q : PreparedPromptData) :
    Prop where
  tokens : ∃ rest, q.tokenIds = p.tokenIds ++ reply ++ rest
  types : ∃ rest, q.tokenTypes = p.tokenTypes ++ List.replicate reply.length 0 ++ rest
  items : ∃ more, q.visionItems.map VisionItem.bare = p.visionItems.map VisionItem.bare ++ more

namespace Continues

variable {p q : PreparedPromptData} {reply : List TokenId}

theorem size_le (h : Continues p reply q) : p.size + reply.length ≤ q.size := by
  obtain ⟨rest, hrest⟩ := h.tokens
  rw [PreparedPromptData.size, PreparedPromptData.size, hrest, List.length_append,
    List.length_append]
  omega

/-- The later prompt has the items of the prompt with their spans, and its other items after the
reply. -/
theorem visionItems (h : Continues p reply q) (hp : Prepared p) (hq : Prepared q)
    (hs : 0 < p.size) :
    ∃ rest, q.visionItems = p.visionItems ++ rest ∧ ∀ item ∈ rest, ∀ span ∈ item.tokenSpans,
      p.size + reply.length ≤ span.start ∧ 0 < span.count := by
  obtain ⟨types, htypes⟩ := h.types
  obtain ⟨more, hmore⟩ := h.items
  have hqs : 0 < q.size := Nat.lt_of_lt_of_le hs (Nat.le_trans (Nat.le_add_right ..) h.size_le)
  have hassigned := hq.assigned hqs
  rw [htypes, List.append_assoc, hmore] at hassigned
  have hbare : ∀ item ∈ more, item.tokenSpans = [] :=
    fun item hitem => spans_of_mem_map_bare item (hmore ▸ List.mem_append_right _ hitem)
  obtain ⟨rest, hrest, hafter⟩ :=
    assignPositions_append (hp.types_ne_nil hs) hbare (hp.assigned hs) hassigned
  refine ⟨rest, hrest, fun item hitem span hspan => ?_⟩
  obtain ⟨hle, hcount⟩ := hafter item hitem span hspan
  refine ⟨?_, hcount⟩
  -- The span lies on visual tokens, and the reply is text.
  obtain ⟨a, hplaced, -, hitems, -⟩ :=
    assignPositions_placed spans_of_mem_map_bare (hq.assigned hqs)
  have hmem : item ∈ a.items := by
    rw [hitems, hrest]
    exact List.mem_append_right _ hitem
  have hvisual := hplaced.visual item hmem span hspan span.start (Nat.le_refl _)
    (Nat.lt_add_of_pos_right hcount)
  rw [hp.types_length] at hle
  by_contra hlt
  refine hvisual ?_
  rw [htypes, List.append_assoc, List.getD_append_right _ _ _ _ (by rw [hp.types_length]; exact hle),
    List.getD_append _ _ _ _ (by rw [hp.types_length, List.length_replicate]; omega)]
  exact List.getD_replicate _ (by rw [hp.types_length]; omega)

/-- **The later prompt gives the reply the positions recorded for it.** -/
theorem positions (h : Continues p reply q) (hp : Prepared p) (hq : Prepared q) (hs : 0 < p.size) :
    q.positions.take (p.size + reply.length) = (p.recorded reply.length).positions := by
  obtain ⟨types, htypes⟩ := h.types
  obtain ⟨rest, hrest, hafter⟩ := h.visionItems hp hq hs
  have hqs : 0 < q.size := Nat.lt_of_lt_of_le hs (Nat.le_trans (Nat.le_add_right ..) h.size_le)
  obtain ⟨a, hplaced, hinv, hitems, hpos, hdelta⟩ :=
    assignPositions_placed spans_of_mem_map_bare (hp.assigned hs)
  have hlen : (p.tokenTypes ++ List.replicate reply.length 0).length = p.size + reply.length := by
    rw [List.length_append, hp.types_length, List.length_replicate]
  -- No later item is behind a token of the prompt or of the reply.
  have hgrid (i : Nat) (hi : i < p.size + reply.length) :
      gridAt q.visionItems i = gridAt p.visionItems i := by
    have hnone : rest.find? (fun item => decide (i ∈ item.scatterIndices)) = none := by
      rw [List.find?_eq_none]
      intro item hitem hmem
      obtain ⟨span, hspan, hle, -⟩ := mem_scatterIndices.mp (of_decide_eq_true hmem)
      have := (hafter item hitem span hspan).1
      omega
    unfold gridAt
    rw [hrest, List.find?_append, hnone, Option.or_none]
  have htake : (placed q.tokenTypes q.visionItems).take (p.size + reply.length) =
      placed (p.tokenTypes ++ List.replicate reply.length 0) a.items := by
    unfold placed
    rw [← List.map_take, List.take_range, hq.types_length, Nat.min_eq_left h.size_le, hlen]
    refine List.map_congr_left fun i hi => ?_
    have hlt := List.mem_range.mp hi
    unfold placedAt
    rw [htypes, List.getD_append _ _ _ _ (by rw [hlen]; exact hlt), hgrid i hlt, hitems]
  have hcurrent : a.current = p.size + p.ropeDelta := by
    have := hinv.maximum (hp.types_ne_nil hs)
    rw [hdelta, hp.types_length]
    omega
  rw [assignPositions_place spans_of_mem_map_bare (hq.assigned hqs), take_place, htake,
    hplaced.text, hpos, hcurrent]
  unfold PreparedPromptData.recorded textRun ResidentPrefixIdentity.generatedPositions
  refine congrArg (p.positions ++ ·) (List.map_congr_left fun k _ => ?_)
  congr 1
  omega

/-- **A later prompt matches** the tokens of a prompt and its reply as far as they go. -/
theorem prefixMatches (h : Continues p reply q) (hp : Prepared p) (hq : Prepared q)
    (hs : 0 < p.size) (hgrids : ∀ item ∈ q.visionItems, 0 < item.grid.temporal) :
    prefixMatches q (p.tokenIds ++ reply) (p.recorded reply.length) (p.size + reply.length) =
      true := by
  obtain ⟨tokens, htokens⟩ := h.tokens
  obtain ⟨types, htypes⟩ := h.types
  obtain ⟨rest, hrest, hafter⟩ := h.visionItems hp hq hs
  have hsize := h.size_le
  have hledger : (p.tokenIds ++ reply).length = p.size + reply.length := List.length_append
  have hrecorded : (p.recorded reply.length).size = p.size + reply.length := by
    unfold ResidentPrefixIdentity.size PreparedPromptData.recorded
    rw [List.length_append, hp.types_length, List.length_replicate]
  have hpositions := h.positions hp hq hs
  have hmine : ∀ item ∈ p.visionItems, item.tokenSpans ≠ [] ∧
      ∀ span ∈ item.tokenSpans, 0 < span.count ∧ span.stop ≤ p.size + reply.length := by
    intro item hitem
    have hmem : item ∈ q.visionItems := hrest ▸ List.mem_append_left _ hitem
    obtain ⟨hne, hspans⟩ := hp.spans hs (fun i hi => hgrids i (hrest ▸ List.mem_append_left _ hi))
      item hitem
    exact ⟨hne, fun span hspan => ⟨(hspans span hspan).1,
      (hspans span hspan).2.trans (Nat.le_add_right ..)⟩⟩
  have hqs : 0 < q.size := by omega
  have hlater : ∀ item ∈ rest, item.tokenSpans ≠ [] ∧
      ∀ span ∈ item.tokenSpans, p.size + reply.length ≤ span.start ∧ 0 < span.count := fun item hitem =>
    ⟨(hq.spans hqs hgrids item (hrest ▸ List.mem_append_right _ hitem)).1, hafter item hitem⟩
  have hin : prefixItemCount _ false 0 (p.visionItems ++ rest) = _ :=
    prefixItemCount_append hmine hlater
  have hres : prefixItemCount _ false 0 (p.visionItems ++ []) = _ :=
    prefixItemCount_append hmine nofun
  rw [List.append_nil] at hres
  rw [← hrest] at hin
  unfold Qwen.prefixMatches
  rw [if_neg (by rw [hledger]; omega), Bool.and_eq_true, decide_eq_true_iff]
  refine ⟨?_, ?_⟩
  · rw [htokens, ← hledger, List.take_length, List.take_left']
    rfl
  · unfold ResidentPrefixIdentity.matchesPrompt
    rw [if_neg, if_neg, if_neg]
    · have hitems : (p.recorded reply.length).visionItems = p.visionItems := rfl
      rw [hin, hitems, hres]
      dsimp only
      rw [Bool.and_eq_true, List.all_eq_true, Nat.zero_add, hrest, List.take_left', List.take_length]
      · refine ⟨beq_self_eq_true _, fun pair hpair => ?_⟩
        obtain ⟨i, hi, rfl⟩ := List.mem_iff_getElem.mp hpair
        rw [List.getElem_zip]
        exact sameItem_iff.mpr rfl
      · rfl
    · rw [not_not, hpositions, List.take_of_length_le]
      rw [← hpositions, List.length_take]
      exact Nat.min_le_left ..
    · rw [not_not, htypes, ← hrecorded, ResidentPrefixIdentity.size, List.take_length]
      exact List.take_left' rfl
    · rw [hrecorded, hq.types_length, hq.positions_length]
      omega

end Continues

end Ninfer.Qwen
