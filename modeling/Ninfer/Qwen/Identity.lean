import Ninfer.Qwen.Prompt
import Ninfer.PagedKV.Pool

/-!
# Identity of a resident prefix

`runtime/prefix_identity.cpp`: beside its tokens a lane keeps the modality and position of each and
the media items behind them, and a new prompt may continue the lane only where all of them agree. A
token together with these is an `Entry`: everything the model is given for it. What the checks are
for is that a matching prefix is a prefix of equal entries.

## Main definitions

* `ResidentPrefixIdentity` with `assign`, `appendGenerated`, `matchesPrompt`
* `prefixMatches`: the check of the planner
* `Entry`, `entriesOf`: what the model is given for each token
* `WellPlaced`: media items in order, inside the prompt

## Main results

* `prefixItemCount_spec`: a frontier that divides no item splits the items
* `prefixMatches_entries`: **a matching prefix is a prefix of equal entries**
-/

namespace Ninfer.Qwen

open PagedKV (int32Max)

/-- `same_grid`. -/
def sameGrid (left right : VisionGrid) : Bool :=
  left.temporal == right.temporal && left.height == right.height && left.width == right.width

/-- `same_spans`. -/
def sameSpans (left right : List TokenSpan) : Bool :=
  left.length == right.length &&
    (left.zip right).all fun (a, b) => a.start == b.start && a.count == b.count

/-- `same_item`. -/
def sameItem (left right : VisionItem) : Bool :=
  decide (left.modality = right.modality) && sameGrid left.grid right.grid &&
    left.patchBegin == right.patchBegin && left.patchCount == right.patchCount &&
    decide (left.contentDigest = right.contentDigest) &&
    decide (left.timestamps = right.timestamps) && sameSpans left.tokenSpans right.tokenSpans

/-- `prefix_item_count`: the number of items before the frontier, unless the frontier divides an
item. Token indices are far below the range of `size_t`, so that the end of a span does not
overflow. -/
def prefixItemCount (tokens : Nat) (sawSuffix : Bool) (count : Nat) :
    List VisionItem → Option Nat
  | [] => some count
  | item :: items =>
    match item.tokenSpans.head?, item.tokenSpans.getLast? with
    | some first, some last =>
      if first.count = 0 ∨ last.count = 0 then none
      else if last.stop ≤ tokens then
        if sawSuffix then none else prefixItemCount tokens sawSuffix (count + 1) items
      else if tokens ≤ first.start then prefixItemCount tokens true count items
      -- A reusable frontier may not divide the consumers of one item.
      else none
    | _, _ => none

/-- `ResidentPrefixIdentity`. -/
structure ResidentPrefixIdentity where
  tokenTypes : List Nat := []
  positions : List Position := []
  visionItems : List VisionItem := []
  deriving DecidableEq, Repr

namespace ResidentPrefixIdentity

variable (identity : ResidentPrefixIdentity)

/-- `size`. -/
abbrev size : Nat := identity.tokenTypes.length

/-- `assign`. -/
def assign (prompt : PreparedPromptData) : Except Exception ResidentPrefixIdentity :=
  if prompt.tokenTypes.length ≠ prompt.size ∨ prompt.positions.length ≠ prompt.size then
    .error (.invalidArgument "prepared prompt identity metadata has an invalid shape")
  else .ok ⟨prompt.tokenTypes, prompt.positions, prompt.visionItems⟩

/-- The identity with one more text token at the given position. -/
def push (position : Int) : ResidentPrefixIdentity :=
  { identity with
    tokenTypes := identity.tokenTypes ++ [0]
    positions := identity.positions ++ [.same position] }

/-- `append_generated`. -/
def appendGenerated (identity : ResidentPrefixIdentity) (ropeDelta : Int) :
    Nat → Except Exception ResidentPrefixIdentity
  | 0 => .ok identity
  | count + 1 =>
    if int32Max < identity.size then
      .error (.overflowError "generated prefix position exceeds int32")
    else if identity.size + ropeDelta < -(int32Max + 1) ∨ int32Max < identity.size + ropeDelta then
      .error (.overflowError "generated MRoPE position exceeds int32")
    else appendGenerated (identity.push (identity.size + ropeDelta)) ropeDelta count

/-- `matches`. -/
def matchesPrompt (prompt : PreparedPromptData) (count : Nat) : Bool :=
  if prompt.size < count ∨ identity.size < count ∨ prompt.tokenTypes.length ≠ prompt.size ∨
      prompt.positions.length ≠ prompt.size then false
  else if prompt.tokenTypes.take count ≠ identity.tokenTypes.take count then false
  else if prompt.positions.take count ≠ identity.positions.take count then false
  else
    match prefixItemCount count false 0 prompt.visionItems,
      prefixItemCount count false 0 identity.visionItems with
    | some incoming, some resident =>
      incoming == resident &&
        ((prompt.visionItems.take incoming).zip (identity.visionItems.take incoming)).all
          fun (a, b) => sameItem a b
    | _, _ => false

/-- The positions of generated tokens after `size` tokens. -/
def generatedPositions (size : Nat) (ropeDelta : Int) (count : Nat) : List Position :=
  (List.range count).map fun (k : Nat) => .same (size + k + ropeDelta)

theorem generatedPositions_succ (size : Nat) (ropeDelta : Int) (count : Nat) :
    generatedPositions size ropeDelta (count + 1) =
      .same (size + ropeDelta) :: generatedPositions (size + 1) ropeDelta count := by
  unfold generatedPositions
  rw [List.range_succ_eq_map, List.map_cons, List.map_map]
  refine List.cons_eq_cons.mpr ⟨by simp, List.map_congr_left fun k _ => ?_⟩
  simp only [Function.comp_apply]
  congr 1
  push_cast
  omega

/-- **`append_generated`** appends text tokens at the positions after the resident ones, as long as
these stay in range. -/
theorem appendGenerated_spec {ropeDelta : Int} (hlow : -262144 ≤ ropeDelta) (hhigh : ropeDelta ≤ 0) :
    ∀ (count : Nat) (identity : ResidentPrefixIdentity), identity.size + count ≤ 1048576 →
      identity.appendGenerated ropeDelta count = .ok
        ⟨identity.tokenTypes ++ List.replicate count 0,
          identity.positions ++ generatedPositions identity.size ropeDelta count,
          identity.visionItems⟩
  | 0, identity, _ => by simp [appendGenerated, generatedPositions]
  | count + 1, identity, hle => by
    have hsize : (identity.push (identity.size + ropeDelta)).size = identity.size + 1 := by
      simp [push, size]
    rw [appendGenerated, if_neg, if_neg]
    · rw [appendGenerated_spec hlow hhigh count _ (by omega), hsize]
      simp [push, generatedPositions_succ, List.replicate_succ]
    · unfold PagedKV.int32Max
      omega
    · unfold PagedKV.int32Max
      omega

end ResidentPrefixIdentity

/-- `prefix_matches`. -/
def prefixMatches (prompt : PreparedPromptData) (residentTokens : List TokenId)
    (identity : ResidentPrefixIdentity) (count : Nat) : Bool :=
  if prompt.size < count ∨ residentTokens.length < count then false
  else decide (prompt.tokenIds.take count = residentTokens.take count) &&
    identity.matchesPrompt prompt count

/-! ## Entries -/

/-- The token indices an item's embeddings are scattered to, in the order of its columns. -/
def VisionItem.scatterIndices (item : VisionItem) : List Nat :=
  item.tokenSpans.flatMap fun span => List.range' span.start span.count

/-- The item behind the token at `i`, with the column of its embedding. -/
def itemAt (items : List VisionItem) (i : Nat) : Option (VisionItem × Nat) :=
  (items.find? fun item => decide (i ∈ item.scatterIndices)).map fun item =>
    (item, item.scatterIndices.idxOf i)

/-- What the model is given for one token. -/
structure Entry where
  token : TokenId
  type : Nat
  position : Position
  item : Option (VisionItem × Nat)
  deriving DecidableEq, Repr

/-- The entry of the token at `i`. -/
def entryAt (tokens : List TokenId) (types : List Nat) (positions : List Position)
    (items : List VisionItem) (i : Nat) : Entry where
  token := tokens.getD i 0
  type := types.getD i 0
  position := positions.getD i (.same 0)
  item := itemAt items i

/-- The entries of a sequence of tokens. -/
def entriesOf (tokens : List TokenId) (types : List Nat) (positions : List Position)
    (items : List VisionItem) : List Entry :=
  (List.range tokens.length).map (entryAt tokens types positions items)

/-- The entries of a prompt. -/
def PreparedPromptData.entries (p : PreparedPromptData) : List Entry :=
  entriesOf p.tokenIds p.tokenTypes p.positions p.visionItems

/-- The entries of resident tokens. -/
def ResidentPrefixIdentity.entries (identity : ResidentPrefixIdentity) (ledger : List TokenId) :
    List Entry :=
  entriesOf ledger identity.tokenTypes identity.positions identity.visionItems

theorem take_entriesOf {tokens : List TokenId} {types : List Nat} {positions : List Position}
    {items : List VisionItem} {count : Nat} (h : count ≤ tokens.length) :
    (entriesOf tokens types positions items).take count =
      (List.range count).map (entryAt tokens types positions items) := by
  rw [entriesOf, ← List.map_take, List.take_range, Nat.min_eq_left h]

/-- Media items in order, not overlapping, inside the first `size` tokens: what
`build_vision_control` checks. -/
structure WellPlaced (items : List VisionItem) (size : Nat) : Prop where
  nonempty : ∀ item ∈ items, item.tokenSpans ≠ []
  positive : ∀ item ∈ items, ∀ span ∈ item.tokenSpans, 0 < span.count
  ordered : (items.flatMap (·.tokenSpans)).Pairwise fun a b => a.stop ≤ b.start
  inside : ∀ item ∈ items, ∀ span ∈ item.tokenSpans, span.stop ≤ size

theorem wellPlaced_nil (size : Nat) : WellPlaced [] size where
  nonempty := by simp
  positive := by simp
  ordered := by simp
  inside := by simp

theorem WellPlaced.mono {items : List VisionItem} {m n : Nat} (h : WellPlaced items m)
    (hmn : m ≤ n) : WellPlaced items n :=
  { h with inside := fun item hi span hs => (h.inside item hi span hs).trans hmn }

theorem mem_scatterIndices {item : VisionItem} {i : Nat} :
    i ∈ item.scatterIndices ↔ ∃ span ∈ item.tokenSpans, span.start ≤ i ∧ i < span.stop := by
  simp only [VisionItem.scatterIndices, List.mem_flatMap, List.mem_range'_1, TokenSpan.stop]

/-- The spans of one item are in order. -/
theorem WellPlaced.item_ordered {items : List VisionItem} {size : Nat} (h : WellPlaced items size)
    {item : VisionItem} (hi : item ∈ items) :
    item.tokenSpans.Pairwise fun a b => a.stop ≤ b.start :=
  (List.pairwise_flatMap.mp h.ordered).1 item hi

/-- Every token of an item is at or after the start of its first span. -/
theorem WellPlaced.first_le {items : List VisionItem} {size : Nat} (h : WellPlaced items size)
    {item : VisionItem} (hi : item ∈ items) {first : TokenSpan}
    (hf : item.tokenSpans.head? = some first) {i : Nat} (hm : i ∈ item.scatterIndices) :
    first.start ≤ i := by
  obtain ⟨span, hs, hle, -⟩ := mem_scatterIndices.mp hm
  have hord := h.item_ordered hi
  cases hl : item.tokenSpans with
  | nil => simp [hl] at hf
  | cons x xs =>
    rw [hl] at hf hord hs
    cases hf
    rcases List.mem_cons.mp hs with rfl | hs
    · exact hle
    · have := (List.pairwise_cons.mp hord).1 span hs
      unfold TokenSpan.stop at this
      omega

/-! ## What a match says -/

theorem sameItem_iff {left right : VisionItem} : sameItem left right = true ↔ left = right := by
  have spans : ∀ {a b : List TokenSpan}, sameSpans a b = true ↔ a = b := by
    intro a
    induction a with
    | nil =>
      intro b
      cases b <;> simp [sameSpans]
    | cons x xs ih =>
      intro b
      cases b with
      | nil => simp [sameSpans]
      | cons y ys =>
        have := ih (b := ys)
        cases x
        cases y
        simp only [sameSpans, List.length_cons, List.zip_cons_cons, List.all_cons,
          Bool.and_eq_true, beq_iff_eq, List.cons.injEq, TokenSpan.mk.injEq, Nat.add_right_cancel_iff]
          at this ⊢
        constructor
        · rintro ⟨hl, hxy, hrest⟩
          exact ⟨hxy, this.mp ⟨hl, hrest⟩⟩
        · rintro ⟨hxy, hrest⟩
          exact ⟨(this.mpr hrest).1, hxy, (this.mpr hrest).2⟩
  obtain ⟨lm, ⟨lt, lh, lw⟩, lb, lc, ld, lts, ls⟩ := left
  obtain ⟨rm, ⟨rt, rh, rw'⟩, rb, rc, rd, rts, rs⟩ := right
  simp only [sameItem, sameGrid, Bool.and_eq_true, decide_eq_true_eq, beq_iff_eq, spans,
    VisionItem.mk.injEq, VisionGrid.mk.injEq, and_assoc]

theorem zip_all_sameItem : ∀ {a b : List VisionItem}, a.length = b.length →
    (a.zip b).all (fun x => sameItem x.1 x.2) = true → a = b
  | [], [], _, _ => rfl
  | x :: xs, y :: ys, hl, h => by
    simp only [List.zip_cons_cons, List.all_cons, Bool.and_eq_true] at h
    rw [sameItem_iff.mp h.1, zip_all_sameItem (by simpa using hl) h.2]

/-- An item before the frontier. -/
def Before (tokens : Nat) (item : VisionItem) : Prop :=
  ∃ last, item.tokenSpans.getLast? = some last ∧ last.stop ≤ tokens

/-- An item at or after the frontier. -/
def After (tokens : Nat) (item : VisionItem) : Prop :=
  ∃ first, item.tokenSpans.head? = some first ∧ tokens ≤ first.start

/-- **A frontier that divides no item** splits the items: those counted are before it, the others
after. -/
theorem prefixItemCount_spec {tokens : Nat} : ∀ {items : List VisionItem} {sawSuffix : Bool}
    {count k : Nat}, prefixItemCount tokens sawSuffix count items = some k →
    ∃ j, k = count + j ∧ j ≤ items.length ∧ (sawSuffix = true → j = 0) ∧
      (∀ item ∈ items.take j, Before tokens item) ∧ ∀ item ∈ items.drop j, After tokens item
  | [], sawSuffix, count, k, h => by
    cases h
    exact ⟨0, rfl, Nat.le_refl _, fun _ => rfl, by simp, by simp⟩
  | item :: items, sawSuffix, count, k, h => by
    unfold prefixItemCount at h
    cases hf : item.tokenSpans.head? with
    | none => simp [hf] at h
    | some first =>
      cases hl : item.tokenSpans.getLast? with
      | none => simp [hl] at h
      | some last =>
        simp only [hf, hl] at h
        split_ifs at h with h₀ h₁ h₂ h₃
        · obtain ⟨j, rfl, hj, hsaw, hbefore, hafter⟩ := prefixItemCount_spec h
          refine ⟨j + 1, by omega, by simpa using hj, fun hs => absurd hs h₂, ?_, by simpa using hafter⟩
          intro x hx
          rcases List.mem_cons.mp hx with rfl | hx
          · exact ⟨last, hl, h₁⟩
          · exact hbefore x hx
        · obtain ⟨j, rfl, hj, hsaw, hbefore, hafter⟩ := prefixItemCount_spec h
          obtain rfl := hsaw rfl
          refine ⟨0, rfl, Nat.zero_le _, fun _ => rfl, by simp, ?_⟩
          intro x hx
          rcases List.mem_cons.mp hx with rfl | hx
          · exact ⟨first, hf, h₃⟩
          · exact hafter x (by simpa using hx)

/-- Items after the frontier are not behind tokens before it. -/
theorem itemAt_take {items : List VisionItem} {size tokens j i : Nat} (hw : WellPlaced items size)
    (hafter : ∀ item ∈ items.drop j, After tokens item) (hi : i < tokens) :
    itemAt items i = itemAt (items.take j) i := by
  have hnone : (items.drop j).find? (fun item => decide (i ∈ item.scatterIndices)) = none := by
    rw [List.find?_eq_none]
    intro item hm
    obtain ⟨first, hf, hle⟩ := hafter item hm
    have := fun h => hw.first_le (List.mem_of_mem_drop hm) hf (i := i) h
    simp only [decide_eq_true_eq]
    intro h
    have := this h
    omega
  unfold itemAt
  conv_lhs => rw [← List.take_append_drop j items, List.find?_append, hnone, Option.or_none]

/-- **A matching prefix is a prefix of equal entries.** -/
theorem prefixMatches_entries {p : PreparedPromptData} {ledger : List TokenId}
    {identity : ResidentPrefixIdentity} {count m n : Nat} (hp : WellPlaced p.visionItems m)
    (hr : WellPlaced identity.visionItems n)
    (h : prefixMatches p ledger identity count = true) :
    count ≤ p.size ∧ count ≤ ledger.length ∧ count ≤ identity.size ∧
      p.entries.take count = (identity.entries ledger).take count := by
  unfold prefixMatches at h
  split_ifs at h with hlen
  obtain ⟨hcp, hcl⟩ := not_or.mp hlen
  rw [Bool.and_eq_true, decide_eq_true_eq] at h
  obtain ⟨htok, h⟩ := h
  unfold ResidentPrefixIdentity.matchesPrompt at h
  split_ifs at h with hshape htypes hpos
  rw [not_not] at htypes hpos
  have hci : count ≤ identity.size := by omega
  refine ⟨by omega, by omega, hci, ?_⟩
  split at h
  next incoming resident hin hres =>
    rw [Bool.and_eq_true, beq_iff_eq] at h
    obtain ⟨rfl, hall⟩ := h
    obtain ⟨j, hj, hjle, -, -, hafter⟩ := prefixItemCount_spec hin
    obtain ⟨j', hj', hjle', -, -, hafter'⟩ := prefixItemCount_spec hres
    rw [Nat.zero_add] at hj hj'
    subst hj
    subst hj'
    have hitems : p.visionItems.take incoming = identity.visionItems.take incoming :=
      zip_all_sameItem (by simp; omega) hall
    unfold PreparedPromptData.entries ResidentPrefixIdentity.entries
    rw [take_entriesOf (Nat.not_lt.mp hcp), take_entriesOf (Nat.not_lt.mp hcl)]
    refine List.map_congr_left fun i hi => ?_
    have hi : i < count := List.mem_range.mp hi
    have getD_take : ∀ {α : Type} (xs ys : List α) (d : α), xs.take count = ys.take count →
        xs.getD i d = ys.getD i d := by
      intro α xs ys d hxy
      have := congrArg (fun l : List α => l[i]?) hxy
      simp only [List.getElem?_take, hi, if_true] at this
      rw [List.getD_eq_getElem?_getD, List.getD_eq_getElem?_getD, this]
    simp only [entryAt, Entry.mk.injEq]
    refine ⟨getD_take _ _ _ htok, getD_take _ _ _ htypes, getD_take _ _ _ hpos, ?_⟩
    rw [itemAt_take hp hafter hi, itemAt_take hr hafter' hi, hitems]
  next => cases h

end Ninfer.Qwen
