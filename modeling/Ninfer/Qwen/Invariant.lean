import Ninfer.Qwen.Program

/-!
# The states of a lane

The executor issues its calls by what it knows of a lane: whether a request is prefilled, waits for
the decision on its first token, or is decoded, and how many tokens it may still produce. This
module says what the program keeps of a lane in each of these phases. The statements about the
device are in `Ninfer.Qwen.Resident`.

## Main definitions

* `Fits`: the pages reserved for a request are enough for a number of tokens
* `Bound`, `Resting`: the allocations of a lane that runs a request, and of a retained one
* `EmptyLane`, `CompleteLane`, `PrefillingLane`, `StartLane`, `ActiveLane`, `OrdinaryLane`,
  `SpeculativeLane`: a lane in each state
* `LaneInv`: a lane in the state that the executor knows it to be in

## Main results

* `Fits.mono`, `Fits.countable`
* `LaneInv.frame`: what is done to another lane does not concern a lane
-/

namespace Ninfer.Qwen

open PagedKV

variable {n : Nat} (cfg : Config n)

/-! ## Pages -/

/-- The pages reserved for a request are enough for `tokens` tokens. -/
structure Fits (reserved : Cache → Nat) (tokens : Nat) : Prop where
  capacity : tokens ≤ cfg.capacity
  text : pagesForTokens tokens ≤ reserved .text
  backend : pagesForTokens (reservedBackendTokens cfg tokens) ≤ reserved .backend
  small : ∀ c, reserved c ≤ pagesForTokens cfg.capacity

/-- The bundle of a lane that runs a request: bound to the row of the lane, entitled to what was
reserved, with pages for at least the given tokens. -/
structure Bound (h : KvHeap n) (l : Fin n) (x : Lane) (text back : Nat) : Prop where
  kv : x.kv = some cfg.bundle
  owns : ∃ w, OwnsBundle cfg h l w ∧ w.text.row = (l : Nat) ∧ w.backend.row = (l : Nat) ∧
    w.text.entitled = x.reserved .text ∧ w.backend.entitled = x.reserved .backend ∧
    pagesForTokens text ≤ w.text.mapped ∧
    (cfg.hasBackend = true → pagesForTokens back ≤ w.backend.mapped)

/-- The bundle of a retained lane: unbound, and entitled to what it maps. -/
structure Resting (h : KvHeap n) (l : Fin n) (x : Lane) (text back : Nat) : Prop where
  kv : x.kv = some cfg.bundle
  owns : OwnsBundle cfg h l ⟨⟨pagesForTokens text, pagesForTokens text, -1⟩,
    ⟨pagesForTokens back, pagesForTokens back, -1⟩⟩

/-! ## Sequences -/

/-- The ledger and the identity of a lane have `size` tokens. -/
structure Sized (x : Lane) (size : Nat) : Prop where
  ledger : x.ledger.length = size
  types : x.prefixIdentity.tokenTypes.length = size
  positions : x.prefixIdentity.positions.length = size
  placed : WellPlaced x.prefixIdentity.visionItems size
  rope : -(cfg.capacity : Int) ≤ x.ropeDelta ∧ x.ropeDelta ≤ 0
  dflash : cfg.backend = .dflash → x.ropeDelta = 0

/-- The state of the backend reaches `tokens` tokens. -/
def BackendAt (x : Lane) (tokens : Nat) : Prop :=
  (cfg.backend = .mtp → x.mtpKvValid = tokens) ∧
    (cfg.backend = .dflash → x.dflashContextFrontier = tokens)

/-- A valid checkpoint lies at or before `limit`. -/
def Checkpointed (x : Lane) (limit : Nat) : Prop :=
  x.rewriteCheckpoint.valid = true →
    0 < x.rewriteCheckpoint.frontier ∧ x.rewriteCheckpoint.frontier ≤ limit

/-! ## States -/

/-- An empty lane owns nothing. -/
structure EmptyLane (h : KvHeap n) (l : Fin n) (x : Lane) : Prop where
  nothing : OwnsNothing h l
  cleared : x.cleared = x

/-- A retained lane. -/
structure CompleteLane (h : KvHeap n) (l : Fin n) (x : Lane) : Prop where
  lifecycle : x.lifecycle = .complete
  retained : x.retained = true
  frontier_pos : 0 < x.executionFrontier
  frontier_le : x.executionFrontier ≤ cfg.capacity
  ledgerFrontier : x.ledgerFrontier = x.executionFrontier + 1
  sized : Sized cfg x (x.executionFrontier + 1)
  textKvValid : x.textKvValid = x.executionFrontier
  backend : BackendAt cfg x x.executionFrontier
  tail : x.tailHiddenValid = true
  checkpoint : Checkpointed x x.executionFrontier
  resting : Resting cfg h l x x.executionFrontier (x.backendKvValid cfg)

/-- The vision session of a staged prefill, at the cursor: there is one exactly when the suffix has
a visual token. -/
inductive SessionAt (staged : Prefill) : Prop
  | text (vision : staged.vision = none) (plan : staged.visionPlan = none)
      (suffix : suffixHasVisual staged.prompt staged.base = false) : SessionAt staged
  | media (session : VisionPrefillSession) (plan : VisionPrefillPlan)
      (vision : staged.vision = some session) (planned : staged.visionPlan = some plan)
      (suffix : suffixHasVisual staged.prompt staged.base = true)
      (backend : cfg.backend ≠ .dflash)
      (inv : SessionInv cfg.outHidden staged.prompt plan staged.transient session staged.cursor) :
      SessionAt staged

/-- The bridge of a staged prefill: pending only before the first chunk. -/
inductive BridgeAt (x : Lane) (staged : Prefill) : Prop
  | none (bridge : staged.mtpBridge = .none) (reached : BackendAt cfg x staged.cursor)
      (more : staged.cursor < staged.promptTokens) : BridgeAt x staged
  | hit (bridge : staged.mtpBridge = .none) (ordinary : cfg.backend ≠ .mtp)
      (reached : BackendAt cfg x staged.cursor) (cursor : staged.cursor = staged.base)
      (all : staged.base = staged.promptTokens) (tail : x.tailHiddenValid = true) : BridgeAt x staged
  | before (bridge : staged.mtpBridge = .beforeSuffix) (mtp : cfg.backend = .mtp)
      (cursor : staged.cursor = staged.base) (pos : 0 < staged.base)
      (more : staged.base < staged.promptTokens) (reached : x.mtpKvValid = staged.base - 1) :
      BridgeAt x staged
  | after (bridge : staged.mtpBridge = .afterExactHit) (mtp : cfg.backend = .mtp)
      (cursor : staged.cursor = staged.base) (all : staged.base = staged.promptTokens)
      (tail : x.tailHiddenValid = true) : BridgeAt x staged

/-- The positions that a prefill gives: those of the prompt when the suffix has a visual token, the
indices otherwise. -/
def givenPosition (prompt : PreparedPromptData) (base i : Nat) : Position :=
  if suffixHasVisual prompt base then prompt.positionAt i else .same i

/-- A lane with a staged prefill, for a request that may produce `budget` tokens: what holds from
the start of the prefill to its end. -/
structure Underway (h : KvHeap n) (l : Fin n) (x : Lane) (staged : Prefill) (budget : Nat) :
    Prop where
  lifecycle : x.lifecycle = .prefilling
  retained : x.retained = false
  prepared : Prepared staged.prompt
  types : ∀ item ∈ staged.prompt.visionItems, ∀ i ∈ item.scatterIndices,
    staged.prompt.tokenTypes.getD i 0 = item.modality.code
  size_pos : 0 < staged.promptTokens
  size : staged.prompt.size = staged.promptTokens
  sized : Sized cfg x staged.promptTokens
  ledger : x.ledger = staged.prompt.tokenIds
  identity : x.prefixIdentity =
    ⟨staged.prompt.tokenTypes, staged.prompt.positions, staged.prompt.visionItems⟩
  ropeDelta : x.ropeDelta = staged.prompt.ropeDelta
  base_le : staged.base ≤ staged.cursor
  cursor_le : staged.cursor ≤ staged.promptTokens
  textKvValid : x.textKvValid = staged.cursor
  prepareMtp : staged.prepareMtp = decide (cfg.backend = .mtp)
  extent : staged.initialMtpExtent = initialMtpExtent cfg staged.promptTokens budget
  capture : ∀ spec ∈ staged.rewriteCheckpointCapture,
    staged.base < spec.frontier ∧ spec.frontier ≤ staged.promptTokens
  fresh : staged.rewriteCheckpointCapture.isSome → x.rewriteCheckpoint = {}
  checkpoint : Checkpointed x staged.base
  resident : Checkpointed x x.executionFrontier
  given : staged.given = (List.range' staged.base (staged.cursor - staged.base)).map fun i =>
    (i, givenPosition staged.prompt staged.base i)
  fits : Fits cfg x.reserved (staged.promptTokens + (budget - 1))
  bound : Bound cfg h l x staged.promptTokens
    (backendMaterialized cfg staged.promptTokens staged.initialMtpExtent)

/-- A lane that is being prefilled: the prefill is underway, and its next step can be made. -/
structure PrefillingLane (h : KvHeap n) (l : Fin n) (x : Lane) (staged : Prefill) (budget : Nat) :
    Prop extends Underway cfg h l x staged budget where
  bridge : BridgeAt cfg x staged
  session : SessionAt cfg staged

/-- A lane whose first token waits for the decision of the executor. -/
structure StartLane (h : KvHeap n) (l : Fin n) (x : Lane) (budget : Nat) : Prop where
  lifecycle : x.lifecycle = .pending
  pending : ∃ promptTokens, x.pending = ⟨.start, 0, 0, promptTokens, 1⟩
  prefill : x.prefill = none
  retained : x.retained = false
  size_pos : 0 < x.pending.promptTokens
  sized : Sized cfg x (x.pending.promptTokens + 1)
  textKvValid : x.textKvValid = x.pending.promptTokens
  backend : BackendAt cfg x x.pending.promptTokens
  tail : x.tailHiddenValid = true
  drafts : cfg.backend = .mtp →
    x.mtpDraftCount = initialMtpExtent cfg x.pending.promptTokens budget
  checkpoint : Checkpointed x x.pending.promptTokens
  fits : Fits cfg x.reserved (x.pending.promptTokens + (budget - 1))
  bound : Bound cfg h l x x.pending.promptTokens x.pending.promptTokens

/-- A lane at a frontier: its ledger has one token more than it has executed. -/
structure AtFrontier (x : Lane) (budget : Nat) : Prop where
  prefill : x.prefill = none
  retained : x.retained = false
  frontier_pos : 0 < x.executionFrontier
  ledgerFrontier : x.ledgerFrontier = x.executionFrontier + 1
  tail : x.tailHiddenValid = true
  checkpoint : Checkpointed x x.executionFrontier
  budget_pos : 0 < budget
  fits : Fits cfg x.reserved (x.executionFrontier + budget)

/-- The drafts an active lane holds are those its next round verifies. -/
def DraftsMatch (x : Lane) (budget : Nat) : Prop :=
  cfg.backend = .mtp →
    x.mtpDraftCount = min cfg.draftWindow
      (min (maxByBudget budget) (cfg.capacity - x.executionFrontier - 1))

/-- An active lane without a pending round. -/
structure ActiveLane (h : KvHeap n) (l : Fin n) (x : Lane) (budget : Nat) : Prop where
  lifecycle : x.lifecycle = .active
  at_frontier : AtFrontier cfg x budget
  sized : Sized cfg x (x.executionFrontier + 1)
  textKvValid : x.textKvValid = x.executionFrontier
  mtp : cfg.backend = .mtp → x.mtpKvValid = x.executionFrontier
  drafts : DraftsMatch cfg x budget
  dflash : cfg.backend = .dflash → x.dflashContextFrontier ≤ x.executionFrontier ∧
    x.executionFrontier - x.dflashContextFrontier ≤ cfg.width
  bound : Bound cfg h l x x.executionFrontier (x.backendKvValid cfg)

/-- A lane with a pending ordinary round. -/
structure OrdinaryLane (h : KvHeap n) (l : Fin n) (x : Lane) (budget : Nat) : Prop where
  lifecycle : x.lifecycle = .pending
  pending : x.pending = ⟨.ordinary, x.executionFrontier, x.ledgerFrontier, 0, 1⟩
  backend : cfg.backend = .none
  at_frontier : AtFrontier cfg x budget
  sized : Sized cfg x (x.executionFrontier + 2)
  textKvValid : x.textKvValid = x.executionFrontier + 1
  bound : Bound cfg h l x (x.executionFrontier + 1) 0

/-- A lane with a pending speculative round. -/
structure SpeculativeLane (h : KvHeap n) (l : Fin n) (x : Lane) (budget : Nat) : Prop where
  lifecycle : x.lifecycle = .pending
  pending : ∃ produced,
    x.pending = ⟨.speculative, x.executionFrontier, x.ledgerFrontier, 0, produced⟩
  backend : cfg.backend ≠ .none
  at_frontier : AtFrontier cfg x budget
  sized : Sized cfg x (x.executionFrontier + 1)
  textKvValid : x.textKvValid = x.executionFrontier
  reached : BackendAt cfg x x.executionFrontier
  produced_pos : 0 < x.pending.produced
  produced_le : x.pending.produced ≤ budget
  width : x.pending.produced ≤ cfg.width
  bound : Bound cfg h l x (x.executionFrontier + x.pending.produced)
    (if cfg.backend = .mtp then x.executionFrontier + x.pending.produced else x.executionFrontier)

/-! ## Phases -/

/-- What the executor knows of a lane. -/
inductive Phase
  | idle
  | prefilling
  | firstToken
  | decoding
  deriving DecidableEq, Repr

/-- What the executor keeps of the request of a lane: its phase and its remaining budget. -/
structure Slot where
  phase : Phase := .idle
  budget : Nat := 0
  deriving DecidableEq, Repr

/-- The lane is in the state that the executor knows it to be in; `inRound` says that a decode round
with the lane has not been resolved. -/
inductive LaneInv (h : KvHeap n) (l : Fin n) (x : Lane) (slot : Slot) (inRound : Bool) : Prop
  | empty (phase : slot.phase = .idle) (round : inRound = false) (lane : EmptyLane h l x) :
      LaneInv h l x slot inRound
  | complete (phase : slot.phase = .idle) (round : inRound = false)
      (lane : CompleteLane cfg h l x) : LaneInv h l x slot inRound
  | prefilling (phase : slot.phase = .prefilling) (round : inRound = false) (staged : Prefill)
      (prefill : x.prefill = some staged) (advanced : staged.base < staged.cursor)
      (lane : PrefillingLane cfg h l x staged slot.budget) : LaneInv h l x slot inRound
  | start (phase : slot.phase = .firstToken) (round : inRound = false)
      (lane : StartLane cfg h l x slot.budget) : LaneInv h l x slot inRound
  | active (phase : slot.phase = .decoding) (round : inRound = false)
      (lane : ActiveLane cfg h l x slot.budget) : LaneInv h l x slot inRound
  | ordinary (phase : slot.phase = .decoding) (round : inRound = true)
      (lane : OrdinaryLane cfg h l x slot.budget) : LaneInv h l x slot inRound
  | speculative (phase : slot.phase = .decoding) (round : inRound = true)
      (lane : SpeculativeLane cfg h l x slot.budget) : LaneInv h l x slot inRound

/-! ## The records of a run -/

/-- A call of `materialize_tokens` within what was reserved for the request. -/
def MaterializeCall.Within (call : MaterializeCall) : Prop :=
  pagesForTokens call.tokens ≤ call.reserved

/-- A write to mapped pages only. -/
def KvWrite.Mapped (write : KvWrite) : Prop := write.span.first + write.span.count ≤ write.mapped

/-- The record of a prefill: the positions it has given, and the rope deltas it has left. -/
structure PrefillRecord.Ok (r : PrefillRecord) : Prop where
  prepared : Prepared r.prompt
  size_pos : 0 < r.prompt.size
  base_le : r.base ≤ r.prompt.size
  given : r.given = (List.range' r.base (r.prompt.size - r.base)).map fun i =>
    (i, givenPosition r.prompt r.base i)
  ropeDelta : r.ropeDelta = r.prompt.ropeDelta
  device : r.deviceRopeDelta =
    if r.base = r.prompt.size ∨ suffixHasVisual r.prompt r.base = true then r.prompt.ropeDelta
    else 0

/-- What a step on one lane keeps: the other lanes, the invariant of the heap, and what holds of
every record. -/
structure Stepped (l : Fin n) (s s' : Program n) : Prop where
  inv : KvInv cfg s'.pools.heap
  only : OnlyLane l s.pools.heap s'.pools.heap
  lanes : ∀ m, m ≠ l → s'.lanes m = s.lanes m
  egress : s'.egress = s.egress
  calls : ∀ call ∈ s'.pools.calls, call ∈ s.pools.calls ∨ call.Within
  writes : ∀ write ∈ s'.writes, write ∈ s.writes ∨ write.Mapped
  prefills : ∀ r ∈ s'.prefills, r ∈ s.prefills ∨ r.Ok

/-- What a step on the lanes of a batch keeps. -/
structure BatchStepped (lanes : List (Fin n)) (s s' : Program n) : Prop where
  inv : KvInv cfg s'.pools.heap
  only : ∀ m, m ∉ lanes → ∀ c, s'.pools.heap.allocs (m, c) = s.pools.heap.allocs (m, c)
  lanes : ∀ m, m ∉ lanes → s'.lanes m = s.lanes m
  calls : ∀ call ∈ s'.pools.calls, call ∈ s.pools.calls ∨ call.Within
  writes : ∀ write ∈ s'.writes, write ∈ s.writes ∨ write.Mapped
  prefills : ∀ r ∈ s'.prefills, r ∈ s.prefills ∨ r.Ok

/-! ## Lemmas -/

variable {cfg} {h h' : KvHeap n} {l m : Fin n} {x : Lane}

theorem reservedBackendTokens_mono {a b : Nat} (hab : a ≤ b) :
    reservedBackendTokens cfg a ≤ reservedBackendTokens cfg b := by
  unfold reservedBackendTokens
  split <;> omega

theorem Fits.mono {reserved : Cache → Nat} {a b : Nat} (hf : Fits cfg reserved b) (hab : a ≤ b) :
    Fits cfg reserved a where
  capacity := hab.trans hf.capacity
  text := (pagesForTokens_mono hab).trans hf.text
  backend := (pagesForTokens_mono (reservedBackendTokens_mono hab)).trans hf.backend
  small := hf.small

theorem Fits.countable {reserved : Cache → Nat} {tokens : Nat} (hf : Fits cfg reserved tokens)
    (c : Cache) (mapped : Nat) (row : Int) : Countable ⟨mapped, reserved c, row⟩ := by
  have hle := hf.small c
  have hcap := cfg.capacity_le
  have hpages : pagesForTokens cfg.capacity ≤ 4096 :=
    pagesForTokens_le_iff.mpr (by unfold kPagedKVPageSize; omega)
  unfold Countable kPagedKVPageSize U32.size
  dsimp only
  omega

theorem Bound.congr {y : Lane} {text back : Nat} (hb : Bound cfg h l x text back)
    (hkv : y.kv = x.kv) (hr : y.reserved = x.reserved) : Bound cfg h l y text back := by
  obtain ⟨w, hw⟩ := hb.owns
  exact ⟨hkv.trans hb.kv, w, by rw [hr]; exact hw⟩

theorem Bound.mono {text text' back back' : Nat} (hb : Bound cfg h l x text back)
    (ht : text' ≤ text) (hk : cfg.hasBackend = true → back' ≤ back) :
    Bound cfg h l x text' back' := by
  obtain ⟨w, hw, h₁, h₂, h₃, h₄, h₅, h₆⟩ := hb.owns
  refine ⟨hb.kv, w, hw, h₁, h₂, h₃, h₄, (pagesForTokens_mono ht).trans h₅, ?_⟩
  intro hbk
  exact (pagesForTokens_mono (hk hbk)).trans (h₆ hbk)

theorem Bound.frame {text back : Nat} (hb : Bound cfg h l x text back)
    (heq : ∀ c, h'.allocs (l, c) = h.allocs (l, c)) : Bound cfg h' l x text back := by
  obtain ⟨w, hw, hrest⟩ := hb.owns
  exact ⟨hb.kv, w, hw.congr heq, hrest⟩

theorem ActiveLane.frame {budget : Nat} (hl : ActiveLane cfg h l x budget)
    (heq : ∀ c, h'.allocs (l, c) = h.allocs (l, c)) : ActiveLane cfg h' l x budget :=
  { hl with bound := hl.bound.frame heq }

theorem SpeculativeLane.frame {budget : Nat} (hl : SpeculativeLane cfg h l x budget)
    (heq : ∀ c, h'.allocs (l, c) = h.allocs (l, c)) : SpeculativeLane cfg h' l x budget :=
  { hl with bound := hl.bound.frame heq }

/-- **What is done to other lanes** does not concern a lane. -/
theorem LaneInv.frame {slot : Slot} {inRound : Bool} (hi : LaneInv cfg h l x slot inRound)
    (heq : ∀ c, h'.allocs (l, c) = h.allocs (l, c)) : LaneInv cfg h' l x slot inRound := by
  cases hi with
  | empty phase round lane =>
    exact .empty phase round ⟨fun c => (heq c).trans (lane.nothing c), lane.cleared⟩
  | complete phase round lane =>
    exact .complete phase round { lane with resting := ⟨lane.resting.kv, lane.resting.owns.congr heq⟩ }
  | prefilling phase round staged prefill advanced lane =>
    exact .prefilling phase round staged prefill advanced { lane with bound := lane.bound.frame heq }
  | start phase round lane =>
    exact .start phase round { lane with bound := lane.bound.frame heq }
  | active phase round lane => exact .active phase round (lane.frame heq)
  | ordinary phase round lane =>
    exact .ordinary phase round { lane with bound := lane.bound.frame heq }
  | speculative phase round lane => exact .speculative phase round (lane.frame heq)

theorem Stepped.trans {s₁ s₂ s₃ : Program n} (h₁ : Stepped cfg l s₁ s₂)
    (h₂ : Stepped cfg l s₂ s₃) : Stepped cfg l s₁ s₃ where
  inv := h₂.inv
  only := h₁.only.trans h₂.only
  lanes := fun m hm => (h₂.lanes m hm).trans (h₁.lanes m hm)
  egress := h₂.egress.trans h₁.egress
  calls := fun c hc => (h₂.calls c hc).elim (h₁.calls c) Or.inr
  writes := fun w hw => (h₂.writes w hw).elim (h₁.writes w) Or.inr
  prefills := fun r hr => (h₂.prefills r hr).elim (h₁.prefills r) Or.inr

theorem clearLane_stepped {s : Program n} (hi : KvInv cfg s.pools.heap) (l : Fin n) :
    Stepped cfg l s (clearLane l s) where
  inv := (resetKv_spec hi l).1
  only := (resetKv_spec hi l).2.2
  lanes := fun _ hm => Function.update_of_ne hm ..
  egress := rfl
  calls := fun _ => Or.inl
  writes := fun _ => Or.inl
  prefills := fun _ => Or.inl

theorem Stepped.batch {s s' : Program n} {lanes : List (Fin n)} (hs : Stepped cfg l s s')
    (hl : l ∈ lanes) : BatchStepped cfg lanes s s' where
  inv := hs.inv
  only := fun m hm => hs.only m fun heq => hm (heq ▸ hl)
  lanes := fun m hm => hs.lanes m fun heq => hm (heq ▸ hl)
  calls := hs.calls
  writes := hs.writes
  prefills := hs.prefills

theorem BatchStepped.refl {s : Program n} (hi : KvInv cfg s.pools.heap) (lanes : List (Fin n)) :
    BatchStepped cfg lanes s s :=
  ⟨hi, fun _ _ _ => rfl, fun _ _ => rfl, fun _ => Or.inl, fun _ => Or.inl, fun _ => Or.inl⟩

theorem BatchStepped.trans {s₁ s₂ s₃ : Program n} {lanes : List (Fin n)}
    (h₁ : BatchStepped cfg lanes s₁ s₂) (h₂ : BatchStepped cfg lanes s₂ s₃) :
    BatchStepped cfg lanes s₁ s₃ where
  inv := h₂.inv
  only := fun m hm c => (h₂.only m hm c).trans (h₁.only m hm c)
  lanes := fun m hm => (h₂.lanes m hm).trans (h₁.lanes m hm)
  calls := fun c hc => (h₂.calls c hc).elim (h₁.calls c) Or.inr
  writes := fun w hw => (h₂.writes w hw).elim (h₁.writes w) Or.inr
  prefills := fun r hr => (h₂.prefills r hr).elim (h₁.prefills r) Or.inr

theorem BatchStepped.mono {s₁ s₂ : Program n} {lanes lanes' : List (Fin n)}
    (hb : BatchStepped cfg lanes s₁ s₂) (hsub : lanes ⊆ lanes') : BatchStepped cfg lanes' s₁ s₂ where
  inv := hb.inv
  only := fun m hm => hb.only m fun hmem => hm (hsub hmem)
  lanes := fun m hm => hb.lanes m fun hmem => hm (hsub hmem)
  calls := hb.calls
  writes := hb.writes
  prefills := hb.prefills

/-- A cleared lane is empty. -/
theorem emptyLane_clear (hi : KvInv cfg h) (l : Fin n) (x : Lane) :
    EmptyLane (resetKv l h) l x.cleared :=
  ⟨(resetKv_spec hi l).2.1, rfl⟩

theorem EmptyLane.frame (he : EmptyLane h l x) (heq : ∀ c, h'.allocs (l, c) = h.allocs (l, c)) :
    EmptyLane h' l x :=
  ⟨fun c => (heq c).trans (he.nothing c), he.cleared⟩

/-- **Clearing lanes** leaves each of them empty. -/
theorem clearLanes_spec : ∀ (lanes : List (Fin n)) {s : Program n}, KvInv cfg s.pools.heap →
    BatchStepped cfg lanes s (clearLanes lanes s) ∧
      (∀ l ∈ lanes, EmptyLane (clearLanes lanes s).pools.heap l ((clearLanes lanes s).lanes l)) ∧
      (clearLanes lanes s).prefills = s.prefills
  | [], s, hi => ⟨BatchStepped.refl hi _, nofun, rfl⟩
  | l :: lanes, s, hi => by
    have hstep := clearLane_stepped hi l
    obtain ⟨hb, hempty, hprefills⟩ := clearLanes_spec lanes hstep.inv
    have hl : (clearLane l s).lanes l = (s.lanes l).cleared := Function.update_self ..
    refine ⟨(hstep.batch (List.mem_cons_self ..)).trans (hb.mono (List.subset_cons_self ..)), ?_,
      hprefills⟩
    intro m hm
    by_cases hmem : m ∈ lanes
    · exact hempty m hmem
    · obtain rfl : m = l := (List.mem_cons.mp hm).resolve_right hmem
      show EmptyLane (clearLanes lanes (clearLane m s)).pools.heap m
        ((clearLanes lanes (clearLane m s)).lanes m)
      rw [hb.lanes m hmem, hl]
      exact (emptyLane_clear hi m (s.lanes m)).frame (hb.only m hmem)

end Ninfer.Qwen
