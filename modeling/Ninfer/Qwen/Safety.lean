import Ninfer.Qwen.Runs

/-!
# Safety of the program

What the invariant of the runs says of the code: no call asks for more KV pages than were reserved,
no KV row is written outside the mapped pages, every lane is in one of the states that the checks
of the program expect, a plan made for a lane can be started on it, and the service work of a
request covers what it does. None of the errors that guard these facts is reachable.

## Main results

* `Reachable.materialize_within`: every `materialize_tokens` stays in what was reserved
* `Reachable.lane_states`: what a lane keeps in each state of its lifecycle
* `Reachable.plan_starts`: a plan made for a lane passes the checks of `start_prefill_lane`
* `Reachable.service_work_covers`: the projected service work is an upper bound
* `Reachable.writes_mapped`: every KV write lands in a mapped page
* `Reachable.positions_iff`: which prefills give every token its own position
-/

namespace Ninfer.Qwen

open PagedKV

variable {n : Nat} {cfg : Config n} {s : System n} {l : Fin n}

/-! ## The state of a lane by its lifecycle -/

theorem EmptyLane.lifecycle {h : KvHeap n} {x : Lane} (he : EmptyLane h l x) :
    x.lifecycle = .empty := by
  rw [← he.cleared]
  rfl

/-- A lane that the program calls active is one that the executor decodes. -/
theorem SysInv.of_active (hs : SysInv cfg s) (ha : (s.program.lanes l).lifecycle = .active) :
    ActiveLane cfg s.program.pools.heap l (s.program.lanes l) (s.slots l).budget := by
  cases hs.lanes l with
  | active _ _ lane => exact lane
  | empty _ _ lane => exact nomatch ha.symm.trans lane.lifecycle
  | complete _ _ lane => exact nomatch ha.symm.trans lane.lifecycle
  | prefilling _ _ _ _ _ lane => exact nomatch ha.symm.trans lane.lifecycle
  | start _ _ lane => exact nomatch ha.symm.trans lane.lifecycle
  | ordinary _ _ lane => exact nomatch ha.symm.trans lane.lifecycle
  | speculative _ _ lane => exact nomatch ha.symm.trans lane.lifecycle

theorem SysInv.of_complete (hs : SysInv cfg s) (hc : (s.program.lanes l).lifecycle = .complete) :
    CompleteLane cfg s.program.pools.heap l (s.program.lanes l) := by
  cases hs.lanes l with
  | complete _ _ lane => exact lane
  | empty _ _ lane => exact nomatch hc.symm.trans lane.lifecycle
  | active _ _ lane => exact nomatch hc.symm.trans lane.lifecycle
  | prefilling _ _ _ _ _ lane => exact nomatch hc.symm.trans lane.lifecycle
  | start _ _ lane => exact nomatch hc.symm.trans lane.lifecycle
  | ordinary _ _ lane => exact nomatch hc.symm.trans lane.lifecycle
  | speculative _ _ lane => exact nomatch hc.symm.trans lane.lifecycle

theorem SysInv.of_empty (hs : SysInv cfg s) (he : (s.program.lanes l).lifecycle = .empty) :
    EmptyLane s.program.pools.heap l (s.program.lanes l) := by
  cases hs.lanes l with
  | empty _ _ lane => exact lane
  | complete _ _ lane => exact nomatch he.symm.trans lane.lifecycle
  | active _ _ lane => exact nomatch he.symm.trans lane.lifecycle
  | prefilling _ _ _ _ _ lane => exact nomatch he.symm.trans lane.lifecycle
  | start _ _ lane => exact nomatch he.symm.trans lane.lifecycle
  | ordinary _ _ lane => exact nomatch he.symm.trans lane.lifecycle
  | speculative _ _ lane => exact nomatch he.symm.trans lane.lifecycle

/-- A lane that is not busy runs no request. -/
theorem SysInv.of_not_busy (hs : SysInv cfg s) (hb : (s.program.lanes l).busy = false) :
    (s.slots l).phase = .idle := by
  have hbusy : ∀ {c : Lifecycle}, (s.program.lanes l).lifecycle = c →
      (c = .prefilling ∨ c = .pending ∨ c = .active) → False := by
    intro c hc hor
    unfold Lane.busy at hb
    rw [hc] at hb
    rcases hor with rfl | rfl | rfl <;> exact nomatch hb
  cases hs.lanes l with
  | empty phase => exact phase
  | complete phase => exact phase
  | prefilling _ _ _ _ _ lane => exact (hbusy lane.lifecycle (Or.inl rfl)).elim
  | start _ _ lane => exact (hbusy lane.lifecycle (Or.inr (Or.inl rfl))).elim
  | active _ _ lane => exact (hbusy lane.lifecycle (Or.inr (Or.inr rfl))).elim
  | ordinary _ _ lane => exact (hbusy lane.lifecycle (Or.inr (Or.inl rfl))).elim
  | speculative _ _ lane => exact (hbusy lane.lifecycle (Or.inr (Or.inl rfl))).elim

/-- **The only exception of an action** is that for a token outside the token domain. -/
theorem SysInv.error (hs : SysInv cfg s) {action : Action n} (he : action.Enabled cfg s)
    {e : Exception} {t : System n} (hrun : action.run cfg s = .error e t) :
    e = tokenDomainError := by
  rcases hs.action he with ⟨s', hok, -⟩ | ⟨t', herror, -⟩
  · exact nomatch hok.symm.trans hrun
  · exact (EStateM.Result.error.inj (hrun.symm.trans herror)).1

/-! ## A run to evaluate -/

/-- An action after which a slot has a request has returned: one that throws empties the slots. -/
theorem Reachable.performed {action : Action n} (hr : Reachable cfg s)
    (he : action.Enabled cfg s) (hbusy : ((s.perform cfg action).slots l).phase ≠ .idle) :
    action.run cfg s = .ok () (s.perform cfg action) := by
  unfold System.perform at hbusy ⊢
  rcases hr.inv.action he with ⟨s', hrun, -⟩ | ⟨t, hrun, -⟩
  · rw [hrun]
  · rw [hrun] at hbusy
    exact absurd rfl hbusy

/-- A request that is in its slot after it was served has been started. -/
theorem Reachable.serve_started {prompt : PreparedPromptData} {options : ExecutionOptions}
    {transient : TransientRegion} {sampled : Sampled} (hr : Reachable cfg s)
    (hidle : (s.slots l).phase = .idle) (hprep : Prepared prompt)
    (hbusy : ((s.serve cfg l prompt options transient sampled).slots l).phase ≠ .idle) :
    ∃ base plan,
      (Action.start l prompt options base plan transient sampled).Enabled cfg s ∧
      (Action.start l prompt options base plan transient sampled).run cfg s =
        .ok () (s.serve cfg l prompt options transient sampled) := by
  unfold System.serve at hbusy ⊢
  split at hbusy
  next => exact absurd hidle hbusy
  next base hbase =>
    split at hbusy
    next => exact absurd hidle hbusy
    next plan hplan =>
      split_ifs at hbusy with h
      · have he : (Action.start l prompt options base plan transient sampled).Enabled cfg s :=
          ⟨hidle, hprep, hbase, hplan, h.1, h.2⟩
        refine ⟨base, plan, he, ?_⟩
        simp only [if_pos h]
        exact hr.performed he hbusy
      · exact absurd hidle hbusy

/-- Two page groups, and one row of one page. -/
def tinyPool : PagedKVPoolSpec where
  pageGroupCount := 2
  logicalPageCapacity := 1
  tableRows := 1
  pageGroupCount_pos := Nat.zero_lt_two
  pageGroupCount_le := two_le_int32Max
  logicalPageCapacity_pos := Nat.zero_lt_one
  logicalPageCapacity_le := one_le_int32Max
  tableRows_pos := Nat.zero_lt_one
  tableRows_le := one_le_int32Max

/-- One lane of 32 tokens that drafts two tokens with MTP. -/
def tinyConfig : Config 1 where
  capacity := 32
  prefillChunk := 8
  draftWindow := 2
  backend := .mtp
  visionEnabled := true
  workspaceFits := fun _ => true
  outHidden := 1
  pools := fun _ => tinyPool
  capacity_pos := by decide
  capacity_le := by decide
  outHidden_pos := Nat.zero_lt_one
  prefillChunk_pos := Nat.succ_pos 7
  draftWindow_none := nofun
  draftWindow_pos := fun _ => by decide
  draftWindow_le := by decide
  dflash_text := nofun
  tableRows := fun _ => rfl
  logicalPages := fun _ => by decide

/-- An image of sixteen patches. -/
def picture (spans : List TokenSpan) : VisionItem where
  modality := .image
  grid := ⟨1, 4, 4⟩
  patchBegin := 0
  patchCount := 16
  contentDigest := []
  timestamps := []
  tokenSpans := spans

/-- An image between two text tokens: the last token is at position 3. -/
def picturePrompt : PreparedPromptData where
  tokenIds := [1, kImageToken, kImageToken, kImageToken, kImageToken, 2]
  tokenTypes := [0, 1, 1, 1, 1, 0]
  positions := [.same 0, ⟨1, 1, 1⟩, ⟨1, 1, 2⟩, ⟨1, 2, 1⟩, ⟨1, 2, 2⟩, .same 3]
  ropeDelta := -2
  mediaPayloads := [some (16 * kPreparedVisionPatchFeatures)]
  visionItems := [picture [⟨1, 4⟩]]
  identity := {}
  rawPatches := 16
  visionTokens := 4

/-- The next turn of the conversation: the answer to the image, and one more text token. -/
def followUpPrompt : PreparedPromptData :=
  { picturePrompt with
    tokenIds := picturePrompt.tokenIds ++ [7, 8]
    tokenTypes := picturePrompt.tokenTypes ++ [0, 0]
    positions := picturePrompt.positions ++ [.same 4, .same 5] }

/-- The turn after that. -/
def thirdPrompt : PreparedPromptData :=
  { followUpPrompt with
    tokenIds := followUpPrompt.tokenIds ++ [9, 0, 11, 12]
    tokenTypes := followUpPrompt.tokenTypes ++ [0, 0, 0, 0]
    positions := followUpPrompt.positions ++ [.same 6, .same 7, .same 8, .same 9] }

theorem prepared_picturePrompt : Prepared picturePrompt :=
  .media rfl [picture []] (by simp [picture]) (by decide)

theorem prepared_followUpPrompt : Prepared followUpPrompt :=
  .media rfl [picture []] (by simp [picture]) (by decide)

theorem prepared_thirdPrompt : Prepared thirdPrompt :=
  .media rfl [picture []] (by simp [picture]) (by decide)

/-- A request for the image ends with its first token, and its lane is retained. -/
def retainedRun : System 1 :=
  ((System.init tinyConfig).serve tinyConfig 0 picturePrompt ⟨6, true, none⟩ ⟨true, 4096, 4096⟩
    ⟨7, fun _ => 0⟩).perform tinyConfig (.resolvePrefill 0 true)

/-- The next turn is prefilled after the retained sequence. -/
def followUpRun : System 1 :=
  retainedRun.serve tinyConfig 0 followUpPrompt ⟨6, true, none⟩ ⟨true, 4096, 4096⟩ ⟨9, fun _ => 0⟩

/-- The request of the next turn is decoded. -/
def decodingRun : System 1 := followUpRun.perform tinyConfig (.resolvePrefill 0 false)

/-- Its first round is pending. -/
def roundRun : System 1 :=
  decodingRun.perform tinyConfig (.decode [(0, ⟨1, 11, fun _ => 0, fun _ => 3⟩)])

/-- What the actions of the runs need of the states they are performed in. -/
theorem sampleRuns_enabled :
    (∀ l, (retainedRun.slots l).phase = .idle) ∧
      (∀ l, (followUpRun.slots l).phase = .firstToken ∧ 1 < (followUpRun.slots l).budget) ∧
      decodingRun.round = [] ∧ ∀ l, (decodingRun.slots l).phase = .decoding := by
  decide +kernel

theorem reachable_retainedRun : Reachable tinyConfig retainedRun := by
  refine Reachable.perform (Reachable.serve .refl rfl prepared_picturePrompt) ⟨?_, nofun⟩
  decide +kernel

theorem reachable_followUpRun : Reachable tinyConfig followUpRun := by
  obtain ⟨hidle, -⟩ := sampleRuns_enabled
  exact Reachable.serve reachable_retainedRun (hidle _) prepared_followUpPrompt

theorem reachable_decodingRun : Reachable tinyConfig decodingRun := by
  obtain ⟨-, hfirst, -⟩ := sampleRuns_enabled
  exact Reachable.perform reachable_followUpRun ⟨(hfirst _).1, fun _ => (hfirst _).2⟩

theorem reachable_roundRun : Reachable tinyConfig roundRun := by
  obtain ⟨-, -, hround, hdecoding⟩ := sampleRuns_enabled
  exact Reachable.perform reachable_decodingRun ⟨hround, by simp, by simp, fun row _ => hdecoding row.1⟩

/-- What the round leaves pending. -/
theorem roundRun_pending :
    roundRun.round = [0] ∧ roundRun.program.pools.calls.map (·.tokens) = [6, 7] ∧
      (roundRun.program.lanes 0).pending.produced = 2 ∧
      roundRun.program.egress.map (·.nextExtent) = [2] ∧
      (roundRun.slots 0).budget = 5 ∧ (roundRun.slots 0).phase = .decoding ∧
      (roundRun.accounts 0).quanta = 6 := by
  decide +kernel

/-! ## KV pages -/

/-- **No call of `materialize_tokens` leaves the entitlement**: it asks for at most the pages
reserved for its request, which are those of its admission, and no action ends in the error that
guards it. -/
theorem Reachable.materialize_within (hr : Reachable cfg s) :
    (∀ call ∈ s.program.pools.calls, pagesForTokens call.tokens ≤ call.reserved) ∧
      (∀ l, (s.slots l).phase ≠ .idle → (s.accounts l).admission =
        ⟨1, (s.program.lanes l).reserved .text, (s.program.lanes l).reserved .backend⟩) ∧
      ∀ (action : Action n) (e : Exception) (t : System n), action.Enabled cfg s →
        action.run cfg s = .error e t → e = tokenDomainError := by
  have hs := hr.inv
  refine ⟨hs.calls, fun l => (hs.accounts l).admission, ?_⟩
  intro action e t he hrun
  exact hs.error he hrun

theorem materialize_within_roundRun :
    (∀ call ∈ roundRun.program.pools.calls, pagesForTokens call.tokens ≤ call.reserved) ∧
      roundRun.program.pools.calls.map (·.tokens) = [6, 7] :=
  ⟨(Reachable.materialize_within reachable_roundRun).1, roundRun_pending.2.1⟩

/-- **The device agrees with the host on the next round**, and every write lands in a mapped page. -/
theorem Reachable.writes_mapped (hr : Reachable cfg s) :
    (∀ write ∈ s.program.writes, write.span.first + write.span.count ≤ write.mapped) ∧
      ∀ rows : List (Fin n × Resolution), cfg.backend = .mtp →
        (Action.resolve rows).Enabled cfg s →
        ∃ s', (Action.resolve rows).run cfg s = .ok () s' ∧
          ∀ row e, (row, e) ∈ rows.zip s.program.egress → row.2.terminal = false →
            e.nextExtent = nextExtent cfg ((s.slots row.1).budget - row.2.accepted : Int)
              ((s.program.lanes row.1).executionFrontier + row.2.accepted : Int) ∧
            e.nextExtent = roundExtent cfg (s'.program.lanes row.1) (s'.slots row.1).budget := by
  have hs := hr.inv
  refine ⟨hs.writes, fun rows hb he => ?_⟩
  obtain ⟨s', hok, hs', -, -, -, -, hslots, hsettled⟩ := resolve_spec hs he
  refine ⟨s', hok, fun row e hm hterm => ?_⟩
  obtain ⟨hne, hround, hrows⟩ := he
  have hrow := (List.of_mem_zip hm).1
  -- A row that goes on has not been cancelled.
  have hc : row.2.cancelled = false := by
    by_contra hcancelled
    have := (hrows row hrow).2 (by simpa using hcancelled)
    exact nomatch this.symm.trans hterm
  have hmore := ((hrows row hrow).1.more hc hterm).1
  have hegress := hs.egress (by rw [← hround]; simpa using hne)
  rw [← hround, List.forall₂_map_left_iff] at hegress
  have hnext := ((List.forall₂_iff_zip.mp hegress).2 hm).next hb
  rw [← hmore] at hnext
  obtain ⟨y, hy, hset⟩ := (List.forall₂_iff_zip.mp hsettled).2 hm
  -- What the settled lane holds is what the egress has, and an active lane verifies all it holds.
  have hactive := (hset.resolved.more hc hterm).extent_eq hb
  have hdrafts : (s'.program.lanes row.1).mtpDraftCount = e.nextExtent.toNat := by
    rw [hset.lane hc, hterm]
    cases hy with
    | ordinary backend => exact nomatch backend.symm.trans hb
    | speculative => simp [settle, committedLane, hb, hterm]
  refine ⟨hnext, ?_⟩
  have hnonneg := (nextExtent_bounds cfg ((s.slots row.1).budget - row.2.accepted : Int)
    ((s.program.lanes row.1).executionFrontier + row.2.accepted : Int)).1
  rw [hslots row hrow]
  have hbudget : ((s.slots row.1).resolved row.2).budget = (s.slots row.1).budget - row.2.accepted := by
    simp [Slot.resolved, hc, hterm]
  rw [hbudget, hactive, hdrafts]
  omega

/-- The pending round may be accepted whole. -/
theorem enabled_roundRun :
    (Action.resolve [((0 : Fin 1), ⟨2, false, false⟩)]).Enabled tinyConfig roundRun := by
  obtain ⟨hround, -, hproduced, -, hbudget, -⟩ := roundRun_pending
  refine ⟨by simp, hround.symm, fun row hm => ?_⟩
  obtain rfl := List.mem_singleton.mp hm
  dsimp only
  refine ⟨⟨nofun, fun _ => ⟨by decide, ?_⟩, fun _ _ => ⟨?_, ?_⟩⟩, nofun⟩
  · rw [hproduced]
  · rw [hproduced]
  · rw [hproduced, hbudget]
    decide

theorem writes_mapped_roundRun :
    (∀ write ∈ roundRun.program.writes, write.span.first + write.span.count ≤ write.mapped) ∧
      ∃ s', (Action.resolve [((0 : Fin 1), ⟨2, false, false⟩)]).run tinyConfig roundRun = .ok () s' ∧
        2 = roundExtent tinyConfig (s'.program.lanes 0) (s'.slots 0).budget := by
  obtain ⟨hwrites, hnext⟩ := Reachable.writes_mapped reachable_roundRun
  obtain ⟨s', hok, hrows⟩ := hnext _ rfl enabled_roundRun
  refine ⟨hwrites, s', hok, ?_⟩
  obtain ⟨e, hegress, he⟩ := List.map_eq_singleton_iff.mp roundRun_pending.2.2.2.1
  have hmem : (((0 : Fin 1), (⟨2, false, false⟩ : Resolution)), e) ∈
      [((0 : Fin 1), (⟨2, false, false⟩ : Resolution))].zip roundRun.program.egress := by
    rw [hegress]
    exact List.mem_singleton.mpr rfl
  have hround := (hrows _ _ hmem rfl).2
  rw [he] at hround
  exact_mod_cast hround

/-! ## The states of a lane -/

/-- **The lane state machine**: what a lane keeps when it is active, retained or empty. None of the
checks of the program on these states fails. -/
theorem Reachable.lane_states (hr : Reachable cfg s) (l : Fin n) :
    ((s.program.lanes l).lifecycle = .active →
      (s.program.lanes l).ledgerFrontier = (s.program.lanes l).executionFrontier + 1 ∧
      (s.program.lanes l).ledger.length = (s.program.lanes l).ledgerFrontier ∧
      (s.program.lanes l).prefixIdentity.size = (s.program.lanes l).ledgerFrontier ∧
      (s.program.lanes l).textKvValid = (s.program.lanes l).executionFrontier ∧
      (cfg.backend = .mtp →
        (s.program.lanes l).mtpKvValid = (s.program.lanes l).executionFrontier) ∧
      (cfg.backend = .dflash →
        (s.program.lanes l).dflashContextFrontier ≤ (s.program.lanes l).executionFrontier ∧
        (s.program.lanes l).executionFrontier - (s.program.lanes l).dflashContextFrontier ≤
          cfg.width) ∧
      (s.program.pools.heap.allocs (l, .text)).boundRow = (l : Nat) ∧
      (cfg.hasBackend = true →
        (s.program.pools.heap.allocs (l, .backend)).boundRow = (l : Nat))) ∧
    ((s.program.lanes l).lifecycle = .complete → (s.program.lanes l).retained = true ∧
      ∀ c, (s.program.pools.heap.allocs (l, c)).boundRow = -1 ∧
        (s.program.pools.heap.allocs (l, c)).pageEntitlement =
          (s.program.pools.heap.allocs (l, c)).pageIds.length) ∧
    ((s.program.lanes l).lifecycle = .empty →
      (s.program.lanes l).kv = none ∧ ∀ c, s.program.pools.heap.allocs (l, c) = {}) ∧
    ∀ (action : Action n) (e : Exception) (t : System n), action.Enabled cfg s →
      action.run cfg s = .error e t → e = tokenDomainError := by
  have hs := hr.inv
  refine ⟨fun hactive => ?_, fun hcomplete => ?_, fun hempty => ?_,
    fun action e t he hrun => hs.error he hrun⟩
  · have hl := hs.of_active hactive
    obtain ⟨w, ho, hrow, hrow', -⟩ := hl.bound.owns
    have hledger := hl.at_frontier.ledgerFrontier
    refine ⟨hledger, hl.sized.ledger.trans hledger.symm, hl.sized.types.trans hledger.symm,
      hl.textKvValid, hl.mtp, hl.dflash, ho.text.row.trans hrow, fun hb => ?_⟩
    exact (ho.backend hb).row.trans hrow'
  -- A retained lane is unbound in both caches, with a backend or without.
  · have hl := hs.of_complete hcomplete
    refine ⟨hl.retained, fun c => ?_⟩
    have ho := hl.resting.owns
    cases c with
    | text => exact ⟨ho.text.row, ho.text.entitled.trans ho.text.mapped.symm⟩
    | backend =>
      cases hb : cfg.hasBackend with
      | true =>
        have hback := ho.backend hb
        exact ⟨hback.row, hback.entitled.trans hback.mapped.symm⟩
      | false =>
        rw [ho.none hb]
        exact ⟨rfl, rfl⟩
  · have hl := hs.of_empty hempty
    refine ⟨?_, hl.nothing⟩
    rw [← hl.cleared]
    rfl

theorem lane_states_decodingRun :
    (decodingRun.program.lanes 0).lifecycle = .active ∧
      (decodingRun.program.lanes 0).ledgerFrontier =
        (decodingRun.program.lanes 0).executionFrontier + 1 := by
  have hactive : (decodingRun.program.lanes 0).lifecycle = .active := by decide +kernel
  exact ⟨hactive, ((Reachable.lane_states reachable_decodingRun 0).1 hactive).1⟩

/-! ## Plans -/

/-- **A plan made for a lane can be started on it**: `start_prefill_lane` passes its checks and
stages the prefill; what may still end it is a token outside the token domain. -/
theorem Reachable.plan_starts (hr : Reachable cfg s) (l : Fin n) (prompt : PreparedPrompt)
    (options : ExecutionOptions) (base : RequestBasePlan) (plan : RequestPlan)
    (transient : TransientRegion) (sampled : Sampled)
    (hbase : planRequestBase cfg prompt.toPreparedPromptData options = .ok base)
    (hplan : planRequestForLane cfg (s.program.lanes l) prompt.toPreparedPromptData base = .ok plan)
    (hadmits : canAdmitLane cfg s.program l plan = true) (htransient : Satisfies plan transient) :
    validateStart (s.program.lanes l) prompt.toPreparedPromptData plan transient = .ok () ∧
      (∃ p, stagePrefill cfg l prompt.toPreparedPromptData plan transient s.program = .ok () p) ∧
      ((∃ step p, startPrefillLane cfg l prompt.toPreparedPromptData plan transient sampled
          s.program = .ok step p) ∨
        ∃ p, startPrefillLane cfg l prompt.toPreparedPromptData plan transient sampled s.program =
          .error tokenDomainError p) := by
  have hs := hr.inv
  have ha := planRequestBase_spec hbase
  have hp := planRequestForLane_spec hplan
  obtain ⟨hfree, -⟩ := hs.free (hs.of_not_busy hp.free)
  obtain ⟨p, staged, hstage, -, -, -, -, hrun⟩ :=
    startPrefillLane_spec hs.kv hfree prompt.prepared ha hp htransient hadmits sampled
  refine ⟨validateStart_spec prompt.prepared ha hp htransient, ⟨p, hstage⟩, ?_⟩
  rcases hrun with ⟨step, hok, -⟩ | herror
  · exact Or.inl ⟨_, _, hok⟩
  · exact Or.inr ⟨_, herror⟩

/-- The base plan of the next turn. -/
def followUpBase : RequestBasePlan where
  summary :=
    { promptTokens := 8
      requestedOutputTokens := 6
      effectiveOutputTokens := 6
      effectiveLimitReason := .outputLimit
      transientAlignment := 1
      admission := ⟨1, 1, 1⟩
      serviceWorkQuanta := 7 }
  allowPrefixReuse := true
  textKvPageEntitlement := 1
  backendKvPageEntitlement := 1
  visionControl := some
    [{ modality := .image, grid := ⟨1, 4, 4⟩, patchBegin := 0, patchCount := 16, mergedCount := 4
       segmentCount := 1, scatterIndices := [1, 2, 3, 4] }]
  visionTransientBytes := 256
  rewriteCheckpoint := none

/-- The plan of the next turn for the lane that retains the first one. -/
def followUpPlan : RequestPlan where
  summary := { followUpBase.summary with reusablePromptTokens := 6, serviceWorkQuanta := 6 }
  textKvPageEntitlement := 1
  backendKvPageEntitlement := 1
  reuse := .appendAtFrontier
  reuseBase := 6
  rewriteCheckpointAction := .drop
  rewriteCheckpointCapture := none
  prepareMtp := true
  mtpBridge := .beforeSuffix
  vision := none

theorem plan_starts_retainedRun :
    planRequestForLane tinyConfig (retainedRun.program.lanes 0) followUpPrompt followUpBase =
        .ok followUpPlan ∧
      validateStart (retainedRun.program.lanes 0) followUpPrompt followUpPlan {} = .ok () := by
  obtain ⟨hbase, hplan, hadmits⟩ :
      planRequestBase tinyConfig followUpPrompt ⟨6, true, none⟩ = .ok followUpBase ∧
        planRequestForLane tinyConfig (retainedRun.program.lanes 0) followUpPrompt followUpBase =
          .ok followUpPlan ∧
        canAdmitLane tinyConfig retainedRun.program 0 followUpPlan = true := by
    decide +kernel
  have hstarts := Reachable.plan_starts reachable_retainedRun 0 ⟨followUpPrompt, prepared_followUpPrompt⟩
    ⟨6, true, none⟩ followUpBase followUpPlan {} ⟨9, fun _ => 0⟩ hbase hplan hadmits
    (fun h => absurd rfl h)
  exact ⟨hplan, hstarts.1⟩

/-! ## Service work -/

/-- A request in a slot, other than in the middle of a step, has service work left. -/
theorem SysInv.remaining_pos (hs : SysInv cfg s)
    (hp : (s.slots l).phase = .prefilling ∨ (s.slots l).phase = .decoding) :
    0 < (s.accounts l).remaining := by
  have ha := hs.accounts l
  rcases hp with hp | hp
  · obtain ⟨staged, -, -, hcovers⟩ := ha.prefilling hp
    have := Prefill.stepsLeft_pos cfg staged
    omega
  · have hcovers := ha.decoding hp
    have hbudget : 0 < (s.slots l).budget := by
      by_cases hin : l ∈ s.round
      · have hpending := (hs.pendingLane hin).1
        by_cases hb : cfg.backend = .none
        · exact (hpending.ordinary hb).at_frontier.budget_pos
        · exact (hpending.speculative hb).at_frontier.budget_pos
      · exact (hs.activeLane hp hin).at_frontier.budget_pos
    omega

/-- **The projected service work is an upper bound** on the prefill steps and the tokens accepted,
of the requests in the slots and of those that have left them. `consume_service_work` does not
throw, and after a step neither does `active_admission_set`. -/
theorem Reachable.service_work_covers (hr : Reachable cfg s) :
    (∀ a, (∃ l, a = s.accounts l) ∨ a ∈ s.closed →
      a.steps ≤ a.prefillUnits ∧ a.steps + a.accepted ≤ a.quanta) ∧
    (∀ l, (s.slots l).phase = .prefilling ∨ (s.slots l).phase = .decoding →
      1 ≤ (s.accounts l).remaining) ∧
    (∀ tickets, (∀ l, (s.slots l).phase ≠ .firstToken) →
      s.activeAdmissionSet tickets = .ok (s.occupied.map (s.snapshot tickets))) ∧
    ∀ (action : Action n) (e : Exception) (t : System n), action.Enabled cfg s →
      action.run cfg s = .error e t → e = tokenDomainError := by
  have hs := hr.inv
  refine ⟨fun a ha => ?_, fun l hp => hs.remaining_pos hp, fun tickets hstep => ?_,
    fun action e t he hrun => hs.error he hrun⟩
  · have hcovered : a.Covered := by
      rcases ha with ⟨l, rfl⟩ | ha
      · exact (hs.accounts l).covered
      · exact hs.closed a ha
    exact ⟨hcovered.1, by have := hcovered.2; omega⟩
  · refine if_neg ?_
    rw [Bool.not_eq_true, List.any_eq_false]
    intro a hm
    obtain ⟨l, hl, rfl⟩ := List.mem_map.mp hm
    have hphase : (s.slots l).phase ≠ .idle := by
      simpa [System.occupied] using hl
    have hadmission := (hs.accounts l).admission hphase
    -- No slot waits for its first token, so that each one in the snapshot has work left.
    have hpos : 0 < (s.accounts l).remaining := by
      refine hs.remaining_pos ?_
      cases hp : (s.slots l).phase with
      | idle => exact absurd hp hphase
      | prefilling => exact Or.inl rfl
      | firstToken => exact absurd hp (hstep l)
      | decoding => exact Or.inr rfl
    simp [System.snapshot, hadmission]
    omega

theorem service_work_covers_roundRun :
    (roundRun.accounts 0).steps + (roundRun.accounts 0).accepted ≤ (roundRun.accounts 0).quanta ∧
      (roundRun.accounts 0).quanta = 6 ∧ 1 ≤ (roundRun.accounts 0).remaining := by
  obtain ⟨hcovered, hremaining, -⟩ := Reachable.service_work_covers reachable_roundRun
  obtain ⟨-, -, -, -, -, hdecoding, hquanta⟩ := roundRun_pending
  exact ⟨(hcovered _ (Or.inl ⟨0, rfl⟩)).2, hquanta, hremaining 0 (Or.inr hdecoding)⟩

/-! ## Positions -/

/-- A prefill of a prompt from `base` on gives every token the position of the prompt: there is
nothing to prefill, or a token that makes the prefill read the positions of the prompt, or these
are the indices. -/
def Aligned (prompt : PreparedPromptData) (base : Nat) : Prop :=
  base = prompt.size ∨ suffixHasVisual prompt base = true ∨ prompt.ropeDelta = 0

/-- The positions given are those the prompt assigns. -/
def OwnPositions (prompt : PreparedPromptData) (given : List (Nat × Position)) : Prop :=
  ∀ p ∈ given, p.2 = prompt.positionAt p.1

/-- A finished prefill gave every token its own position, and generated tokens follow the largest
one: their positions are the indices shifted by the rope delta of the device. -/
def PrefillRecord.Placed (r : PrefillRecord) : Prop :=
  r.given.map Prod.fst = List.range' r.base (r.prompt.size - r.base) ∧
    OwnPositions r.prompt r.given ∧ r.deviceRopeDelta = r.prompt.ropeDelta ∧
    ∀ k : Nat, ((r.prompt.size + k : Nat) : Int) + r.deviceRopeDelta =
      maximumOf 0 r.prompt.positions + 1 + k

instance (prompt : PreparedPromptData) (base : Nat) : Decidable (Aligned prompt base) :=
  inferInstanceAs (Decidable (_ ∨ _))

/-- **Which positions a prefill gives**: after a visual token those of the prompt, else the indices,
which are those of the prompt only when its rope delta is zero. -/
theorem ownPositions_iff {prompt : PreparedPromptData} (base count : Nat)
    (hprep : Prepared prompt) (hcount : 0 < count) (hle : base + count ≤ prompt.size) :
    OwnPositions prompt ((List.range' base count).map fun i => (i, givenPosition prompt base i)) ↔
      suffixHasVisual prompt base = true ∨ prompt.ropeDelta = 0 := by
  have hmem : ∀ i, i ∈ List.range' base count ↔ base ≤ i ∧ i < base + count := by
    intro i
    rw [List.mem_range'_1]
  by_cases hv : suffixHasVisual prompt base = true
  · refine iff_of_true (fun p hp => ?_) (Or.inl hv)
    obtain ⟨i, -, rfl⟩ := List.mem_map.mp hp
    exact if_pos hv
  · have htext : ∀ j, base ≤ j → prompt.tokenTypes.getD j 0 = 0 := by
      intro j hj
      by_contra hne
      exact hv (suffixHasVisual_iff.mpr ⟨j, hj, hne⟩)
    have hposition : ∀ i, base ≤ i → i < base + count →
        givenPosition prompt base i = .same i ∧ prompt.positionAt i = .same (i + prompt.ropeDelta) :=
      fun i h₁ h₂ => ⟨if_neg hv, hprep.suffix_position htext h₁ (by omega)⟩
    constructor
    · intro hown
      obtain ⟨h₁, h₂⟩ := hposition base (Nat.le_refl _) (by omega)
      have hfirst := hown (base, givenPosition prompt base base)
        (List.mem_map_of_mem ((hmem base).mpr ⟨Nat.le_refl _, by omega⟩))
      rw [h₁, h₂, Position.same, Position.same, Position.mk.injEq] at hfirst
      exact Or.inr (by omega)
    · rintro (hvisual | hdelta)
      · exact absurd hvisual hv
      · intro p hp
        obtain ⟨i, hi, rfl⟩ := List.mem_map.mp hp
        obtain ⟨hi₁, hi₂⟩ := (hmem i).mp hi
        obtain ⟨h₁, h₂⟩ := hposition i hi₁ hi₂
        rw [h₁, h₂, hdelta, Int.add_zero]

/-- **A finished prefill** placed its tokens as the prompt does exactly when it was aligned. -/
theorem PrefillRecord.Ok.placed_iff {r : PrefillRecord} (hr : r.Ok) :
    r.Placed ↔ Aligned r.prompt r.base := by
  have hbase := hr.base_le
  have hmax := hr.prepared.positions_max hr.size_pos
  have hindices : r.given.map Prod.fst = List.range' r.base (r.prompt.size - r.base) := by
    rw [hr.given, List.map_map]
    exact List.map_id _
  have hplaced : r.Placed ↔ OwnPositions r.prompt r.given ∧
      r.deviceRopeDelta = r.prompt.ropeDelta := by
    refine ⟨fun h => ⟨h.2.1, h.2.2.1⟩, fun h => ⟨hindices, h.1, h.2, fun k => ?_⟩⟩
    rw [h.2]
    push_cast
    omega
  rw [hplaced, hr.device]
  by_cases hall : r.base = r.prompt.size
  · have hnone : r.given = [] := by
      rw [hr.given, hall, Nat.sub_self]
      rfl
    refine iff_of_true ⟨?_, if_pos (Or.inl hall)⟩ (Or.inl hall)
    rw [hnone]
    exact nofun
  · have hown := ownPositions_iff r.base (r.prompt.size - r.base) hr.prepared
      (by omega) (by omega)
    rw [← hr.given] at hown
    rw [hown]
    unfold Aligned
    by_cases hv : suffixHasVisual r.prompt r.base = true
    · simp [hv]
    · simp [hv, hall, eq_comm]

/-- **Which prefills give every token its own position**, over all runs: those that have nothing to
prefill, those whose suffix has a visual token, and those of a prompt whose positions are its
indices. The same holds of a prefill that is not finished. -/
theorem Reachable.positions_iff (hr : Reachable cfg s) :
    (∀ r ∈ s.program.prefills, r.Placed ↔ Aligned r.prompt r.base) ∧
      ∀ l staged, (s.slots l).phase = .prefilling → (s.program.lanes l).prefill = some staged →
        (OwnPositions staged.prompt staged.given ↔ Aligned staged.prompt staged.base) := by
  have hs := hr.inv
  refine ⟨fun r hm => (hs.prefills r hm).placed_iff, fun l staged hp hstaged => ?_⟩
  obtain ⟨staged', hstaged', hadvanced, hl, -⟩ := hs.prefillingLane hp
  obtain rfl := Option.some.inj (hstaged.symm.trans hstaged')
  have hcursor := hl.cursor_le
  have hsize := hl.size
  rw [hl.given, ownPositions_iff _ _ hl.prepared (by omega) (by omega)]
  unfold Aligned
  refine ⟨Or.inr, fun h => h.resolve_left ?_⟩
  omega

/-- The prefill of the image is aligned, that of the next turn is not. -/
theorem positions_iff_followUpRun :
    (∀ r ∈ followUpRun.program.prefills, r.Placed ↔ Aligned r.prompt r.base) ∧
      followUpRun.program.prefills.map (fun r => decide (Aligned r.prompt r.base)) =
        [true, false] :=
  ⟨(Reachable.positions_iff reachable_followUpRun).1, by decide +kernel⟩

/-- **A text suffix after a retained image is prefilled at other positions**: the tokens that the
prompt has at 4 and 5 are given 6 and 7, and the rope delta of the device is zero. -/
theorem followUpRun_not_placed :
    Reachable tinyConfig followUpRun ∧ ∃ r ∈ followUpRun.program.prefills,
      r.prompt.positionAt 6 = .same 4 ∧ (6, Position.same 6) ∈ r.given ∧
      r.prompt.ropeDelta = -2 ∧ r.deviceRopeDelta = 0 ∧ ¬r.Placed := by
  have hlast : (followUpRun.program.prefills.getLast?).any (fun r =>
      decide (r.prompt.positionAt 6 = .same 4 ∧ (6, Position.same 6) ∈ r.given ∧
        r.prompt.ropeDelta = -2 ∧ r.deviceRopeDelta = 0)) = true := by
    decide +kernel
  obtain ⟨r, hr, hdec⟩ := (Option.any_eq_true _ _).mp hlast
  obtain ⟨h₁, h₂, h₃, h₄⟩ := of_decide_eq_true hdec
  refine ⟨reachable_followUpRun, r, List.mem_of_getLast? hr, h₁, h₂, h₃, h₄, fun hplaced => ?_⟩
  have hdevice := hplaced.2.2.1
  omega

end Ninfer.Qwen
