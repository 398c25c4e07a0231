import Ninfer.Qwen.Advancing

/-!
# Decode rounds

The decision on a first token leaves its lane active or retained. An active lane passes the
readiness checks of a decode round, and the round stays within what was reserved for its request.
The only exception of a round is that for a token outside the token domain.

## Main results

* `settleLane_spec`: a lane whose frontiers are resolved is settled
* `resolvePrefillLane_spec`: the decision on a first token
* `decodeRow_spec`: a row of a round
* `decodeBatch_spec`: a round
-/

namespace Ninfer.Qwen

open PagedKV

variable {n : Nat} {cfg : Config n} {l : Fin n} {h : KvHeap n} {x : Lane} {budget : Nat}
  {s : Program n}

/-! ## Settling -/

/-- **The pools of a lane that settles**: trimmed to what is valid and, when the request has ended,
entitled to what is mapped and not bound. -/
theorem settleKv_spec {p : Pools n} {text back : Nat} (hi : KvInv cfg p.heap)
    (hb : Bound cfg p.heap l x text back) (ht : x.textKvValid ≤ text)
    (hcap : x.textKvValid ≤ cfg.capacity) (hle : x.backendKvValid cfg ≤ x.textKvValid)
    (hback : cfg.hasBackend = true → x.backendKvValid cfg ≤ back) (terminal : Bool) :
    ∃ p', settleKv cfg l x terminal p = .ok () p' ∧ PoolsBecame cfg l p p' ∧
      (terminal = false → Bound cfg p'.heap l x x.textKvValid (x.backendKvValid cfg)) ∧
      (terminal = true → Resting cfg p'.heap l x x.textKvValid (x.backendKvValid cfg)) := by
  obtain ⟨w, ho, hrt, hrb, het, heb, hmt, hmb⟩ := hb.owns
  have hnone : cfg.hasBackend = false → x.backendKvValid cfg = 0 := by
    intro hbk
    have hz : cfg.backend = .none := by simpa [Config.hasBackend] using hbk
    rw [Lane.backendKvValid, hz]
  obtain ⟨h₁, hok₁, hb₁⟩ := trimSequenceKv_spec hi ho hcap hle hnone
    ((pagesForTokens_mono ht).trans hmt) fun hbk => (pagesForTokens_mono (hback hbk)).trans (hmb hbk)
  unfold settleKv
  rw [hb.kv]
  cases terminal with
  | false =>
    refine ⟨{ p with heap := h₁ }, ?_, hb₁.pools, fun _ => ?_, by rintro ⟨⟩⟩
    · simp only [bind, EStateM.bind, onHeap, hok₁]
      rfl
    · exact ⟨hb.kv, _, hb₁.owns, hrt, hrb, het, heb, Nat.le_refl _, fun _ => Nat.le_refl _⟩
  | true =>
    have hb₂ := releaseSequenceGrowthEntitlement_spec hb₁.inv hb₁.owns
    have hb₃ := unbindSequenceKv_spec hb₂.inv hb₂.owns
    refine ⟨_, ?_, ((hb₁.trans hb₂).trans hb₃).pools, (by rintro ⟨⟩), fun _ => ⟨hb.kv, hb₃.owns⟩⟩
    simp only [bind, EStateM.bind, onHeap, hok₁]
    rfl

/-- **A lane whose frontiers are resolved is settled.** -/
theorem settleLane_spec {text back : Nat} (hi : KvInv cfg s.pools.heap)
    (hb : Bound cfg s.pools.heap l x text back) (ht : x.textKvValid ≤ text)
    (hcap : x.textKvValid ≤ cfg.capacity) (hle : x.backendKvValid cfg ≤ x.textKvValid)
    (hback : cfg.hasBackend = true → x.backendKvValid cfg ≤ back) (terminal : Bool) :
    ∃ s', settleLane cfg l x terminal s = .ok () s' ∧ Stepped cfg l s s' ∧
      s'.lanes l = settle x terminal ∧ s'.egress = s.egress ∧ s'.ropeDelta = s.ropeDelta ∧
      s'.prefills = s.prefills ∧
      (terminal = false → Bound cfg s'.pools.heap l x x.textKvValid (x.backendKvValid cfg)) ∧
      (terminal = true → Resting cfg s'.pools.heap l x x.textKvValid (x.backendKvValid cfg)) := by
  obtain ⟨p', hok, hpools, hactive, hresting⟩ := settleKv_spec hi hb ht hcap hle hback terminal
  refine ⟨({ s with pools := p' } : Program n).setLane l (settle x terminal), ?_, ?_,
    Function.update_self .., rfl, rfl, rfl, hactive, hresting⟩
  · simp only [settleLane, hok]
  · exact
      { inv := hpools.inv, only := hpools.only, calls := hpools.calls
        lanes := fun m hm => Function.update_of_ne hm .., egress := rfl
        writes := fun _ => Or.inl, prefills := fun _ => Or.inl }

/-! ## The first token -/

/-- A lane after the decision on its first token, before it settles. -/
def startedLane (x : Lane) (terminal : Bool) : Lane :=
  { x with
    executionFrontier := x.pending.promptTokens
    ledgerFrontier := x.pending.promptTokens + 1
    mtpDraftCount := if terminal then 0 else x.mtpDraftCount }

theorem resolveNonSpeculative_start (hl : StartLane cfg h l x budget) (terminal : Bool) :
    resolveNonSpeculative x 1 terminal = .ok (startedLane x terminal) := by
  obtain ⟨promptTokens, hpending⟩ := hl.pending
  have hstart : x.pending.kind = .start := by rw [hpending]
  have hproduced : x.pending.produced = 1 := by rw [hpending]
  have htypes : x.prefixIdentity.size = x.pending.promptTokens + 1 := hl.sized.types
  unfold resolveNonSpeculative
  simp only [hstart, if_true, check_bind_eq_ok]
  exact ⟨hl.lifecycle, ⟨Or.inl trivial, hproduced, trivial⟩, ⟨trivial, hl.sized.ledger, htypes⟩, rfl⟩

/-- The drafts of the first round are those the prefill has left. -/
theorem initialMtpExtent_eq {promptTokens : Nat} (hb : cfg.backend = .mtp) (hbudget : 1 < budget) :
    initialMtpExtent cfg promptTokens budget = min cfg.draftWindow
      (min (maxByBudget (budget - 1)) (cfg.capacity - promptTokens - 1)) := by
  unfold initialMtpExtent maxByBudget
  rw [if_pos hb]
  split_ifs <;> omega

theorem BackendAt.backendKvValid {tokens : Nat} (hb : BackendAt cfg x tokens) :
    x.backendKvValid cfg ≤ tokens := by
  unfold Lane.backendKvValid
  cases hk : cfg.backend with
  | none => exact Nat.zero_le _
  | mtp => exact (hb.1 hk).le
  | dflash => exact (hb.2 hk).le

/-- **The decision on a first token**: the request ends, or goes on with one token less. -/
theorem resolvePrefillLane_spec (hi : KvInv cfg s.pools.heap)
    (hl : StartLane cfg s.pools.heap l (s.lanes l) budget) {terminal : Bool}
    (hbudget : terminal = false → 1 < budget) :
    ∃ s', resolvePrefillLane cfg l terminal s = .ok () s' ∧ Stepped cfg l s s' ∧
      s'.egress = s.egress ∧ s'.prefills = s.prefills ∧
      s'.lanes l = settle (startedLane (s.lanes l) terminal) terminal ∧
      (terminal = false → ActiveLane cfg s'.pools.heap l (s'.lanes l) (budget - 1)) ∧
      (terminal = true → CompleteLane cfg s'.pools.heap l (s'.lanes l)) := by
  have hcap := hl.fits.capacity
  have hvalid : (startedLane (s.lanes l) terminal).backendKvValid cfg =
      (s.lanes l).backendKvValid cfg := rfl
  have hback := hl.backend.backendKvValid
  have htext := hl.textKvValid
  have hstart : (s.lanes l).pending.kind = .start := by
    obtain ⟨promptTokens, hpending⟩ := hl.pending
    rw [hpending]
  obtain ⟨s', hok, hstep, hlane, hegress, -, hprefills, hactive, hresting⟩ :=
    settleLane_spec (x := startedLane (s.lanes l) terminal) hi (hl.bound.congr rfl rfl) htext.le
      (by rw [show (startedLane (s.lanes l) terminal).textKvValid = _ from htext]; omega)
      (by rw [hvalid, show (startedLane (s.lanes l) terminal).textKvValid = _ from htext]; exact hback)
      (fun _ => hback) terminal
  refine ⟨s', ?_, hstep, hegress, hprefills, hlane, ?_, ?_⟩
  · have hcheck : check ((s.lanes l).pending.kind = .start)
        (.logicError "resolve_prefill_lane requires a pending prefill token") = .ok () :=
      check_of hstart
    unfold resolvePrefillLane resolveNonSpeculativePending
    simp only [bind, EStateM.bind, get, getThe, MonadStateOf.get, EStateM.get, Call.ofExcept, hcheck,
      resolveNonSpeculative_start hl]
    exact hok
  · rintro rfl
    have hb := hbudget rfl
    rw [hlane]
    -- The first token is not executed yet, so that the reservation still covers the rest.
    have hfits : Fits cfg (s.lanes l).reserved ((s.lanes l).pending.promptTokens + (budget - 1)) :=
      hl.fits
    exact
      { lifecycle := rfl
        at_frontier :=
          { prefill := hl.prefill, retained := hl.retained, frontier_pos := hl.size_pos
            ledgerFrontier := rfl, tail := hl.tail, checkpoint := hl.checkpoint
            budget_pos := by omega, fits := hfits }
        sized := { hl.sized with }
        textKvValid := htext
        mtp := fun hm => hl.backend.1 hm
        drafts := fun hm => (hl.drafts hm).trans (initialMtpExtent_eq hm hb)
        dflash := fun hd => by
          have : (s.lanes l).dflashContextFrontier = _ := hl.backend.2 hd
          refine ⟨this.le, ?_⟩
          show (s.lanes l).pending.promptTokens - (s.lanes l).dflashContextFrontier ≤ _
          omega
        bound := by
          have := hactive rfl
          rw [show (startedLane (s.lanes l) false).textKvValid = _ from htext] at this
          exact this.congr rfl rfl }
  · rintro rfl
    rw [hlane]
    exact
      { lifecycle := rfl, retained := rfl, frontier_pos := hl.size_pos
        frontier_le := by
          show (s.lanes l).pending.promptTokens ≤ _
          omega
        ledgerFrontier := rfl, sized := { hl.sized with }, textKvValid := htext
        backend := hl.backend, tail := hl.tail, checkpoint := hl.checkpoint
        resting := by
          have := hresting rfl
          rw [show (startedLane (s.lanes l) true).textKvValid = _ from htext] at this
          exact ⟨this.kv, this.owns⟩ }

/-! ## A round -/

/-- The bounds on the drafts a round verifies. -/
theorem ActiveLane.extent_le (hl : ActiveLane cfg h l x budget) :
    roundExtent cfg x budget ≤ cfg.draftWindow ∧ roundExtent cfg x budget + 1 ≤ budget ∧
      x.executionFrontier + roundExtent cfg x budget + 1 ≤ cfg.capacity := by
  have hpos := hl.at_frontier.budget_pos
  have hcap := hl.at_frontier.fits.capacity
  unfold roundExtent maxByBudget
  cases hb : cfg.backend with
  | none =>
    dsimp only
    omega
  | mtp =>
    dsimp only
    split_ifs <;> omega
  | dflash =>
    dsimp only
    split_ifs <;> omega

/-- **The drafts of an active lane** are all verified by its next round. -/
theorem ActiveLane.extent_eq (hl : ActiveLane cfg h l x budget) (hb : cfg.backend = .mtp) :
    roundExtent cfg x budget = x.mtpDraftCount := by
  have hdrafts := hl.drafts hb
  unfold roundExtent
  rw [hb]
  dsimp only
  omega

/-- **An active lane is ready to decode.** -/
theorem ActiveLane.ready (hl : ActiveLane cfg h l x budget) :
    decodeReady cfg x budget (h.allocs (l, .text)).boundRow
      (h.allocs (l, .backend)).boundRow := by
  obtain ⟨w, ho, hrt, hrb, -⟩ := hl.bound.owns
  have hpos := hl.at_frontier.budget_pos
  have hcap := hl.at_frontier.fits.capacity
  have hfront := hl.at_frontier.ledgerFrontier
  have htypes : x.prefixIdentity.size = x.executionFrontier + 1 := hl.sized.types
  have hkv : cfg.hasBackend = true → x.kv.any (·.backend) = true := fun hbk => by
    rw [hl.bound.kv]
    exact hbk
  have hrow : cfg.hasBackend = true → 0 ≤ (h.allocs (l, .backend)).boundRow := fun hbk => by
    rw [(ho.backend hbk).row, hrb]
    exact Int.natCast_nonneg _
  refine ⟨hl.lifecycle, by omega, by rw [hl.bound.kv]; rfl, ?_, by omega, hfront,
    hl.sized.ledger.trans hfront.symm, htypes.trans hfront.symm, ?_⟩
  · rw [ho.text.row, hrt]
    exact Int.natCast_nonneg _
  · cases hb : cfg.backend with
    | none => trivial
    | mtp =>
      have hbk := hasBackend_of_mtp hb
      refine ⟨hkv hbk, hrow hbk, hl.mtp hb, ?_⟩
      rw [hl.drafts hb]
      exact Nat.min_le_left ..
    | dflash =>
      have hbk := hasBackend_of_dflash hb
      exact ⟨hkv hbk, hrow hbk, hl.textKvValid, hl.dflash hb⟩

/-- **What a round materializes** fits what was reserved. -/
theorem ActiveLane.tokens_fit (hl : ActiveLane cfg h l x budget) :
    (roundTokens cfg x (roundExtent cfg x budget)).1 ≤ cfg.capacity ∧
      (roundTokens cfg x (roundExtent cfg x budget)).2 ≤ cfg.capacity ∧
      (cfg.hasBackend = false → (roundTokens cfg x (roundExtent cfg x budget)).2 = 0) ∧
      pagesForTokens (roundTokens cfg x (roundExtent cfg x budget)).1 ≤ x.reserved .text ∧
      pagesForTokens (roundTokens cfg x (roundExtent cfg x budget)).2 ≤ x.reserved .backend := by
  obtain ⟨h₁, h₂, h₃⟩ := hl.extent_le
  have hfits := hl.at_frontier.fits
  have hcap := hfits.capacity
  have hpos := hl.at_frontier.budget_pos
  refine ⟨h₃, ?_, ?_, ?_, ?_⟩
  · unfold roundTokens
    cases hb : cfg.backend with
    | none => exact Nat.zero_le _
    | mtp => exact Nat.min_le_left ..
    | dflash =>
      dsimp only
      omega
  · intro hbk
    have hz : cfg.backend = .none := by simpa [Config.hasBackend] using hbk
    rw [roundTokens, hz]
  · refine (pagesForTokens_mono ?_).trans hfits.text
    unfold roundTokens
    dsimp only
    omega
  · refine (pagesForTokens_mono ?_).trans hfits.backend
    unfold roundTokens reservedBackendTokens
    cases hb : cfg.backend with
    | none => exact Nat.le_refl _
    | mtp =>
      have hw := cfg.draftWindow_pos (by rw [hb]; simp)
      dsimp only
      omega
    | dflash =>
      dsimp only
      omega

theorem pagesForTokens_max (a b : Nat) :
    pagesForTokens (max a b) ≤ max (pagesForTokens a) (pagesForTokens b) := by
  rcases Nat.le_total a b with hab | hab
  · rw [Nat.max_eq_right hab]
    exact le_max_right _ _
  · rw [Nat.max_eq_left hab]
    exact le_max_left _ _

/-- **Materializing for a bound lane**, within what was reserved: the tokens are mapped. -/
theorem Bound.materialize {p : Pools n} {text back tokens : Nat}
    (hb : Bound cfg p.heap l x text back) (main back' : Nat) (hi : KvInv cfg p.heap)
    (hf : Fits cfg x.reserved tokens)
    (hm : main ≤ cfg.capacity) (hbc : back' ≤ cfg.capacity)
    (hnone : cfg.hasBackend = false → back' = 0) (ht : pagesForTokens main ≤ x.reserved .text)
    (hk : pagesForTokens back' ≤ x.reserved .backend) :
    ∃ p', materializeSequenceKv cfg l x.kv x.reserved main back' p = .ok () p' ∧
      PoolsBecame cfg l p p' ∧ Bound cfg p'.heap l x (max text main) (max back back') := by
  obtain ⟨w, ho, hrt, hrb, het, heb, hmt, hmb⟩ := hb.owns
  have hct : Countable w.text := by
    have := hf.countable .text w.text.mapped w.text.row
    rw [← het] at this
    exact this
  have hcb : Countable w.backend := by
    have := hf.countable .backend w.backend.mapped w.backend.row
    rw [← heb] at this
    exact this
  rw [hb.kv]
  obtain ⟨p', hok, hpools, hown⟩ :=
    materializeSequenceKv_spec _ _ hi ho het heb hct hcb hm hbc hnone ht fun _ => hk
  refine ⟨p', hok, hpools, hb.kv, _, hown, hrt, hrb, het, heb, ?_, fun hbk => ?_⟩
  · exact (pagesForTokens_max ..).trans (max_le_max hmt (Nat.le_refl _))
  · exact (pagesForTokens_max ..).trans (max_le_max (hmb hbk) (Nat.le_refl _))

/-- **One row of the ingress loop**: the tokens of the round are mapped. -/
theorem materializeRow_spec {p : Pools n} (hi : KvInv cfg p.heap)
    (hl : ActiveLane cfg p.heap l x budget) :
    ∃ p', materializeSequenceKv cfg l x.kv x.reserved
        (roundTokens cfg x (roundExtent cfg x budget)).1
        (roundTokens cfg x (roundExtent cfg x budget)).2 p = .ok () p' ∧
      PoolsBecame cfg l p p' ∧
      Bound cfg p'.heap l x (roundTokens cfg x (roundExtent cfg x budget)).1
        (roundTokens cfg x (roundExtent cfg x budget)).2 := by
  obtain ⟨h₁, h₂, h₃, h₄, h₅⟩ := hl.tokens_fit
  obtain ⟨p', hok, hpools, hbound⟩ := hl.bound.materialize _ _ hi hl.at_frontier.fits h₁ h₂ h₃ h₄ h₅
  exact ⟨p', hok, hpools, hbound.mono (le_max_right _ _) fun _ => le_max_right _ _⟩

/-- The egress of a row describes the pending round of its lane. -/
structure EgressFor (cfg : Config n) (x : Lane) (budget : Nat) (e : RowEgress) : Prop where
  licensed : e.licensed.length = x.pending.produced
  next : cfg.backend = .mtp → e.nextExtent =
    nextExtent cfg ((budget : Int) - x.pending.produced)
      ((x.executionFrontier : Int) + x.pending.produced)

/-- A lane with a pending round. -/
structure PendingLane (cfg : Config n) (h : KvHeap n) (l : Fin n) (x : Lane) (budget : Nat) :
    Prop where
  ordinary : cfg.backend = .none → OrdinaryLane cfg h l x budget
  speculative : cfg.backend ≠ .none → SpeculativeLane cfg h l x budget

/-- What a row of a round leaves. -/
structure RowOk (cfg : Config n) (h : KvHeap n) (l : Fin n) (x : Lane) (budget : Nat)
    (verdict : Verdict) (result : RowResult) : Prop where
  lane : PendingLane cfg h l result.lane budget
  egress : EgressFor cfg result.lane budget result.egress
  spans : ∀ span ∈ result.spans,
    SpanWithin cfg (roundTokens cfg x (roundExtent cfg x budget)).1
      (roundTokens cfg x (roundExtent cfg x budget)).2 span

theorem ordinaryRow_spec (hl : ActiveLane cfg h l x budget) (hnone : cfg.backend = .none)
    {h' : KvHeap n} (hb : Bound cfg h' l x (roundTokens cfg x (roundExtent cfg x budget)).1
      (roundTokens cfg x (roundExtent cfg x budget)).2) (verdict : Verdict) :
    (∃ result, ordinaryRow cfg x verdict = .ok result ∧
        RowOk cfg h' l x budget verdict result) ∨
      ordinaryRow cfg x verdict = .error tokenDomainError := by
  have hcap := hl.at_frontier.fits.capacity
  have hcaple := cfg.capacity_le
  have hfront := hl.at_frontier.ledgerFrontier
  have hextent : roundExtent cfg x budget = 0 := by rw [roundExtent, hnone]
  have hidentity := hl.sized.generated 1 (by omega) (by omega)
  unfold ordinaryRow
  rcases validateLicensedTokens_cases [verdict.token] with hvalid | hvalid
  · left
    apply Exists.intro
    apply And.intro
    · simp only [bind_eq_ok]
      exact ⟨(), hvalid, _, hidentity, rfl⟩
    · refine ⟨⟨fun _ => ?_, fun hne => absurd hnone hne⟩, ⟨rfl, fun hm => ?_⟩, ?_⟩
      · exact
          { lifecycle := rfl, pending := rfl, backend := hnone
            at_frontier :=
              { prefill := hl.at_frontier.prefill, retained := hl.at_frontier.retained
                frontier_pos := hl.at_frontier.frontier_pos, ledgerFrontier := hfront, tail := rfl
                checkpoint := hl.at_frontier.checkpoint, budget_pos := hl.at_frontier.budget_pos
                fits := hl.at_frontier.fits }
            sized :=
              { ledger := by simp [hl.sized.ledger]
                types := by simp [hl.sized.types]
                positions := by
                  simp [hl.sized.positions, ResidentPrefixIdentity.generatedPositions]
                placed := hl.sized.placed.mono (Nat.le_succ _)
                rope := hl.sized.rope, dflash := hl.sized.dflash }
            textKvValid := rfl
            bound := by
              refine (hb.mono ?_ fun _ => Nat.zero_le _).congr rfl rfl
              rw [roundTokens, hextent] }
      · cases hnone.symm.trans hm
      · intro span hs
        simp only [roundSpans, hnone, List.mem_singleton] at hs
        subst hs
        show x.executionFrontier + 1 ≤ _
        rw [roundTokens, hextent]
  · right
    rw [hvalid]
    rfl

/-- The licensed tokens of a row: the accepted drafts and one more. -/
theorem length_licensedTokens (hne : cfg.backend ≠ .none) (extent : Nat) (verdict : Verdict) :
    (licensedTokens cfg x extent verdict).length = acceptedDrafts extent verdict + 1 := by
  have hle : acceptedDrafts extent verdict ≤ extent := Nat.min_le_right ..
  have hlen : (roundDrafts cfg x extent verdict).length = extent := by
    unfold roundDrafts
    cases hb : cfg.backend with
    | none => exact absurd hb hne
    | mtp => simp
    | dflash => simp
  rw [licensedTokens, List.length_append, List.length_take, hlen, Nat.min_eq_left hle]
  rfl

theorem nextExtent_bounds (cfg : Config n) (remaining frontier : Int) :
    0 ≤ nextExtent cfg remaining frontier ∧ nextExtent cfg remaining frontier ≤ cfg.draftWindow ∧
      (0 < nextExtent cfg remaining frontier →
        nextExtent cfg remaining frontier ≤ cfg.capacity - frontier - 1) := by
  unfold nextExtent
  dsimp only
  omega

/-- The rows of a speculative round stay within what is materialized. -/
theorem ActiveLane.roundSpans_within (hl : ActiveLane cfg h l x budget)
    (hne : cfg.backend ≠ .none) {licensed : Nat}
    (hle : licensed ≤ roundExtent cfg x budget + 1) :
    ∀ span ∈ roundSpans cfg x (roundExtent cfg x budget) licensed
        (nextExtent cfg ((budget : Int) - licensed) (x.executionFrontier + licensed)),
      SpanWithin cfg (roundTokens cfg x (roundExtent cfg x budget)).1
        (roundTokens cfg x (roundExtent cfg x budget)).2 span := by
  obtain ⟨h₁, h₂, h₃⟩ := hl.extent_le
  obtain ⟨hn₁, hn₂, hn₃⟩ := nextExtent_bounds cfg ((budget : Int) - licensed)
    (x.executionFrontier + licensed)
  intro span hs
  unfold roundSpans at hs
  rw [List.mem_cons] at hs
  rcases hs with rfl | hs
  · exact Nat.le_refl _
  cases hb : cfg.backend with
  | none => exact absurd hb hne
  | mtp =>
    have hw := cfg.draftWindow_pos hne
    have hbk := hasBackend_of_mtp hb
    simp only [hb, List.mem_cons, List.not_mem_nil, or_false] at hs
    rcases hs with rfl | rfl
    · refine ⟨hbk, ?_⟩
      simp only [roundTokens, hb]
      omega
    · refine ⟨hbk, ?_⟩
      simp only [roundTokens, hb]
      omega
  | dflash =>
    have hctx := hl.dflash hb
    simp only [hb, List.mem_singleton] at hs
    subst hs
    refine ⟨hasBackend_of_dflash hb, ?_⟩
    simp only [roundTokens, hb]
    omega

theorem speculativeRow_spec (hl : ActiveLane cfg h l x budget) (hne : cfg.backend ≠ .none)
    {h' : KvHeap n} (hb : Bound cfg h' l x (roundTokens cfg x (roundExtent cfg x budget)).1
      (roundTokens cfg x (roundExtent cfg x budget)).2) (verdict : Verdict) :
    (∃ result, speculativeRow cfg x budget verdict = .ok result ∧
        RowOk cfg h' l x budget verdict result) ∨
      speculativeRow cfg x budget verdict = .error tokenDomainError := by
  obtain ⟨h₁, h₂, h₃⟩ := hl.extent_le
  have hlen := length_licensedTokens (x := x) hne (roundExtent cfg x budget) verdict
  have hacc : acceptedDrafts (roundExtent cfg x budget) verdict ≤ roundExtent cfg x budget :=
    Nat.min_le_right ..
  have hpos := hl.at_frontier.budget_pos
  obtain ⟨count, hcount⟩ : ∃ count, (licensedTokens cfg x (roundExtent cfg x budget) verdict).length =
    count := ⟨_, rfl⟩
  have hmeta : rowMetadata cfg x budget (roundExtent cfg x budget)
      (acceptedDrafts (roundExtent cfg x budget) verdict) count
      (if cfg.backend = .mtp then nextExtent cfg ((budget : Int) - count)
        (x.executionFrontier + count) else 0) := by
    refine ⟨by omega, ?_, by omega, fun hm => ?_, fun _ => hacc, by omega, by omega⟩
    · unfold Config.width
      omega
    · rw [if_pos hm]
      exact ⟨(nextExtent_bounds _ _ _).1, (nextExtent_bounds _ _ _).2.1⟩
  unfold speculativeRow
  simp only [hcount]
  -- The metadata always pass; only a token of the device can fail its check.
  rcases validateLicensedTokens_cases (licensedTokens cfg x (roundExtent cfg x budget) verdict) with
    hvalid | hvalid
  · left
    apply Exists.intro
    apply And.intro
    · rw [check_bind_eq_ok, bind_eq_ok]
      exact ⟨hmeta, (), hvalid, rfl⟩
    · refine ⟨⟨fun hnone => absurd hnone hne, fun _ => ?_⟩, ⟨hcount, fun hm => if_pos hm⟩, ?_⟩
      · exact
          { lifecycle := rfl, pending := ⟨_, rfl⟩, backend := hne
            at_frontier :=
              { prefill := hl.at_frontier.prefill, retained := hl.at_frontier.retained
                frontier_pos := hl.at_frontier.frontier_pos
                ledgerFrontier := hl.at_frontier.ledgerFrontier, tail := hl.at_frontier.tail
                checkpoint := hl.at_frontier.checkpoint, budget_pos := hpos
                fits := hl.at_frontier.fits }
            sized := { hl.sized with }
            textKvValid := hl.textKvValid
            reached := ⟨hl.mtp, fun hd => if_pos hd⟩
            produced_pos := by
              show 0 < count
              omega
            produced_le := by
              show count ≤ budget
              omega
            width := by
              show count ≤ cfg.draftWindow + 1
              omega
            bound := by
              refine (hb.mono ?_ fun _ => ?_).congr rfl rfl
              · show x.executionFrontier + count ≤ x.executionFrontier + roundExtent cfg x budget + 1
                omega
              · show (if cfg.backend = .mtp then x.executionFrontier + count
                  else x.executionFrontier) ≤ _
                unfold roundTokens
                cases hk : cfg.backend with
                | none => exact absurd hk hne
                | mtp =>
                  have hw := cfg.draftWindow_pos hne
                  dsimp only
                  rw [if_pos rfl]
                  omega
                | dflash =>
                  dsimp only
                  rw [if_neg (by simp)] }
      · have hspans := hl.roundSpans_within hne (show count ≤ _ by omega)
        intro span hs
        refine hspans span ?_
        have hsame : roundSpans cfg x (roundExtent cfg x budget) count
            (if cfg.backend = .mtp then nextExtent cfg ((budget : Int) - count)
              (x.executionFrontier + count) else 0) =
            roundSpans cfg x (roundExtent cfg x budget) count
              (nextExtent cfg ((budget : Int) - count) (x.executionFrontier + count)) := by
          unfold roundSpans
          cases hk : cfg.backend with
          | none => rfl
          | mtp => rw [if_pos rfl]
          | dflash => rfl
        rw [← hsame]
        exact hs
  · right
    rw [check_of hmeta]
    show (validateLicensedTokens _ >>= _) = _
    rw [hvalid]
    rfl

/-- **One row of a round.** -/
theorem decodeRow_spec (hl : ActiveLane cfg h l x budget) {h' : KvHeap n}
    (hb : Bound cfg h' l x (roundTokens cfg x (roundExtent cfg x budget)).1
      (roundTokens cfg x (roundExtent cfg x budget)).2) (verdict : Verdict) :
    (∃ result, decodeRow cfg x budget verdict = .ok result ∧
        RowOk cfg h' l x budget verdict result) ∨
      decodeRow cfg x budget verdict = .error tokenDomainError := by
  unfold decodeRow
  by_cases hnone : cfg.backend = .none
  · rw [if_pos hnone]
    exact ordinaryRow_spec hl hnone hb verdict
  · rw [if_neg hnone]
    exact speculativeRow_spec hl hnone hb verdict

/-! ## A batch -/

/-- The rows of a batch are distinct active lanes with their budgets. -/
structure BatchReady (cfg : Config n) (h : KvHeap n) (lanes : Fin n → Lane)
    (rows : List (BatchRow n)) : Prop where
  nodup : (rows.map (·.lane)).Nodup
  active : ∀ row ∈ rows, ActiveLane cfg h row.lane (lanes row.lane) row.budget

theorem BatchReady.tail {lanes : Fin n → Lane} {row : BatchRow n} {rows : List (BatchRow n)}
    (hb : BatchReady cfg h lanes (row :: rows)) : BatchReady cfg h lanes rows :=
  ⟨(List.nodup_cons.mp hb.nodup).2, fun r hr => hb.active r (List.mem_cons_of_mem _ hr)⟩

theorem BatchReady.ne {lanes : Fin n → Lane} {row : BatchRow n} {rows : List (BatchRow n)}
    (hb : BatchReady cfg h lanes (row :: rows)) : ∀ r ∈ rows, r.lane ≠ row.lane := by
  intro r hr heq
  exact (List.nodup_cons.mp hb.nodup).1 (List.mem_map.mpr ⟨r, hr, heq⟩)

/-- **The membership loop** passes. -/
theorem checkRows_spec : ∀ {rows : List (BatchRow n)} {seen : List (Fin n)},
    BatchReady cfg s.pools.heap s.lanes rows → (∀ row ∈ rows, row.lane ∉ seen) →
    checkRows cfg s seen rows = .ok ()
  | [], _, _, _ => rfl
  | row :: rows, seen, hb, hseen => by
    unfold checkRows
    rw [check_bind_eq_ok, check_bind_eq_ok]
    refine ⟨hseen row (List.mem_cons_self ..), (hb.active row (List.mem_cons_self ..)).ready,
      checkRows_spec hb.tail ?_⟩
    intro r hr hmem
    rcases List.mem_cons.mp hmem with heq | hmem
    · exact hb.ne r hr heq
    · exact hseen r (List.mem_cons_of_mem _ hr) hmem

/-- **The ingress loop** materializes what the rows need. -/
theorem materializeRows_spec {lanes : Fin n → Lane} : ∀ {rows : List (BatchRow n)} {p : Pools n},
    KvInv cfg p.heap → BatchReady cfg p.heap lanes rows →
    ∃ p', materializeRows cfg lanes rows p = .ok () p' ∧ KvInv cfg p'.heap ∧
      (∀ m, m ∉ rows.map (·.lane) → ∀ c, p'.heap.allocs (m, c) = p.heap.allocs (m, c)) ∧
      (∀ call ∈ p'.calls, call ∈ p.calls ∨ call.Within) ∧
      ∀ row ∈ rows, Bound cfg p'.heap row.lane (lanes row.lane)
        (roundTokens cfg (lanes row.lane) (roundExtent cfg (lanes row.lane) row.budget)).1
        (roundTokens cfg (lanes row.lane) (roundExtent cfg (lanes row.lane) row.budget)).2
  | [], p, hi, _ => ⟨p, rfl, hi, fun _ _ _ => rfl, fun _ => Or.inl, nofun⟩
  | row :: rows, p, hi, hb => by
    obtain ⟨p₁, hok₁, hp₁, hbound⟩ := materializeRow_spec hi (hb.active row (List.mem_cons_self ..))
    have hready : BatchReady cfg p₁.heap lanes rows := by
      refine ⟨hb.tail.nodup, fun r hr => ?_⟩
      exact (hb.tail.active r hr).frame (hp₁.only r.lane (hb.ne r hr))
    obtain ⟨p₂, hok₂, hi₂, honly, hcalls, hbounds⟩ := materializeRows_spec hp₁.inv hready
    have hrow : row.lane ∉ rows.map (·.lane) := (List.nodup_cons.mp hb.nodup).1
    refine ⟨p₂, ?_, hi₂, ?_, ?_, ?_⟩
    · unfold materializeRows
      rw [Call.bind_of_ok hok₁]
      exact hok₂
    · intro m hm c
      rw [List.map_cons, List.mem_cons, not_or] at hm
      exact (honly m hm.2 c).trans (hp₁.only m hm.1 c)
    · intro call hc
      exact (hcalls call hc).elim (hp₁.calls call) Or.inr
    · intro r hr
      rcases List.mem_cons.mp hr with rfl | hr
      · exact hbound.frame (honly r.lane hrow)
      · exact hbounds r hr

/-- The state after one row of the egress loop. -/
def decoded (s : Program n) (l : Fin n) (result : RowResult) : Program n :=
  (s.record l result.spans).setLane l result.lane

/-- What the egress loop leaves: the pools are as before, and each row has its result. -/
structure RowsDone (cfg : Config n) (rows : List (BatchRow n)) (s s' : Program n)
    (egress : List RowEgress) : Prop where
  pools : s'.pools = s.pools
  prefills : s'.prefills = s.prefills
  ropeDelta : s'.ropeDelta = s.ropeDelta
  lanes : ∀ m, m ∉ rows.map (·.lane) → s'.lanes m = s.lanes m
  writes : ∀ write ∈ s'.writes, write ∈ s.writes ∨ write.Mapped
  results : List.Forall₂ (fun row e => ∃ result,
    decodeRow cfg (s.lanes row.lane) row.budget row.verdict = .ok result ∧ result.egress = e ∧
      s'.lanes row.lane = result.lane ∧
      RowOk cfg s.pools.heap row.lane (s.lanes row.lane) row.budget row.verdict result) rows egress

/-- What a throw of the egress loop leaves. -/
structure RowsFailed (cfg : Config n) (rows : List (BatchRow n)) (s s' : Program n) : Prop where
  pools : s'.pools = s.pools
  prefills : s'.prefills = s.prefills
  lanes : ∀ m, m ∉ rows.map (·.lane) → s'.lanes m = s.lanes m
  writes : ∀ write ∈ s'.writes, write ∈ s.writes ∨ write.Mapped

/-- **The egress loop.** -/
theorem decodeRows_spec : ∀ {rows : List (BatchRow n)} {s : Program n}, KvInv cfg s.pools.heap →
    BatchReady cfg h s.lanes rows →
    (∀ row ∈ rows, Bound cfg s.pools.heap row.lane (s.lanes row.lane)
      (roundTokens cfg (s.lanes row.lane) (roundExtent cfg (s.lanes row.lane) row.budget)).1
      (roundTokens cfg (s.lanes row.lane) (roundExtent cfg (s.lanes row.lane) row.budget)).2) →
    (∃ egress s', decodeRows cfg rows s = .ok egress s' ∧ RowsDone cfg rows s s' egress) ∨
      ∃ s', decodeRows cfg rows s = .error tokenDomainError s' ∧ RowsFailed cfg rows s s'
  | [], s, _, _, _ =>
    Or.inl ⟨[], s, rfl, rfl, rfl, rfl, fun _ _ => rfl, fun _ => Or.inl, List.Forall₂.nil⟩
  | row :: rows, s, hi, hb, hbound => by
    have hl := hb.active row (List.mem_cons_self ..)
    rcases decodeRow_spec hl (hbound row (List.mem_cons_self ..)) row.verdict with
      ⟨result, hok, hrow⟩ | herror
    · have hlane : ∀ m, m ≠ row.lane → (decoded s row.lane result).lanes m = s.lanes m :=
        fun m hm => Function.update_of_ne hm ..
      have hself : (decoded s row.lane result).lanes row.lane = result.lane :=
        Function.update_self ..
      have hwrites : ∀ write ∈ (decoded s row.lane result).writes, write ∈ s.writes ∨ write.Mapped := by
        intro write hw
        rcases List.mem_append.mp hw with hw | hw
        · exact Or.inl hw
        · obtain ⟨span, hs, rfl⟩ := List.mem_map.mp hw
          exact Or.inr ((hbound row (List.mem_cons_self ..)).mapped hl.at_frontier.fits hi
            (hrow.spans span hs))
      have hnot : row.lane ∉ rows.map (·.lane) := (List.nodup_cons.mp hb.nodup).1
      have hready : BatchReady cfg h (decoded s row.lane result).lanes rows := by
        refine ⟨hb.tail.nodup, fun r hr => ?_⟩
        rw [hlane r.lane (hb.ne r hr)]
        exact hb.tail.active r hr
      -- The row has changed only its own lane: the rows behind it are as ready as before.
      have hrest := decodeRows_spec (s := decoded s row.lane result) hi hready fun r hr => by
        rw [hlane r.lane (hb.ne r hr)]
        exact hbound r (List.mem_cons_of_mem _ hr)
      have hframe : ∀ m, m ∉ (row :: rows).map (·.lane) → m ≠ row.lane ∧ m ∉ rows.map (·.lane) := by
        intro m hm
        rw [List.map_cons, List.mem_cons, not_or] at hm
        exact hm
      rcases hrest with ⟨egress, s', hok', hdone⟩ | ⟨s', herror', hfailed⟩
      · left
        refine ⟨result.egress :: egress, s', ?_, hdone.pools, hdone.prefills, hdone.ropeDelta, ?_, ?_,
          List.Forall₂.cons ⟨result, hok, rfl, ?_, hrow⟩ ?_⟩
        · unfold decodeRows
          simp only [bind, EStateM.bind, get, getThe, MonadStateOf.get, EStateM.get, set,
            EStateM.set, Call.ofExcept, hok]
          rw [show decodeRows cfg rows ((s.record row.lane result.spans).setLane row.lane
            result.lane) = .ok egress s' from hok']
          rfl
        · intro m hm
          exact (hdone.lanes m (hframe m hm).2).trans (hlane m (hframe m hm).1)
        · intro write hw
          exact (hdone.writes write hw).elim (hwrites write) Or.inr
        · exact (hdone.lanes row.lane hnot).trans hself
        · refine List.forall₂_iff_get.mpr ?_
          have hall := List.forall₂_iff_get.mp hdone.results
          refine ⟨hall.1, fun i h₁ h₂ => ?_⟩
          obtain ⟨r, hr, he, hl', hro⟩ := hall.2 i h₁ h₂
          have hne := hb.ne _ (List.get_mem rows ⟨i, h₁⟩)
          rw [hlane _ hne] at hr hro
          exact ⟨r, hr, he, hl', hro⟩
      · right
        refine ⟨s', ?_, hfailed.pools, hfailed.prefills, ?_, ?_⟩
        · unfold decodeRows
          simp only [bind, EStateM.bind, get, getThe, MonadStateOf.get, EStateM.get, set,
            EStateM.set, Call.ofExcept, hok]
          rw [show decodeRows cfg rows ((s.record row.lane result.spans).setLane row.lane
            result.lane) = .error tokenDomainError s' from herror']
        · intro m hm
          exact (hfailed.lanes m (hframe m hm).2).trans (hlane m (hframe m hm).1)
        · intro write hw
          exact (hfailed.writes write hw).elim (hwrites write) Or.inr
    · right
      refine ⟨s, ?_, rfl, rfl, fun _ _ => rfl, fun _ => Or.inl⟩
      unfold decodeRows
      simp only [bind, EStateM.bind, get, getThe, MonadStateOf.get, EStateM.get, Call.ofExcept,
        herror]

/-- A row of a batch that has been decoded. -/
structure RowDecoded (cfg : Config n) (s s' : Program n) (row : BatchRow n) (e : RowEgress)
    (result : RowResult) : Prop where
  decoded : decodeRow cfg (s.lanes row.lane) row.budget row.verdict = .ok result
  egress : result.egress = e
  lane : s'.lanes row.lane = result.lane
  pending : PendingLane cfg s'.pools.heap row.lane (s'.lanes row.lane) row.budget
  describes : EgressFor cfg (s'.lanes row.lane) row.budget e

/-- **`decode_batch`** of distinct active lanes: it throws only for a token outside the domain, and
then clears its lanes. -/
theorem decodeBatch_spec {rows : List (BatchRow n)} (hi : KvInv cfg s.pools.heap)
    (hne : rows ≠ []) (hb : BatchReady cfg s.pools.heap s.lanes rows) :
    (∃ egress s', decodeBatch cfg rows s = .ok egress s' ∧
        BatchStepped cfg (rows.map (·.lane)) s s' ∧ s'.egress = egress ∧
        s'.prefills = s.prefills ∧
        List.Forall₂ (fun row e => ∃ result, RowDecoded cfg s s' row e result) rows egress) ∨
      ∃ s', decodeBatch cfg rows s = .error tokenDomainError s' ∧
        BatchStepped cfg (rows.map (·.lane)) s s' ∧ s'.prefills = s.prefills ∧
        ∀ row ∈ rows, EmptyLane s'.pools.heap row.lane (s'.lanes row.lane) := by
  have hlen : rows.length ≤ n := by
    have := hb.nodup.length_le_card
    simpa using this
  have hmembers : check (rows ≠ [] ∧ rows.length ≤ n)
      (.invalidArgument (batchLabel cfg ++ " membership is invalid")) = .ok () :=
    check_of ⟨hne, hlen⟩
  have hrows : checkRows cfg s [] rows = .ok () := checkRows_spec hb (by simp)
  obtain ⟨p, hok, hi', honly, hcalls, hbounds⟩ := materializeRows_spec hi hb
  have hpools : onPools (materializeRows cfg s.lanes rows) s = .ok () { s with pools := p } := by
    simp only [onPools, hok]
  unfold decodeBatch
  simp only [bind, EStateM.bind, get, getThe, MonadStateOf.get, EStateM.get, Call.ofExcept, hmembers,
    hrows, Call.handle, hpools]
  -- After the pages are mapped only a row can throw, and the handler then clears every lane.
  rcases decodeRows_spec (s := { s with pools := p }) hi' (h := s.pools.heap) hb hbounds with
    ⟨egress, s', hdecode, hdone⟩ | ⟨s', hdecode, hfailed⟩
  · left
    rw [hdecode]
    refine ⟨egress, { s' with egress := egress }, rfl, ?_, rfl, hdone.prefills, ?_⟩
    · exact
        { inv := by
            show KvInv cfg s'.pools.heap
            rw [hdone.pools]
            exact hi'
          only := by
            intro m hm c
            show s'.pools.heap.allocs (m, c) = _
            rw [hdone.pools]
            exact honly m hm c
          lanes := hdone.lanes
          calls := by
            intro call hc
            refine hcalls call ?_
            have : call ∈ s'.pools.calls := hc
            rw [hdone.pools] at this
            exact this
          writes := hdone.writes
          prefills := by
            intro r hr
            have : r ∈ s'.prefills := hr
            rw [hdone.prefills] at this
            exact Or.inl this }
    · refine hdone.results.imp ?_
      rintro row e ⟨result, hr, he, hl, hrow⟩
      have hheap : s'.pools.heap = p.heap := congrArg Pools.heap hdone.pools
      refine ⟨result, hr, he, hl, ?_, ?_⟩
      · show PendingLane cfg s'.pools.heap row.lane (s'.lanes row.lane) row.budget
        rw [hl, hheap]
        exact hrow.lane
      · show EgressFor cfg (s'.lanes row.lane) row.budget e
        rw [hl, ← he]
        exact hrow.egress
  · right
    rw [hdecode]
    have hinv : KvInv cfg s'.pools.heap := by
      rw [hfailed.pools]
      exact hi'
    have hfirst : BatchStepped cfg (rows.map (·.lane)) s s' :=
      { inv := hinv
        only := by
          intro m hm c
          rw [hfailed.pools]
          exact honly m hm c
        lanes := hfailed.lanes
        calls := by
          intro call hc
          rw [hfailed.pools] at hc
          exact hcalls call hc
        writes := hfailed.writes
        prefills := by
          intro r hr
          rw [hfailed.prefills] at hr
          exact Or.inl hr }
    obtain ⟨hclear, hempty, hprefills⟩ := clearLanes_spec (rows.map (·.lane)) hinv
    refine ⟨_, rfl, hfirst.trans hclear, hprefills.trans hfailed.prefills, ?_⟩
    intro row hrow
    exact hempty row.lane (List.mem_map_of_mem hrow)

end Ninfer.Qwen
