import Ninfer.Qwen.Continuing
import Ninfer.Qwen.Safety

/-!
# What a plan reuses

`plan_request_for_lane` may continue the resident sequence of a lane at its end, or restore its
checkpoint. It compares the prompt with the sequence by `prefix_matches`, which says exactly that
the two have the same tokens, types and positions, and the same media items, before a count that
divides no item. In a reachable state the backend of a retained lane reaches as far as its sequence,
so that the fallbacks of the planner never take a reuse back.

## Main definitions

* `SamePrefix`: a prompt and a resident sequence that agree up to a count
* `Reuses`: what a plan should reuse

## Main results

* `prefixMatches_iff`: `prefix_matches` decides `SamePrefix`
* `CompleteLane.backendFallback_eq`: the backend never falls back
* `Reachable.plan_reuses`: what a plan reuses, and where that comes from
-/

namespace Ninfer.Qwen

variable {n : Nat} {cfg : Config n} {s : System n} {l : Fin n}

/-! ## Prefixes -/

/-- A prompt and a resident sequence agree on the tokens before `count`, which divides no item. -/
structure SamePrefix (p : PreparedPromptData) (ledger : List TokenId)
    (identity : ResidentPrefixIdentity) (count : Nat) : Prop where
  size_le : count ≤ p.size
  ledger_le : count ≤ ledger.length
  identity_le : count ≤ identity.size
  tokens : p.tokenIds.take count = ledger.take count
  types : p.tokenTypes.take count = identity.tokenTypes.take count
  positions : p.positions.take count = identity.positions.take count
  items : ∃ before after after', p.visionItems = before ++ after ∧
    identity.visionItems = before ++ after' ∧ (∀ item ∈ before, Before count item) ∧
    (∀ item ∈ after, After count item) ∧ ∀ item ∈ after', After count item

variable {p : PreparedPromptData} {ledger : List TokenId} {identity : ResidentPrefixIdentity}
  {items before after : List VisionItem} {size tokens : Nat}

/-- The spans of an item before the frontier. -/
theorem WellPlaced.spans_before (h : WellPlaced items size) {item : VisionItem} (hm : item ∈ items)
    (hbefore : Before tokens item) :
    item.tokenSpans ≠ [] ∧ ∀ span ∈ item.tokenSpans, 0 < span.count ∧ span.stop ≤ tokens := by
  refine ⟨h.nonempty item hm, fun span hspan => ⟨h.positive item hm span hspan, ?_⟩⟩
  obtain ⟨last, hlast, hstop⟩ := hbefore
  obtain ⟨init, hinit⟩ := List.getLast?_eq_some_iff.mp hlast
  have hord := h.item_ordered hm
  rw [hinit, List.pairwise_append] at hord
  rw [hinit] at hspan
  rcases List.mem_append.mp hspan with hspan | hspan
  · have hle := hord.2.2 span hspan last (List.mem_singleton_self last)
    unfold TokenSpan.stop at hle hstop ⊢
    omega
  · rw [List.mem_singleton.mp hspan]
    exact hstop

/-- The spans of an item at or after the frontier. -/
theorem WellPlaced.spans_after (h : WellPlaced items size) {item : VisionItem} (hm : item ∈ items)
    (hafter : After tokens item) :
    item.tokenSpans ≠ [] ∧ ∀ span ∈ item.tokenSpans, tokens ≤ span.start ∧ 0 < span.count := by
  refine ⟨h.nonempty item hm, fun span hspan => ?_⟩
  have hpos := h.positive item hm span hspan
  obtain ⟨first, hfirst, hle⟩ := hafter
  have hstart : span.start ∈ item.scatterIndices :=
    mem_scatterIndices.mpr ⟨span, hspan, Nat.le_refl _, by
      unfold TokenSpan.stop
      omega⟩
  exact ⟨hle.trans (h.first_le hm hfirst hstart), hpos⟩

/-- **A frontier that divides no item** counts those before it. -/
theorem WellPlaced.prefixItemCount (h : WellPlaced (before ++ after) size)
    (hbefore : ∀ item ∈ before, Before tokens item) (hafter : ∀ item ∈ after, After tokens item) :
    prefixItemCount tokens false 0 (before ++ after) = some before.length := by
  have hcount : Qwen.prefixItemCount tokens false 0 _ = some (0 + before.length) :=
    prefixItemCount_append
      (fun item hm => h.spans_before (List.mem_append_left after hm) (hbefore item hm))
      fun item hm => h.spans_after (List.mem_append_right before hm) (hafter item hm)
  rw [hcount, Nat.zero_add]

theorem zip_self_sameItem (items : List VisionItem) :
    (items.zip items).all (fun x => sameItem x.1 x.2) = true := by
  induction items with
  | nil => rfl
  | cons item items ih =>
    rw [List.zip_cons_cons, List.all_cons, ih, Bool.and_true]
    exact sameItem_iff.mpr rfl

/-- **`prefix_matches`** decides whether a prompt and a resident sequence agree. -/
theorem prefixMatches_iff {size' : Nat} (hp : WellPlaced p.visionItems size)
    (hr : WellPlaced identity.visionItems size') (htypes : p.tokenTypes.length = p.size)
    (hpositions : p.positions.length = p.size) {count : Nat} :
    prefixMatches p ledger identity count = true ↔ SamePrefix p ledger identity count := by
  constructor
  · -- The two counts agree, so that the items before `count` are compared one by one.
    intro h
    obtain ⟨hsize, hledger, hidentity, -⟩ := prefixMatches_entries hp hr h
    unfold prefixMatches at h
    rw [if_neg (by omega), Bool.and_eq_true, decide_eq_true_eq] at h
    obtain ⟨htokens, h⟩ := h
    unfold ResidentPrefixIdentity.matchesPrompt at h
    split_ifs at h with hshape hty hpos
    split at h
    next incoming resident hin hres =>
      rw [Bool.and_eq_true, beq_iff_eq] at h
      obtain ⟨rfl, hall⟩ := h
      obtain ⟨j, hj, hle, -, hbefore, hafter⟩ := prefixItemCount_spec hin
      obtain ⟨j', hj', hle', -, -, hafter'⟩ := prefixItemCount_spec hres
      rw [Nat.zero_add] at hj hj'
      subst hj
      subst hj'
      have hitems : p.visionItems.take incoming = identity.visionItems.take incoming :=
        zip_all_sameItem (by simp; omega) hall
      refine ⟨hsize, hledger, hidentity, htokens, not_not.mp hty, not_not.mp hpos,
        p.visionItems.take incoming, p.visionItems.drop incoming,
        identity.visionItems.drop incoming, (List.take_append_drop ..).symm, ?_, hbefore, hafter,
        hafter'⟩
      rw [hitems, List.take_append_drop]
    next => cases h
  · -- Both scans count the items of `before`.
    rintro ⟨hsize, hledger, hidentity, htokens, hty, hpos, before, after, after', hitems, hitems',
      hbefore, hafter, hafter'⟩
    rw [hitems] at hp
    rw [hitems'] at hr
    have hcount := hp.prefixItemCount hbefore hafter
    have hcount' := hr.prefixItemCount hbefore hafter'
    unfold prefixMatches ResidentPrefixIdentity.matchesPrompt
    rw [if_neg (by omega), Bool.and_eq_true, decide_eq_true_eq, if_neg (by omega),
      if_neg (not_not.mpr hty), if_neg (not_not.mpr hpos), hitems, hitems', hcount, hcount']
    simp only [List.take_left', beq_self_eq_true, Bool.true_and]
    exact ⟨htokens, zip_self_sameItem before⟩

/-! ## The reuse of a plan -/

/-- The planner may reuse what the lane `x` retains. -/
def MayReuse (x : Lane) (prompt : PreparedPromptData) (base : RequestBasePlan) : Prop :=
  base.allowPrefixReuse = true ∧ prompt.identity.reusable = true ∧ x.retained = true

/-- The prompt has the executed tokens of the lane `x` as a prefix. -/
def Lane.ContinuedBy (x : Lane) (prompt : PreparedPromptData) : Prop :=
  SamePrefix prompt x.ledger x.prefixIdentity x.executionFrontier

/-- The prompt has the tokens before the checkpoint of the lane `x` as a prefix. -/
def Lane.RestoredBy (x : Lane) (prompt : PreparedPromptData) : Prop :=
  x.rewriteCheckpoint.valid = true ∧
    SamePrefix prompt x.ledger x.prefixIdentity x.rewriteCheckpoint.frontier

/-- What a plan should reuse: the whole sequence if the prompt continues it, else the checkpoint if
the prompt has its tokens, else nothing. -/
inductive Reuses (x : Lane) (prompt : PreparedPromptData) (base : RequestBasePlan) :
    ReusePath → Nat → Prop
  | append (may : MayReuse x prompt base) (continued : x.ContinuedBy prompt) :
      Reuses x prompt base .appendAtFrontier x.executionFrontier
  | restore (may : MayReuse x prompt base) (other : ¬x.ContinuedBy prompt)
      (restored : x.RestoredBy prompt) :
      Reuses x prompt base (restorePath x.rewriteCheckpoint.kind) x.rewriteCheckpoint.frontier
  | reset (nothing : MayReuse x prompt base → ¬x.ContinuedBy prompt ∧ ¬x.RestoredBy prompt) :
      Reuses x prompt base .fullReset 0

variable {x : Lane} {base : RequestBasePlan} {h : KvHeap n}

/-- The prefix tests of the planner on a retained lane. -/
theorem CompleteLane.selectReuse_reuses (hc : CompleteLane cfg h l x) (base : RequestBasePlan)
    (hp : WellPlaced p.visionItems size) (htypes : p.tokenTypes.length = p.size)
    (hpositions : p.positions.length = p.size) :
    Reuses x p base (selectReuse cfg x p base).1 (selectReuse cfg x p base).2 := by
  have hmatch : ∀ {count : Nat}, prefixMatches p x.ledger x.prefixIdentity count = true ↔
      SamePrefix p x.ledger x.prefixIdentity count :=
    prefixMatches_iff hp hc.sized.placed htypes hpositions
  have hready : cfg.backend ≠ .dflash ∨ x.dflashContextFrontier = x.executionFrontier := by
    by_cases hb : cfg.backend = .dflash
    · exact Or.inr (hc.backend.2 hb)
    · exact Or.inl hb
  unfold selectReuse
  split_ifs with hmay happend hrestore
  · exact .append hmay (hmatch.mp happend.2.2)
  · exact .restore hmay (fun hcont => happend ⟨hc.frontier_pos.ne', hready, hmatch.mpr hcont⟩)
      ⟨hrestore.1, hmatch.mp hrestore.2.2.2⟩
  · refine .reset fun _ => ⟨fun hcont => ?_, fun hrest => ?_⟩
    · exact happend ⟨hc.frontier_pos.ne', hready, hmatch.mpr hcont⟩
    · exact hrestore ⟨hrest.1, (hc.checkpoint hrest.1).1.ne', hrest.2.size_le,
        hmatch.mpr hrest.2⟩
  · exact .reset fun h => absurd h hmay

/-- **The backend never falls back**: its state reaches as far as the sequence of the lane. -/
theorem CompleteLane.backendFallback_eq (hc : CompleteLane cfg h l x) {reuse : ReusePath} {b : Nat}
    (hr : Reuses x p base reuse b) : backendFallback cfg x (reuse, b) = (reuse, b) := by
  have htail := hc.tail
  have hpos := hc.frontier_pos
  unfold backendFallback
  cases hb : cfg.backend with
  | none => rfl
  | mtp =>
    -- Both tests ask the draft head for one token less than the frontier.
    have hreach := hc.backend.1 hb
    refine if_neg fun hfall => ?_
    obtain ⟨hne, happend, hcheckpoint⟩ := hfall
    cases hr with
    | append => exact happend ⟨rfl, htail, Or.inr (by omega)⟩
    | restore _ _ restored =>
      have hfront := hc.checkpoint restored.1
      exact hcheckpoint ⟨isRewriteCheckpointRestore_restorePath _, hfront.1.ne', by
        dsimp only
        omega⟩
    | reset => exact hne rfl
  | dflash =>
    have hreach := hc.backend.2 hb
    refine if_neg fun hfall => ?_
    obtain ⟨hpath, hstate⟩ := hfall
    cases hr with
    | append => cases hpath
    | restore _ _ restored =>
      have hfront := hc.checkpoint restored.1
      have hbundle : x.kv.any (·.backend) = true := by
        rw [hc.resting.kv]
        simp [Config.bundle, Config.hasBackend, hb]
      rcases hstate with hstate | hstate
      · exact hstate hbundle
      · dsimp only at hstate
        omega
    | reset => cases hpath

/-- **What a plan reuses**, for any lane of any reachable state: the sequence or the checkpoint of
the lane exactly when the prompt continues it. What is reused has been executed, is valid in the
caches of the lane, and has the entries that the prompt has there. -/
theorem Reachable.plan_reuses (hr : Reachable cfg s) (l : Fin n) (prompt : PreparedPrompt)
    (options : ExecutionOptions) (base : RequestBasePlan) (plan : RequestPlan)
    (hbase : planRequestBase cfg prompt.toPreparedPromptData options = .ok base)
    (hplan : planRequestForLane cfg (s.program.lanes l) prompt.toPreparedPromptData base =
      .ok plan) :
    Reuses (s.program.lanes l) prompt.toPreparedPromptData base plan.reuse plan.reuseBase ∧
      (plan.reuse ≠ .fullReset →
        plan.reuseBase ≤ (s.program.lanes l).executionFrontier ∧
        (s.program.lanes l).textKvValid = (s.program.lanes l).executionFrontier ∧
        BackendAt cfg (s.program.lanes l) (s.program.lanes l).executionFrontier ∧
        prompt.entries.take plan.reuseBase =
          (s.program.lanes l).entries.take plan.reuseBase) := by
  have hs := hr.inv
  have hplaced := (planRequestBase_spec hbase).media.placed
  have hp := planRequestForLane_spec hplan
  obtain ⟨hfree, -⟩ := hs.free (hs.of_not_busy hp.free)
  have hreuse : (plan.reuse, plan.reuseBase) = backendFallback cfg (s.program.lanes l)
      (selectReuse cfg (s.program.lanes l) prompt.toPreparedPromptData base) := by
    unfold planRequestForLane at hplan
    rw [if_neg (by simp [hp.free])] at hplan
    cases hplan
    rfl
  constructor
  · by_cases hret : (s.program.lanes l).retained = true
    · have hc := hfree.complete hret
      have hsel := hc.selectReuse_reuses base hplaced prompt.prepared.types_length
        prompt.prepared.positions_length
      rw [hc.backendFallback_eq hsel] at hreuse
      obtain ⟨hpath, hcount⟩ := Prod.mk.inj hreuse
      rw [hpath, hcount]
      exact hsel
    · -- A lane that retains nothing is reset.
      have hpath : plan.reuse = .fullReset := by
        by_contra hne
        exact hret (hp.reuse.resident hne).1
      rw [hpath, hp.reuse.reset hpath]
      exact .reset fun hmay => absurd hmay.2.2 hret
  · intro hne
    obtain ⟨hret, -, hmatch⟩ := hp.reuse.resident hne
    have hc := hfree.complete hret
    exact ⟨hc.base_le hp.reuse, hc.textKvValid, hc.backend,
      (prefixMatches_entries hplaced hc.sized.placed hmatch).2.2.2⟩

theorem plan_reuses_retainedRun :
    Reuses (retainedRun.program.lanes 0) followUpPrompt followUpBase .appendAtFrontier 6 ∧
      followUpPrompt.entries.take 6 = (retainedRun.program.lanes 0).entries.take 6 := by
  obtain ⟨hbase, hplan⟩ :
      planRequestBase tinyConfig followUpPrompt ⟨6, true, none⟩ = .ok followUpBase ∧
        planRequestForLane tinyConfig (retainedRun.program.lanes 0) followUpPrompt followUpBase =
          .ok followUpPlan := by
    decide +kernel
  obtain ⟨hreuses, hreused⟩ := Reachable.plan_reuses reachable_retainedRun 0
    ⟨followUpPrompt, prepared_followUpPrompt⟩ ⟨6, true, none⟩ followUpBase followUpPlan hbase
    hplan
  exact ⟨hreuses, (hreused (by decide)).2.2.2⟩

end Ninfer.Qwen
