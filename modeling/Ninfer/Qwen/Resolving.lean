import Ninfer.Qwen.Rounds

/-!
# The resolution of a round

Every resolution of a round that the executor may choose leaves each lane of the batch active,
retained or empty, with its frontiers in step. It throws nothing.

## Main definitions

* `ResolutionOk`: what the executor may decide about a row
* `Resolved`: what the decision leaves of the lane

## Main results

* `commitRow_eq`, `commitRows_spec`: the commit of a speculative round
* `resolveOrdinary_spec`: the resolution of an ordinary round
* `resolvePendingBatch_spec`: a resolution
-/

namespace Ninfer.Qwen

open PagedKV

variable {n : Nat} {cfg : Config n} {l : Fin n} {h : KvHeap n} {x : Lane} {budget : Nat}
  {s : Program n} {row : Resolution}

/-! ## The resolution of a speculative round -/

/-- What the executor may decide about a pending row. -/
structure ResolutionOk (x : Lane) (budget : Nat) (row : Resolution) : Prop where
  cancelled : row.cancelled = true → row.accepted = 0
  accepted : row.cancelled = false → 0 < row.accepted ∧ row.accepted ≤ x.pending.produced
  more : row.cancelled = false → row.terminal = false →
    row.accepted = x.pending.produced ∧ x.pending.produced < budget

/-- What a resolved row leaves of its lane. -/
structure Resolved (cfg : Config n) (h : KvHeap n) (l : Fin n) (x : Lane) (budget : Nat)
    (row : Resolution) : Prop where
  cancelled : row.cancelled = true → EmptyLane h l x
  terminal : row.cancelled = false → row.terminal = true → CompleteLane cfg h l x
  more : row.cancelled = false → row.terminal = false →
    ActiveLane cfg h l x (budget - row.accepted)

theorem SpeculativeLane.baseE (hl : SpeculativeLane cfg h l x budget) :
    x.pending.baseE = x.executionFrontier ∧ x.pending.baseS = x.ledgerFrontier ∧
      x.pending.kind = .speculative := by
  obtain ⟨produced, hp⟩ := hl.pending
  rw [hp]
  exact ⟨rfl, rfl, rfl⟩

/-- **The checks of a resolution** pass. -/
theorem checkPending_spec (hl : SpeculativeLane cfg h l x budget)
    (hr : ResolutionOk x budget row) : checkPending cfg x row = .ok () := by
  obtain ⟨hE, hS, hkind⟩ := hl.baseE
  have hfront := hl.at_frontier.ledgerFrontier
  have hledger := hl.sized.ledger
  have htypes : x.prefixIdentity.size = x.executionFrontier + 1 := hl.sized.types
  unfold checkPending
  rw [check_bind_eq_ok, check_bind_eq_ok]
  refine ⟨⟨hl.lifecycle, hkind⟩, ⟨hE.symm, hS.symm, by omega, by omega, ?_, ?_, ?_⟩, check_of ?_⟩
  · rw [hl.textKvValid, hE]
  · intro hm
    rw [hl.reached.1 hm, hE]
  · intro hd
    rw [hl.reached.2 hd, hE]
  · cases hc : row.cancelled with
    | true => exact hr.cancelled hc
    | false =>
      obtain ⟨h₁, h₂⟩ := hr.accepted hc
      refine ⟨by omega, h₂, ?_⟩
      cases ht : row.terminal with
      | true => exact Or.inl rfl
      | false => exact Or.inr (hr.more hc ht).1

/-- The extent the device computes for the next round, from what the host knows. -/
theorem nextExtent_eq (remaining : Nat) {frontier : Nat} (hle : frontier < cfg.capacity) :
    (nextExtent cfg remaining frontier).toNat =
      min cfg.draftWindow (min (maxByBudget remaining) (cfg.capacity - frontier - 1)) := by
  unfold nextExtent maxByBudget
  dsimp only
  split_ifs <;> omega

/-- A committed row before it settles. -/
def committedLane (cfg : Config n) (x : Lane) (row : Resolution) (egress : RowEgress) : Lane :=
  { x with
    ledger := x.ledger ++ egress.licensed.take row.accepted
    prefixIdentity :=
      ⟨x.prefixIdentity.tokenTypes ++ List.replicate row.accepted 0,
        x.prefixIdentity.positions ++ ResidentPrefixIdentity.generatedPositions
          (x.executionFrontier + 1) x.ropeDelta row.accepted,
        x.prefixIdentity.visionItems⟩
    executionFrontier := x.executionFrontier + row.accepted
    ledgerFrontier := x.ledgerFrontier + row.accepted
    textKvValid := x.executionFrontier + row.accepted
    tailHiddenValid := true
    mtpKvValid := if cfg.backend = .mtp then x.executionFrontier + row.accepted else x.mtpKvValid
    mtpDraftCount :=
      if cfg.backend = .mtp then (if row.terminal then 0 else egress.nextExtent.toNat)
      else x.mtpDraftCount
    mtpDrafts :=
      if cfg.backend = .mtp ∧ ¬row.terminal then egress.nextDrafts.take egress.nextExtent.toNat
      else x.mtpDrafts
    dflashContextFrontier :=
      if cfg.backend = .mtp then x.dflashContextFrontier
      else if row.terminal then x.executionFrontier + row.accepted else x.executionFrontier }

/-- A speculative row whose decision can be committed: a DFlash request that ends has its context
appended already. -/
structure CommitReady (cfg : Config n) (h : KvHeap n) (l : Fin n) (x : Lane) (budget : Nat)
    (row : Resolution) : Prop where
  lane : SpeculativeLane cfg h l x budget
  ok : ResolutionOk x budget row
  appended : cfg.backend = .dflash → row.cancelled = false → row.terminal = true →
    Bound cfg h l x (x.executionFrontier + x.pending.produced) (x.executionFrontier + row.accepted)

theorem commitRow_eq (hr : CommitReady cfg h l x budget row) (hc : row.cancelled = false)
    (egress : RowEgress) : commitRow cfg x row egress = .ok (committedLane cfg x row egress) := by
  obtain ⟨hE, hS, -⟩ := hr.lane.baseE
  obtain ⟨-, hle⟩ := hr.ok.accepted hc
  have hwidth := hr.lane.width
  have hcap := hr.lane.at_frontier.fits.capacity
  have hcaple := cfg.capacity_le
  have hw := cfg.draftWindow_le
  have hidentity := hr.lane.sized.generated row.accepted (by omega)
    (by unfold Config.width at hwidth; omega)
  unfold commitRow
  rw [bind_eq_ok]
  refine ⟨_, hidentity, ?_⟩
  simp only [hE, hS]
  rfl

theorem committedLane_backendKvValid (hl : SpeculativeLane cfg h l x budget) (row : Resolution)
    (egress : RowEgress) : (committedLane cfg x row egress).backendKvValid cfg =
      if cfg.backend = .mtp ∨ row.terminal = true then x.executionFrontier + row.accepted
      else x.executionFrontier := by
  unfold Lane.backendKvValid committedLane
  cases hb : cfg.backend with
  | none => exact absurd hb hl.backend
  | mtp => simp
  | dflash => simp

theorem Checkpointed.mono {a b : Nat} (hc : Checkpointed x a) (hab : a ≤ b) : Checkpointed x b :=
  fun hv => ⟨(hc hv).1, (hc hv).2.trans hab⟩

theorem committedLane_sized (hr : CommitReady cfg h l x budget row) (hc : row.cancelled = false)
    {egress : RowEgress} (he : EgressFor cfg x budget egress) :
    Sized cfg (committedLane cfg x row egress) (x.executionFrontier + row.accepted + 1) := by
  obtain ⟨-, hle⟩ := hr.ok.accepted hc
  have hsized := hr.lane.sized
  have hlen := he.licensed
  exact
    { ledger := by
        simp only [committedLane, List.length_append, List.length_take, hsized.ledger]
        omega
      types := by
        simp only [committedLane, List.length_append, List.length_replicate, hsized.types]
        omega
      positions := by
        simp only [committedLane, List.length_append, hsized.positions,
          ResidentPrefixIdentity.generatedPositions, List.length_map, List.length_range]
        omega
      placed := hsized.placed.mono (by omega)
      rope := hsized.rope, dflash := hsized.dflash }

/-- **The commit of one row**: the lane is active with a smaller budget, or retained. -/
theorem commitRow_spec (hi : KvInv cfg s.pools.heap)
    (hr : CommitReady cfg s.pools.heap l (s.lanes l) budget row) (hc : row.cancelled = false)
    {egress : RowEgress} (he : EgressFor cfg (s.lanes l) budget egress) :
    ∃ s', settleLane cfg l (committedLane cfg (s.lanes l) row egress) row.terminal s = .ok () s' ∧
      Stepped cfg l s s' ∧ s'.egress = s.egress ∧ s'.prefills = s.prefills ∧
      s'.lanes l = settle (committedLane cfg (s.lanes l) row egress) row.terminal ∧
      Resolved cfg s'.pools.heap l (s'.lanes l) budget row := by
  obtain ⟨hpos, hle⟩ := hr.ok.accepted hc
  have hl := hr.lane
  have hproduced := hl.produced_le
  have hcap := hl.at_frontier.fits.capacity
  have hfront := hl.at_frontier.ledgerFrontier
  have hvalid := committedLane_backendKvValid hl row egress
  have hsized := committedLane_sized hr hc he
  -- The bundle has pages for what is valid after the commit.
  obtain ⟨back, hbound, hback⟩ : ∃ back,
      Bound cfg s.pools.heap l (s.lanes l)
        ((s.lanes l).executionFrontier + (s.lanes l).pending.produced) back ∧
      (committedLane cfg (s.lanes l) row egress).backendKvValid cfg ≤ back := by
    by_cases hend : cfg.backend = .dflash ∧ row.terminal = true
    · refine ⟨_, hr.appended hend.1 hc hend.2, ?_⟩
      rw [hvalid, if_pos (Or.inr hend.2)]
    · refine ⟨_, hl.bound, ?_⟩
      rw [hvalid]
      cases hb : cfg.backend with
      | none => exact absurd hb hl.backend
      | mtp =>
        simp only [true_or, if_true]
        omega
      | dflash =>
        have hterm : row.terminal = false := by
          cases ht : row.terminal with
          | false => rfl
          | true => exact absurd ⟨hb, ht⟩ hend
        simp [hterm]
  obtain ⟨s', hok, hstep, hlane, hegress, -, hprefills, hactive, hresting⟩ :=
    settleLane_spec (x := committedLane cfg (s.lanes l) row egress) hi (hbound.congr rfl rfl)
      (by simp only [committedLane]; omega) (by simp only [committedLane]; omega)
      (by rw [hvalid]; simp only [committedLane]; split_ifs <;> omega) (fun _ => hback) row.terminal
  refine ⟨s', hok, hstep, hegress, hprefills, hlane, ?_⟩
  rw [hlane]
  have hcheckpoint : Checkpointed (s.lanes l) ((s.lanes l).executionFrontier + row.accepted) :=
    hl.at_frontier.checkpoint.mono (Nat.le_add_right ..)
  have hfrontpos := hl.at_frontier.frontier_pos
  refine ⟨fun hcan => absurd (hc.symm.trans hcan) (by simp), fun _ ht => ?_, fun _ ht => ?_⟩
  · exact
      { lifecycle := by simp [settle, ht]
        retained := by simp [settle, ht]
        frontier_pos := by simp only [settle, committedLane]; omega
        frontier_le := by simp only [settle, committedLane]; omega
        ledgerFrontier := by simp only [settle, committedLane]; omega
        sized := { hsized with }
        textKvValid := rfl
        backend := by
          refine ⟨fun hb => if_pos hb, fun hb => ?_⟩
          simp [settle, committedLane, hb, ht]
        tail := rfl
        checkpoint := hcheckpoint
        resting := ⟨(hresting ht).kv, (hresting ht).owns⟩ }
  · obtain ⟨hall, hlt⟩ := hr.ok.more hc ht
    have hfits := hl.at_frontier.fits
    exact
      { lifecycle := by simp [settle, ht]
        at_frontier :=
          { prefill := hl.at_frontier.prefill
            retained := by
              simp only [settle, committedLane, ht]
              exact hl.at_frontier.retained
            frontier_pos := by simp only [settle, committedLane]; omega
            ledgerFrontier := by simp only [settle, committedLane]; omega
            tail := rfl
            checkpoint := hcheckpoint
            budget_pos := by omega
            fits := by
              simp only [settle, committedLane]
              rw [show (s.lanes l).executionFrontier + row.accepted + (budget - row.accepted) =
                (s.lanes l).executionFrontier + budget by omega]
              exact hfits }
        sized := { hsized with }
        textKvValid := rfl
        mtp := fun hb => if_pos hb
        drafts := by
          intro hb
          simp only [settle, committedLane, hb, if_true, ht]
          have hnext := nextExtent_eq (budget - row.accepted)
            (show (s.lanes l).executionFrontier + row.accepted < cfg.capacity by omega)
          rw [← hnext, he.next hb, ← hall]
          push_cast [show row.accepted ≤ budget by omega]
          rfl
        dflash := by
          intro hb
          have hwidth := hl.width
          simp only [settle, committedLane, hb, ht]
          refine ⟨by simp, ?_⟩
          simp
          omega
        bound := (hactive ht).congr rfl rfl }

/-! ## The device part -/

/-- The lanes of distinct rows are replaced one after the other. -/
theorem foldl_setLane {f : Fin n × Resolution → Lane → Lane} :
    ∀ {rows : List (Fin n × Resolution)} {s : Program n}, (rows.map Prod.fst).Nodup →
    ∃ lanes, rows.foldl (fun s row => s.setLane row.1 (f row (s.lanes row.1))) s =
        { s with lanes := lanes } ∧
      (∀ m, m ∉ rows.map Prod.fst → lanes m = s.lanes m) ∧
      ∀ row ∈ rows, lanes row.1 = f row (s.lanes row.1)
  | [], s, _ => ⟨s.lanes, rfl, fun _ _ => rfl, nofun⟩
  | row :: rows, s, hnd => by
    obtain ⟨hnot, hnd'⟩ := List.nodup_cons.mp hnd
    obtain ⟨lanes, heq, hother, hrows⟩ :=
      foldl_setLane (f := f) (s := s.setLane row.1 (f row (s.lanes row.1))) hnd'
    have hframe : ∀ m, m ≠ row.1 →
        (s.setLane row.1 (f row (s.lanes row.1))).lanes m = s.lanes m :=
      fun m hm => Function.update_of_ne hm ..
    refine ⟨lanes, heq, ?_, ?_⟩
    · intro m hm
      rw [List.map_cons, List.mem_cons, not_or] at hm
      rw [hother m hm.2, hframe m hm.1]
    · intro r hr
      rcases List.mem_cons.mp hr with rfl | hr
      · rw [hother r.1 hnot]
        exact Function.update_self ..
      · rw [hrows r hr, hframe r.1]
        exact fun heq' => hnot (heq' ▸ List.mem_map_of_mem hr)

/-- **The device part of a resolution** concerns the device of the lanes of the batch only. -/
theorem foldRows_spec {rows : List (Fin n × Resolution)} (hnd : (rows.map Prod.fst).Nodup)
    (s : Program n) :
    ∃ lanes correct, foldRows rows s = { s with lanes := lanes } ∧
      (∀ m, m ∉ rows.map Prod.fst → lanes m = s.lanes m) ∧
      (correct = rows.any fun row => row.2.partialTerminal (s.lanes row.1)) ∧
      ∀ row ∈ rows, lanes row.1 = foldRow (s.lanes row.1) row.2 correct := by
  obtain ⟨lanes, heq, hother, hrows⟩ := foldl_setLane (s := s)
    (f := fun row x => foldRow x row.2 (rows.any fun row => row.2.partialTerminal (s.lanes row.1)))
    hnd
  exact ⟨lanes, _, heq, hother, rfl, hrows⟩

/-- The host state of a folded lane is that of the lane. -/
theorem SpeculativeLane.fold (hl : SpeculativeLane cfg h l x budget) (row : Resolution)
    (correct : Bool) : SpeculativeLane cfg h l (foldRow x row correct) budget where
  lifecycle := hl.lifecycle
  pending := hl.pending
  backend := hl.backend
  at_frontier := { hl.at_frontier with }
  sized := { hl.sized with }
  textKvValid := hl.textKvValid
  reached := hl.reached
  produced_pos := hl.produced_pos
  produced_le := hl.produced_le
  width := hl.width
  bound := hl.bound.congr rfl rfl

theorem ResolutionOk.fold {row' : Resolution} (hr : ResolutionOk x budget row) (correct : Bool) :
    ResolutionOk (foldRow x row' correct) budget row :=
  ⟨hr.cancelled, hr.accepted, hr.more⟩

theorem EgressFor.fold {e : RowEgress} (he : EgressFor cfg x budget e) (correct : Bool) :
    EgressFor cfg (foldRow x row correct) budget e :=
  ⟨he.licensed, he.next⟩


/-! ## The context append of DFlash -/

/-- The rows of a resolution: distinct lanes with a pending speculative round, and decisions that
the executor may make about them. -/
structure RowsPending (cfg : Config n) (h : KvHeap n) (lanes : Fin n → Lane) (budgets : Fin n → Nat)
    (rows : List (Fin n × Resolution)) : Prop where
  nodup : (rows.map Prod.fst).Nodup
  lane : ∀ row ∈ rows, SpeculativeLane cfg h row.1 (lanes row.1) (budgets row.1)
  ok : ∀ row ∈ rows, ResolutionOk (lanes row.1) (budgets row.1) row.2

section Append

variable {lanes : Fin n → Lane} {budgets : Fin n → Nat} {rows : List (Fin n × Resolution)}

theorem RowsPending.tail {row : Fin n × Resolution}
    (hr : RowsPending cfg h lanes budgets (row :: rows)) : RowsPending cfg h lanes budgets rows :=
  ⟨(List.nodup_cons.mp hr.nodup).2, fun r hm => hr.lane r (List.mem_cons_of_mem _ hm),
    fun r hm => hr.ok r (List.mem_cons_of_mem _ hm)⟩

theorem RowsPending.ne {row : Fin n × Resolution}
    (hr : RowsPending cfg h lanes budgets (row :: rows)) : ∀ r ∈ rows, r.1 ≠ row.1 :=
  fun _ hm heq => (List.nodup_cons.mp hr.nodup).1 (heq ▸ List.mem_map_of_mem hm)

theorem RowsPending.filter (hr : RowsPending cfg h lanes budgets rows)
    (p : Fin n × Resolution → Bool) : RowsPending cfg h lanes budgets (rows.filter p) where
  nodup := hr.nodup.sublist (List.filter_sublist.map Prod.fst)
  lane := fun r hm => hr.lane r (List.mem_filter.mp hm).1
  ok := fun r hm => hr.ok r (List.mem_filter.mp hm).1

theorem RowsPending.frame {h' : KvHeap n} (hr : RowsPending cfg h lanes budgets rows)
    (heq : ∀ row ∈ rows, ∀ c, h'.allocs (row.1, c) = h.allocs (row.1, c)) :
    RowsPending cfg h' lanes budgets rows :=
  ⟨hr.nodup, fun r hm => (hr.lane r hm).frame (heq r hm), hr.ok⟩

/-- **One row of the context append**: its tokens are mapped in both caches. -/
theorem appendRow_spec {p : Pools n} (hi : KvInv cfg p.heap) (hd : cfg.backend = .dflash)
    (hl : SpeculativeLane cfg p.heap l x budget) (hr : ResolutionOk x budget row)
    (hc : row.cancelled = false) :
    ∃ p', materializeSequenceKv cfg l x.kv x.reserved
        (max x.textKvValid (x.pending.baseE + row.accepted)) (x.pending.baseE + row.accepted) p =
          .ok () p' ∧
      PoolsBecame cfg l p p' ∧
      Bound cfg p'.heap l x (x.executionFrontier + x.pending.produced)
        (x.executionFrontier + row.accepted) := by
  obtain ⟨hE, -, -⟩ := hl.baseE
  obtain ⟨-, hle⟩ := hr.accepted hc
  have hproduced := hl.produced_le
  have hfits := hl.at_frontier.fits
  have hcap := hfits.capacity
  have htext := hl.textKvValid
  obtain ⟨p', hok, hpools, hbound⟩ := hl.bound.materialize
    (max x.textKvValid (x.pending.baseE + row.accepted)) (x.pending.baseE + row.accepted) hi hfits
    (by omega) (by omega)
    (fun hbk => by rw [hasBackend_of_dflash hd] at hbk; cases hbk)
    ((pagesForTokens_mono (by omega)).trans hfits.text)
    ((pagesForTokens_mono (by rw [reservedBackendTokens, hd]; dsimp only; omega)).trans
      hfits.backend)
  refine ⟨p', hok, hpools, hbound.mono (le_max_left _ _) fun _ => ?_⟩
  rw [hE]
  exact le_max_right _ _

/-- **The row loop of the context append.** -/
theorem appendRows_spec (hd : cfg.backend = .dflash) :
    ∀ {rows : List (Fin n × Resolution)} (seen : List (Fin n)) {p : Pools n}, KvInv cfg p.heap →
    RowsPending cfg p.heap s.lanes budgets rows → (∀ row ∈ rows, row.2.cancelled = false) →
    (∀ row ∈ rows, row.1 ∉ seen) →
    ∃ spans p', appendRows cfg s seen rows p = .ok spans p' ∧ KvInv cfg p'.heap ∧
      (∀ m, m ∉ rows.map Prod.fst → ∀ c, p'.heap.allocs (m, c) = p.heap.allocs (m, c)) ∧
      (∀ call ∈ p'.calls, call ∈ p.calls ∨ call.Within) ∧
      (∀ row ∈ rows, Bound cfg p'.heap row.1 (s.lanes row.1)
        ((s.lanes row.1).executionFrontier + (s.lanes row.1).pending.produced)
        ((s.lanes row.1).executionFrontier + row.2.accepted)) ∧
      ∀ span ∈ spans, ∃ row ∈ rows,
        span = (row.1, ⟨.backend, (s.lanes row.1).executionFrontier, row.2.accepted⟩)
  | [], _, p, hi, _, _, _ =>
    ⟨[], p, rfl, hi, fun _ _ _ => rfl, fun _ => Or.inl, nofun, nofun⟩
  | (l, row) :: rows, seen, p, hi, hr, hcan, hseen => by
    have hl : SpeculativeLane cfg p.heap l (s.lanes l) (budgets l) :=
      hr.lane (l, row) (List.mem_cons_self ..)
    have hok : ResolutionOk (s.lanes l) (budgets l) row := hr.ok (l, row) (List.mem_cons_self ..)
    have hc : row.cancelled = false := hcan (l, row) (List.mem_cons_self ..)
    obtain ⟨hE, -, -⟩ := hl.baseE
    obtain ⟨hpos, hle⟩ := hok.accepted hc
    have hwidth := hl.width
    have hproduced := hl.produced_le
    have hcap := hl.at_frontier.fits.capacity
    have hnot : l ∉ rows.map Prod.fst := (List.nodup_cons.mp hr.nodup).1
    -- The append of one row leaves the pages of the rows after it.
    obtain ⟨p₁, hok₁, hp₁, hbound⟩ := appendRow_spec hi hd hl hok hc
    obtain ⟨spans, p₂, hok₂, hi₂, honly, hcalls, hbounds, hspans⟩ :=
      appendRows_spec hd (l :: seen) hp₁.inv
        (hr.tail.frame fun r hm => hp₁.only r.1 (hr.ne r hm))
        (fun r hm => hcan r (List.mem_cons_of_mem _ hm)) (by
          intro r hm hmem
          rcases List.mem_cons.mp hmem with heq | hmem
          · exact hr.ne r hm heq
          · exact hseen r (List.mem_cons_of_mem _ hm) hmem)
    refine ⟨(l, ⟨.backend, (s.lanes l).pending.baseE, row.accepted⟩) :: spans, p₂, ?_, hi₂, ?_, ?_,
      ?_, ?_⟩
    · obtain ⟨w, ho, hrt, hrb, -⟩ := hl.bound.owns
      have hbk := hasBackend_of_dflash hd
      have hrow : check (row.accepted ≠ 0 ∧ row.accepted ≤ cfg.width ∧ l ∉ seen)
          (.logicError "DFlash context append contains an invalid row") = .ok () :=
        check_of ⟨by omega, by omega, hseen (l, row) (List.mem_cons_self ..)⟩
      have hstorage : check ((s.lanes l).kv.any (·.backend) ∧
          0 ≤ (p.heap.allocs (l, .text)).boundRow ∧ 0 ≤ (p.heap.allocs (l, .backend)).boundRow ∧
          (s.lanes l).pending.baseE + row.accepted ≤ cfg.capacity)
          (.logicError "DFlash context append is outside retained target storage") = .ok () := by
        refine check_of ⟨?_, ?_, ?_, by omega⟩
        · rw [hl.bound.kv]
          exact hbk
        · rw [ho.text.row, hrt]
          exact Int.natCast_nonneg _
        · rw [(ho.backend hbk).row, hrb]
          exact Int.natCast_nonneg _
      unfold appendRows
      simp only [bind, EStateM.bind, get, getThe, MonadStateOf.get, EStateM.get, Call.ofExcept, hrow,
        hstorage, hok₁, hok₂]
      rfl
    · intro m hm c
      rw [List.map_cons, List.mem_cons, not_or] at hm
      exact (honly m hm.2 c).trans (hp₁.only m hm.1 c)
    · intro call hcall
      exact (hcalls call hcall).elim (hp₁.calls call) Or.inr
    · intro r hm
      rcases List.mem_cons.mp hm with rfl | hm
      · exact hbound.frame (honly l hnot)
      · exact hbounds r hm
    · intro span hspan
      rcases List.mem_cons.mp hspan with rfl | hspan
      · exact ⟨(l, row), List.mem_cons_self .., by rw [hE]⟩
      · obtain ⟨r, hm, heq⟩ := hspans span hspan
        exact ⟨r, List.mem_cons_of_mem _ hm, heq⟩

/-- Recording spans one after the other. -/
theorem foldl_record : ∀ (spans : List (Fin n × KvSpan)) (s : Program n),
    ∃ writes, spans.foldl (fun s span => s.record span.1 [span.2]) s = { s with writes := writes } ∧
      ∀ write ∈ writes, write ∈ s.writes ∨ ∃ span ∈ spans,
        write = ⟨span.2, (s.pools.heap.allocs (span.1, span.2.cache)).mappedTokenCapacity⟩
  | [], s => ⟨s.writes, rfl, fun _ => Or.inl⟩
  | span :: spans, s => by
    obtain ⟨writes, heq, hw⟩ := foldl_record spans (s.record span.1 [span.2])
    refine ⟨writes, heq, ?_⟩
    intro write hm
    rcases hw write hm with hold | ⟨r, hr, hwrite⟩
    · rcases List.mem_append.mp hold with hold | hold
      · exact Or.inl hold
      · exact Or.inr ⟨span, List.mem_cons_self .., List.mem_singleton.mp hold⟩
    · exact Or.inr ⟨r, List.mem_cons_of_mem _ hr, hwrite⟩

/-- **The context append** of a resolution: the rows that end have their tokens mapped. -/
theorem enqueueDflashContextAppend_spec (hi : KvInv cfg s.pools.heap)
    (hr : RowsPending cfg s.pools.heap s.lanes budgets rows) :
    ∃ s', enqueueDflashContextAppend cfg rows s = .ok () s' ∧
      BatchStepped cfg (rows.map Prod.fst) s s' ∧ s'.lanes = s.lanes ∧ s'.egress = s.egress ∧
      s'.prefills = s.prefills ∧
      ∀ row ∈ rows, CommitReady cfg s'.pools.heap row.1 (s'.lanes row.1) (budgets row.1) row.2 := by
  have hsub : (rows.filter fun row => !row.2.cancelled && row.2.terminal).map Prod.fst ⊆
      rows.map Prod.fst := (List.filter_sublist.map Prod.fst).subset
  unfold enqueueDflashContextAppend
  generalize hend : (rows.filter fun row => !row.2.cancelled && row.2.terminal) = ending at hsub
  have hmem : ∀ row, row ∈ ending ↔ row ∈ rows ∧ row.2.cancelled = false ∧ row.2.terminal = true := by
    intro row
    rw [← hend, List.mem_filter]
    simp
  -- Only the rows that end here are appended: the others are appended by their next round.
  by_cases hcond : cfg.backend = .dflash ∧ ending ≠ []
  · rw [if_pos hcond]
    have hpend : RowsPending cfg s.pools.heap s.lanes budgets ending := by
      rw [← hend]
      exact hr.filter _
    obtain ⟨spans, p, hok, hip, honly, hcalls, hbounds, hspans⟩ :=
      appendRows_spec hcond.1 (s := s) [] hi hpend
        (fun row hm => ((hmem row).mp hm).2.1) (by simp)
    obtain ⟨writes, hrecord, hwrites⟩ := foldl_record spans { s with pools := p }
    refine ⟨{ s with pools := p, writes := writes }, ?_, ?_, rfl, rfl, rfl, ?_⟩
    · simp only [bind, EStateM.bind, get, getThe, MonadStateOf.get, EStateM.get, onPools, hok, modify,
        modifyGet, MonadStateOf.modifyGet, EStateM.modifyGet]
      rw [hrecord]
    · exact
        { inv := hip
          only := fun m hm => honly m fun hin => hm (hsub hin)
          lanes := fun _ _ => rfl
          calls := hcalls
          writes := by
            intro write hw
            rcases hwrites write hw with hold | ⟨span, hs, rfl⟩
            · exact Or.inl hold
            · obtain ⟨row, hm, rfl⟩ := hspans span hs
              right
              refine (hbounds row hm).mapped (hpend.lane row hm).at_frontier.fits hip ?_
              exact ⟨hasBackend_of_dflash hcond.1, Nat.le_refl _⟩
          prefills := fun _ => Or.inl }
    · intro row hm
      by_cases hin : row ∈ ending
      · have hb := hbounds row hin
        have hl := hr.lane row hm
        refine ⟨{ hl with bound := ?_ }, hr.ok row hm, fun _ _ _ => hb⟩
        rw [if_neg (by rw [hcond.1]; simp)]
        exact hb.mono (Nat.le_refl _) fun _ => Nat.le_add_right ..
      · have hne : ∀ r ∈ ending, r.1 ≠ row.1 := by
          intro r hr' heq
          obtain ⟨hr₁, -⟩ := (hmem r).mp hr'
          have := List.inj_on_of_nodup_map hr.nodup hr₁ hm heq
          exact hin (this ▸ hr')
        have hout : row.1 ∉ ending.map Prod.fst := by
          intro hin'
          obtain ⟨r, hr', heq⟩ := List.mem_map.mp hin'
          exact hne r hr' heq
        refine ⟨(hr.lane row hm).frame (honly row.1 hout), hr.ok row hm, fun _ hc ht => ?_⟩
        exact absurd ((hmem row).mpr ⟨hm, hc, ht⟩) hin
  · rw [if_neg hcond]
    refine ⟨s, rfl, BatchStepped.refl hi _, rfl, rfl, rfl, fun row hm => ?_⟩
    refine ⟨hr.lane row hm, hr.ok row hm, fun hd hc ht => absurd ⟨hd, ?_⟩ hcond⟩
    exact List.ne_nil_of_mem ((hmem row).mpr ⟨hm, hc, ht⟩)

end Append


/-! ## The commit -/

theorem CompleteLane.frame {h' : KvHeap n} (hl : CompleteLane cfg h l x)
    (heq : ∀ c, h'.allocs (l, c) = h.allocs (l, c)) : CompleteLane cfg h' l x :=
  { hl with resting := ⟨hl.resting.kv, hl.resting.owns.congr heq⟩ }

theorem Resolved.frame {h' : KvHeap n} (hr : Resolved cfg h l x budget row)
    (heq : ∀ c, h'.allocs (l, c) = h.allocs (l, c)) : Resolved cfg h' l x budget row :=
  ⟨fun hc => (hr.cancelled hc).frame heq, fun hc ht => (hr.terminal hc ht).frame heq,
    fun hc ht => (hr.more hc ht).frame heq⟩

/-- A cancelled row is cleared. -/
theorem clearLane_resolved (hi : KvInv cfg s.pools.heap) (hc : row.cancelled = true) :
    Resolved cfg (clearLane l s).pools.heap l ((clearLane l s).lanes l) budget row := by
  have hlane : (clearLane l s).lanes l = (s.lanes l).cleared := Function.update_self ..
  have hnot : row.cancelled ≠ false := by simp [hc]
  refine ⟨fun _ => ?_, fun hn => absurd hn hnot, fun hn => absurd hn hnot⟩
  rw [hlane]
  exact emptyLane_clear hi l (s.lanes l)

/-- What a resolution leaves of one row, given the lane `y` that a row which is not cancelled
settles from. -/
structure RowSettled (cfg : Config n) (s' : Program n) (row : Fin n × Resolution) (budget : Nat)
    (y : Lane) : Prop where
  resolved : Resolved cfg s'.pools.heap row.1 (s'.lanes row.1) budget row.2
  lane : row.2.cancelled = false → s'.lanes row.1 = settle y row.2.terminal

theorem RowSettled.frame {s₁ s₂ : Program n} {r : Fin n × Resolution} {y : Lane}
    {lanes : List (Fin n)} (hr : RowSettled cfg s₁ r budget y)
    (hb : BatchStepped cfg lanes s₁ s₂) (hnot : r.1 ∉ lanes) : RowSettled cfg s₂ r budget y := by
  have hlane := hb.lanes r.1 hnot
  refine ⟨?_, fun hc => hlane.trans (hr.lane hc)⟩
  rw [hlane]
  exact hr.resolved.frame (hb.only r.1 hnot)

/-- **One row of the commit loop**, cancelled or not. -/
theorem commitPending_spec (hi : KvInv cfg s.pools.heap)
    (hr : CommitReady cfg s.pools.heap l (s.lanes l) budget row)
    {e : RowEgress} (he : EgressFor cfg (s.lanes l) budget e) :
    ∃ s', commitPending cfg l row e s = .ok () s' ∧
      Stepped cfg l s s' ∧ s'.egress = s.egress ∧ s'.prefills = s.prefills ∧
      RowSettled cfg s' (l, row) budget (committedLane cfg (s.lanes l) row e) := by
  unfold commitPending
  cases hc : row.cancelled with
  | true =>
    refine ⟨clearLane l s, rfl, clearLane_stepped hi l, rfl, rfl, clearLane_resolved hi hc, ?_⟩
    intro hn
    exact nomatch hc.symm.trans hn
  | false =>
    obtain ⟨s', hok, hstep, hegress, hprefills, hlane, hres⟩ := commitRow_spec hi hr hc he
    refine ⟨s', ?_, hstep, hegress, hprefills, hres, fun _ => hlane⟩
    rw [if_neg Bool.false_ne_true]
    simp only [bind, EStateM.bind, get, getThe, MonadStateOf.get, EStateM.get, Call.ofExcept,
      commitRow_eq hr hc e, hok]

/-- **The commit loop.** -/
theorem commitRows_spec {budgets : Fin n → Nat} :
    ∀ {rows : List (Fin n × Resolution)} {egress : List RowEgress} {s : Program n},
    KvInv cfg s.pools.heap → (rows.map Prod.fst).Nodup →
    (∀ row ∈ rows, CommitReady cfg s.pools.heap row.1 (s.lanes row.1) (budgets row.1) row.2) →
    List.Forall₂ (fun row e => EgressFor cfg (s.lanes row.1) (budgets row.1) e) rows egress →
    ∃ s', commitRows cfg rows egress s = .ok () s' ∧
      BatchStepped cfg (rows.map Prod.fst) s s' ∧ s'.egress = s.egress ∧ s'.prefills = s.prefills ∧
      List.Forall₂ (fun row e => RowSettled cfg s' row (budgets row.1)
        (committedLane cfg (s.lanes row.1) row.2 e)) rows egress
  | [], _, s, hi, _, _, .nil => ⟨s, rfl, BatchStepped.refl hi _, rfl, rfl, .nil⟩
  | (l, row) :: rows, e :: egress, s, hi, hnd, hready, .cons he hes => by
    obtain ⟨hnot, hnd'⟩ := List.nodup_cons.mp hnd
    obtain ⟨s₁, hok₁, hstep, hegress, hprefills, hset⟩ :=
      commitPending_spec hi (hready (l, row) (List.mem_cons_self ..)) he
    have hne : ∀ r ∈ rows, r.1 ≠ l := by
      rintro r hm rfl
      exact hnot (List.mem_map.mpr ⟨r, hm, rfl⟩)
    have hready' : ∀ r ∈ rows,
        CommitReady cfg s₁.pools.heap r.1 (s₁.lanes r.1) (budgets r.1) r.2 := by
      intro r hm
      have hr := hready r (List.mem_cons_of_mem _ hm)
      rw [hstep.lanes r.1 (hne r hm)]
      exact ⟨hr.lane.frame (hstep.only r.1 (hne r hm)), hr.ok,
        fun hd hc ht => (hr.appended hd hc ht).frame (hstep.only r.1 (hne r hm))⟩
    have hmem : ∀ {r e}, (r, e) ∈ rows.zip egress → r.1 ≠ l := fun hm =>
      hne _ (List.of_mem_zip hm).1
    have hes' : List.Forall₂ (fun row e => EgressFor cfg (s₁.lanes row.1) (budgets row.1) e)
        rows egress := by
      rw [List.forall₂_iff_zip] at hes ⊢
      refine ⟨hes.1, fun {r e} hm => ?_⟩
      rw [hstep.lanes r.1 (hmem hm)]
      exact hes.2 hm
    obtain ⟨s₂, hok₂, hb, hegress₂, hprefills₂, hsets⟩ :=
      commitRows_spec hstep.inv hnd' hready' hes'
    refine ⟨s₂, ?_, (hstep.batch (List.mem_cons_self ..)).trans
      (hb.mono (List.subset_cons_self ..)), hegress₂.trans hegress, hprefills₂.trans hprefills,
      .cons (hset.frame hb hnot) ?_⟩
    · unfold commitRows
      exact (Call.bind_of_ok hok₁).trans hok₂
    · rw [List.forall₂_iff_zip] at hsets ⊢
      refine ⟨hsets.1, fun {r e} hm => ?_⟩
      have := hsets.2 hm
      rw [hstep.lanes r.1 (hmem hm)] at this
      exact this


/-! ## The resolution of an ordinary round -/

/-- An ordinary row before it settles. -/
def steppedLane (x : Lane) (terminal : Bool) : Lane :=
  { x with
    executionFrontier := x.executionFrontier + 1
    ledgerFrontier := x.ledgerFrontier + 1
    mtpDraftCount := if terminal then 0 else x.mtpDraftCount }

theorem resolveNonSpeculative_ordinary (hl : OrdinaryLane cfg h l x budget) (terminal : Bool) :
    resolveNonSpeculative x 1 terminal = .ok (steppedLane x terminal) := by
  have hfront := hl.at_frontier.ledgerFrontier
  have hledger := hl.sized.ledger
  have htypes : x.prefixIdentity.size = x.executionFrontier + 2 := hl.sized.types
  have hkind : x.pending.kind = .ordinary := by rw [hl.pending]
  have hE : x.pending.baseE = x.executionFrontier := by rw [hl.pending]
  have hS : x.pending.baseS = x.ledgerFrontier := by rw [hl.pending]
  have hproduced : x.pending.produced = 1 := by rw [hl.pending]
  unfold resolveNonSpeculative
  simp only [hkind, hE, hS, hproduced, reduceCtorEq, if_false, check_bind_eq_ok]
  exact ⟨hl.lifecycle, ⟨Or.inr trivial, trivial, trivial⟩, ⟨by omega, by omega, by omega⟩, rfl⟩

theorem OrdinaryLane.backendKvValid (hl : OrdinaryLane cfg h l x budget) (terminal : Bool) :
    (steppedLane x terminal).backendKvValid cfg = 0 := by
  rw [Lane.backendKvValid, hl.backend]

/-- **One row of the resolution of an ordinary round.** -/
theorem resolveOrdinaryPending_spec (hi : KvInv cfg s.pools.heap)
    (hl : OrdinaryLane cfg s.pools.heap l (s.lanes l) budget)
    (hr : ResolutionOk (s.lanes l) budget row) :
    ∃ s', resolveOrdinaryPending cfg l row s = .ok () s' ∧
      Stepped cfg l s s' ∧ s'.egress = s.egress ∧ s'.prefills = s.prefills ∧
      RowSettled cfg s' (l, row) budget (steppedLane (s.lanes l) row.terminal) := by
  have hpass : check ((s.lanes l).lifecycle = .pending ∧ (s.lanes l).pending.kind = .ordinary)
      (.logicError "ordinary pending batch no longer matches Program state") = .ok () :=
    check_of ⟨hl.lifecycle, by rw [hl.pending]⟩
  have hproduced : (s.lanes l).pending.produced = 1 := by rw [hl.pending]
  unfold resolveOrdinaryPending
  simp only [bind, EStateM.bind, get, getThe, MonadStateOf.get, EStateM.get, Call.ofExcept, hpass]
  cases hc : row.cancelled with
  | true =>
    refine ⟨clearLane l s, rfl, clearLane_stepped hi l, rfl, rfl, clearLane_resolved hi hc, ?_⟩
    intro hn
    cases hc.symm.trans hn
  | false =>
    obtain ⟨hpos, hle⟩ := hr.accepted hc
    have haccepted : row.accepted = 1 := by omega
    have hfits := hl.at_frontier.fits
    have hcap := hfits.capacity
    have hbudget := hl.at_frontier.budget_pos
    have hfront := hl.at_frontier.ledgerFrontier
    have hfrontpos := hl.at_frontier.frontier_pos
    have hvalid := hl.backendKvValid row.terminal
    have hcheckpoint : Checkpointed (s.lanes l) ((s.lanes l).executionFrontier + 1) :=
      hl.at_frontier.checkpoint.mono (Nat.le_succ _)
    have htext : (steppedLane (s.lanes l) row.terminal).textKvValid =
        (s.lanes l).executionFrontier + 1 := hl.textKvValid
    -- The round has executed the token: settling only trims the pages, or unbinds them too.
    obtain ⟨s', hok, hstep, hlane, hegress, -, hprefills, hactive, hresting⟩ :=
      settleLane_spec (x := steppedLane (s.lanes l) row.terminal) hi (hl.bound.congr rfl rfl)
        htext.le (by rw [htext]; omega) (by rw [hvalid]; exact Nat.zero_le _)
        (fun _ => hvalid.le) row.terminal
    rw [htext, hvalid] at hactive hresting
    refine ⟨s', ?_, hstep, hegress, hprefills, ⟨fun hn => absurd hn (by simp [hc]), ?_, ?_⟩,
      fun _ => hlane⟩
    · rw [if_neg Bool.false_ne_true, haccepted]
      unfold resolveNonSpeculativePending
      simp only [bind, EStateM.bind, get, getThe, MonadStateOf.get, EStateM.get, Call.ofExcept,
        resolveNonSpeculative_ordinary hl row.terminal]
      exact hok
    · intro _ (ht : row.terminal = true)
      rw [hlane]
      exact
        { lifecycle := by simp [settle, ht]
          retained := by simp [settle, ht]
          frontier_pos := Nat.succ_pos _
          frontier_le := by simp only [settle, steppedLane]; omega
          ledgerFrontier := by simp only [settle, steppedLane]; omega
          sized := { hl.sized with }
          textKvValid := hl.textKvValid
          backend := ⟨(fun hb => by cases hl.backend.symm.trans hb),
            (fun hb => by cases hl.backend.symm.trans hb)⟩
          tail := hl.at_frontier.tail
          checkpoint := hcheckpoint
          resting := by
            rw [show (settle (steppedLane (s.lanes l) row.terminal) row.terminal).backendKvValid cfg =
              0 from hvalid]
            exact ⟨(hresting ht).kv, (hresting ht).owns⟩ }
    · intro _ (ht : row.terminal = false)
      obtain ⟨-, hlt⟩ := hr.more hc ht
      rw [hlane]
      exact
        { lifecycle := by simp [settle, ht]
          at_frontier :=
            { prefill := hl.at_frontier.prefill
              retained := by
                simp only [settle, steppedLane, ht]
                exact hl.at_frontier.retained
              frontier_pos := Nat.succ_pos _
              ledgerFrontier := by simp only [settle, steppedLane]; omega
              tail := hl.at_frontier.tail
              checkpoint := hcheckpoint
              budget_pos := by
                show 0 < budget - row.accepted
                omega
              fits := hfits.mono (by
                show (s.lanes l).executionFrontier + 1 + (budget - row.accepted) ≤ _
                omega) }
          sized := { hl.sized with }
          textKvValid := hl.textKvValid
          mtp := fun hb => by cases hl.backend.symm.trans hb
          drafts := fun hb => by cases hl.backend.symm.trans hb
          dflash := fun hb => by cases hl.backend.symm.trans hb
          bound := by
            rw [show (settle (steppedLane (s.lanes l) row.terminal) row.terminal).backendKvValid cfg =
              0 from hvalid]
            exact (hactive ht).congr rfl rfl }

/-- **The resolution of an ordinary round.** -/
theorem resolveOrdinary_spec (budgets : Fin n → Nat) :
    ∀ {rows : List (Fin n × Resolution)} {s : Program n}, KvInv cfg s.pools.heap →
    (rows.map Prod.fst).Nodup →
    (∀ row ∈ rows, OrdinaryLane cfg s.pools.heap row.1 (s.lanes row.1) (budgets row.1)) →
    (∀ row ∈ rows, ResolutionOk (s.lanes row.1) (budgets row.1) row.2) →
    ∃ s', resolveOrdinary cfg rows s = .ok () s' ∧
      BatchStepped cfg (rows.map Prod.fst) s s' ∧ s'.egress = s.egress ∧ s'.prefills = s.prefills ∧
      ∀ row ∈ rows, RowSettled cfg s' row (budgets row.1)
        (steppedLane (s.lanes row.1) row.2.terminal)
  | [], s, hi, _, _, _ => ⟨s, rfl, BatchStepped.refl hi _, rfl, rfl, nofun⟩
  | (l, row) :: rows, s, hi, hnd, hlane, hok => by
    obtain ⟨hnot, hnd'⟩ := List.nodup_cons.mp hnd
    have hne : ∀ r ∈ rows, r.1 ≠ l := by
      rintro r hm rfl
      exact hnot (List.mem_map.mpr ⟨r, hm, rfl⟩)
    obtain ⟨s₁, hok₁, hstep, hegress, hprefills, hset⟩ := resolveOrdinaryPending_spec hi
      (hlane (l, row) (List.mem_cons_self ..)) (hok (l, row) (List.mem_cons_self ..))
    obtain ⟨s₂, hok₂, hb, hegress₂, hprefills₂, hsets⟩ := resolveOrdinary_spec budgets hstep.inv hnd'
      (by
        intro r hm
        have hl := hlane r (List.mem_cons_of_mem _ hm)
        rw [hstep.lanes r.1 (hne r hm)]
        exact { hl with bound := hl.bound.frame (hstep.only r.1 (hne r hm)) })
      (by
        intro r hm
        rw [hstep.lanes r.1 (hne r hm)]
        exact hok r (List.mem_cons_of_mem _ hm))
    refine ⟨s₂, ?_, (hstep.batch (List.mem_cons_self ..)).trans
      (hb.mono (List.subset_cons_self ..)), hegress₂.trans hegress, hprefills₂.trans hprefills, ?_⟩
    · unfold resolveOrdinary
      exact (Call.bind_of_ok hok₁).trans hok₂
    · intro r hm
      rcases List.mem_cons.mp hm with rfl | hm
      · exact hset.frame hb hnot
      · have := hsets r hm
        rw [hstep.lanes r.1 (hne r hm)] at this
        exact this


/-! ## A resolution -/

/-- The lane that a committed row settles from. -/
inductive SettledFrom (cfg : Config n) (x : Lane) (row : Resolution) (e : RowEgress) : Lane → Prop
  | ordinary (backend : cfg.backend = .none) : SettledFrom cfg x row e (steppedLane x row.terminal)
  | speculative (backend : cfg.backend ≠ .none) (correct : Bool)
      (selected : row.partialTerminal x = true → correct = true) :
      SettledFrom cfg x row e (committedLane cfg (foldRow x row correct) row e)

theorem forM_checkPending : ∀ (rows : List (Fin n × Resolution)),
    (∀ row ∈ rows, checkPending cfg (s.lanes row.1) row.2 = .ok ()) →
    (rows.forM fun row => checkPending cfg (s.lanes row.1) row.2) = .ok ()
  | [], _ => rfl
  | row :: rows, hc => by
    show (checkPending cfg (s.lanes row.1) row.2 >>= fun _ => List.forM rows _) = _
    rw [bind_eq_ok]
    exact ⟨(), hc row (List.mem_cons_self ..),
      forM_checkPending rows fun r hm => hc r (List.mem_cons_of_mem _ hm)⟩

section Resolve

variable {rows : List (Fin n × Resolution)} {budgets : Fin n → Nat}

/-- **The resolution of a speculative round.** -/
theorem resolveSpeculative_spec (hi : KvInv cfg s.pools.heap) (hb : cfg.backend ≠ .none)
    (hr : RowsPending cfg s.pools.heap s.lanes budgets rows)
    (he : List.Forall₂ (fun row e => EgressFor cfg (s.lanes row.1) (budgets row.1) e) rows
      s.egress) :
    ∃ s', (do modify (foldRows rows)
              enqueueDflashContextAppend cfg rows
              let s ← get
              commitRows cfg rows s.egress : Call (Program n) Unit) s = .ok () s' ∧
      BatchStepped cfg (rows.map Prod.fst) s s' ∧ s'.prefills = s.prefills ∧
      List.Forall₂ (fun row e => ∃ y, SettledFrom cfg (s.lanes row.1) row.2 e y ∧
        RowSettled cfg s' row (budgets row.1) y) rows s.egress := by
  obtain ⟨lanes, correct, hfold, hother, hcorrect, hlanes⟩ := foldRows_spec hr.nodup s
  have hselected : ∀ row ∈ rows, row.2.partialTerminal (s.lanes row.1) = true → correct = true := by
    intro row hm hp
    rw [hcorrect]
    exact List.any_eq_true.mpr ⟨row, hm, hp⟩
  have hpending : RowsPending cfg s.pools.heap lanes budgets rows := by
    refine ⟨hr.nodup, fun row hm => ?_, fun row hm => ?_⟩
    · rw [hlanes row hm]
      exact (hr.lane row hm).fold row.2 correct
    · rw [hlanes row hm]
      exact (hr.ok row hm).fold correct
  have hbatch : BatchStepped cfg (rows.map Prod.fst) s { s with lanes := lanes } :=
    ⟨hi, fun _ _ _ => rfl, hother, fun _ => Or.inl, fun _ => Or.inl, fun _ => Or.inl⟩
  obtain ⟨s₁, hok₁, hb₁, hlanes₁, hegress₁, hprefills₁, hready⟩ :=
    enqueueDflashContextAppend_spec (s := { s with lanes := lanes }) hi hpending
  have he₁ : List.Forall₂ (fun row e => EgressFor cfg (s₁.lanes row.1) (budgets row.1) e) rows
      s.egress := by
    rw [List.forall₂_iff_zip] at he ⊢
    refine ⟨he.1, fun {row e} hm => ?_⟩
    rw [hlanes₁]
    show EgressFor cfg (lanes row.1) (budgets row.1) e
    rw [hlanes row (List.of_mem_zip hm).1]
    exact (he.2 hm).fold correct
  obtain ⟨s₂, hok₂, hb₂, -, hprefills₂, hsettled⟩ :=
    commitRows_spec hb₁.inv hr.nodup hready he₁
  refine ⟨s₂, ?_, (hbatch.trans hb₁).trans hb₂, hprefills₂.trans hprefills₁, ?_⟩
  · simp only [bind, EStateM.bind, modify, modifyGet, MonadStateOf.modifyGet, EStateM.modifyGet,
      hfold, hok₁, get, getThe, MonadStateOf.get, EStateM.get, hegress₁, hok₂]
  · rw [List.forall₂_iff_zip] at hsettled ⊢
    refine ⟨hsettled.1, fun {row e} hm => ?_⟩
    have hrow := (List.of_mem_zip hm).1
    have hset := hsettled.2 hm
    rw [hlanes₁] at hset
    have hlane : lanes row.1 = _ := hlanes row hrow
    exact ⟨_, .speculative hb correct (hselected row hrow), hlane ▸ hset⟩

/-- **`resolve_pending_batch`** of a pending round, with decisions that the executor may make:
nothing is thrown, and each row is active, retained or empty. -/
theorem resolvePendingBatch_spec (budgets : Fin n → Nat) (hi : KvInv cfg s.pools.heap) (hne : rows ≠ [])
    (hnd : (rows.map Prod.fst).Nodup)
    (hl : ∀ row ∈ rows, PendingLane cfg s.pools.heap row.1 (s.lanes row.1) (budgets row.1))
    (hok : ∀ row ∈ rows, ResolutionOk (s.lanes row.1) (budgets row.1) row.2)
    (he : List.Forall₂ (fun row e => EgressFor cfg (s.lanes row.1) (budgets row.1) e) rows
      s.egress) :
    ∃ s', resolvePendingBatch cfg rows s = .ok () s' ∧
      BatchStepped cfg (rows.map Prod.fst) s s' ∧ s'.prefills = s.prefills ∧
      List.Forall₂ (fun row e => ∃ y, SettledFrom cfg (s.lanes row.1) row.2 e y ∧
        RowSettled cfg s' row (budgets row.1) y) rows s.egress := by
  have hlen : rows.length ≤ n := by
    have := hnd.length_le_card
    simpa using this
  have hmembers : check (rows ≠ [] ∧ rows.length ≤ n)
      (.invalidArgument "pending batch resolution has inconsistent membership") = .ok () :=
    check_of ⟨hne, hlen⟩
  unfold resolvePendingBatch
  by_cases hb : cfg.backend = .none
  · obtain ⟨s', hres, hbatch, -, hprefills, hset⟩ := resolveOrdinary_spec budgets hi hnd
      (fun row hm => (hl row hm).ordinary hb) hok
    refine ⟨s', ?_, hbatch, hprefills, ?_⟩
    · simp only [bind, EStateM.bind, Call.ofExcept, hmembers, if_pos hb]
      exact hres
    · rw [List.forall₂_iff_zip] at he ⊢
      exact ⟨he.1, fun {row e} hm => ⟨_, .ordinary hb, hset row (List.of_mem_zip hm).1⟩⟩
  · have hr : RowsPending cfg s.pools.heap s.lanes budgets rows :=
      ⟨hnd, fun row hm => (hl row hm).speculative hb, hok⟩
    have hchecks := forM_checkPending (s := s) rows fun row hm =>
      checkPending_spec (hr.lane row hm) (hok row hm)
    obtain ⟨s', hres, hbatch, hprefills, hset⟩ := resolveSpeculative_spec hi hb hr he
    refine ⟨s', ?_, hbatch, hprefills, hset⟩
    simp only [bind, EStateM.bind, Call.ofExcept, hmembers, if_neg hb, get, getThe,
      MonadStateOf.get, EStateM.get, Call.handle]
    rw [show (List.forM rows fun row => checkPending cfg (s.lanes row.1) row.2) = .ok () from hchecks]
    simp only [bind, EStateM.bind, get, getThe, MonadStateOf.get, EStateM.get] at hres
    dsimp only
    rw [hres]

end Resolve


end Ninfer.Qwen
