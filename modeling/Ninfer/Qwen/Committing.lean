import Ninfer.Qwen.Generation

/-!
# The tokens of a request

What the budget and the session of a request in a slot keep, row by row: a licensed row within the
budget is decided in terms of the budget, its commit neither aborts nor overdraws it, and a request
that ends has the output that the reference gives for its tokens.

## Main definitions

* `Served.Ok`: a request in a slot
* `Completion.Ok`: a request that has ended
* `Served.Decided`: what a decision about a row promises of its commit

## Main results

* `Served.Ok.preview`, `Served.Ok.cancelled`: the previews of the executor
* `Served.Decided.commit`: the commit of a row
* `Generation.commitRows_spec`: the commit loop of a round
-/

namespace Ninfer.Qwen

open Executor (FinishReason GenerationBudget OutputDecision)
open Output (OutputSession PublishedOutput textOf)
open Output.OutputSession (Open Decides Concludes)

variable {n : Nat} {s : Served} {tokens licensed : List TokenId} {l : Fin n}

/-! ## The request of a slot -/

/-- The budget and the session of a request that goes on. -/
structure Served.Ok (s : Served) : Prop where
  session : s.output.Open s.setting s.budget.limitReason s.effective s.published s.generated
  limit : s.budget.limitReason = .outputLimit ∨ s.budget.limitReason = .contextCapacity
  total : s.generated.length + s.budget.remaining = s.effective
  remaining : 0 < s.budget.remaining

/-- What a request has come to. One that was cancelled has the text of its tokens, any other one what
the reference says; the limit ended it exactly with the last token of its plan. -/
structure Completion.Ok (c : Completion) : Prop where
  limit : c.request.budget.limitReason = .outputLimit ∨
    c.request.budget.limitReason = .contextCapacity
  reason : c.finishReason = .cancelled ∨ c.finishReason = .stopToken ∨
    c.finishReason = .stopString ∨ c.finishReason = c.request.budget.limitReason
  generated_le : c.request.generated.length ≤ c.request.effective
  effective_pos : 0 < c.request.effective
  limited : c.finishReason = c.request.budget.limitReason →
    c.request.generated.length = c.request.effective
  cancelled : c.finishReason = .cancelled → c.request.generated.length < c.request.effective ∧
    (c.request.setting.reference c.request.budget.limitReason c.request.effective
      c.request.generated).finishReason = .none ∧
    ∀ channel, textOf channel c.request.published =
      c.request.setting.final c.request.generated channel
  concluded : c.finishReason ≠ .cancelled → Concludes c.request.setting c.request.budget.limitReason
    c.request.effective c.request.published c.request.generated c.finishReason c.request.output

/-- What a decision about a row, with the session that holds its preview, promises of the commit. -/
structure Served.Decided (s : Served) (licensed : List TokenId) (row : Resolution)
    (reason : FinishReason) (previewed : OutputSession) : Prop where
  committed : ∃ published output, previewed.commitPreview = some (published, output) ∧
    (row.terminal = false → output.Open s.setting s.budget.limitReason s.effective
      (s.published ++ published) (s.generated ++ licensed)) ∧
    (row.terminal = true → row.cancelled = false → Concludes s.setting s.budget.limitReason
      s.effective (s.published ++ published) (s.generated ++ licensed.take row.accepted) reason
      output) ∧
    (row.cancelled = true → ∀ channel, textOf channel (s.published ++ published) =
      s.setting.final s.generated channel)
  cancelled : row.cancelled = true →
    row.accepted = 0 ∧ row.terminal = true ∧ reason = .cancelled
  accepted : row.cancelled = false → 0 < row.accepted ∧ row.accepted ≤ licensed.length
  goes : row.terminal = false →
    row.accepted = licensed.length ∧ licensed.length < s.budget.remaining
  ends : row.terminal = true → row.cancelled = false →
    reason = .stopToken ∨ reason = .stopString ∨ reason = s.budget.limitReason
  limited : reason = s.budget.limitReason → row.accepted = s.budget.remaining

namespace Served

/-- **The preview of a licensed row** within the budget passes the checks of the session, and the
decision those of the executor. -/
theorem Ok.preview (hs : s.Ok) {decision : OutputDecision} {previewed : OutputSession}
    (h : s.output.preview tokens s.budget.remaining s.budget.limitReason =
      .ok (decision, previewed)) :
    s.Decided tokens ⟨decision.acceptedTokens, decision.finished, false⟩ decision.finishReason
      previewed := by
  obtain ⟨hdecides, published, output, hcommit, hgoes, hends⟩ := hs.session.decides hs.total h
  exact
    { committed := ⟨published, output, hcommit, hgoes, fun hterminal _ => hends hterminal,
        fun hc => (by cases hc)⟩
      cancelled := fun hc => (by cases hc)
      accepted := fun _ => ⟨hdecides.accepted_pos, hdecides.accepted_le⟩
      goes := hdecides.goes
      ends := fun hterminal _ => hdecides.reason hterminal
      limited := hdecides.limit }

/-- **The preview of a cancelled row** returns. -/
theorem Ok.cancelled (hs : s.Ok) (licensed : List TokenId) :
    ∃ decision previewed, s.output.previewTerminal .cancelled = .ok (decision, previewed) ∧
      s.Decided licensed ⟨0, true, true⟩ .cancelled previewed := by
  obtain ⟨previewed, published, output, hpreview, hcommit, htexts⟩ :=
    hs.session.previewTerminal (show FinishReason.cancelled ≠ .none ∧ _ ∧ _ by simp)
  refine ⟨_, previewed, hpreview, ?_⟩
  exact
    { committed := ⟨published, output, hcommit, fun h => (by cases h), fun _ h => (by cases h),
        fun _ => htexts⟩
      cancelled := fun _ => ⟨rfl, rfl, rfl⟩
      accepted := fun h => (by cases h)
      goes := fun h => (by cases h)
      ends := fun _ h => (by cases h)
      limited := by
        intro h
        rcases hs.limit with heq | heq <;> rw [heq] at h <;> cases h }

/-- The request of a row after its commit. -/
def accept (s : Served) (licensed : List TokenId) (row : Resolution) (output : OutputSession)
    (published : PublishedOutput) : Served :=
  { s with
    output := output
    budget := { s.budget with remaining := s.budget.remaining - row.accepted }
    generated := s.generated ++ licensed.take row.accepted
    published := s.published ++ published }

variable {row : Resolution} {reason : FinishReason} {previewed : OutputSession}

/-- **The commit of a decided row** leaves a request that goes on with a smaller budget, or one that
has come to its end. -/
theorem Decided.commit (hs : s.Ok) (hd : s.Decided licensed row reason previewed)
    (hle : licensed.length ≤ s.budget.remaining) :
    ∃ output published, previewed.commitPreview = some (published, output) ∧
      row.accepted ≤ s.budget.remaining ∧
      (row.terminal = false → (s.accept licensed row output published).Ok) ∧
      (row.terminal = true →
        Completion.Ok ⟨s.accept licensed row output published, reason⟩) := by
  obtain ⟨published, output, hcommit, hopen, hconcludes, hcancelled⟩ := hd.committed
  have haccepted : row.accepted ≤ licensed.length := by
    cases hc : row.cancelled with
    | true =>
      have := (hd.cancelled hc).1
      omega
    | false => exact (hd.accepted hc).2
  have hlen : (s.generated ++ licensed.take row.accepted).length =
      s.generated.length + row.accepted := by
    rw [List.length_append, List.length_take]
    omega
  have htotal := hs.total
  have hremaining := hs.remaining
  refine ⟨output, published, hcommit, by omega, fun hgoes => ?_, fun hends => ?_⟩
  · obtain ⟨hall, hlt⟩ := hd.goes hgoes
    have htake : licensed.take row.accepted = licensed := by
      rw [hall, List.take_length]
    refine ⟨?_, hs.limit, ?_, ?_⟩
    · simp only [accept, htake]
      exact hopen hgoes
    · simp only [accept, hlen]
      omega
    · simp only [accept]
      omega
  · cases hc : row.cancelled with
    | true =>
      -- Nothing of the row is accepted, and the budget is not spent.
      obtain ⟨hzero, -, rfl⟩ := hd.cancelled hc
      exact
        { limit := hs.limit
          reason := Or.inl rfl
          generated_le := by simp only [accept, hlen]; omega
          effective_pos := by simp only [accept]; omega
          limited := fun h => by
            rcases hs.limit with heq | heq <;> simp only [accept, heq] at h <;> cases h
          cancelled := fun _ => by
            simp only [accept, hzero, List.take_zero, List.append_nil]
            exact ⟨by omega, hs.session.goes, hcancelled hc⟩
          concluded := fun h => absurd rfl h }
    | false =>
      have hreason := hd.ends hends hc
      have hne : reason ≠ .cancelled := by
        rcases hreason with rfl | rfl | rfl
        · simp
        · simp
        · rcases hs.limit with heq | heq <;> rw [heq] <;> simp
      exact
        { limit := hs.limit
          reason := Or.inr hreason
          generated_le := by simp only [accept, hlen]; omega
          effective_pos := by simp only [accept]; omega
          limited := fun h => by
            have := hd.limited h
            simp only [accept, hlen]
            omega
          cancelled := fun h => absurd h hne
          concluded := fun _ => hconcludes hends hc }

end Served

/-! ## The lane of a request -/

/-- The request of a slot: there is one unless the slot is idle, and the budget is that of the
slot. -/
structure LaneServed (slot : Slot) (served : Option Served) : Prop where
  idle : slot.phase = .idle → served = none
  busy : slot.phase ≠ .idle → ∃ s, served = some s ∧ s.Ok ∧ s.budget.remaining = slot.budget

theorem laneServed_idle {slot : Slot} (h : slot.phase = .idle) : LaneServed slot none :=
  ⟨fun _ => rfl, fun hne => absurd h hne⟩

theorem LaneServed.of_ok {slot : Slot} (hs : s.Ok) (hp : slot.phase ≠ .idle)
    (hb : s.budget.remaining = slot.budget) : LaneServed slot (some s) :=
  ⟨fun h => absurd h hp, fun _ => ⟨s, rfl, hs, hb⟩⟩

namespace Generation

variable {g : Generation n}

theorem request_of (h : g.served l = some s) : g.request l = .ok s := by
  unfold request
  rw [h]

/-- The commit of a lane: the request that is left goes on, or has come to its end. -/
structure Committed (g g' : Generation n) (l : Fin n) (slot : Slot) : Prop where
  system : g'.system = g.system
  served : LaneServed slot (g'.served l)
  other : ∀ m, m ≠ l → g'.served m = g.served m
  completed : (∀ c ∈ g.completed, c.Ok) → ∀ c ∈ g'.completed, c.Ok

/-- A request that goes on or has ended, as the row of its lane says. -/
theorem committed_finish {s' : Served} {terminal : Bool} {reason : FinishReason} {slot : Slot}
    (hgoes : terminal = false → s'.Ok ∧ slot.phase ≠ .idle ∧ s'.budget.remaining = slot.budget)
    (hends : terminal = true → Completion.Ok ⟨s', reason⟩ ∧ slot.phase = .idle) :
    Committed g (g.finish l s' terminal reason) l slot := by
  unfold finish
  cases terminal with
  | true =>
    obtain ⟨hc, hidle⟩ := hends rfl
    refine ⟨rfl, ?_, fun m hm => Function.update_of_ne hm .., fun hall c hm => ?_⟩
    · have hnone : (g.complete l s' reason).served l = none := Function.update_self ..
      simp only [if_true, hnone]
      exact laneServed_idle hidle
    · rcases List.mem_append.mp hm with hm | hm
      · exact hall c hm
      · rw [List.mem_singleton.mp hm]
        exact hc
  | false =>
    obtain ⟨hok, hp, hb⟩ := hgoes rfl
    refine ⟨rfl, ?_, fun m hm => Function.update_of_ne hm .., fun hall => hall⟩
    have hsome : (g.keep l s').served l = some s' := Function.update_self ..
    simp only [Bool.false_eq_true, if_false, hsome]
    exact LaneServed.of_ok hok hp hb

/-- **One row of the commit loop.** -/
theorem commitRow_spec {row : DecidedRow n} (hserved : g.served row.lane = some s) (hs : s.Ok)
    {slot : Slot} (hslot : slot.phase = .decoding) (hb : s.budget.remaining = slot.budget)
    (hd : s.Decided row.licensed row.resolution row.finishReason row.output)
    (hle : row.licensed.length ≤ s.budget.remaining) :
    ∃ g', commitRow g row = .ok g' ∧ Committed g g' row.lane (slot.resolved row.resolution) := by
  obtain ⟨output, published, hcommit, haccepted, hgoes, hends⟩ := hd.commit hs hle
  refine ⟨g.finish row.lane (s.accept row.licensed row.resolution output published)
    row.resolution.terminal row.finishReason, ?_, committed_finish (fun ht => ?_) fun ht => ?_⟩
  · unfold commitRow
    rw [request_of hserved]
    cases hc : row.resolution.cancelled with
    | true =>
      obtain ⟨hzero, -, -⟩ := hd.cancelled hc
      simp only [bind, Except.bind, if_true, Served.commitPreview, hcommit, Served.accept, hzero,
        List.take_zero, List.append_nil, Nat.sub_zero]
    | false =>
      simp only [bind, Except.bind, Bool.false_eq_true, if_false, commitBudget,
        if_neg (Nat.not_lt.mpr haccepted), Served.commitPreview, hcommit, Served.accept]
  · have hc : row.resolution.cancelled = false := by
      by_contra hcan
      obtain ⟨-, hterm, -⟩ := hd.cancelled (by simpa using hcan)
      rw [ht] at hterm
      cases hterm
    refine ⟨hgoes ht, ?_, ?_⟩
    · simp [Slot.resolved, ht, hc, hslot]
    · simp [Slot.resolved, ht, hc, Served.accept, hb]
  · exact ⟨hends ht, by simp [Slot.resolved, ht]⟩

/-- **The commit loop of a round**: no commit aborts, and each lane of the round has the request that
its slot says. -/
theorem commitRows_spec : ∀ (rows : List (DecidedRow n)) {g : Generation n} (slots : Fin n → Slot),
    (rows.map (·.lane)).Nodup →
    (∀ row ∈ rows, (slots row.lane).phase = .decoding ∧ ∃ s, g.served row.lane = some s ∧ s.Ok ∧
      s.budget.remaining = (slots row.lane).budget ∧
      s.Decided row.licensed row.resolution row.finishReason row.output ∧
      row.licensed.length ≤ s.budget.remaining) →
    (∀ c ∈ g.completed, c.Ok) →
    ∃ g', rows.foldlM commitRow g = .ok g' ∧ g'.system = g.system ∧
      (∀ m, m ∉ rows.map (·.lane) → g'.served m = g.served m) ∧
      (∀ row ∈ rows, LaneServed ((slots row.lane).resolved row.resolution) (g'.served row.lane)) ∧
      ∀ c ∈ g'.completed, c.Ok
  | [], g, _, _, _, hcompleted => ⟨g, rfl, rfl, fun _ _ => rfl, by simp, hcompleted⟩
  | row :: rows, g, slots, hnd, hrows, hcompleted => by
    obtain ⟨hnot, hnd'⟩ := List.nodup_cons.mp hnd
    have hne : ∀ r ∈ rows, r.lane ≠ row.lane := by
      intro r hm heq
      exact hnot (List.mem_map.mpr ⟨r, hm, heq⟩)
    obtain ⟨hslot, s, hserved, hs, hb, hd, hle⟩ := hrows row (List.mem_cons_self ..)
    obtain ⟨g₁, hok₁, hcommitted⟩ := commitRow_spec hserved hs hslot hb hd hle
    obtain ⟨g₂, hok₂, hsystem, hother, hserved₂, hcompleted₂⟩ := commitRows_spec rows slots hnd'
      (by
        intro r hm
        rw [hcommitted.other r.lane (hne r hm)]
        exact hrows r (List.mem_cons_of_mem _ hm))
      (hcommitted.completed hcompleted)
    refine ⟨g₂, ?_, hsystem.trans hcommitted.system, fun m hm => ?_, fun r hm => ?_, hcompleted₂⟩
    · rw [List.foldlM_cons, hok₁]
      exact hok₂
    · rw [List.map_cons, List.mem_cons, not_or] at hm
      rw [hother m hm.2, hcommitted.other m hm.1]
    · rcases List.mem_cons.mp hm with rfl | hm
      · rw [hother _ hnot]
        exact hcommitted.served
      · exact hserved₂ r hm

end Generation

end Ninfer.Qwen
