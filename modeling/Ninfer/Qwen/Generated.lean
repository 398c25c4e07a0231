import Ninfer.Output.Publishing
import Ninfer.Qwen.Committing

/-!
# The budget of a generation, end to end

Along every run of the executor the planner's clamp, the extents of a round, the tokens a round
licenses and the prefix that the session accepts count the same tokens. No round licenses a row
beyond the budget of its request, so that neither a check of the session nor a commit of the budget
fails, and a request that ends has generated what the reference says it should.

## Main definitions

* `Generation.Inv`: the invariant of the runs
* `Turn.Undecodable`: a turn in which a session cannot decode the tokens of a round

## Main results

* `Generation.Inv.licensed`: what a round licenses
* `Generation.Inv.turn`: every turn keeps the invariant, and which exceptions it may throw
* `generation_within_budget`: the budget is exact in every reachable state
* `generation_follows_reference`: what a request has come to
-/

namespace Ninfer.Qwen

open Executor (FinishReason GenerationBudget OutputDecision)
open Output (OutputSession PublishedOutput textOf)

variable {n : Nat} {cfg : Config n} {l : Fin n}

/-! ## What the actions do to the slots -/

section Slots

variable {s s' : System n}

theorem exists_of_onProgram {α : Type} {c : Call (Program n) α} {a : α}
    (h : onProgram c s = .ok a s') : ∃ p, s' = { s with program := p } := by
  unfold onProgram at h
  cases hc : c s.program with
  | ok b p =>
    simp only [hc] at h
    obtain ⟨-, rfl⟩ := EStateM.Result.ok.inj h
    exact ⟨p, rfl⟩
  | error e p =>
    simp only [hc] at h
    cases h

theorem exists_of_consumeServiceWork {work : Nat}
    (h : consumeServiceWork l work s = .ok () s') : ∃ account, s' = s.setAccount l account := by
  unfold consumeServiceWork at h
  dsimp only at h
  split_ifs at h
  obtain ⟨-, rfl⟩ := EStateM.Result.ok.inj h
  exact ⟨_, rfl⟩

/-- A step of a prefill changes the phase of its slot. -/
theorem resolvePrefillStep_slots {step : PrefillStep} (h : resolvePrefillStep l step s = .ok () s') :
    s'.round = s.round ∧ ∃ phase, (phase = .prefilling ∨ phase = .firstToken) ∧
      s'.slots = Function.update s.slots l { s.slots l with phase := phase } := by
  obtain ⟨_, t, hconsume, h⟩ := Call.exists_of_bind_ok h
  obtain ⟨account, rfl⟩ := exists_of_consumeServiceWork hconsume
  obtain ⟨-, rfl⟩ := EStateM.Result.ok.inj h
  refine ⟨rfl, _, ?_, rfl⟩
  split_ifs
  · exact Or.inr rfl
  · exact Or.inl rfl

theorem advance_slots {sampled : Sampled} (h : (Action.advance l sampled).run cfg s = .ok () s') :
    s'.round = s.round ∧ ∃ phase, (phase = .prefilling ∨ phase = .firstToken) ∧
      s'.slots = Function.update s.slots l { s.slots l with phase := phase } := by
  obtain ⟨step, t, hprogram, h⟩ := Call.exists_of_bind_ok h
  obtain ⟨p, rfl⟩ := exists_of_onProgram hprogram
  exact resolvePrefillStep_slots (s := { s with program := p }) h

/-- An admitted request is prefilling, or its first token waits, with the budget of its plan. -/
theorem start_slots {prompt : PreparedPromptData} {options : ExecutionOptions}
    {base : RequestBasePlan} {plan : RequestPlan} {transient : TransientRegion} {sampled : Sampled}
    (h : (Action.start l prompt options base plan transient sampled).run cfg s = .ok () s') :
    s'.round = s.round ∧ ∃ phase, (phase = .prefilling ∨ phase = .firstToken) ∧
      s'.slots = Function.update s.slots l ⟨phase, plan.summary.effectiveOutputTokens⟩ := by
  obtain ⟨_, t, hoccupy, h⟩ := Call.exists_of_bind_ok h
  obtain ⟨-, rfl⟩ := EStateM.Result.ok.inj hoccupy
  unfold Call.handle at h
  split at h
  · next hinner =>
    obtain ⟨-, rfl⟩ := EStateM.Result.ok.inj h
    obtain ⟨step, t, hprogram, hstep⟩ := Call.exists_of_bind_ok hinner
    obtain ⟨p, rfl⟩ := exists_of_onProgram hprogram
    obtain ⟨hround, phase, hphase, hslots⟩ := resolvePrefillStep_slots hstep
    refine ⟨hround, phase, hphase, hslots.trans ?_⟩
    simp only [System.occupy, Function.update_self, Function.update_idem]
  · cases h

theorem resolvePrefill_slots {terminal : Bool}
    (h : (Action.resolvePrefill l terminal).run cfg s = .ok () s') :
    s'.round = s.round ∧ s'.slots = Function.update s.slots l
      (if terminal then {} else ⟨.decoding, (s.slots l).budget - 1⟩) := by
  obtain ⟨_, t, hprogram, h⟩ := Call.exists_of_bind_ok h
  obtain ⟨p, rfl⟩ := exists_of_onProgram hprogram
  obtain ⟨-, rfl⟩ := EStateM.Result.ok.inj h
  cases terminal <;> exact ⟨rfl, rfl⟩

theorem decode_slots {rows : List (Fin n × Verdict)}
    (h : (Action.decode rows).run cfg s = .ok () s') :
    s'.round = rows.map Prod.fst ∧ s'.slots = s.slots := by
  obtain ⟨t, t', hget, h⟩ := Call.exists_of_bind_ok h
  obtain ⟨rfl, rfl⟩ := EStateM.Result.ok.inj hget
  obtain ⟨_, t', hprogram, h⟩ := Call.exists_of_bind_ok h
  obtain ⟨p, rfl⟩ := exists_of_onProgram hprogram
  obtain ⟨-, rfl⟩ := EStateM.Result.ok.inj h
  exact ⟨rfl, rfl⟩

/-- The commit of a row leaves the slots of the other lanes. -/
theorem commitDecoded_other {row : Resolution} (h : commitDecoded l row s = .ok () s') {m : Fin n}
    (hm : m ≠ l) : s'.slots m = s.slots m := by
  have hslot : ∀ (t : System n) (slot : Slot), (t.setSlot l slot).slots m = t.slots m :=
    fun t slot => Function.update_of_ne hm ..
  have hlast : ∀ t : System n, (if row.terminal then modify (·.release l) else pure () :
      Call (System n) Unit) t = .ok () s' → s'.slots m = t.slots m := by
    intro t h
    split_ifs at h
    · obtain ⟨-, rfl⟩ := EStateM.Result.ok.inj h
      exact hslot _ _
    · obtain ⟨-, rfl⟩ := EStateM.Result.ok.inj h
      rfl
  unfold commitDecoded at h
  cases hc : row.cancelled with
  | true =>
    simp only [hc, if_true] at h
    exact hlast _ h
  | false =>
    simp only [hc, Bool.false_eq_true, if_false] at h
    obtain ⟨_, t₁, hbudget, h⟩ := Call.exists_of_bind_ok h
    obtain ⟨-, rfl⟩ := EStateM.Result.ok.inj hbudget
    obtain ⟨_, t₂, hconsume, h⟩ := Call.exists_of_bind_ok h
    obtain ⟨account, rfl⟩ := exists_of_consumeServiceWork hconsume
    obtain ⟨_, t₃, hrecord, h⟩ := Call.exists_of_bind_ok h
    obtain ⟨-, rfl⟩ := EStateM.Result.ok.inj hrecord
    exact (hlast _ h).trans (hslot _ _)

theorem forM_commitDecoded_other : ∀ {rows : List (Fin n × Resolution)} {s s' : System n},
    (rows.forM fun row => commitDecoded row.1 row.2) s = .ok () s' → ∀ {m : Fin n},
    m ∉ rows.map Prod.fst → s'.slots m = s.slots m
  | [], _, _, h, _, _ => by
    obtain ⟨-, rfl⟩ := EStateM.Result.ok.inj h
    rfl
  | row :: rows, s, s', h, m, hm => by
    rw [List.map_cons, List.mem_cons, not_or] at hm
    obtain ⟨_, t, hrow, h⟩ := Call.exists_of_bind_ok h
    exact (forM_commitDecoded_other h hm.2).trans (commitDecoded_other hrow hm.1)

theorem resolve_other {rows : List (Fin n × Resolution)}
    (h : (Action.resolve rows).run cfg s = .ok () s') {m : Fin n} (hm : m ∉ rows.map Prod.fst) :
    s'.slots m = s.slots m := by
  obtain ⟨_, t, hprogram, h⟩ := Call.exists_of_bind_ok h
  obtain ⟨p, rfl⟩ := exists_of_onProgram hprogram
  obtain ⟨_, t, hround, h⟩ := Call.exists_of_bind_ok h
  obtain ⟨-, rfl⟩ := EStateM.Result.ok.inj hround
  exact forM_commitDecoded_other h hm

end Slots

/-! ## The invariant -/

/-- The session of a request cannot decode some tokens that it was not given too many of. -/
def Served.Undecodable (s : Served) (tokens : List TokenId) (e : Exception) : Prop :=
  s.output.previewFrom s.budget.remaining s.budget.limitReason 0 s.output.state [] tokens = .error e

/-- A list of calls returns, or fails with the first of them that does. -/
theorem mapM_ok_or_error {α β ε : Type} {f : β → Except ε α} {R : β → α → Prop} {E : β → ε → Prop} :
    ∀ {l : List β}, (∀ b ∈ l, (∃ a, f b = .ok a ∧ R b a) ∨ ∃ e, f b = .error e ∧ E b e) →
    (∃ l', l.mapM f = .ok l' ∧ List.Forall₂ R l l') ∨ ∃ b ∈ l, ∃ e, l.mapM f = .error e ∧ E b e
  | [], _ => Or.inl ⟨[], rfl, .nil⟩
  | b :: l, h => by
    rw [List.mapM_cons]
    rcases h b (List.mem_cons_self ..) with ⟨a, ha, hR⟩ | ⟨e, he, hE⟩
    · rw [ha]
      rcases mapM_ok_or_error fun b' hm => h b' (List.mem_cons_of_mem _ hm) with
        ⟨l', hl, hall⟩ | ⟨b', hm, e, he, hE⟩
      · exact Or.inl ⟨a :: l', by rw [hl]; rfl, .cons hR hall⟩
      · exact Or.inr ⟨b', List.mem_cons_of_mem _ hm, e, by rw [he]; rfl, hE⟩
    · exact Or.inr ⟨b, List.mem_cons_self .., e, by rw [he]; rfl, hE⟩

theorem orLogicError_of {p : Prop} [Decidable p] {what : String} (h : p) :
    orLogicError p what = .ok () := by
  unfold orLogicError
  rw [check_of h]
  rfl

namespace Generation

variable (cfg) in
/-- The invariant of the runs: the request of each slot goes on within the budget of the slot, and no
round is left unresolved between two turns. -/
structure Inv (g : Generation n) : Prop where
  reach : Qwen.Reachable cfg g.system
  round : g.system.round = []
  lanes : ∀ l, LaneServed (g.system.slots l) (g.served l)
  completed : ∀ c ∈ g.completed, c.Ok

variable {g : Generation n}

theorem inv_init : Inv cfg (Generation.init cfg) :=
  ⟨.refl, rfl, fun _ => laneServed_idle rfl, fun _ h => absurd h List.not_mem_nil⟩

/-- A call of the program that the executor may make returns, or throws for a token outside the
token domain. -/
theorem onSystem_spec (hr : Qwen.Reachable cfg g.system) {action : Action n}
    (he : action.Enabled cfg g.system) :
    (∃ s', action.run cfg g.system = .ok () s' ∧ Qwen.Reachable cfg s' ∧
        onSystem cfg action g = .ok { g with system := s' }) ∨
      onSystem cfg action g = .error (.threw tokenDomainError) := by
  unfold onSystem
  rcases hr.inv.action he with ⟨s', hok, -⟩ | ⟨t, herror, -⟩
  · exact Or.inl ⟨s', hok, hr.tail (.returned he hok), by rw [hok]⟩
  · exact Or.inr (by rw [herror])

/-- A call for one lane and the commit that follows it keep the invariant. -/
theorem Inv.commit (hi : Inv cfg g) {s' : System n} {g' : Generation n}
    (hr : Qwen.Reachable cfg s') (hround : s'.round = g.system.round)
    (hslots : ∀ m, m ≠ l → s'.slots m = g.system.slots m)
    (hc : Committed { g with system := s' } g' l (s'.slots l)) : Inv cfg g' where
  reach := by
    rw [hc.system]
    exact hr
  round := by
    rw [hc.system]
    exact hround.trans hi.round
  lanes := by
    intro m
    rw [hc.system]
    by_cases hm : m = l
    · exact hm ▸ hc.served
    · rw [hc.other m hm]
      show LaneServed (s'.slots m) (g.served m)
      rw [hslots m hm]
      exact hi.lanes m
  completed := hc.completed hi.completed

/-! ## Prefill -/

/-- **The cancellation of a request** between rounds returns. -/
theorem cancel_spec (hi : Inv cfg g) (hbusy : (g.system.slots l).phase ≠ .idle) :
    ∃ g', cancel cfg l g = .ok g' ∧ Inv cfg g' := by
  obtain ⟨s, hserved, hs, hb⟩ := (hi.lanes l).busy hbusy
  have he : (Action.abort l).Enabled cfg g.system := ⟨hbusy, by rw [hi.round]; exact List.not_mem_nil⟩
  obtain ⟨decision, previewed, hpreview, hd⟩ := hs.cancelled []
  obtain ⟨output, published, hcommit, -, -, hends⟩ := hd.commit hs (Nat.zero_le _)
  have hsystem : onSystem cfg (.abort l) g = .ok { g with system := g.system.abandon l } := rfl
  have hslot : (g.system.abandon l).slots l = {} := Function.update_self ..
  have hcommitted : Committed { g with system := g.system.abandon l }
      (finish { g with system := g.system.abandon l } l
        (s.accept [] ⟨0, true, true⟩ output published) true .cancelled) l
      ((g.system.abandon l).slots l) :=
    committed_finish (fun h => (by cases h)) fun _ => ⟨hends rfl, by rw [hslot]⟩
  refine ⟨_, ?_, hi.commit (hi.reach.tail (.returned he rfl)) rfl
    (fun m hm => Function.update_of_ne hm ..) hcommitted⟩
  unfold cancel
  rw [request_of hserved]
  simp only [bind, Except.bind, hsystem, hpreview, orThrow, Served.commitPreview, hcommit]
  simp [finish, Served.accept]

/-- **`resolve_round`** keeps the invariant, or the session cannot decode the token. -/
theorem resolveRound_spec (hi : Inv cfg g) (hp : (g.system.slots l).phase = .firstToken)
    (token : TokenId) :
    (∃ g', resolveRound cfg l token g = .ok g' ∧ Inv cfg g') ∨
      ∃ s e, g.served l = some s ∧ s.Undecodable [token] e ∧
        resolveRound cfg l token g = .error (.threw e) := by
  obtain ⟨s, hserved, hs, hb⟩ := (hi.lanes l).busy (by rw [hp]; simp)
  have hle : [token].length ≤ s.budget.remaining := hs.remaining
  unfold resolveRound
  rw [request_of hserved]
  cases hpreview : s.output.preview [token] s.budget.remaining s.budget.limitReason with
  | error e =>
    refine Or.inr ⟨s, e, hserved, ?_, ?_⟩
    · exact hs.session.preview_error (List.cons_ne_nil _ _) hle hs.limit hpreview
    · simp only [bind, Except.bind, hpreview, orThrow]
  | ok result =>
    obtain ⟨decision, previewed⟩ := result
    have hd := hs.preview hpreview
    obtain ⟨output, published, hcommit, haccepted, hgoes, hends⟩ := hd.commit hs hle
    -- The one token of the round is accepted.
    have hone : decision.acceptedTokens = 1 := by
      obtain ⟨hpos, hmax⟩ := hd.accepted rfl
      exact Nat.le_antisymm hmax hpos
    have he : (Action.resolvePrefill l decision.finished).Enabled cfg g.system := by
      refine ⟨hp, fun hfinished => ?_⟩
      have := (hd.goes hfinished).2
      rw [← hb]
      exact this
    have hrun : (∃ s', (Action.resolvePrefill l decision.finished).run cfg g.system = .ok () s' ∧
        SysInv cfg s') := by
      obtain ⟨s', hok, hs', -⟩ := resolvePrefill_spec hi.reach.inv he
      exact ⟨s', hok, hs'⟩
    obtain ⟨system, hok, -⟩ := hrun
    obtain ⟨hround, hslots⟩ := resolvePrefill_slots hok
    have hsystem : onSystem cfg (.resolvePrefill l decision.finished) g =
        .ok { g with system := system } := by
      unfold onSystem
      rw [hok]
    have hslot : system.slots l =
        if decision.finished then {} else ⟨.decoding, (g.system.slots l).budget - 1⟩ := by
      rw [hslots]
      exact Function.update_self ..
    have hcommitted : Committed { g with system := system } (finish { g with system := system } l
        (s.accept [token] ⟨decision.acceptedTokens, decision.finished, false⟩ output published)
        decision.finished decision.finishReason) l (system.slots l) := by
      refine committed_finish (fun hfinished => ⟨hgoes hfinished, ?_, ?_⟩)
        fun hfinished => ⟨hends hfinished, ?_⟩
      · simp [hslot, hfinished]
      · simp [hslot, hfinished, Served.accept, hone, hb]
      · simp [hslot, hfinished]
    refine Or.inl ⟨_, ?_, hi.commit (hi.reach.tail (.returned he hok)) hround (fun m hm => ?_)
      hcommitted⟩
    · have hbudget : ¬s.budget.remaining < 1 := Nat.not_lt.mpr hs.remaining
      simp only [bind, Except.bind, hpreview, orThrow, orLogicError_of hone, hsystem, commitBudget,
        if_neg hbudget, Served.commitPreview, hcommit, Served.accept]
      simp only [hone, List.take_succ_cons, List.take_nil]
    · rw [hslots]
      exact Function.update_of_ne hm ..

/-- The end of an admission or of a step of a prefill. -/
theorem resolvePrefillStep_spec (hi : Inv cfg g) (hbusy : (g.system.slots l).phase ≠ .idle)
    (token : TokenId) (cancelled : Bool) :
    (∃ g', resolvePrefillStep cfg l token cancelled g = .ok g' ∧ Inv cfg g') ∨
      ∃ s e, g.served l = some s ∧ s.Undecodable [token] e ∧
        resolvePrefillStep cfg l token cancelled g = .error (.threw e) := by
  unfold resolvePrefillStep
  split_ifs with hc hp
  · exact Or.inl (cancel_spec hi hbusy)
  · exact resolveRound_spec hi hp token
  · exact Or.inl ⟨g, rfl, hi⟩

/-! ## Decode rounds -/

theorem members_nodup : g.members.Nodup := (List.nodup_finRange n).filter _

theorem mem_members : l ∈ g.members ↔ (g.system.slots l).phase = .decoding := by
  simp [members]

variable (cfg) in
/-- What a round licenses for a lane: tokens within the budget of its request, as many as the program
holds pending. -/
structure LicensedRow (g : Generation n) (s' : System n) (row : Fin n × List TokenId) (s : Served) :
    Prop where
  served : g.served row.1 = some s
  ok : s.Ok
  budget : s.budget.remaining = (g.system.slots row.1).budget
  produced : row.2.length = (s'.program.lanes row.1).pending.produced
  pos : row.2 ≠ []
  within : row.2.length ≤ s.budget.remaining
  width : row.2.length ≤ cfg.width

/-- **A round licenses** for each of its lanes at least one token and at most its budget. -/
theorem Inv.licensed (hi : Inv cfg g) (hm : g.members ≠ []) (verdict : Fin n → Verdict) :
    (∃ s', (Action.decode (g.members.map fun l => (l, verdict l))).run cfg g.system = .ok () s' ∧
        Qwen.Reachable cfg s' ∧
        onSystem cfg (.decode (g.members.map fun l => (l, verdict l))) g =
          .ok { g with system := s' } ∧
        s'.round = g.members ∧ s'.slots = g.system.slots ∧
        s'.program.egress.length = g.members.length ∧
        ∀ row ∈ g.members.zip (s'.program.egress.map (·.licensed)), ∃ s,
          LicensedRow cfg g s' row s) ∨
      onSystem cfg (.decode (g.members.map fun l => (l, verdict l))) g =
        .error (.threw tokenDomainError) := by
  have hfst : (g.members.map fun l => (l, verdict l)).map Prod.fst = g.members := by
    rw [List.map_map]
    exact List.map_id _
  have he : (Action.decode (g.members.map fun l => (l, verdict l))).Enabled cfg g.system := by
    refine ⟨hi.round, by simpa using hm, by rw [hfst]; exact members_nodup, fun row hrow => ?_⟩
    obtain ⟨l, hl, rfl⟩ := List.mem_map.mp hrow
    exact mem_members.mp hl
  refine (onSystem_spec hi.reach he).imp_left ?_
  rintro ⟨s', hrun, hr, hon⟩
  obtain ⟨hround, hslots⟩ := decode_slots hrun
  rw [hfst] at hround
  have hs' := hr.inv
  have hegress := hs'.egress (by rw [hround]; exact hm)
  rw [hround] at hegress
  refine ⟨s', hrun, hr, hon, hround, hslots, hegress.length_eq.symm, fun row hrow => ?_⟩
  rw [List.zip_map_right] at hrow
  obtain ⟨⟨l, e⟩, hzip, rfl⟩ := List.mem_map.mp hrow
  have hin : l ∈ g.members := (List.of_mem_zip hzip).1
  have hfor := (List.forall₂_iff_zip.mp hegress).2 hzip
  obtain ⟨hpending, -⟩ := hs'.pendingLane (l := l) (by rw [hround]; exact hin)
  obtain ⟨s, hserved, hs, hb⟩ := (hi.lanes l).busy (by rw [mem_members.mp hin]; simp)
  have hle := hpending.produced_le
  have hproduced : 0 < (s'.program.lanes l).pending.produced ∧
      (s'.program.lanes l).pending.produced ≤ cfg.width := by
    by_cases hback : cfg.backend = .none
    · rw [(hpending.ordinary hback).pending]
      exact ⟨Nat.one_pos, Nat.le_add_left _ _⟩
    · exact ⟨(hpending.speculative hback).produced_pos, (hpending.speculative hback).width⟩
  have hlen := hfor.licensed
  rw [hslots, ← hb] at hle
  refine ⟨s, hserved, hs, hb, hlen, ?_, ?_, ?_⟩
  · intro hnil
    have : e.licensed.length = 0 := congrArg List.length hnil
    omega
  · show e.licensed.length ≤ _
    omega
  · show e.licensed.length ≤ _
    omega

/-- **The output policy at a row** decides, or the session cannot decode the tokens: no check of the
executor or of the session fails. -/
theorem decideRow_spec {s' : System n} {row : Fin n × List TokenId} {s : Served}
    (hrow : LicensedRow cfg g s' row s) (cancelled : Fin n → Bool) :
    (∃ decided, decideRow cfg cancelled { g with system := s' } row = .ok decided ∧
        (decided.lane, decided.licensed) = row ∧
        s.Decided row.2 decided.resolution decided.finishReason decided.output) ∨
      ∃ e, decideRow cfg cancelled { g with system := s' } row = .error (.threw e) ∧
        s.Undecodable row.2 e := by
  have hrequest : request { g with system := s' } row.1 = .ok s := request_of hrow.served
  have hextent : row.2.length ≠ 0 ∧ row.2.length ≤ cfg.width :=
    ⟨by simpa using hrow.pos, hrow.width⟩
  unfold decideRow
  rw [hrequest, orLogicError_of hextent]
  simp only [bind, Except.bind]
  split_ifs with hc
  · obtain ⟨decision, previewed, hpreview, hd⟩ := hrow.ok.cancelled row.2
    exact Or.inl ⟨⟨row.1, row.2, ⟨0, true, true⟩, .cancelled, previewed⟩,
      by simp only [hpreview, orThrow], rfl, hd⟩
  · cases hpreview : s.output.preview row.2 s.budget.remaining s.budget.limitReason with
    | error e =>
      exact Or.inr ⟨e, rfl, hrow.ok.session.preview_error hrow.pos hrow.within hrow.ok.limit
        hpreview⟩
    | ok result =>
      obtain ⟨decision, previewed⟩ := result
      have hd := hrow.ok.preview hpreview
      obtain ⟨hpos, hle⟩ := hd.accepted rfl
      have hvalid : decision.acceptedTokens ≠ 0 ∧ decision.acceptedTokens ≤ row.2.length ∧
          (decision.finished = true ∨ decision.acceptedTokens = row.2.length) := by
        refine ⟨Nat.ne_of_gt hpos, hle, ?_⟩
        cases hfinished : decision.finished with
        | true => exact Or.inl rfl
        | false => exact Or.inr (hd.goes hfinished).1
      exact Or.inl ⟨⟨row.1, row.2, ⟨decision.acceptedTokens, decision.finished, false⟩,
        decision.finishReason, previewed⟩, by simp only [orThrow, orLogicError_of hvalid], rfl, hd⟩

/-- **The resolution and the commits of a round** whose rows are decided return. -/
theorem resolveRows_spec (hi : Inv cfg g) {s' : System n} (hr : Qwen.Reachable cfg s')
    (hm : g.members ≠ []) (hround : s'.round = g.members) (hslots : s'.slots = g.system.slots)
    {rows : List (DecidedRow n)} (hlanes : rows.map (·.lane) = g.members)
    (hrows : ∀ row ∈ rows, ∃ s, LicensedRow cfg g s' (row.lane, row.licensed) s ∧
      s.Decided row.licensed row.resolution row.finishReason row.output) :
    ∃ system g', onSystem cfg (.resolve (rows.map fun row => (row.lane, row.resolution)))
        { g with system := s' } = .ok { g with system := system } ∧
      rows.foldlM commitRow { g with system := system } = .ok g' ∧ Inv cfg g' := by
  have hfst : (rows.map fun row => (row.lane, row.resolution)).map Prod.fst = g.members := by
    rw [List.map_map]
    exact hlanes
  have he : (Action.resolve (rows.map fun row => (row.lane, row.resolution))).Enabled cfg s' := by
    refine ⟨?_, by rw [hfst, hround], fun row hrow => ?_⟩
    · rintro hnil
      rw [hnil] at hfst
      exact hm hfst.symm
    · obtain ⟨decided, hdecided, rfl⟩ := List.mem_map.mp hrow
      obtain ⟨s, hs, hd⟩ := hrows decided hdecided
      have hproduced := hs.produced
      have hb := hs.budget
      refine ⟨⟨fun hc => (hd.cancelled hc).1, fun hc => ?_, fun _ ht => ?_⟩,
        fun hc => (hd.cancelled hc).2.1⟩
      · rw [← hproduced]
        exact hd.accepted hc
      · have hgoes := hd.goes ht
        rw [hslots, ← hproduced, ← hb]
        exact hgoes
  obtain ⟨system, hok, -, -, -, hnone, -, hresolved, -⟩ := resolve_spec hr.inv he
  have hon : onSystem cfg (.resolve (rows.map fun row => (row.lane, row.resolution)))
      { g with system := s' } = .ok { g with system := system } := by
    unfold onSystem
    rw [hok]
  obtain ⟨g', hcommits, hsystem, hother, hserved, hcompleted⟩ :=
    commitRows_spec (g := { g with system := system }) rows g.system.slots
      (by rw [hlanes]; exact members_nodup)
      (by
        intro row hrow
        obtain ⟨s, hs, hd⟩ := hrows row hrow
        have hin : row.lane ∈ g.members := hlanes ▸ List.mem_map_of_mem hrow
        exact ⟨mem_members.mp hin, s, hs.served, hs.ok, hs.budget, hd, hs.within⟩)
      hi.completed
  refine ⟨system, g', hon, hcommits, ?_, ?_, fun l => ?_, hcompleted⟩
  · rw [hsystem]
    exact hr.tail (.returned he hok)
  · rw [hsystem]
    exact hnone
  · rw [hsystem]
    by_cases hin : l ∈ g.members
    · rw [← hlanes] at hin
      obtain ⟨row, hrow, rfl⟩ := List.mem_map.mp hin
      have hslot := hresolved (row.lane, row.resolution) (List.mem_map.mpr ⟨row, hrow, rfl⟩)
      rw [hslots] at hslot
      show LaneServed (system.slots row.lane) _
      rw [hslot]
      exact hserved row hrow
    · -- The lanes outside the round keep their slots.
      have hout : l ∉ (rows.map fun row => (row.lane, row.resolution)).map Prod.fst := by
        rw [hfst]
        exact hin
      rw [hother l (by rw [hlanes]; exact hin)]
      show LaneServed (system.slots l) (g.served l)
      rw [resolve_other hok hout, hslots]
      exact hi.lanes l

/-- **`run_decode_round`** keeps the invariant; it throws only for a token outside the token domain,
or where a session cannot decode its row. -/
theorem decodeRound_spec (hi : Inv cfg g) (hm : g.members ≠ []) (verdict : Fin n → Verdict)
    (cancelled : Fin n → Bool) :
    (∃ g', decodeRound cfg verdict cancelled g = .ok g' ∧ Inv cfg g') ∨
      decodeRound cfg verdict cancelled g = .error (.threw tokenDomainError) ∨
      ∃ s' row s e, (Action.decode (g.members.map fun l => (l, verdict l))).run cfg g.system =
          .ok () s' ∧ row ∈ g.members.zip (s'.program.egress.map (·.licensed)) ∧
        g.served row.1 = some s ∧ s.Undecodable row.2 e ∧
        decodeRound cfg verdict cancelled g = .error (.threw e) := by
  unfold decodeRound
  rcases hi.licensed hm verdict with
    ⟨s', hrun, hr, hon, hround, hslots, hlength, hlicensed⟩ | herror
  · have hlayout : (s'.program.egress.map (·.licensed)).length = g.members.length := by
      rw [List.length_map, hlength]
    simp only [bind, Except.bind, hon, orLogicError_of hlayout]
    rcases mapM_ok_or_error (l := g.members.zip (s'.program.egress.map (·.licensed)))
        (f := decideRow cfg cancelled { g with system := s' })
        (R := fun row decided => (decided.lane, decided.licensed) = row ∧ ∃ s,
          LicensedRow cfg g s' row s ∧
          s.Decided row.2 decided.resolution decided.finishReason decided.output)
        (E := fun row h => ∃ s e, h = .threw e ∧ g.served row.1 = some s ∧ s.Undecodable row.2 e)
        (by
          intro row hrow
          obtain ⟨s, hs⟩ := hlicensed row hrow
          rcases decideRow_spec hs cancelled with ⟨decided, hok, heq, hd⟩ | ⟨e, hthrew, hu⟩
          · exact Or.inl ⟨decided, hok, heq, s, hs, hd⟩
          · exact Or.inr ⟨_, hthrew, s, e, rfl, hs.served, hu⟩) with
      ⟨rows, hrows, hall⟩ | ⟨row, hrow, h, hthrew, s, e, rfl, hserved, hu⟩
    · left
      -- The rows that are resolved are those of the round.
      have hzip : rows.map (fun decided => (decided.lane, decided.licensed)) =
          g.members.zip (s'.program.egress.map (·.licensed)) := by
        rw [← List.forall₂_eq_eq_eq, List.forall₂_map_left_iff]
        exact hall.flip.imp fun _ _ h => h.1
      have hlanes : rows.map (·.lane) = g.members := by
        have hfst := congrArg (List.map Prod.fst) hzip
        rw [List.map_map, List.map_fst_zip (by omega)] at hfst
        exact hfst
      obtain ⟨system, g', hresolve, hcommits, hi'⟩ := resolveRows_spec hi hr hm hround hslots hlanes
        (by
          intro decided hdecided
          obtain ⟨i, hi, rfl⟩ := List.mem_iff_getElem.mp hdecided
          obtain ⟨heq, s, hs, hd⟩ := hall.get (i := i) (by rw [hall.length_eq]; exact hi) hi
          rw [List.get_eq_getElem, List.get_eq_getElem] at *
          rw [← heq] at hs hd
          exact ⟨s, hs, hd⟩)
      rw [hrows]
      dsimp only
      rw [hresolve]
      exact ⟨g', hcommits, hi'⟩
    · exact Or.inr (Or.inr ⟨s', row, s, e, hrun, hrow, hserved, hu, by rw [hthrew]⟩)
  · refine Or.inr (Or.inl ?_)
    simp only [bind, Except.bind, herror]

end Generation

/-! ## Turns -/

/-- What a plan says of the budget. -/
theorem planned_budget {x : Lane} {prompt : PreparedPromptData} {options : ExecutionOptions}
    {base : RequestBasePlan} {plan : RequestPlan} (hrequested : options.requestedOutputTokens ≠ 0)
    (hbase : planRequestBase cfg prompt options = .ok base)
    (hplan : planRequestForLane cfg x prompt base = .ok plan) :
    0 < plan.summary.effectiveOutputTokens ∧
      (plan.summary.effectiveLimitReason = .outputLimit ∨
        plan.summary.effectiveLimitReason = .contextCapacity) := by
  have hoks := planRequestBase_spec hbase
  refine ⟨?_, ?_⟩
  · rw [(planRequestForLane_spec hplan).output, hoks.output, effectiveOutputTokens]
    omega
  · unfold planRequestForLane at hplan
    split_ifs at hplan
    obtain rfl := Except.ok.inj hplan
    unfold planRequestBase at hbase
    rw [bind_eq_ok] at hbase
    obtain ⟨_, -, hbase⟩ := hbase
    rw [bind_eq_ok] at hbase
    obtain ⟨⟨control, bytes⟩, -, hbase⟩ := hbase
    rw [check_bind_eq_ok] at hbase
    obtain ⟨-, hbase⟩ := hbase
    obtain rfl := Except.ok.inj hbase
    dsimp only
    split_ifs
    · exact Or.inl rfl
    · exact Or.inr rfl

variable (cfg) in
/-- A session cannot decode the tokens of a round of the turn. -/
inductive Turn.Undecodable (g : Generation n) : Turn n → Exception → Prop
  | admission {l prompt options base plan transient output sampled cancelled budget e}
      (made : makeGenerationBudget plan.summary.effectiveOutputTokens
        plan.summary.effectiveLimitReason = .ok budget)
      (fails : (Served.admitted plan output budget).Undecodable [sampled.token] e) :
      Undecodable g
        (.admitPlanned l prompt options base plan transient output sampled cancelled) e
  | prefill {l sampled cancelled s e} (served : g.served l = some s)
      (fails : s.Undecodable [sampled.token] e) : Undecodable g (.prefill l sampled cancelled) e
  | round {verdict cancelled s' row s e}
      (run : (Action.decode (g.members.map fun l => (l, verdict l))).run cfg g.system = .ok () s')
      (licensed : row ∈ g.members.zip (s'.program.egress.map (·.licensed)))
      (served : g.served row.1 = some s) (fails : s.Undecodable row.2 e) :
      Undecodable g (.round verdict cancelled) e

namespace Generation

variable {g : Generation n}

/-- After a step of its prefill a request is in its slot as it was before. -/
theorem Inv.stepped (hi : Inv cfg g) {s' : System n} {s : Served} {phase : Phase} {budget : Nat}
    (hr : Qwen.Reachable cfg s') (hround : s'.round = g.system.round)
    (hphase : phase = .prefilling ∨ phase = .firstToken)
    (hslots : s'.slots = Function.update g.system.slots l ⟨phase, budget⟩) (hs : s.Ok)
    (hb : s.budget.remaining = budget) :
    (s'.slots l).phase ≠ .idle ∧ Inv cfg { g.keep l s with system := s' } := by
  have hslot : s'.slots l = ⟨phase, budget⟩ := by
    rw [hslots]
    exact Function.update_self ..
  have hbusy : (s'.slots l).phase ≠ .idle := by
    rw [hslot]
    rcases hphase with rfl | rfl <;> simp
  have hserved : (g.keep l s).served l = some s := Function.update_self ..
  refine ⟨hbusy, hi.commit (l := l) hr hround (fun m hm => ?_)
    ⟨rfl, ?_, fun m hm => ?_, fun hall => hall⟩⟩
  · rw [hslots]
    exact Function.update_of_ne hm ..
  · show LaneServed (s'.slots l) ((g.keep l s).served l)
    rw [hserved]
    exact LaneServed.of_ok hs hbusy (by rw [hslot]; exact hb)
  · exact Function.update_of_ne hm ..

/-- **Every turn keeps the invariant.** None aborts, and the exceptions are those of a token outside
the token domain and of tokens that a session cannot decode. -/
theorem Inv.turn (hi : Inv cfg g) {t : Turn n} (he : t.Enabled cfg g) :
    (∃ g', t.run cfg g = .ok g' ∧ Inv cfg g') ∨
      ∃ e, t.run cfg g = .error (.threw e) ∧ (e = tokenDomainError ∨ t.Undecodable cfg g e) := by
  cases t with
  | admitPlanned l prompt options base plan transient output sampled cancelled =>
    obtain ⟨hrequested, hstart, tokenizer, callerStop, outputOptions, starts, hmade⟩ := he
    obtain ⟨-, -, hbase, hplan, -, -⟩ := id hstart
    obtain ⟨hpos, hlimit⟩ := planned_budget hrequested hbase hplan
    set budget : GenerationBudget :=
      ⟨plan.summary.effectiveOutputTokens, plan.summary.effectiveLimitReason⟩ with hbudget
    have hmake : makeGenerationBudget plan.summary.effectiveOutputTokens
        plan.summary.effectiveLimitReason = .ok budget := if_pos hlimit
    set s₀ : Served := .admitted plan output budget with hs₀
    have hok₀ : s₀.Ok := ⟨Output.OutputSession.makeOutputSession_open hmade, hlimit,
      Nat.zero_add _, hpos⟩
    simp only [Turn.run, hmake, bind, Except.bind]
    rcases onSystem_spec (g := g.keep l s₀) hi.reach hstart with ⟨s', hrun, hr, hon⟩ | herror
    · obtain ⟨hround, phase, hphase, hslots⟩ := start_slots hrun
      -- The request is in its slot, with the budget of its plan.
      obtain ⟨hbusy, hi₁⟩ := hi.stepped hr hround hphase hslots hok₀ rfl
      rw [hon]
      rcases resolvePrefillStep_spec (l := l) hi₁ hbusy sampled.token cancelled with
        hok | ⟨s, e, hsome, hu, hthrew⟩
      · exact Or.inl hok
      · have hserved : (g.keep l s₀).served l = some s₀ := Function.update_self ..
        obtain rfl := Option.some.inj (hserved.symm.trans hsome)
        exact Or.inr ⟨e, hthrew, Or.inr (.admission hmake hu)⟩
    · exact Or.inr ⟨_, by rw [herror], Or.inl rfl⟩
  | prefill l sampled cancelled =>
    simp only [Turn.run, bind, Except.bind]
    rcases @onSystem_spec _ _ _ hi.reach (.advance l sampled) he with ⟨s', hrun, hr, hon⟩ | herror
    · obtain ⟨hround, phase, hphase, hslots⟩ := advance_slots hrun
      have hprefilling : (g.system.slots l).phase = .prefilling := he
      obtain ⟨s, hserved, hs, hb⟩ := (hi.lanes l).busy (by rw [hprefilling]; simp)
      have hkeep : g.keep l s = g := by
        rw [keep, Function.update_eq_self_iff.mpr hserved.symm]
      obtain ⟨hbusy, hi₁⟩ := hi.stepped hr hround hphase hslots hs hb
      rw [hkeep] at hi₁
      rw [hon]
      rcases resolvePrefillStep_spec (l := l) hi₁ hbusy sampled.token cancelled with
        hok | ⟨s, e, hsome, hu, hthrew⟩
      · exact Or.inl hok
      · exact Or.inr ⟨e, hthrew, Or.inr (.prefill hsome hu)⟩
    · exact Or.inr ⟨_, by rw [herror], Or.inl rfl⟩
  | round verdict cancelled =>
    rcases decodeRound_spec hi he verdict cancelled with
      hok | herror | ⟨s', row, s, e, hrun, hrow, hserved, hu, hthrew⟩
    · exact Or.inl hok
    · exact Or.inr ⟨_, herror, Or.inl rfl⟩
    · exact Or.inr ⟨e, hthrew, Or.inr (.round hrun hrow hserved hu)⟩
  | cancel l => exact Or.inl (cancel_spec hi he)
  | evict l =>
    rcases @onSystem_spec _ _ _ hi.reach (.evict l) he with ⟨s', hrun, hr, hon⟩ | herror
    · obtain ⟨-, rfl⟩ := EStateM.Result.ok.inj ((evict_spec hi.reach.inv he).1.symm.trans hrun)
      exact Or.inl ⟨_, hon, hr, hi.round, hi.lanes, hi.completed⟩
    · exact Or.inr ⟨_, herror, Or.inl rfl⟩

theorem Reachable.inv (hr : Reachable cfg g) : Inv cfg g := by
  induction hr with
  | init => exact inv_init
  | turn _ enabled run ih =>
    rcases ih.turn enabled with ⟨g', hok, hi⟩ | ⟨e, herror, -⟩
    · obtain rfl := Except.ok.inj (hok.symm.trans run)
      exact hi
    · cases herror.symm.trans run

end Generation

/-! ## The generation of a request -/

section Runs

variable {g : Generation n}

/-- **The budget is exact in every reachable state.** A request has generated what its budget has
lost, and has budget left; a round licenses for a lane at least one token and at most its budget; a
request that has ended is within its plan, and the limit is its reason only at the last token; no turn
aborts or fails in a check of the budget. -/
theorem generation_within_budget (hr : Generation.Reachable cfg g) :
    (∀ l s, g.served l = some s → s.generated.length + s.budget.remaining = s.effective ∧
      1 ≤ s.budget.remaining ∧ (g.system.slots l).budget = s.budget.remaining) ∧
    (∀ (verdict : Fin n → Verdict) s',
        (Action.decode (g.members.map fun l => (l, verdict l))).run cfg g.system =
        .ok () s' → ∀ row ∈ g.members.zip (s'.program.egress.map (·.licensed)), ∃ s,
      g.served row.1 = some s ∧ 1 ≤ row.2.length ∧ row.2.length ≤ s.budget.remaining) ∧
    (∀ c ∈ g.completed, 1 ≤ c.request.effective ∧
      c.request.generated.length ≤ c.request.effective ∧
      (c.finishReason = c.request.budget.limitReason →
        c.request.generated.length = c.request.effective) ∧
      (c.request.generated.length = c.request.effective → c.finishReason = .stopToken ∨
        c.finishReason = .stopString ∨ c.finishReason = c.request.budget.limitReason)) ∧
    ∀ t : Turn n, t.Enabled cfg g → (∃ g', t.run cfg g = .ok g') ∨
      ∃ e, t.run cfg g = .error (.threw e) ∧ (e = tokenDomainError ∨ t.Undecodable cfg g e) := by
  have hi := hr.inv
  refine ⟨fun l s hserved => ?_, fun verdict s' hrun row hrow => ?_, fun c hc => ?_, fun t he => ?_⟩
  · have hbusy : (g.system.slots l).phase ≠ .idle := by
      intro hidle
      rw [(hi.lanes l).idle hidle] at hserved
      cases hserved
    obtain ⟨s', hsome, hs, hb⟩ := (hi.lanes l).busy hbusy
    obtain rfl := Option.some.inj (hsome.symm.trans hserved)
    exact ⟨hs.total, hs.remaining, hb.symm⟩
  · have hne : g.members ≠ [] := by
      intro hnil
      rw [hnil, List.zip_nil_left] at hrow
      cases hrow
    rcases hi.licensed hne verdict with ⟨t, hrun', -, -, -, -, -, hlicensed⟩ | herror
    · obtain ⟨-, rfl⟩ := EStateM.Result.ok.inj (hrun'.symm.trans hrun)
      obtain ⟨s, hs⟩ := hlicensed row hrow
      exact ⟨s, hs.served, List.length_pos_iff.mpr hs.pos, hs.within⟩
    · unfold Generation.onSystem at herror
      rw [hrun] at herror
      cases herror
  · have hok := hi.completed c hc
    refine ⟨hok.effective_pos, hok.generated_le, hok.limited, fun hall => ?_⟩
    rcases hok.reason with hcancelled | hreason
    · have := (hok.cancelled hcancelled).1
      omega
    · exact hreason
  · refine (hi.turn he).imp_left ?_
    rintro ⟨g', hok, -⟩
    exact ⟨g', hok⟩

/-- **What a request has come to** is what the reference says of its generated tokens, however its
rounds divided them: the text of each channel, the tokens accepted, the reason and the tokens of
reasoning. A cancelled one has the whole text of its tokens. -/
theorem generation_follows_reference (hr : Generation.Reachable cfg g) :
    ∀ c ∈ g.completed,
      let outcome := c.request.setting.reference c.request.budget.limitReason c.request.effective
        c.request.generated
      (c.finishReason ≠ .cancelled →
        (fun channel => textOf channel c.request.published) = outcome.published ∧
          c.request.generated.length = outcome.acceptedTokens ∧
          c.finishReason = outcome.finishReason ∧
          c.request.output.reasoningTokens = outcome.reasoningTokens) ∧
      (c.finishReason = .cancelled → outcome.finishReason = .none ∧
        (fun channel => textOf channel c.request.published) =
          c.request.setting.final c.request.generated) := by
  intro c hc
  have hok := hr.inv.completed c hc
  refine ⟨fun hne => ?_, fun hcancelled => ?_⟩
  · have hcon := hok.concluded hne
    exact ⟨funext hcon.published, hcon.accepted.symm, hcon.reason.symm, hcon.reasoningTokens.symm⟩
  · obtain ⟨-, hnone, htexts⟩ := hok.cancelled hcancelled
    exact ⟨hnone, funext htexts⟩

end Runs

/-! ## A run to evaluate -/

namespace Generation

variable {g : Generation n}

variable (cfg) in
/-- The state after a turn; one that halts is not taken. -/
def take (g : Generation n) (t : Turn n) : Generation n :=
  match t.run cfg g with
  | .ok g' => g'
  | .error _ => g

variable (cfg) in
/-- The state after a request was planned and admitted, if the lane can take it. -/
def serve (g : Generation n) (l : Fin n) (prompt : PreparedPromptData) (options : ExecutionOptions)
    (transient : TransientRegion) (output : OutputSession) (sampled : Sampled) : Generation n :=
  match planRequestBase cfg prompt options with
  | .error _ => g
  | .ok base =>
    match planRequestForLane cfg (g.system.program.lanes l) prompt base with
    | .error _ => g
    | .ok plan =>
      if canAdmitLane cfg g.system.program l plan = true ∧ Satisfies plan transient then
        g.take cfg (.admitPlanned l prompt options base plan transient output sampled false)
      else g

theorem Reachable.take {t : Turn n} (hr : Reachable cfg g) (he : t.Enabled cfg g) :
    Reachable cfg (g.take cfg t) := by
  unfold Generation.take
  split
  next h => exact hr.turn he h
  next => exact hr

theorem Reachable.serve {prompt : PreparedPromptData} {options : ExecutionOptions}
    {transient : TransientRegion} {output : OutputSession} {sampled : Sampled}
    (hr : Reachable cfg g) (hidle : (g.system.slots l).phase = .idle) (hprep : Prepared prompt)
    (hrequested : options.requestedOutputTokens ≠ 0)
    (hmade : ∃ tokenizer callerStop outputOptions starts,
      Output.makeOutputSession tokenizer callerStop outputOptions starts = .ok output) :
    Reachable cfg (g.serve cfg l prompt options transient output sampled) := by
  unfold Generation.serve
  split
  next => exact hr
  next base hbase =>
    split
    next => exact hr
    next plan hplan =>
      split_ifs with h
      · exact hr.take ⟨hrequested, ⟨hidle, hprep, hbase, hplan, h.1, h.2⟩, hmade⟩
      · exact hr

end Generation

/-- A request for three tokens: the prefill has licensed the first. -/
def spellingRun : Generation 1 :=
  (Generation.init tinyConfig).serve tinyConfig ⟨0, Nat.zero_lt_one⟩ picturePrompt ⟨3, true, none⟩
    ⟨true, 4096, 4096⟩ (Output.byteSession false []) ⟨97, fun _ => 98⟩

/-- A round has licensed the two others. -/
def spelledRun : Generation 1 :=
  spellingRun.take tinyConfig (.round (fun _ => ⟨1, 99, fun _ => 0, fun _ => 0⟩) fun _ => false)

theorem reachable_spellingRun : Generation.Reachable tinyConfig spellingRun :=
  Generation.Reachable.serve .init rfl prepared_picturePrompt (by decide)
    ⟨_, _, _, _, Output.makeOutputSession_plain⟩

/-- The request goes on after its prefill, and ends with the round. -/
theorem spellingRun_members :
    spellingRun.members = [0] ∧
      (spellingRun.served 0).map (fun s => s.budget.remaining) = some 2 ∧
      spelledRun.completed.map (fun c => (c.request.generated, c.finishReason)) =
        [([97, 98, 99], .outputLimit)] ∧
      spelledRun.completed.map
          (fun c => (c.request.effective, textOf .content c.request.published)) =
        [(3, [97, 98, 99])] := by
  decide +kernel

theorem reachable_spelledRun : Generation.Reachable tinyConfig spelledRun := by
  refine reachable_spellingRun.take ?_
  rw [Turn.Enabled, spellingRun_members.1]
  exact List.cons_ne_nil _ _

/-- The request has used up its budget, and no turn was stopped by a check of it. -/
theorem generation_within_budget_spelledRun :
    (∀ l s, spellingRun.served l = some s → s.generated.length + s.budget.remaining = s.effective) ∧
      (∀ c ∈ spelledRun.completed, c.request.generated.length ≤ c.request.effective) ∧
      spelledRun.completed.map (fun c => (c.request.generated, c.finishReason)) =
        [([97, 98, 99], .outputLimit)] := by
  obtain ⟨hserved, -⟩ := generation_within_budget reachable_spellingRun
  obtain ⟨-, -, hcompleted, -⟩ := generation_within_budget reachable_spelledRun
  exact ⟨fun l s h => (hserved l s h).1, fun c hc => (hcompleted c hc).2.1,
    spellingRun_members.2.2.1⟩

theorem generation_follows_reference_spelledRun :
    ∃ c ∈ spelledRun.completed, c.finishReason = .outputLimit ∧
      (c.request.setting.reference c.request.budget.limitReason c.request.effective
        c.request.generated).published .content = [97, 98, 99] := by
  obtain ⟨-, -, hcompleted, htexts⟩ := spellingRun_members
  obtain ⟨c, hc, hpair⟩ := List.map_eq_singleton_iff.mp hcompleted
  rw [hc, List.map_singleton, List.singleton_inj] at htexts
  have hmem : c ∈ spelledRun.completed := hc ▸ List.mem_singleton_self c
  have hreason : c.finishReason = .outputLimit := congrArg Prod.snd hpair
  obtain ⟨hpublished, -⟩ := (generation_follows_reference reachable_spelledRun c hmem).1
    (by rw [hreason]; decide)
  have hcontent : textOf .content c.request.published = [97, 98, 99] := congrArg Prod.snd htexts
  exact ⟨c, hmem, hreason, (congrFun hpublished .content).symm.trans hcontent⟩

end Ninfer.Qwen
