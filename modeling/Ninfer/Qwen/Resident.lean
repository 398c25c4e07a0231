import Ninfer.Qwen.Continuing
import Ninfer.Qwen.Safety

/-!
# What a lane keeps of its prompt

In every run, from the start of a request on, the identity of its lane is that of the prompt with
the tokens generated since, until the lane is cleared or takes another prompt. The positions it has
recorded for the generated tokens are the ones that decode rounds use, and a later prompt that
repeats the conversation matches it.

## Main definitions

* `Lane.Holds`: a lane with a prompt and generated tokens after it
* `Since`: the states of the runs since a lane has taken a prompt

## Main results

* `Action.kept`: no call takes the prompt from a lane, except for clearing it
* `Since.holds`: the lane holds its prompt in every state
* `prompt_and_decode_positions_agree`: **positions of prompts, of recorded and of decoded tokens**
-/

namespace Ninfer.Qwen

variable {n : Nat} {cfg : Config n}

/-- The lane has the prompt `p` and `count` generated tokens after it. -/
structure Lane.Holds (x : Lane) (p : PreparedPromptData) (count : Nat) : Prop where
  ropeDelta : x.ropeDelta = p.ropeDelta
  identity : x.prefixIdentity = p.recorded count
  ledger : ∃ reply, x.ledger = p.tokenIds ++ reply

/-- The lane is empty, or it has the prompt `p` and generated tokens after it. -/
def Lane.Keeps (x : Lane) (p : PreparedPromptData) : Prop :=
  x.lifecycle = .empty ∨ ∃ count, x.Holds p count

/-- The lane `y` keeps the prompt that the lane `x` has. -/
def Kept (x y : Lane) : Prop := ∀ p, Prepared p → x.Keeps p → y.Keeps p

theorem Kept.refl (x : Lane) : Kept x x := fun _ _ h => h

theorem Kept.trans {x y z : Lane} (h : Kept x y) (h' : Kept y z) : Kept x z :=
  fun p hp hx => h' p hp (h p hp hx)

theorem Kept.of_empty {x y : Lane} (h : y.lifecycle = .empty) : Kept x y := fun _ _ _ => Or.inl h

theorem Kept.of_same {x y : Lane} (hx : x.lifecycle ≠ .empty) (hdelta : y.ropeDelta = x.ropeDelta)
    (hidentity : y.prefixIdentity = x.prefixIdentity) (hledger : y.ledger = x.ledger) :
    Kept x y := by
  intro p _ h
  obtain ⟨count, h⟩ := h.resolve_left hx
  exact Or.inr ⟨count, hdelta.trans h.ropeDelta, hidentity.trans h.identity, hledger ▸ h.ledger⟩

/-- Generated tokens are appended to the ledger, and recorded. -/
theorem Kept.of_append {x y : Lane} (hx : x.lifecycle ≠ .empty) (count : Nat)
    (tokens : List TokenId) (hdelta : y.ropeDelta = x.ropeDelta)
    (hidentity : y.prefixIdentity =
      ⟨x.prefixIdentity.tokenTypes ++ List.replicate count 0,
        x.prefixIdentity.positions ++
          ResidentPrefixIdentity.generatedPositions x.prefixIdentity.size x.ropeDelta count,
        x.prefixIdentity.visionItems⟩)
    (hledger : y.ledger = x.ledger ++ tokens) : Kept x y := by
  intro p hp h
  obtain ⟨k, h⟩ := h.resolve_left hx
  obtain ⟨reply, hreply⟩ := h.ledger
  refine Or.inr ⟨k + count, hdelta.trans h.ropeDelta, ?_, reply ++ tokens, ?_⟩
  · have hsize : (p.recorded k).size = p.size + k := by
      unfold PreparedPromptData.recorded ResidentPrefixIdentity.size
      rw [List.length_append, List.length_replicate, hp.types_length]
    rw [hidentity, h.identity, h.ropeDelta, hsize]
    exact p.recorded_append k count
  · rw [hledger, hreply, List.append_assoc]

/-! ## The calls on one lane -/

section Lanes

variable {h : KvHeap n} {l : Fin n} {x y : Lane} {staged staged' : Prefill} {budget : Nat}
  {sampled : Sampled} {step : PrefillAdvance}

/-- A prefill that goes on keeps the prompt, up to the payloads it releases. -/
theorem Underway.kept (hx : Underway cfg h l x staged budget)
    (hy : Underway cfg h l y staged' budget)
    (hprompt : ∃ payloads, staged'.prompt = { staged.prompt with mediaPayloads := payloads }) :
    y.ropeDelta = x.ropeDelta ∧ y.prefixIdentity = x.prefixIdentity ∧ y.ledger = x.ledger := by
  obtain ⟨payloads, hprompt⟩ := hprompt
  rw [hy.ropeDelta, hy.identity, hy.ledger, hx.ropeDelta, hx.identity, hx.ledger, hprompt]
  exact ⟨rfl, rfl, rfl⟩

/-- **A step of a prefill**: the prompt stays, and the first token comes after it. -/
theorem AdvanceOutcome.kept (hx : PrefillingLane cfg h l x staged budget)
    (ho : AdvanceOutcome cfg h l x staged budget sampled step) : Kept x step.lane := by
  have hne : x.lifecycle ≠ .empty := by
    rw [hx.lifecycle]
    rintro ⟨⟩
  cases ho with
  | more staged' _ _ _ hy hfed =>
    obtain ⟨hdelta, hidentity, hledger⟩ := hx.toUnderway.kept hy.toUnderway hfed.prompt
    exact .of_same hne hdelta hidentity hledger
  | done y staged' r _ _ _ _ hy hfed hfinished _ =>
    obtain ⟨hdelta, hidentity, hledger⟩ := hx.toUnderway.kept hy hfed.prompt
    have hsize : y.prefixIdentity.size = staged'.promptTokens := hy.sized.types
    refine Kept.of_append hne 1 [sampled.token] ?_ ?_ ?_
    · rw [hfinished.ropeDelta, hdelta]
    · rw [← hidentity, ← hdelta, hsize]
      have hgenerated : ResidentPrefixIdentity.generatedPositions staged'.promptTokens y.ropeDelta 1 =
          [.same (staged'.promptTokens + y.ropeDelta)] := by
        simp [ResidentPrefixIdentity.generatedPositions]
      rw [hgenerated, ← hfinished.positions, ← hfinished.items, List.replicate_one,
        ← hfinished.types]
    · rw [hfinished.ledger, hledger]

/-- **A row of a round** keeps the prompt: an ordinary one appends its token, and a speculative one
changes nothing before it is resolved. -/
theorem decodeRow_kept {verdict : Verdict} {result : RowResult} (hx : x.lifecycle ≠ .empty)
    (hrow : decodeRow cfg x budget verdict = .ok result) : Kept x result.lane := by
  unfold decodeRow at hrow
  split_ifs at hrow
  · unfold ordinaryRow at hrow
    dsimp only at hrow
    rw [bind_eq_ok] at hrow
    obtain ⟨_, -, hrow⟩ := hrow
    rw [bind_eq_ok] at hrow
    obtain ⟨identity, hidentity, hrow⟩ := hrow
    cases hrow
    exact .of_append hx 1 [verdict.token] rfl (ResidentPrefixIdentity.appendGenerated_eq_ok hidentity)
      rfl
  · unfold speculativeRow at hrow
    dsimp only at hrow
    rw [check_bind_eq_ok] at hrow
    obtain ⟨-, hrow⟩ := hrow
    rw [bind_eq_ok] at hrow
    obtain ⟨_, -, hrow⟩ := hrow
    cases hrow
    exact .of_same hx rfl rfl rfl

/-- **The resolution of a row** records the tokens it commits. -/
theorem SettledFrom.kept {row : Resolution} {e : RowEgress} (hx : PendingLane cfg h l x budget)
    (hy : SettledFrom cfg x row e y) : Kept x (settle y row.terminal) := by
  have hne : x.lifecycle ≠ .empty := by
    by_cases hb : cfg.backend = .none
    · rw [(hx.ordinary hb).lifecycle]
      rintro ⟨⟩
    · rw [(hx.speculative hb).lifecycle]
      rintro ⟨⟩
  cases hy with
  | ordinary => exact .of_same hne rfl rfl rfl
  | speculative backend correct _ =>
    have hsize : x.prefixIdentity.size = x.executionFrontier + 1 :=
      (hx.speculative backend).sized.types
    refine Kept.of_append hne row.accepted (e.licensed.take row.accepted) rfl ?_ rfl
    rw [hsize]
    rfl

end Lanes

/-! ## The calls of the executor -/

section Actions

variable {s s' t : System n} {l m : Fin n}

theorem clearLane_kept (p : Program n) : Kept (p.lanes l) ((clearLane m p).lanes l) := by
  by_cases hl : l = m
  · subst hl
    refine Kept.of_empty ?_
    show (Function.update p.lanes l _ l).lifecycle = .empty
    rw [Function.update_self]
    rfl
  · show Kept _ (Function.update p.lanes m _ l)
    rw [Function.update_of_ne hl]
    exact .refl _

/-- `fail_all` clears lanes or leaves them alone. -/
theorem failAll_kept (t : System n) : Kept (t.program.lanes l) (t.failAll.program.lanes l) := by
  have hclear : ∀ (lanes : List (Fin n)) (p : Program n),
      Kept (p.lanes l) ((clearLanes lanes p).lanes l) := by
    intro lanes
    induction lanes with
    | nil => exact fun _ => .refl _
    | cons m lanes ih => exact fun p => (clearLane_kept p).trans (ih (clearLane m p))
  exact hclear _ t.program

/-- The call is the start of a request on the lane. -/
def Action.Starts (l : Fin n) : Action n → Prop
  | .start m .. => m = l
  | _ => False

/-- What an action does to a lane, whether it returns or throws and everything fails. -/
def Action.Leaves (cfg : Config n) (action : Action n) (s : System n) (l : Fin n) : Prop :=
  (∀ s', action.run cfg s = .ok () s' → Kept (s.program.lanes l) (s'.program.lanes l)) ∧
    ∀ e t, action.run cfg s = .error e t → Kept (s.program.lanes l) (t.failAll.program.lanes l)

theorem Action.leaves_of_ok {action : Action n} (hrun : action.run cfg s = .ok () s')
    (h : Kept (s.program.lanes l) (s'.program.lanes l)) : action.Leaves cfg s l := by
  refine ⟨fun t ht => ?_, fun e t ht => ?_⟩
  · cases hrun.symm.trans ht
    exact h
  · cases hrun.symm.trans ht

theorem Action.leaves_of_error {action : Action n} {e : Exception}
    (hrun : action.run cfg s = .error e t) (h : Kept (s.program.lanes l) (t.program.lanes l)) :
    action.Leaves cfg s l := by
  refine ⟨fun t' ht => ?_, fun e' t' ht => ?_⟩
  · cases hrun.symm.trans ht
  · cases hrun.symm.trans ht
    exact h.trans (failAll_kept t)

/-- **No call takes the prompt from a lane**, except for clearing it and for the start of the next
request. -/
theorem Action.kept (hs : SysInv cfg s) {action : Action n} (he : action.Enabled cfg s)
    (hstarts : ¬action.Starts l) : action.Leaves cfg s l := by
  cases action with
  | start m prompt options base plan transient sampled =>
    have hm : l ≠ m := fun heq => hstarts heq.symm
    have henabled := he
    obtain ⟨hidle, hprep, hbase, hplan, hadmits, htransient⟩ := he
    obtain ⟨s₁, staged, -, hstepped, -, hstaged, -, hrun⟩ :=
      startPrefillLane_spec hs.kv (hs.free hidle).1 hprep (planRequestBase_spec hbase)
        (planRequestForLane_spec hplan) htransient hadmits sampled
    -- Another lane starts: this one is not touched, whether the start succeeds or not.
    rcases hrun with ⟨step, hprogram, -, -⟩ | herror
    · have hready := (accountReady_occupy (s := s) (l := m) (planRequestBase_spec hbase)
        (planRequestForLane_spec hplan) hstaged).covers
      have hpos := Prefill.stepsLeft_pos cfg staged
      have hok := start_run_ok options base hprogram
        (by omega)
      rcases start_spec hs henabled with ⟨p₁, _, step', s', hok', -, -, -, -, hlanes, -, hp, -⟩ |
        ⟨_, herror, -⟩
      · refine Action.leaves_of_ok hok' ?_
        rw [hp, show (advanced m p₁ step').lanes l = p₁.lanes l from Function.update_of_ne hm ..,
          hlanes l hm]
        exact .refl _
      · cases hok.symm.trans herror
    · have hinner : (onProgram (startPrefillLane cfg m prompt plan transient sampled) >>=
          resolvePrefillStep m) (s.occupy cfg m plan) = _ :=
        Call.bind_of_error (onProgram_of_error herror)
      have herror' : (Action.start m prompt options base plan transient sampled).run cfg s =
          .error tokenDomainError (({ s.occupy cfg m plan with
            program := clearLane m (clearLane m s₁) } : System n).abandon m) := by
        show ((onProgram (startPrefillLane cfg m prompt plan transient sampled) >>=
          resolvePrefillStep m).handle _) (s.occupy cfg m plan) = _
        simp only [Call.handle, hinner]
      refine Action.leaves_of_error herror' ?_
      show Kept _ ((clearLane m (clearLane m (clearLane m s₁))).lanes l)
      have hsame : (clearLane m (clearLane m (clearLane m s₁))).lanes l = s.program.lanes l := by
        show Function.update (Function.update (Function.update s₁.lanes m _) m _) m _ l = _
        rw [Function.update_of_ne hm, Function.update_of_ne hm, Function.update_of_ne hm,
          hstepped.lanes l hm]
      rw [hsame]
      exact .refl _
  | advance m sampled =>
    obtain ⟨staged, hprefill, hadv, hl, -⟩ := hs.prefillingLane he
    have hbase : staged.base ≠ staged.promptTokens := by
      have := hl.cursor_le
      omega
    rcases advancePrefill_spec hs.kv hprefill hl (fun heq => absurd heq hbase) sampled with
      ⟨step, hprogram, -, -⟩ | herror
    · have hok := advance_run_ok hprogram (hs.remaining_pos (Or.inl he))
      rcases advance_spec hs he sampled with ⟨staged', step', s', hok', -, -, hl', ho, hp, -⟩ |
        ⟨_, herror, -⟩
      · refine Action.leaves_of_ok hok' ?_
        rw [hp]
        by_cases hm : l = m
        · subst hm
          rw [show (advanced l s.program step').lanes l = step'.lane from Function.update_self ..]
          exact ho.kept hl'
        · rw [show (advanced m s.program step').lanes l = s.program.lanes l from
            Function.update_of_ne hm ..]
          exact .refl _
      · cases hok.symm.trans herror
    · have herror' : (Action.advance m sampled).run cfg s =
          .error tokenDomainError { s with program := clearLane m s.program } :=
        Call.bind_of_error (onProgram_of_error herror)
      exact Action.leaves_of_error herror' (clearLane_kept s.program)
  | resolvePrefill m terminal =>
    obtain ⟨s', hrun, -, hl, hstep, -, hlane, -⟩ := resolvePrefill_spec hs he
    refine Action.leaves_of_ok hrun ?_
    by_cases hm : l = m
    · subst hm
      rw [hlane]
      refine .of_same ?_ rfl rfl rfl
      rw [hl.lifecycle]
      rintro ⟨⟩
    · rw [hstep.lanes l hm]
      exact .refl _
  | decode rows =>
    obtain ⟨hne, hready⟩ := hs.batchReady he
    have hlanes := System.batch_lanes (s := s) rows
    -- A round leaves the lanes outside its batch, and a failed one clears those inside.
    rcases decodeBatch_spec hs.kv hne hready with
      ⟨egress, p', hok, hb, -, -, hrows⟩ | ⟨p', herror, hb, -, hempty⟩
    · have hok' : (Action.decode rows).run cfg s =
          .ok () { s with program := p', round := rows.map Prod.fst } :=
        Call.bind_of_ok (onProgram_of_ok hok)
      refine Action.leaves_of_ok hok' ?_
      show Kept _ (p'.lanes l)
      by_cases hl : l ∈ (s.batch rows).map (·.lane)
      · obtain ⟨row, hrow, rfl⟩ := List.mem_map.mp hl
        obtain ⟨i, hi, rfl⟩ := List.mem_iff_getElem.mp hrow
        have hall := List.forall₂_iff_get.mp hrows
        obtain ⟨result, hr⟩ := hall.2 i hi (hall.1 ▸ hi)
        rw [show p'.lanes (s.batch rows)[i].lane = result.lane from hr.lane]
        refine decodeRow_kept ?_ hr.decoded
        rw [(hready.active _ (List.getElem_mem hi)).lifecycle]
        rintro ⟨⟩
      · rw [hb.lanes l hl]
        exact .refl _
    · have herror' : (Action.decode rows).run cfg s =
          .error tokenDomainError { s with program := p' } :=
        Call.bind_of_error (c := onProgram (decodeBatch cfg (s.batch rows)))
          (onProgram_of_error herror)
      refine Action.leaves_of_error herror' ?_
      show Kept _ (p'.lanes l)
      by_cases hl : l ∈ (s.batch rows).map (·.lane)
      · obtain ⟨row, hrow, rfl⟩ := List.mem_map.mp hl
        exact .of_empty (hempty row hrow).lifecycle
      · rw [hb.lanes l hl]
        exact .refl _
  | resolve rows =>
    obtain ⟨s', hrun, -, hstep, -, -, hpending, -, hsettled⟩ := resolve_spec hs he
    refine Action.leaves_of_ok hrun ?_
    by_cases hl : l ∈ rows.map Prod.fst
    · obtain ⟨row, hrow, rfl⟩ := List.mem_map.mp hl
      obtain ⟨i, hi, rfl⟩ := List.mem_iff_getElem.mp hrow
      have hall := List.forall₂_iff_get.mp hsettled
      obtain ⟨y, hy, hset⟩ := hall.2 i hi (hall.1 ▸ hi)
      cases hc : rows[i].2.cancelled with
      | true => exact .of_empty (hset.resolved.cancelled hc).lifecycle
      | false =>
        rw [show s'.program.lanes rows[i].1 = _ from hset.lane hc]
        exact hy.kept (hpending _ hrow)
    · rw [hstep.lanes l hl]
      exact .refl _
  | abort m => exact Action.leaves_of_ok (abort_spec hs he).1 (clearLane_kept s.program)
  | evict m =>
    have hrun : (Action.evict m).run cfg s =
        .ok () { s with program := evictRetainedLane m s.program } := rfl
    refine Action.leaves_of_ok hrun ?_
    show Kept _ ((evictRetainedLane m s.program).lanes l)
    unfold evictRetainedLane
    split_ifs
    · exact clearLane_kept s.program
    · exact .refl _

end Actions

/-! ## Since the start of a request -/

section Runs

variable {s s' : System n} {l : Fin n} {p : PreparedPromptData}

/-- The states of the runs since the lane `l` has taken the prompt `p`. -/
inductive Since (cfg : Config n) (l : Fin n) (p : PreparedPromptData) : System n → Prop
  | started {s s' : System n} {options : ExecutionOptions} {base : RequestBasePlan}
      {plan : RequestPlan} {transient : TransientRegion} {sampled : Sampled}
      (reached : Reachable cfg s)
      (enabled : (Action.start l p options base plan transient sampled).Enabled cfg s)
      (run : (Action.start l p options base plan transient sampled).run cfg s = .ok () s') :
      Since cfg l p s'
  | returned {s s' : System n} {action : Action n} (since : Since cfg l p s)
      (enabled : action.Enabled cfg s) (other : ¬action.Starts l)
      (run : action.run cfg s = .ok () s') : Since cfg l p s'
  | threw {s t : System n} {action : Action n} {e : Exception} (since : Since cfg l p s)
      (enabled : action.Enabled cfg s) (other : ¬action.Starts l)
      (run : action.run cfg s = .error e t) : Since cfg l p t.failAll

theorem Since.reachable (h : Since cfg l p s) : Reachable cfg s := by
  induction h with
  | started reached enabled run => exact reached.tail (.returned enabled run)
  | returned _ enabled _ run ih => exact ih.tail (.returned enabled run)
  | threw _ enabled _ run ih => exact ih.tail (.threw enabled run)

theorem Since.prepared (h : Since cfg l p s) : Prepared p := by
  induction h with
  | started _ enabled _ => exact enabled.2.1
  | returned _ _ _ _ ih => exact ih
  | threw _ _ _ _ ih => exact ih

/-- A request that is in its slot after it was served has just started. -/
theorem Since.serve {options : ExecutionOptions} {transient : TransientRegion} {sampled : Sampled}
    (hr : Reachable cfg s) (hidle : (s.slots l).phase = .idle) (hprep : Prepared p)
    (hs' : s' = s.serve cfg l p options transient sampled) (hbusy : (s'.slots l).phase ≠ .idle) :
    Since cfg l p s' := by
  subst hs'
  obtain ⟨base, plan, he, hrun⟩ := hr.serve_started hidle hprep hbusy
  exact .started hr he hrun

theorem Since.perform {action : Action n} (hsince : Since cfg l p s) (he : action.Enabled cfg s)
    (hother : ¬action.Starts l) : Since cfg l p (s.perform cfg action) := by
  unfold System.perform
  split
  next h => exact .returned hsince he hother h
  next h => exact .threw hsince he hother h

theorem Since.size_pos (h : Since cfg l p s) : 0 < p.size := by
  induction h with
  | started _ enabled _ => exact (planRequestBase_spec enabled.2.2.1).size_pos
  | returned _ _ _ _ ih => exact ih
  | threw _ _ _ _ ih => exact ih

/-- **The lane has its prompt in every state**, until it is cleared. -/
theorem Since.keeps (h : Since cfg l p s) : (s.program.lanes l).Keeps p := by
  induction h with
  | @started s s' _ _ plan _ _ reached enabled run =>
    rcases start_spec reached.inv enabled with
      ⟨p₁, staged, step, s'', hok, -, hstaged, hl, ho, -, -, hp, -⟩ | ⟨_, herror, -⟩
    · cases hok.symm.trans run
      have hlane : s'.program.lanes l = step.lane := by
        rw [hp]
        exact Function.update_self ..
      obtain ⟨payloads, hprompt⟩ := hstaged.payloads
      have hfirst : (p₁.lanes l).Holds p 0 := by
        refine ⟨?_, ?_, [], ?_⟩
        · rw [hl.ropeDelta, hprompt]
        · rw [hl.identity, hprompt]
          simp [PreparedPromptData.recorded, ResidentPrefixIdentity.generatedPositions]
        · rw [hl.ledger, hprompt, List.append_nil]
      rw [hlane]
      exact ho.kept hl p enabled.2.1 (Or.inr ⟨0, hfirst⟩)
    · cases herror.symm.trans run
  | @returned _ s' action since enabled other run ih =>
    exact (Action.kept since.reachable.inv enabled other).1 s' run p since.prepared ih
  | @threw _ t action e since enabled other run ih =>
    exact (Action.kept since.reachable.inv enabled other).2 e t run p since.prepared ih

/-- A lane that is not empty has as many tokens in its ledger as in its identity. -/
theorem SysInv.sized (hs : SysInv cfg s) (hne : (s.program.lanes l).lifecycle ≠ .empty) :
    ∃ size, Sized cfg (s.program.lanes l) size := by
  cases hs.lanes l with
  | empty _ _ lane => exact absurd lane.lifecycle hne
  | complete _ _ lane => exact ⟨_, lane.sized⟩
  | prefilling _ _ _ _ _ lane => exact ⟨_, lane.sized⟩
  | start _ _ lane => exact ⟨_, lane.sized⟩
  | active _ _ lane => exact ⟨_, lane.sized⟩
  | ordinary _ _ lane => exact ⟨_, lane.sized⟩
  | speculative _ _ lane => exact ⟨_, lane.sized⟩

/-- **What a lane has of its prompt and of the reply**, in terms of the tokens it holds. -/
theorem Since.holds (h : Since cfg l p s) (hne : (s.program.lanes l).lifecycle ≠ .empty) :
    ∃ reply, (s.program.lanes l).ledger = p.tokenIds ++ reply ∧
      (s.program.lanes l).prefixIdentity = p.recorded reply.length ∧
      (s.program.lanes l).ropeDelta = p.ropeDelta ∧ (cfg.backend = .dflash → p.ropeDelta = 0) := by
  obtain ⟨count, hl⟩ := h.keeps.resolve_left hne
  obtain ⟨reply, hreply⟩ := hl.ledger
  obtain ⟨size, hsized⟩ := h.reachable.inv.sized hne
  have hcount : reply.length = count := by
    have hledger := hsized.ledger
    have htypes := hsized.types
    rw [hreply, List.length_append] at hledger
    rw [hl.identity, PreparedPromptData.recorded, List.length_append, List.length_replicate,
      h.prepared.types_length, PreparedPromptData.size] at htypes
    omega
  refine ⟨reply, hreply, hcount ▸ hl.identity, hl.ropeDelta, fun hb => ?_⟩
  rw [← hl.ropeDelta]
  exact hsized.dflash hb

/-- The position of the generated token `k` in a decode round. -/
theorem columnPosition_generated {x : Lane} (hp : Prepared p) (hs : 0 < p.size)
    (hdelta : x.ropeDelta = p.ropeDelta) (hdflash : cfg.backend = .dflash → p.ropeDelta = 0)
    {maximum : Int} (hmax : IsGreatest (coordinates p.positions) maximum) (k : Nat) :
    columnPosition cfg x (p.size + k) = .same (maximum + 1 + k) := by
  have hgreatest := assignPositions_delta (hp.types_ne_nil hs) (hp.assigned hs)
  rw [hp.types_length] at hgreatest
  have heq := hmax.unique hgreatest
  unfold columnPosition
  cases hb : cfg.backend with
  | dflash =>
    have hzero := hdflash hb
    dsimp only
    congr 1
    push_cast
    omega
  | none =>
    dsimp only
    congr 1
    push_cast
    omega
  | mtp =>
    dsimp only
    congr 1
    push_cast
    omega

end Runs

/-! ## Positions of prompts, of recorded and of decoded tokens -/

/-- **Prompt and decode positions agree.** `assign_positions` is online, so that the positions of a
prefix are the prefix of the positions, and the rope delta takes the number of tokens to the position
after the largest one. From the start of a request on, the positions recorded for its generated
tokens are the ones that decode rounds use, those after the largest position of the prompt, and every
later prompt that repeats prompt and reply matches the resident tokens. -/
theorem prompt_and_decode_positions_agree :
    (∀ (types : List Nat) (items items' : List VisionItem) (positions : List Position) (delta : Int),
      (∀ item ∈ items, item.tokenSpans = []) →
      assignPositions types items = .ok (items', positions, delta) →
      positions = place (placed types items') ∧
      (∀ count, positions.take count = place ((placed types items').take count)) ∧
      (types ≠ [] → ∃ maximum, IsGreatest (coordinates positions) maximum ∧
        delta + types.length = maximum + 1)) ∧
    (∀ (types more : List Nat) (items moreItems items₁ items₂ : List VisionItem)
      (positions₁ positions₂ : List Position) (delta₁ delta₂ : Int), types ≠ [] →
      (∀ item ∈ items ++ moreItems, item.tokenSpans = []) →
      assignPositions types items = .ok (items₁, positions₁, delta₁) →
      assignPositions (types ++ more) (items ++ moreItems) = .ok (items₂, positions₂, delta₂) →
      positions₂.take types.length = positions₁) ∧
    (∀ count, 0 < count →
      assignPositions (List.replicate count 0) [] = .ok ([], assignTextPositions count, 0)) ∧
    ∀ (l : Fin n) (p : PreparedPromptData) (s : System n), Since cfg l p s →
      (s.program.lanes l).lifecycle ≠ .empty →
      ∃ (reply : List TokenId) (maximum : Int),
        IsGreatest (coordinates p.positions) maximum ∧
        (s.program.lanes l).ledger = p.tokenIds ++ reply ∧
        (s.program.lanes l).prefixIdentity.positions = p.positions ++
          (List.range reply.length).map (fun (k : Nat) => .same (maximum + 1 + k)) ∧
        (∀ k, columnPosition cfg (s.program.lanes l) (p.size + k) = .same (maximum + 1 + k)) ∧
        ∀ q, Prepared q → Continues p reply q →
          (∀ item ∈ q.visionItems, 0 < item.grid.temporal) →
          q.positions.take (p.size + reply.length) =
              (s.program.lanes l).prefixIdentity.positions ∧
            prefixMatches q (s.program.lanes l).ledger (s.program.lanes l).prefixIdentity
              (p.size + reply.length) = true := by
  refine ⟨?_, ?_, fun count hc => assignPositions_replicate hc, ?_⟩
  · intro types items items' positions delta hbare h
    have hplace := assignPositions_place hbare h
    refine ⟨hplace, fun count => ?_, fun hne => ⟨_, assignPositions_delta hne h, by omega⟩⟩
    rw [hplace, take_place]
  · intro types more items moreItems items₁ items₂ positions₁ positions₂ delta₁ delta₂ hne hbare h₁ h₂
    exact assignPositions_take hne hbare h₁ h₂
  · intro l p s h hne
    have hp := h.prepared
    have hs := h.size_pos
    -- A lane that still holds the prompt has its tokens, and a reply after them.
    obtain ⟨reply, hledger, hidentity, hdelta, hdflash⟩ := h.holds hne
    have hmax := assignPositions_delta (hp.types_ne_nil hs) (hp.assigned hs)
    refine ⟨reply, _, hmax, hledger, ?_, ?_, ?_⟩
    · rw [hidentity]
      exact hp.recorded_positions hs hmax reply.length
    · exact columnPosition_generated hp hs hdelta hdflash hmax
    · intro q hq hcontinues hgrids
      rw [hledger, hidentity]
      exact ⟨hcontinues.positions hp hq hs, hcontinues.prefixMatches hp hq hs hgrids⟩

/-! ## A run to evaluate -/

/-- The pending round is accepted whole. -/
def settledRun : System 1 :=
  roundRun.perform tinyConfig (.resolve [(⟨0, Nat.zero_lt_one⟩, ⟨2, false, false⟩)])

theorem since_followUpRun : Since tinyConfig 0 followUpPrompt followUpRun := by
  have hne : (followUpRun.slots 0).phase ≠ .idle := by
    rw [(sampleRuns_enabled.2.1 0).1]
    decide
  exact Since.serve reachable_retainedRun (sampleRuns_enabled.1 0) prepared_followUpPrompt rfl hne

theorem since_settledRun : Since tinyConfig 0 followUpPrompt settledRun := by
  obtain ⟨-, hfirst, hround, hdecoding⟩ := sampleRuns_enabled
  have hdecodes : Since tinyConfig 0 followUpPrompt decodingRun :=
    since_followUpRun.perform ⟨(hfirst _).1, fun _ => (hfirst _).2⟩ (fun h => h)
  have hpending : Since tinyConfig 0 followUpPrompt roundRun :=
    hdecodes.perform ⟨hround, by simp, by simp, fun row _ => hdecoding row.1⟩ (fun h => h)
  exact hpending.perform enabled_roundRun (fun h => h)

/-- The third turn matches the lane up to the end of the reply. -/
theorem prompt_and_decode_positions_agree_settledRun :
    (settledRun.program.lanes 0).ledger = followUpPrompt.tokenIds ++ [9, 0, 11] ∧
      thirdPrompt.positions.take 11 = (settledRun.program.lanes 0).prefixIdentity.positions ∧
      prefixMatches thirdPrompt (settledRun.program.lanes 0).ledger
        (settledRun.program.lanes 0).prefixIdentity 11 = true := by
  obtain ⟨hne, hledger⟩ : (settledRun.program.lanes 0).lifecycle ≠ .empty ∧
      (settledRun.program.lanes 0).ledger = followUpPrompt.tokenIds ++ [9, 0, 11] := by
    decide +kernel
  obtain ⟨reply, maximum, -, hreply, -, -, hlater⟩ :=
    prompt_and_decode_positions_agree.2.2.2 0 followUpPrompt settledRun since_settledRun hne
  obtain rfl : [9, 0, 11] = reply := List.append_cancel_left (hledger.symm.trans hreply)
  have hcontinues : Continues followUpPrompt [9, 0, 11] thirdPrompt :=
    ⟨⟨[12], rfl⟩, ⟨[0], rfl⟩, ⟨[], rfl⟩⟩
  obtain ⟨hpositions, hmatches⟩ := hlater thirdPrompt prepared_thirdPrompt hcontinues (by decide)
  exact ⟨hledger, hpositions, hmatches⟩

end Ninfer.Qwen
