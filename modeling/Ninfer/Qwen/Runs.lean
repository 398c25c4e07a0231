import Ninfer.Qwen.System

/-!
# Runs of the program

Every action that the executor takes in a reachable state keeps the invariant of the system: each
lane is in the state that the executor knows it to be in, every call of `materialize_tokens` so far
was within what was reserved, every KV write went to mapped pages, and the service work of each
request covers what it may still do. The only exception is that for a token outside the token
domain, which the device would have to sample.

## Main definitions

* `AccountInv`: the accounting of a request covers what it may still do
* `SysInv`: the invariant

## Main results

* `start_spec`, `advance_spec`, `resolvePrefill_spec`, `decode_spec`, `resolve_spec`, `abort_spec`,
  `evict_spec`: the actions
* `Reachable.inv`: the invariant holds in every reachable state
-/

namespace Ninfer.Qwen

open PagedKV

variable {n : Nat} (cfg : Config n)

/-! ## The invariant -/

/-- The accounting of the request of a lane. -/
structure AccountInv (x : Lane) (slot : Slot) (a : Account) : Prop where
  idle : slot.phase = .idle → a = {}
  total : a.steps + a.accepted + a.remaining = a.quanta
  steps : a.steps ≤ a.prefillUnits
  admission : slot.phase ≠ .idle → a.admission = ⟨1, x.reserved .text, x.reserved .backend⟩
  prefilling : slot.phase = .prefilling → ∃ staged, x.prefill = some staged ∧
    a.steps + staged.stepsLeft cfg ≤ a.prefillUnits ∧
    staged.stepsLeft cfg + (slot.budget - 1) ≤ a.remaining
  firstToken : slot.phase = .firstToken → slot.budget - 1 ≤ a.remaining
  decoding : slot.phase = .decoding → slot.budget ≤ a.remaining

/-- The request did not take more prefill steps than projected, nor more service work. -/
def Account.Covered (a : Account) : Prop :=
  a.steps ≤ a.prefillUnits ∧ a.steps + a.accepted + a.remaining = a.quanta

/-- The invariant of the program and the slots of its executor. -/
structure SysInv (s : System n) : Prop where
  kv : KvInv cfg s.program.pools.heap
  lanes : ∀ l, LaneInv cfg s.program.pools.heap l (s.program.lanes l) (s.slots l)
    (decide (l ∈ s.round))
  nodup : s.round.Nodup
  egress : s.round ≠ [] → List.Forall₂ (fun l e =>
    EgressFor cfg (s.program.lanes l) (s.slots l).budget e) s.round s.program.egress
  calls : ∀ call ∈ s.program.pools.calls, call.Within
  writes : ∀ write ∈ s.program.writes, write.Mapped
  prefills : ∀ r ∈ s.program.prefills, r.Ok
  accounts : ∀ l, AccountInv cfg (s.program.lanes l) (s.slots l) (s.accounts l)
  closed : ∀ a ∈ s.closed, a.Covered

variable {cfg} {s : System n} {l : Fin n}

theorem accountInv_idle (x : Lane) : AccountInv cfg x {} {} :=
  ⟨fun _ => rfl, rfl, Nat.le_refl _, fun h => absurd rfl h, nofun, nofun, nofun⟩

theorem sysInv_init : SysInv cfg (System.init cfg) where
  kv := kvInv_init
  lanes := fun _ => .empty rfl rfl ⟨fun _ => rfl, rfl⟩
  nodup := List.nodup_nil
  egress := fun h => absurd rfl h
  calls := nofun
  writes := nofun
  prefills := nofun
  accounts := fun _ => accountInv_idle _
  closed := nofun

theorem AccountInv.covered {x : Lane} {slot : Slot} {a : Account} (ha : AccountInv cfg x slot a) :
    a.Covered :=
  ⟨ha.steps, ha.total⟩

/-- An action on one lane that is not in a round keeps the invariant, if the lane and its accounting
do. -/
theorem SysInv.of_stepped {s' : System n} (hs : SysInv cfg s)
    (hstep : Stepped cfg l s.program s'.program) (hslots : ∀ m, m ≠ l → s'.slots m = s.slots m)
    (haccounts : ∀ m, m ≠ l → s'.accounts m = s.accounts m) (hround : s'.round = s.round)
    (hnot : l ∉ s.round)
    (hlane : LaneInv cfg s'.program.pools.heap l (s'.program.lanes l) (s'.slots l) false)
    (haccount : AccountInv cfg (s'.program.lanes l) (s'.slots l) (s'.accounts l))
    (hclosed : ∀ a ∈ s'.closed, a ∈ s.closed ∨ a.Covered) : SysInv cfg s' where
  kv := hstep.inv
  lanes := by
    intro m
    rw [hround]
    by_cases hm : m = l
    · subst hm
      rw [decide_eq_false hnot]
      exact hlane
    · rw [hstep.lanes m hm, hslots m hm]
      exact (hs.lanes m).frame (hstep.only m hm)
  nodup := hround ▸ hs.nodup
  egress := by
    rw [hround, hstep.egress]
    intro hne
    have hall := hs.egress hne
    rw [List.forall₂_iff_zip] at hall ⊢
    refine ⟨hall.1, fun {m e} hm => ?_⟩
    have hml : m ≠ l := fun heq => hnot (heq ▸ (List.of_mem_zip hm).1)
    rw [hstep.lanes m hml, hslots m hml]
    exact hall.2 hm
  calls := fun call hc => (hstep.calls call hc).elim (hs.calls call) id
  writes := fun write hw => (hstep.writes write hw).elim (hs.writes write) id
  prefills := fun r hr => (hstep.prefills r hr).elim (hs.prefills r) id
  accounts := by
    intro m
    by_cases hm : m = l
    · exact hm ▸ haccount
    · rw [hstep.lanes m hm, hslots m hm, haccounts m hm]
      exact hs.accounts m
  closed := fun a ha => (hclosed a ha).elim (hs.closed a) id

/-! ## What the phases say of a lane -/

theorem SysInv.free (hs : SysInv cfg s) (hp : (s.slots l).phase = .idle) :
    FreeLane cfg s.program.pools.heap l (s.program.lanes l) ∧ l ∉ s.round := by
  cases hs.lanes l with
  | empty _ round lane => exact ⟨Or.inl lane, of_decide_eq_false round⟩
  | complete _ round lane => exact ⟨Or.inr lane, of_decide_eq_false round⟩
  | prefilling phase => exact nomatch hp.symm.trans phase
  | start phase => exact nomatch hp.symm.trans phase
  | active phase => exact nomatch hp.symm.trans phase
  | ordinary phase => exact nomatch hp.symm.trans phase
  | speculative phase => exact nomatch hp.symm.trans phase

theorem SysInv.prefillingLane (hs : SysInv cfg s) (hp : (s.slots l).phase = .prefilling) :
    ∃ staged, (s.program.lanes l).prefill = some staged ∧ staged.base < staged.cursor ∧
      PrefillingLane cfg s.program.pools.heap l (s.program.lanes l) staged (s.slots l).budget ∧
      l ∉ s.round := by
  cases hs.lanes l with
  | prefilling _ round staged prefill advanced lane =>
    exact ⟨staged, prefill, advanced, lane, of_decide_eq_false round⟩
  | empty phase => exact nomatch hp.symm.trans phase
  | complete phase => exact nomatch hp.symm.trans phase
  | start phase => exact nomatch hp.symm.trans phase
  | active phase => exact nomatch hp.symm.trans phase
  | ordinary phase => exact nomatch hp.symm.trans phase
  | speculative phase => exact nomatch hp.symm.trans phase

theorem SysInv.startLane (hs : SysInv cfg s) (hp : (s.slots l).phase = .firstToken) :
    StartLane cfg s.program.pools.heap l (s.program.lanes l) (s.slots l).budget ∧ l ∉ s.round := by
  cases hs.lanes l with
  | start _ round lane => exact ⟨lane, of_decide_eq_false round⟩
  | empty phase => exact nomatch hp.symm.trans phase
  | complete phase => exact nomatch hp.symm.trans phase
  | prefilling phase => exact nomatch hp.symm.trans phase
  | active phase => exact nomatch hp.symm.trans phase
  | ordinary phase => exact nomatch hp.symm.trans phase
  | speculative phase => exact nomatch hp.symm.trans phase

theorem SysInv.activeLane (hs : SysInv cfg s) (hp : (s.slots l).phase = .decoding)
    (hnot : l ∉ s.round) :
    ActiveLane cfg s.program.pools.heap l (s.program.lanes l) (s.slots l).budget := by
  have hout : decide (l ∈ s.round) = false := decide_eq_false hnot
  cases hs.lanes l with
  | active _ _ lane => exact lane
  | empty phase => exact nomatch hp.symm.trans phase
  | complete phase => exact nomatch hp.symm.trans phase
  | prefilling phase => exact nomatch hp.symm.trans phase
  | start phase => exact nomatch hp.symm.trans phase
  | ordinary _ round => exact nomatch hout.symm.trans round
  | speculative _ round => exact nomatch hout.symm.trans round

theorem SysInv.pendingLane (hs : SysInv cfg s) (hin : l ∈ s.round) :
    PendingLane cfg s.program.pools.heap l (s.program.lanes l) (s.slots l).budget ∧
      (s.slots l).phase = .decoding := by
  have hdec : decide (l ∈ s.round) = true := decide_eq_true hin
  cases hs.lanes l with
  | ordinary phase _ lane => exact ⟨⟨fun _ => lane, fun hne => absurd lane.backend hne⟩, phase⟩
  | speculative phase _ lane => exact ⟨⟨fun hb => absurd hb lane.backend, fun _ => lane⟩, phase⟩
  | empty _ round => exact nomatch hdec.symm.trans round
  | complete _ round => exact nomatch hdec.symm.trans round
  | prefilling _ round => exact nomatch hdec.symm.trans round
  | start _ round => exact nomatch hdec.symm.trans round
  | active _ round => exact nomatch hdec.symm.trans round

/-! ## Failures -/

/-- What an exception of an action leaves, before `fail_all`: the lanes without a request are
free. -/
structure Failed (cfg : Config n) (t : System n) : Prop where
  kv : KvInv cfg t.program.pools.heap
  free : ∀ l, (t.slots l).phase = .idle → FreeLane cfg t.program.pools.heap l (t.program.lanes l)
  calls : ∀ call ∈ t.program.pools.calls, call.Within
  writes : ∀ write ∈ t.program.writes, write.Mapped
  prefills : ∀ r ∈ t.program.prefills, r.Ok
  closed : ∀ a ∈ t.closed, a.Covered

theorem FreeLane.frame {h h' : KvHeap n} {x : Lane} (hf : FreeLane cfg h l x)
    (heq : ∀ c, h'.allocs (l, c) = h.allocs (l, c)) : FreeLane cfg h' l x :=
  hf.imp (fun he => he.frame heq) fun hc => hc.frame heq

theorem FreeLane.inv {h : KvHeap n} {x : Lane} {slot : Slot} (hf : FreeLane cfg h l x)
    (hp : slot.phase = .idle) : LaneInv cfg h l x slot false :=
  hf.elim (.empty hp rfl) (.complete hp rfl)

/-- **`fail_all`** restores the invariant. -/
theorem Failed.failAll {t : System n} (hf : Failed cfg t) : SysInv cfg t.failAll := by
  obtain ⟨hb, hempty, -⟩ := clearLanes_spec
    ((List.finRange n).filter fun l => (t.slots l).phase ≠ .idle) hf.kv
  refine
    { kv := hb.inv, lanes := fun l => ?_, nodup := List.nodup_nil, egress := fun h => absurd rfl h
      calls := fun call hc => (hb.calls call hc).elim (hf.calls call) id
      writes := fun write hw => (hb.writes write hw).elim (hf.writes write) id
      prefills := fun r hr => (hb.prefills r hr).elim (hf.prefills r) id
      accounts := fun _ => accountInv_idle _, closed := hf.closed }
  refine FreeLane.inv ?_ rfl
  by_cases hp : (t.slots l).phase = .idle
  · have hout : l ∉ (List.finRange n).filter fun l => (t.slots l).phase ≠ .idle := by
      simp [List.mem_filter, hp]
    show FreeLane cfg _ l ((clearLanes _ t.program).lanes l)
    rw [hb.lanes l hout]
    exact (hf.free l hp).frame (hb.only l hout)
  · exact Or.inl (hempty l (by simp [List.mem_filter, hp]))

/-- What a throw on one lane leaves, when its request is removed. -/
theorem SysInv.failed {t : System n} (hs : SysInv cfg s)
    (hstep : Stepped cfg l s.program t.program) (hslots : ∀ m, m ≠ l → t.slots m = s.slots m)
    (hfree : (t.slots l).phase = .idle →
      FreeLane cfg t.program.pools.heap l (t.program.lanes l))
    (hclosed : ∀ a ∈ t.closed, a ∈ s.closed ∨ a.Covered) : Failed cfg t where
  kv := hstep.inv
  free := by
    intro m hp
    by_cases hm : m = l
    · subst hm
      exact hfree hp
    · rw [hslots m hm] at hp
      rw [hstep.lanes m hm]
      exact (hs.free hp).1.frame (hstep.only m hm)
  calls := fun call hc => (hstep.calls call hc).elim (hs.calls call) id
  writes := fun write hw => (hstep.writes write hw).elim (hs.writes write) id
  prefills := fun r hr => (hstep.prefills r hr).elim (hs.prefills r) id
  closed := fun a ha => (hclosed a ha).elim (hs.closed a) id

/-! ## A step of a prefill -/

/-- The accounting of a step of a prefill. -/
def System.accountStep (s : System n) (l : Fin n) (step : PrefillStep) : System n :=
  (s.setAccount l { s.accounts l with
    remaining := (s.accounts l).remaining - 1, steps := (s.accounts l).steps + 1 }).setSlot l
    { s.slots l with phase := if step.token.isSome then .firstToken else .prefilling }

theorem resolvePrefillStep_spec (step : PrefillStep) (hpos : 0 < (s.accounts l).remaining) :
    resolvePrefillStep l step s = .ok () (s.accountStep l step) := by
  have hcond : ¬((1 : Nat) = 0 ∨ (s.accounts l).remaining < 1) := by omega
  unfold resolvePrefillStep consumeServiceWork
  simp only [bind, EStateM.bind, if_neg hcond, modify, modifyGet, MonadStateOf.modifyGet,
    EStateM.modifyGet, System.accountStep, System.setAccount, System.setSlot, Function.update_self,
    Function.update_idem]

/-- The accounting before a step of a prefill covers that step and what comes after it. -/
structure AccountReady (cfg : Config n) (x : Lane) (staged : Prefill) (budget : Nat) (a : Account) :
    Prop where
  total : a.steps + a.accepted + a.remaining = a.quanta
  admission : a.admission = ⟨1, x.reserved .text, x.reserved .backend⟩
  units : a.steps + staged.stepsLeft cfg ≤ a.prefillUnits
  covers : staged.stepsLeft cfg + (budget - 1) ≤ a.remaining

/-- The state of a staged prefill before its end: there is a token left. -/
theorem PrefillingLane.more {h : KvHeap n} {x : Lane} {staged : Prefill} {budget : Nat}
    (hl : PrefillingLane cfg h l x staged budget) (hadv : staged.base < staged.cursor) :
    staged.cursor < staged.promptTokens := by
  cases hl.bridge with
  | none _ _ more => exact more
  | hit _ _ _ cursor => omega
  | before _ _ cursor => omega
  | after _ _ cursor => omega

section Advance

variable {h : KvHeap n} {x : Lane} {staged : Prefill} {budget : Nat} {sampled : Sampled}
  {step : PrefillAdvance}

/-- **The lane after a step of a prefill.** -/
theorem AdvanceOutcome.laneInv (ho : AdvanceOutcome cfg h l x staged budget sampled step) :
    LaneInv cfg h l step.lane
      ⟨if step.record.isSome then .firstToken else .prefilling, budget⟩ false := by
  cases ho with
  | more staged' record prefill advanced lane =>
    rw [record]
    exact .prefilling rfl rfl staged' prefill advanced lane
  | done y staged' r record ok prompt base underway fed finished lane =>
    rw [record]
    exact .start rfl rfl lane

/-- **The accounting after a step of a prefill.** -/
theorem AdvanceOutcome.accountInv (ho : AdvanceOutcome cfg h l x staged budget sampled step)
    {a : Account} (ha : AccountReady cfg x staged budget a) :
    AccountInv cfg step.lane ⟨if step.record.isSome then .firstToken else .prefilling, budget⟩
      { a with remaining := a.remaining - 1, steps := a.steps + 1 } := by
  have hpos := Prefill.stepsLeft_pos cfg staged
  have htotal := ha.total
  have hunits := ha.units
  have hcovers := ha.covers
  have hadmission := ha.admission
  cases ho with
  | more staged' record prefill advanced lane fed =>
    have hlt := fed.stepsLeft_lt (lane.more advanced)
    rw [record]
    refine ⟨nofun, by dsimp only; omega, by dsimp only; omega, fun _ => ?_, fun _ => ?_, nofun, nofun⟩
    · rw [fed.reserved]
      exact hadmission
    · exact ⟨staged', prefill, by dsimp only; omega, by dsimp only; omega⟩
  | done y staged' r record ok prompt base underway fed finished lane =>
    rw [record]
    refine ⟨nofun, by dsimp only; omega, by dsimp only; omega, fun _ => ?_, nofun, fun _ => ?_, nofun⟩
    · rw [finished.reserved, fed.reserved]
      exact hadmission
    · dsimp only
      omega

end Advance

/-- The processed tokens and the sampled one, as the executor sees them. -/
def PrefillAdvance.result (step : PrefillAdvance) (sampled : Sampled) : PrefillStep :=
  ⟨step.processed, if step.record.isSome then some sampled.token else none⟩

theorem PrefillAdvance.result_isSome (step : PrefillAdvance) (sampled : Sampled) :
    (step.result sampled).token.isSome = step.record.isSome := by
  unfold PrefillAdvance.result
  cases step.record <;> rfl

/-- **`run_prefill_step`.** -/
theorem advance_spec (hs : SysInv cfg s) (hp : (s.slots l).phase = .prefilling)
    (sampled : Sampled) :
    (∃ staged step s', (Action.advance l sampled).run cfg s = .ok () s' ∧ SysInv cfg s' ∧
        (s.program.lanes l).prefill = some staged ∧
        PrefillingLane cfg s.program.pools.heap l (s.program.lanes l) staged (s.slots l).budget ∧
        AdvanceOutcome cfg s.program.pools.heap l (s.program.lanes l) staged (s.slots l).budget
          sampled step ∧
        s'.program = advanced l s.program step ∧ s'.round = s.round) ∨
      ∃ t, (Action.advance l sampled).run cfg s = .error tokenDomainError t ∧ Failed cfg t := by
  obtain ⟨staged, hprefill, hadv, hl, hnot⟩ := hs.prefillingLane hp
  have haccount := hs.accounts l
  obtain ⟨staged', hprefill', hunits, hcovers⟩ := haccount.prefilling hp
  obtain rfl : staged' = staged := Option.some.inj (hprefill'.symm.trans hprefill)
  have hpos := Prefill.stepsLeft_pos cfg staged'
  have hready : AccountReady cfg (s.program.lanes l) staged' (s.slots l).budget (s.accounts l) :=
    ⟨haccount.total, haccount.admission (by rw [hp]; simp), hunits, hcovers⟩
  have hbase : staged'.base ≠ staged'.promptTokens := by
    have := hl.cursor_le
    omega
  rcases advancePrefill_spec hs.kv hprefill hl (fun heq => absurd heq hbase) sampled with
    ⟨step, hok, hstep, houtcome⟩ | herror
  · left
    have hprogram : onProgram (advancePrefillLane cfg l sampled) s =
        .ok (step.result sampled) { s with program := advanced l s.program step } :=
      onProgram_of_ok hok
    refine ⟨staged', step, ({ s with program := advanced l s.program step } : System n).accountStep l
      (step.result sampled), ?_, ?_, hprefill, hl, houtcome, rfl, rfl⟩
    · refine (Call.bind_of_ok hprogram).trans (resolvePrefillStep_spec _ ?_)
      show 0 < (s.accounts l).remaining
      omega
    · have hlane : (advanced l s.program step).lanes l = step.lane := Function.update_self ..
      refine hs.of_stepped hstep (fun m hm => Function.update_of_ne hm ..)
        (fun m hm => Function.update_of_ne hm ..) rfl hnot ?_ ?_ fun _ => Or.inl
      · show LaneInv cfg s.program.pools.heap l ((advanced l s.program step).lanes l)
          (Function.update s.slots l _ l) false
        rw [hlane, Function.update_self, step.result_isSome]
        exact houtcome.laneInv
      · show AccountInv cfg ((advanced l s.program step).lanes l) (Function.update s.slots l _ l)
          (Function.update s.accounts l _ l)
        rw [hlane, Function.update_self, Function.update_self, step.result_isSome]
        exact houtcome.accountInv hready
  · right
    refine ⟨{ s with program := clearLane l s.program }, ?_, ?_⟩
    · exact Call.bind_of_error (onProgram_of_error herror)
    · exact hs.failed (clearLane_stepped hs.kv l) (fun _ _ => rfl)
        (fun hidle => nomatch hp.symm.trans hidle) fun _ => Or.inl


/-! ## Admission -/

/-- The request of a plan takes the slot. -/
theorem accountReady_occupy {x : Lane} {prompt : PreparedPromptData} {options : ExecutionOptions}
    {base : RequestBasePlan} {plan : RequestPlan} {z : Lane} {staged : Prefill}
    (ha : Accepted cfg prompt options base) (hp : PlanOk cfg x prompt base plan)
    (hstaged : StagedFrom x prompt plan z staged) :
    AccountReady cfg z staged plan.summary.effectiveOutputTokens
      ((s.occupy cfg l plan).accounts l) := by
  have hle := hstaged.stepsLeft_le cfg (hp.promptTokens.trans ha.promptTokens)
  have hwork := hp.work
  show AccountReady cfg z staged _ (Function.update s.accounts l _ l)
  rw [Function.update_self]
  refine ⟨by simp, ?_, by simpa using hle, by dsimp only; omega⟩
  dsimp only
  rw [hp.admission, ha.admission, hstaged.reserved, ← hp.textPages, ← hp.backendPages]
  rfl

/-- **`admit_planned_request`**, up to the first step of the prefill. -/
theorem start_spec {prompt : PreparedPromptData} {options : ExecutionOptions}
    {base : RequestBasePlan} {plan : RequestPlan} {transient : TransientRegion} {sampled : Sampled}
    (hs : SysInv cfg s)
    (he : (Action.start l prompt options base plan transient sampled).Enabled cfg s) :
    (∃ p₁ staged step s',
        (Action.start l prompt options base plan transient sampled).run cfg s = .ok () s' ∧
        SysInv cfg s' ∧ StagedFrom (s.program.lanes l) prompt plan (p₁.lanes l) staged ∧
        PrefillingLane cfg p₁.pools.heap l (p₁.lanes l) staged plan.summary.effectiveOutputTokens ∧
        AdvanceOutcome cfg p₁.pools.heap l (p₁.lanes l) staged plan.summary.effectiveOutputTokens
          sampled step ∧
        (∀ m, m ≠ l → p₁.lanes m = s.program.lanes m) ∧ p₁.prefills = s.program.prefills ∧
        s'.program = advanced l p₁ step ∧ s'.round = s.round) ∨
      ∃ t, (Action.start l prompt options base plan transient sampled).run cfg s =
        .error tokenDomainError t ∧ Failed cfg t := by
  obtain ⟨hidle, hprep, hbase, hplan, hadmits, htransient⟩ := he
  have ha := planRequestBase_spec hbase
  have hp := planRequestForLane_spec hplan
  obtain ⟨hfree, hnot⟩ := hs.free hidle
  obtain ⟨p₁, staged, hstage, hstepped, hprefills, hstaged, hl, hrun⟩ :=
    startPrefillLane_spec hs.kv hfree hprep ha hp htransient hadmits sampled
  have hready := accountReady_occupy (s := s) (l := l) ha hp hstaged
  have hpos := Prefill.stepsLeft_pos cfg staged
  have hcovers := hready.covers
  rcases hrun with ⟨step, hok, hstep, houtcome⟩ | herror
  · left
    have hprogram : onProgram (startPrefillLane cfg l prompt plan transient sampled)
        (s.occupy cfg l plan) =
        .ok (step.result sampled) { s.occupy cfg l plan with program := advanced l p₁ step } :=
      onProgram_of_ok hok
    refine ⟨p₁, staged, step, ({ s.occupy cfg l plan with program := advanced l p₁ step } :
      System n).accountStep l (step.result sampled), ?_, ?_, hstaged, hl, houtcome, hstepped.lanes,
      hprefills, rfl, rfl⟩
    · have hinner := (Call.bind_of_ok (f := resolvePrefillStep l) hprogram).trans
        (resolvePrefillStep_spec (s := { s.occupy cfg l plan with program := advanced l p₁ step })
          (step.result sampled) (by
            show 0 < ((s.occupy cfg l plan).accounts l).remaining
            omega))
      show ((onProgram (startPrefillLane cfg l prompt plan transient sampled) >>=
        resolvePrefillStep l).handle _) (s.occupy cfg l plan) = _
      simp only [Call.handle, hinner]
    · have hlane : (advanced l p₁ step).lanes l = step.lane := Function.update_self ..
      refine hs.of_stepped hstep (fun m hm => ?_) (fun m hm => ?_) rfl hnot ?_ ?_ fun _ => Or.inl
      · exact (Function.update_of_ne hm ..).trans (Function.update_of_ne hm ..)
      · exact (Function.update_of_ne hm ..).trans (Function.update_of_ne hm ..)
      · show LaneInv cfg p₁.pools.heap l ((advanced l p₁ step).lanes l)
          (Function.update (Function.update s.slots l _) l _ l) false
        rw [hlane, Function.update_self, step.result_isSome]
        simp only [System.occupy, Function.update_self]
        exact houtcome.laneInv
      · show AccountInv cfg ((advanced l p₁ step).lanes l)
          (Function.update (s.occupy cfg l plan).slots l _ l)
          (Function.update (s.occupy cfg l plan).accounts l _ l)
        rw [hlane, Function.update_self, Function.update_self, step.result_isSome]
        have := houtcome.accountInv hready
        simp only [System.occupy, Function.update_self] at this ⊢
        exact this
  · right
    refine ⟨({ s.occupy cfg l plan with program := clearLane l (clearLane l p₁) } :
      System n).abandon l, ?_, ?_⟩
    · have hinner : (onProgram (startPrefillLane cfg l prompt plan transient sampled) >>=
          resolvePrefillStep l) (s.occupy cfg l plan) = _ :=
        Call.bind_of_error (onProgram_of_error herror)
      show ((onProgram (startPrefillLane cfg l prompt plan transient sampled) >>=
        resolvePrefillStep l).handle _) (s.occupy cfg l plan) = _
      simp only [Call.handle, hinner]
    -- Three handlers clear the lane, one inside the other.
    · have hclear₁ := clearLane_stepped hstepped.inv l
      have hclear₂ := clearLane_stepped hclear₁.inv l
      have hclear₃ := clearLane_stepped hclear₂.inv l
      have hlane : (clearLane l (clearLane l (clearLane l p₁))).lanes l = _ :=
        Function.update_self ..
      refine hs.failed (((hstepped.trans hclear₁).trans hclear₂).trans hclear₃) (fun m hm => ?_)
        (fun _ => Or.inl ?_) (fun a ha => ?_)
      · exact (Function.update_of_ne hm ..).trans (Function.update_of_ne hm ..)
      rotate_left
      · refine (List.mem_append.mp ha).imp_right fun hlast => ?_
        rw [List.mem_singleton.mp hlast]
        exact ⟨Nat.le_of_add_right_le hready.units, hready.total⟩
      · show EmptyLane _ l ((clearLane l (clearLane l (clearLane l p₁))).lanes l)
        rw [hlane]
        exact emptyLane_clear hclear₂.inv l _

/-- A step of a prefill that the program takes is accounted for. -/
theorem advance_run_ok {sampled : Sampled} {step : PrefillStep} {p' : Program n}
    (h : advancePrefillLane cfg l sampled s.program = .ok step p')
    (hpos : 0 < (s.accounts l).remaining) :
    (Action.advance l sampled).run cfg s =
      .ok () (({ s with program := p' } : System n).accountStep l step) := by
  have hprogram : onProgram (advancePrefillLane cfg l sampled) s =
      .ok step { s with program := p' } := onProgram_of_ok h
  exact (Call.bind_of_ok hprogram).trans (resolvePrefillStep_spec _ hpos)

theorem start_run_ok {prompt : PreparedPromptData} (options : ExecutionOptions)
    (base : RequestBasePlan) {plan : RequestPlan} {transient : TransientRegion} {sampled : Sampled}
    {step : PrefillStep} {p' : Program n}
    (h : startPrefillLane cfg l prompt plan transient sampled s.program = .ok step p')
    (hpos : 0 < ((s.occupy cfg l plan).accounts l).remaining) :
    (Action.start l prompt options base plan transient sampled).run cfg s =
      .ok () (({ s.occupy cfg l plan with program := p' } : System n).accountStep l step) := by
  have hprogram : onProgram (startPrefillLane cfg l prompt plan transient sampled)
      (s.occupy cfg l plan) = .ok step { s.occupy cfg l plan with program := p' } :=
    onProgram_of_ok h
  have hinner := (Call.bind_of_ok (f := resolvePrefillStep l) hprogram).trans
    (resolvePrefillStep_spec _ hpos)
  show ((onProgram (startPrefillLane cfg l prompt plan transient sampled) >>=
    resolvePrefillStep l).handle _) (s.occupy cfg l plan) = _
  simp only [Call.handle, hinner]

/-! ## The first token -/

/-- **`resolve_round`.** -/
theorem resolvePrefill_spec {terminal : Bool} (hs : SysInv cfg s)
    (he : (Action.resolvePrefill l terminal).Enabled cfg s) :
    ∃ s', (Action.resolvePrefill l terminal).run cfg s = .ok () s' ∧ SysInv cfg s' ∧
      StartLane cfg s.program.pools.heap l (s.program.lanes l) (s.slots l).budget ∧
      Stepped cfg l s.program s'.program ∧ s'.program.prefills = s.program.prefills ∧
      s'.program.lanes l = settle (startedLane (s.program.lanes l) terminal) terminal ∧
      s'.round = s.round := by
  obtain ⟨hp, hbudget⟩ := he
  obtain ⟨hl, hnot⟩ := hs.startLane hp
  obtain ⟨p', hok, hstep, -, hprefills, hlane, hactive, hcomplete⟩ :=
    resolvePrefillLane_spec hs.kv hl hbudget
  have haccount := hs.accounts l
  have hcovers := haccount.firstToken hp
  cases terminal with
  | true =>
    refine ⟨({ s with program := p' } : System n).release l,
      Call.bind_of_ok (onProgram_of_ok hok), ?_, hl, hstep, hprefills, hlane, rfl⟩
    have hslot : (({ s with program := p' } : System n).release l).slots l = {} :=
      Function.update_self ..
    have hacc : (({ s with program := p' } : System n).release l).accounts l = {} :=
      Function.update_self ..
    refine hs.of_stepped hstep (fun m hm => Function.update_of_ne hm ..)
      (fun m hm => Function.update_of_ne hm ..) rfl hnot ?_ ?_ fun a ha => ?_
    · rw [hslot]
      exact .complete rfl rfl (hcomplete rfl)
    · rw [hslot, hacc]
      exact accountInv_idle _
    · refine (List.mem_append.mp ha).imp_right fun hlast => ?_
      rw [List.mem_singleton.mp hlast]
      exact haccount.covered
  | false =>
    have hb := hbudget rfl
    refine ⟨({ s with program := p' } : System n).setSlot l ⟨.decoding, (s.slots l).budget - 1⟩,
      Call.bind_of_ok (onProgram_of_ok hok), ?_, hl, hstep, hprefills, hlane, rfl⟩
    have hslot : (({ s with program := p' } : System n).setSlot l
        ⟨.decoding, (s.slots l).budget - 1⟩).slots l = ⟨.decoding, (s.slots l).budget - 1⟩ :=
      Function.update_self ..
    refine hs.of_stepped hstep (fun m hm => Function.update_of_ne hm ..) (fun _ _ => rfl) rfl hnot
      ?_ ?_ fun _ => Or.inl
    · rw [hslot]
      exact .active rfl rfl (hactive rfl)
    · rw [hslot]
      show AccountInv cfg (p'.lanes l) _ (s.accounts l)
      rw [hlane]
      exact ⟨nofun, haccount.total, haccount.steps,
        fun _ => haccount.admission (by rw [hp]; simp), nofun, nofun, fun _ => hcovers⟩

/-! ## Decode rounds -/

theorem System.batch_lanes (rows : List (Fin n × Verdict)) :
    (s.batch rows).map (·.lane) = rows.map Prod.fst := by
  unfold System.batch
  rw [List.map_map]
  rfl

theorem SysInv.batchReady {rows : List (Fin n × Verdict)} (hs : SysInv cfg s)
    (he : (Action.decode rows).Enabled cfg s) :
    s.batch rows ≠ [] ∧
      BatchReady cfg s.program.pools.heap s.program.lanes (s.batch rows) := by
  obtain ⟨hround, hne, hnd, hphase⟩ := he
  refine ⟨by simpa [System.batch] using hne, ?_, ?_⟩
  · rw [System.batch_lanes]
    exact hnd
  · intro row hrow
    obtain ⟨r, hr, rfl⟩ := List.mem_map.mp hrow
    exact hs.activeLane (hphase r hr) (by rw [hround]; exact List.not_mem_nil)

theorem PendingLane.inv {h : KvHeap n} {x : Lane} {slot : Slot} (hp : slot.phase = .decoding)
    (hl : PendingLane cfg h l x slot.budget) : LaneInv cfg h l x slot true := by
  by_cases hb : cfg.backend = .none
  · exact .ordinary hp rfl (hl.ordinary hb)
  · exact .speculative hp rfl (hl.speculative hb)

theorem decodeRow_reserved {x : Lane} {budget : Nat} {verdict : Verdict} {result : RowResult}
    (h : decodeRow cfg x budget verdict = .ok result) : result.lane.reserved = x.reserved := by
  unfold decodeRow at h
  split_ifs at h
  · unfold ordinaryRow at h
    simp only [bind_eq_ok] at h
    obtain ⟨_, -, _, -, hr⟩ := h
    cases hr
    rfl
  · unfold speculativeRow at h
    simp only [bind_eq_ok] at h
    obtain ⟨_, -, _, -, hr⟩ := h
    cases hr
    rfl

/-- The accounting of a request does not look at the lane beyond what was reserved, once the prefill
has ended. -/
theorem AccountInv.congr {x y : Lane} {slot : Slot} {a : Account} (ha : AccountInv cfg x slot a)
    (hr : y.reserved = x.reserved) (hp : slot.phase ≠ .prefilling) : AccountInv cfg y slot a where
  idle := ha.idle
  total := ha.total
  steps := ha.steps
  admission := by
    rw [hr]
    exact ha.admission
  prefilling := fun h => absurd h hp
  firstToken := ha.firstToken
  decoding := ha.decoding

/-- **`run_decode_round`**, the decode call. -/
theorem decode_spec {rows : List (Fin n × Verdict)} (hs : SysInv cfg s)
    (he : (Action.decode rows).Enabled cfg s) :
    (∃ s', (Action.decode rows).run cfg s = .ok () s' ∧ SysInv cfg s' ∧
        BatchReady cfg s.program.pools.heap s.program.lanes (s.batch rows) ∧
        BatchStepped cfg (rows.map Prod.fst) s.program s'.program ∧
        s'.program.prefills = s.program.prefills ∧ s'.round = rows.map Prod.fst ∧
        List.Forall₂ (fun row e => ∃ result, RowDecoded cfg s.program s'.program row e result)
          (s.batch rows) s'.program.egress) ∨
      ∃ t, (Action.decode rows).run cfg s = .error tokenDomainError t ∧ Failed cfg t := by
  obtain ⟨hne, hready⟩ := hs.batchReady he
  obtain ⟨hround, -, hnd, hphase⟩ := he
  have hlanes := System.batch_lanes (s := s) rows
  rcases decodeBatch_spec hs.kv hne hready with
    ⟨egress, p', hok, hb, hegress, hprefills, hrows⟩ | ⟨p', herror, hb, hprefills, hempty⟩
  · left
    rw [hlanes] at hb
    subst hegress
    refine ⟨{ s with program := p', round := rows.map Prod.fst },
      Call.bind_of_ok (onProgram_of_ok hok), ?_, hready, hb, hprefills, rfl, hrows⟩
    -- A lane of the batch waits for its resolution, with the pages reserved before.
    have hrows' : ∀ row ∈ rows, PendingLane cfg p'.pools.heap row.1 (p'.lanes row.1)
        (s.slots row.1).budget ∧ (p'.lanes row.1).reserved = (s.program.lanes row.1).reserved := by
      intro row hm
      have hall := List.forall₂_iff_get.mp hrows
      obtain ⟨i, hi, rfl⟩ := List.mem_iff_get.mp hm
      have hlen : i.1 < (s.batch rows).length := by simp [System.batch]
      obtain ⟨result, hr⟩ := hall.2 i.1 hlen (hall.1 ▸ hlen)
      have hget : (s.batch rows).get ⟨i.1, hlen⟩ =
          ⟨(rows.get i).1, (s.slots (rows.get i).1).budget, (rows.get i).2⟩ := by
        simp [System.batch]
      rw [hget] at hr
      refine ⟨hr.pending, ?_⟩
      have hlane : p'.lanes (rows.get i).1 = result.lane := hr.lane
      rw [hlane]
      exact decodeRow_reserved hr.decoded
    refine
      { kv := hb.inv, lanes := fun m => ?_, nodup := hnd, egress := fun _ => ?_
        calls := fun call hc => (hb.calls call hc).elim (hs.calls call) id
        writes := fun write hw => (hb.writes write hw).elim (hs.writes write) id
        prefills := fun r hr => (hb.prefills r hr).elim (hs.prefills r) id
        accounts := fun m => ?_, closed := hs.closed }
    · show LaneInv cfg p'.pools.heap m (p'.lanes m) (s.slots m) (decide (m ∈ rows.map Prod.fst))
      by_cases hm : m ∈ rows.map Prod.fst
      · obtain ⟨row, hrow, rfl⟩ := List.mem_map.mp hm
        rw [decide_eq_true hm]
        exact (hrows' row hrow).1.inv (hphase row hrow)
      · have hlane := hs.lanes m
        rw [hround, decide_eq_false List.not_mem_nil] at hlane
        rw [decide_eq_false hm, hb.lanes m hm]
        exact hlane.frame (hb.only m hm)
    · show List.Forall₂ _ (rows.map Prod.fst) p'.egress
      rw [← hlanes, List.forall₂_map_left_iff]
      refine List.Forall₂.imp ?_ ((List.forall₂_iff_zip.mp hrows).elim fun hlen hall =>
        List.forall₂_iff_zip.mpr ⟨hlen, fun {row e} hm =>
          (show row ∈ s.batch rows ∧ _ from ⟨(List.of_mem_zip hm).1, hall hm⟩)⟩)
      rintro row e ⟨hrow, result, hr⟩
      obtain ⟨r, -, rfl⟩ := List.mem_map.mp hrow
      exact hr.describes
    · show AccountInv cfg (p'.lanes m) (s.slots m) (s.accounts m)
      by_cases hm : m ∈ rows.map Prod.fst
      · obtain ⟨row, hrow, rfl⟩ := List.mem_map.mp hm
        exact (hs.accounts row.1).congr (hrows' row hrow).2 (by rw [hphase row hrow]; simp)
      · rw [hb.lanes m hm]
        exact hs.accounts m
  · right
    rw [hlanes] at hb
    refine ⟨{ s with program := p' }, Call.bind_of_error
      (c := onProgram (decodeBatch cfg (s.batch rows))) (onProgram_of_error herror), ?_⟩
    exact
      { kv := hb.inv
        free := by
          intro m hidle
          have hm : m ∉ rows.map Prod.fst := by
            intro hin
            obtain ⟨row, hrow, rfl⟩ := List.mem_map.mp hin
            exact nomatch (hphase row hrow).symm.trans hidle
          show FreeLane cfg p'.pools.heap m (p'.lanes m)
          rw [hb.lanes m hm]
          exact (hs.free hidle).1.frame (hb.only m hm)
        calls := fun call hc => (hb.calls call hc).elim (hs.calls call) id
        writes := fun write hw => (hb.writes write hw).elim (hs.writes write) id
        prefills := fun r hr => (hb.prefills r hr).elim (hs.prefills r) id
        closed := hs.closed }


/-- The slot of a resolved row. -/
def Slot.resolved (slot : Slot) (row : Resolution) : Slot :=
  if row.terminal then {}
  else if row.cancelled then slot
  else { slot with budget := slot.budget - row.accepted }

/-- The accounting of a row whose tokens are accepted. -/
def Account.spend (a : Account) (row : Resolution) : Account :=
  if row.cancelled then a
  else { a with remaining := a.remaining - row.accepted, accepted := a.accepted + row.accepted }

/-- The accounting of a resolved row. -/
def Account.resolved (a : Account) (row : Resolution) : Account :=
  if row.terminal then {} else a.spend row

/-- The accounts closed by a resolved row. -/
def Account.closing (a : Account) (row : Resolution) : List Account :=
  if row.terminal then [a.spend row] else []

/-- **One row of the commit loop**: the service work covers the tokens accepted. -/
theorem commitDecoded_spec {row : Resolution}
    (hwork : row.cancelled = false → 0 < row.accepted ∧ row.accepted ≤ (s.accounts l).remaining) :
    commitDecoded l row s = .ok () { (s.setSlot l ((s.slots l).resolved row)).setAccount l
      ((s.accounts l).resolved row) with closed := s.closed ++ (s.accounts l).closing row } := by
  unfold commitDecoded Account.resolved Account.closing Account.spend Slot.resolved
  cases hc : row.cancelled with
  | true =>
    cases ht : row.terminal with
    | true => rfl
    | false =>
      simp only [if_true, Bool.false_eq_true, if_false, List.append_nil]
      show EStateM.Result.ok () s = _
      simp [System.setSlot, System.setAccount]
  | false =>
    obtain ⟨hpos, hle⟩ := hwork hc
    have hcond : ¬(row.accepted = 0 ∨ (s.accounts l).remaining < row.accepted) := by omega
    cases ht : row.terminal with
    | true =>
      simp only [if_true, Bool.false_eq_true, if_false, bind, EStateM.bind, modify, modifyGet,
        MonadStateOf.modifyGet, EStateM.modifyGet, consumeServiceWork, System.setSlot,
        System.setAccount, System.release, if_neg hcond, Function.update_idem,
        Function.update_self]
    | false =>
      simp only [Bool.false_eq_true, if_false, bind, EStateM.bind, modify, modifyGet,
        MonadStateOf.modifyGet, EStateM.modifyGet, consumeServiceWork, System.setSlot,
        System.setAccount, if_neg hcond, Function.update_idem, Function.update_self,
        List.append_nil]
      rfl

/-- **The commit loop.** -/
theorem forM_commitDecoded : ∀ (rows : List (Fin n × Resolution)) (s : System n),
    (rows.map Prod.fst).Nodup →
    (∀ row ∈ rows, row.2.cancelled = false →
      0 < row.2.accepted ∧ row.2.accepted ≤ (s.accounts row.1).remaining) →
    ∃ slots accounts, (rows.forM fun row => commitDecoded row.1 row.2) s =
        .ok () { s with
          slots := slots
          accounts := accounts
          closed := s.closed ++ rows.flatMap fun row => (s.accounts row.1).closing row.2 } ∧
      (∀ m, m ∉ rows.map Prod.fst → slots m = s.slots m ∧ accounts m = s.accounts m) ∧
      ∀ row ∈ rows, slots row.1 = (s.slots row.1).resolved row.2 ∧
        accounts row.1 = (s.accounts row.1).resolved row.2
  | [], s, _, _ => by
    refine ⟨s.slots, s.accounts, ?_, fun _ _ => ⟨rfl, rfl⟩, nofun⟩
    rw [List.flatMap_nil, List.append_nil]
    rfl
  | row :: rows, s, hnd, hwork => by
    obtain ⟨hnot, hnd'⟩ := List.nodup_cons.mp hnd
    have hne : ∀ r ∈ rows, r.1 ≠ row.1 := fun r hm heq => hnot (heq ▸ List.mem_map_of_mem hm)
    have hfirst := commitDecoded_spec (s := s) (l := row.1) (hwork row (List.mem_cons_self ..))
    set s₁ : System n := { (s.setSlot row.1 ((s.slots row.1).resolved row.2)).setAccount row.1
      ((s.accounts row.1).resolved row.2) with
        closed := s.closed ++ (s.accounts row.1).closing row.2 } with hs₁
    have hframe : ∀ m, m ≠ row.1 → s₁.slots m = s.slots m ∧ s₁.accounts m = s.accounts m :=
      fun m hm => ⟨Function.update_of_ne hm .., Function.update_of_ne hm ..⟩
    obtain ⟨slots, accounts, hrest, hother, hrows⟩ := forM_commitDecoded rows s₁ hnd' (by
        intro r hm hc
        rw [(hframe r.1 (hne r hm)).2]
        exact hwork r (List.mem_cons_of_mem _ hm) hc)
    refine ⟨slots, accounts, (Call.bind_of_ok hfirst).trans (hrest.trans ?_), ?_, ?_⟩
    · have hclosing : (rows.flatMap fun r => (s₁.accounts r.1).closing r.2) =
          rows.flatMap fun r => (s.accounts r.1).closing r.2 := by
        refine List.flatMap_congr fun r hm => ?_
        rw [(hframe r.1 (hne r hm)).2]
      rw [hclosing, List.flatMap_cons, ← List.append_assoc]
      rfl
    · intro m hm
      rw [List.map_cons, List.mem_cons, not_or] at hm
      rw [(hother m hm.2).1, (hother m hm.2).2]
      exact hframe m hm.1
    · intro r hm
      rcases List.mem_cons.mp hm with rfl | hm
      · rw [(hother r.1 hnot).1, (hother r.1 hnot).2]
        exact ⟨Function.update_self .., Function.update_self ..⟩
      · rw [(hrows r hm).1, (hrows r hm).2, (hframe r.1 (hne r hm)).1, (hframe r.1 (hne r hm)).2]
        exact ⟨rfl, rfl⟩

theorem PendingLane.produced_le {h : KvHeap n} {x : Lane} {budget : Nat}
    (hl : PendingLane cfg h l x budget) : x.pending.produced ≤ budget := by
  by_cases hb : cfg.backend = .none
  · have ho := hl.ordinary hb
    rw [ho.pending]
    exact ho.at_frontier.budget_pos
  · exact (hl.speculative hb).produced_le

theorem SettledFrom.reserved {x y : Lane} {row : Resolution} {e : RowEgress}
    (hy : SettledFrom cfg x row e y) : y.reserved = x.reserved := by
  cases hy <;> rfl

/-- **The accounting of a resolved row.** -/
theorem AccountInv.resolved {x y : Lane} {slot : Slot} {a : Account} {row : Resolution}
    (ha : AccountInv cfg x slot a) (hp : slot.phase = .decoding) (hr : y.reserved = x.reserved)
    (hterminal : row.cancelled = true → row.terminal = true)
    (hle : row.cancelled = false → row.accepted ≤ slot.budget) :
    AccountInv cfg y (slot.resolved row) (a.resolved row) := by
  unfold Slot.resolved Account.resolved Account.spend
  cases ht : row.terminal with
  | true => exact accountInv_idle _
  | false =>
    have hc : row.cancelled = false := by
      cases hc : row.cancelled with
      | false => rfl
      | true => exact nomatch ht.symm.trans (hterminal hc)
    have hcovers := ha.decoding hp
    have htotal := ha.total
    have hacc := hle hc
    rw [hc]
    simp only [Bool.false_eq_true, if_false]
    refine ⟨(fun hidle => nomatch hp.symm.trans hidle), by dsimp only; omega, ha.steps, fun _ => ?_,
      (fun hpre => nomatch hp.symm.trans hpre), (fun hf => nomatch hp.symm.trans hf), fun _ => ?_⟩
    · rw [hr]
      exact ha.admission (by rw [hp]; simp)
    · dsimp only
      omega

theorem AccountInv.closing {x : Lane} {slot : Slot} {a b : Account} {row : Resolution}
    (ha : AccountInv cfg x slot a) (hp : slot.phase = .decoding)
    (hle : row.cancelled = false → row.accepted ≤ slot.budget) (hb : b ∈ a.closing row) :
    b.Covered := by
  have hcovers := ha.decoding hp
  have htotal := ha.total
  unfold Account.closing Account.spend at hb
  split_ifs at hb with ht hc
  · rw [List.mem_singleton.mp hb]
    exact ha.covered
  · have hacc := hle (by simpa using hc)
    rw [List.mem_singleton.mp hb]
    exact ⟨ha.steps, by dsimp only; omega⟩
  · cases hb

/-- **The lane of a resolved row.** -/
theorem Resolved.inv {h : KvHeap n} {x : Lane} {slot : Slot} {row : Resolution}
    (hr : Resolved cfg h l x slot.budget row) (hp : slot.phase = .decoding)
    (hterminal : row.cancelled = true → row.terminal = true) :
    LaneInv cfg h l x (slot.resolved row) false := by
  unfold Slot.resolved
  cases hc : row.cancelled with
  | true =>
    rw [hterminal hc]
    exact .empty rfl rfl (hr.cancelled hc)
  | false =>
    cases ht : row.terminal with
    | true => exact .complete rfl rfl (hr.terminal hc ht)
    | false => exact .active hp rfl (hr.more hc ht)

/-- **`run_decode_round`**, the resolution. -/
theorem resolve_spec {rows : List (Fin n × Resolution)} (hs : SysInv cfg s)
    (he : (Action.resolve rows).Enabled cfg s) :
    ∃ s', (Action.resolve rows).run cfg s = .ok () s' ∧ SysInv cfg s' ∧
      BatchStepped cfg (rows.map Prod.fst) s.program s'.program ∧
      s'.program.prefills = s.program.prefills ∧ s'.round = [] ∧
      (∀ row ∈ rows, PendingLane cfg s.program.pools.heap row.1 (s.program.lanes row.1)
        (s.slots row.1).budget) ∧
      (∀ row ∈ rows, s'.slots row.1 = (s.slots row.1).resolved row.2) ∧
      List.Forall₂ (fun row e => ∃ y, SettledFrom cfg (s.program.lanes row.1) row.2 e y ∧
        RowSettled cfg s'.program row (s.slots row.1).budget y) rows s.program.egress := by
  obtain ⟨hne, hround, hrows⟩ := he
  have hnd : (rows.map Prod.fst).Nodup := hround ▸ hs.nodup
  have hin : ∀ row ∈ rows, row.1 ∈ s.round := fun row hm => hround ▸ List.mem_map_of_mem hm
  have hpending : ∀ row ∈ rows, PendingLane cfg s.program.pools.heap row.1 (s.program.lanes row.1)
      (s.slots row.1).budget := fun row hm => (hs.pendingLane (hin row hm)).1
  have hphase : ∀ row ∈ rows, (s.slots row.1).phase = .decoding :=
    fun row hm => (hs.pendingLane (hin row hm)).2
  have hegress := hs.egress (by rw [← hround]; simpa using hne)
  rw [← hround, List.forall₂_map_left_iff] at hegress
  obtain ⟨p', hok, hb, hprefills, hsettled⟩ := resolvePendingBatch_spec
    (fun l => (s.slots l).budget) hs.kv hne hnd hpending (fun row hm => (hrows row hm).1) hegress
  have haccepted : ∀ row ∈ rows, row.2.cancelled = false →
      row.2.accepted ≤ (s.slots row.1).budget := by
    intro row hm hc
    exact ((hrows row hm).1.accepted hc).2.trans (hpending row hm).produced_le
  obtain ⟨slots, accounts, hcommit, hother, hnew⟩ := forM_commitDecoded rows
    { s with program := p', round := [] } hnd (by
      intro row hm hc
      refine ⟨((hrows row hm).1.accepted hc).1, (haccepted row hm hc).trans ?_⟩
      exact (hs.accounts row.1).decoding (hphase row hm))
  refine ⟨{
      program := p'
      slots := slots
      accounts := accounts
      round := []
      closed := s.closed ++ rows.flatMap fun row => (s.accounts row.1).closing row.2 },
    (Call.bind_of_ok (onProgram_of_ok hok)).trans hcommit, ?_, hb, hprefills, rfl, hpending,
    fun row hm => (hnew row hm).1, hsettled⟩
  -- Each row has its own settled lane and its own line of the egress.
  have hresolved : ∀ row ∈ rows, ∃ y e, SettledFrom cfg (s.program.lanes row.1) row.2 e y ∧
      RowSettled cfg p' row (s.slots row.1).budget y := by
    intro row hm
    obtain ⟨i, hi, rfl⟩ := List.mem_iff_getElem.mp hm
    have hall := List.forall₂_iff_get.mp hsettled
    obtain ⟨y, hy, hset⟩ := hall.2 i hi (hall.1 ▸ hi)
    exact ⟨y, _, hy, hset⟩
  refine
    { kv := hb.inv, lanes := fun m => ?_, nodup := List.nodup_nil, egress := fun h => absurd rfl h
      calls := fun call hc => (hb.calls call hc).elim (hs.calls call) id
      writes := fun write hw => (hb.writes write hw).elim (hs.writes write) id
      prefills := fun r hr => (hb.prefills r hr).elim (hs.prefills r) id
      accounts := fun m => ?_, closed := fun a ha => ?_ }
  rotate_right
  · rcases List.mem_append.mp ha with ha | ha
    · exact hs.closed a ha
    · obtain ⟨row, hrow, hclosing⟩ := List.mem_flatMap.mp ha
      exact (hs.accounts row.1).closing (hphase row hrow) (haccepted row hrow) hclosing
  · show LaneInv cfg p'.pools.heap m (p'.lanes m) (slots m) (decide (m ∈ []))
    rw [decide_eq_false List.not_mem_nil]
    by_cases hm : m ∈ rows.map Prod.fst
    · obtain ⟨row, hrow, rfl⟩ := List.mem_map.mp hm
      obtain ⟨y, e, -, hset⟩ := hresolved row hrow
      rw [(hnew row hrow).1]
      exact hset.resolved.inv (hphase row hrow) (hrows row hrow).2
    · have hlane := hs.lanes m
      rw [← hround, decide_eq_false hm] at hlane
      rw [(hother m hm).1, hb.lanes m hm]
      exact hlane.frame (hb.only m hm)
  · show AccountInv cfg (p'.lanes m) (slots m) (accounts m)
    by_cases hm : m ∈ rows.map Prod.fst
    · obtain ⟨row, hrow, rfl⟩ := List.mem_map.mp hm
      obtain ⟨y, e, hy, hset⟩ := hresolved row hrow
      rw [(hnew row hrow).1, (hnew row hrow).2]
      have hinv := hs.accounts row.1
      have hphase' := hphase row hrow
      cases hc : row.2.cancelled with
      | true =>
        show AccountInv cfg _ (Slot.resolved _ _) (Account.resolved _ _)
        rw [Slot.resolved, Account.resolved, (hrows row hrow).2 hc]
        exact accountInv_idle _
      | false =>
        refine hinv.resolved hphase' ?_ (hrows row hrow).2 (haccepted row hrow)
        rw [hset.lane hc]
        exact hy.reserved
    · rw [(hother m hm).1, (hother m hm).2, hb.lanes m hm]
      exact hs.accounts m

/-! ## Abandoning a lane -/

/-- **The cancellation of a request** between rounds. -/
theorem abort_spec (hs : SysInv cfg s) (he : (Action.abort l).Enabled cfg s) :
    (Action.abort l).run cfg s = .ok () (s.abandon l) ∧ SysInv cfg (s.abandon l) := by
  refine ⟨rfl, ?_⟩
  have hlane : (clearLane l s.program).lanes l = _ := Function.update_self ..
  refine hs.of_stepped (clearLane_stepped hs.kv l) (fun m hm => Function.update_of_ne hm ..)
    (fun m hm => Function.update_of_ne hm ..) rfl he.2 ?_ ?_ fun a ha => ?_
  rotate_right
  · refine (List.mem_append.mp ha).imp_right fun hlast => ?_
    rw [List.mem_singleton.mp hlast]
    exact (hs.accounts l).covered
  · show LaneInv cfg (clearLane l s.program).pools.heap l ((clearLane l s.program).lanes l)
      (Function.update s.slots l {} l) false
    rw [hlane, Function.update_self]
    exact .empty rfl rfl (emptyLane_clear hs.kv l _)
  · show AccountInv cfg _ (Function.update s.slots l {} l) (Function.update s.accounts l {} l)
    rw [Function.update_self, Function.update_self]
    exact accountInv_idle _

/-- **The eviction of a retained lane.** -/
theorem evict_spec (hs : SysInv cfg s) (he : (Action.evict l).Enabled cfg s) :
    (Action.evict l).run cfg s = .ok () { s with program := evictRetainedLane l s.program } ∧
      SysInv cfg { s with program := evictRetainedLane l s.program } := by
  refine ⟨rfl, ?_⟩
  obtain ⟨hfree, hnot⟩ := hs.free he
  have haccount := hs.accounts l
  unfold evictRetainedLane
  split_ifs with hret
  · have hlane : (clearLane l s.program).lanes l = _ := Function.update_self ..
    refine hs.of_stepped (clearLane_stepped hs.kv l) (fun _ _ => rfl) (fun _ _ => rfl) rfl hnot ?_ ?_
      fun _ => Or.inl
    · show LaneInv cfg (clearLane l s.program).pools.heap l ((clearLane l s.program).lanes l)
        (s.slots l) false
      rw [hlane]
      exact .empty he rfl (emptyLane_clear hs.kv l _)
    · have hphase : (s.slots l).phase ≠ .prefilling := by
        rw [show (s.slots l).phase = .idle from he]
        simp
      show AccountInv cfg ((clearLane l s.program).lanes l) (s.slots l) (s.accounts l)
      rw [hlane]
      exact haccount.congr rfl hphase
  · exact hs

/-! ## Runs -/

/-- **Every action keeps the invariant**, and throws only for a token outside the domain. -/
theorem SysInv.action (hs : SysInv cfg s) {action : Action n} (he : action.Enabled cfg s) :
    (∃ s', action.run cfg s = .ok () s' ∧ SysInv cfg s') ∨
      ∃ t, action.run cfg s = .error tokenDomainError t ∧ Failed cfg t := by
  cases action with
  | start l prompt options base plan transient sampled =>
    refine (start_spec hs he).imp_left ?_
    rintro ⟨_, _, _, s', hok, hs', -⟩
    exact ⟨s', hok, hs'⟩
  | advance l sampled =>
    refine (advance_spec hs he sampled).imp_left ?_
    rintro ⟨_, _, s', hok, hs', -⟩
    exact ⟨s', hok, hs'⟩
  | resolvePrefill l terminal =>
    obtain ⟨s', hok, hs', -⟩ := resolvePrefill_spec hs he
    exact Or.inl ⟨s', hok, hs'⟩
  | decode rows =>
    refine (decode_spec hs he).imp_left ?_
    rintro ⟨s', hok, hs', -⟩
    exact ⟨s', hok, hs'⟩
  | resolve rows =>
    obtain ⟨s', hok, hs', -⟩ := resolve_spec hs he
    exact Or.inl ⟨s', hok, hs'⟩
  | abort l => exact Or.inl ⟨_, abort_spec hs he⟩
  | evict l => exact Or.inl ⟨_, evict_spec hs he⟩

/-- **One step keeps the invariant.** -/
theorem Step.inv {s' : System n} (hs : SysInv cfg s) (hstep : Step cfg s s') : SysInv cfg s' := by
  cases hstep with
  | returned enabled run =>
    rcases hs.action enabled with ⟨t, hok, ht⟩ | ⟨t, herror, -⟩
    · obtain ⟨-, rfl⟩ := EStateM.Result.ok.inj (hok.symm.trans run)
      exact ht
    · exact nomatch herror.symm.trans run
  | threw enabled run =>
    rcases hs.action enabled with ⟨t, hok, -⟩ | ⟨t, herror, ht⟩
    · exact nomatch hok.symm.trans run
    · obtain ⟨-, rfl⟩ := EStateM.Result.error.inj (herror.symm.trans run)
      exact ht.failAll

/-- **The invariant holds in every reachable state.** -/
theorem Reachable.inv (hr : Reachable cfg s) : SysInv cfg s := by
  induction hr with
  | refl => exact sysInv_init
  | tail _ hstep ih => exact hstep.inv ih


end Ninfer.Qwen
