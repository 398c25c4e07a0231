import Ninfer.Qwen.Invariant

/-!
# Staging a prefill

A plan made for a lane in a state that the program reaches passes every check of
`start_prefill_lane`: those before the lane is touched, those on the resident sequence, and those of
the pools.

## Main results

* `materializeSequenceKv_spec`: materializing inside what was reserved returns
* `validateStart_spec`: the checks before the lane is touched pass
* `stagePrefill_spec`: the prefill is staged
-/

namespace Ninfer.Qwen

open PagedKV

variable {n : Nat} {cfg : Config n} {l : Fin n} {x : Lane}

/-! ## Materializing -/

/-- What calls on the pools of one lane keep, with the calls of `materialize_tokens` they make. -/
structure PoolsBecame (cfg : Config n) (l : Fin n) (p p' : Pools n) : Prop where
  inv : KvInv cfg p'.heap
  only : OnlyLane l p.heap p'.heap
  calls : ∀ call ∈ p'.calls, call ∈ p.calls ∨ call.Within

theorem PoolsBecame.trans {p₁ p₂ p₃ : Pools n} (h₁ : PoolsBecame cfg l p₁ p₂)
    (h₂ : PoolsBecame cfg l p₂ p₃) : PoolsBecame cfg l p₁ p₃ where
  inv := h₂.inv
  only := h₁.only.trans h₂.only
  calls := by
    intro call hc
    rcases h₂.calls call hc with hc | hc
    · exact h₁.calls call hc
    · exact Or.inr hc

theorem onHeap_of_ok {α : Type} {c : Call (KvHeap n) α} {p : Pools n} {a : α} {h' : KvHeap n}
    (hc : c p.heap = .ok a h') : onHeap c p = .ok a { p with heap := h' } := by
  simp only [onHeap, hc]

/-- A call on the heap makes no call of `materialize_tokens`. -/
theorem BundleBecame.pools {p : Pools n} {h' : KvHeap n} {w : BundleView}
    (hb : BundleBecame cfg l p.heap h' w) : PoolsBecame cfg l p { p with heap := h' } :=
  ⟨hb.inv, hb.only, fun _ => Or.inl⟩

/-- **One growth**, inside what was reserved. -/
theorem growLane_spec {p : Pools n} {a : Fin n × Cache} {v : AllocView} {tokens : Nat}
    (hi : KvInv cfg p.heap) (ho : Owns p.heap a v) (hc : Countable v)
    (hfit : pagesForTokens tokens ≤ v.entitled) :
    ∃ p', growLane a tokens v.entitled p = .ok () p' ∧
      Became cfg a p.heap p'.heap { v with mapped := max v.mapped (pagesForTokens tokens) } ∧
      ∀ call ∈ p'.calls, call ∈ p.calls ∨ call.Within := by
  obtain ⟨h', hok, hb⟩ := growTo_spec hi ho hc hfit
  unfold growTo at hok
  unfold growLane
  split_ifs at hok ⊢ with hlt
  · refine ⟨_, onHeap_of_ok hok, hb, ?_⟩
    intro call hcall
    rcases List.mem_append.mp hcall with hcall | hcall
    · exact Or.inl hcall
    · rw [List.mem_singleton] at hcall
      subst hcall
      exact Or.inr hfit
  · cases hok
    exact ⟨p, rfl, hb, fun _ => Or.inl⟩

/-- **`materialize_sequence_kv`** inside what was reserved returns. -/
theorem materializeSequenceKv_spec {p : Pools n} {w : BundleView} (reserved : Cache → Nat)
    (main : Nat) {back : Nat} (hi : KvInv cfg p.heap) (ho : OwnsBundle cfg p.heap l w)
    (ht : w.text.entitled = reserved .text) (hb : w.backend.entitled = reserved .backend)
    (hct : Countable w.text) (hcb : Countable w.backend) (hm : main ≤ cfg.capacity)
    (hbc : back ≤ cfg.capacity) (hnone : cfg.hasBackend = false → back = 0)
    (hft : pagesForTokens main ≤ reserved .text)
    (hfb : cfg.hasBackend = true → pagesForTokens back ≤ reserved .backend) :
    ∃ p', materializeSequenceKv cfg l (some cfg.bundle) reserved main back p = .ok () p' ∧
      PoolsBecame cfg l p p' ∧
      OwnsBundle cfg p'.heap l ⟨{ w.text with mapped := max w.text.mapped (pagesForTokens main) },
        { w.backend with mapped := max w.backend.mapped (pagesForTokens back) }⟩ := by
  rw [← ht] at hft
  obtain ⟨p₁, hok₁, hb₁, hcalls₁⟩ := growLane_spec hi ho.text hct hft
  rw [ht] at hok₁
  rcases Bool.eq_false_or_eq_true cfg.hasBackend with hbk | hbk
  · rw [Config.bundle_of_true hbk]
    simp only [materializeSequenceKv, bind, EStateM.bind, hok₁]
    rw [if_neg (by omega), if_neg (by simp)]
    by_cases hz : back = 0
    · rw [if_pos hz]
      have hzero : pagesForTokens back = 0 := by simp [hz, pagesForTokens]
      have hback : Became cfg (l, .backend) p₁.heap p₁.heap
          { w.backend with mapped := max w.backend.mapped (pagesForTokens back) } := by
        rw [hzero, Nat.max_eq_left (Nat.zero_le _)]
        exact ⟨hb₁.inv, ho.backend_of hb₁ hbk, fun _ _ => rfl⟩
      have hbb := bundleBecame_of ho hb₁ (fun _ => hback) fun _ => rfl
      exact ⟨p₁, rfl, ⟨hbb.inv, hbb.only, hcalls₁⟩, hbb.owns⟩
    · rw [if_neg hz]
      have hfb := hfb hbk
      rw [← hb] at hfb
      obtain ⟨p₂, hok₂, hb₂, hcalls₂⟩ := growLane_spec hb₁.inv (ho.backend_of hb₁ hbk) hcb hfb
      rw [hb] at hok₂
      have hbb := bundleBecame_of ho hb₁ (fun _ => hb₂) (absurd_backend hbk)
      refine ⟨p₂, hok₂, ⟨hbb.inv, hbb.only, ?_⟩, hbb.owns⟩
      intro call hcall
      rcases hcalls₂ call hcall with hcall | hcall
      · exact hcalls₁ call hcall
      · exact Or.inr hcall
  · have hbb : BundleBecame cfg l p.heap p₁.heap
        ⟨{ w.text with mapped := max w.text.mapped (pagesForTokens main) },
          { w.backend with mapped := max w.backend.mapped (pagesForTokens back) }⟩ :=
      bundleBecame_of ho hb₁ (fun ht => absurd_backend ht hbk) fun _ => rfl
    refine ⟨p₁, ?_, ⟨hbb.inv, hbb.only, hcalls₁⟩, hbb.owns⟩
    rw [Config.bundle_of_false hbk]
    simp only [materializeSequenceKv, bind, EStateM.bind, hok₁]
    rw [if_neg (by omega), if_neg (by simp [hnone hbk]), if_pos (hnone hbk)]
    rfl

/-! ## The checks before the lane is touched -/

section Start

variable {prompt : PreparedPromptData} {options : ExecutionOptions} {base : RequestBasePlan}
  {plan : RequestPlan} {transient : TransientRegion}

/-- The transient region that a plan asks for. -/
def Satisfies (plan : RequestPlan) (transient : TransientRegion) : Prop :=
  plan.summary.transientBytes ≠ 0 → transient.data = true ∧
    plan.summary.transientBytes ≤ transient.size ∧
    plan.summary.transientAlignment ≤ transient.alignment

instance (plan : RequestPlan) (transient : TransientRegion) : Decidable (Satisfies plan transient) :=
  inferInstanceAs (Decidable (_ → _))

/-- A plan that uses an item comes from a prompt with media. -/
theorem Accepted.hasMedia (ha : Accepted cfg prompt options base)
    (hp : PlanOk cfg x prompt base plan) (hv : plan.vision.isSome = true) :
    prompt.hasMedia = true := by
  by_contra hm
  rw [hp.vision, ha.media.control, if_neg hm] at hv
  cases hv

/-- The checkpoint action of a plan passes the checks of the starter. -/
theorem validateAction_spec (ha : Accepted cfg prompt options base)
    (hp : PlanOk cfg x prompt base plan) : validateAction x prompt plan = .ok () := by
  have haction := hp.action
  rw [ha.checkpoint] at haction
  unfold checkpointAction at haction
  unfold validateAction
  cases hspec : prompt.identity.rewriteCheckpoint with
  | none =>
    rw [hspec] at haction
    have hdrop : plan.rewriteCheckpointAction = .drop := congrArg Prod.fst haction
    rw [hdrop]
  | some spec =>
    rw [hspec] at haction
    have hfrontier := ha.frontier spec hspec
    dsimp only at haction
    split_ifs at haction with hkeep hkind hcapture
    · -- The checkpoint of the lane is the one the prompt asks for.
      have hact : plan.rewriteCheckpointAction = .keepExisting := congrArg Prod.fst haction
      obtain ⟨hreuse, hvalid, hfront, hmatch⟩ := hkeep
      rw [hact]
      exact check_of ⟨hkind, hvalid, hfront, hreuse, by rw [hfront]; exact hmatch⟩
    · have hact : plan.rewriteCheckpointAction = .reclassifyExisting := congrArg Prod.fst haction
      obtain ⟨hreuse, hvalid, hfront, hmatch⟩ := hkeep
      rw [hact]
      exact check_of ⟨hkind, hvalid, hfront, hreuse, by rw [hfront]; exact hmatch⟩
    · have hact : plan.rewriteCheckpointAction = .captureNew := congrArg Prod.fst haction
      have hcap : plan.rewriteCheckpointCapture = some spec := congrArg Prod.snd haction
      rw [hact]
      refine check_of ⟨rfl, hcap, ?_⟩
      rw [hcap]
      rintro capture hc
      cases hc
      exact ⟨hcapture, hfrontier.2⟩
    · have hact : plan.rewriteCheckpointAction = .deferCapture := congrArg Prod.fst haction
      rw [hact]
      refine check_of ⟨fun hreset => ?_, Nat.not_lt.mp hcapture⟩
      have := hp.reuse.reset hreset
      omega

/-- **The checks before the lane is touched** pass. -/
theorem validateStart_spec (hprep : Prepared prompt) (ha : Accepted cfg prompt options base)
    (hp : PlanOk cfg x prompt base plan) (ht : Satisfies plan transient) :
    validateStart x prompt plan transient = .ok () := by
  unfold validateStart
  simp only [check_bind_eq_ok]
  refine ⟨by simp [hp.free], ⟨?_, ha.hasMedia hp⟩, ha.frontier, ?_, ht, ?_, ?_,
    validateAction_spec ha hp⟩
  · rw [hp.promptTokens, ha.promptTokens]
  · rw [hp.vision]
    exact ha.media.suffix_visual hprep _ _
  · intro hr
    obtain ⟨hret, -, hmatch⟩ := hp.reuse.resident hr
    exact ⟨hret, hmatch⟩
  · intro hr
    obtain ⟨h₁, h₂, h₃, -⟩ := hp.reuse.restore hr
    exact ⟨h₁, h₂, h₃⟩

/-! ## The resident sequence -/

variable {h : KvHeap n}

/-- A lane that runs no request. -/
def FreeLane (cfg : Config n) (h : KvHeap n) (l : Fin n) (x : Lane) : Prop :=
  EmptyLane h l x ∨ CompleteLane cfg h l x

theorem FreeLane.complete (hf : FreeLane cfg h l x) (hr : x.retained = true) :
    CompleteLane cfg h l x := by
  rcases hf with he | hc
  · have hret : x.cleared.retained = false := rfl
    rw [he.cleared, hr] at hret
    cases hret
  · exact hc

/-- The base of a reuse lies in the resident sequence. -/
theorem CompleteLane.base_le (hc : CompleteLane cfg h l x) {reuse : ReusePath} {b : Nat}
    (hr : ReuseOk cfg x prompt reuse b) : b ≤ x.executionFrontier := by
  cases reuse with
  | fullReset =>
    rw [hr.reset rfl]
    exact Nat.zero_le _
  | appendAtFrontier => exact (hr.append rfl).1.le
  | restoreTurnCheckpoint =>
    obtain ⟨hvalid, hfront, -⟩ := hr.restore rfl
    exact hfront ▸ (hc.checkpoint hvalid).2
  | restoreResponseCheckpoint =>
    obtain ⟨hvalid, hfront, -⟩ := hr.restore rfl
    exact hfront ▸ (hc.checkpoint hvalid).2

/-- The device of a lane that continues the first tokens of its sequence. -/
def resumedDevice (d : LaneDevice) (prompt : PreparedPromptData) (plan : RequestPlan) : LaneDevice :=
  match plan.reuse with
  | .fullReset => { d with linear := some [] }
  | .appendAtFrontier => d
  | _ =>
    { d with
      linear := d.checkpointLinear
      tailHidden := if plan.reuseBase = prompt.size then d.checkpointHidden else d.tailHidden }

/-- The lane `y` continues the first tokens of the sequence of the lane `x`. -/
structure Resumed (cfg : Config n) (x : Lane) (prompt : PreparedPromptData) (plan : RequestPlan)
    (y : Lane) : Prop where
  retained : y.retained = false
  textKvValid : y.textKvValid = plan.reuseBase
  mtp : cfg.backend = .mtp → y.mtpKvValid = plan.reuseBase - 1
  dflash : cfg.backend = .dflash → y.dflashContextFrontier = plan.reuseBase
  tail : plan.reuseBase = prompt.size → y.tailHiddenValid = true
  checkpoint : y.rewriteCheckpoint = x.rewriteCheckpoint
  frontier : y.executionFrontier = x.executionFrontier
  kv : plan.reuse ≠ .fullReset → y.kv = some cfg.bundle
  device : y.device = resumedDevice x.device prompt plan

/-- The backend state of a lane at the reuse base. -/
theorem Resumed.backendKvValid {y : Lane} (hr : Resumed cfg x prompt plan y) :
    y.backendKvValid cfg = match cfg.backend with
      | .none => 0
      | .mtp => plan.reuseBase - 1
      | .dflash => plan.reuseBase := by
  unfold Lane.backendKvValid
  cases hb : cfg.backend with
  | none => rfl
  | mtp => exact hr.mtp hb
  | dflash => exact hr.dflash hb

/-- **The checks on the resident sequence** pass, and the lane continues it. -/
theorem stageReuse_spec (hf : FreeLane cfg h l x) (hpos : 0 < prompt.size)
    (hp : PlanOk cfg x prompt base plan) :
    ∃ y, stageReuse cfg x prompt plan = .ok y ∧ Resumed cfg x prompt plan y := by
  have hmtp : cfg.backend = .mtp → plan.prepareMtp = true := fun hb => by
    rw [hp.prepareMtp, hb]
    rfl
  cases hreuse : plan.reuse with
  | fullReset =>
    have hzero := hp.reuse.reset hreuse
    apply Exists.intro
    apply And.intro
    · rw [stageReuse, hreuse]
    · exact
        { retained := rfl, textKvValid := hzero.symm, mtp := fun _ => by rw [hzero]
          dflash := fun _ => hzero.symm, tail := fun heq => by omega, checkpoint := rfl
          frontier := rfl, kv := fun hne => absurd hreuse hne
          device := by rw [resumedDevice, hreuse] }
  | appendAtFrontier =>
    have hne : plan.reuse ≠ .fullReset := by simp [hreuse]
    obtain ⟨hret, -, -⟩ := hp.reuse.resident hne
    obtain ⟨hbase, hdflash, hready⟩ := hp.reuse.append hreuse
    have hc := hf.complete hret
    apply Exists.intro
    apply And.intro
    · rw [stageReuse, hreuse]
      simp only [check_bind_eq_ok]
      refine ⟨by rw [hc.resting.kv]; rfl, ?_, ?_, ?_, rfl⟩
      · rw [hc.textKvValid]
        exact hbase.le
      · exact fun hb => ⟨hmtp hb, (hready hb).2⟩
      · exact fun hb => (hdflash hb).trans hbase.symm
    · exact
        { retained := rfl, textKvValid := rfl, mtp := fun hb => if_pos hb
          dflash := fun hb => (hdflash hb).trans hbase.symm, tail := fun _ => hc.tail
          checkpoint := rfl, frontier := rfl, kv := fun _ => hc.resting.kv
          device := by rw [resumedDevice, hreuse] }
  | restoreTurnCheckpoint | restoreResponseCheckpoint =>
    have hne : plan.reuse ≠ .fullReset := by simp [hreuse]
    obtain ⟨hret, -, -⟩ := hp.reuse.resident hne
    obtain ⟨hvalid, hfront, -, hm, hd⟩ := hp.reuse.restore (by rw [hreuse]; rfl)
    have hc := hf.complete hret
    apply Exists.intro
    apply And.intro
    · rw [stageReuse, hreuse]
      simp only [check_bind_eq_ok]
      refine ⟨⟨by rw [hc.resting.kv]; rfl, ?_⟩, fun hb => ⟨hmtp hb, hm hb⟩, hd, rfl⟩
      rw [hc.textKvValid]
      exact hc.base_le hp.reuse
    · exact
        { retained := rfl, textKvValid := rfl, mtp := fun hb => if_pos hb
          dflash := fun hb => if_pos hb, tail := fun heq => by simp [heq], checkpoint := rfl
          frontier := rfl, kv := fun _ => hc.resting.kv
          device := by rw [resumedDevice, hreuse] }

/-! ## The allocations -/

/-- **The pages of a plan** are enough for the tokens that the request may execute. -/
theorem Accepted.fits (ha : Accepted cfg prompt options base) (hp : PlanOk cfg x prompt base plan) :
    Fits cfg plan.pages (reservedContextTokens cfg prompt options) := by
  have hcap := reservedContextTokens_le options ha.size_le
  have ht : plan.pages .text = pagesForTokens (reservedContextTokens cfg prompt options) :=
    hp.textPages.trans ha.textPages
  have hb : plan.pages .backend =
      pagesForTokens (reservedBackendTokens cfg (reservedContextTokens cfg prompt options)) :=
    hp.backendPages.trans ha.backendPages
  refine ⟨hcap, ht.ge, hb.ge, ?_⟩
  intro c
  cases c with
  | text =>
    rw [ht]
    exact pagesForTokens_mono hcap
  | backend =>
    rw [hb]
    refine pagesForTokens_mono ?_
    unfold reservedBackendTokens
    split <;> omega

/-- Pages of the backend's cache are reserved exactly when there is a backend. -/
theorem Accepted.hasBackend (ha : Accepted cfg prompt options base)
    (hp : PlanOk cfg x prompt base plan) :
    cfg.hasBackend = decide (plan.backendKvPageEntitlement ≠ 0) := by
  have hpos := ha.size_pos
  have hcap := cfg.capacity_pos
  have hle : prompt.size ≤ reservedContextTokens cfg prompt options := Nat.le_add_right _ _
  rw [hp.backendPages, ha.backendPages]
  unfold Config.hasBackend reservedBackendTokens
  cases hb : cfg.backend with
  | none => simp [pagesForTokens]
  | mtp =>
    have hw := cfg.draftWindow_pos (by rw [hb]; simp)
    have := pagesForTokens_pos (m := min cfg.capacity
      (reservedContextTokens cfg prompt options + cfg.draftWindow - 1)) (by omega)
    simp
    omega
  | dflash =>
    have := pagesForTokens_pos (m := reservedContextTokens cfg prompt options) (by omega)
    simp
    omega

/-- The backend state of a lane at the reuse base fits what was reserved. -/
theorem Resumed.backend_le {y : Lane} (hr : Resumed cfg x prompt plan y)
    (ha : Accepted cfg prompt options base) (hp : PlanOk cfg x prompt base plan) :
    y.backendKvValid cfg ≤ plan.reuseBase ∧ (cfg.hasBackend = false → y.backendKvValid cfg = 0) ∧
      pagesForTokens (y.backendKvValid cfg) ≤ plan.backendKvPageEntitlement := by
  have hbase := hp.reuse.base_le
  have hfits := (ha.fits hp).backend
  have hcap := ha.size_le
  have hle : prompt.size ≤ reservedContextTokens cfg prompt options := Nat.le_add_right _ _
  rw [hr.backendKvValid]
  refine ⟨?_, ?_, le_trans (pagesForTokens_mono ?_) hfits⟩
  · split <;> omega
  · intro hbk
    have hb : cfg.backend = .none := by simpa [Config.hasBackend] using hbk
    rw [hb]
  · unfold reservedBackendTokens
    cases hb : cfg.backend with
    | none => exact Nat.le_refl _
    | mtp =>
      dsimp only
      omega
    | dflash =>
      dsimp only
      omega

/-- The lane's bundle before its prefill: entitled to what the plan reserves, and not bound. -/
def claimedView (cfg : Config n) (y : Lane) (plan : RequestPlan) : BundleView :=
  ⟨⟨pagesForTokens plan.reuseBase, plan.textKvPageEntitlement, -1⟩,
    ⟨pagesForTokens (y.backendKvValid cfg), plan.backendKvPageEntitlement, -1⟩⟩

/-- **The allocations of a lane** are reserved anew, or trimmed and resized. -/
theorem claimKv_spec {p : Pools n} {y : Lane} (hi : KvInv cfg p.heap)
    (hf : FreeLane cfg p.heap l x) (ha : Accepted cfg prompt options base)
    (hp : PlanOk cfg x prompt base plan) (hr : Resumed cfg x prompt plan y)
    (hct : CanReplace p.heap l .text plan.textKvPageEntitlement)
    (hcb : cfg.hasBackend = true → CanReplace p.heap l .backend plan.backendKvPageEntitlement) :
    ∃ p', claimKv cfg l y plan p = .ok cfg.bundle p' ∧ PoolsBecame cfg l p p' ∧
      OwnsBundle cfg p'.heap l (claimedView cfg y plan) := by
  obtain ⟨hbackle, hbacknone, hbackfits⟩ := hr.backend_le ha hp
  have hfits := ha.fits hp
  have hbasele := hp.reuse.base_le
  have hbase : pagesForTokens plan.reuseBase ≤ plan.textKvPageEntitlement :=
    (pagesForTokens_mono (hbasele.trans (Nat.le_add_right _ _))).trans hfits.text
  have htext : plan.textKvPageEntitlement ≠ 0 := by
    have hpos := pagesForTokens_pos ha.size_pos
    have := (pagesForTokens_mono (Nat.le_add_right prompt.size
      (effectiveOutputTokens cfg prompt options - 1))).trans hfits.text
    have heq : plan.pages .text = plan.textKvPageEntitlement := rfl
    omega
  unfold claimKv
  by_cases hreset : plan.reuse = .fullReset
  · rw [if_pos hreset]
    have hzero := hp.reuse.reset hreset
    obtain ⟨hi₁, hn₁, hon₁⟩ := resetKv_spec hi l
    obtain ⟨h₂, hok₂, hb₂⟩ := reserveSequenceKv_spec hi₁ hn₁ htext (ha.hasBackend hp)
      (hct.of_onlyLane hi hi₁ hon₁) fun hbk => (hcb hbk).of_onlyLane hi hi₁ hon₁
    have hok : onHeap (reserveSequenceKv cfg l none plan.textKvPageEntitlement
        plan.backendKvPageEntitlement) { p with heap := resetKv l p.heap } =
        .ok cfg.bundle { p with heap := h₂ } := onHeap_of_ok hok₂
    refine ⟨{ p with heap := h₂ }, ?_, ⟨hb₂.inv, hon₁.trans hb₂.only, fun _ => Or.inl⟩, ?_⟩
    · simp only [bind, EStateM.bind, onHeap]
      exact hok
    · have hback : y.backendKvValid cfg = 0 := by omega
      have hview : claimedView cfg y plan =
          ⟨⟨0, plan.textKvPageEntitlement, -1⟩, ⟨0, plan.backendKvPageEntitlement, -1⟩⟩ := by
        simp [claimedView, hzero, hback, pagesForTokens]
      rw [hview]
      exact hb₂.owns
  · rw [if_neg hreset]
    obtain ⟨hret, -, -⟩ := hp.reuse.resident hreset
    have hc := hf.complete hret
    have hfront := hc.base_le hp.reuse
    have hbfront : cfg.hasBackend = true → x.backendKvValid cfg = x.executionFrontier := by
      intro hbk
      unfold Lane.backendKvValid
      cases hb : cfg.backend with
      | none => simp [Config.hasBackend, hb] at hbk
      | mtp => exact hc.backend.1 hb
      | dflash => exact hc.backend.2 hb
    obtain ⟨h₁, hok₁, hb₁⟩ := trimSequenceKv_spec hi hc.resting.owns
      (hfront.trans hc.frontier_le) hbackle hbacknone (pagesForTokens_mono hfront) fun hbk => by
        rw [hbfront hbk]
        exact pagesForTokens_mono (hbackle.trans hfront)
    obtain ⟨h₂, hok₂, hb₂⟩ := resizeSequenceKvEntitlement_spec hb₁.inv hb₁.owns htext
      (ha.hasBackend hp) hbase (fun _ => hbackfits) (hct.of_onlyLane hi hb₁.inv hb₁.only)
      fun hbk => (hcb hbk).of_onlyLane hi hb₁.inv hb₁.only
    rw [hr.kv hreset]
    refine ⟨{ p with heap := h₂ }, ?_, (hb₁.trans hb₂).pools, hb₂.owns⟩
    simp only [bind, EStateM.bind, onHeap, hok₁, hok₂]
    rfl

/-- What a prefill materializes in the backend's cache fits what was reserved. -/
theorem Accepted.materialized (ha : Accepted cfg prompt options base)
    (hp : PlanOk cfg x prompt base plan) :
    backendMaterialized cfg prompt.size
        (initialMtpExtent cfg prompt.size plan.summary.effectiveOutputTokens) ≤ cfg.capacity ∧
      pagesForTokens (backendMaterialized cfg prompt.size
        (initialMtpExtent cfg prompt.size plan.summary.effectiveOutputTokens)) ≤
        plan.pages .backend ∧
      (cfg.hasBackend = false → backendMaterialized cfg prompt.size
        (initialMtpExtent cfg prompt.size plan.summary.effectiveOutputTokens) = 0) := by
  have hcap := ha.size_le
  have hle : prompt.size ≤ reservedContextTokens cfg prompt options := Nat.le_add_right _ _
  refine ⟨?_, (pagesForTokens_mono ?_).trans (ha.fits hp).backend, ?_⟩
  · unfold backendMaterialized
    split <;> omega
  · unfold backendMaterialized reservedBackendTokens initialMtpExtent
    cases hb : cfg.backend with
    | none => exact Nat.le_refl _
    | mtp =>
      have hw := cfg.draftWindow_pos (by rw [hb]; simp)
      dsimp only
      rw [if_pos rfl]
      split_ifs <;> omega
    | dflash => exact hle
  · intro hbk
    have hb : cfg.backend = .none := by simpa [Config.hasBackend] using hbk
    rw [backendMaterialized, hb]

/-- **The allocations of a prefill**: bound, entitled to what the plan reserves, and with pages for
the prompt. -/
theorem stageKv_spec {p : Pools n} {y : Lane} (hi : KvInv cfg p.heap)
    (hf : FreeLane cfg p.heap l x) (ha : Accepted cfg prompt options base)
    (hp : PlanOk cfg x prompt base plan) (hr : Resumed cfg x prompt plan y)
    (hct : CanReplace p.heap l .text plan.textKvPageEntitlement)
    (hcb : cfg.hasBackend = true → CanReplace p.heap l .backend plan.backendKvPageEntitlement) :
    ∃ p', stageKv cfg l y prompt plan p = .ok cfg.bundle p' ∧ PoolsBecame cfg l p p' ∧
      ∀ z : Lane, z.kv = some cfg.bundle → z.reserved = plan.pages →
        Bound cfg p'.heap l z prompt.size (backendMaterialized cfg prompt.size
          (initialMtpExtent cfg prompt.size plan.summary.effectiveOutputTokens)) := by
  obtain ⟨hbackle, hbacknone, -⟩ := hr.backend_le ha hp
  obtain ⟨hmcap, hmfits, hmnone⟩ := ha.materialized hp
  have hfits := ha.fits hp
  have hbase := hp.reuse.base_le
  have hcap := ha.size_le
  have htext : pagesForTokens prompt.size ≤ plan.pages .text :=
    (pagesForTokens_mono (Nat.le_add_right _ _)).trans hfits.text
  obtain ⟨p₁, hok₁, hb₁, ho₁⟩ := claimKv_spec hi hf ha hp hr hct hcb
  obtain ⟨h₂, hok₂, hb₂⟩ := trimSequenceKv_spec hb₁.inv ho₁ (hbase.trans hcap) hbackle hbacknone
    (Nat.le_refl _) fun _ => Nat.le_refl _
  obtain ⟨h₃, hok₃, hb₃⟩ := bindSequenceKv_spec hb₂.inv hb₂.owns rfl fun _ => rfl
  obtain ⟨p₄, hok₄, hb₄, ho₄⟩ := materializeSequenceKv_spec (p := { p₁ with heap := h₃ })
    plan.pages prompt.size hb₃.inv hb₃.owns rfl rfl
    (hfits.countable .text _ _) (hfits.countable .backend _ _) hcap hmcap hmnone htext
    fun _ => hmfits
  refine ⟨p₄, ?_, hb₁.trans (PoolsBecame.trans (hb₂.trans hb₃).pools hb₄), ?_⟩
  · simp only [stageKv, bind, EStateM.bind, hok₁, onHeap, hok₂, hok₃, hok₄]
    rfl
  · intro z hkv hres
    refine ⟨hkv, _, ho₄, rfl, rfl, ?_, ?_, le_max_right _ _, fun _ => le_max_right _ _⟩
    · rw [hres]
      rfl
    · rw [hres]
      rfl

/-! ## The session -/

theorem Prepared.payloads (hprep : Prepared prompt) (hm : prompt.hasMedia = true)
    (payloads : List (Option Nat)) : Prepared { prompt with mediaPayloads := payloads } := by
  cases hprep with
  | text _ _ _ items _ =>
    rw [PreparedPromptData.hasMedia, items] at hm
    cases hm
  | media types items spans assigned => exact .media types items spans assigned

/-- A plan with media asks for a transient region. -/
theorem Accepted.region (ha : Accepted cfg prompt options base)
    (hp : PlanOk cfg x prompt base plan) (ht : Satisfies plan transient)
    (hv : plan.vision.isSome = true) :
    transient.data = true ∧ base.visionTransientBytes ≤ transient.size ∧
      kWorkspaceAlignment ≤ transient.alignment := by
  have hm := ha.hasMedia hp hv
  have hbytes : plan.summary.transientBytes = base.visionTransientBytes := by
    rw [hp.transient, if_pos hv]
  have hne : base.visionTransientBytes ≠ 0 := by
    have hnil : prompt.visionItems ≠ [] := by
      simpa [PreparedPromptData.hasMedia] using hm
    obtain ⟨item, hi⟩ := List.exists_mem_of_ne_nil _ hnil
    have hfits := ha.media.fits item hi
    have hlast := (ha.media.placed.between hi).1
    have hpos := List.length_pos_of_mem hlast
    have := Nat.mul_pos cfg.outHidden_pos hpos
    unfold itemOutputBytes at hfits
    omega
  obtain ⟨h₁, h₂, h₃⟩ := ht (by rw [hbytes]; exact hne)
  refine ⟨h₁, hbytes ▸ h₂, ?_⟩
  rw [hp.alignment hv] at h₃
  exact h₃

/-- **The session of a prefill** starts at the reuse base. -/
theorem MediaOk.session (hm : MediaOk cfg prompt base) (b : Nat)
    (hsize : base.visionTransientBytes ≤ transient.size) :
    SessionInv cfg.outHidden
      { prompt with
        mediaPayloads := usedPayloads prompt
          (visionUses (decide (cfg.backend = .mtp)) b prompt.controls) }
      ⟨prompt.controls, visionUses (decide (cfg.backend = .mtp)) b prompt.controls⟩ transient {}
      b := by
  have hitem : ∀ use ∈ visionUses (decide (cfg.backend = .mtp)) b prompt.controls,
      use.itemIndex < prompt.visionItems.length := by
    intro use hu
    obtain ⟨control, hc, -⟩ := mem_visionUses.mp hu
    have hlt := (List.getElem?_eq_some_iff.mp hc).1
    simpa [PreparedPromptData.controls] using hlt
  refine
    { placed := hm.placed, control := rfl, uses := hm.usesOrdered b, index := hitem, covers := ?_
      fits := ?_, active := by rintro _ ⟨⟩, payload := ?_, payloads := ?_, pending := by simp }
  · intro k item hk i hi hbi
    have hmem := List.mem_of_getElem? hk
    obtain ⟨hfirst, hlast⟩ := (hm.placed.between hmem).2 i hi
    have hc : prompt.controls[k]? = some (item.control item.scatterIndices) := by
      rw [PreparedPromptData.controls, List.getElem?_map, hk, Option.map_some]
    refine ⟨⟨useBegin _ (item.control item.scatterIndices).first,
      (item.control item.scatterIndices).last + 1, k⟩,
      mem_visionUses.mpr ⟨_, hc, by omega, rfl⟩, rfl, ?_, by dsimp only; omega⟩
    exact (useBegin_le _ _).trans hfirst
  · intro use _ item hk
    exact (hm.fits item (List.mem_of_getElem? hk)).trans hsize
  · intro use hu _ item hk
    have hk' : prompt.visionItems[use.itemIndex]? = some item := hk
    simp only [usedPayloads, List.getElem?_mapIdx, hm.payloads, List.getElem?_map, hk', Option.map_some]
    rw [if_pos (List.any_eq_true.mpr ⟨use, hu, by simp⟩)]
  · simp [usedPayloads, hm.payloads]

/-- The payloads that the plan does not use are released, and the session is created. -/
theorem stageSession_spec (hprep : Prepared prompt) (ha : Accepted cfg prompt options base)
    (hp : PlanOk cfg x prompt base plan) (ht : Satisfies plan transient) :
    ∃ payloads session,
      releaseUnused prompt plan.vision = .ok { prompt with mediaPayloads := payloads } ∧
      createSession plan.vision transient = .ok session ∧
      Prepared { prompt with mediaPayloads := payloads } ∧
      ∀ staged : Prefill, staged.prompt = { prompt with mediaPayloads := payloads } →
        staged.vision = session → staged.visionPlan = plan.vision →
        staged.transient = transient → staged.base = plan.reuseBase →
        staged.cursor = plan.reuseBase → SessionAt cfg staged := by
  have hsuffix : suffixHasVisual prompt plan.reuseBase = plan.vision.isSome := by
    rw [hp.vision]
    exact ha.media.suffix_visual hprep _ _
  have hplan := hp.vision
  rw [hp.prepareMtp, ha.media.visionControl] at hplan
  by_cases huses : visionUses (decide (cfg.backend = .mtp)) plan.reuseBase prompt.controls = []
  · rw [if_pos huses] at hplan
    have htext : ∀ payloads (staged : Prefill),
        staged.prompt = { prompt with mediaPayloads := payloads } → staged.vision = none →
        staged.visionPlan = plan.vision → staged.base = plan.reuseBase → SessionAt cfg staged := by
      intro payloads staged h₁ h₂ h₃ h₄
      refine .text h₂ (h₃.trans hplan) ?_
      rw [h₁, h₄]
      exact hsuffix.trans (by rw [hplan]; rfl)
    rw [hplan]
    rw [hplan] at htext
    by_cases hm : prompt.hasMedia = true
    · refine ⟨_, none, congrArg Except.ok (if_pos hm), rfl, hprep.payloads hm _, ?_⟩
      intro staged h₁ h₂ h₃ _ h₅ _
      exact htext _ staged h₁ h₂ h₃ h₅
    · refine ⟨prompt.mediaPayloads, none, congrArg Except.ok (if_neg hm), rfl, hprep, ?_⟩
      intro staged h₁ h₂ h₃ _ h₅ _
      exact htext _ staged h₁ h₂ h₃ h₅
  · rw [if_neg huses] at hplan
    have hsome : plan.vision.isSome = true := by rw [hplan]; rfl
    have hm := ha.hasMedia hp hsome
    obtain ⟨hdata, hsize, halign⟩ := ha.region hp ht hsome
    have hinv := ha.media.session plan.reuseBase hsize
    rw [hplan]
    refine ⟨usedPayloads prompt (visionUses (decide (cfg.backend = .mtp)) plan.reuseBase
      prompt.controls), some {}, ?_, ?_, hprep.payloads hm _, ?_⟩
    · unfold releaseUnused
      rw [check_bind_eq_ok]
      refine ⟨?_, rfl⟩
      intro use hu
      have := hinv.index use hu
      rw [ha.media.payloads, List.length_map]
      exact this
    · have hcontrols : prompt.controls ≠ [] := by
        intro hnil
        rw [hnil] at huses
        exact huses rfl
      simp [createSession, VisionPrefillSession.create, hcontrols, huses, hdata,
        Nat.not_lt.mpr halign, Except.map]
    · intro staged h₁ h₂ h₃ h₄ h₅ h₆
      refine .media {} _ h₂ h₃ ?_ ?_ ?_
      · rw [h₁, h₅]
        exact hsuffix.trans hsome
      · intro hb
        have := ha.media.enabled hm
        rw [cfg.dflash_text hb] at this
        cases this
      · rw [h₁, h₄, h₆]
        exact hinv

/-! ## The staged lane -/

/-- The checkpoint of a staged lane lies in the part that is reused. -/
theorem Resumed.checkpointed {y : Lane}
    (ha : Accepted cfg prompt options base) (hp : PlanOk cfg x prompt base plan)
    (hr : Resumed cfg x prompt plan y) :
    (plan.rewriteCheckpointCapture.isSome = true →
      y.rewriteCheckpoint.act plan.rewriteCheckpointAction prompt.identity.rewriteCheckpoint = {}) ∧
    (plan.reuse = .fullReset →
      y.rewriteCheckpoint.act plan.rewriteCheckpointAction prompt.identity.rewriteCheckpoint = {}) ∧
    ((y.rewriteCheckpoint.act plan.rewriteCheckpointAction
        prompt.identity.rewriteCheckpoint).valid = true →
      x.rewriteCheckpoint.valid = true ∧
        (y.rewriteCheckpoint.act plan.rewriteCheckpointAction
          prompt.identity.rewriteCheckpoint).frontier = x.rewriteCheckpoint.frontier) ∧
    ∀ spec ∈ plan.rewriteCheckpointCapture,
      plan.reuseBase < spec.frontier ∧ spec.frontier ≤ prompt.size := by
  have haction := hp.action
  rw [ha.checkpoint] at haction
  unfold checkpointAction at haction
  rw [hr.checkpoint]
  cases hspec : prompt.identity.rewriteCheckpoint with
  | none =>
    rw [hspec] at haction
    have hact : plan.rewriteCheckpointAction = .drop := congrArg Prod.fst haction
    have hcap : plan.rewriteCheckpointCapture = none := congrArg Prod.snd haction
    rw [hact, hcap]
    exact ⟨nofun, fun _ => rfl, nofun, nofun⟩
  | some spec =>
    rw [hspec] at haction
    have hfrontier := ha.frontier spec hspec
    dsimp only at haction
    split_ifs at haction with hkeep hkind hcapture
    · have hact : plan.rewriteCheckpointAction = .keepExisting := congrArg Prod.fst haction
      have hcap : plan.rewriteCheckpointCapture = none := congrArg Prod.snd haction
      rw [hact, hcap]
      exact ⟨nofun, fun hreset => absurd hreset hkeep.1, fun hv => ⟨hv, rfl⟩, nofun⟩
    · have hact : plan.rewriteCheckpointAction = .reclassifyExisting := congrArg Prod.fst haction
      have hcap : plan.rewriteCheckpointCapture = none := congrArg Prod.snd haction
      rw [hact, hcap]
      exact ⟨nofun, fun hreset => absurd hreset hkeep.1, fun hv => ⟨hv, rfl⟩, nofun⟩
    · have hact : plan.rewriteCheckpointAction = .captureNew := congrArg Prod.fst haction
      have hcap : plan.rewriteCheckpointCapture = some spec := congrArg Prod.snd haction
      rw [hact, hcap]
      refine ⟨fun _ => rfl, fun _ => rfl, nofun, ?_⟩
      rintro _ ⟨⟩
      exact ⟨hcapture, hfrontier.2⟩
    · have hact : plan.rewriteCheckpointAction = .deferCapture := congrArg Prod.fst haction
      have hcap : plan.rewriteCheckpointCapture = none := congrArg Prod.snd haction
      rw [hact, hcap]
      refine ⟨nofun, fun hreset => ?_, fun hv => ⟨hv, rfl⟩, nofun⟩
      have := hp.reuse.reset hreset
      omega

/-- DFlash runs prompts without media only, and these have the rope delta zero. -/
theorem Accepted.ropeDelta (ha : Accepted cfg prompt options base) (hprep : Prepared prompt)
    (hb : cfg.backend = .dflash) : prompt.ropeDelta = 0 := by
  refine hprep.ropeDelta_of_text ha.size_pos fun j => ?_
  by_contra hne
  obtain ⟨item, hi, -⟩ := hprep.covered hne
  have hm : prompt.hasMedia = true := by
    cases hitems : prompt.visionItems with
    | nil =>
      rw [hitems] at hi
      cases hi
    | cons => simp [PreparedPromptData.hasMedia, hitems]
  have := ha.media.enabled hm
  rw [cfg.dflash_text hb] at this
  cases this

/-- The bridge of a staged prefill. -/
theorem Resumed.bridge {y z : Lane} {staged : Prefill} (hr : Resumed cfg x prompt plan y)
    (ha : Accepted cfg prompt options base) (hp : PlanOk cfg x prompt base plan)
    (hmtp : z.mtpKvValid = y.mtpKvValid) (hdflash : z.dflashContextFrontier = y.dflashContextFrontier)
    (htail : z.tailHiddenValid = (decide (plan.reuseBase = prompt.size) && y.tailHiddenValid))
    (hbase : staged.base = plan.reuseBase) (hcursor : staged.cursor = plan.reuseBase)
    (hsize : staged.promptTokens = prompt.size) (hbridge : staged.mtpBridge = plan.mtpBridge) :
    BridgeAt cfg z staged := by
  have hle := hp.reuse.base_le
  have hpos := ha.size_pos
  have hplan := hp.bridge
  rw [ha.promptTokens, planBridge] at hplan
  have htrue : plan.reuseBase = prompt.size → z.tailHiddenValid = true := by
    intro heq
    rw [htail, hr.tail heq]
    simp [heq]
  split_ifs at hplan with hm hlt
  · -- The drafts continue before the suffix.
    refine .before (hbridge.trans hplan) hm.1 (by omega) ?_ (by omega) ?_
    · have := (hp.reuse.resident hm.2).2.1
      omega
    · rw [hmtp, hbase]
      exact hr.mtp hm.1
  · have heq : plan.reuseBase = prompt.size := by
      dsimp only at hlt
      omega
    exact .after (hbridge.trans hplan) hm.1 (by omega) (by omega) (htrue heq)
  · have hnone := hbridge.trans hplan
    have hreached : BackendAt cfg z staged.cursor := by
      refine ⟨fun hb => ?_, fun hb => ?_⟩
      · have hreset : plan.reuse = .fullReset := by
          by_contra hne
          exact hm ⟨hb, hne⟩
        have hzero := hp.reuse.reset hreset
        rw [hmtp, hr.mtp hb, hcursor, hzero]
      · rw [hdflash, hr.dflash hb, hcursor]
    by_cases heq : plan.reuseBase = prompt.size
    · refine .hit hnone (fun hb => ?_) hreached (by omega) (by omega) (htrue heq)
      have hreset : plan.reuse = .fullReset := by
        by_contra hne
        exact hm ⟨hb, hne⟩
      have := hp.reuse.reset hreset
      omega
    · exact .none hnone hreached (by omega)

/-- The prefill of a plan, staged on the lane `z` that was the lane `x`. -/
structure StagedFrom (x : Lane) (prompt : PreparedPromptData) (plan : RequestPlan) (z : Lane)
    (staged : Prefill) : Prop where
  prefill : z.prefill = some staged
  cursor : staged.cursor = staged.base
  base : staged.base = plan.reuseBase
  promptTokens : staged.promptTokens = prompt.size
  payloads : ∃ payloads, staged.prompt = { prompt with mediaPayloads := payloads }
  capture : staged.rewriteCheckpointCapture = plan.rewriteCheckpointCapture
  vision : staged.visionPlan = plan.vision
  checkpoint : z.rewriteCheckpoint =
    x.rewriteCheckpoint.act plan.rewriteCheckpointAction prompt.identity.rewriteCheckpoint
  device : z.device =
    (resumedDevice x.device prompt plan).cut (pagesForTokens plan.reuseBase * kPagedKVPageSize)
  reserved : z.reserved = plan.pages

/-- **The staged lane.** -/
theorem stageLane_spec {y : Lane} {h' : KvHeap n} (hprep : Prepared prompt)
    (ha : Accepted cfg prompt options base) (hp : PlanOk cfg x prompt base plan)
    (ht : Satisfies plan transient) (hf : FreeLane cfg h l x) (hr : Resumed cfg x prompt plan y)
    (hbound : ∀ z : Lane, z.kv = some cfg.bundle → z.reserved = plan.pages →
      Bound cfg h' l z prompt.size (backendMaterialized cfg prompt.size
        (initialMtpExtent cfg prompt.size plan.summary.effectiveOutputTokens))) :
    ∃ z staged, stageLane cfg y cfg.bundle prompt plan transient = .ok z ∧
      StagedFrom x prompt plan z staged ∧
      PrefillingLane cfg h' l z staged plan.summary.effectiveOutputTokens := by
  have hsize := ha.size_le
  have hrope := hprep.ropeDelta_bounds ha.size_pos
  have hidentity : ResidentPrefixIdentity.assign prompt =
      .ok ⟨prompt.tokenTypes, prompt.positions, prompt.visionItems⟩ := by
    unfold ResidentPrefixIdentity.assign
    rw [if_neg]
    simp [hprep.types_length, hprep.positions_length]
  have hbundle : cfg.backend = .dflash → cfg.bundle.backend = true := by
    intro hb
    simp [Config.bundle, Config.hasBackend, hb]
  obtain ⟨payloads, session, hreleased, hcreated, hprep', hsession⟩ :=
    stageSession_spec hprep ha hp ht
  obtain ⟨hfresh, hreset, hkept, hcapture⟩ := hr.checkpointed ha hp
  have hbasele := hp.reuse.base_le
  have houtput : reservedContextTokens cfg prompt options =
      prompt.size + (plan.summary.effectiveOutputTokens - 1) := by
    rw [reservedContextTokens, hp.output, ha.output]
  -- A checkpoint that survives is that of the resident sequence.
  have hcomplete : (y.rewriteCheckpoint.act plan.rewriteCheckpointAction
      prompt.identity.rewriteCheckpoint).valid = true →
      CompleteLane cfg h l x ∧ plan.reuse ≠ .fullReset := by
    intro hv
    have hne : plan.reuse ≠ .fullReset := by
      intro heq
      rw [hreset heq] at hv
      cases hv
    exact ⟨hf.complete (hp.reuse.resident hne).1, hne⟩
  apply Exists.intro
  apply Exists.intro
  apply And.intro
  · unfold stageLane
    simp only [bind_eq_ok]
    exact ⟨_, hidentity, (), check_of hbundle, _, hreleased, _, hcreated, rfl⟩
  · refine ⟨⟨rfl, rfl, rfl, rfl, ⟨payloads, rfl⟩, rfl, rfl, ?_, ?_, rfl⟩, ?_⟩
    · dsimp only
      rw [hr.checkpoint]
    · dsimp only
      rw [hr.device]
    exact
      { lifecycle := rfl, retained := hr.retained, prepared := hprep', types := ha.media.types
        size_pos := ha.size_pos, size := rfl
        sized :=
          { ledger := rfl, types := hprep.types_length, positions := hprep.positions_length
            placed := ha.media.placed
            rope := ⟨by dsimp only; omega, hrope.2⟩, dflash := ha.ropeDelta hprep }
        ledger := rfl, identity := rfl, ropeDelta := rfl, base_le := Nat.le_refl _
        cursor_le := hbasele, textKvValid := hr.textKvValid, prepareMtp := hp.prepareMtp
        extent := rfl
        bridge := hr.bridge ha hp rfl rfl rfl rfl rfl rfl rfl
        session := hsession _ rfl rfl rfl rfl rfl rfl
        capture := hcapture, fresh := hfresh
        checkpoint := by
          intro hv
          obtain ⟨hc, hne⟩ := hcomplete hv
          obtain ⟨hvalid, hfront⟩ := hkept hv
          have hin := hc.checkpoint hvalid
          refine ⟨hfront.symm ▸ hin.1, hfront.symm ▸ ?_⟩
          cases hreuse : plan.reuse with
          | fullReset => exact absurd hreuse hne
          | appendAtFrontier => exact (hp.reuse.append hreuse).1 ▸ hin.2
          | restoreTurnCheckpoint | restoreResponseCheckpoint =>
            exact (hp.reuse.restore (by rw [hreuse]; rfl)).2.1.le
        resident := by
          intro hv
          obtain ⟨hvalid, hfront⟩ := hkept hv
          have hin := (hcomplete hv).1.checkpoint hvalid
          rw [← hr.frontier] at hin
          exact ⟨hfront.symm ▸ hin.1, hfront.symm ▸ hin.2⟩
        given := by simp
        fits := houtput ▸ ha.fits hp
        bound := hbound _ rfl rfl }

/-- **A prefill is staged** for every plan made for the lane, if `can_admit_lane` holds. -/
theorem stagePrefill_spec {s : Program n} (hi : KvInv cfg s.pools.heap)
    (hf : FreeLane cfg s.pools.heap l (s.lanes l)) (hprep : Prepared prompt)
    (ha : Accepted cfg prompt options base) (hp : PlanOk cfg (s.lanes l) prompt base plan)
    (ht : Satisfies plan transient) (hadmits : canAdmitLane cfg s l plan = true) :
    ∃ s' staged, stagePrefill cfg l prompt plan transient s = .ok () s' ∧ Stepped cfg l s s' ∧
      s'.ropeDelta = prompt.ropeDelta ∧ s'.prefills = s.prefills ∧
      StagedFrom (s.lanes l) prompt plan (s'.lanes l) staged ∧
      PrefillingLane cfg s'.pools.heap l (s'.lanes l) staged
        plan.summary.effectiveOutputTokens := by
  unfold canAdmitLane at hadmits
  rw [Bool.and_eq_true, Bool.and_eq_true] at hadmits
  obtain ⟨⟨-, hct⟩, hcb⟩ := hadmits
  have hcb' : cfg.hasBackend = true →
      CanReplace s.pools.heap l .backend plan.backendKvPageEntitlement := by
    intro hbk
    rw [if_pos hbk] at hcb
    exact hcb
  obtain ⟨y, hreuse, hr⟩ := stageReuse_spec hf ha.size_pos hp
  obtain ⟨p', hkv, hpools, hbound⟩ := stageKv_spec hi hf ha hp hr hct hcb'
  obtain ⟨z, staged, hlane, hstaged, hpre⟩ :=
    stageLane_spec hprep ha hp ht hf hr hbound
  have hz : Function.update s.lanes l z l = z := Function.update_self ..
  refine ⟨{ ({ s with pools := p' } : Program n).setLane l z with ropeDelta := prompt.ropeDelta },
    staged, ?_, ?_, rfl, rfl, ?_, ?_⟩
  · simp only [stagePrefill, hreuse, hkv, hlane]
  · exact
      { inv := hpools.inv, only := hpools.only, calls := hpools.calls
        lanes := fun m hm => Function.update_of_ne hm .., egress := rfl
        writes := fun _ => Or.inl, prefills := fun _ => Or.inl }
  · show StagedFrom (s.lanes l) prompt plan (Function.update s.lanes l z l) staged
    rw [hz]
    exact hstaged
  · rw [show (_ : Program n).lanes l = z from hz]
    exact hpre

end Start

end Ninfer.Qwen
