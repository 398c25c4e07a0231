import Ninfer.Qwen.Admission
import Ninfer.Qwen.GraphProfiles

/-!
# The pool of the speculative backend

A request is entitled to pages in the text pool and in the pool of the backend. Drafting looks
ahead of the text, so that a lane may have more pages in the pool of the backend than in the text
pool, but never more than the lookahead takes; a retained lane has as many in both. The plan makes
the pool of the backend larger by the lookahead of every lane. Whatever fits in the text pool
therefore fits in the pool of the backend, and admission is decided by the text pool and the lanes.

## Main definitions

* `lookaheadPages`: the pages by which a lane may be ahead in the pool of the backend
* `Realizes`: the pools of a program are those of a plan

## Main results

* `Realizes.backend_eq`: the pool of the backend is larger by the lookahead of every lane
* `Reachable.entitlement_le`: no lane is further ahead
* `Reachable.backend_pool_suffices`: the text pool decides
-/

namespace Ninfer.Qwen

open PagedKV
open Executor (AdmissionResources admissionResourcesFit)
open Layouts (Variant SequencePlanningInputs PersistentLayout PagedKVPoolLayout SequencePlan Leaves
  persistentLayout buildSequenceCandidate)

/-! ## The pools of a plan -/

/-- `backend_kv_cache`. -/
def Layouts.PersistentLayout.backendPool (layout : PersistentLayout)
    (backend : SpeculativeBackend) : Option PagedKVPoolLayout :=
  match backend with
  | .none => none
  | .mtp => layout.decoder.mtpKv
  | .dflash => layout.dflash.map fun dflash => dflash.full

section Pools

variable {α : Type} {builder builder' : Core.LayoutBuilder}

theorem planIf_ok {p : Prop} [Decidable p] {c : Call Core.LayoutBuilder α} {a : Option α}
    (h : Layouts.planIf p c builder = .ok a builder') :
    (p ∧ ∃ x, a = some x ∧ c builder = .ok x builder') ∨ (¬p ∧ a = none) := by
  unfold Layouts.planIf at h
  split_ifs at h with hp
  · obtain ⟨x, t, hx, h⟩ := Call.exists_of_bind_ok (f := fun x => pure (some x)) h
    cases h
    exact Or.inl ⟨hp, x, rfl, hx⟩
  · cases h
    exact Or.inr ⟨hp, rfl⟩

theorem planPagedKVPool_spec_eq {spec : Layouts.PagedKVPoolSpec} {layout : PagedKVPoolLayout}
    (h : Layouts.planPagedKVPool spec builder = .ok layout builder') : layout.spec = spec := by
  obtain ⟨⟨⟩, t, -, h⟩ := Call.exists_of_bind_ok h
  obtain ⟨⟨⟩, t, -, h⟩ := Call.exists_of_bind_ok h
  obtain ⟨⟨⟩, t, -, h⟩ := Call.exists_of_bind_ok h
  obtain ⟨⟨⟩, t, -, h⟩ := Call.exists_of_bind_ok h
  obtain ⟨planes, t, -, h⟩ := Call.exists_of_bind_ok h
  obtain ⟨tables, t, -, h⟩ := Call.exists_of_bind_ok h
  cases h
  rfl

theorem planCache_pages {layers capacity kvHeads headDim quantGroup rows pages : Nat}
    {dtype : Core.DType} {layout : PagedKVPoolLayout}
    (h : Layouts.planCache layers capacity kvHeads headDim dtype quantGroup rows pages builder =
      .ok layout builder') : layout.spec.pageGroupCount = pages := by
  obtain ⟨⟨⟩, t, -, h⟩ := Call.exists_of_bind_ok h
  obtain ⟨⟨⟩, t, -, h⟩ := Call.exists_of_bind_ok h
  obtain ⟨logical, t, -, h⟩ := Call.exists_of_bind_ok h
  obtain ⟨⟨⟩, t, -, h⟩ := Call.exists_of_bind_ok h
  rw [planPagedKVPool_spec_eq h]

variable {v : Variant} {inputs : SequencePlanningInputs} {pages : Nat} {layout : PersistentLayout}

/-- The lookahead of drafting, in pages. -/
def lookahead (backend : SpeculativeBackend) (draftWindow : Nat) : Nat :=
  if backend = .mtp then (draftWindow - 1 + kPagedKVPageSize - 1) / kPagedKVPageSize else 0

/-- The pools of a plan: the text pool has the planned pages, and that of the backend the lookahead
of every lane in addition. -/
theorem persistentLayout_pools (h : persistentLayout v inputs pages = .ok layout) :
    layout.decoder.textKv.spec.pageGroupCount = pages ∧
      ∀ pool, layout.backendPool inputs.backend = some pool →
        pool.spec.pageGroupCount =
          pages + inputs.maxConcurrency * lookahead inputs.backend inputs.draftWindow := by
  obtain ⟨slots, -, h⟩ := bind_eq_ok.mp h
  obtain ⟨logical, -, h⟩ := bind_eq_ok.mp h
  obtain ⟨mtpPages, hmtpPages, h⟩ := bind_eq_ok.mp h
  obtain ⟨-, hmtpPages⟩ := check_bind_eq_ok.mp hmtpPages
  cases hmtpPages
  split at h
  case h_1 => cases h
  case h_2 regions builder hrun =>
    obtain ⟨bytes, -, h⟩ := bind_eq_ok.mp h
    cases h
    obtain ⟨decoder, t₁, hdecoder, hrun⟩ := Call.exists_of_bind_ok hrun
    obtain ⟨replay, t₂, -, hrun⟩ := Call.exists_of_bind_ok hrun
    obtain ⟨dflash, t₃, hdflash, hrun⟩ := Call.exists_of_bind_ok hrun
    obtain ⟨begun, t₄, -, hrun⟩ := Call.exists_of_bind_ok hrun
    obtain ⟨hidden, t₅, -, hrun⟩ := Call.exists_of_bind_ok hrun
    obtain ⟨completed, t₆, -, hrun⟩ := Call.exists_of_bind_ok hrun
    obtain ⟨tail, t₇, -, hrun⟩ := Call.exists_of_bind_ok hrun
    cases hrun
    obtain ⟨textKv, t₁, htext, hdecoder⟩ := Call.exists_of_bind_ok hdecoder
    obtain ⟨mtpKv, t₂, hmtp, hdecoder⟩ := Call.exists_of_bind_ok hdecoder
    obtain ⟨linear, t₃, -, hdecoder⟩ := Call.exists_of_bind_ok hdecoder
    cases hdecoder
    refine ⟨planCache_pages htext, fun pool hpool => ?_⟩
    unfold lookahead
    cases hb : inputs.backend with
    | none =>
      rw [hb] at hpool
      cases hpool
    | mtp =>
      rw [hb] at hpool
      rcases planIf_ok hmtp with ⟨-, mtp, rfl, hcache⟩ | ⟨hno, -⟩
      · cases hpool
        rw [planCache_pages hcache, if_pos hb, if_pos rfl]
      · exact absurd hb hno
    | dflash =>
      rw [hb] at hpool
      unfold Layouts.planVariantDFlash at hdflash
      cases hv : v.dflash with
      | none =>
        simp only [hv] at hdflash
        cases hdflash
        cases hpool
      | some config =>
        simp only [hv] at hdflash
        rcases planIf_ok hdflash with ⟨-, state, rfl, hstate⟩ | ⟨hno, -⟩
        · obtain ⟨cache, u₁, -, hstate⟩ := Call.exists_of_bind_ok hstate
          obtain ⟨checkpoint, u₂, -, hstate⟩ := Call.exists_of_bind_ok hstate
          obtain ⟨full, u₃, hfull, hstate⟩ := Call.exists_of_bind_ok hstate
          obtain ⟨features, u₄, -, hstate⟩ := Call.exists_of_bind_ok hstate
          cases hstate
          cases hpool
          dsimp only
          rw [planPagedKVPool_spec_eq hfull]
          rfl
        · exact absurd hb hno

end Pools

/-- The pools of a program are those of a plan. -/
structure Realizes {n : Nat} (cfg : Config n) (inputs : SequencePlanningInputs)
    (layout : PersistentLayout) : Prop where
  lanes : inputs.maxConcurrency = n
  capacity : inputs.capacity = cfg.capacity
  backend : inputs.backend = cfg.backend
  draftWindow : inputs.draftWindow = cfg.draftWindow
  textPool : (cfg.pools .text).pageGroupCount = layout.decoder.textKv.spec.pageGroupCount
  backendPool : ∃ pool, layout.backendPool inputs.backend = some pool ∧
    (cfg.pools .backend).pageGroupCount = pool.spec.pageGroupCount

variable {n : Nat} (cfg : Config n)

/-- The pages by which a lane may be ahead in the pool of the backend. -/
def lookaheadPages : Nat := lookahead cfg.backend cfg.draftWindow

variable {cfg} {s : System n} {l : Fin n}

/-- The pool of the backend is larger by the lookahead of every lane. -/
theorem Realizes.backend_eq {v : Variant} {inputs : SequencePlanningInputs} {pages : Nat}
    {layout : PersistentLayout} (h : Realizes cfg inputs layout)
    (hlayout : persistentLayout v inputs pages = .ok layout) :
    (cfg.pools .backend).pageGroupCount =
      (cfg.pools .text).pageGroupCount + n * lookaheadPages cfg := by
  obtain ⟨htext, hbackend⟩ := persistentLayout_pools hlayout
  obtain ⟨pool, hpool, hcount⟩ := h.backendPool
  rw [hcount, hbackend pool hpool, h.textPool, htext, h.lanes, h.backend, h.draftWindow,
    lookaheadPages]

/-! ## How far a lane is ahead -/

theorem pagesForTokens_add (a b : Nat) :
    pagesForTokens (a + b) ≤ pagesForTokens a + (b + kPagedKVPageSize - 1) / kPagedKVPageSize := by
  unfold pagesForTokens kPagedKVPageSize
  split_ifs with hab ha ha
  · omega
  · omega
  · omega
  · omega

/-- What is reserved for a request in the cache of the backend. -/
theorem reservedBackend_le (cfg : Config n) {tokens : Nat} (hpos : 0 < tokens) :
    pagesForTokens (reservedBackendTokens cfg tokens) ≤
      pagesForTokens tokens + lookaheadPages cfg := by
  unfold reservedBackendTokens lookaheadPages lookahead
  cases hb : cfg.backend with
  | none => exact Nat.zero_le _
  | mtp =>
    have hdraft := cfg.draftWindow_pos (by rw [hb]; decide)
    have htokens : tokens + cfg.draftWindow - 1 = tokens + (cfg.draftWindow - 1) := by omega
    have hadd := pagesForTokens_add tokens (cfg.draftWindow - 1)
    dsimp only
    rw [htokens, if_pos rfl]
    exact (pagesForTokens_mono (Nat.min_le_right ..)).trans hadd
  | dflash => exact Nat.le_add_right ..

/-- Resources whose backend pages are not further ahead of the text pages. -/
def Ahead (cfg : Config n) (r : AdmissionResources) : Prop :=
  r.backendKvPages ≤ r.mainKvPages + lookaheadPages cfg

theorem Accepted.ahead {prompt : PreparedPromptData} {options : ExecutionOptions}
    {base : RequestBasePlan} (ha : Accepted cfg prompt options base) :
    Ahead cfg base.summary.admission := by
  rw [Ahead, ha.admission, ha.textPages, ha.backendPages]
  apply reservedBackend_le
  have hpos := ha.size_pos
  unfold reservedContextTokens
  omega

/-- The requests in the slots are not further ahead. -/
def AllAhead (cfg : Config n) (s : System n) : Prop :=
  ∀ l, Ahead cfg (s.accounts l).admission

theorem ahead_empty : Ahead cfg {} := Nat.zero_le _

theorem AllAhead.setAccount (h : AllAhead cfg s) {account : Account}
    (ha : Ahead cfg account.admission) : AllAhead cfg (s.setAccount l account) := by
  intro m
  by_cases hm : m = l
  · subst hm
    simpa only [System.setAccount, Function.update_self] using ha
  · simpa only [System.setAccount, Function.update_of_ne hm] using h m

/-- A call keeps the requests in the slots from getting further ahead. -/
def KeepsAhead {α : Type} (cfg : Config n) (c : Call (System n) α) : Prop :=
  ∀ s, AllAhead cfg s → c.Ensures s (fun _ => AllAhead cfg) fun _ => AllAhead cfg

section Keeps

variable {α β : Type} {c : Call (System n) α} {f : α → Call (System n) β}

theorem keepsAhead_bind (hc : KeepsAhead cfg c) (hf : ∀ a, KeepsAhead cfg (f a)) :
    KeepsAhead cfg (c >>= f) := by
  intro s hs
  apply Call.ensures_bind
  exact (hc s hs).imp (fun a t ht => hf a t ht) fun _ _ ht => ht

theorem keepsAhead_pure (a : α) : KeepsAhead cfg (pure a) := fun _ hs => hs

theorem keepsAhead_modify {g : System n → System n} (h : ∀ s, AllAhead cfg s → AllAhead cfg (g s)) :
    KeepsAhead cfg (modify g) := fun s hs => h s hs

/-- A call of the program leaves the slots alone. -/
theorem keepsAhead_onProgram (c : Call (Program n) α) : KeepsAhead cfg (onProgram c) := by
  intro s hs
  unfold Call.Ensures onProgram
  cases c s.program with
  | ok a p => exact hs
  | error e p => exact hs

theorem keepsAhead_consumeServiceWork (l : Fin n) (work : Nat) :
    KeepsAhead cfg (consumeServiceWork l work) := by
  intro s hs
  unfold Call.Ensures consumeServiceWork
  by_cases h : work = 0 ∨ (s.accounts l).remaining < work
  · simp only [if_pos h]
    exact hs
  · simp only [if_neg h]
    exact hs.setAccount (hs l)

theorem AllAhead.release (h : AllAhead cfg s) : AllAhead cfg (s.release l) :=
  AllAhead.setAccount (s := s.setSlot l {}) h ahead_empty

theorem keepsAhead_resolvePrefillStep (l : Fin n) (step : PrefillStep) :
    KeepsAhead cfg (resolvePrefillStep l step) := by
  apply keepsAhead_bind (keepsAhead_consumeServiceWork l 1)
  intro _
  apply keepsAhead_modify
  intro s hs
  exact AllAhead.setAccount hs (hs l)

theorem keepsAhead_commitDecoded (l : Fin n) (row : Resolution) :
    KeepsAhead cfg (commitDecoded l row) := by
  have hrow : ∀ {last : Unit → Call (System n) Unit}, (∀ u, KeepsAhead cfg (last u)) →
      KeepsAhead cfg (do
        modify fun s => s.setSlot l { s.slots l with budget := (s.slots l).budget - row.accepted }
        consumeServiceWork l row.accepted
        let u ← modify fun s => s.setAccount l
          { s.accounts l with accepted := (s.accounts l).accepted + row.accepted }
        last u) := by
    intro last hlast
    refine keepsAhead_bind (keepsAhead_modify ?_) fun _ => ?_
    · exact fun s hs => hs
    refine keepsAhead_bind (keepsAhead_consumeServiceWork l row.accepted) fun _ => ?_
    refine keepsAhead_bind (keepsAhead_modify ?_) hlast
    exact fun s hs => AllAhead.setAccount hs (hs l)
  have hrelease : KeepsAhead cfg (modify (·.release l) : Call (System n) Unit) :=
    keepsAhead_modify fun s hs => hs.release
  unfold commitDecoded
  dsimp only
  split_ifs
  · exact hrelease
  · exact keepsAhead_pure ()
  · exact hrow fun _ => hrelease
  · exact hrow fun _ => keepsAhead_pure ()

theorem keepsAhead_forM (rows : List (Fin n × Resolution)) :
    KeepsAhead cfg (rows.forM fun row => commitDecoded row.1 row.2) := by
  induction rows with
  | nil => exact keepsAhead_pure ()
  | cons row rows ih => exact keepsAhead_bind (keepsAhead_commitDecoded row.1 row.2) fun _ => ih

/-- An action keeps the requests in the slots from getting further ahead. -/
theorem AllAhead.action (hs : AllAhead cfg s) {action : Action n} (he : action.Enabled cfg s) :
    (action.run cfg).Ensures s (fun _ => AllAhead cfg) fun _ => AllAhead cfg := by
  cases action with
  | start l prompt options base plan transient sampled =>
    obtain ⟨-, -, hbase, hplan, -⟩ := he
    have hadmission := (planRequestForLane_spec hplan).admission
    have hoccupy : AllAhead cfg (s.occupy cfg l plan) := by
      intro m
      by_cases hm : m = l
      · subst hm
        simp only [System.occupy, Function.update_self]
        rw [hadmission]
        exact (planRequestBase_spec hbase).ahead
      · simpa only [System.occupy, Function.update_of_ne hm] using hs m
    have hstart : KeepsAhead cfg (_ >>= _) := keepsAhead_bind
      (keepsAhead_onProgram (startPrefillLane cfg l prompt plan transient sampled))
      fun step => keepsAhead_resolvePrefillStep l step
    apply Call.ensures_bind
    show Call.Ensures _ (s.occupy cfg l plan) _ _
    apply Call.ensures_handle
    exact (hstart _ hoccupy).imp (fun _ _ ht => ht) fun e t ht => ht.release
  | advance l sampled =>
    exact keepsAhead_bind (keepsAhead_onProgram _)
      (fun step => keepsAhead_resolvePrefillStep l step) s hs
  | resolvePrefill l terminal =>
    refine keepsAhead_bind (keepsAhead_onProgram _) (fun _ => keepsAhead_modify ?_) s hs
    intro t ht
    cases terminal with
    | true => exact ht.release
    | false => exact ht
  | decode rows =>
    apply Call.ensures_bind
    show Call.Ensures _ s _ _
    refine keepsAhead_bind (keepsAhead_onProgram _) (fun _ => keepsAhead_modify ?_) s hs
    exact fun t ht => ht
  | resolve rows =>
    refine keepsAhead_bind (keepsAhead_onProgram _) (fun _ => ?_) s hs
    refine keepsAhead_bind (keepsAhead_modify ?_) fun _ => keepsAhead_forM rows
    exact fun t ht => ht
  | abort l =>
    show AllAhead cfg (s.abandon l)
    exact AllAhead.release hs
  | evict l => exact keepsAhead_onProgram (modify (evictRetainedLane l)) s hs

end Keeps

theorem Reachable.allAhead (hr : Reachable cfg s) : AllAhead cfg s := by
  induction hr with
  | refl => exact fun _ => ahead_empty
  | tail _ hstep ih =>
    cases hstep with
    | returned he hrun => simpa only [Call.Ensures, hrun] using ih.action he
    | threw he hrun => exact fun _ => ahead_empty


/-- **No lane is further ahead**: not one with a request, and a retained lane not at all. -/
theorem Reachable.entitlement_le (hr : Reachable cfg s) (hb : cfg.hasBackend = true) (l : Fin n) :
    entitlement s.program l .backend ≤ entitlement s.program l .text + lookaheadPages cfg := by
  have hs := hr.inv
  by_cases hp : (s.slots l).phase = .idle
  · rcases (hs.free hp).1 with he | hc
    · rw [entitlement, he.nothing .backend]
      exact Nat.zero_le _
    · have hvalid : (s.program.lanes l).backendKvValid cfg =
          (s.program.lanes l).executionFrontier := by
        unfold Lane.backendKvValid
        cases hbackend : cfg.backend with
        | none => simp [Config.hasBackend, hbackend] at hb
        | mtp => exact hc.backend.1 hbackend
        | dflash => exact hc.backend.2 hbackend
      have htext : entitlement s.program l .text = _ := hc.resting.owns.text.entitled
      have hback : entitlement s.program l .backend = _ := (hc.resting.owns.backend hb).entitled
      rw [htext, hback, hvalid]
      exact Nat.le_add_right ..
  · rw [hs.entitlement_occupied hp (c := .text) (by rintro ⟨⟩),
      hs.entitlement_occupied hp (c := .backend) fun _ => hb]
    exact hr.allAhead l

/-! ## The text pool decides -/

section Sums

/-- What is entitled in a pool besides one lane. -/
theorem SysInv.entitled_others (hs : SysInv cfg s) (l : Fin n) (c : Cache) :
    (s.program.pools.heap.pools c).entitledPages = entitlement s.program l c +
      ∑ m ∈ Finset.univ.erase l, entitlement s.program m c := by
  rw [hs.kv.entitled_sum c, ← Fin.sum_univ_def,
    ← Finset.add_sum_erase Finset.univ _ (Finset.mem_univ l)]
  rfl

theorem Reachable.others_le (hr : Reachable cfg s) (hb : cfg.hasBackend = true) (l : Fin n) :
    ∑ m ∈ Finset.univ.erase l, entitlement s.program m .backend + lookaheadPages cfg ≤
      ∑ m ∈ Finset.univ.erase l, entitlement s.program m .text + n * lookaheadPages cfg := by
  have hcard : (Finset.univ.erase l).card = n - 1 := by
    rw [Finset.card_erase_of_mem (Finset.mem_univ l), Finset.card_univ, Fintype.card_fin]
  have hle : ∑ m ∈ Finset.univ.erase l, entitlement s.program m .backend ≤
      ∑ m ∈ Finset.univ.erase l, (entitlement s.program m .text + lookaheadPages cfg) :=
    Finset.sum_le_sum fun m _ => hr.entitlement_le hb m
  rw [Finset.sum_add_distrib, Finset.sum_const, hcard, smul_eq_mul] at hle
  have hn : (n - 1) * lookaheadPages cfg + lookaheadPages cfg = n * lookaheadPages cfg := by
    have hpos : 0 < n := l.pos
    rw [← Nat.succ_mul, Nat.succ_eq_add_one, Nat.sub_add_cancel hpos]
  omega

theorem length_occupied_lt (hp : (s.slots l).phase = .idle) : s.occupied.length < n := by
  have hlt : s.occupied.length < (List.finRange n).length := by
    apply List.length_filter_lt_length_iff_exists.mpr
    exact ⟨l, List.mem_finRange l, by simp [hp]⟩
  rw [List.length_finRange] at hlt
  exact hlt

theorem exists_idle_of_length (h : s.occupied.length < n) : ∃ l, (s.slots l).phase = .idle := by
  by_contra hnone
  have hall : s.occupied = List.finRange n :=
    List.filter_eq_self.mpr fun l _ => decide_eq_true fun hl => hnone ⟨l, hl⟩
  rw [hall, List.length_finRange] at h
  exact Nat.lt_irrefl _ h

/-- What the requests in the slots have reserved, with a lane left over. -/
theorem Reachable.committed_le (hr : Reachable cfg s) (hp : (s.slots l).phase = .idle) :
    committedPages s .backend + lookaheadPages cfg ≤
      committedPages s .text + n * lookaheadPages cfg := by
  have hlength : s.occupied.length + 1 ≤ n := length_occupied_lt hp
  have hle : ∀ lanes : List (Fin n),
      (lanes.map fun m => (s.accounts m).admission.amount Cache.backend.component).sum ≤
        (lanes.map fun m => (s.accounts m).admission.amount Cache.text.component).sum +
          lanes.length * lookaheadPages cfg := by
    intro lanes
    induction lanes with
    | nil => exact Nat.zero_le _
    | cons m lanes ih =>
      have hm : (s.accounts m).admission.amount Cache.backend.component ≤
          (s.accounts m).admission.amount Cache.text.component + lookaheadPages cfg :=
        hr.allAhead m
      simp only [List.map_cons, List.sum_cons, List.length_cons, Nat.succ_mul]
      omega
  have hall := hle s.occupied
  have hmul : (s.occupied.length + 1) * lookaheadPages cfg ≤ n * lookaheadPages cfg :=
    Nat.mul_le_mul_right _ hlength
  rw [Nat.succ_mul] at hmul
  unfold committedPages
  omega

/-- **The test of `can_admit_lane`** on one pool: the pages fit beside those of the other lanes. -/
theorem SysInv.canReplaceEntitlement_iff (hs : SysInv cfg s) (l : Fin n) (c : Cache) (pages : Nat) :
    (s.program.pools.heap.pools c).canReplaceEntitlement (entitlement s.program l c) pages = true ↔
      pages ≤ pagesForTokens cfg.capacity ∧
        ∑ m ∈ Finset.univ.erase l, entitlement s.program m c + pages ≤
          (cfg.pools c).pageGroupCount := by
  have heq := hs.entitled_others l c
  rw [PagedKV.canReplaceEntitlement_iff (hs.kv.heap.books c), hs.kv.heap.spec c,
    cfg.logicalPages c]
  omega

end Sums

/-- What the scheduler adds up for a new request beside those in the slots. -/
def System.demand (s : System n) (resources : AdmissionResources) : AdmissionResources :=
  (s.occupied.foldl (fun total m => AdmissionResources.add total (s.accounts m).admission) {}).add
    resources

theorem System.amount_demand (resources : AdmissionResources) (k : Executor.Component) :
    (s.demand resources).amount k =
      (s.occupied.map fun m => (s.accounts m).admission.amount k).sum + resources.amount k := by
  unfold System.demand
  rw [AdmissionResources.amount_add,
    AdmissionResources.amount_foldl (fun m => (s.accounts m).admission), AdmissionResources.amount_zero,
    Nat.zero_add]

theorem persistentLayout_of_candidate {v : Variant} {leaves : Leaves} {inputs : SequencePlanningInputs}
    {pages : Nat} {plan : SequencePlan}
    (h : buildSequenceCandidate v leaves inputs pages = .ok plan) :
    persistentLayout v inputs pages = .ok plan.persistent := by
  obtain ⟨-, h⟩ := check_bind_eq_ok.mp h
  obtain ⟨kvCapacity, -, h⟩ := bind_eq_ok.mp h
  obtain ⟨layout, hlayout, h⟩ := bind_eq_ok.mp h
  obtain ⟨workspace, -, h⟩ := bind_eq_ok.mp h
  obtain ⟨transient, -, h⟩ := bind_eq_ok.mp h
  obtain ⟨graphs, -, h⟩ := bind_eq_ok.mp h
  obtain ⟨memory, -, h⟩ := bind_eq_ok.mp h
  obtain ⟨withTransient, -, h⟩ := bind_eq_ok.mp h
  obtain ⟨reservation, -, h⟩ := bind_eq_ok.mp h
  cases Except.ok.inj h
  exact hlayout

section Decides

variable {inputs : SequencePlanningInputs} {layout : PersistentLayout}
  {prompt : PreparedPromptData} {options : ExecutionOptions} {base : RequestBasePlan}
  {request : RequestPlan}

theorem Realizes.hasBackend (h : Realizes cfg inputs layout) : cfg.hasBackend = true := by
  obtain ⟨pool, hpool, -⟩ := h.backendPool
  rw [h.backend] at hpool
  unfold Config.hasBackend
  cases hb : cfg.backend with
  | none =>
    rw [hb] at hpool
    cases hpool
  | mtp => rfl
  | dflash => rfl

/-- The pages of a request in the two caches. -/
theorem Accepted.request_pages (ha : Accepted cfg prompt options base)
    (hp : PlanOk cfg (s.program.lanes l) prompt base request) :
    request.textKvPageEntitlement = base.summary.admission.mainKvPages ∧
      request.backendKvPageEntitlement = base.summary.admission.backendKvPages ∧
      request.backendKvPageEntitlement ≤ request.textKvPageEntitlement + lookaheadPages cfg ∧
      request.backendKvPageEntitlement ≤ pagesForTokens cfg.capacity := by
  have hsmall : request.backendKvPageEntitlement ≤ pagesForTokens cfg.capacity :=
    (ha.fits hp).small .backend
  have hahead := ha.ahead
  unfold Ahead at hahead
  rw [ha.admission] at hahead ⊢
  rw [hp.textPages, hp.backendPages] at *
  exact ⟨rfl, rfl, hahead, hsmall⟩

variable (hr : Reachable cfg s) (hb : cfg.hasBackend = true)
  (hcount : (cfg.pools .backend).pageGroupCount =
    (cfg.pools .text).pageGroupCount + n * lookaheadPages cfg)
  (ha : Accepted cfg prompt options base)

include hr hb hcount ha

theorem canReplace_backend (hp : PlanOk cfg (s.program.lanes l) prompt base request)
    (h : (s.program.pools.heap.pools .text).canReplaceEntitlement (entitlement s.program l .text)
      request.textKvPageEntitlement = true) :
    (s.program.pools.heap.pools .backend).canReplaceEntitlement (entitlement s.program l .backend)
      request.backendKvPageEntitlement = true := by
  have hs := hr.inv
  obtain ⟨-, -, hahead, hsmall⟩ := ha.request_pages hp
  have hothers := hr.others_le hb l
  obtain ⟨-, hfits⟩ := (hs.canReplaceEntitlement_iff l .text _).mp h
  apply (hs.canReplaceEntitlement_iff l .backend _).mpr
  exact ⟨hsmall, by omega⟩

theorem canReplaceAfterEviction_backend
    (hp : PlanOk cfg (s.program.lanes l) prompt base request)
    (h : canReplaceAfterEviction (s.program.pools.heap.pools .text) (entitlement s.program l .text)
      (reclaimable s.program l .text) request.textKvPageEntitlement = true) :
    canReplaceAfterEviction (s.program.pools.heap.pools .backend)
      (entitlement s.program l .backend) (reclaimable s.program l .backend)
      request.backendKvPageEntitlement = true := by
  have hs := hr.inv
  have hidle := hs.of_not_busy hp.free
  obtain ⟨-, -, hahead, hsmall⟩ := ha.request_pages hp
  have hcommitted := hr.committed_le hidle
  obtain ⟨-, hfits⟩ := (hs.canReplaceAfterEviction_iff hidle (c := .text) nofun _).mp h
  apply (hs.canReplaceAfterEviction_iff hidle (c := .backend) (fun _ => hb) _).mpr
  exact ⟨hsmall, by omega⟩

/-- The resources the scheduler adds up fit if the lanes and the text pages do. -/
theorem demand_fits_iff :
    (s.demand base.summary.admission).fits (admissionCapacity cfg) = true ↔
      s.occupied.length < n ∧ (s.demand base.summary.admission).mainKvPages ≤
        (cfg.pools .text).pageGroupCount := by
  have hs := hr.inv
  have hlanes : (s.demand base.summary.admission).amount .activeLanes = s.occupied.length + 1 := by
    have hone : ∀ m ∈ s.occupied, (s.accounts m).admission.amount .activeLanes = 1 := by
      intro m hm
      have hphase : (s.slots m).phase ≠ .idle := of_decide_eq_true (List.mem_filter.mp hm).2
      rw [(hs.accounts m).admission hphase]
      rfl
    rw [System.amount_demand, List.map_congr_left hone, ha.admission]
    simp [AdmissionResources.amount]
  have hmain : (s.demand base.summary.admission).amount .mainKvPages =
      (s.demand base.summary.admission).mainKvPages := rfl
  rw [AdmissionResources.fits_iff]
  constructor
  · intro hall
    have h₁ := hall .activeLanes
    rw [hlanes] at h₁
    exact ⟨h₁, hall .mainKvPages⟩
  · rintro ⟨hlt, hpages⟩ k
    cases k with
    | activeLanes =>
      rw [hlanes]
      exact hlt
    | mainKvPages => exact hpages
    | backendKvPages =>
      obtain ⟨l, hidle⟩ := exists_idle_of_length hlt
      have hcommitted := hr.committed_le hidle
      have hahead := ha.ahead
      have hcapacity : (admissionCapacity cfg).amount .backendKvPages =
          (cfg.pools .backend).pageGroupCount := if_pos hb
      rw [hcapacity, hcount, System.amount_demand]
      rw [← hmain, System.amount_demand] at hpages
      unfold committedPages at hcommitted
      unfold Ahead at hahead
      simp only [Cache.component, AdmissionResources.amount] at *
      omega

end Decides

theorem and_eq_left_of_imp {a b : Bool} (h : a = true → b = true) : (a && b) = a := by
  cases a with
  | true => exact h rfl
  | false => rfl

/-- **The pool of the backend is never the bottleneck**: of the pools a plan has made, the text pool
decides whether a lane can be given to a request, before and after the eviction of retained lanes,
and the lanes and the text pages decide whether the resources the scheduler adds up fit. -/
theorem Reachable.backend_pool_suffices {v : Variant} {leaves : Leaves}
    {inputs : SequencePlanningInputs} {pages : Nat} {plan : SequencePlan}
    (hplan : buildSequenceCandidate v leaves inputs pages = .ok plan)
    (hcfg : Realizes cfg inputs plan.persistent) (hr : Reachable cfg s)
    {prompt : PreparedPromptData} {options : ExecutionOptions} {base : RequestBasePlan}
    (hbase : planRequestBase cfg prompt options = .ok base) :
    (∀ l request, planRequestForLane cfg (s.program.lanes l) prompt base = .ok request →
      ((s.program.pools.heap.pools .text).canReplaceEntitlement (entitlement s.program l .text)
          request.textKvPageEntitlement = true →
        (s.program.pools.heap.pools .backend).canReplaceEntitlement
          (entitlement s.program l .backend) request.backendKvPageEntitlement = true) ∧
      (canReplaceAfterEviction (s.program.pools.heap.pools .text) (entitlement s.program l .text)
          (reclaimable s.program l .text) request.textKvPageEntitlement = true →
        canReplaceAfterEviction (s.program.pools.heap.pools .backend)
          (entitlement s.program l .backend) (reclaimable s.program l .backend)
          request.backendKvPageEntitlement = true) ∧
      canAdmitLane cfg s.program l request =
        (s.program.pools.heap.pools .text).canReplaceEntitlement (entitlement s.program l .text)
          request.textKvPageEntitlement ∧
      canAdmitLaneAfterRetainedEviction cfg s.program l request =
        canReplaceAfterEviction (s.program.pools.heap.pools .text)
          (entitlement s.program l .text) (reclaimable s.program l .text)
          request.textKvPageEntitlement) ∧
    ((s.demand base.summary.admission).fits (admissionCapacity cfg) = true ↔
      s.occupied.length < n ∧ (s.demand base.summary.admission).mainKvPages ≤
        (cfg.pools .text).pageGroupCount) ∧
    ((∃ l request, planRequestForLane cfg (s.program.lanes l) prompt base = .ok request ∧
        canAdmitLaneAfterRetainedEviction cfg s.program l request = true) ↔
      (s.demand base.summary.admission).fits (admissionCapacity cfg) = true) := by
  have hs := hr.inv
  have hb := hcfg.hasBackend
  have ha := planRequestBase_spec hbase
  have hcount := hcfg.backend_eq (persistentLayout_of_candidate hplan)
  have hdemand := demand_fits_iff hr hb hcount ha
  -- The backend's half of both tests follows from the half of the text cache.
  have hfits (l : Fin n) (request : RequestPlan)
      (hp : PlanOk cfg (s.program.lanes l) prompt base request) :
      canAdmitLane cfg s.program l request =
        (s.program.pools.heap.pools .text).canReplaceEntitlement (entitlement s.program l .text)
          request.textKvPageEntitlement := by
    unfold canAdmitLane
    rw [hp.free, if_pos hb, Bool.not_false, Bool.true_and]
    exact and_eq_left_of_imp (canReplace_backend hr hb hcount ha hp)
  have hafter (l : Fin n) (request : RequestPlan)
      (hp : PlanOk cfg (s.program.lanes l) prompt base request) :
      canAdmitLaneAfterRetainedEviction cfg s.program l request =
        canReplaceAfterEviction (s.program.pools.heap.pools .text)
          (entitlement s.program l .text) (reclaimable s.program l .text)
          request.textKvPageEntitlement := by
    unfold canAdmitLaneAfterRetainedEviction
    rw [hp.free, if_pos hb, Bool.not_false, Bool.true_and]
    exact and_eq_left_of_imp (canReplaceAfterEviction_backend hr hb hcount ha hp)
  refine ⟨fun l request hrequest => ?_, hdemand, ?_, fun hfits => ?_⟩
  · have hp := planRequestForLane_spec hrequest
    exact ⟨canReplace_backend hr hb hcount ha hp, canReplaceAfterEviction_backend hr hb hcount ha hp,
      hfits l request hp, hafter l request hp⟩
  · rintro ⟨l, request, hrequest, hadmits⟩
    have hp := planRequestForLane_spec hrequest
    have hidle := hs.of_not_busy hp.free
    rw [hafter l request hp] at hadmits
    obtain ⟨-, hroom⟩ := (hs.canReplaceAfterEviction_iff hidle (c := .text) nofun _).mp hadmits
    obtain ⟨htext, -⟩ := ha.request_pages hp
    refine hdemand.mpr ⟨length_occupied_lt hidle, ?_⟩
    show (s.demand base.summary.admission).amount .mainKvPages ≤ _
    rw [System.amount_demand]
    rw [htext] at hroom
    exact hroom
  · -- a lane is left over, and the room for its plan is the room the resources leave
    obtain ⟨hlt, -⟩ := hdemand.mp hfits
    obtain ⟨l, hidle⟩ := exists_idle_of_length hlt
    obtain ⟨request, hrequest⟩ := hs.plan_ok hidle prompt base
    have hroom : Room cfg s request := ha.room (planRequestForLane_spec hrequest) fun k => by
      have hk := AdmissionResources.fits_iff.mp hfits k
      rw [System.amount_demand] at hk
      omega
    exact ⟨l, request, hrequest, (hs.canAdmitAfterEviction_iff hidle request).mpr hroom⟩

/-- The inputs of two lanes of 32 tokens that draft two tokens with MTP. -/
def plannedInputs : SequencePlanningInputs where
  capacity := 32
  maxConcurrency := 2
  prefillChunk := 32
  draftWindow := 2
  backend := .mtp
  kvDtype := .bf16
  kvQuantGroup := 0
  proposalHead := .full
  vision := true
  useCudaGraph := false

/-- A workspace of a megabyte, and the profiles of the 27B target, which has no DFlash. -/
def plannedLeaves : Leaves where
  workspace := fun _ => .ok (2 ^ 20)
  mtpGraphProfiles := Layouts.mtpGraphProfiles27b
  dflashGraphProfiles := fun _ _ _ => []

/-- The program of the plan: two pages of text, and four of the backend. -/
def plannedConfig : Config 2 :=
  { scarceConfig with
    pools := fun c => pairPool (if c = .text then 1 else 3) (by cases c <;> decide)
    tableRows := fun _ => rfl
    logicalPages := fun c => by cases c <;> decide }

theorem planned_pools :
    (buildSequenceCandidate Layouts.qwen27b plannedLeaves plannedInputs 2).toOption.map
        (fun plan => (plan.persistent.decoder.textKv.spec.pageGroupCount,
          (plan.persistent.backendPool .mtp).map fun pool => pool.spec.pageGroupCount)) =
      some (2, some 4) := by
  decide +kernel

/-- The first lane has answered the image and is retained. -/
def plannedRetained : System 2 :=
  ((System.init plannedConfig).serve plannedConfig ⟨0, Nat.zero_lt_two⟩ picturePrompt
    ⟨6, true, none⟩ ⟨true, 4096, 4096⟩ ⟨7, fun _ => 0⟩).perform plannedConfig
    (.resolvePrefill ⟨0, Nat.zero_lt_two⟩ true)

/-- The second lane decodes, beside the retained one. -/
def plannedRun : System 2 :=
  (plannedRetained.serve plannedConfig ⟨1, Nat.one_lt_two⟩ picturePrompt
    ⟨6, true, none⟩ ⟨true, 4096, 4096⟩ ⟨7, fun _ => 0⟩).perform plannedConfig
    (.resolvePrefill ⟨1, Nat.one_lt_two⟩ false)

theorem reachable_plannedRun : Reachable plannedConfig plannedRun := by
  have hserved : Reachable plannedConfig ((System.init plannedConfig).serve plannedConfig 0
      picturePrompt ⟨6, true, none⟩ ⟨true, 4096, 4096⟩ ⟨7, fun _ => 0⟩) :=
    Reachable.serve .refl rfl prepared_picturePrompt
  have hretained : Reachable plannedConfig plannedRetained := by
    refine Reachable.perform hserved ⟨?_, nofun⟩
    decide +kernel
  have hidle : (plannedRetained.slots 1).phase = .idle := by decide +kernel
  refine Reachable.perform (Reachable.serve hretained hidle prepared_picturePrompt)
    ⟨?_, fun _ => ?_⟩ <;> decide +kernel

/-- All pages of text are taken, one by a request and one by a retained lane, which the next turn
continues: the pool of the backend has the page that it needs. -/
theorem planned_backend_pool_suffices :
    (plannedRun.slots 1).phase = .decoding ∧ (plannedRun.program.lanes 0).retained = true ∧
      planRequestForLane plannedConfig (plannedRun.program.lanes 0) followUpPrompt followUpBase =
        .ok followUpPlan ∧
      canAdmitLane plannedConfig plannedRun.program 0 followUpPlan = true ∧
      (plannedRun.program.pools.heap.pools .backend).canReplaceEntitlement
        (entitlement plannedRun.program 0 .backend) 1 = true := by
  have hpools := planned_pools
  cases hplan : buildSequenceCandidate Layouts.qwen27b plannedLeaves plannedInputs 2 with
  | error e =>
    rw [hplan] at hpools
    cases hpools
  | ok plan =>
    rw [hplan] at hpools
    obtain ⟨htext, hback⟩ := Prod.mk.inj (Option.some.inj hpools)
    obtain ⟨pool, hpool, hcount⟩ := Option.map_eq_some_iff.mp hback
    have hcfg : Realizes plannedConfig plannedInputs plan.persistent :=
      ⟨rfl, rfl, rfl, rfl, htext.symm, pool, hpool, hcount.symm⟩
    obtain ⟨hphase, hretained, hbase, hrequest, hroom⟩ : (plannedRun.slots 1).phase = .decoding ∧
        (plannedRun.program.lanes 0).retained = true ∧
        planRequestBase plannedConfig followUpPrompt ⟨6, true, none⟩ = .ok followUpBase ∧
        planRequestForLane plannedConfig (plannedRun.program.lanes 0) followUpPrompt followUpBase =
          .ok followUpPlan ∧
        (plannedRun.program.pools.heap.pools .text).canReplaceEntitlement
          (entitlement plannedRun.program 0 .text) 1 = true := by
      decide +kernel
    obtain ⟨hbackend, -, hadmits, -⟩ :=
      (reachable_plannedRun.backend_pool_suffices hplan hcfg hbase).1 0 _ hrequest
    exact ⟨hphase, hretained, hrequest, hadmits.trans hroom, hbackend hroom⟩

end Ninfer.Qwen
