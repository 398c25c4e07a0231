import Ninfer.Qwen.Safety

/-!
# Admission to the program

The executor looks for a lane of a request with the tests of the program, evicts retained lanes to
make room, and otherwise hands the accounting of its requests to the admission policy. The program
tests entitlements of its KV pools, the policy adds up resources of plans. Both see the same: the
pages entitled in a pool are those of the lane itself, of the other retained lanes, and those
reserved for the requests in the slots.

## Main definitions

* `admissionCapacity`: `admission_capacity`
* `findAdmissionLane`: `find_admission_lane`
* `makeRoom`: the eviction loop of `admit_planned_request`

## Main results

* `SysInv.entitled_eq`: whose pages are entitled in a pool
* `SysInv.canAdmit_makeRoom`: the eviction loop makes room for what the program said it would
* `Reachable.admission_feasible`: the tests of the program agree with the sums of the policy
-/

namespace Ninfer.Qwen

open PagedKV
open Executor (AdmissionResources ActiveAdmissionSnapshot Component admissionResourcesFit
  makeAdmissionProtection)

variable {n : Nat} (cfg : Config n)

/-- `admission_capacity`. -/
def admissionCapacity : AdmissionResources where
  activeLanes := n
  mainKvPages := (cfg.pools .text).pageGroupCount
  backendKvPages := if cfg.hasBackend then (cfg.pools .backend).pageGroupCount else 0

/-! ## Looking for a lane -/

/-- `LaneChoice`. -/
structure LaneChoice (n : Nat) where
  lane : Fin n
  evictRetained : Bool := false
  deriving DecidableEq, Repr

/-- A loop of `find_admission_lane`: the lane without a request that passes the test and reuses
most. The plan of a lane is that of `ensure_lane_plan`, made for the lane as it is. -/
def selectLane (s : System n) (prompt : PreparedPromptData) (base : RequestBasePlan)
    (test : Fin n → RequestPlan → Bool) (selected : Option (Fin n × Nat)) :
    List (Fin n) → Except Exception (Option (Fin n × Nat))
  | [] => .ok selected
  | l :: lanes =>
    if (s.slots l).phase ≠ .idle then selectLane s prompt base test selected lanes
    else
      match planRequestForLane cfg (s.program.lanes l) prompt base with
      | .error e => .error e
      | .ok plan =>
        let reuse := plan.summary.reusablePromptTokens
        selectLane s prompt base test
          (if test l plan && selected.all (·.2 < reuse) then some (l, reuse) else selected) lanes

/-- `find_admission_lane`. -/
def findAdmissionLane (s : System n) (prompt : PreparedPromptData) (base : RequestBasePlan) :
    Except Exception (Option (LaneChoice n)) :=
  match selectLane cfg s prompt base (canAdmitLane cfg s.program) none (List.finRange n) with
  | .error e => .error e
  | .ok (some (l, _)) => .ok (some ⟨l, false⟩)
  | .ok none =>
    match selectLane cfg s prompt base (canAdmitLaneAfterRetainedEviction cfg s.program) none
      (List.finRange n) with
    | .error e => .error e
    | .ok selected => .ok (selected.map fun p => ⟨p.1, true⟩)

/-- The eviction loop of `admit_planned_request`. -/
def makeRoom (l : Fin n) (plan : RequestPlan) (s : System n) : List (Fin n) → System n
  | [] => s
  | r :: lanes =>
    if canAdmitLane cfg s.program l plan then s
    else
      makeRoom l plan
        (if r ≠ l ∧ (s.slots r).phase = .idle ∧ hasRetainedLane s.program r then
          { s with program := evictRetainedLane r s.program }
        else s) lanes

variable {cfg} {s : System n} {l : Fin n}

/-! ## Whose pages are entitled -/

/-- The pages of a cache among the resources of a request. -/
def Cache.component : Cache → Component
  | .text => .mainKvPages
  | .backend => .backendKvPages

/-- The entitled pages of a pool are those of the allocations of the lanes in its cache. -/
theorem KvInv.entitled_sum {h : KvHeap n} (hi : KvInv cfg h) (c : Cache) :
    (h.pools c).entitledPages =
      ((List.finRange n).map fun m => (h.allocs (m, c)).pageEntitlement).sum := by
  rw [(hi.heap.books c).entitled, outstanding, ← Fin.sum_univ_def, Fintype.sum_prod_type]
  refine Finset.sum_congr rfl fun m _ => ?_
  rw [Fintype.sum_eq_single c, hi.entitledShare_eq]
  intro d hd
  rcases hi.pool (m, d) with hp | hp
  · simp [entitledShare, hp]
  · simp [entitledShare, hp, hd]

/-- The entitlement of a lane with a request is what was reserved for it. -/
theorem SysInv.entitlement_occupied (hs : SysInv cfg s) (hp : (s.slots l).phase ≠ .idle)
    {c : Cache} (hc : c = .backend → cfg.hasBackend = true) :
    entitlement s.program l c = (s.accounts l).admission.amount c.component := by
  have hbound : ∃ text back, Bound cfg s.program.pools.heap l (s.program.lanes l) text back := by
    cases hs.lanes l with
    | empty phase => exact absurd phase hp
    | complete phase => exact absurd phase hp
    | prefilling _ _ _ _ _ lane => exact ⟨_, _, lane.bound⟩
    | start _ _ lane => exact ⟨_, _, lane.bound⟩
    | active _ _ lane => exact ⟨_, _, lane.bound⟩
    | ordinary _ _ lane => exact ⟨_, _, lane.bound⟩
    | speculative _ _ lane => exact ⟨_, _, lane.bound⟩
  obtain ⟨text, back, hb⟩ := hbound
  obtain ⟨w, ho, -, -, htext, hback, -⟩ := hb.owns
  rw [(hs.accounts l).admission hp]
  cases c with
  | text => exact ho.text.entitled.trans htext
  | backend => exact (ho.backend (hc rfl)).entitled.trans hback

/-- A lane with a request is not retained. -/
theorem SysInv.not_retained (hs : SysInv cfg s) (hp : (s.slots l).phase ≠ .idle) :
    (s.program.lanes l).retained = false := by
  cases hs.lanes l with
  | empty phase => exact absurd phase hp
  | complete phase => exact absurd phase hp
  | prefilling _ _ _ _ _ lane => exact lane.retained
  | start _ _ lane => exact lane.retained
  | active _ _ lane => exact lane.at_frontier.retained
  | ordinary _ _ lane => exact lane.at_frontier.retained
  | speculative _ _ lane => exact lane.at_frontier.retained

/-- A lane without a request holds a retained bundle, or no pages. -/
theorem SysInv.idle_lane (hs : SysInv cfg s) (hp : (s.slots l).phase = .idle) (c : Cache) :
    (s.program.lanes l).busy = false ∧
      ((s.program.lanes l).retained = true ∧ (s.program.lanes l).kv.isSome = true ∨
        entitlement s.program l c = 0) := by
  rcases (hs.free hp).1 with he | hc
  · refine ⟨?_, Or.inr ?_⟩
    · rw [Lane.busy, he.lifecycle]
      rfl
    · rw [entitlement, he.nothing c]
  · refine ⟨?_, Or.inl ⟨hc.retained, ?_⟩⟩
    · rw [Lane.busy, hc.lifecycle]
      rfl
    · rw [hc.resting.kv]
      rfl

/-- The pages of the other retained lanes, as a sum over all lanes. -/
def retainedPages (s : System n) (l : Fin n) (c : Cache) : Nat :=
  ((List.finRange n).map fun m =>
    if m ≠ l ∧ (s.program.lanes m).retained = true ∧ (s.program.lanes m).kv.isSome = true then
      entitlement s.program m c else 0).sum

/-- The pages reserved for the requests in the slots. -/
def committedPages (s : System n) (c : Cache) : Nat :=
  (s.occupied.map fun m => (s.accounts m).admission.amount c.component).sum

theorem sum_map_filter {α : Type} (p : α → Bool) (f : α → Nat) : ∀ xs : List α,
    ((xs.filter p).map f).sum = (xs.map fun x => if p x then f x else 0).sum
  | [] => rfl
  | x :: xs => by
    cases h : p x <;> simp [h, sum_map_filter p f xs]

/-- **Whose pages are entitled**: those of a lane without a request, of the other retained lanes, and
those reserved for the requests. -/
theorem SysInv.entitled_eq (hs : SysInv cfg s) (hp : (s.slots l).phase = .idle) {c : Cache}
    (hc : c = .backend → cfg.hasBackend = true) :
    (s.program.pools.heap.pools c).entitledPages =
      entitlement s.program l c + retainedPages s l c + committedPages s c := by
  have hown : entitlement s.program l c =
      ((List.finRange n).map fun m => if m = l then entitlement s.program m c else 0).sum := by
    rw [← Fin.sum_univ_def, Finset.sum_ite_eq' Finset.univ l, if_pos (Finset.mem_univ l)]
  rw [hs.kv.entitled_sum c, hown, retainedPages, committedPages, System.occupied, sum_map_filter,
    ← List.sum_map_add, ← List.sum_map_add]
  congr 1
  refine List.map_congr_left fun m _ => ?_
  show entitlement s.program m c = _
  by_cases hm : (s.slots m).phase = .idle
  · by_cases hml : m = l
    · simp [hml, hp]
    · rcases (hs.idle_lane hm c).2 with hret | hzero
      · simp [hml, hm, hret.1, hret.2]
      · simp [hml, hm, hzero]
  · have hml : m ≠ l := fun h => hm (h ▸ hp)
    simp [hml, hm, hs.not_retained hm, hs.entitlement_occupied hm hc]

/-! ## Room for a plan -/

/-- There is room in a cache for new pages beside those of the requests in the slots. -/
def RoomFor (cfg : Config n) (s : System n) (c : Cache) (pages : Nat) : Prop :=
  pages ≤ pagesForTokens cfg.capacity ∧
    committedPages s c + pages ≤ (cfg.pools c).pageGroupCount

/-- There is room for a plan. -/
structure Room (cfg : Config n) (s : System n) (plan : RequestPlan) : Prop where
  text : RoomFor cfg s .text plan.textKvPageEntitlement
  backend : if cfg.hasBackend then RoomFor cfg s .backend plan.backendKvPageEntitlement
    else plan.backendKvPageEntitlement = 0

section Pool

variable {c : Cache} (hs : SysInv cfg s) (hp : (s.slots l).phase = .idle)
  (hc : c = .backend → cfg.hasBackend = true)

include hs hp hc

theorem SysInv.reclaimable_eq : reclaimable s.program l c = retainedPages s l c := by
  have heq := hs.entitled_eq hp hc
  have hlt := (hs.kv.heap.books c).lt_size
  rw [reclaimable, sum_map_filter]
  simp only [decide_eq_true_eq]
  exact Nat.mod_eq_of_lt (by unfold retainedPages at heq; omega)

/-- **The test after eviction** sees only what the requests in the slots have reserved. -/
theorem SysInv.canReplaceAfterEviction_iff (pages : Nat) :
    canReplaceAfterEviction (s.program.pools.heap.pools c) (entitlement s.program l c)
        (reclaimable s.program l c) pages = true ↔ RoomFor cfg s c pages := by
  have heq := hs.entitled_eq hp hc
  have hle := (hs.kv.heap.books c).entitled_le
  have hspec := hs.kv.heap.spec c
  have hcount := (cfg.pools c).pageGroupCount_le
  rw [hspec] at hle
  have hsub : U32.sub (cfg.pools c).pageGroupCount (committedPages s c) =
      (cfg.pools c).pageGroupCount - committedPages s c :=
    U32.sub_eq (by omega) (by unfold int32Max at hcount; unfold U32.size; omega)
  have hcommitted : (s.program.pools.heap.pools c).entitledPages - entitlement s.program l c -
      retainedPages s l c = committedPages s c := by
    omega
  unfold canReplaceAfterEviction RoomFor
  rw [hs.reclaimable_eq hp hc, hcommitted, hspec, hsub, cfg.logicalPages c]
  simp only [Bool.and_eq_true, decide_eq_true_eq]
  omega

/-- Without another retained lane the test of `can_admit_lane` is the same. -/
theorem SysInv.canReplaceEntitlement_of_room {pages : Nat} (hnone : retainedPages s l c = 0)
    (hroom : RoomFor cfg s c pages) :
    (s.program.pools.heap.pools c).canReplaceEntitlement (entitlement s.program l c) pages =
      true := by
  have heq := hs.entitled_eq hp hc
  obtain ⟨h₁, h₂⟩ := hroom
  rw [canReplaceEntitlement_iff (hs.kv.heap.books c), hs.kv.heap.spec c, cfg.logicalPages c]
  exact ⟨by omega, h₁, by omega⟩

end Pool

/-- **`can_admit_lane_after_retained_eviction`** says that there is room. -/
theorem SysInv.canAdmitAfterEviction_iff (hs : SysInv cfg s) (hp : (s.slots l).phase = .idle)
    (plan : RequestPlan) :
    canAdmitLaneAfterRetainedEviction cfg s.program l plan = true ↔ Room cfg s plan := by
  have hbusy := (hs.idle_lane hp .text).1
  have htext := hs.canReplaceAfterEviction_iff hp (c := .text) nofun plan.textKvPageEntitlement
  unfold canAdmitLaneAfterRetainedEviction
  rw [hbusy, Bool.and_eq_true, Bool.and_eq_true, htext]
  by_cases hb : cfg.hasBackend = true
  · rw [if_pos hb, hs.canReplaceAfterEviction_iff hp (c := .backend) (fun _ => hb)]
    exact ⟨fun h => ⟨h.1.2, by rw [if_pos hb]; exact h.2⟩,
      fun h => ⟨⟨rfl, h.text⟩, by have := h.backend; rwa [if_pos hb] at this⟩⟩
  · rw [if_neg hb, beq_iff_eq]
    exact ⟨fun h => ⟨h.1.2, by rw [if_neg hb]; exact h.2⟩,
      fun h => ⟨⟨rfl, h.text⟩, by have := h.backend; rwa [if_neg hb] at this⟩⟩

theorem SysInv.canAdmit_of_room (hs : SysInv cfg s) (hp : (s.slots l).phase = .idle)
    {plan : RequestPlan} (hnone : ∀ m, m ≠ l → (s.program.lanes m).retained = false)
    (hroom : Room cfg s plan) : canAdmitLane cfg s.program l plan = true := by
  have hbusy := (hs.idle_lane hp .text).1
  have hzero : ∀ c, retainedPages s l c = 0 := by
    intro c
    refine List.sum_eq_zero fun pages hm => ?_
    obtain ⟨m, -, rfl⟩ := List.mem_map.mp hm
    refine if_neg fun h => ?_
    exact nomatch (hnone m h.1).symm.trans h.2.1
  have hbackend := hroom.backend
  unfold canAdmitLane
  rw [hbusy, hs.canReplaceEntitlement_of_room hp (c := .text) nofun (hzero _) hroom.text]
  by_cases hb : cfg.hasBackend = true
  · rw [if_pos hb] at hbackend ⊢
    exact hs.canReplaceEntitlement_of_room hp (c := .backend) (fun _ => hb) (hzero _) hbackend
  · rw [if_neg hb] at hbackend ⊢
    rw [hbackend]
    rfl

/-! ## Making room -/

/-- **The eviction loop makes room**: each eviction leaves the room there is after all of them, and
when no other lane is retained the test of `can_admit_lane` sees it. -/
theorem SysInv.canAdmit_makeRoom {plan : RequestPlan} : ∀ (lanes : List (Fin n)) {s : System n},
    SysInv cfg s → (s.slots l).phase = .idle → Room cfg s plan →
    (∀ m, m ≠ l → (s.program.lanes m).retained = true → m ∈ lanes) →
    canAdmitLane cfg (makeRoom cfg l plan s lanes).program l plan = true
  | [], s, hs, hp, hroom, hmem => by
    refine hs.canAdmit_of_room hp (fun m hm => ?_) hroom
    rw [← Bool.not_eq_true]
    exact fun hret => nomatch hmem m hm hret
  | r :: lanes, s, hs, hp, hroom, hmem => by
    unfold makeRoom
    split_ifs with hadmits hevict
    · exact hadmits
    · obtain ⟨hne, hidle, hret⟩ := hevict
      -- The room is that of the slots, which an eviction leaves alone.
      refine SysInv.canAdmit_makeRoom lanes (evict_spec hs (l := r) hidle).2 hp
        ⟨hroom.text, hroom.backend⟩ ?_
      intro m hm hretained
      have hprogram : evictRetainedLane r s.program = clearLane r s.program := if_pos hret
      by_cases hmr : m = r
      · subst hmr
        have hcleared : (clearLane m s.program).lanes m = (s.program.lanes m).cleared :=
          Function.update_self ..
        rw [show ({ s with program := evictRetainedLane m s.program } : System n).program = _ from
          hprogram, hcleared] at hretained
        exact nomatch hretained
      · have hother : (clearLane r s.program).lanes m = s.program.lanes m :=
          Function.update_of_ne hmr ..
        rw [show ({ s with program := evictRetainedLane r s.program } : System n).program = _ from
          hprogram, hother] at hretained
        exact (List.mem_cons.mp (hmem m hm hretained)).resolve_left hmr
    · refine SysInv.canAdmit_makeRoom lanes hs hp hroom fun m hm hretained => ?_
      refine (List.mem_cons.mp (hmem m hm hretained)).resolve_left fun hmr => hevict ?_
      subst hmr
      refine ⟨hm, ?_, hretained⟩
      by_contra hphase
      exact nomatch (hs.not_retained hphase).symm.trans hretained

/-! ## Finding a lane -/

section Find

variable {prompt : PreparedPromptData} {options : ExecutionOptions} {base : RequestBasePlan}

/-- A lane without a request can be planned for. -/
theorem SysInv.plan_ok (hs : SysInv cfg s) (hp : (s.slots l).phase = .idle)
    (prompt : PreparedPromptData) (base : RequestBasePlan) :
    ∃ plan, planRequestForLane cfg (s.program.lanes l) prompt base = .ok plan := by
  unfold planRequestForLane
  rw [(hs.idle_lane hp .text).1]
  exact ⟨_, rfl⟩

/-- **A loop of `find_admission_lane`** throws nothing, and finds a lane if one passes the test. -/
theorem SysInv.selectLane_spec (hs : SysInv cfg s) (prompt : PreparedPromptData)
    (base : RequestBasePlan) (test : Fin n → RequestPlan → Bool) :
    ∀ (lanes : List (Fin n)) (selected : Option (Fin n × Nat)),
    ∃ result, selectLane cfg s prompt base test selected lanes = .ok result ∧
      (result = none → selected = none ∧ ∀ l ∈ lanes, (s.slots l).phase = .idle →
        ∀ plan, planRequestForLane cfg (s.program.lanes l) prompt base = .ok plan →
          test l plan = false)
  | [], selected => ⟨selected, rfl, fun h => ⟨h, nofun⟩⟩
  | l :: lanes, selected => by
    unfold selectLane
    split_ifs with hp
    · obtain ⟨result, hok, hnone⟩ := hs.selectLane_spec prompt base test lanes selected
      refine ⟨result, hok, fun h => ⟨(hnone h).1, fun m hm hidle => ?_⟩⟩
      refine (hnone h).2 m ((List.mem_cons.mp hm).resolve_left fun heq => hp ?_) hidle
      exact heq ▸ hidle
    · have hidle : (s.slots l).phase = .idle := not_not.mp hp
      obtain ⟨plan, hplan⟩ := hs.plan_ok hidle prompt base
      rw [hplan]
      dsimp only
      obtain ⟨result, hok, hnone⟩ := hs.selectLane_spec prompt base test lanes
        (if test l plan && selected.all (·.2 < plan.summary.reusablePromptTokens) then
          some (l, plan.summary.reusablePromptTokens) else selected)
      refine ⟨result, hok, fun h => ?_⟩
      obtain ⟨hsel, hrest⟩ := hnone h
      split_ifs at hsel with htest
      -- With nothing selected before, the test itself has failed.
      subst hsel
      refine ⟨rfl, fun m hm hidle' plan' hplan' => ?_⟩
      rcases List.mem_cons.mp hm with rfl | hm
      · obtain rfl := Except.ok.inj (hplan.symm.trans hplan')
        simpa using htest
      · exact hrest m hm hidle' plan' hplan'

/-- **`find_admission_lane`** throws nothing, and finds no lane only if the program can admit the
request to none, even after evictions. -/
theorem SysInv.findAdmissionLane_spec (hs : SysInv cfg s) (prompt : PreparedPromptData)
    (base : RequestBasePlan) :
    ∃ choice, findAdmissionLane cfg s prompt base = .ok choice ∧
      (choice = none → ∀ l, (s.slots l).phase = .idle →
        ∀ plan, planRequestForLane cfg (s.program.lanes l) prompt base = .ok plan →
          canAdmitLaneAfterRetainedEviction cfg s.program l plan = false) := by
  unfold findAdmissionLane
  obtain ⟨first, hfirst, -⟩ := hs.selectLane_spec prompt base
    (canAdmitLane cfg s.program) (List.finRange n) none
  obtain ⟨second, hsecond, hnone⟩ := hs.selectLane_spec prompt base
    (canAdmitLaneAfterRetainedEviction cfg s.program) (List.finRange n) none
  rw [hfirst]
  cases first with
  | some found => exact ⟨_, rfl, nofun⟩
  | none =>
    rw [hsecond]
    refine ⟨_, rfl, fun h l hidle plan hplan => ?_⟩
    exact (hnone (Option.map_eq_none_iff.mp h)).2 l (List.mem_finRange l) hidle plan hplan

/-- What the requests in the slots have reserved, with a new request. -/
theorem Accepted.room (ha : Accepted cfg prompt options base)
    {x : Lane} {plan : RequestPlan} (hp : PlanOk cfg x prompt base plan)
    (hfits : ∀ k, base.summary.admission.amount k +
      (s.occupied.map fun m => (s.accounts m).admission.amount k).sum ≤
        (admissionCapacity cfg).amount k) : Room cfg s plan := by
  have hsmall := (ha.fits hp).small
  have hpages : ∀ c, plan.pages c = base.summary.admission.amount c.component := by
    intro c
    rw [ha.admission]
    cases c with
    | text => exact hp.textPages
    | backend => exact hp.backendPages
  have hroom : ∀ c, (c = .backend → cfg.hasBackend = true) → RoomFor cfg s c (plan.pages c) := by
    intro c hc
    have hcapacity : (admissionCapacity cfg).amount c.component = (cfg.pools c).pageGroupCount := by
      cases c with
      | text => rfl
      | backend => exact if_pos (hc rfl)
    have hle := hfits c.component
    rw [hcapacity, ← hpages] at hle
    exact ⟨hsmall c, by unfold committedPages; omega⟩
  refine ⟨hroom .text nofun, ?_⟩
  by_cases hb : cfg.hasBackend = true
  · rw [if_pos hb]
    exact hroom .backend fun _ => hb
  · rw [if_neg hb]
    have hle := hfits .backendKvPages
    have hcapacity : (admissionCapacity cfg).amount .backendKvPages = 0 := if_neg hb
    have hpage : plan.backendKvPageEntitlement = base.summary.admission.amount .backendKvPages :=
      hpages .backend
    omega

/-- There is a lane without a request when the lanes of the requests leave one. -/
theorem SysInv.exists_idle (hs : SysInv cfg s)
    (hlanes : 1 + (s.occupied.map fun m => (s.accounts m).admission.amount .activeLanes).sum ≤ n) :
    ∃ l, (s.slots l).phase = .idle := by
  by_contra hnone
  have hall : ∀ l, (s.slots l).phase ≠ .idle := fun l hl => hnone ⟨l, hl⟩
  have hocc : s.occupied = List.finRange n :=
    List.filter_eq_self.mpr fun l _ => decide_eq_true (hall l)
  have hone : ∀ m, (s.accounts m).admission.amount .activeLanes = 1 := by
    intro m
    rw [(hs.accounts m).admission (hall m)]
    rfl
  simp only [hocc, hone, List.map_const', List.sum_replicate, List.length_finRange, smul_eq_mul,
    Nat.mul_one] at hlanes
  omega

/-- **A request for which no lane is found** does not fit beside the requests in the slots. -/
theorem SysInv.blocked (hs : SysInv cfg s) (ha : Accepted cfg prompt options base)
    (hnone : findAdmissionLane cfg s prompt base = .ok none) :
    ∃ k, (admissionCapacity cfg).amount k < base.summary.admission.amount k +
      (s.occupied.map fun m => (s.accounts m).admission.amount k).sum := by
  by_contra hfits
  have hfits : ∀ k, base.summary.admission.amount k +
      (s.occupied.map fun m => (s.accounts m).admission.amount k).sum ≤
        (admissionCapacity cfg).amount k :=
    fun k => Nat.not_lt.mp fun hlt => hfits ⟨k, hlt⟩
  have hlanes := hfits .activeLanes
  rw [ha.admission] at hlanes
  obtain ⟨l, hidle⟩ := hs.exists_idle hlanes
  obtain ⟨plan, hplan⟩ := hs.plan_ok hidle prompt base
  obtain ⟨choice, hok, hrefused⟩ := hs.findAdmissionLane_spec prompt base
  obtain rfl := Except.ok.inj (hnone.symm.trans hok)
  have hroom := ha.room (planRequestForLane_spec hplan) hfits
  have hadmits := (hs.canAdmitAfterEviction_iff hidle plan).mpr hroom
  exact nomatch (hrefused rfl l hidle plan hplan).symm.trans hadmits

/-- Frozen incumbents that block the head are accepted as such. -/
theorem makeAdmissionProtection_blocked {epoch head : Nat} {resources capacity : AdmissionResources}
    {active : List ActiveAdmissionSnapshot}
    (hblocked : ∃ k, capacity.amount k <
      resources.amount k + (active.map fun a => a.resources.amount k).sum) :
    makeAdmissionProtection epoch head resources active capacity ≠
      .error (.invalidArgument "protected head is not blocked by frozen incumbents") := by
  have hpick : ∀ (donors : List ActiveAdmissionSnapshot) out survivors,
      Executor.pickDonors capacity out survivors donors ≠
        .error (.invalidArgument "protected head is not blocked by frozen incumbents") := by
    intro donors
    induction donors with
    | nil =>
      intro out survivors h
      cases h
    | cons donor rest ih =>
      intro out survivors
      unfold Executor.pickDonors
      split
      · exact nofun
      · dsimp only
        split_ifs
        · exact nofun
        · exact ih _ _
  have hfits : ((active.foldl (fun total a => AdmissionResources.add total a.resources) {}).add
      resources).fits capacity ≠ true := by
    rw [Ne, AdmissionResources.fits_iff]
    intro hall
    obtain ⟨k, hk⟩ := hblocked
    have hle := hall k
    rw [AdmissionResources.amount_add, AdmissionResources.amount_foldl,
      AdmissionResources.amount_zero] at hle
    omega
  unfold makeAdmissionProtection
  split_ifs
  · exact fun h => absurd (Except.error.inj h) (by decide)
  · exact fun h => absurd (Except.error.inj h) (by decide)
  · dsimp only
    rw [if_neg hfits]
    exact hpick _ _ _

end Find

/-! ## Agreement -/

/-- **Admission feasibility agrees between the executor and the program**: an idle engine finds a
lane for every request that fits its capacity, the evictions make the room that the program said
they would, and a request without a lane is blocked by the requests in the slots. -/
theorem Reachable.admission_feasible (hr : Reachable cfg s) :
    (∀ (prompt : PreparedPrompt) (options : ExecutionOptions) (base : RequestBasePlan),
      planRequestBase cfg prompt.toPreparedPromptData options = .ok base →
      ((∀ l, (s.slots l).phase = .idle) →
        admissionResourcesFit base.summary.admission (admissionCapacity cfg) = true →
        ∃ choice, findAdmissionLane cfg s prompt.toPreparedPromptData base = .ok (some choice)) ∧
      (findAdmissionLane cfg s prompt.toPreparedPromptData base = .ok none →
        (∃ k, (admissionCapacity cfg).amount k < base.summary.admission.amount k +
          (s.occupied.map fun m => (s.accounts m).admission.amount k).sum) ∧
        ∀ tickets active epoch head, s.activeAdmissionSet tickets = .ok active →
          makeAdmissionProtection epoch head base.summary.admission active
            (admissionCapacity cfg) ≠
          .error (.invalidArgument "protected head is not blocked by frozen incumbents"))) ∧
    ∀ (l : Fin n) (plan : RequestPlan),
      canAdmitLaneAfterRetainedEviction cfg s.program l plan = true →
      canAdmitLane cfg (makeRoom cfg l plan s (List.finRange n)).program l plan = true := by
  have hs := hr.inv
  refine ⟨fun prompt options base hbase => ?_, fun l plan hadmits => ?_⟩
  · have ha := planRequestBase_spec hbase
    constructor
    · intro hidle hfit
      obtain ⟨choice, hok, -⟩ := hs.findAdmissionLane_spec prompt.toPreparedPromptData base
      cases choice with
      | some choice => exact ⟨choice, hok⟩
      | none =>
        -- With every slot idle there are no incumbents, and the request fits alone.
        obtain ⟨k, hk⟩ := hs.blocked ha hok
        have hnone : s.occupied = [] :=
          List.filter_eq_nil_iff.mpr fun l _ => by simp [hidle l]
        have hle := Executor.admissionResourcesFit_iff.mp hfit k
        rw [hnone] at hk
        exact absurd hle (Nat.not_le.mpr hk)
    · intro hnone
      have hblocked := hs.blocked ha hnone
      refine ⟨hblocked, fun tickets active epoch head hactive => ?_⟩
      refine makeAdmissionProtection_blocked ?_
      -- The protection sees the requests that `blocked` counts.
      have heq : active = s.occupied.map (s.snapshot tickets) := by
        unfold System.activeAdmissionSet at hactive
        dsimp only at hactive
        split_ifs at hactive
        exact (Except.ok.inj hactive).symm
      obtain ⟨k, hk⟩ := hblocked
      refine ⟨k, ?_⟩
      rw [heq, List.map_map]
      exact hk
  · have hfree : (s.program.lanes l).busy = false := by
      unfold canAdmitLaneAfterRetainedEviction at hadmits
      simp only [Bool.and_eq_true, Bool.not_eq_true'] at hadmits
      exact hadmits.1.1
    have hidle := hs.of_not_busy hfree
    refine SysInv.canAdmit_makeRoom _ hs hidle
      ((hs.canAdmitAfterEviction_iff hidle plan).mp hadmits) fun m _ _ => List.mem_finRange m

/-- Pools of two rows of one page. -/
def pairPool (groups : Nat) (h : groups < int32Max) : PagedKVPoolSpec :=
  { tinyPool with
    pageGroupCount := groups + 1
    tableRows := 2
    pageGroupCount_pos := Nat.succ_pos groups
    pageGroupCount_le := h
    tableRows_pos := Nat.zero_lt_two
    tableRows_le := two_le_int32Max }

/-- Two lanes with the pages of one. -/
def scarceConfig : Config 2 :=
  { tinyConfig with
    pools := fun _ => pairPool 0 (by decide)
    tableRows := fun _ => rfl
    logicalPages := fun _ => by decide }

/-- The first lane has answered the image with a token: it keeps the pages, and is retained or goes
on. -/
def scarceRun (terminal : Bool) : System 2 :=
  ((System.init scarceConfig).serve scarceConfig 0 picturePrompt ⟨6, true, none⟩ ⟨true, 4096, 4096⟩
    ⟨7, fun _ => 0⟩).perform scarceConfig (.resolvePrefill 0 terminal)

/-- The plan of the next turn for the second lane. -/
def resetPlan : RequestPlan where
  summary := { followUpBase.summary with transientBytes := 256, transientAlignment := 256 }
  textKvPageEntitlement := 1
  backendKvPageEntitlement := 1
  reuse := .fullReset
  reuseBase := 0
  rewriteCheckpointAction := .drop
  rewriteCheckpointCapture := none
  prepareMtp := true
  mtpBridge := .none
  vision := followUpBase.visionControl.map fun control => ⟨control, [⟨0, 5, 0⟩]⟩

/-- No request is left in a slot, or the next one finds no lane. -/
theorem scarceRun_slots :
    (∀ l, ((scarceRun true).slots l).phase = .idle) ∧
      findAdmissionLane scarceConfig (scarceRun false) followUpPrompt followUpBase = .ok none := by
  decide +kernel

theorem reachable_scarceRun (terminal : Bool) : Reachable scarceConfig (scarceRun terminal) := by
  have hserved : Reachable scarceConfig ((System.init scarceConfig).serve scarceConfig 0
      picturePrompt ⟨6, true, none⟩ ⟨true, 4096, 4096⟩ ⟨7, fun _ => 0⟩) :=
    Reachable.serve .refl rfl prepared_picturePrompt
  refine Reachable.perform hserved ⟨?_, fun _ => ?_⟩ <;> decide +kernel

/-- The second lane takes the page of the first one when that is retained, and waits for it when it
decodes. -/
theorem admission_feasible_scarceRun :
    (∃ choice, findAdmissionLane scarceConfig (scarceRun true) followUpPrompt followUpBase =
        .ok (some choice)) ∧
      planRequestForLane scarceConfig ((scarceRun true).program.lanes 1) followUpPrompt
        followUpBase = .ok resetPlan ∧
      canAdmitLane scarceConfig (scarceRun true).program 1 resetPlan = false ∧
      canAdmitLane scarceConfig
        (makeRoom scarceConfig 1 resetPlan (scarceRun true) (List.finRange 2)).program 1
        resetPlan = true ∧
      (∃ k, (admissionCapacity scarceConfig).amount k < followUpBase.summary.admission.amount k +
        ((scarceRun false).occupied.map fun m =>
          ((scarceRun false).accounts m).admission.amount k).sum) ∧
      ∃ active, (scarceRun false).activeAdmissionSet (fun _ => { requestId := 0 }) = .ok active ∧
        makeAdmissionProtection 1 1 followUpBase.summary.admission active
            (admissionCapacity scarceConfig) ≠
          .error (.invalidArgument "protected head is not blocked by frozen incumbents") := by
  obtain ⟨hidle, hwaits⟩ := scarceRun_slots
  obtain ⟨hplans, hevict⟩ := Reachable.admission_feasible (reachable_scarceRun true)
  obtain ⟨hblocked, -⟩ := Reachable.admission_feasible (reachable_scarceRun false)
  have hbase : planRequestBase scarceConfig followUpPrompt ⟨6, true, none⟩ = .ok followUpBase := by
    decide +kernel
  have hfits : admissionResourcesFit followUpBase.summary.admission
      (admissionCapacity scarceConfig) = true := by
    decide
  obtain ⟨hplan, hfull, hafter⟩ :
      planRequestForLane scarceConfig ((scarceRun true).program.lanes 1) followUpPrompt
        followUpBase = .ok resetPlan ∧
      canAdmitLane scarceConfig (scarceRun true).program 1 resetPlan = false ∧
      canAdmitLaneAfterRetainedEviction scarceConfig (scarceRun true).program 1 resetPlan = true := by
    decide +kernel
  have hactive : (scarceRun false).activeAdmissionSet (fun _ => { requestId := 0 }) =
      .ok ((scarceRun false).occupied.map
        ((scarceRun false).snapshot fun _ => { requestId := 0 })) := by
    unfold System.activeAdmissionSet
    refine if_neg ?_
    decide +kernel
  obtain ⟨hmore, hprotects⟩ :=
    (hblocked ⟨followUpPrompt, prepared_followUpPrompt⟩ _ _ hbase).2 hwaits
  exact ⟨(hplans ⟨followUpPrompt, prepared_followUpPrompt⟩ _ _ hbase).1 hidle hfits, hplan,
    hfull, hevict 1 _ hafter, hmore, _, hactive, hprotects _ _ _ _ hactive⟩
end Ninfer.Qwen
