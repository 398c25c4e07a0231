import Ninfer.PagedKV.Bundle

/-!
# Runs of the paged KV component

The component is driven by calls in any order, over any number of pools and allocation objects,
and a call that throws is followed by others. A state is reachable when some sequence of calls
leads to it from the fresh pools. Every reachable state satisfies the invariant of the heap, and
the properties of a pool are read off from it.

## Main definitions

* `Op`, `Op.Enabled`, `Op.step`: the calls, when they can be made, and the state they leave
* `Reachable`: the states of the runs
* `PoolSound`: what a client of a pool relies on

## Main results

* `Reachable.inv`: the invariant holds along every run
* `reachable_poolSound`: the bookkeeping of a pool in every reachable state
* `bundles_atomic`: bundles are atomic in every reachable state
-/

namespace Ninfer.PagedKV

variable {ι α : Type} [DecidableEq ι] [DecidableEq α]

/-- The calls of the component. -/
inductive Op (ι α : Type)
  | reserve (p : ι) (pageEntitlement : Nat) (target : α)
  | setPageEntitlement (a : α) (pages : Nat)
  | cancelUnmappedEntitlement (a : α)
  | materializePages (a : α) (pages : Nat)
  | materializeTokens (a : α) (tokens : Nat)
  | trimPages (a : α) (pages : Nat)
  | trimTokens (a : α) (tokens : Nat)
  | bindRow (a : α) (row : Int)
  | unbindRow (a : α)
  | moveConstruct (target source : α)
  | moveAssign (target source : α)
  | release (a : α)
  | reserveBundle (reservations : List (PagedKVReservation ι α))
  | resizeBundle (changes : List (PagedKVResize α))

namespace Op

/-- An object is constructed in raw storage, and not from itself. -/
def Enabled (h : Heap ι α) : Op ι α → Prop
  | reserve _ _ target => (h.allocs target).pool = none
  | moveConstruct target source => (h.allocs target).pool = none ∧ target ≠ source
  | reserveBundle reservations => FreshTargets h reservations
  | _ => True

/-- The state a call leaves, whether it returns or throws. -/
def step (h : Heap ι α) : Op ι α → Heap ι α
  | reserve p pageEntitlement target => Call.final (PagedKV.reserve p pageEntitlement target) h
  | setPageEntitlement a pages => Call.final (PagedKV.setPageEntitlement a pages) h
  | cancelUnmappedEntitlement a => PagedKV.cancelUnmappedEntitlement a h
  | materializePages a pages => Call.final (PagedKV.materializePages a pages) h
  | materializeTokens a tokens => Call.final (PagedKV.materializeTokens a tokens) h
  | trimPages a pages => Call.final (PagedKV.trimPages a pages) h
  | trimTokens a tokens => Call.final (PagedKV.trimTokens a tokens) h
  | bindRow a row => Call.final (PagedKV.bindRow a row) h
  | unbindRow a => PagedKV.unbindRow a h
  | moveConstruct target source => PagedKV.moveConstruct target source h
  | moveAssign target source => PagedKV.moveAssign target source h
  | release a => PagedKV.release a h
  | reserveBundle reservations => Call.final (reservePagedKVBundle reservations) h
  | resizeBundle changes => Call.final (resizePagedKVBundle changes) h

end Op

/-- The states of the runs from fresh pools with the extents `specs`. -/
inductive Reachable (specs : ι → PagedKVPoolSpec) : Heap ι α → Prop
  | init : Reachable specs (Heap.init specs)
  | step {h : Heap ι α} (op : Op ι α) (hr : Reachable specs h) (he : op.Enabled h) :
      Reachable specs (op.step h)

variable [Fintype α] {specs : ι → PagedKVPoolSpec} {h : Heap ι α}

/-- **One call keeps the invariant.** -/
theorem Op.step_inv (hi : HeapInv specs h) (op : Op ι α) (he : op.Enabled h) :
    HeapInv specs (op.step h) := by
  cases op with
  | reserve p pages target => exact (reserve_inv hi pages he).final
  | setPageEntitlement a pages => exact (setPageEntitlement_inv hi a pages).final
  | cancelUnmappedEntitlement a => exact cancelUnmappedEntitlement_inv hi a
  | materializePages a pages =>
    exact ((materializePages_inv hi a pages).imp (fun _ _ h => h) fun _ _ h => h.1).final
  | materializeTokens a tokens =>
    exact ((materializePages_inv hi a _).imp (fun _ _ h => h) fun _ _ h => h.1).final
  | trimPages a pages => exact (trimPages_inv hi a pages).final
  | trimTokens a tokens => exact (trimPages_inv hi a _).final
  | bindRow a row => exact (bindRow_inv hi a row).final
  | unbindRow a => exact unbindRow_inv hi a
  | moveConstruct target source => exact hi.move he.2 he.1
  | moveAssign target source => exact moveAssign_inv hi target source
  | release a => exact release_inv hi a
  | reserveBundle reservations =>
    rcases reservePagedKVBundle_spec hi he with ⟨h', hok, hi', -⟩ | ⟨e, -, herr⟩
    · simpa only [Op.step, Call.final, hok] using hi'
    · simpa only [Op.step, Call.final, herr] using hi
  | resizeBundle changes =>
    rcases resizePagedKVBundle_spec hi changes with ⟨h', hok, hi', -⟩ | ⟨e, -, herr⟩
    · simpa only [Op.step, Call.final, hok] using hi'
    · simpa only [Op.step, Call.final, herr] using hi

/-- **The invariant holds along every run.** -/
theorem Reachable.inv (hr : Reachable specs h) : HeapInv specs h := by
  induction hr with
  | init => exact heapInv_init specs
  | step op _ he ih => exact op.step_inv ih he

/-! ## The bookkeeping of a pool -/

/-- The bookkeeping of the pool at `p`, over the live allocations of that pool. The free list and
the pages held are a partition of the pages of the pool: together, with multiplicity, they are the
pages `0, …, N - 1`. -/
structure PoolSound (h : Heap ι α) (p : ι) (pageGroupCount : Nat) : Prop where
  free_sorted : (h.pools p).freePageIds.Pairwise (· < ·)
  partition : ((h.pools p).freePageIds : Multiset ℕ) +
      ∑ a with (h.allocs a).pool = some p, ((h.allocs a).pageIds : Multiset ℕ) =
    Multiset.range pageGroupCount
  mapped : (h.pools p).mappedPages =
    ∑ a with (h.allocs a).pool = some p, (h.allocs a).mappedPageCount
  entitled : (h.pools p).entitledPages =
    ∑ a with (h.allocs a).pool = some p, (h.allocs a).pageEntitlement
  entitled_le : (h.pools p).entitledPages ≤ pageGroupCount
  mapped_le : ∀ a, (h.allocs a).mappedPageCount ≤ (h.allocs a).pageEntitlement
  rows : ∀ r, r < (h.pools p).spec.tableRows →
    ((h.pools p).rowInUse.getD r false = true ↔
      ∃! a, (h.allocs a).pool = some p ∧ (h.allocs a).boundRow = r)
  materialize : ∀ a pages e h', materializePages a pages h = .error e h' →
    e ≠ .logicError "Paged KV entitlement could not be materialized"

omit [DecidableEq α] in
/-- A sum of shares in the pool `p` is a sum over its allocations. -/
theorem outstanding_ite {M : Type} [AddCommMonoid M] (p : ι) (f : PagedKVAllocation ι → M) :
    outstanding (fun x : PagedKVAllocation ι => if x.pool = some p then f x else 0) h.allocs =
      ∑ a with (h.allocs a).pool = some p, f (h.allocs a) :=
  (Finset.sum_filter _ _).symm

omit [DecidableEq α] in
/-- The flag of a row is set when exactly one allocation is bound to it. -/
theorem HeapInv.row_iff (hi : HeapInv specs h) {p : ι} {r : Nat}
    (hr : r < (h.pools p).spec.tableRows) :
    (h.pools p).rowInUse.getD r false = true ↔
      ∃! a, (h.allocs a).pool = some p ∧ (h.allocs a).boundRow = r := by
  have hcount : ((h.pools p).rowInUse.getD r false).toNat =
      (Finset.univ.filter fun a => (h.allocs a).pool = some p ∧ (h.allocs a).boundRow = r).card := by
    rw [(hi.books p).rows r hr, Finset.card_eq_sum_ones, Finset.sum_filter]
    rfl
  have hone : (h.pools p).rowInUse.getD r false = true ↔
      ((h.pools p).rowInUse.getD r false).toNat = 1 := by
    cases (h.pools p).rowInUse.getD r false <;> simp
  rw [hone, hcount, Finset.card_eq_one, Finset.singleton_iff_unique_mem]
  simp

/-- **The bookkeeping of a pool in every reachable state.** -/
theorem reachable_poolSound (hr : Reachable specs h) (p : ι) :
    PoolSound h p (specs p).pageGroupCount := by
  have hi := hr.inv
  have hb := hi.books p
  refine ⟨hb.sorted, ?_, ?_, ?_, ?_, hi.mapped_le, fun r hlt => hi.row_iff hlt, ?_⟩
  · rw [← hi.spec p, ← hb.pages]
    exact congrArg _ (outstanding_ite p fun x => (x.pageIds : Multiset ℕ)).symm
  · rw [hb.mapped]
    exact outstanding_ite p fun x => x.pageIds.length
  · rw [hb.entitled]
    exact outstanding_ite p fun x => x.pageEntitlement
  · rw [← hi.spec p]
    exact hb.entitled_le
  · intro a pages e h' herr
    have := materializePages_inv hi a pages
    simp only [Call.Ensures, herr] at this
    rw [this.2]
    simp

/-- Extents for runs on a concrete pool: eight pages, two rows. -/
def smallSpec : PagedKVPoolSpec where
  pageGroupCount := 8
  logicalPageCapacity := 4
  tableRows := 2
  pageGroupCount_pos := by decide
  pageGroupCount_le := by decide
  logicalPageCapacity_pos := by decide
  logicalPageCapacity_le := by decide
  tableRows_pos := by decide
  tableRows_le := by decide

/-- Allocations of two pools; the first one has two pages mapped and is bound to a row. -/
def smallRun : Heap Bool (Fin 4) :=
  [Op.reserve true 3 0, .materializePages 0 2, .bindRow 0 1, .reserve false 4 1].foldl Op.step
    (Heap.init fun _ => smallSpec)

theorem smallRun_reachable : Reachable (fun _ => smallSpec) smallRun :=
  have h₁ : Reachable (fun _ => smallSpec) _ := .step (.reserve true 3 0) .init rfl
  have h₂ := Reachable.step (.materializePages 0 2) h₁ trivial
  have h₃ := Reachable.step (.bindRow 0 1) h₂ trivial
  Reachable.step (.reserve false 4 1) h₃ rfl

theorem smallRun_poolSound :
    (smallRun.pools true).freePageIds = [2, 3, 4, 5, 6, 7] ∧ (smallRun.allocs 0).pageIds = [0, 1] ∧
      (smallRun.pools true).rowInUse = [false, true] ∧ PoolSound smallRun true 8 :=
  ⟨by decide, by decide, by decide, reachable_poolSound smallRun_reachable true⟩

/-! ## Bundles -/

/-- **Bundles are atomic in every reachable state.** Once the checks of a bundle have passed, no
call of its apply loop throws and every listed change is made: a resize leaves each named
allocation with exactly the pages and the entitlement asked for. When they have not, what they
throw is thrown with the heap as it was. -/
theorem bundles_atomic (hr : Reachable specs h) :
    (∀ rs : List (PagedKVReservation ι α), FreshTargets h rs →
      (∀ named, validateReservations rs h = .ok named →
        ∃ h', applyReservations named h = .ok () h' ∧ reservePagedKVBundle rs h = .ok () h' ∧
          HeapInv specs h' ∧ ReservationsMade rs h h') ∧
      ∀ e, validateReservations rs h = .error e → reservePagedKVBundle rs h = .error e h) ∧
    ∀ cs : List (PagedKVResize α),
      (∀ named, validateResizes h [] cs = .ok named →
        ∃ h', applyResizes named h = .ok () h' ∧ resizePagedKVBundle cs h = .ok () h' ∧
          HeapInv specs h' ∧ ResizesMade cs h h') ∧
      ∀ e, validateResizes h [] cs = .error e → resizePagedKVBundle cs h = .error e h := by
  have hi := hr.inv
  refine ⟨fun rs hf => ⟨fun named hv => ?_, fun e hv => ?_⟩,
    fun cs => ⟨fun named hv => ?_, fun e hv => ?_⟩⟩
  · exact reservePagedKVBundle_of_valid hi hf hv
  · exact reservePagedKVBundle_of_invalid hv
  · exact resizePagedKVBundle_of_valid hi hv
  · exact resizePagedKVBundle_of_invalid hv

/-- Reservations from both pools. -/
def smallReservations : List (PagedKVReservation Bool (Fin 4)) :=
  [⟨some true, 2, 2⟩, ⟨some false, 1, 3⟩]

/-- Reservations of which the second one does not fit its pool. -/
def largeReservations : List (PagedKVReservation Bool (Fin 4)) :=
  [⟨some true, 2, 2⟩, ⟨some false, 5, 3⟩]

/-- A resize that trims an allocation of one pool and grows the entitlement of another. -/
def smallResizes : List (PagedKVResize (Fin 4)) := [⟨some 0, 1, 1⟩, ⟨some 1, 0, 2⟩]

/-- Two reservations, a bundle that is too large, and a resize. -/
theorem smallRun_bundles :
    (∃ h', reservePagedKVBundle smallReservations smallRun = .ok () h' ∧
      HeapInv (fun _ => smallSpec) h' ∧ ReservationsMade smallReservations smallRun h') ∧
    reservePagedKVBundle largeReservations smallRun = .error .badAlloc smallRun ∧
    ∃ h', resizePagedKVBundle smallResizes smallRun = .ok () h' ∧
      HeapInv (fun _ => smallSpec) h' ∧ ResizesMade smallResizes smallRun h' := by
  obtain ⟨hreserve, hresize⟩ := bundles_atomic smallRun_reachable
  refine ⟨?_, ?_, ?_⟩
  · obtain ⟨h', -, hmade⟩ := (hreserve smallReservations (by decide)).1 _ rfl
    exact ⟨h', hmade⟩
  · exact (hreserve largeReservations (by decide)).2 _ rfl
  · obtain ⟨h', -, hmade⟩ := (hresize smallResizes).1 _ rfl
    exact ⟨h', hmade⟩

end Ninfer.PagedKV
