import Ninfer.PagedKV.Heap
import Ninfer.Commons.Ledger

/-!
# The books of a pool

A pool's free list, counters and row flags are redundant with its live allocations. The books
balance when the free pages together with the pages held are exactly the pages of the pool, and
each counter is the sum of what the allocations hold. Every operation on one allocation is an
`Exchange` between that allocation and its pool, and an exchange keeps the books balanced.

## Main definitions

* `pageShare`, `mappedShare`, `entitledShare`, `rowShare`: what an allocation holds of a pool
* `Books pool p held`: the pool's bookkeeping agrees with the allocations `held`
* `AllocInv`: an allocation maps no more than it is entitled to
* `HeapInv`: both, for every pool and every allocation
* `Exchange`: what an operation may do to one pool and one allocation

## Main results

* `HeapInv.exchange`, `HeapInv.move`: exchanges and moves keep the invariant
* `HeapInv.free_covers`: an allocation's unmapped entitlement is always free
-/

namespace Ninfer.PagedKV

variable {ι α : Type} [DecidableEq ι]

/-- The pages of the pool `p` that an allocation holds. -/
def pageShare (p : ι) (x : PagedKVAllocation ι) : Multiset ℕ := if x.pool = some p then x.pageIds else 0

/-- The number of pages of the pool `p` that an allocation maps. -/
def mappedShare (p : ι) (x : PagedKVAllocation ι) : ℕ := if x.pool = some p then x.pageIds.length else 0

/-- The entitlement to pages of the pool `p` that an allocation holds. -/
def entitledShare (p : ι) (x : PagedKVAllocation ι) : ℕ :=
  if x.pool = some p then x.pageEntitlement else 0

/-- One, when an allocation is bound to the row `r` of the pool `p`. -/
def rowShare (p : ι) (r : ℕ) (x : PagedKVAllocation ι) : ℕ :=
  if x.pool = some p ∧ x.boundRow = r then 1 else 0

/-- An allocation maps at most its entitlement, is bound within its block table, and is the
default object when it has no pool. -/
structure AllocInv (pools : ι → PagedKVPool) (x : PagedKVAllocation ι) : Prop where
  mapped_le : x.pageIds.length ≤ x.pageEntitlement
  row_lt : ∀ p, x.pool = some p → x.boundRow < (pools p).spec.tableRows
  row_ge : -1 ≤ x.boundRow
  dead : x.pool = none → x = {}

section Balance

variable [Fintype α]

/-- The bookkeeping of the pool at `p` agrees with the allocations held. -/
structure Books (pool : PagedKVPool) (p : ι) (held : α → PagedKVAllocation ι) : Prop where
  sorted : pool.freePageIds.Pairwise (· < ·)
  pages : (pool.freePageIds : Multiset ℕ) + outstanding (pageShare p) held =
    Multiset.range pool.spec.pageGroupCount
  mapped : pool.mappedPages = outstanding (mappedShare p) held
  entitled : pool.entitledPages = outstanding (entitledShare p) held
  entitled_le : pool.entitledPages ≤ pool.spec.pageGroupCount
  rows_length : pool.rowInUse.length = pool.spec.tableRows
  rows : ∀ r, r < pool.spec.tableRows →
    (pool.rowInUse.getD r false).toNat = outstanding (rowShare p r) held

/-- The invariant of the component: every pool's books balance, over the given extents. -/
structure HeapInv (specs : ι → PagedKVPoolSpec) (h : Heap ι α) : Prop where
  spec : ∀ p, (h.pools p).spec = specs p
  books : ∀ p, Books (h.pools p) p h.allocs
  alloc : ∀ a, AllocInv h.pools (h.allocs a)

variable {specs : ι → PagedKVPoolSpec} {h : Heap ι α} {p : ι} {pool : PagedKVPool}
  {held : α → PagedKVAllocation ι}

theorem heapInv_init (specs : ι → PagedKVPoolSpec) : HeapInv specs (Heap.init specs : Heap ι α) where
  spec := fun _ => rfl
  books := fun p => by
    have none_held : ∀ {M : Type} [AddCommMonoid M] (share : PagedKVAllocation ι → M),
        share {} = 0 → outstanding share (Heap.init specs : Heap ι α).allocs = 0 :=
      fun share hs => outstanding_eq_zero fun _ => hs
    refine ⟨List.pairwise_lt_range, ?_, ?_, ?_, Nat.zero_le _, by simp [Heap.init, PagedKVPool.fresh], ?_⟩
    · rw [none_held _ (by simp [pageShare]), add_zero]
      rfl
    · rw [none_held _ (by simp [mappedShare])]
      rfl
    · rw [none_held _ (by simp [entitledShare])]
      rfl
    · intro r hr
      rw [none_held _ (by simp [rowShare])]
      have hrow : (List.replicate (specs p).tableRows false).getD r false = false :=
        List.getD_replicate false hr
      simp only [Heap.init, PagedKVPool.fresh, hrow, Bool.toNat_false]
  alloc := fun _ => ⟨by simp [Heap.init], by simp [Heap.init], by simp [Heap.init], fun _ => rfl⟩

/-! ## What the books say -/

theorem Books.lt_size (hb : Books pool p held) : pool.entitledPages < U32.size := by
  have h₁ := hb.entitled_le
  have h₂ := pool.spec.pageGroupCount_le
  unfold int32Max at h₂
  exact U32.lt_size (by omega)

/-- The free pages are those that are not mapped. -/
theorem Books.free_length (hb : Books pool p held) :
    pool.freePageIds.length + pool.mappedPages = pool.spec.pageGroupCount := by
  have hc : (outstanding (pageShare p) held).card = outstanding (mappedShare p) held := by
    unfold outstanding
    rw [Multiset.card_sum]
    refine Finset.sum_congr rfl fun a _ => ?_
    unfold pageShare mappedShare
    split <;> simp
  have := congrArg Multiset.card hb.pages
  rw [Multiset.card_add, hc, ← hb.mapped, Multiset.card_range, Multiset.coe_card] at this
  exact this

/-- A page held is not free and not held twice. -/
theorem Books.nodup (hb : Books pool p held) (a : α) (ha : (held a).pool = some p) :
    (pool.freePageIds ++ (held a).pageIds).Nodup := by
  classical
  have hle : ((pool.freePageIds ++ (held a).pageIds : List ℕ) : Multiset ℕ) ≤
      Multiset.range pool.spec.pageGroupCount := by
    rw [← hb.pages, outstanding_eq_add _ _ a, ← Multiset.coe_add]
    refine add_le_add_right ?_ _
    rw [pageShare, if_pos ha]
    exact Multiset.le_add_right _ _
  exact Multiset.coe_nodup.mp (Multiset.nodup_of_le hle (Multiset.nodup_range _))

theorem HeapInv.mapped_le (hi : HeapInv specs h) (a : α) :
    (h.allocs a).pageIds.length ≤ (h.allocs a).pageEntitlement :=
  (hi.alloc a).mapped_le

/-- **The unmapped entitlement of an allocation is free**: every other allocation maps no more
than its own entitlement, and the entitlements fit the pool. -/
theorem HeapInv.free_covers (hi : HeapInv specs h) (a : α) (ha : (h.allocs a).pool = some p) :
    (h.allocs a).pageEntitlement - (h.allocs a).pageIds.length ≤ (h.pools p).freePageIds.length := by
  classical
  have hb := hi.books p
  have hfree := hb.free_length
  have hle := hb.entitled_le
  rw [hb.mapped] at hfree
  rw [hb.entitled] at hle
  rw [outstanding_eq_add _ _ a] at hfree hle
  have others : ∑ b ∈ Finset.univ.erase a, mappedShare p (h.allocs b) ≤
      ∑ b ∈ Finset.univ.erase a, entitledShare p (h.allocs b) := by
    refine Finset.sum_le_sum fun b _ => ?_
    unfold mappedShare entitledShare
    split
    · exact hi.mapped_le b
    · exact le_refl 0
  have hm : mappedShare p (h.allocs a) = (h.allocs a).pageIds.length := if_pos ha
  have he : entitledShare p (h.allocs a) = (h.allocs a).pageEntitlement := if_pos ha
  omega

theorem HeapInv.entitled_of_owner (hi : HeapInv specs h) (a : α)
    (ha : (h.allocs a).pool = some p) :
    (h.allocs a).pageEntitlement ≤ (h.pools p).entitledPages := by
  have := share_le_outstanding (entitledShare p) h.allocs a
  rw [entitledShare, if_pos ha, ← (hi.books p).entitled] at this
  exact this

end Balance

/-! ## Exchanges -/

/-- What an operation may do to the pool at `p` and to one allocation: pages, entitlement and row
go over between the two, and nothing is created or lost. -/
structure Exchange (p : ι) (pool : PagedKVPool) (x : PagedKVAllocation ι) (pool' : PagedKVPool)
    (x' : PagedKVAllocation ι) : Prop where
  spec : pool'.spec = pool.spec
  owner : x.pool = none ∨ x.pool = some p
  owner' : x'.pool = none ∨ x'.pool = some p
  sorted : pool'.freePageIds.Pairwise (· < ·)
  pages : (pool'.freePageIds : Multiset ℕ) + pageShare p x' = pool.freePageIds + pageShare p x
  mapped : pool'.mappedPages + mappedShare p x = pool.mappedPages + mappedShare p x'
  entitled : pool'.entitledPages + entitledShare p x = pool.entitledPages + entitledShare p x'
  entitled_le : pool'.entitledPages ≤ pool.spec.pageGroupCount
  rows_length : pool'.rowInUse.length = pool.rowInUse.length
  rows : ∀ r, r < pool.spec.tableRows →
    (pool'.rowInUse.getD r false).toNat + rowShare p r x =
      (pool.rowInUse.getD r false).toNat + rowShare p r x'
  alloc : ∀ pools : ι → PagedKVPool, (pools p).spec = pool.spec → AllocInv pools x'

omit [DecidableEq ι] in
theorem share_of_not_owner {p q : ι} {x : PagedKVAllocation ι} (hne : q ≠ p)
    (hx : x.pool = none ∨ x.pool = some p) : x.pool ≠ some q := by
  rcases hx with hx | hx <;> rw [hx]
  · simp
  · simpa using fun h => hne h.symm

variable [DecidableEq α] [Fintype α]
  {specs : ι → PagedKVPoolSpec} {h : Heap ι α} {p : ι} {pool' : PagedKVPool} {a : α}
  {x' : PagedKVAllocation ι}

theorem Books.exchange (hb : Books (h.pools p) p h.allocs)
    (he : Exchange p (h.pools p) (h.allocs a) pool' x') :
    Books pool' p (Function.update h.allocs a x') where
  sorted := he.sorted
  pages := by
    have hu := outstanding_update (pageShare p) h.allocs a x'
    have hp := hb.pages
    rw [he.spec, ← hp]
    -- Both sides are compared after adding the share that came back.
    apply add_right_cancel (b := pageShare p (h.allocs a))
    rw [add_assoc, hu, add_comm (outstanding _ _), ← add_assoc, he.pages, add_right_comm]
  mapped := by
    have hu := outstanding_update (mappedShare p) h.allocs a x'
    have hm := hb.mapped
    have := he.mapped
    omega
  entitled := by
    have hu := outstanding_update (entitledShare p) h.allocs a x'
    have hm := hb.entitled
    have := he.entitled
    omega
  entitled_le := he.spec ▸ he.entitled_le
  rows_length := by rw [he.rows_length, hb.rows_length, he.spec]
  rows := by
    intro r hr
    rw [he.spec] at hr
    have hu := outstanding_update (rowShare p r) h.allocs a x'
    have hm := hb.rows r hr
    have := he.rows r hr
    omega

/-- The books of another pool do not change. -/
theorem Books.frame {q : ι} {pool : PagedKVPool} (hb : Books pool q h.allocs)
    (hx : (h.allocs a).pool ≠ some q) (hx' : x'.pool ≠ some q) :
    Books pool q (Function.update h.allocs a x') where
  sorted := hb.sorted
  pages := by
    rw [outstanding_update_of_eq (by simp [pageShare, hx, hx'])]
    exact hb.pages
  mapped := by
    rw [outstanding_update_of_eq (by simp [mappedShare, hx, hx'])]
    exact hb.mapped
  entitled := by
    rw [outstanding_update_of_eq (by simp [entitledShare, hx, hx'])]
    exact hb.entitled
  entitled_le := hb.entitled_le
  rows_length := hb.rows_length
  rows := by
    intro r hr
    rw [outstanding_update_of_eq (by simp [rowShare, hx, hx'])]
    exact hb.rows r hr

omit [DecidableEq ι] in
theorem AllocInv.congr {pools pools' : ι → PagedKVPool} {x : PagedKVAllocation ι}
    (hx : AllocInv pools x) (hs : ∀ q, (pools' q).spec = (pools q).spec) : AllocInv pools' x where
  mapped_le := hx.mapped_le
  row_lt := fun q hq => hs q ▸ hx.row_lt q hq
  row_ge := hx.row_ge
  dead := hx.dead

omit [DecidableEq ι] in
/-- An allocation that keeps its pool and its row, and maps no more than its entitlement. -/
theorem AllocInv.keep {pools : ι → PagedKVPool} {x x' : PagedKVAllocation ι}
    (hx : AllocInv pools x) (ha : x.pool = some p) (hp : x'.pool = x.pool)
    (hr : x'.boundRow = x.boundRow) (hm : x'.pageIds.length ≤ x'.pageEntitlement)
    (pools' : ι → PagedKVPool) (hs : (pools' p).spec = (pools p).spec) : AllocInv pools' x' where
  mapped_le := hm
  row_lt := by
    intro q hq
    obtain rfl : p = q := by simpa [hp, ha] using hq
    rw [hs, hr]
    exact hx.row_lt p ha
  row_ge := hr ▸ hx.row_ge
  dead := fun hq => by simp [hp, ha] at hq

omit [Fintype α] in
/-- An exchange keeps the extents of every pool. -/
theorem Exchange.put_spec (he : Exchange p (h.pools p) (h.allocs a) pool' x') (q : ι) :
    ((h.put p pool' a x').pools q).spec = (h.pools q).spec := by
  by_cases hq : q = p
  · subst hq
    rw [Heap.put_pools, he.spec]
  · rw [Heap.put_pools_of_ne _ hq]

/-- **An exchange keeps the invariant.** -/
theorem HeapInv.exchange (hi : HeapInv specs h)
    (he : Exchange p (h.pools p) (h.allocs a) pool' x') : HeapInv specs (h.put p pool' a x') where
  spec := fun q => (he.put_spec q).trans (hi.spec q)
  books := by
    intro q
    by_cases hq : q = p
    · subst hq
      rw [Heap.put_pools]
      exact (hi.books q).exchange he
    · rw [Heap.put_pools_of_ne _ hq]
      exact (hi.books q).frame (share_of_not_owner hq he.owner) (share_of_not_owner hq he.owner')
  alloc := by
    intro b
    by_cases hb : b = a
    · subst hb
      rw [Heap.put_allocs]
      exact he.alloc _ (he.put_spec p)
    · rw [Heap.put_allocs_of_ne _ hb]
      exact (hi.alloc b).congr he.put_spec

/-- **A move keeps the invariant**: the object at `target` was empty. -/
theorem HeapInv.move (hi : HeapInv specs h) {target source : α} (hne : target ≠ source)
    (hdead : (h.allocs target).pool = none) : HeapInv specs (moveConstruct target source h) where
  spec := hi.spec
  books := fun q => by
    have hb := hi.books q
    have moved : ∀ {M : Type} [AddCommMonoid M] (share : PagedKVAllocation ι → M),
        (∀ x : PagedKVAllocation ι, x.pool = none → share x = 0) →
        outstanding share (moveConstruct target source h).allocs = outstanding share h.allocs :=
      fun share hs => outstanding_move hne (hs _ hdead) (hs _ rfl)
    refine ⟨hb.sorted, ?_, ?_, ?_, hb.entitled_le, hb.rows_length, fun r hr => ?_⟩
    · rw [moved _ fun x hx => by simp [pageShare, hx]]
      exact hb.pages
    · rw [moved _ fun x hx => by simp [mappedShare, hx]]
      exact hb.mapped
    · rw [moved _ fun x hx => by simp [entitledShare, hx]]
      exact hb.entitled
    · rw [moved _ fun x hx => by simp [rowShare, hx]]
      exact hb.rows r hr
  alloc := by
    intro b
    simp only [moveConstruct]
    by_cases hb : b = source
    · subst hb
      rw [Function.update_self]
      exact ⟨by simp, by simp, by simp, fun _ => rfl⟩
    · rw [Function.update_of_ne hb]
      by_cases ht : b = target
      · subst ht
        rw [Function.update_self]
        exact hi.alloc source
      · rw [Function.update_of_ne ht]
        exact hi.alloc b

end Ninfer.PagedKV
