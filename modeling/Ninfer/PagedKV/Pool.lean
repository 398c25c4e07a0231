import Ninfer.Commons.Call
import Ninfer.Commons.Word

/-!
# The paged KV pool

`core/paged_kv_cache.cpp`: a pool of page groups. Its free list is kept sorted, pages are taken
in runs where that is possible, and the counters of entitled and mapped pages are kept beside it.
Storage planes are left out: no function below reads them.

## Main definitions

* `PagedKVPoolSpec`: the extents of a pool
* `PagedKVPool`: the bookkeeping of a pool and its device block tables
* `PagedKVPool.takePages`, `PagedKVPool.returnPages`: the free list operations
* `PagedKVPool.canReserve`, `PagedKVPool.canReplaceEntitlement`: the entitlement checks

## Main results

* `takePages_spec`: the pages taken and the pages left are the pages that were free
* `returnPages_perm`, `returnPages_sorted`: returned pages are merged into the sorted free list
-/

namespace Ninfer.PagedKV

/-- `kPagedKVPageSize`: tokens in a page. -/
def kPagedKVPageSize : Nat := 64

/-- `std::numeric_limits<std::int32_t>::max()`. -/
def int32Max : Nat := 2 ^ 31 - 1

theorem one_le_int32Max : 1 ≤ int32Max := by decide

theorem two_le_int32Max : 2 ≤ int32Max := by decide

/-- `pages_for_tokens`. -/
def pagesForTokens (tokens : Nat) : Nat :=
  if tokens = 0 then 0 else 1 + (tokens - 1) / kPagedKVPageSize

/-- The extents of a pool. The bounds are those `plan_paged_kv_pool` checks. -/
structure PagedKVPoolSpec where
  pageGroupCount : Nat
  logicalPageCapacity : Nat
  tableRows : Nat
  pageGroupCount_pos : 0 < pageGroupCount
  pageGroupCount_le : pageGroupCount ≤ int32Max
  logicalPageCapacity_pos : 0 < logicalPageCapacity
  logicalPageCapacity_le : logicalPageCapacity ≤ int32Max
  tableRows_pos : 0 < tableRows
  tableRows_le : tableRows ≤ int32Max
  deriving DecidableEq, Repr

/-- `PagedKVPool`: the free list, the rows in use and the two page counters. `blockTables` is the
device matrix, by row and logical page. -/
structure PagedKVPool where
  spec : PagedKVPoolSpec
  blockTables : Nat → Nat → Nat
  freePageIds : List Nat
  rowInUse : List Bool
  entitledPages : Nat
  mappedPages : Nat

namespace PagedKVPool

/-- The pool as constructed: every page free, no row in use. -/
def fresh (spec : PagedKVPoolSpec) : PagedKVPool where
  spec := spec
  blockTables := fun _ _ => 0
  freePageIds := List.range spec.pageGroupCount
  rowInUse := List.replicate spec.tableRows false
  entitledPages := 0
  mappedPages := 0

variable (pool : PagedKVPool)

/-- `can_reserve`. -/
def canReserve (pageEntitlement : Nat) : Bool :=
  pageEntitlement != 0 && decide (pageEntitlement ≤ pool.spec.logicalPageCapacity) &&
    decide (pageEntitlement ≤ U32.sub pool.spec.pageGroupCount pool.entitledPages)

/-- `can_replace_entitlement`. -/
def canReplaceEntitlement (oldPages newPages : Nat) : Bool :=
  decide (oldPages ≤ pool.entitledPages) && decide (newPages ≤ pool.spec.logicalPageCapacity) &&
    decide (newPages ≤ U32.sub pool.spec.pageGroupCount (U32.sub pool.entitledPages oldPages))

/-- The `run_at` test of `take_pages`: `count` consecutive pages from the index `first`. -/
def runAt (free : List Nat) (count first : Nat) : Bool :=
  if free.length < first + count then false
  else (List.range' 1 (count - 1)).all fun offset =>
    free.getD (first + offset) 0 == free.getD first 0 + offset

/-- The index `take_pages` tries first: that of `preferredFirst`, when it is free and starts a
run; the end of the list otherwise. `std::lower_bound` is the first index not below it. -/
def preferredIndex (free : List Nat) (count : Nat) (preferredFirst : Int) : Nat :=
  if 0 ≤ preferredFirst then
    let first := free.findIdx fun page => decide (preferredFirst ≤ page)
    if first < free.length ∧ (free.getD first 0 : Int) = preferredFirst ∧
        runAt free count first then first
    else free.length
  else free.length

/-- The index `take_pages` selects, or the length of the list when no run is free. -/
def selectedIndex (free : List Nat) (count : Nat) (preferredFirst : Int) : Nat :=
  let preferred := preferredIndex free count preferredFirst
  if preferred = free.length then
    ((List.range (free.length + 1 - count)).find? (runAt free count)).getD free.length
  else preferred

/-- `take_pages`. -/
def takePages (count : Nat) (preferredFirst : Int) : Except Exception (List Nat × PagedKVPool) :=
  if count = 0 then .ok ([], pool)
  else if pool.freePageIds.length < count then
    .error (.logicError "Paged KV entitlement could not be materialized")
  else
    let free := pool.freePageIds
    let selected := selectedIndex free count preferredFirst
    -- Without a run the lowest pages are taken, which are those from the index zero.
    let first := if selected = free.length then 0 else selected
    .ok ((free.drop first).take count,
      { pool with
        freePageIds := free.take first ++ free.drop (first + count)
        mappedPages := U32.add pool.mappedPages count })

/-- `return_pages`. -/
def returnPages (pages : List Nat) : PagedKVPool :=
  if pages.isEmpty then pool
  else
    { pool with
      freePageIds := (pool.freePageIds ++ pages).insertionSort (· ≤ ·)
      mappedPages := U32.sub pool.mappedPages pages.length }

@[simp] theorem returnPages_spec (pages : List Nat) :
    (pool.returnPages pages).spec = pool.spec := by
  unfold returnPages
  split <;> rfl

@[simp] theorem returnPages_entitledPages (pages : List Nat) :
    (pool.returnPages pages).entitledPages = pool.entitledPages := by
  unfold returnPages
  split <;> rfl

@[simp] theorem returnPages_rowInUse (pages : List Nat) :
    (pool.returnPages pages).rowInUse = pool.rowInUse := by
  unfold returnPages
  split <;> rfl

/-- `add_entitlement`. -/
def addEntitlement (pages : Nat) : PagedKVPool :=
  { pool with entitledPages := U32.add pool.entitledPages pages }

/-- `replace_entitlement`. -/
def replaceEntitlement (oldPages newPages : Nat) : PagedKVPool :=
  { pool with entitledPages := U32.add (U32.sub pool.entitledPages oldPages) newPages }

@[simp] theorem replaceEntitlement_spec (m n : Nat) :
    (pool.replaceEntitlement m n).spec = pool.spec := rfl
@[simp] theorem replaceEntitlement_freePageIds (m n : Nat) :
    (pool.replaceEntitlement m n).freePageIds = pool.freePageIds := rfl
@[simp] theorem replaceEntitlement_mappedPages (m n : Nat) :
    (pool.replaceEntitlement m n).mappedPages = pool.mappedPages := rfl
@[simp] theorem replaceEntitlement_rowInUse (m n : Nat) :
    (pool.replaceEntitlement m n).rowInUse = pool.rowInUse := rfl

/-- `acquire_row`. -/
def acquireRow (row : Int) : Except Exception PagedKVPool :=
  if row < 0 ∨ (pool.spec.tableRows : Int) ≤ row then
    .error (.outOfRange "Paged KV block-table row out of range")
  else if pool.rowInUse.getD row.toNat false then
    .error (.logicError "Paged KV block-table row is already bound")
  else .ok { pool with rowInUse := pool.rowInUse.set row.toNat true }

/-- `release_row`. -/
def releaseRow (row : Int) : PagedKVPool :=
  { pool with rowInUse := pool.rowInUse.set row.toNat false }

/-- The device write of `publish_range`: `pages` from the logical page `firstPage` of `row`. -/
def publish (row firstPage : Nat) (pages : List Nat) : PagedKVPool :=
  { pool with
    blockTables := fun r logical =>
      if r = row ∧ firstPage ≤ logical ∧ logical < firstPage + pages.length then
        pages.getD (logical - firstPage) 0
      else pool.blockTables r logical }

/-! ## The free list -/

variable {pool}

/-- A selected run lies inside the free list. -/
theorem selectedIndex_run {free : List Nat} {count : Nat} {preferredFirst : Int}
    (h : selectedIndex free count preferredFirst ≠ free.length) :
    selectedIndex free count preferredFirst + count ≤ free.length := by
  have inside : ∀ i, runAt free count i = true → i + count ≤ free.length := by
    intro i hi
    unfold runAt at hi
    split at hi <;> first | omega | simp_all
  simp only [selectedIndex] at h ⊢
  split
  next hp =>
    rw [if_pos hp] at h
    cases hf : (List.range (free.length + 1 - count)).find? (runAt free count) with
    | none => simp [hf] at h
    | some i => simpa [hf] using inside i (List.find?_some hf)
  next hp =>
    simp only [preferredIndex] at hp ⊢
    split_ifs at hp ⊢ with h₀ h₁
    · exact inside _ h₁.2.2
    · exact absurd rfl hp
    · exact absurd rfl hp

/-- **Taking pages**: the pages taken and the pages left are those that were free, both in the
order of the free list, and only the free list and the mapped counter change. -/
theorem takePages_spec {count : Nat} {preferredFirst : Int} {taken : List Nat}
    {pool' : PagedKVPool} (hc : 0 < count)
    (h : pool.takePages count preferredFirst = .ok (taken, pool')) :
    taken.length = count ∧ (taken ++ pool'.freePageIds).Perm pool.freePageIds ∧
      pool'.freePageIds.Sublist pool.freePageIds ∧
      pool' = { pool with
        freePageIds := pool'.freePageIds
        mappedPages := U32.add pool.mappedPages count } := by
  unfold takePages at h
  rw [if_neg hc.ne'] at h
  split at h
  · cases h
  next hl =>
    simp only [Except.ok.injEq, Prod.mk.injEq] at h
    obtain ⟨rfl, rfl⟩ := h
    set free := pool.freePageIds
    set first := if selectedIndex free count preferredFirst = free.length then 0
      else selectedIndex free count preferredFirst with hfirst
    have inside : first + count ≤ free.length := by
      rw [hfirst]
      split
      · omega
      next hs => exact selectedIndex_run hs
    have hsplit : free = free.take first ++ ((free.drop first).take count ++
        free.drop (first + count)) := by
      conv_lhs => rw [← List.take_append_drop first free,
        ← List.take_append_drop count (free.drop first), List.drop_drop]
    refine ⟨by simp; omega, ?_, ?_, rfl⟩
    · calc (free.drop first).take count ++ (free.take first ++ free.drop (first + count))
          _ |>.Perm ((free.take first ++ (free.drop first).take count) ++
              free.drop (first + count)) := by
            rw [← List.append_assoc]
            exact List.perm_append_comm.append_right _
          _ |>.Perm free := by rw [List.append_assoc, ← hsplit]
    · conv_rhs => rw [hsplit]
      exact (List.Sublist.refl _).append (List.sublist_append_right _ _)

theorem returnPages_perm (pages : List Nat) :
    (pool.returnPages pages).freePageIds.Perm (pool.freePageIds ++ pages) := by
  unfold returnPages
  split
  next h => simp [List.isEmpty_iff.mp h]
  next h => exact List.perm_insertionSort _ _

theorem returnPages_sorted {pages : List Nat} (hs : pool.freePageIds.Pairwise (· < ·))
    (hd : (pool.freePageIds ++ pages).Nodup) :
    (pool.returnPages pages).freePageIds.Pairwise (· < ·) := by
  unfold returnPages
  split
  · exact hs
  · have hle : ((pool.freePageIds ++ pages).insertionSort (· ≤ ·)).Pairwise (· ≤ ·) :=
      List.pairwise_insertionSort _ _
    have hne := (List.perm_insertionSort (· ≤ ·) (pool.freePageIds ++ pages)).nodup_iff.mpr hd
    exact (hle.and hne).imp fun h => lt_of_le_of_ne h.1 h.2

end PagedKVPool

end Ninfer.PagedKV
