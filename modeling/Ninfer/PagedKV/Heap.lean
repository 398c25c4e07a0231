import Ninfer.PagedKV.Pool

/-!
# Pools and the allocations that draw on them

`core/paged_kv_cache.cpp`: a `PagedKVAllocation` refers to its pool, and the operations on it
change both. The state of the component is therefore a heap: pools at the addresses `ι`,
allocation objects at the addresses `α`. An address without a live object holds the default
object, which is also what a move or a release leaves.

Host vectors are assumed to grow when asked to, and a failed CUDA call aborts the process, so
neither is an outcome of a call.

## Main definitions

* `PagedKVAllocation`, `Heap`: the objects and where they live
* `reserve`, `setPageEntitlement`, `cancelUnmappedEntitlement`, `materializePages`, `trimPages`,
  `bindRow`, `unbindRow`, `moveConstruct`, `moveAssign`, `release`: the operations
* `reservePagedKVBundle`, `resizePagedKVBundle`: the two operations on several pools
-/

namespace Ninfer.PagedKV

/-- `PagedKVAllocation`. -/
structure PagedKVAllocation (ι : Type) where
  pool : Option ι := none
  pageIds : List Nat := []
  pageEntitlement : Nat := 0
  boundRow : Int := -1
  deriving DecidableEq, Repr

namespace PagedKVAllocation

variable {ι : Type} (x : PagedKVAllocation ι)

/-- `mapped_page_count`. -/
abbrev mappedPageCount : Nat := x.pageIds.length

/-- `mapped_token_capacity`. -/
def mappedTokenCapacity : Nat := (x.mappedPageCount * kPagedKVPageSize) % U32.size

/-- The page after the last mapped one, which `materialize_pages` prefers; `-1` without one. -/
def preferredPage : Int :=
  match x.pageIds.getLast? with
  | none => -1
  | some page => page + 1

/-- The allocation with another entitlement. -/
def withEntitlement (pages : Nat) : PagedKVAllocation ι := { x with pageEntitlement := pages }

/-- The allocation with other pages. -/
def withPages (pages : List Nat) : PagedKVAllocation ι := { x with pageIds := pages }

/-- The allocation with another row. -/
def withRow (row : Int) : PagedKVAllocation ι := { x with boundRow := row }

@[simp] theorem withEntitlement_pool (n : Nat) : (x.withEntitlement n).pool = x.pool := rfl
@[simp] theorem withEntitlement_pageIds (n : Nat) : (x.withEntitlement n).pageIds = x.pageIds := rfl
@[simp] theorem withEntitlement_pageEntitlement (n : Nat) :
    (x.withEntitlement n).pageEntitlement = n := rfl
@[simp] theorem withEntitlement_boundRow (n : Nat) :
    (x.withEntitlement n).boundRow = x.boundRow := rfl
@[simp] theorem withEntitlement_self : x.withEntitlement x.pageEntitlement = x := rfl
@[simp] theorem withPages_self : x.withPages x.pageIds = x := rfl
@[simp] theorem withPages_pool (l : List Nat) : (x.withPages l).pool = x.pool := rfl
@[simp] theorem withPages_pageIds (l : List Nat) : (x.withPages l).pageIds = l := rfl
@[simp] theorem withPages_pageEntitlement (l : List Nat) :
    (x.withPages l).pageEntitlement = x.pageEntitlement := rfl
@[simp] theorem withPages_boundRow (l : List Nat) : (x.withPages l).boundRow = x.boundRow := rfl
@[simp] theorem withRow_pool (r : Int) : (x.withRow r).pool = x.pool := rfl
@[simp] theorem withRow_pageIds (r : Int) : (x.withRow r).pageIds = x.pageIds := rfl
@[simp] theorem withRow_pageEntitlement (r : Int) :
    (x.withRow r).pageEntitlement = x.pageEntitlement := rfl
@[simp] theorem withRow_boundRow (r : Int) : (x.withRow r).boundRow = r := rfl

end PagedKVAllocation

/-- Pools at the addresses `ι` and allocation objects at the addresses `α`. -/
structure Heap (ι α : Type) where
  pools : ι → PagedKVPool
  allocs : α → PagedKVAllocation ι

variable {ι α : Type} [DecidableEq ι] [DecidableEq α]

namespace Heap

/-- The heap with the pool at `p` and the allocation at `a` replaced. -/
def put (h : Heap ι α) (p : ι) (pool : PagedKVPool) (a : α) (x : PagedKVAllocation ι) :
    Heap ι α where
  pools := Function.update h.pools p pool
  allocs := Function.update h.allocs a x

@[simp] theorem put_pools (h : Heap ι α) (p : ι) (pool : PagedKVPool) (a : α)
    (x : PagedKVAllocation ι) : (h.put p pool a x).pools p = pool := Function.update_self ..

@[simp] theorem put_allocs (h : Heap ι α) (p : ι) (pool : PagedKVPool) (a : α)
    (x : PagedKVAllocation ι) : (h.put p pool a x).allocs a = x := Function.update_self ..

theorem put_pools_of_ne (h : Heap ι α) {p q : ι} (hq : q ≠ p) (pool : PagedKVPool) (a : α)
    (x : PagedKVAllocation ι) : (h.put p pool a x).pools q = h.pools q :=
  Function.update_of_ne hq ..

theorem put_allocs_of_ne (h : Heap ι α) {a b : α} (hb : b ≠ a) (p : ι) (pool : PagedKVPool)
    (x : PagedKVAllocation ι) : (h.put p pool a x).allocs b = h.allocs b :=
  Function.update_of_ne hb ..

@[simp] theorem put_put (h : Heap ι α) (p : ι) (pool pool' : PagedKVPool) (a : α)
    (x x' : PagedKVAllocation ι) : (h.put p pool a x).put p pool' a x' = h.put p pool' a x' := by
  simp [put]

@[simp] theorem put_self (h : Heap ι α) (p : ι) (a : α) :
    h.put p (h.pools p) a (h.allocs a) = h := by
  simp [put]

/-- The state at start: fresh pools, and no allocation. -/
def init (specs : ι → PagedKVPoolSpec) : Heap ι α where
  pools := fun p => PagedKVPool.fresh (specs p)
  allocs := fun _ => {}

end Heap

/-- `PagedKVPool::reserve`, constructing the allocation it returns at the address `target`. -/
def reserve (p : ι) (pageEntitlement : Nat) (target : α) : Call (Heap ι α) Unit := fun h =>
  if (h.pools p).canReserve pageEntitlement then
    .ok () (h.put p ((h.pools p).addEntitlement pageEntitlement) target
      { pool := some p, pageEntitlement := pageEntitlement })
  else .error .badAlloc h

/-- `PagedKVAllocation::set_page_entitlement`. -/
def setPageEntitlement (a : α) (pages : Nat) : Call (Heap ι α) Unit := fun h =>
  match (h.allocs a).pool with
  | none => .error (.invalidArgument "Paged KV entitlement is smaller than mapped pages") h
  | some p =>
    if pages < (h.allocs a).mappedPageCount then
      .error (.invalidArgument "Paged KV entitlement is smaller than mapped pages") h
    else if (h.pools p).canReplaceEntitlement (h.allocs a).pageEntitlement pages then
      .ok () (h.put p ((h.pools p).replaceEntitlement (h.allocs a).pageEntitlement pages) a
        ((h.allocs a).withEntitlement pages))
    else .error .badAlloc h

/-- `PagedKVAllocation::cancel_unmapped_entitlement`. -/
def cancelUnmappedEntitlement (a : α) (h : Heap ι α) : Heap ι α :=
  match (h.allocs a).pool with
  | none => h
  | some p =>
    h.put p ((h.pools p).replaceEntitlement (h.allocs a).pageEntitlement (h.allocs a).mappedPageCount) a
      ((h.allocs a).withEntitlement (h.allocs a).mappedPageCount)

/-- `PagedKVAllocation::publish_range`: the pages from `firstPage` go to the bound row. -/
def publishRange (p : ι) (a : α) (firstPage pageCount : Nat) : Call (Heap ι α) Unit := fun h =>
  if pageCount = 0 then .ok () h
  else if (h.allocs a).boundRow < 0 ∨ ((h.pools p).spec.tableRows : Int) ≤ (h.allocs a).boundRow then
    .error (.outOfRange "Paged KV block-table row out of range") h
  else
    .ok () (h.put p ((h.pools p).publish (h.allocs a).boundRow.toNat firstPage
      (((h.allocs a).pageIds.drop firstPage).take pageCount)) a (h.allocs a))

/-- `PagedKVAllocation::materialize_pages`. -/
def materializePages (a : α) (pages : Nat) : Call (Heap ι α) Unit := fun h =>
  match (h.allocs a).pool with
  | none => .error (.invalidArgument "Paged KV materialize extent is outside entitlement") h
  | some p =>
    if pages < (h.allocs a).mappedPageCount ∨ (h.allocs a).pageEntitlement < pages then
      .error (.invalidArgument "Paged KV materialize extent is outside entitlement") h
    else if pages - (h.allocs a).mappedPageCount = 0 then .ok () h
    else
      match (h.pools p).takePages (pages - (h.allocs a).mappedPageCount) (h.allocs a).preferredPage with
      | .error e => .error e h
      | .ok (acquired, pool) =>
        let h' := h.put p pool a ((h.allocs a).withPages ((h.allocs a).pageIds ++ acquired))
        if 0 ≤ (h.allocs a).boundRow then
          publishRange p a (h.allocs a).mappedPageCount (pages - (h.allocs a).mappedPageCount) h'
        else .ok () h'

/-- `PagedKVAllocation::materialize_tokens`. -/
def materializeTokens (a : α) (tokens : Nat) : Call (Heap ι α) Unit :=
  materializePages a (pagesForTokens tokens)

/-- `PagedKVAllocation::trim_pages`. -/
def trimPages (a : α) (pages : Nat) : Call (Heap ι α) Unit := fun h =>
  match (h.allocs a).pool with
  | none => .error (.logicError "Cannot trim an empty Paged KV allocation") h
  | some p =>
    if (h.allocs a).mappedPageCount < pages then
      .error (.invalidArgument "Paged KV trim extent exceeds mapped pages") h
    else if pages = (h.allocs a).mappedPageCount then .ok () h
    else
      .ok () (h.put p ((h.pools p).returnPages ((h.allocs a).pageIds.drop pages)) a
        ((h.allocs a).withPages ((h.allocs a).pageIds.take pages)))

/-- `PagedKVAllocation::trim_tokens`. -/
def trimTokens (a : α) (tokens : Nat) : Call (Heap ι α) Unit := trimPages a (pagesForTokens tokens)

/-- `PagedKVAllocation::publish_mapping`. -/
def publishMapping (p : ι) (a : α) : Call (Heap ι α) Unit := fun h =>
  if (h.allocs a).boundRow < 0 then .error (.logicError "Paged KV allocation is not bound") h
  else publishRange p a 0 (h.allocs a).mappedPageCount h

/-- `PagedKVAllocation::bind_row`. -/
def bindRow (a : α) (row : Int) : Call (Heap ι α) Unit := fun h =>
  match (h.allocs a).pool with
  | none => .error (.logicError "Cannot bind an empty Paged KV allocation") h
  | some p =>
    if 0 ≤ (h.allocs a).boundRow then .error (.logicError "Paged KV allocation is already bound") h
    else
      match (h.pools p).acquireRow row with
      | .error e => .error e h
      | .ok pool => publishMapping p a (h.put p pool a ((h.allocs a).withRow row))

/-- `PagedKVAllocation::unbind_row`. -/
def unbindRow (a : α) (h : Heap ι α) : Heap ι α :=
  if (h.allocs a).boundRow < 0 then h
  else
    match (h.allocs a).pool with
    -- A null pool is never dereferenced: an object without a pool has no row.
    | none => h
    | some p => h.put p ((h.pools p).releaseRow (h.allocs a).boundRow) a ((h.allocs a).withRow (-1))

/-- `PagedKVAllocation::release`, which is also what the destructor runs. -/
def release (a : α) (h : Heap ι α) : Heap ι α :=
  match (h.allocs a).pool with
  | none => h
  | some p =>
    let h' := unbindRow a h
    h'.put p (((h'.pools p).returnPages (h'.allocs a).pageIds).replaceEntitlement
      (h'.allocs a).pageEntitlement 0) a {}

/-- The move constructor: the object at `target` takes over, `source` is left empty. -/
def moveConstruct (target source : α) (h : Heap ι α) : Heap ι α :=
  { h with
    allocs := Function.update (Function.update h.allocs target (h.allocs source)) source {} }

/-- The move assignment. -/
def moveAssign (target source : α) (h : Heap ι α) : Heap ι α :=
  if target = source then h else moveConstruct target source (release target h)

/-! ## Bundles -/

/-- `PagedKVReservation`, with the address at which its allocation is constructed. -/
structure PagedKVReservation (ι α : Type) where
  pool : Option ι
  pageEntitlement : Nat
  target : α
  deriving DecidableEq, Repr

/-- `PagedKVResize`. -/
structure PagedKVResize (α : Type) where
  allocation : Option α
  mappedPages : Nat
  pageEntitlement : Nat
  deriving DecidableEq, Repr

/-- `validate_distinct_pools`, from the reservations `seen` on. -/
def validateDistinctPools (seen : List ι) :
    List (PagedKVReservation ι α) → Except Exception (List (ι × Nat × α))
  | [] => .ok []
  | r :: rs =>
    match r.pool with
    | none => .error (.invalidArgument "Paged KV reservation must name a pool and pages")
    | some p =>
      if r.pageEntitlement = 0 then
        .error (.invalidArgument "Paged KV reservation must name a pool and pages")
      else if p ∈ seen then
        .error (.invalidArgument "Paged KV bundle contains the same pool twice")
      else (validateDistinctPools (p :: seen) rs).map ((p, r.pageEntitlement, r.target) :: ·)

/-- The apply loop of `reserve_paged_kv_bundle`. When a reservation throws, the vector of the
allocations made before it is destroyed. -/
def applyReservations : List (ι × Nat × α) → Call (Heap ι α) Unit
  | [] => pure ()
  | (p, pages, target) :: rs => do
    reserve p pages target
    Call.handle (applyReservations rs) fun e h => .error e (release target h)

/-- The checks of `reserve_paged_kv_bundle`. -/
def validateReservations (reservations : List (PagedKVReservation ι α)) (h : Heap ι α) :
    Except Exception (List (ι × Nat × α)) :=
  match validateDistinctPools [] reservations with
  | .error e => .error e
  | .ok named =>
    if named.all fun r => (h.pools r.1).canReserve r.2.1 then .ok named else .error .badAlloc

/-- `reserve_paged_kv_bundle`. -/
def reservePagedKVBundle (reservations : List (PagedKVReservation ι α)) :
    Call (Heap ι α) Unit := fun h =>
  match validateReservations reservations h with
  | .error e => .error e h
  | .ok named => applyReservations named h

/-- The validation loop of `resize_paged_kv_bundle`, from the pools `seen` on. Two changes of one
allocation are two changes of one pool. -/
def validateResizes (h : Heap ι α) (seen : List ι) :
    List (PagedKVResize α) → Except Exception (List (α × Nat × Nat))
  | [] => .ok []
  | change :: changes =>
    match change.allocation with
    | none => .error (.invalidArgument "Paged KV resize must name a live allocation")
    | some a =>
      match (h.allocs a).pool with
      | none => .error (.invalidArgument "Paged KV resize must name a live allocation")
      | some p =>
        if (h.allocs a).mappedPageCount < change.mappedPages ∨
            change.pageEntitlement < change.mappedPages then
          .error (.invalidArgument "Paged KV resize extents are inconsistent")
        else if p ∈ seen then
          .error (.invalidArgument "Paged KV resize contains the same pool twice")
        else if (h.pools p).canReplaceEntitlement (h.allocs a).pageEntitlement
            change.pageEntitlement then
          (validateResizes h (p :: seen) changes).map
            ((a, change.mappedPages, change.pageEntitlement) :: ·)
        else .error .badAlloc

/-- The apply loop of `resize_paged_kv_bundle`. -/
def applyResizes : List (α × Nat × Nat) → Call (Heap ι α) Unit
  | [] => pure ()
  | (a, mapped, entitlement) :: changes => do
    trimPages a mapped
    setPageEntitlement a entitlement
    applyResizes changes

/-- `resize_paged_kv_bundle`. -/
def resizePagedKVBundle (changes : List (PagedKVResize α)) : Call (Heap ι α) Unit := fun h =>
  match validateResizes h [] changes with
  | .error e => .error e h
  | .ok named => applyResizes named h

end Ninfer.PagedKV
