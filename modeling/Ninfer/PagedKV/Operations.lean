import Ninfer.PagedKV.Invariant

/-!
# The operations keep the books

Each operation on an allocation is an exchange with its pool, so that each of them keeps the
invariant of the heap, whether it returns or throws. The last section reads off what an operation
that returned has done.

## Main results

* `reserve_inv`, `setPageEntitlement_inv`, `cancelUnmappedEntitlement_inv`,
  `materializePages_inv`, `trimPages_inv`, `bindRow_inv`, `unbindRow_inv`, `release_inv`,
  `moveAssign_inv`: the operations keep the invariant
* `takePages_of_inv`: the pages of an entitlement can always be taken
* `canReserve_iff`, `canReplaceEntitlement_iff`: the entitlement checks without wrap-around
-/

namespace Ninfer.PagedKV

variable {ι α : Type} [DecidableEq ι] [DecidableEq α] [Fintype α]
  {specs : ι → PagedKVPoolSpec} {h : Heap ι α} {p : ι} {a : α} {pool : PagedKVPool}
  {held : α → PagedKVAllocation ι}

/-! ## The checks -/

omit [DecidableEq α] in
theorem Books.sub_entitled (hb : Books pool p held) :
    U32.sub pool.spec.pageGroupCount pool.entitledPages =
      pool.spec.pageGroupCount - pool.entitledPages := by
  have h₂ := pool.spec.pageGroupCount_le
  unfold int32Max at h₂
  exact U32.sub_eq hb.entitled_le (U32.lt_size (by omega))

omit [DecidableEq α] in
theorem canReserve_iff (hb : Books pool p held) {pages : Nat} :
    pool.canReserve pages = true ↔ pages ≠ 0 ∧ pages ≤ pool.spec.logicalPageCapacity ∧
      pool.entitledPages + pages ≤ pool.spec.pageGroupCount := by
  have hle := hb.entitled_le
  simp only [PagedKVPool.canReserve, hb.sub_entitled, Bool.and_eq_true, bne_iff_ne,
    decide_eq_true_eq, and_assoc]
  constructor
  · rintro ⟨h₁, h₂, h₃⟩
    exact ⟨h₁, h₂, by omega⟩
  · rintro ⟨h₁, h₂, h₃⟩
    exact ⟨h₁, h₂, by omega⟩

omit [DecidableEq α] in
theorem canReplaceEntitlement_iff (hb : Books pool p held) {oldPages newPages : Nat} :
    pool.canReplaceEntitlement oldPages newPages = true ↔
      oldPages ≤ pool.entitledPages ∧ newPages ≤ pool.spec.logicalPageCapacity ∧
        pool.entitledPages - oldPages + newPages ≤ pool.spec.pageGroupCount := by
  have hle := hb.entitled_le
  have hsize := hb.lt_size
  have h₂ := pool.spec.pageGroupCount_le
  simp only [PagedKVPool.canReplaceEntitlement, Bool.and_eq_true, decide_eq_true_eq, and_assoc]
  refine and_congr_right fun hold => and_congr_right fun _ => ?_
  rw [U32.sub_eq hold hsize, U32.sub_eq (by omega) (U32.lt_size (by unfold int32Max at h₂; omega))]
  omega

/-! ## Counters and rows of one exchange -/

omit [DecidableEq α] in
/-- Replacing an entitlement that is part of the total does not wrap. -/
theorem Books.replace_eq (hb : Books pool p held) {oldPages newPages : Nat}
    (hold : oldPages ≤ pool.entitledPages)
    (hnew : pool.entitledPages - oldPages + newPages ≤ pool.spec.pageGroupCount) :
    (pool.replaceEntitlement oldPages newPages).entitledPages =
      pool.entitledPages - oldPages + newPages := by
  have h₂ := pool.spec.pageGroupCount_le
  simp only [PagedKVPool.replaceEntitlement]
  rw [U32.sub_eq hold hb.lt_size, U32.add_eq (U32.lt_size (by unfold int32Max at h₂; omega))]

theorem rowInUse_set_self {rows : List Bool} {r : Nat} (hr : r < rows.length) (b : Bool) :
    (rows.set r b).getD r false = b := by
  simp [List.getD_eq_getElem?_getD, hr]

theorem rowInUse_set_of_ne {rows : List Bool} {r s : Nat} (hne : s ≠ r) (b : Bool) :
    (rows.set r b).getD s false = rows.getD s false := by
  simp [List.getD_eq_getElem?_getD, List.getElem?_set_ne hne.symm]

/-! ## Entitlement -/

omit [DecidableEq α] in
/-- A dead object holds no share. -/
theorem exchange_reserve (hi : HeapInv specs h) {pages : Nat}
    (hc : (h.pools p).canReserve pages = true) (hdead : (h.allocs a).pool = none) :
    Exchange p (h.pools p) (h.allocs a) ((h.pools p).addEntitlement pages)
      { pool := some p, pageEntitlement := pages } := by
  have hb := hi.books p
  obtain ⟨-, -, hfit⟩ := (canReserve_iff hb).mp hc
  have h₂ := (h.pools p).spec.pageGroupCount_le
  have hadd : ((h.pools p).addEntitlement pages).entitledPages =
      (h.pools p).entitledPages + pages :=
    U32.add_eq (U32.lt_size (by unfold int32Max at h₂; omega))
  refine
    { spec := rfl, owner := Or.inl hdead, owner' := Or.inr rfl, sorted := hb.sorted
      pages := ?_, mapped := ?_, entitled := ?_, entitled_le := ?_, rows_length := rfl
      rows := ?_, alloc := ?_ }
  · simp [pageShare, hdead, PagedKVPool.addEntitlement]
  · simp [mappedShare, hdead, PagedKVPool.addEntitlement]
  · rw [hadd]
    simp [entitledShare, hdead]
  · rw [hadd]
    exact hfit
  · intro r hr
    simp [rowShare, hdead, PagedKVPool.addEntitlement]
  · intro pools hs
    refine ⟨by simp, fun q hq => ?_, by simp, fun hq => by cases hq⟩
    have := (pools q).spec.tableRows_pos
    simp only
    omega

omit [DecidableEq α] in
theorem exchange_replace (hi : HeapInv specs h) (ha : (h.allocs a).pool = some p) {pages : Nat}
    (hm : (h.allocs a).pageIds.length ≤ pages)
    (hfit : (h.pools p).entitledPages - (h.allocs a).pageEntitlement + pages ≤
      (h.pools p).spec.pageGroupCount) :
    Exchange p (h.pools p) (h.allocs a)
      ((h.pools p).replaceEntitlement (h.allocs a).pageEntitlement pages)
      ((h.allocs a).withEntitlement pages) := by
  have hb := hi.books p
  have hold := hi.entitled_of_owner a ha
  have heq := hb.replace_eq hold hfit
  refine
    { spec := rfl, owner := Or.inr ha, owner' := Or.inr ha, sorted := hb.sorted
      pages := by simp [pageShare, ha]
      mapped := by simp [mappedShare, ha]
      entitled := ?_, entitled_le := ?_, rows_length := rfl
      rows := fun r _ => by simp [rowShare, ha]
      alloc := ?_ }
  · rw [heq]
    simp only [entitledShare, ha, if_true, PagedKVAllocation.withEntitlement_pool,
      PagedKVAllocation.withEntitlement_pageEntitlement]
    omega
  · rw [heq]
    exact hfit
  · exact (hi.alloc a).keep ha rfl rfl hm

theorem reserve_inv (hi : HeapInv specs h) (pages : Nat) (hdead : (h.allocs a).pool = none) :
    (reserve p pages a).Ensures h (fun _ => HeapInv specs) (fun _ => HeapInv specs) := by
  unfold Call.Ensures reserve
  split_ifs with hc
  · exact hi.exchange (exchange_reserve hi hc hdead)
  · exact hi

/-- **Replacing an entitlement** that fits returns, and changes the entitlement only. -/
theorem setPageEntitlement_spec (hi : HeapInv specs h) (ha : (h.allocs a).pool = some p)
    (pages : Nat) (hm : (h.allocs a).pageIds.length ≤ pages)
    (hc : (h.pools p).canReplaceEntitlement (h.allocs a).pageEntitlement pages = true) :
    setPageEntitlement a pages h = .ok ()
        (h.put p ((h.pools p).replaceEntitlement (h.allocs a).pageEntitlement pages) a
          ((h.allocs a).withEntitlement pages)) ∧
      Exchange p (h.pools p) (h.allocs a)
        ((h.pools p).replaceEntitlement (h.allocs a).pageEntitlement pages)
        ((h.allocs a).withEntitlement pages) := by
  have hfit := ((canReplaceEntitlement_iff (hi.books p)).mp hc).2.2
  refine ⟨?_, exchange_replace hi ha hm hfit⟩
  simp only [setPageEntitlement, ha, if_neg (Nat.not_lt.mpr hm), hc, if_true]

theorem setPageEntitlement_inv (hi : HeapInv specs h) (a : α) (pages : Nat) :
    (setPageEntitlement a pages).Ensures h (fun _ => HeapInv specs) (fun _ => HeapInv specs) := by
  unfold Call.Ensures setPageEntitlement
  cases ha : (h.allocs a).pool with
  | none => exact hi
  | some p =>
    dsimp only
    split_ifs with hm hc
    · exact hi
    · exact hi.exchange (setPageEntitlement_spec hi ha pages (Nat.not_lt.mp hm) hc).2
    · exact hi

theorem cancelUnmappedEntitlement_inv (hi : HeapInv specs h) (a : α) :
    HeapInv specs (cancelUnmappedEntitlement a h) := by
  unfold cancelUnmappedEntitlement
  cases ha : (h.allocs a).pool with
  | none => exact hi
  | some p =>
    have hb := (hi.books p).entitled_le
    have hold := hi.entitled_of_owner a ha
    have hm := hi.mapped_le a
    refine hi.exchange (exchange_replace hi ha (le_refl _) ?_)
    unfold PagedKVAllocation.mappedPageCount
    omega

/-! ## Pages -/

omit [DecidableEq α] in
/-- The pages of an entitlement can always be taken. -/
theorem takePages_of_inv (hi : HeapInv specs h) (ha : (h.allocs a).pool = some p) {count : Nat}
    (hfit : (h.allocs a).pageIds.length + count ≤ (h.allocs a).pageEntitlement)
    (preferredFirst : Int) :
    ∃ taken pool', (h.pools p).takePages count preferredFirst = .ok (taken, pool') := by
  have hfree := hi.free_covers a ha
  unfold PagedKVPool.takePages
  split_ifs with h₀ h₁
  · exact ⟨_, _, rfl⟩
  · omega
  · exact ⟨_, _, rfl⟩

omit [DecidableEq α] in
theorem exchange_take (hi : HeapInv specs h) (ha : (h.allocs a).pool = some p) {count : Nat}
    (hc : 0 < count)
    (hfit : (h.allocs a).pageIds.length + count ≤ (h.allocs a).pageEntitlement)
    {preferredFirst : Int} {taken : List Nat} {pool' : PagedKVPool}
    (ht : (h.pools p).takePages count preferredFirst = .ok (taken, pool')) :
    Exchange p (h.pools p) (h.allocs a) pool'
      ((h.allocs a).withPages ((h.allocs a).pageIds ++ taken)) := by
  have hb := hi.books p
  obtain ⟨hlen, hperm, hsub, heq⟩ := PagedKVPool.takePages_spec hc ht
  have hfree := hb.free_length
  have hcount : count ≤ (h.pools p).freePageIds.length := by
    have := hperm.length_eq
    rw [List.length_append] at this
    omega
  have hmapped : pool'.mappedPages = (h.pools p).mappedPages + count := by
    have h₂ := (h.pools p).spec.pageGroupCount_le
    unfold int32Max at h₂
    rw [heq]
    exact U32.add_eq (U32.lt_size (by omega))
  have hspec : pool'.spec = (h.pools p).spec := by rw [heq]
  have hent : pool'.entitledPages = (h.pools p).entitledPages := by rw [heq]
  have hrows : pool'.rowInUse = (h.pools p).rowInUse := by rw [heq]
  refine
    { spec := hspec, owner := Or.inr ha, owner' := Or.inr ha
      sorted := hb.sorted.sublist hsub, pages := ?_, mapped := ?_, entitled := ?_
      entitled_le := hent ▸ hb.entitled_le, rows_length := by rw [hrows]
      rows := fun r _ => by simp [rowShare, ha, hrows], alloc := ?_ }
  · simp only [pageShare, PagedKVAllocation.withPages_pool, ha, if_true,
      PagedKVAllocation.withPages_pageIds, Multiset.coe_add, Multiset.coe_eq_coe]
    calc pool'.freePageIds ++ ((h.allocs a).pageIds ++ taken)
        _ |>.Perm ((h.allocs a).pageIds ++ taken ++ pool'.freePageIds) := List.perm_append_comm
        _ |>.Perm ((h.allocs a).pageIds ++ (h.pools p).freePageIds) := by
          rw [List.append_assoc]
          exact hperm.append_left _
        _ |>.Perm ((h.pools p).freePageIds ++ (h.allocs a).pageIds) := List.perm_append_comm
  · simp only [mappedShare, PagedKVAllocation.withPages_pool, ha, if_true,
      PagedKVAllocation.withPages_pageIds, List.length_append]
    omega
  · simp [entitledShare, ha, hent]
  · refine (hi.alloc a).keep ha rfl rfl ?_
    rw [PagedKVAllocation.withPages_pageIds, List.length_append]
    exact hlen.symm ▸ hfit

omit [DecidableEq α] in
theorem exchange_return (hi : HeapInv specs h) (ha : (h.allocs a).pool = some p) (pages : Nat) :
    Exchange p (h.pools p) (h.allocs a)
      ((h.pools p).returnPages ((h.allocs a).pageIds.drop pages))
      ((h.allocs a).withPages ((h.allocs a).pageIds.take pages)) := by
  have hb := hi.books p
  have hfree := hb.free_length
  have hshare := share_le_outstanding (mappedShare p) h.allocs a
  rw [mappedShare, if_pos ha, ← hb.mapped] at hshare
  have hnodup : ((h.pools p).freePageIds ++ (h.allocs a).pageIds.drop pages).Nodup :=
    (hb.nodup a ha).sublist ((List.Sublist.refl _).append (List.drop_sublist _ _))
  have hmapped : ((h.pools p).returnPages ((h.allocs a).pageIds.drop pages)).mappedPages =
      (h.pools p).mappedPages - ((h.allocs a).pageIds.drop pages).length := by
    have h₂ := (h.pools p).spec.pageGroupCount_le
    unfold int32Max at h₂
    unfold PagedKVPool.returnPages
    split
    next hnil => rw [List.isEmpty_iff.mp hnil, List.length_nil, Nat.sub_zero]
    next => exact U32.sub_eq (by rw [List.length_drop]; omega) (U32.lt_size (by omega))
  refine
    { spec := PagedKVPool.returnPages_spec _ _
      owner := Or.inr ha, owner' := Or.inr ha
      sorted := PagedKVPool.returnPages_sorted hb.sorted hnodup, pages := ?_, mapped := ?_
      entitled := ?_, entitled_le := ?_, rows_length := ?_, rows := ?_, alloc := ?_ }
  · simp only [pageShare, PagedKVAllocation.withPages_pool, ha, if_true,
      PagedKVAllocation.withPages_pageIds, Multiset.coe_add, Multiset.coe_eq_coe]
    calc ((h.pools p).returnPages ((h.allocs a).pageIds.drop pages)).freePageIds ++
          (h.allocs a).pageIds.take pages
        _ |>.Perm ((h.pools p).freePageIds ++ (h.allocs a).pageIds.drop pages ++
            (h.allocs a).pageIds.take pages) :=
          (PagedKVPool.returnPages_perm _).append_right _
        _ |>.Perm ((h.pools p).freePageIds ++ ((h.allocs a).pageIds.take pages ++
            (h.allocs a).pageIds.drop pages)) := by
          rw [List.append_assoc]
          exact List.perm_append_comm.append_left _
        _ |>.Perm ((h.pools p).freePageIds ++ (h.allocs a).pageIds) := by
          rw [List.take_append_drop]
  · simp only [mappedShare, PagedKVAllocation.withPages_pool, ha, if_true, hmapped,
      PagedKVAllocation.withPages_pageIds, List.length_drop, List.length_take]
    omega
  · simp only [entitledShare, PagedKVAllocation.withPages_pool, ha, if_true,
      PagedKVAllocation.withPages_pageEntitlement, PagedKVPool.returnPages_entitledPages]
  · rw [PagedKVPool.returnPages_entitledPages]
    exact hb.entitled_le
  · rw [PagedKVPool.returnPages_rowInUse]
  · intro r _
    simp [rowShare, ha]
  · refine (hi.alloc a).keep ha rfl rfl ?_
    rw [PagedKVAllocation.withPages_pageIds, List.length_take]
    exact (Nat.min_le_right _ _).trans (hi.mapped_le a)

/-! ## Rows -/

omit [DecidableEq α] in
theorem exchange_refl (hi : HeapInv specs h) (ha : (h.allocs a).pool = some p) :
    Exchange p (h.pools p) (h.allocs a) (h.pools p) (h.allocs a) where
  spec := rfl
  owner := Or.inr ha
  owner' := Or.inr ha
  sorted := (hi.books p).sorted
  pages := rfl
  mapped := rfl
  entitled := rfl
  entitled_le := (hi.books p).entitled_le
  rows_length := rfl
  rows := fun _ _ => rfl
  alloc := (hi.alloc a).keep ha rfl rfl (hi.mapped_le a)

omit [DecidableEq α] [Fintype α] in
/-- Publishing a range writes the block table only. -/
theorem Exchange.publish {pool pool' : PagedKVPool} {x x' : PagedKVAllocation ι}
    (he : Exchange p pool x pool' x') (row firstPage : Nat) (pages : List Nat) :
    Exchange p pool x (pool'.publish row firstPage pages) x' :=
  { he with }

omit [DecidableEq α] in
theorem exchange_bind (hi : HeapInv specs h) (ha : (h.allocs a).pool = some p)
    (hu : (h.allocs a).boundRow < 0) {row : Int} {pool' : PagedKVPool}
    (hq : (h.pools p).acquireRow row = .ok pool') :
    Exchange p (h.pools p) (h.allocs a) pool' ((h.allocs a).withRow row) := by
  have hb := hi.books p
  unfold PagedKVPool.acquireRow at hq
  split_ifs at hq with hout hused
  cases hq
  have hlt : row.toNat < (h.pools p).rowInUse.length := by
    rw [hb.rows_length]
    omega
  refine
    { spec := rfl, owner := Or.inr ha, owner' := Or.inr ha, sorted := hb.sorted
      pages := by simp [pageShare, ha], mapped := by simp [mappedShare, ha]
      entitled := by simp [entitledShare, ha], entitled_le := hb.entitled_le
      rows_length := List.length_set .., rows := ?_, alloc := ?_ }
  · intro r hr
    have hold : rowShare p r (h.allocs a) = 0 := if_neg (by omega)
    rw [hold]
    rcases eq_or_ne r row.toNat with rfl | hne
    · have hfree : (h.pools p).rowInUse.getD row.toNat false = false := by simpa using hused
      rw [rowInUse_set_self hlt, hfree, rowShare, if_pos ⟨ha, by
        rw [PagedKVAllocation.withRow_boundRow]; omega⟩]
      rfl
    · rw [rowInUse_set_of_ne hne, rowShare, if_neg (by
        rw [PagedKVAllocation.withRow_boundRow]; omega)]
  · intro pools hs
    refine ⟨hi.mapped_le a, fun q hq => ?_, by rw [PagedKVAllocation.withRow_boundRow]; omega,
      fun hq => by simp [ha] at hq⟩
    obtain rfl : p = q := by simpa [ha] using hq
    rw [hs, PagedKVAllocation.withRow_boundRow]
    omega

omit [DecidableEq α] in
theorem exchange_unbind (hi : HeapInv specs h) (ha : (h.allocs a).pool = some p)
    (hbound : ¬ (h.allocs a).boundRow < 0) :
    Exchange p (h.pools p) (h.allocs a) ((h.pools p).releaseRow (h.allocs a).boundRow)
      ((h.allocs a).withRow (-1)) := by
  have hb := hi.books p
  have hrow := (hi.alloc a).row_lt p ha
  have hlt : (h.allocs a).boundRow.toNat < (h.pools p).rowInUse.length := by
    rw [hb.rows_length]
    omega
  refine
    { spec := rfl, owner := Or.inr ha, owner' := Or.inr ha, sorted := hb.sorted
      pages := by simp [pageShare, ha, PagedKVPool.releaseRow]
      mapped := by simp [mappedShare, ha, PagedKVPool.releaseRow]
      entitled := by simp [entitledShare, ha, PagedKVPool.releaseRow]
      entitled_le := hb.entitled_le
      rows_length := List.length_set .., rows := ?_, alloc := ?_ }
  · intro r hr
    have hnew : rowShare p r ((h.allocs a).withRow (-1)) = 0 :=
      if_neg (by rw [PagedKVAllocation.withRow_boundRow]; omega)
    rw [hnew, PagedKVPool.releaseRow]
    rcases eq_or_ne r (h.allocs a).boundRow.toNat with rfl | hne
    · have hshare : rowShare p (h.allocs a).boundRow.toNat (h.allocs a) = 1 :=
        if_pos ⟨ha, by omega⟩
      -- The row flag is the number of its owners, of which this allocation is one.
      have hone := share_le_outstanding (rowShare p (h.allocs a).boundRow.toNat) h.allocs a
      rw [← hb.rows _ hr, hshare] at hone
      have := Bool.toNat_le ((h.pools p).rowInUse.getD (h.allocs a).boundRow.toNat false)
      rw [rowInUse_set_self hlt, hshare, Bool.toNat_false]
      omega
    · rw [rowInUse_set_of_ne hne, rowShare, if_neg (by omega)]
  · intro pools hs
    refine ⟨hi.mapped_le a, fun q hq => ?_, by simp, fun hq => by simp [ha] at hq⟩
    have := (pools q).spec.tableRows_pos
    rw [PagedKVAllocation.withRow_boundRow]
    omega

omit [DecidableEq α] in
/-- Giving everything back. The row has been released before. -/
theorem exchange_release (hi : HeapInv specs h) (ha : (h.allocs a).pool = some p)
    (hu : (h.allocs a).boundRow < 0) :
    Exchange p (h.pools p) (h.allocs a)
      (((h.pools p).returnPages (h.allocs a).pageIds).replaceEntitlement
        (h.allocs a).pageEntitlement 0) {} := by
  have hb := hi.books p
  have hret := exchange_return hi ha 0
  rw [List.drop_zero, List.take_zero] at hret
  have hold := hi.entitled_of_owner a ha
  have hle := hb.entitled_le
  have hent : (((h.pools p).returnPages (h.allocs a).pageIds).replaceEntitlement
      (h.allocs a).pageEntitlement 0).entitledPages =
      (h.pools p).entitledPages - (h.allocs a).pageEntitlement := by
    have h₂ := (h.pools p).spec.pageGroupCount_le
    unfold int32Max at h₂
    simp only [PagedKVPool.replaceEntitlement, PagedKVPool.returnPages_entitledPages]
    rw [U32.sub_eq hold hb.lt_size, U32.add_eq (U32.lt_size (by omega)), Nat.add_zero]
  have hpages := hret.pages
  have hmapped := hret.mapped
  simp only [pageShare, mappedShare, ha, PagedKVAllocation.withPages_pool,
    PagedKVAllocation.withPages_pageIds, if_true, Multiset.coe_nil, List.length_nil] at hpages hmapped
  refine
    { spec := hret.spec, owner := Or.inr ha, owner' := Or.inl rfl, sorted := hret.sorted
      pages := by simpa [pageShare, ha] using hpages
      mapped := by simpa [mappedShare, ha] using hmapped
      entitled := ?_, entitled_le := ?_, rows_length := hret.rows_length
      rows := fun r _ => ?_, alloc := fun _ _ => ⟨by simp, by simp, by simp, fun _ => rfl⟩ }
  · rw [hent]
    simp only [entitledShare, ha, if_true, reduceCtorEq, if_false]
    omega
  · rw [hent]
    omega
  · have hnone : rowShare p r (h.allocs a) = 0 := if_neg (by omega)
    rw [hnone]
    simp [rowShare]

/-! ## The operations -/

omit [Fintype α] in
/-- Publishing within the block table returns, and writes the block table only. -/
theorem publishRange_spec (h : Heap ι α) (p : ι) (a : α) {pool' : PagedKVPool}
    (x' : PagedKVAllocation ι) {row : Int} (hrow : x'.boundRow = row) (h₀ : 0 ≤ row)
    (hlt : row < pool'.spec.tableRows)
    (firstPage pageCount : Nat) :
    publishRange p a firstPage pageCount (h.put p pool' a x') = .ok () (h.put p pool' a x') ∨
      ∃ pages, publishRange p a firstPage pageCount (h.put p pool' a x') =
        .ok () (h.put p (pool'.publish row.toNat firstPage pages) a x') := by
  have hin : ¬ (row < 0 ∨ (pool'.spec.tableRows : Int) ≤ row) := by omega
  simp only [publishRange, Heap.put_allocs, Heap.put_pools, Heap.put_put, hrow, if_neg hin]
  split_ifs
  · exact Or.inl rfl
  · exact Or.inr ⟨_, rfl⟩

/-- **Materializing pages** inside the entitlement returns, appends the missing pages and changes
no other allocation, nor any entitlement or row. -/
theorem materializePages_spec (hi : HeapInv specs h) (ha : (h.allocs a).pool = some p)
    {pages : Nat} (hlo : (h.allocs a).pageIds.length ≤ pages)
    (hhi : pages ≤ (h.allocs a).pageEntitlement) :
    ∃ acquired pool', materializePages a pages h = .ok ()
        (h.put p pool' a ((h.allocs a).withPages ((h.allocs a).pageIds ++ acquired))) ∧
      (h.allocs a).pageIds.length + acquired.length = pages ∧
      pool'.entitledPages = (h.pools p).entitledPages ∧
      Exchange p (h.pools p) (h.allocs a) pool'
        ((h.allocs a).withPages ((h.allocs a).pageIds ++ acquired)) := by
  have hguard : ¬ (pages < (h.allocs a).pageIds.length ∨ (h.allocs a).pageEntitlement < pages) := by
    omega
  simp only [materializePages, PagedKVAllocation.mappedPageCount, ha, if_neg hguard]
  rcases Nat.eq_zero_or_pos (pages - (h.allocs a).pageIds.length) with hzero | hpos
  · refine ⟨[], h.pools p, ?_, ?_, rfl, ?_⟩
    · rw [if_pos hzero, List.append_nil, PagedKVAllocation.withPages_self, Heap.put_self]
    · rw [List.length_nil]
      omega
    · rw [List.append_nil, PagedKVAllocation.withPages_self]
      exact exchange_refl hi ha
  · have hfit : (h.allocs a).pageIds.length + (pages - (h.allocs a).pageIds.length) ≤
        (h.allocs a).pageEntitlement := by omega
    obtain ⟨taken, pool', ht⟩ := takePages_of_inv hi ha hfit (h.allocs a).preferredPage
    have he := exchange_take hi ha hpos hfit ht
    obtain ⟨hlen, -, -, heq⟩ := PagedKVPool.takePages_spec hpos ht
    have hent : pool'.entitledPages = (h.pools p).entitledPages := by rw [heq]
    rw [if_neg hpos.ne', ht]
    dsimp only
    split_ifs with hbound
    · have hlt : (h.allocs a).boundRow < pool'.spec.tableRows := by
        rw [he.spec]
        exact (hi.alloc a).row_lt p ha
      rcases publishRange_spec h p a ((h.allocs a).withPages ((h.allocs a).pageIds ++ taken)) rfl
        hbound hlt (h.allocs a).pageIds.length (pages - (h.allocs a).pageIds.length) with
        hp | ⟨written, hp⟩
      · exact ⟨taken, pool', hp, by omega, hent, he⟩
      · exact ⟨taken, _, hp, by omega, hent, he.publish ..⟩
    · exact ⟨taken, pool', rfl, by omega, hent, he⟩

theorem materializePages_inv (hi : HeapInv specs h) (a : α) (pages : Nat) :
    (materializePages a pages).Ensures h (fun _ => HeapInv specs)
      (fun e h' => HeapInv specs h' ∧
        e = .invalidArgument "Paged KV materialize extent is outside entitlement") := by
  cases ha : (h.allocs a).pool with
  | none =>
    simp only [Call.Ensures, materializePages, ha]
    exact ⟨hi, trivial⟩
  | some p =>
    by_cases hguard : pages < (h.allocs a).mappedPageCount ∨ (h.allocs a).pageEntitlement < pages
    · simp only [Call.Ensures, materializePages, ha, if_pos hguard]
      exact ⟨hi, trivial⟩
    · obtain ⟨acquired, pool', hok, -, -, he⟩ :=
        materializePages_spec hi ha (Nat.not_lt.mp (not_or.mp hguard).1)
          (Nat.not_lt.mp (not_or.mp hguard).2)
      exact Call.ensures_of_ok hok (hi.exchange he)

/-- **Trimming pages** keeps the first of them and changes no entitlement and no row. -/
theorem trimPages_spec (hi : HeapInv specs h) (ha : (h.allocs a).pool = some p) {pages : Nat}
    (hle : pages ≤ (h.allocs a).pageIds.length) :
    ∃ pool', trimPages a pages h = .ok ()
        (h.put p pool' a ((h.allocs a).withPages ((h.allocs a).pageIds.take pages))) ∧
      pool'.entitledPages = (h.pools p).entitledPages ∧
      pool'.rowInUse = (h.pools p).rowInUse ∧
      Exchange p (h.pools p) (h.allocs a) pool'
        ((h.allocs a).withPages ((h.allocs a).pageIds.take pages)) := by
  simp only [trimPages, PagedKVAllocation.mappedPageCount, ha, if_neg (Nat.not_lt.mpr hle)]
  split_ifs with heq
  · refine ⟨h.pools p, ?_, rfl, rfl, ?_⟩
    · rw [heq, List.take_length, PagedKVAllocation.withPages_self, Heap.put_self]
    · rw [heq, List.take_length, PagedKVAllocation.withPages_self]
      exact exchange_refl hi ha
  · exact ⟨_, rfl, PagedKVPool.returnPages_entitledPages _ _, PagedKVPool.returnPages_rowInUse _ _,
      exchange_return hi ha pages⟩

theorem trimPages_inv (hi : HeapInv specs h) (a : α) (pages : Nat) :
    (trimPages a pages).Ensures h (fun _ => HeapInv specs) (fun _ => HeapInv specs) := by
  cases ha : (h.allocs a).pool with
  | none =>
    simp only [Call.Ensures, trimPages, ha]
    exact hi
  | some p =>
    by_cases hle : pages ≤ (h.allocs a).pageIds.length
    · obtain ⟨pool', hok, -, -, he⟩ := trimPages_spec hi ha hle
      exact Call.ensures_of_ok hok (hi.exchange he)
    · simp only [Call.Ensures, trimPages, ha, PagedKVAllocation.mappedPageCount,
        if_pos (Nat.not_le.mp hle)]
      exact hi

/-- **Binding a free row** returns, and changes the row only. -/
theorem bindRow_spec (hi : HeapInv specs h) (ha : (h.allocs a).pool = some p)
    (hu : (h.allocs a).boundRow < 0) {row : Nat} (hrow : row < (h.pools p).spec.tableRows)
    (hfree : (h.pools p).rowInUse.getD row false = false) :
    ∃ pool', bindRow a row h = .ok () (h.put p pool' a ((h.allocs a).withRow row)) ∧
      pool'.entitledPages = (h.pools p).entitledPages ∧
      Exchange p (h.pools p) (h.allocs a) pool' ((h.allocs a).withRow row) := by
  have hin : ¬ ((row : Int) < 0 ∨ ((h.pools p).spec.tableRows : Int) ≤ row) := by omega
  obtain ⟨pool', hacq, hent⟩ : ∃ pool', (h.pools p).acquireRow row = .ok pool' ∧
      pool'.entitledPages = (h.pools p).entitledPages := by
    simp only [PagedKVPool.acquireRow, if_neg hin, Int.toNat_natCast, hfree, Bool.false_eq_true,
      if_false]
    exact ⟨_, rfl, rfl⟩
  have he := exchange_bind hi ha hu hacq
  have hbound : ¬ ((row : Int) < 0) := by omega
  have hlt : (row : Int) < pool'.spec.tableRows := by
    rw [he.spec]
    exact_mod_cast hrow
  simp only [bindRow, ha, if_neg (Int.not_le.mpr hu), hacq, publishMapping, Heap.put_allocs,
    PagedKVAllocation.withRow_boundRow, if_neg hbound]
  rcases publishRange_spec h p a ((h.allocs a).withRow row) rfl (Int.natCast_nonneg row) hlt 0
    ((h.allocs a).withRow row).mappedPageCount with hp | ⟨written, hp⟩
  · exact ⟨pool', hp, hent, he⟩
  · exact ⟨_, hp, hent, he.publish ..⟩

theorem bindRow_inv (hi : HeapInv specs h) (a : α) (row : Int) :
    (bindRow a row).Ensures h (fun _ => HeapInv specs) (fun _ => HeapInv specs) := by
  cases ha : (h.allocs a).pool with
  | none =>
    simp only [Call.Ensures, bindRow, ha]
    exact hi
  | some p =>
    by_cases hu : 0 ≤ (h.allocs a).boundRow
    · simp only [Call.Ensures, bindRow, ha, if_pos hu]
      exact hi
    · by_cases hin : row < 0 ∨ ((h.pools p).spec.tableRows : Int) ≤ row
      · simp only [Call.Ensures, bindRow, ha, if_neg hu, PagedKVPool.acquireRow, if_pos hin]
        exact hi
      · obtain ⟨r, rfl⟩ := Int.eq_ofNat_of_zero_le (show 0 ≤ row by omega)
        cases hfree : (h.pools p).rowInUse.getD r false with
        | true =>
          simp only [Call.Ensures, bindRow, ha, if_neg hu, PagedKVPool.acquireRow, if_neg hin,
            Int.toNat_natCast, hfree, if_true]
          exact hi
        | false =>
          obtain ⟨pool', hok, -, he⟩ := bindRow_spec hi ha (by omega) (by omega) hfree
          exact Call.ensures_of_ok hok (hi.exchange he)

/-- **Unbinding** leaves the allocation without a row, and changes the row only. -/
theorem unbindRow_spec (hi : HeapInv specs h) (ha : (h.allocs a).pool = some p) :
    ∃ pool', unbindRow a h = h.put p pool' a ((h.allocs a).withRow (-1)) ∧
      pool'.entitledPages = (h.pools p).entitledPages ∧
      Exchange p (h.pools p) (h.allocs a) pool' ((h.allocs a).withRow (-1)) := by
  simp only [unbindRow, ha]
  split_ifs with hu
  · have hrow : (h.allocs a).boundRow = -1 := by
      have := (hi.alloc a).row_ge
      omega
    have hself : (h.allocs a).withRow (-1) = h.allocs a := by rw [← hrow]; rfl
    exact ⟨h.pools p, by rw [hself, Heap.put_self], rfl, hself.symm ▸ exchange_refl hi ha⟩
  · exact ⟨_, rfl, rfl, exchange_unbind hi ha hu⟩

theorem unbindRow_inv (hi : HeapInv specs h) (a : α) : HeapInv specs (unbindRow a h) := by
  cases ha : (h.allocs a).pool with
  | none =>
    have hdead := (hi.alloc a).dead ha
    simpa [unbindRow, hdead] using hi
  | some p =>
    obtain ⟨pool', heq, -, he⟩ := unbindRow_spec hi ha
    rw [heq]
    exact hi.exchange he

/-- **Releasing** leaves the default object, and gives the entitlement back. -/
theorem release_spec (hi : HeapInv specs h) (ha : (h.allocs a).pool = some p) :
    ∃ pool', release a h = h.put p pool' a {} ∧
      pool'.entitledPages = (h.pools p).entitledPages - (h.allocs a).pageEntitlement ∧
      HeapInv specs (h.put p pool' a {}) := by
  obtain ⟨pool', heq, hent, he⟩ := unbindRow_spec hi ha
  have hi' := hi.exchange he
  have hx : (h.put p pool' a ((h.allocs a).withRow (-1))).allocs a = (h.allocs a).withRow (-1) :=
    Heap.put_allocs ..
  have hrel := exchange_release hi' (a := a) (p := p) (by rw [hx]; exact ha)
    (by rw [hx, PagedKVAllocation.withRow_boundRow]; omega)
  have hfinal := hi'.exchange hrel
  have hentitled := hrel.entitled
  have hold := hi.entitled_of_owner a ha
  rw [Heap.put_put] at hfinal
  simp only [release, ha, heq, Heap.put_put]
  refine ⟨_, rfl, ?_, hfinal⟩
  simp only [Heap.put_allocs, Heap.put_pools, entitledShare, PagedKVAllocation.withRow_pool,
    PagedKVAllocation.withRow_pageIds, ha, if_true, reduceCtorEq, if_false,
    PagedKVAllocation.withRow_pageEntitlement, hent] at hentitled ⊢
  omega

omit [Fintype α] in
theorem release_dead (hd : (h.allocs a).pool = none) : release a h = h := by
  simp only [release, hd]

theorem release_inv (hi : HeapInv specs h) (a : α) : HeapInv specs (release a h) := by
  cases ha : (h.allocs a).pool with
  | none => rwa [release_dead ha]
  | some p =>
    obtain ⟨pool', heq, -, hi'⟩ := release_spec hi ha
    rwa [heq]

/-- The released object has no pool. -/
theorem release_pool (hi : HeapInv specs h) (a : α) : ((release a h).allocs a).pool = none := by
  cases ha : (h.allocs a).pool with
  | none => rwa [release_dead ha]
  | some p =>
    obtain ⟨pool', heq, -, -⟩ := release_spec hi ha
    rw [heq, Heap.put_allocs]

theorem moveAssign_inv (hi : HeapInv specs h) (target source : α) :
    HeapInv specs (moveAssign target source h) := by
  unfold moveAssign
  split_ifs with heq
  · exact hi
  · exact (release_inv hi target).move heq (release_pool hi target)

end Ninfer.PagedKV
