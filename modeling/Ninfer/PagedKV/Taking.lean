import Ninfer.PagedKV.Runs

/-!
# Runs of pages

`core/paged_kv_cache.cpp`: which pages `take_pages` takes from a sorted free list, and which runs
`zero_pages` clears. Both look for consecutive pages, the first one by positions in the free list,
the second one in a sorted copy of the pages it is given.

## Main definitions

* `RunFree`: consecutive pages that are all free
* `zeroRuns`, `PagedKVPool.zeroPages`: the runs that are cleared
* `TakesRun`, `ClearsRuns`: what is taken, and what is cleared

## Main results

* `runAt_iff`: the test of positions says that the pages are consecutive
* `runAt_of_runFree`: consecutive free pages stand at consecutive positions
* `takePages_run`: what `take_pages` takes
* `zeroPages_runs`: what `zero_pages` clears
* `pages_by_runs`: **pages are taken and cleared by the intended runs**
-/

namespace Ninfer.PagedKV

/-! ## Runs in a sorted list -/

section Sorted

variable {free : List Nat} {count first : Nat}

/-- The pages `first, …, first + count - 1` are free. -/
def RunFree (free : List Nat) (count first : Nat) : Prop :=
  ∀ offset, offset < count → first + offset ∈ free

theorem RunFree.exists_index (h : RunFree free count first) (hcount : 0 < count) :
    ∃ i, ∃ hi : i < free.length, free[i] = first := by
  have hmem : first ∈ free := h 0 hcount
  obtain ⟨i, hi, hget⟩ := List.mem_iff_getElem.mp hmem
  exact ⟨i, hi, hget⟩

theorem getElem_lt_getElem (hs : free.Pairwise (· < ·)) {i j : Nat} (hi : i < free.length)
    (hj : j < free.length) (hij : i < j) : free[i] < free[j] :=
  List.pairwise_iff_getElem.mp hs i j hi hj hij

theorem getElem_le_getElem (hs : free.Pairwise (· < ·)) {i j : Nat} (hi : i < free.length)
    (hj : j < free.length) (hij : i ≤ j) : free[i] ≤ free[j] := by
  rcases Nat.eq_or_lt_of_le hij with rfl | hlt
  · exact Nat.le_refl _
  · exact (getElem_lt_getElem hs hi hj hlt).le

/-- **Consecutive pages stand at consecutive positions** of a sorted list. -/
theorem getElem?_of_runFree (hs : free.Pairwise (· < ·)) {i : Nat} (hi : i < free.length)
    (hrun : RunFree free count free[i]) {offset : Nat} (hoffset : offset < count) :
    free[i + offset]? = some (free[i] + offset) := by
  induction offset with
  | zero => exact List.getElem?_eq_getElem hi
  | succ offset ih =>
    obtain ⟨hlt, hget⟩ := List.getElem?_eq_some_iff.mp (ih (by omega))
    -- the next page stands behind this one, and nothing fits between them
    obtain ⟨j, hj, hnext⟩ := List.mem_iff_getElem.mp (hrun (offset + 1) hoffset)
    have hbehind : i + offset < j := by
      by_contra hle
      have := getElem_le_getElem hs hj hlt (Nat.le_of_not_lt hle)
      omega
    have hstep : i + offset + 1 < free.length := by omega
    have habove := getElem_lt_getElem hs hlt hstep (Nat.lt_succ_self _)
    have hbelow := getElem_le_getElem hs hstep hj hbehind
    rw [← Nat.add_assoc, List.getElem?_eq_getElem hstep]
    congr 1
    omega

/-- The test of `take_pages` says that the pages from a position on are consecutive. -/
theorem runAt_iff {i : Nat} : PagedKVPool.runAt free count i = true ↔
    i + count ≤ free.length ∧
      ∀ offset, 0 < offset → offset < count → free.getD (i + offset) 0 = free.getD i 0 + offset := by
  unfold PagedKVPool.runAt
  split_ifs with hlength
  · simp only [false_iff]
    omega
  · simp only [List.all_eq_true, List.mem_range'_1, beq_iff_eq]
    constructor
    · intro h
      exact ⟨by omega, fun offset hpos hlt => h offset ⟨hpos, by omega⟩⟩
    · rintro ⟨-, h⟩ offset ⟨hpos, hlt⟩
      exact h offset hpos (by omega)

/-- Consecutive free pages pass the test, at the position of the first of them. -/
theorem runAt_of_runFree (hs : free.Pairwise (· < ·)) {i : Nat} (hi : i < free.length)
    (hcount : 0 < count) (hrun : RunFree free count free[i]) :
    PagedKVPool.runAt free count i = true := by
  rw [runAt_iff]
  constructor
  · have hlast := getElem?_of_runFree hs hi hrun (show count - 1 < count by omega)
    have := (List.getElem?_eq_some_iff.mp hlast).1
    omega
  · intro offset _ hoffset
    rw [List.getD_eq_getElem?_getD, getElem?_of_runFree hs hi hrun hoffset,
      List.getD_eq_getElem _ _ hi]
    rfl

/-- What passes the test is a run. -/
theorem take_drop_of_runAt {i : Nat} (hcount : 0 < count)
    (h : PagedKVPool.runAt free count i = true) :
    ∃ hi : i < free.length, (free.drop i).take count = List.range' free[i] count := by
  obtain ⟨hlength, hget⟩ := runAt_iff.mp h
  have hi : i < free.length := by omega
  refine ⟨hi, ?_⟩
  apply List.ext_getElem
  · simp
    omega
  · intro offset hoffset _
    simp only [List.length_take, List.length_drop] at hoffset
    simp only [List.getElem_take, List.getElem_drop, List.getElem_range', Nat.one_mul]
    rcases Nat.eq_zero_or_pos offset with rfl | hpos
    · rfl
    · have hpage := hget offset hpos (by omega)
      rwa [List.getD_eq_getElem _ _ hi, List.getD_eq_getElem _ _ (by omega)] at hpage

/-- The pages of a run at a position are free. -/
theorem runFree_of_runAt {i : Nat} (hcount : 0 < count)
    (h : PagedKVPool.runAt free count i = true) :
    ∃ hi : i < free.length, RunFree free count free[i] := by
  obtain ⟨hi, htake⟩ := take_drop_of_runAt hcount h
  refine ⟨hi, fun offset hoffset => ?_⟩
  have hmem : free[i] + offset ∈ (free.drop i).take count := by
    rw [htake, List.mem_range'_1]
    omega
  exact List.mem_of_mem_drop (List.mem_of_mem_take hmem)

end Sorted

/-! ## The pages taken -/

namespace PagedKVPool

section Select

variable {free : List Nat} {count : Nat} {preferredFirst : Int}

/-- The position of the preferred page, by the numbers of the pages. -/
theorem preferredIndex_eq (free : List Nat) (count : Nat) (preferredFirst : Int) :
    preferredIndex free count preferredFirst =
      if 0 ≤ preferredFirst then
        if free.findIdx (fun page : Nat => decide (preferredFirst ≤ (page : Int))) < free.length ∧
            (free.getD (free.findIdx fun page : Nat => decide (preferredFirst ≤ (page : Int))) 0 :
              Int) = preferredFirst ∧
            runAt free count
              (free.findIdx fun page : Nat => decide (preferredFirst ≤ (page : Int))) then
          free.findIdx fun page : Nat => decide (preferredFirst ≤ (page : Int))
        else free.length
      else free.length := by
  have hcast : (do let page ← free; pure (page : Int)) = free.map fun page : Nat => (page : Int) := by
    simp [List.map_eq_flatMap]
  unfold preferredIndex
  simp only [hcast, List.findIdx_map]
  rfl

/-- A preferred run that is free is found. -/
theorem preferredIndex_of_runFree (hs : free.Pairwise (· < ·)) (hcount : 0 < count) {first : Nat}
    (hfirst : (first : Int) = preferredFirst) (hrun : RunFree free count first) :
    ∃ hi : preferredIndex free count preferredFirst < free.length,
      free[preferredIndex free count preferredFirst] = first ∧
        runAt free count (preferredIndex free count preferredFirst) = true := by
  obtain ⟨j, hj, hget⟩ := hrun.exists_index hcount
  set found := free.findIdx fun page : Nat => decide (preferredFirst ≤ (page : Int)) with hfound
  have hlt : found < free.length := by
    rw [hfound, List.findIdx_lt_length]
    exact ⟨free[j], List.getElem_mem hj, by simp [hget, ← hfirst]⟩
  -- the first page that is not below the preferred one is the preferred one
  have hpage : free[found] = first := by
    have habove := of_decide_eq_true (List.findIdx_getElem (w := hlt))
    simp only [← hfound] at habove
    have hle : found ≤ j := by
      by_contra hgt
      have hnot := List.not_of_lt_findIdx (Nat.lt_of_not_le hgt)
      simp [hget, hfirst] at hnot
    have := getElem_le_getElem hs hlt hj hle
    omega
  have hat : runAt free count found = true := by
    refine runAt_of_runFree hs hlt hcount ?_
    rwa [hpage]
  have hindex : preferredIndex free count preferredFirst = found := by
    rw [preferredIndex_eq, if_pos (by omega), ← hfound, if_pos]
    exact ⟨hlt, by rw [List.getD_eq_getElem _ _ hlt, hpage, hfirst], hat⟩
  simp only [hindex]
  exact ⟨hlt, hpage, hat⟩

/-- Without a preferred run that is free the search starts anew. -/
theorem preferredIndex_of_not_runFree (hcount : 0 < count)
    (hnone : ¬∃ first : Nat, (first : Int) = preferredFirst ∧ RunFree free count first) :
    preferredIndex free count preferredFirst = free.length := by
  rw [preferredIndex_eq]
  split_ifs with hsign hfound
  · obtain ⟨hlt, hpage, hat⟩ := hfound
    obtain ⟨hi, hrun⟩ := runFree_of_runAt hcount hat
    rw [List.getD_eq_getElem _ _ hlt] at hpage
    exact absurd ⟨_, hpage, hrun⟩ hnone
  · rfl
  · rfl

/-- The search finds the lowest run. -/
theorem find_runAt (hs : free.Pairwise (· < ·)) (hcount : 0 < count) {first : Nat}
    (hrun : RunFree free count first) (hlowest : ∀ other, RunFree free count other → first ≤ other) :
    ∃ i, ∃ hi : i < free.length,
      (List.range (free.length + 1 - count)).find? (runAt free count) = some i ∧
        free[i] = first ∧ runAt free count i = true := by
  obtain ⟨j, hj, hget⟩ := hrun.exists_index hcount
  have hat : runAt free count j = true := runAt_of_runFree hs hj hcount (by rwa [hget])
  have hfits := (runAt_iff.mp hat).1
  cases hfind : (List.range (free.length + 1 - count)).find? (runAt free count) with
  | none =>
    rw [List.find?_eq_none] at hfind
    exact absurd hat (hfind j (by rw [List.mem_range]; omega))
  | some i =>
    have hi := List.find?_some hfind
    obtain ⟨hlt, hfree⟩ := runFree_of_runAt hcount hi
    have hle : i ≤ j := by
      obtain ⟨-, front, back, hsplit, hbefore⟩ := List.find?_eq_some_iff_append.mp hfind
      by_contra hgt
      -- positions in front of the one found do not pass the test
      have hfront : j ∈ front := by
        have hlength : front.length = i := by
          have hget := congrArg (fun l => l[front.length]?) hsplit
          simp only [List.getElem?_append_right (Nat.le_refl _), Nat.sub_self,
            List.getElem?_cons_zero] at hget
          obtain ⟨hbound, hvalue⟩ := List.getElem?_eq_some_iff.mp hget
          rw [List.getElem_range] at hvalue
          exact hvalue
        have hget := congrArg (fun l => l[j]?) hsplit
        simp only [List.getElem?_append_left (show j < front.length by omega)] at hget
        rw [List.getElem?_range (by omega)] at hget
        exact List.mem_of_getElem? hget.symm
      have := hbefore j hfront
      rw [hat] at this
      cases this
    refine ⟨i, hlt, rfl, ?_, hi⟩
    have hbelow := getElem_le_getElem hs hlt hj hle
    have habove := hlowest _ hfree
    omega

theorem selectedIndex_of_preferred (h : preferredIndex free count preferredFirst ≠ free.length) :
    selectedIndex free count preferredFirst = preferredIndex free count preferredFirst := if_neg h

theorem selectedIndex_of_not_preferred
    (h : preferredIndex free count preferredFirst = free.length) :
    selectedIndex free count preferredFirst =
      ((List.range (free.length + 1 - count)).find? (runAt free count)).getD free.length := if_pos h

end Select

variable {pool : PagedKVPool} {count : Nat} {preferredFirst : Int}

/-- What `take_pages` takes: the preferred run if it is free, otherwise the lowest free run,
otherwise the lowest free pages; the other pages stay in the free list. -/
structure TakesRun (pool : PagedKVPool) (count : Nat) (preferredFirst : Int) (taken : List Nat)
    (pool' : PagedKVPool) : Prop where
  preferred : ∀ first : Nat, (first : Int) = preferredFirst →
    RunFree pool.freePageIds count first → taken = List.range' first count
  lowest : (¬∃ first : Nat, (first : Int) = preferredFirst ∧
      RunFree pool.freePageIds count first) →
    ∀ first, RunFree pool.freePageIds count first →
      (∀ other, RunFree pool.freePageIds count other → first ≤ other) →
      taken = List.range' first count
  scattered : (∀ first, ¬RunFree pool.freePageIds count first) →
    taken = pool.freePageIds.take count
  increasing : taken.Pairwise (· < ·)
  free_increasing : pool'.freePageIds.Pairwise (· < ·)
  free : ∀ page, page ∈ pool'.freePageIds ↔ page ∈ pool.freePageIds ∧ page ∉ taken
  mapped : pool.mappedPages + count < U32.size → pool'.mappedPages = pool.mappedPages + count
  others : pool' = { pool with
    freePageIds := pool'.freePageIds
    mappedPages := U32.add pool.mappedPages count }

/-- The pages from the selected position on. -/
theorem takePages_eq_ok (hcount : 0 < count) (hlength : count ≤ pool.freePageIds.length) :
    ∃ pool', pool.takePages count preferredFirst =
      .ok ((pool.freePageIds.drop
        (if selectedIndex pool.freePageIds count preferredFirst = pool.freePageIds.length then 0
          else selectedIndex pool.freePageIds count preferredFirst)).take count, pool') := by
  unfold takePages
  rw [if_neg hcount.ne', if_neg (by omega)]
  exact ⟨_, rfl⟩

/-- **What `take_pages` takes** from a sorted free list with enough pages. -/
theorem takePages_run (hs : pool.freePageIds.Pairwise (· < ·)) (hcount : 0 < count)
    (hlength : count ≤ pool.freePageIds.length) (preferredFirst : Int) :
    ∃ taken pool', pool.takePages count preferredFirst = .ok (taken, pool') ∧
      TakesRun pool count preferredFirst taken pool' := by
  obtain ⟨pool', hok⟩ := @takePages_eq_ok pool count preferredFirst hcount hlength
  set free := pool.freePageIds with hfree
  set selected := selectedIndex free count preferredFirst with hselected
  set first := if selected = free.length then 0 else selected with hfirst
  obtain ⟨-, hperm, hsublist, hothers⟩ := takePages_spec hcount hok
  have htakes : ∀ i (hi : i < free.length), selected = i → (free.drop first).take count =
      (free.drop i).take count := by
    intro i hi heq
    rw [hfirst, if_neg (by omega), heq]
  have hnodup : ((free.drop first).take count ++ pool'.freePageIds).Nodup :=
    hperm.nodup_iff.mpr (hs.imp fun h => h.ne)
  refine ⟨_, pool', hok, ?_, ?_, ?_, ?_, hs.sublist hsublist, ?_, ?_, hothers⟩
  · intro page hpage hrun
    obtain ⟨hi, hget, hat⟩ := preferredIndex_of_runFree hs hcount hpage hrun
    have hindex : selected = preferredIndex free count preferredFirst := by
      rw [hselected]
      exact selectedIndex_of_preferred (Nat.ne_of_lt hi)
    obtain ⟨_, htake⟩ := take_drop_of_runAt hcount hat
    rw [htakes _ hi hindex, htake, hget]
  · intro hnone page hrun hlowest
    obtain ⟨i, hi, hfind, hget, hat⟩ := find_runAt hs hcount hrun hlowest
    have hindex : selected = i := by
      rw [hselected, selectedIndex_of_not_preferred (preferredIndex_of_not_runFree hcount hnone),
        hfind]
      rfl
    obtain ⟨_, htake⟩ := take_drop_of_runAt hcount hat
    rw [htakes i hi hindex, htake, hget]
  · intro hnone
    have hindex : selected = free.length := by
      have hfind : (List.range (free.length + 1 - count)).find? (runAt free count) = none := by
        rw [List.find?_eq_none]
        intro i _ hat
        obtain ⟨hi, hrun⟩ := runFree_of_runAt hcount hat
        exact hnone _ hrun
      have hnot : ¬∃ page : Nat, (page : Int) = preferredFirst ∧ RunFree free count page := by
        rintro ⟨page, -, hrun⟩
        exact hnone page hrun
      rw [hselected, selectedIndex_of_not_preferred (preferredIndex_of_not_runFree hcount hnot),
        hfind]
      rfl
    rw [hfirst, if_pos hindex, List.drop_zero]
  · exact hs.sublist ((List.take_sublist _ _).trans (List.drop_sublist _ _))
  · intro page
    rw [← hperm.mem_iff, List.mem_append]
    have hdisjoint := (List.nodup_append.mp hnodup).2.2
    constructor
    · intro hmem
      exact ⟨.inr hmem, fun htaken => hdisjoint page htaken page hmem rfl⟩
    · rintro ⟨htaken | hmem, hnot⟩
      · exact absurd htaken hnot
      · exact hmem
  · intro hbound
    rw [hothers]
    exact U32.add_eq hbound

end PagedKVPool

/-! ## The pages cleared -/

/-- The inner loop of `zero_pages`: the number of consecutive pages from `page` on, in a list that
goes on behind it. -/
def runLength (page : Int) : List Int → Nat
  | [] => 1
  | next :: rest => if next = page + 1 then runLength next rest + 1 else 1

/-- The outer loop of `zero_pages`: the first page and the number of pages of each run. -/
def zeroRuns : List Int → List (Int × Nat)
  | [] => []
  | page :: rest => (page, runLength page rest) :: zeroRuns (rest.drop (runLength page rest - 1))
termination_by sorted => sorted.length

/-- The pages of a run. -/
def runPages (run : Int × Nat) : List Int :=
  (List.range run.2).map fun offset : Nat => run.1 + (offset : Int)

/-- `zero_pages`: the runs that are cleared in every plane. -/
def PagedKVPool.zeroPages (pool : PagedKVPool) (pageIds : List Int) :
    Except Exception (List (Int × Nat)) := do
  if pageIds.isEmpty then
    return []
  let sorted := pageIds.insertionSort (· ≤ ·)
  check (∀ front ∈ sorted.head?, ∀ back ∈ sorted.getLast?,
      ¬(front < 0 ∨ (pool.spec.pageGroupCount : Int) ≤ back))
    (.outOfRange "Paged KV physical page is out of range")
  check (sorted.IsChain (· ≠ ·))
    (.invalidArgument "Paged KV physical pages must be distinct")
  return zeroRuns sorted

/-- What `zero_pages` clears: every page it is given, once, in runs that do not touch. -/
structure ClearsRuns (pageIds : List Int) (runs : List (Int × Nat)) : Prop where
  covers : (runs.flatMap runPages).Perm pageIds
  nonempty : ∀ run ∈ runs, 0 < run.2
  disjoint : runs.Pairwise fun a b => a.1 + (a.2 : Int) < b.1
  maximal : ∀ run ∈ runs, run.1 - 1 ∉ pageIds ∧ run.1 + run.2 ∉ pageIds

section Zero

variable {page : Int} {rest sorted pageIds : List Int}

theorem mem_runPages {run : Int × Nat} : page ∈ runPages run ↔ run.1 ≤ page ∧ page < run.1 + run.2 := by
  rw [runPages, List.mem_map]
  constructor
  · rintro ⟨offset, hoffset, rfl⟩
    rw [List.mem_range] at hoffset
    omega
  · rintro ⟨hle, hlt⟩
    refine ⟨(page - run.1).toNat, ?_, ?_⟩
    · rw [List.mem_range]
      omega
    · omega

theorem runPages_succ (page : Int) (n : Nat) :
    runPages (page, n + 1) = page :: runPages (page + 1, n) := by
  simp only [runPages, List.range_succ_eq_map, List.map_cons, List.map_map]
  congr 1
  · omega
  · refine List.map_congr_left fun offset _ => ?_
    simp only [Function.comp_apply]
    omega

/-- The inner loop takes the consecutive pages, and stops in front of a gap. -/
theorem runLength_spec (hs : (page :: rest).Pairwise (· < ·)) :
    0 < runLength page rest ∧
      (page :: rest).take (runLength page rest) = runPages (page, runLength page rest) ∧
      ∀ next ∈ (page :: rest).drop (runLength page rest), page + runLength page rest < next := by
  have hone : runPages (page, 1) = [page] := by simp [runPages]
  induction rest generalizing page with
  | nil => exact ⟨Nat.one_pos, hone.symm, fun next hnext => nomatch hnext⟩
  | cons next rest ih =>
    obtain ⟨hbehind, hrest⟩ := List.pairwise_cons.mp hs
    unfold runLength
    split_ifs with hnext
    · -- the next page belongs to the run
      obtain ⟨-, htake, hdrop⟩ := ih hrest (by simp [runPages])
      refine ⟨Nat.succ_pos _, ?_, ?_⟩
      · rw [List.take_succ_cons, htake, runPages_succ, hnext]
      · intro other hother
        have := hdrop other hother
        push_cast
        omega
    · refine ⟨Nat.one_pos, hone.symm, fun other hother => ?_⟩
      have hfirst := hbehind next List.mem_cons_self
      have hle : next ≤ other := by
        rcases List.mem_cons.mp hother with rfl | hmem
        · exact Int.le_refl _
        · exact ((List.pairwise_cons.mp hrest).1 other hmem).le
      push_cast
      omega

/-- **The runs of a sorted list** make up the list, and there is a gap between each two of them. -/
theorem zeroRuns_spec (hs : sorted.Pairwise (· < ·)) :
    (zeroRuns sorted).flatMap runPages = sorted ∧ (∀ run ∈ zeroRuns sorted, 0 < run.2) ∧
      (zeroRuns sorted).Pairwise fun a b => a.1 + (a.2 : Int) < b.1 := by
  induction sorted using zeroRuns.induct with
  | case1 =>
    rw [zeroRuns]
    exact ⟨rfl, fun run hrun => (nomatch hrun), List.Pairwise.nil⟩
  | case2 page rest ih =>
    obtain ⟨hpos, htake, hgap⟩ := runLength_spec hs
    set n := runLength page rest with hn
    have hdrop : rest.drop (n - 1) = (page :: rest).drop n := by
      rw [← Nat.succ_pred_eq_of_pos hpos, List.drop_succ_cons]
      rfl
    rw [hdrop] at ih
    obtain ⟨hcover, hnonempty, hseparate⟩ := ih (hs.sublist (List.drop_sublist _ _))
    rw [zeroRuns, ← hn, hdrop]
    refine ⟨?_, ?_, ?_⟩
    · rw [List.flatMap_cons, hcover, ← htake, List.take_append_drop]
    · exact List.forall_mem_cons.mpr ⟨hpos, hnonempty⟩
    · refine List.pairwise_cons.mpr ⟨fun run hrun => ?_, hseparate⟩
      -- the first page of a later run is a page behind the gap
      refine hgap _ ?_
      rw [← hcover, List.mem_flatMap]
      have := hnonempty run hrun
      exact ⟨run, hrun, mem_runPages.mpr (by omega)⟩

/-- Runs with gaps between them are maximal. -/
theorem not_mem_of_separate {runs : List (Int × Nat)}
    (hseparate : runs.Pairwise fun a b => a.1 + (a.2 : Int) < b.1)
    (hcover : (runs.flatMap runPages).Perm pageIds)
    {run : Int × Nat} (hrun : run ∈ runs) : run.1 - 1 ∉ pageIds ∧ run.1 + run.2 ∉ pageIds := by
  have hapart : ∀ other ∈ runs, other = run ∨ other.1 + other.2 < run.1 ∨ run.1 + run.2 < other.1 := by
    intro other hother
    rcases eq_or_ne other run with heq | hne
    · exact .inl heq
    · have hboth := List.Pairwise.forall_of_forall_of_flip (R := fun a b : Int × Nat =>
        a = b ∨ a.1 + (a.2 : Int) < b.1 ∨ b.1 + (b.2 : Int) < a.1) (fun a _ => .inl rfl)
        (hseparate.imp fun h => .inr (.inl h)) (hseparate.imp fun h => .inr (.inr h))
      exact hboth hother hrun
  constructor
  all_goals
    intro hmem
    rw [← hcover.mem_iff, List.mem_flatMap] at hmem
    obtain ⟨other, hother, hpage⟩ := hmem
    rw [mem_runPages] at hpage
    rcases hapart other hother with rfl | hlt | hlt <;> omega

/-- **What `zero_pages` clears**, given distinct pages of the pool. -/
theorem zeroPages_runs (pool : PagedKVPool) (hd : pageIds.Nodup)
    (hrange : ∀ page ∈ pageIds, 0 ≤ page ∧ page < pool.spec.pageGroupCount) :
    ∃ runs, pool.zeroPages pageIds = .ok runs ∧ ClearsRuns pageIds runs := by
  have hperm := List.perm_insertionSort (· ≤ ·) pageIds
  set sorted := pageIds.insertionSort (· ≤ ·) with hsorted
  have hs : sorted.Pairwise (· < ·) := by
    have hle : sorted.Pairwise (· ≤ ·) := List.pairwise_insertionSort _ _
    have hne := hperm.nodup_iff.mpr hd
    exact (hle.and hne).imp fun h => lt_of_le_of_ne h.1 h.2
  obtain ⟨hcover, hnonempty, hseparate⟩ := zeroRuns_spec hs
  have hcovers : ((zeroRuns sorted).flatMap runPages).Perm pageIds := by
    rw [hcover]
    exact hperm
  have hclears : ClearsRuns pageIds (zeroRuns sorted) :=
    ⟨hcovers, hnonempty, hseparate, fun _ hrun => not_mem_of_separate hseparate hcovers hrun⟩
  by_cases hempty : pageIds.isEmpty
  · rw [List.isEmpty_iff] at hempty
    subst hempty
    refine ⟨[], rfl, ?_⟩
    rwa [hsorted, List.insertionSort_nil, zeroRuns] at hclears
  · refine ⟨zeroRuns sorted, ?_, hclears⟩
    unfold PagedKVPool.zeroPages
    rw [if_neg hempty]
    apply check_bind_eq_ok.mpr
    refine ⟨?_, ?_⟩
    · rintro front hfront back hback (hlow | hhigh)
      · have := (hrange front (hperm.mem_iff.mp (List.mem_of_mem_head? hfront))).1
        omega
      · have := (hrange back (hperm.mem_iff.mp (List.mem_of_mem_getLast? hback))).2
        omega
    · apply check_bind_eq_ok.mpr
      exact ⟨(hs.imp fun h => h.ne).isChain, rfl⟩

end Zero

/-! ## Both -/

/-- **Pages are taken and cleared by the intended runs.** -/
theorem pages_by_runs (pool : PagedKVPool) :
    (∀ (count : Nat) (preferredFirst : Int), pool.freePageIds.Pairwise (· < ·) → 0 < count →
      count ≤ pool.freePageIds.length →
      ∃ taken pool', pool.takePages count preferredFirst = .ok (taken, pool') ∧
        pool.TakesRun count preferredFirst taken pool') ∧
    ∀ pageIds : List Int, pageIds.Nodup →
      (∀ page ∈ pageIds, 0 ≤ page ∧ page < pool.spec.pageGroupCount) →
      ∃ runs, pool.zeroPages pageIds = .ok runs ∧ ClearsRuns pageIds runs :=
  ⟨fun _ preferredFirst hs hcount hlength => pool.takePages_run hs hcount hlength preferredFirst,
    fun _ hd hrange => zeroPages_runs pool hd hrange⟩

/-- A pool of eight pages whose free pages are `0`, `2`, `3` and `5`. -/
def fragmented : PagedKVPool :=
  { PagedKVPool.fresh
      { pageGroupCount := 8
        logicalPageCapacity := 8
        tableRows := 1
        pageGroupCount_pos := smallSpec.pageGroupCount_pos
        pageGroupCount_le := smallSpec.pageGroupCount_le
        logicalPageCapacity_pos := smallSpec.pageGroupCount_pos
        logicalPageCapacity_le := smallSpec.pageGroupCount_le
        tableRows_pos := Nat.zero_lt_one
        tableRows_le := one_le_int32Max } with
    freePageIds := [0, 2, 3, 5]
    mappedPages := 4 }

/-- Two pages are taken from the only run, not from the preferred page `5`; and three pages are
cleared. -/
theorem pages_by_runs_fragmented :
    (∃ taken pool', fragmented.takePages 2 5 = .ok (taken, pool') ∧ taken = [2, 3] ∧
      fragmented.TakesRun 2 5 taken pool') ∧
    ∃ runs, fragmented.zeroPages [5, 3, 2] = .ok runs ∧ ClearsRuns [5, 3, 2] runs := by
  obtain ⟨htake, hzero⟩ := pages_by_runs fragmented
  obtain ⟨taken, pool', hok, htaken⟩ := htake 2 5 (by decide) (by decide) (by decide)
  have hpages : (fragmented.takePages 2 5).toOption.map Prod.fst = some [2, 3] := rfl
  rw [hok] at hpages
  exact ⟨⟨taken, pool', hok, Option.some.inj hpages, htaken⟩, hzero _ (by decide) (by decide)⟩

end Ninfer.PagedKV
