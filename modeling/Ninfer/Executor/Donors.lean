import Ninfer.Executor.Admission

/-!
# The donors of a protected head

`make_admission_protection` gives up the active requests in the order of their completion until the
head fits together with the rest. The running total is always the head and the requests that are
left, so no subtraction underflows, and the loop ends before the list does when the head fits alone.

## Main definitions

* `FitsBeside`: the head fits together with some requests

## Main results

* `pickDonors_spec`: the loop stops at the shortest prefix that makes room
* `makeAdmissionProtection_donors`: the donors are the shortest prefix in the order of completion
-/

namespace Ninfer.Executor

variable {capacity : AdmissionResources}

/-- The head fits together with the requests that are left. -/
def FitsBeside (capacity head : AdmissionResources) (rest : List ActiveAdmissionSnapshot) : Prop :=
  ∀ k, head.amount k + (rest.map fun a => a.resources.amount k).sum ≤ capacity.amount k

/-- A total of at least what is taken off it. -/
theorem AdmissionResources.subtract_spec {total resources : AdmissionResources}
    (h : ∀ k, resources.amount k ≤ total.amount k) :
    ∃ left, total.subtract resources = some left ∧
      ∀ k, left.amount k + resources.amount k = total.amount k := by
  have hlanes := h .activeLanes
  have hmain := h .mainKvPages
  have hbackend := h .backendKvPages
  simp only [AdmissionResources.amount] at hlanes hmain hbackend
  refine ⟨_, if_neg (by omega), fun k => ?_⟩
  cases k <;> simp only [AdmissionResources.amount] <;> omega

/-- A total that fits is what `fits` compares. -/
theorem fits_iff_fitsBeside {head survivors : AdmissionResources}
    {rest : List ActiveAdmissionSnapshot}
    (h : ∀ k, survivors.amount k =
      head.amount k + (rest.map fun a => a.resources.amount k).sum) :
    survivors.fits capacity = true ↔ FitsBeside capacity head rest := by
  rw [AdmissionResources.fits_iff]
  exact forall_congr' fun k => by rw [h k]

/-- **The donor loop** stops at the shortest prefix whose release lets the head fit together with
the rest. The total that it mutates is the head and the rest. -/
theorem pickDonors_spec {head : AdmissionResources} (halone : FitsBeside capacity head [])
    (donors : List ActiveAdmissionSnapshot) (out : AdmissionProtection)
    (survivors : AdmissionResources)
    (htotal : ∀ k, survivors.amount k =
      head.amount k + (donors.map fun a => a.resources.amount k).sum)
    (hblocked : ¬ FitsBeside capacity head donors) :
    ∃ n last, n < donors.length ∧ donors[n]? = some last ∧
      pickDonors capacity out survivors donors = .ok { out with
        donorIds := out.donorIds ++ (donors.take (n + 1)).map fun a => a.requestId
        temporalCredit := last.remainingWorkQuanta } ∧
      FitsBeside capacity head (donors.drop (n + 1)) ∧
      ∀ m ≤ n, ¬ FitsBeside capacity head (donors.drop m) := by
  induction donors generalizing out survivors with
  | nil => exact absurd halone hblocked
  | cons donor rest ih =>
    have hle : ∀ k, donor.resources.amount k ≤ survivors.amount k := by
      intro k
      rw [htotal k, List.map_cons, List.sum_cons]
      omega
    obtain ⟨left, hsubtract, hleft⟩ := AdmissionResources.subtract_spec hle
    have hrest : ∀ k, left.amount k =
        head.amount k + (rest.map fun a => a.resources.amount k).sum := by
      intro k
      have htotal := htotal k
      have hleft := hleft k
      rw [List.map_cons, List.sum_cons] at htotal
      omega
    unfold pickDonors
    rw [hsubtract]
    dsimp only
    by_cases hfits : left.fits capacity = true
    · rw [if_pos hfits]
      refine ⟨0, donor, Nat.succ_pos _, rfl, rfl, (fits_iff_fitsBeside hrest).mp hfits, ?_⟩
      intro m hm
      rw [Nat.le_zero.mp hm]
      exact hblocked
    · rw [if_neg hfits]
      have hblocked' : ¬ FitsBeside capacity head rest := fun h =>
        hfits ((fits_iff_fitsBeside hrest).mpr h)
      obtain ⟨n, last, hn, hlast, hpick, hroom, hleast⟩ := ih
        { out with
          donorIds := out.donorIds ++ [donor.requestId]
          temporalCredit := donor.remainingWorkQuanta } left hrest hblocked'
      refine ⟨n + 1, last, Nat.succ_lt_succ hn, hlast, ?_, hroom, fun m hm => ?_⟩
      · rw [hpick, List.append_assoc]
        rfl
      · cases m with
        | zero => exact hblocked
        | succ m => exact hleast m (by omega)

/-! ## The order of completion -/

theorem completesBefore_iff {a b : ActiveAdmissionSnapshot} : completesBefore a b ↔
    a.remainingWorkQuanta < b.remainingWorkQuanta ∨
      a.remainingWorkQuanta = b.remainingWorkQuanta ∧ a.requestId ≤ b.requestId := by
  unfold completesBefore
  split_ifs <;> omega

instance : Std.Total completesBefore where
  total a b := by
    rw [completesBefore_iff, completesBefore_iff]
    omega

instance : IsTrans ActiveAdmissionSnapshot completesBefore where
  trans a b c hab hbc := by
    rw [completesBefore_iff] at hab hbc ⊢
    omega

/-- Requests with distinct ids have one order of completion. -/
theorem eq_insertionSort {active order : List ActiveAdmissionSnapshot}
    (hids : (active.map fun a => a.requestId).Nodup) (hperm : order.Perm active)
    (hsorted : order.Pairwise completesBefore) : active.insertionSort completesBefore = order := by
  refine List.Perm.eq_of_pairwise (fun a b ha hb hab hba => ?_)
    (List.pairwise_insertionSort completesBefore active) hsorted
    ((List.perm_insertionSort completesBefore active).trans hperm.symm)
  rw [completesBefore_iff] at hab hba
  have hmem : a ∈ active := (List.mem_insertionSort completesBefore).mp ha
  exact List.inj_on_of_nodup_map hids hmem (hperm.mem_iff.mp hb) (by omega)

/-- **The donors are the shortest prefix in the order of completion** whose release lets the head
fit together with the rest, and the temporal credit is the largest remaining work among them. Every
subtraction has room and the closing error is not reached: the result is a protection. -/
theorem makeAdmissionProtection_donors (epoch head : Nat) (resources : AdmissionResources)
    (active order : List ActiveAdmissionSnapshot) (hepoch : epoch ≠ 0) (hhead : head ≠ 0)
    (hlanes : resources.activeLanes ≠ 0) (hlength : active.length ≤ kMaximumConcurrency)
    (hvalid : ∀ a ∈ active, a.requestId ≠ 0 ∧ 1 ≤ a.remainingWorkQuanta)
    (hids : (active.map fun a => a.requestId).Nodup)
    (halone : FitsBeside capacity resources []) (hblocked : ¬ FitsBeside capacity resources active)
    (hperm : order.Perm active) (hsorted : order.Pairwise completesBefore) :
    ∃ n out, makeAdmissionProtection epoch head resources active capacity = .ok out ∧
      out.donorIds = (order.take n).map (fun a => a.requestId) ∧ n ≤ order.length ∧
      FitsBeside capacity resources (order.drop n) ∧
      (∀ m < n, ¬ FitsBeside capacity resources (order.drop m)) ∧
      (∀ a ∈ order.take n, a.remainingWorkQuanta ≤ out.temporalCredit) ∧
      ∃ a ∈ order.take n, a.remainingWorkQuanta = out.temporalCredit := by
  have hsame := eq_insertionSort hids hperm hsorted
  have hne : active ≠ [] := fun h => hblocked (h ▸ halone)
  have hfit : admissionResourcesFit resources capacity = true :=
    admissionResourcesFit_iff.mpr fun k => by
      have hk := halone k
      rwa [List.map_nil, List.sum_nil, Nat.add_zero] at hk
  have hprogress : (active.any fun a => a.requestId == 0 || a.remainingWorkQuanta == 0) = false := by
    rw [List.any_eq_false]
    intro a ha hzero
    obtain ⟨hid, hwork⟩ := hvalid a ha
    simp only [Bool.or_eq_true, beq_iff_eq] at hzero
    omega
  have hsum : ∀ k, (order.map fun a => a.resources.amount k).sum =
      (active.map fun a => a.resources.amount k).sum := fun k => (hperm.map _).sum_nat
  -- The running total before the loop is the head and all active requests.
  have htotal : ∀ k, ((active.foldl (fun total a => AdmissionResources.add total a.resources)
      {}).add resources).amount k =
        resources.amount k + (order.map fun a => a.resources.amount k).sum := by
    intro k
    rw [AdmissionResources.amount_add, AdmissionResources.amount_foldl,
      AdmissionResources.amount_zero, hsum]
    omega
  have hblocked' : ¬ FitsBeside capacity resources order := fun h =>
    hblocked fun k => (hsum k) ▸ h k
  -- The loop stops at the first suffix that leaves room.
  obtain ⟨n, last, hn, hlast, hpick, hroom, hleast⟩ := pickDonors_spec halone order
    { epochId := epoch
      headRequestId := head
      headResources := resources
      incumbentIds := active.map fun a => a.requestId } _ htotal hblocked'
  have hmem : last ∈ order.take (n + 1) := by
    refine List.mem_of_getElem? (i := n) ?_
    rw [List.getElem?_take_of_lt (Nat.lt_succ_self n), hlast]
  refine ⟨n + 1, _, Eq.trans ?_ hpick, rfl, hn, hroom, fun m hm => hleast m (by omega),
    fun a ha => ?_, last, hmem, rfl⟩
  · unfold makeAdmissionProtection
    rw [if_neg (by simp [hepoch, hhead, hne, hlanes, hfit, Nat.not_lt.mpr hlength]), if_neg (by
      rw [hprogress]
      exact Bool.false_ne_true)]
    dsimp only
    rw [if_neg (fun h => hblocked' ((fits_iff_fitsBeside htotal).mp h)), hsame]
  · -- The last donor is the latest of the prefix.
    obtain ⟨i, hi⟩ := List.mem_iff_getElem?.mp ha
    have hin : i ≤ n := by
      by_contra hlt
      rw [List.getElem?_take_eq_none (by omega)] at hi
      cases hi
    rw [List.getElem?_take_of_lt (by omega)] at hi
    show a.remainingWorkQuanta ≤ last.remainingWorkQuanta
    rcases Nat.lt_or_eq_of_le hin with hlt | rfl
    · obtain ⟨hi', rfl⟩ := List.getElem?_eq_some_iff.mp hi
      obtain ⟨hn', rfl⟩ := List.getElem?_eq_some_iff.mp hlast
      have hbefore := List.pairwise_iff_getElem.mp hsorted i n hi' hn' hlt
      rw [completesBefore_iff] at hbefore
      omega
    · cases hi.symm.trans hlast
      exact Nat.le_refl _

/-- Three active requests, of which two complete at the same time. -/
def sampleActive : List ActiveAdmissionSnapshot :=
  [{ requestId := 3, resources := ⟨1, 4, 0⟩, remainingWorkQuanta := 5 },
    { requestId := 1, resources := ⟨1, 2, 0⟩, remainingWorkQuanta := 2 },
    { requestId := 2, resources := ⟨1, 3, 0⟩, remainingWorkQuanta := 2 }]

def sampleOrder : List ActiveAdmissionSnapshot :=
  [{ requestId := 1, resources := ⟨1, 2, 0⟩, remainingWorkQuanta := 2 },
    { requestId := 2, resources := ⟨1, 3, 0⟩, remainingWorkQuanta := 2 },
    { requestId := 3, resources := ⟨1, 4, 0⟩, remainingWorkQuanta := 5 }]

theorem sample_makeAdmissionProtection_donors :
    ∃ n out, makeAdmissionProtection 1 9 ⟨1, 5, 0⟩ sampleActive ⟨3, 9, 0⟩ = .ok out ∧
      out.donorIds = (sampleOrder.take n).map (fun a => a.requestId) ∧ n ≤ sampleOrder.length ∧
      FitsBeside ⟨3, 9, 0⟩ ⟨1, 5, 0⟩ (sampleOrder.drop n) ∧
      (∀ m < n, ¬ FitsBeside ⟨3, 9, 0⟩ ⟨1, 5, 0⟩ (sampleOrder.drop m)) ∧
      (∀ a ∈ sampleOrder.take n, a.remainingWorkQuanta ≤ out.temporalCredit) ∧
      ∃ a ∈ sampleOrder.take n, a.remainingWorkQuanta = out.temporalCredit :=
  makeAdmissionProtection_donors 1 9 ⟨1, 5, 0⟩ sampleActive sampleOrder (by decide) (by decide)
    (by decide) (by decide) (by decide) (by decide) (fun k => by cases k <;> decide)
    (fun h => absurd (h .mainKvPages) (by decide)) (by decide) (by decide)

end Ninfer.Executor
