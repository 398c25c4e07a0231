import Mathlib

/-!
# Index ranges that are split among threads

A range is run through by rows of a fixed length, by threads in turn, or by threads in strides.
Every split reaches every index once.
-/

namespace Ninfer

variable {α : Type*}

/-- A range by rows: what position `p` makes of its row and of its place in the row. -/
theorem map_range_mul (m n : Nat) (f : Nat → Nat → α) :
    (List.range (m * n)).map (fun p => f (p / n) (p % n)) =
      (List.range m).flatMap fun i => (List.range n).map (f i) := by
  induction m with
  | zero => simp
  | succ m ih =>
    rw [Nat.succ_mul, List.range_add, List.map_append, ih, List.range_succ, List.flatMap_append,
      List.flatMap_singleton, List.map_map]
    congr 1
    refine List.map_congr_left fun j hj => ?_
    have hj := List.mem_range.mp hj
    have hn : 0 < n := by omega
    rw [Function.comp_apply, Nat.mul_comm m n, Nat.mul_add_div hn, Nat.div_eq_of_lt hj,
      Nat.add_zero, Nat.mul_add_mod, Nat.mod_eq_of_lt hj]

/-- `div_up`. -/
def divUp (x d : Nat) : Nat := x / d + if x % d ≠ 0 then 1 else 0

theorem le_divUp_mul (x : Nat) {d : Nat} (hd : 0 < d) : x ≤ divUp x d * d := by
  have hsplit := Nat.div_add_mod x d
  have hlt := Nat.mod_lt x hd
  have hcomm := Nat.mul_comm d (x / d)
  unfold divUp
  rw [Nat.add_mul]
  split_ifs with h <;> omega

/-- A range by groups of at most `n` indices. -/
theorem flatMap_range_groups (count n : Nat) (groups : Nat) :
    ((List.range groups).flatMap fun g =>
      (List.range (min (count - g * n) n)).map fun i => g * n + i) =
        List.range (min count (groups * n)) := by
  induction groups with
  | zero => simp
  | succ g ih =>
    rw [List.range_succ, List.flatMap_append, ih, List.flatMap_singleton, Nat.succ_mul]
    rcases Nat.le_total count (g * n) with h | h
    · rw [Nat.min_eq_left h, Nat.sub_eq_zero_of_le h, Nat.zero_min, Nat.min_eq_left (by omega)]
      simp
    · rw [Nat.min_eq_right h, ← List.range_add]
      congr 1
      omega

/-- The items of a thread lie a block apart: over all threads they are the range. -/
theorem striped_perm (block items : Nat) :
    ((List.range block).flatMap fun tid => (List.range items).map fun item =>
      item * block + tid).Perm (List.range (items * block)) := by
  have hmem : ∀ {tid x : Nat}, x ∈ (List.range items).map (fun item => item * block + tid) →
      tid < block → x % block = tid ∧ x / block < items := by
    intro tid x hx htid
    obtain ⟨item, hitem, rfl⟩ := List.mem_map.mp hx
    have hpos : 0 < block := by omega
    rw [Nat.mul_comm, Nat.mul_add_mod, Nat.mod_eq_of_lt htid, Nat.mul_add_div hpos,
      Nat.div_eq_of_lt htid, Nat.add_zero]
    exact ⟨rfl, List.mem_range.mp hitem⟩
  refine (List.perm_ext_iff_of_nodup ?_ List.nodup_range).mpr fun x => ?_
  · refine List.nodup_flatMap.mpr ⟨fun tid htid => ?_, ?_⟩
    · refine List.nodup_range.map_on fun i _ j _ h => ?_
      have hpos : 0 < block := by have := List.mem_range.mp htid; omega
      exact Nat.eq_of_mul_eq_mul_right hpos (Nat.add_right_cancel h)
    · refine List.Pairwise.imp_of_mem ?_ (List.nodup_range (n := block))
      intro i j hi hj hne x hxi hxj
      have h₁ := (hmem hxi (List.mem_range.mp hi)).1
      have h₂ := (hmem hxj (List.mem_range.mp hj)).1
      exact hne (h₁.symm.trans h₂)
  · rw [List.mem_flatMap, List.mem_range]
    constructor
    · rintro ⟨tid, htid, hx⟩
      obtain ⟨-, hdiv⟩ := hmem hx (List.mem_range.mp htid)
      have hpos : 0 < block := by have := List.mem_range.mp htid; omega
      exact (Nat.div_lt_iff_lt_mul hpos).mp hdiv
    · intro hx
      have hpos : 0 < block := by
        rcases Nat.eq_zero_or_pos block with rfl | h
        · omega
        · exact h
      refine ⟨x % block, List.mem_range.mpr (Nat.mod_lt x hpos), List.mem_map.mpr
        ⟨x / block, List.mem_range.mpr ((Nat.div_lt_iff_lt_mul hpos).mpr hx), ?_⟩⟩
      rw [Nat.mul_comm]
      exact Nat.div_add_mod x block

/-- What a thread visits that starts at `v` and advances by a block. -/
def strided (block n v : Nat) : List Nat :=
  if v < n ∧ 0 < block then v :: strided block n (v + block) else []
termination_by n - v

theorem mem_strided {block n v x : Nat} (hblock : 0 < block) :
    x ∈ strided block n v ↔ v ≤ x ∧ x < n ∧ x % block = v % block := by
  induction v using strided.induct block n with
  | case1 v h ih =>
    rw [strided, if_pos h, List.mem_cons, ih, Nat.add_mod_right]
    constructor
    · rintro (rfl | ⟨hle, hlt, hmod⟩)
      · exact ⟨Nat.le_refl _, h.1, rfl⟩
      · exact ⟨by omega, hlt, hmod⟩
    · rintro ⟨hle, hlt, hmod⟩
      rcases Nat.eq_or_lt_of_le hle with rfl | hlt'
      · exact Or.inl rfl
      · refine Or.inr ⟨?_, hlt, hmod⟩
        -- the next index of the same remainder is a block further
        have hdvd := Nat.dvd_of_mod_eq_zero (Nat.sub_mod_eq_zero_of_mod_eq hmod)
        have := Nat.le_of_dvd (by omega) hdvd
        omega
  | case2 v h =>
    rw [strided, if_neg h]
    simp only [List.not_mem_nil, false_iff]
    omega

theorem nodup_strided (block n v : Nat) : (strided block n v).Nodup := by
  induction v using strided.induct block n with
  | case1 v h ih =>
    rw [strided, if_pos h, List.nodup_cons]
    refine ⟨fun hmem => ?_, ih⟩
    have := ((mem_strided h.2).mp hmem).1
    omega
  | case2 v h =>
    rw [strided, if_neg h]
    exact List.nodup_nil

/-- The strides of all threads of a block make up the range. -/
theorem strided_perm {block : Nat} (hblock : 0 < block) (n : Nat) :
    ((List.range block).flatMap (strided block n)).Perm (List.range n) := by
  refine (List.perm_ext_iff_of_nodup ?_ List.nodup_range).mpr fun x => ?_
  · refine List.nodup_flatMap.mpr ⟨fun tid _ => nodup_strided block n tid, ?_⟩
    refine List.Pairwise.imp_of_mem ?_ (List.nodup_range (n := block))
    intro i j hi hj hne x hxi hxj
    have h₁ := ((mem_strided hblock).mp hxi).2.2
    have h₂ := ((mem_strided hblock).mp hxj).2.2
    rw [Nat.mod_eq_of_lt (List.mem_range.mp hi)] at h₁
    rw [Nat.mod_eq_of_lt (List.mem_range.mp hj)] at h₂
    exact hne (h₁.symm.trans h₂)
  · rw [List.mem_flatMap, List.mem_range]
    constructor
    · rintro ⟨tid, -, hx⟩
      exact ((mem_strided hblock).mp hx).2.1
    · intro hx
      have hlt := Nat.mod_lt x hblock
      refine ⟨x % block, List.mem_range.mpr hlt, (mem_strided hblock).mpr
        ⟨Nat.mod_le x block, hx, (Nat.mod_eq_of_lt hlt).symm⟩⟩

end Ninfer
