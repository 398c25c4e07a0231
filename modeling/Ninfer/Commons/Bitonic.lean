import Mathlib

/-!
# Bitonic sorting networks

The threads of a block sort a tile of `2 ^ m` elements in passes. In the pass of a size and a
stride, thread `i` compares its element with that of `i ^^^ stride` and swaps the two if they are
out of order, where blocks of `size` elements are sorted downwards and upwards in turn. The pairs
of a pass are disjoint, so the order in which its threads run is irrelevant.

A tile is sorted when, for every threshold, the elements that reach it come first. What a pass does
to the elements that reach a threshold is a matter of two Booleans, and of those that reach it in a
block before its passes no more is needed than that they lie next to each other, when the block is
closed to a circle.

## Main definitions

* `exchange`, `pass`, `network`: a thread, the threads of a pass, and all passes
* `Reaches`: the elements that reach a threshold

## Main results

* `pass_apply`: a pass is independent of the order of its threads
* `merge_block`: the passes of a size sort a block
* `network_sorted`, `network_perm`: the network sorts
-/

namespace Ninfer.Bitonic

variable {α κ : Type*} [LinearOrder κ]

/-! ## The network -/

section Network

variable (better : α → α → Bool)

/-- Thread `i` in the pass of `size` and `stride`. -/
def exchange (size stride : Nat) (a : Nat → α) (i : Nat) : Nat → α :=
  let other := i ^^^ stride
  if i < other then
    let descending := i &&& size = 0
    let swap := if descending then better (a other) (a i) else better (a i) (a other)
    if swap then a ∘ Equiv.swap i other else a
  else a

/-- The threads of a pass, in the order in which they run. -/
def pass (threads : List Nat) (size stride : Nat) (a : Nat → α) : Nat → α :=
  threads.foldl (exchange better size stride) a

/-- The passes of `size` with the strides `2 ^ (s - 1)`, ..., `2`, `1`. -/
def merge (threads : List Nat) (size : Nat) : Nat → (Nat → α) → Nat → α
  | 0, a => a
  | s + 1, a => merge threads size s (pass better threads size (2 ^ s) a)

/-- The sizes `2`, `4`, ..., `2 ^ m`, each with the strides below it. -/
def network (threads : List Nat) : Nat → (Nat → α) → Nat → α
  | 0, a => a
  | m + 1, a => merge better threads (2 ^ (m + 1)) (m + 1) (network threads m a)

end Network

/-! ## Pairs of a pass -/

section Pairs

variable {better : α → α → Bool} {threads : List Nat} {size stride s m q j : Nat} {a : Nat → α}

theorem xor_xor_self (i stride : Nat) : i ^^^ stride ^^^ stride = i := by
  rw [Nat.xor_assoc, Nat.xor_self, Nat.xor_zero]

/-- A thread leaves everything outside its pair as it is. -/
theorem exchange_of_ne {i x : Nat} (hi : x ≠ i) (ho : x ≠ i ^^^ stride) :
    exchange better size stride a i x = a x := by
  unfold exchange
  dsimp only
  split_ifs <;> first | rfl | exact congrArg a (Equiv.swap_apply_of_ne_of_ne hi ho)

/-- The upper thread of a pair does nothing. -/
theorem exchange_of_not_lt {i : Nat} (h : ¬i < i ^^^ stride) :
    exchange better size stride a i = a :=
  if_neg h

/-- What a thread does depends on its pair only. -/
theorem exchange_congr {a' : Nat → α} {i x : Nat} (hi : a i = a' i)
    (ho : a (i ^^^ stride) = a' (i ^^^ stride)) (hx : x = i ∨ x = i ^^^ stride) :
    exchange better size stride a i x = exchange better size stride a' i x := by
  unfold exchange
  dsimp only
  rw [hi, ho]
  rcases hx with rfl | rfl <;> split_ifs <;> simp [hi, ho]

/-- The lower thread of the pair of `x`. -/
def lower (stride x : Nat) : Nat := min x (x ^^^ stride)

theorem eq_lower_or (stride x : Nat) : x = lower stride x ∨ x = lower stride x ^^^ stride := by
  unfold lower
  rcases le_total x (x ^^^ stride) with h | h
  · exact Or.inl (min_eq_left h).symm
  · right
    rw [min_eq_right h, xor_xor_self]

/-- **A pass is independent of the order of its threads**: an element is what the lower thread of
its pair makes of it. -/
theorem pass_apply (hnodup : threads.Nodup) (x : Nat) :
    pass better threads size stride a x =
      if lower stride x ∈ threads then exchange better size stride a (lower stride x) x
      else a x := by
  induction threads generalizing a with
  | nil => simp [pass]
  | cons i threads ih =>
    obtain ⟨hi, hnodup⟩ := List.nodup_cons.mp hnodup
    have hrun : pass better (i :: threads) size stride a x =
        pass better threads size stride (exchange better size stride a i) x := rfl
    rw [hrun, ih hnodup]
    by_cases hmem : lower stride x ∈ threads
    · -- thread `i` has left the pair of `x` alone
      rw [if_pos hmem, if_pos (List.mem_cons_of_mem i hmem)]
      have hne : lower stride x ≠ i := fun h => hi (h ▸ hmem)
      by_cases hlt : i < i ^^^ stride
      · have hother : lower stride x ≠ i ^^^ stride := by
          intro h
          have hlow : lower stride x ≤ lower stride x ^^^ stride := by
            unfold lower
            rcases le_total x (x ^^^ stride) with hle | hle
            · rwa [min_eq_left hle]
            · rwa [min_eq_right hle, xor_xor_self]
          rw [h, xor_xor_self] at hlow
          omega
        refine exchange_congr ?_ ?_ (eq_lower_or stride x)
        · exact exchange_of_ne hne hother
        · refine exchange_of_ne (fun h => hother ?_) fun h => hne ?_
          · rw [← h, xor_xor_self]
          · rw [← xor_xor_self (lower stride x) stride, h, xor_xor_self]
      · rw [exchange_of_not_lt hlt]
    · rw [if_neg hmem]
      by_cases hxi : lower stride x = i
      · rw [if_pos (hxi ▸ List.mem_cons_self), hxi]
      · rw [if_neg (by simp [hxi, hmem])]
        -- `x` is in the pair of thread `i` as its upper element at most
        by_cases hlt : i < i ^^^ stride
        · refine exchange_of_ne (fun h => hxi ?_) fun h => hxi ?_
          · rw [h, lower, min_eq_left hlt.le]
          · rw [h, lower, xor_xor_self, min_eq_right hlt.le]
        · rw [exchange_of_not_lt hlt]

/-! ## Blocks -/

/-- The stride of a half leads from an element of the first half to that of the second one. -/
theorem xor_two_pow (hj : j < 2 ^ s) :
    (2 ^ (s + 1) * q + j) ^^^ 2 ^ s = 2 ^ (s + 1) * q + (2 ^ s + j) := by
  have hsum : 2 ^ s + j < 2 ^ (s + 1) := by
    rw [Nat.pow_succ]
    omega
  have hone : 2 ^ s + j = 2 ^ s * 1 + j := by rw [Nat.mul_one]
  refine Nat.eq_of_testBit_eq fun n => ?_
  rw [Nat.testBit_xor, Nat.testBit_two_pow, Nat.testBit_two_pow_mul_add _ (by omega),
    Nat.testBit_two_pow_mul_add _ hsum, hone, Nat.testBit_two_pow_mul_add _ hj]
  rcases Nat.lt_trichotomy n s with hn | rfl | hn
  · have hne : s ≠ n := by omega
    simp [hn, hne, Nat.lt_succ_of_lt hn]
  · have hbit : j.testBit n = false := Nat.testBit_lt_two_pow hj
    simp [hbit]
  · have hge : ¬n < s + 1 := by omega
    have hne : s ≠ n := by omega
    simp [hge, hne]

/-- A block that is not larger than `size` is sorted in one direction. -/
theorem and_two_pow_block (hs : s ≤ m) (hj : j < 2 ^ s) :
    (2 ^ s * q + j) &&& 2 ^ m = 0 ↔ (2 ^ s * q).testBit m = false := by
  have hbit : (2 ^ s * q + j).testBit m = (2 ^ s * q).testBit m := by
    have hzero := Nat.testBit_two_pow_mul_add q (Nat.two_pow_pos s) m
    rw [Nat.add_zero] at hzero
    rw [Nat.testBit_two_pow_mul_add _ hj, hzero, if_neg (by omega), if_neg (by omega)]
  rw [Nat.and_two_pow, hbit]
  cases (2 ^ s * q).testBit m <;> simp

end Pairs

/-! ## Elements that reach a threshold -/

section Thresholds

variable {better : α → α → Bool} {key : α → κ} {threads : List Nat} {s m q j w : Nat}
  {a : Nat → α}

/-- Whether element `i` reaches the threshold `t`. -/
def Reaches (key : α → κ) (t : κ) (a : Nat → α) (i : Nat) : Bool :=
  decide (t ≤ key (a i))

/-- After a comparison, an element of its pair reaches the threshold if one does, the other if both
do. -/
theorem reaches_exchange (hb : ∀ x y, better x y = true ↔ key y < key x) (t : κ)
    (size : Nat) {stride i : Nat} (hi : i < i ^^^ stride) :
    let e := exchange better size stride a i
    let one := Reaches key t a i || Reaches key t a (i ^^^ stride)
    let both := Reaches key t a i && Reaches key t a (i ^^^ stride)
    Reaches key t e i = (if i &&& size = 0 then one else both) ∧
      Reaches key t e (i ^^^ stride) = (if i &&& size = 0 then both else one) := by
  dsimp only
  unfold exchange Reaches
  dsimp only
  rw [if_pos hi]
  by_cases hdir : i &&& size = 0
  · rw [if_pos hdir, if_pos hdir, if_pos hdir]
    by_cases hswap : better (a (i ^^^ stride)) (a i) = true
    · have hlt := (hb _ _).mp hswap
      rw [if_pos hswap]
      simp only [Function.comp_apply, Equiv.swap_apply_left, Equiv.swap_apply_right]
      rw [← Bool.decide_or, ← Bool.decide_and, decide_eq_decide, decide_eq_decide]
      exact ⟨⟨Or.inr, fun h => h.elim (·.trans hlt.le) id⟩, fun h => ⟨h, h.trans hlt.le⟩, And.left⟩
    · have hle := not_lt.mp fun h => hswap ((hb _ _).mpr h)
      rw [if_neg hswap, ← Bool.decide_or, ← Bool.decide_and, decide_eq_decide, decide_eq_decide]
      exact ⟨⟨Or.inl, fun h => h.elim id (·.trans hle)⟩, fun h => ⟨h.trans hle, h⟩, And.right⟩
  · rw [if_neg hdir, if_neg hdir, if_neg hdir]
    by_cases hswap : better (a i) (a (i ^^^ stride)) = true
    · have hlt := (hb _ _).mp hswap
      rw [if_pos hswap]
      simp only [Function.comp_apply, Equiv.swap_apply_left, Equiv.swap_apply_right]
      rw [← Bool.decide_or, ← Bool.decide_and, decide_eq_decide, decide_eq_decide]
      exact ⟨⟨fun h => ⟨h.trans hlt.le, h⟩, And.right⟩, Or.inl, fun h => h.elim id (·.trans hlt.le)⟩
    · have hle := not_lt.mp fun h => hswap ((hb _ _).mpr h)
      rw [if_neg hswap, ← Bool.decide_or, ← Bool.decide_and, decide_eq_decide, decide_eq_decide]
      exact ⟨⟨fun h => ⟨h, h.trans hle⟩, And.left⟩, Or.inr, fun h => h.elim (·.trans hle) id⟩

/-- A pass on a block of the double of its stride: the halves are compared element by element. -/
theorem reaches_pass (hb : ∀ x y, better x y = true ↔ key y < key x) (t : κ)
    (hthreads : threads.Perm (List.range (2 ^ w))) (hs : s + 1 ≤ m) (hj : j < 2 ^ s)
    (hq : 2 ^ (s + 1) * q + 2 ^ (s + 1) ≤ 2 ^ w) :
    let p := pass better threads (2 ^ m) (2 ^ s) a
    let lo := 2 ^ (s + 1) * q + j
    let hi := 2 ^ (s + 1) * q + (2 ^ s + j)
    let one := Reaches key t a lo || Reaches key t a hi
    let both := Reaches key t a lo && Reaches key t a hi
    Reaches key t p lo = (bif (2 ^ (s + 1) * q).testBit m then both else one) ∧
      Reaches key t p hi = (bif (2 ^ (s + 1) * q).testBit m then one else both) := by
  dsimp only
  have hpow : 2 ^ (s + 1) = 2 ^ s + 2 ^ s := by rw [Nat.pow_succ, Nat.mul_two]
  have hxor := xor_two_pow (q := q) hj
  have hlt : 2 ^ (s + 1) * q + j < (2 ^ (s + 1) * q + j) ^^^ 2 ^ s := by
    have := Nat.two_pow_pos s
    omega
  have hmem : 2 ^ (s + 1) * q + j ∈ threads :=
    hthreads.mem_iff.mpr (List.mem_range.mpr (by omega))
  have hnodup : threads.Nodup := hthreads.nodup_iff.mpr List.nodup_range
  have hlo : lower (2 ^ s) (2 ^ (s + 1) * q + j) = 2 ^ (s + 1) * q + j := min_eq_left hlt.le
  have hhi : lower (2 ^ s) (2 ^ (s + 1) * q + (2 ^ s + j)) = 2 ^ (s + 1) * q + j := by
    rw [← hxor, lower, xor_xor_self, min_eq_right hlt.le]
  obtain ⟨hone, hboth⟩ := reaches_exchange (a := a) hb t (2 ^ m) hlt
  have hdir := and_two_pow_block (q := q) hs (show j < 2 ^ (s + 1) by omega)
  have heq : ∀ x, lower (2 ^ s) x = 2 ^ (s + 1) * q + j →
      Reaches key t (pass better threads (2 ^ m) (2 ^ s) a) x =
        Reaches key t (exchange better (2 ^ m) (2 ^ s) a (2 ^ (s + 1) * q + j)) x := by
    intro x hx
    unfold Reaches
    rw [pass_apply hnodup, hx, if_pos hmem]
  rw [heq _ hlo, heq _ hhi, ← hxor, hone, hboth]
  cases hbit : (2 ^ (s + 1) * q).testBit m
  · rw [if_pos (hdir.mpr hbit), if_pos (hdir.mpr hbit)]
    exact ⟨rfl, rfl⟩
  · have hne : ¬(2 ^ (s + 1) * q + j) &&& 2 ^ m = 0 := fun h => by
      rw [hdir.mp h] at hbit
      cases hbit
    rw [if_neg hne, if_neg hne]
    exact ⟨rfl, rfl⟩

/-- The position in a circle of `2 * h` elements, and that of the element half a circle further. -/
theorem mod_two_mul (x h : Nat) (hh : 0 < h) :
    x % (2 * h) = x % h ∧ (x + h) % (2 * h) = x % h + h ∨
      x % (2 * h) = x % h + h ∧ (x + h) % (2 * h) = x % h := by
  have hx : x % (h * 2) = x % h + h * (x / h % 2) := Nat.mod_mul
  have hxh : (x + h) % (h * 2) = (x + h) % h + h * ((x + h) / h % 2) := Nat.mod_mul
  rw [Nat.add_mod_right, Nat.add_div_right x hh] at hxh
  rw [Nat.mul_comm 2 h, hx, hxh]
  rcases Nat.mod_two_eq_zero_or_one (x / h) with h0 | h1
  · left
    have hnext : (x / h + 1) % 2 = 1 := by omega
    rw [h0, hnext]
    omega
  · right
    have hnext : (x / h + 1) % 2 = 0 := by omega
    rw [h1, hnext]
    omega

/-- **The passes of a size sort a block**: elements that reach the threshold and lie next to each
other on the circle of the block are brought to its front, or to its end. -/
theorem merge_block (hb : ∀ x y, better x y = true ↔ key y < key x) (t : κ)
    (hthreads : threads.Perm (List.range (2 ^ w))) (hs : s ≤ m)
    (hq : 2 ^ s * q + 2 ^ s ≤ 2 ^ w) {r c : Nat} (hc : c ≤ 2 ^ s)
    (hbefore : ∀ j < 2 ^ s, Reaches key t a (2 ^ s * q + j) = decide ((j + r) % 2 ^ s < c)) :
    ∀ j < 2 ^ s, Reaches key t (merge better threads (2 ^ m) s a) (2 ^ s * q + j) =
      bif (2 ^ s * q).testBit m then decide (2 ^ s ≤ j + c) else decide (j < c) := by
  induction s generalizing a q c with
  | zero =>
    intro j hj
    rw [merge, hbefore j hj, Nat.pow_zero, Nat.mod_one]
    cases (1 * q).testBit m <;> simp <;> omega
  | succ s ih =>
    have hpow : 2 ^ (s + 1) = 2 * 2 ^ s := by rw [Nat.pow_succ, Nat.mul_comm]
    have hpos := Nat.two_pow_pos s
    have hfirst : 2 ^ (s + 1) * q = 2 ^ s * (2 * q) := by rw [hpow, Nat.mul_comm 2, Nat.mul_assoc]
    have hsecond : 2 ^ s * (2 * q + 1) = 2 ^ (s + 1) * q + 2 ^ s := by
      rw [Nat.mul_add, Nat.mul_one, hfirst]
    -- both halves are sorted in the direction of the block
    have hbit : (2 ^ s * (2 * q + 1)).testBit m = (2 ^ (s + 1) * q).testBit m := by
      have hhalf : 2 ^ s < 2 ^ (s + 1) := by omega
      have hblock := Nat.testBit_two_pow_mul_add q hhalf m
      have hzero := Nat.testBit_two_pow_mul_add q (Nat.two_pow_pos (s + 1)) m
      rw [Nat.add_zero] at hzero
      rw [hsecond, hblock, hzero, if_neg (by omega), if_neg (by omega)]
    have hpass := fun j hj => reaches_pass (a := a) (j := j) hb t hthreads hs hj hq
    dsimp only at hpass
    -- the two positions that are compared
    have hcircle := fun j => mod_two_mul (j + r) (2 ^ s) hpos
    have hlo := fun j (hj : j < 2 ^ s) => hbefore j (by omega)
    have hhi := fun j (hj : j < 2 ^ s) => hbefore (2 ^ s + j) (by omega)
    have hmod : ∀ j, (j + r) % 2 ^ s < 2 ^ s := fun j => Nat.mod_lt _ hpos
    have hone : ∀ j < 2 ^ s, (Reaches key t a (2 ^ (s + 1) * q + j) ||
        Reaches key t a (2 ^ (s + 1) * q + (2 ^ s + j))) =
          decide ((j + r) % 2 ^ s < min c (2 ^ s)) := by
      intro j hj
      have := hmod j
      rw [hlo j hj, hhi j hj, hpow, show 2 ^ s + j + r = j + r + 2 ^ s by omega,
        ← Bool.decide_or, decide_eq_decide, Nat.lt_min]
      rcases hcircle j with ⟨h₁, h₂⟩ | ⟨h₁, h₂⟩ <;> rw [h₁, h₂] <;> omega
    have hboth : ∀ j < 2 ^ s, (Reaches key t a (2 ^ (s + 1) * q + j) &&
        Reaches key t a (2 ^ (s + 1) * q + (2 ^ s + j))) =
          decide ((j + r) % 2 ^ s < c - 2 ^ s) := by
      intro j hj
      rw [hlo j hj, hhi j hj, hpow, show 2 ^ s + j + r = j + r + 2 ^ s by omega,
        ← Bool.decide_and, decide_eq_decide]
      rcases hcircle j with ⟨h₁, h₂⟩ | ⟨h₁, h₂⟩ <;> rw [h₁, h₂] <;> omega
    have hsplit : ∀ j < 2 ^ (s + 1), j < 2 ^ s ∨ ∃ i < 2 ^ s, j = 2 ^ s + i := by
      intro j hj
      rcases Nat.lt_or_ge j (2 ^ s) with h | h
      · exact Or.inl h
      · exact Or.inr ⟨j - 2 ^ s, by omega, by omega⟩
    cases hdir : (2 ^ (s + 1) * q).testBit m with
    | false =>
      rw [hdir] at hbit
      have hdown := ih (by omega) (q := 2 * q) (a := pass better threads (2 ^ m) (2 ^ s) a)
        (by omega) (min_le_right c (2 ^ s)) fun j hj => by
          rw [← hfirst, (hpass j hj).1, hdir, cond_false, hone j hj]
      have hup := ih (by omega) (q := 2 * q + 1) (a := pass better threads (2 ^ m) (2 ^ s) a)
        (c := c - 2 ^ s) (by omega) (by omega) fun j hj => by
          rw [hsecond, Nat.add_assoc, (hpass j hj).2, hdir, cond_false, hboth j hj]
      intro j hj
      rw [merge, cond_false]
      rcases hsplit j hj with hlt | ⟨i, hi, rfl⟩
      · rw [hfirst, hdown j hlt, ← hfirst, hdir, cond_false, decide_eq_decide]
        omega
      · rw [← Nat.add_assoc, ← hsecond, hup i hi, hbit, cond_false, decide_eq_decide]
        omega
    | true =>
      rw [hdir] at hbit
      have hdown := ih (by omega) (q := 2 * q) (a := pass better threads (2 ^ m) (2 ^ s) a)
        (c := c - 2 ^ s) (by omega) (by omega) fun j hj => by
          rw [← hfirst, (hpass j hj).1, hdir, cond_true, hboth j hj]
      have hup := ih (by omega) (q := 2 * q + 1) (a := pass better threads (2 ^ m) (2 ^ s) a)
        (by omega) (min_le_right c (2 ^ s)) fun j hj => by
          rw [hsecond, Nat.add_assoc, (hpass j hj).2, hdir, cond_true, hone j hj]
      intro j hj
      rw [merge, cond_true]
      rcases hsplit j hj with hlt | ⟨i, hi, rfl⟩
      · rw [hfirst, hdown j hlt, ← hfirst, hdir, cond_true, decide_eq_decide]
        omega
      · rw [← Nat.add_assoc, ← hsecond, hup i hi, hbit, cond_true, decide_eq_decide]
        omega

/-- After the sizes up to `2 ^ m`, the blocks of `2 ^ m` elements are sorted downwards and upwards
in turn. -/
theorem network_block (hb : ∀ x y, better x y = true ↔ key y < key x) (t : κ)
    (hthreads : threads.Perm (List.range (2 ^ w))) (m q : Nat)
    (hq : 2 ^ m * q + 2 ^ m ≤ 2 ^ w) :
    ∃ c ≤ 2 ^ m, ∀ j < 2 ^ m, Reaches key t (network better threads m a) (2 ^ m * q + j) =
      bif q.testBit 0 then decide (2 ^ m ≤ j + c) else decide (j < c) := by
  induction m generalizing q with
  | zero =>
    refine ⟨(Reaches key t a q).toNat, by simpa using Bool.toNat_le _, fun j hj => ?_⟩
    obtain rfl : j = 0 := by omega
    rw [network, Nat.pow_zero, Nat.one_mul, Nat.add_zero]
    cases Reaches key t a q <;> cases q.testBit 0 <;> rfl
  | succ m ih =>
    have hpow : 2 ^ (m + 1) = 2 * 2 ^ m := by rw [Nat.pow_succ, Nat.mul_comm]
    have hpos := Nat.two_pow_pos m
    have hfirst : 2 ^ (m + 1) * q = 2 ^ m * (2 * q) := by rw [hpow, Nat.mul_comm 2, Nat.mul_assoc]
    have hsecond : 2 ^ m * (2 * q + 1) = 2 ^ (m + 1) * q + 2 ^ m := by
      rw [Nat.mul_add, Nat.mul_one, hfirst]
    obtain ⟨c₁, hc₁, hdown⟩ := ih (2 * q) (by omega)
    obtain ⟨c₂, hc₂, hup⟩ := ih (2 * q + 1) (by omega)
    have heven : (2 * q).testBit 0 = false := by simp
    have hodd : (2 * q + 1).testBit 0 = true := by simp
    have hbit : (2 ^ (m + 1) * q).testBit (m + 1) = q.testBit 0 := by
      have hzero := Nat.testBit_two_pow_mul_add q (Nat.two_pow_pos (m + 1)) (m + 1)
      rw [Nat.add_zero] at hzero
      rw [hzero, if_neg (by omega), Nat.sub_self]
    refine ⟨c₁ + c₂, by omega, ?_⟩
    rw [← hbit]
    -- a block that falls and then rises lies next to each other on its circle
    refine merge_block hb t hthreads le_rfl hq (r := c₂) (by omega) fun j hj => ?_
    rcases Nat.lt_or_ge j (2 ^ m) with hlt | hge
    · rw [hfirst, hdown j hlt, heven, cond_false, decide_eq_decide]
      rcases Nat.lt_or_ge (j + c₂) (2 ^ (m + 1)) with h | h
      · rw [Nat.mod_eq_of_lt h]
        omega
      · rw [Nat.mod_eq_sub_mod h, Nat.mod_eq_of_lt (by omega)]
        omega
    · obtain ⟨i, rfl⟩ : ∃ i, j = 2 ^ m + i := ⟨j - 2 ^ m, by omega⟩
      rw [← Nat.add_assoc, ← hsecond, hup i (by omega), hodd, cond_true, decide_eq_decide]
      rcases Nat.lt_or_ge (2 ^ m + i + c₂) (2 ^ (m + 1)) with h | h
      · rw [Nat.mod_eq_of_lt h]
        omega
      · rw [Nat.mod_eq_sub_mod h, Nat.mod_eq_of_lt (by omega)]
        omega

/-- **The network sorts** a tile downwards, whatever the order of the threads is. -/
theorem network_sorted (hb : ∀ x y, better x y = true ↔ key y < key x)
    (hthreads : threads.Perm (List.range (2 ^ w))) :
    (((List.range (2 ^ w)).map (network better threads w a)).map key).SortedGE := by
  have hle : ∀ i j, i < j → j < 2 ^ w →
      key (network better threads w a j) ≤ key (network better threads w a i) := by
    intro i j hij hj
    -- the threshold is what `j` reaches
    obtain ⟨c, -, hcount⟩ := network_block (a := a) hb (key (network better threads w a j))
      hthreads w 0 (by omega)
    have hzero : (0 : Nat).testBit 0 = false := by simp
    have hreach : ∀ k < 2 ^ w, Reaches key (key (network better threads w a j))
        (network better threads w a) k = decide (k < c) := by
      intro k hk
      have h := hcount k hk
      rwa [Nat.mul_zero, Nat.zero_add, hzero, cond_false] at h
    have hself := hreach j hj
    rw [Reaches, decide_eq_true le_rfl] at hself
    have hi := hreach i (by omega)
    rw [Reaches, decide_eq_decide] at hi
    exact hi.mpr (by have := of_decide_eq_true hself.symm; omega)
  rw [List.map_map, List.sortedGE_iff_pairwise, List.pairwise_map]
  refine List.pairwise_iff_getElem.mpr fun i j hi hj hij => ?_
  rw [List.getElem_range, List.getElem_range]
  rw [List.length_range] at hj
  exact hle i j hij hj

end Thresholds

/-! ## Permutations -/

section Permutations

variable {better : α → α → Bool} {threads : List Nat} {n : Nat}

theorem map_swap_perm (a : Nat → α) {i j : Nat} (hi : i < n) (hj : j < n) :
    ((List.range n).map (a ∘ Equiv.swap i j)).Perm ((List.range n).map a) := by
  rw [← List.map_map]
  refine List.Perm.map a ?_
  refine (List.perm_ext_iff_of_nodup (List.nodup_range.map (Equiv.injective _))
    List.nodup_range).mpr fun x => ?_
  have hswap : ∀ y, y < n → Equiv.swap i j y < n := by
    intro y hy
    rw [Equiv.swap_apply_def]
    split_ifs <;> assumption
  rw [List.mem_map, List.mem_range]
  refine ⟨?_, fun hx => ⟨Equiv.swap i j x, List.mem_range.mpr (hswap x hx),
    Equiv.swap_apply_self i j x⟩⟩
  rintro ⟨y, hy, rfl⟩
  exact hswap y (List.mem_range.mp hy)

theorem pass_perm {w stride : Nat} (a : Nat → α) (size : Nat) (hstride : stride < 2 ^ w)
    (hthreads : ∀ i ∈ threads, i < 2 ^ w) :
    ((List.range (2 ^ w)).map (pass better threads size stride a)).Perm
      ((List.range (2 ^ w)).map a) := by
  induction threads generalizing a with
  | nil => exact List.Perm.refl _
  | cons i threads ih =>
    have hi := hthreads i List.mem_cons_self
    have hrun : pass better (i :: threads) size stride a =
        pass better threads size stride (exchange better size stride a i) := rfl
    rw [hrun]
    refine (ih _ fun k hk => hthreads k (List.mem_cons_of_mem i hk)).trans ?_
    unfold exchange
    dsimp only
    split_ifs <;> first
      | exact List.Perm.refl _
      | exact map_swap_perm a hi (Nat.xor_lt_two_pow hi hstride)

theorem merge_perm {w s : Nat} (a : Nat → α) (size : Nat) (hs : s ≤ w)
    (hthreads : ∀ i ∈ threads, i < 2 ^ w) :
    ((List.range (2 ^ w)).map (merge better threads size s a)).Perm
      ((List.range (2 ^ w)).map a) := by
  induction s generalizing a with
  | zero => exact List.Perm.refl _
  | succ s ih =>
    exact (ih _ (by omega)).trans
      (pass_perm a size (Nat.pow_lt_pow_right (by decide) hs) hthreads)

variable (better) in
/-- The network loses nothing and duplicates nothing. -/
theorem network_perm {w m : Nat} (a : Nat → α) (hm : m ≤ w) (hthreads : ∀ i ∈ threads, i < 2 ^ w) :
    ((List.range (2 ^ w)).map (network better threads m a)).Perm
      ((List.range (2 ^ w)).map a) := by
  induction m with
  | zero => exact List.Perm.refl _
  | succ m ih => exact (merge_perm _ _ hm hthreads).trans (ih (by omega))

end Permutations

end Ninfer.Bitonic
