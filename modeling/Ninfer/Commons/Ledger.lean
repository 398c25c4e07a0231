import Mathlib

/-!
# Shares held in a common stock

Holders `α` each hold an account, and an account carries a share in a commutative monoid. The
outstanding shares are what a stock has given out; the lemmas say how they change when one holder
exchanges its account, and that they do not when an account changes hands.

## Main definitions

* `outstanding share held`: the sum of the shares held

## Main results

* `outstanding_update`: one holder exchanges its account
* `outstanding_move`: an account changes hands
* `share_le_outstanding`: a share is at most what is outstanding
-/

namespace Ninfer

open Finset

variable {α A M : Type} [Fintype α] [AddCommMonoid M]

/-- The shares given out to the holders. -/
def outstanding (share : A → M) (held : α → A) : M := ∑ a, share (held a)

theorem outstanding_eq_zero {share : A → M} {held : α → A} (h : ∀ a, share (held a) = 0) :
    outstanding share held = 0 :=
  Finset.sum_eq_zero fun a _ => h a

variable [DecidableEq α]

/-- What the other holders hold. -/
theorem outstanding_eq_add (share : A → M) (held : α → A) (a : α) :
    outstanding share held = share (held a) + ∑ b ∈ univ.erase a, share (held b) :=
  (Finset.add_sum_erase _ _ (mem_univ a)).symm

/-- **Exchange**: when one holder exchanges its account, the old share comes back and the new one
goes out. -/
theorem outstanding_update (share : A → M) (held : α → A) (a : α) (x : A) :
    outstanding share (Function.update held a x) + share (held a) =
      outstanding share held + share x := by
  have rest : ∑ b ∈ univ.erase a, share (Function.update held a x b) =
      ∑ b ∈ univ.erase a, share (held b) :=
    Finset.sum_congr rfl fun b hb => by rw [Function.update_of_ne (ne_of_mem_erase hb)]
  rw [outstanding_eq_add share (Function.update held a x) a, outstanding_eq_add share held a,
    rest, Function.update_self, add_comm (share x), add_comm (share (held a)), add_right_comm]

/-- Exchanging an account for one of the same share changes nothing. -/
theorem outstanding_update_of_eq {share : A → M} {held : α → A} {a : α} {x : A}
    (h : share x = share (held a)) :
    outstanding share (Function.update held a x) = outstanding share held := by
  refine Finset.sum_congr rfl fun b _ => ?_
  by_cases hb : b = a
  · subst hb; rw [Function.update_self, h]
  · rw [Function.update_of_ne hb]

/-- **Change of hands**: an account moves to a holder without a share, leaving no share. -/
theorem outstanding_move {share : A → M} {held : α → A} {source target : α} {x : A}
    (hne : target ≠ source) (htarget : share (held target) = 0) (hx : share x = 0) :
    outstanding share
        (Function.update (Function.update held target (held source)) source x) =
      outstanding share held := by
  have swapped : ∀ b, share (Function.update (Function.update held target (held source)) source x b)
      = share (held (Equiv.swap target source b)) := by
    intro b
    rcases eq_or_ne b source with rfl | hs
    · rw [Function.update_self, Equiv.swap_apply_right, hx, htarget]
    · rcases eq_or_ne b target with rfl | ht
      · rw [Function.update_of_ne hne, Function.update_self, Equiv.swap_apply_left]
      · rw [Function.update_of_ne hs, Function.update_of_ne ht, Equiv.swap_apply_of_ne_of_ne ht hs]
  unfold outstanding
  rw [Finset.sum_congr rfl fun b _ => swapped b]
  exact Equiv.sum_comp (Equiv.swap target source) fun b => share (held b)

omit [DecidableEq α] in
theorem share_le_outstanding (share : A → ℕ) (held : α → A) (a : α) :
    share (held a) ≤ outstanding share held :=
  Finset.single_le_sum (f := fun a => share (held a)) (fun _ _ => Nat.zero_le _) (mem_univ a)

end Ninfer
