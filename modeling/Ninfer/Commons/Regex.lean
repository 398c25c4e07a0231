import Mathlib

/-!
# Backtracking regular expressions

A backtracking matcher tries the ways to match in an order: the left alternative first, and one more
round of a repetition before none. The list of what is left of the text behind each way to match, in
that order, gives every construct its meaning; the match is the first of them.

## Main definitions

* `Regex α`: regular expressions over items, with repetition and a negative lookahead
* `Regex.run`: what is left behind each way to match, in the order of preference
* `Regex.first`: what is left behind the match
* `Regex.matchAll`: the successive leftmost matches in a text

## Main results

* `first_alt`: the first alternative that matches
* `first_star_one`, `first_plus_one_cons`: a repetition of a class takes as much as it can
* `first_many_cons`: behind a repetition, what was taken last is given back first
-/

namespace Ninfer

/-- Regular expressions over items. -/
inductive Regex (α : Type)
  | empty
  | one (p : α → Bool)
  | seq (r q : Regex α)
  | alt (r q : Regex α)
  | star (r : Regex α)
  | notAhead (r : Regex α)

namespace Regex

variable {α : Type}

/-- Rounds of a repetition, each of which takes something. -/
def rounds (step : List α → List (List α)) : Nat → List α → List (List α)
  | 0, s => [s]
  | n + 1, s => ((step s).filter fun t => t.length < s.length).flatMap (rounds step n) ++ [s]

/-- What is left behind each way to match at the start of a text, in the order of preference. -/
def run : Regex α → List α → List (List α)
  | empty, s => [s]
  | one _, [] => []
  | one p, a :: s => if p a then [s] else []
  | seq r q, s => (run r s).flatMap (run q)
  | alt r q, s => run r s ++ run q s
  | star r, s => rounds (run r) s.length s
  | notAhead r, s => if (run r s).isEmpty then [s] else []

/-- What is left behind the match at the start of a text. -/
def first (r : Regex α) (s : List α) : Option (List α) := (run r s).head?

/-- At most one. -/
def opt (r : Regex α) : Regex α := alt r empty

/-- At least one. -/
def plus (r : Regex α) : Regex α := seq r (star r)

/-- The alternatives of a list. -/
def alts : List (Regex α) → Regex α
  | [] => notAhead empty
  | r :: rs => alt r (alts rs)

/-- The expressions of a list, one behind the other. -/
def seqs : List (Regex α) → Regex α
  | [] => empty
  | r :: rs => seq r (seqs rs)

/-- The successive leftmost matches, with a bound on their number and that of the items between
them. -/
def matchAllFrom (r : Regex α) : Nat → List α → List (List α)
  | 0, _ => []
  | _, [] => []
  | n + 1, a :: s =>
    match first r (a :: s) with
    | some rest =>
      (a :: s).take ((a :: s).length - rest.length) ::
        matchAllFrom r n (if rest.length < (a :: s).length then rest else s)
    | none => matchAllFrom r n s

/-- The successive leftmost matches in a text. -/
def matchAll (r : Regex α) (s : List α) : List (List α) := matchAllFrom r s.length s

/-! ## The ways of an expression -/

variable {p : α → Bool} {r q : Regex α} {a : α} {s : List α}

theorem run_empty : run (empty : Regex α) s = [s] := rfl

theorem run_one_cons : run (one p) (a :: s) = if p a then [s] else [] := rfl

theorem run_seq : run (seq r q) s = (run r s).flatMap (run q) := rfl

theorem run_alt : run (alt r q) s = run r s ++ run q s := rfl

theorem run_star : run (star r) s = rounds (run r) s.length s := rfl

theorem run_notAhead : run (notAhead r) s = if (run r s).isEmpty then [s] else [] := rfl

theorem rounds_succ (step : List α → List (List α)) (n : Nat) (s : List α) :
    rounds step (n + 1) s =
      ((step s).filter fun t => t.length < s.length).flatMap (rounds step n) ++ [s] := rfl

/-! ## The first way -/

theorem first_alt : first (alt r q) s = (first r s).or (first q s) := List.head?_append

theorem first_one_cons : first (one p) (a :: s) = if p a then some s else none := by
  unfold first
  rw [run_one_cons]
  split_ifs <;> rfl

theorem first_seq_one_cons :
    first (seq (one p) q) (a :: s) = if p a then first q s else none := by
  unfold first
  rw [run_seq, run_one_cons]
  split_ifs
  · rw [List.flatMap_singleton]
  · rfl

/-- A choice of an item is tried with it before it is tried without. -/
theorem first_seq_opt_cons : first (seq (opt (one p)) q) (a :: s) =
    (if p a then first q s else none).or (first q (a :: s)) := by
  unfold first opt
  rw [run_seq, run_alt, run_one_cons, run_empty]
  split_ifs
  · rw [List.singleton_append, List.flatMap_cons, List.flatMap_singleton, List.head?_append]
  · rw [List.nil_append, List.flatMap_singleton]
    rfl

/-- What is left behind the first part may be matched at once. -/
theorem first_seq_of_first {t w : List α} (hr : first r s = some t) (hq : first q t = some w) :
    first (seq r q) s = some w := by
  unfold first at hr hq ⊢
  obtain ⟨rest, hrest⟩ := List.head?_eq_some_iff.mp hr
  rw [run_seq, hrest, List.flatMap_cons, List.head?_append, hq]
  rfl

theorem first_seq_of_none (hr : first r s = none) : first (seq r q) s = none := by
  unfold first at hr ⊢
  rw [run_seq, List.head?_eq_none_iff.mp hr]
  rfl

theorem first_seq_assoc {o : Regex α} : first (seq (seq r q) o) s = first (seq r (seq q o)) s := by
  unfold first
  rw [run_seq, run_seq, run_seq, List.flatMap_assoc]
  rfl

theorem first_alts (rs : List (Regex α)) (s : List α) :
    first (alts rs) s = rs.findSome? fun r => first r s := by
  induction rs with
  | nil => rfl
  | cons r rs ih =>
    rw [alts, first_alt, ih, List.findSome?_cons]
    cases first r s <;> rfl

theorem first_notAhead_one_cons :
    first (notAhead (one p)) (a :: s) = if p a then none else some (a :: s) := by
  unfold first
  rw [run_notAhead, run_one_cons]
  by_cases h : p a <;> simp [h]

/-! ## Repetitions of a class -/

theorem run_star_one_of_pos (h : p a) : run (star (one p)) (a :: s) =
    run (star (one p)) s ++ [a :: s] := by
  rw [run_star, List.length_cons, rounds_succ, run_one_cons, if_pos h,
    List.filter_cons_of_pos (by simp), List.filter_nil, List.flatMap_singleton, run_star]

theorem run_star_one_of_neg (h : ¬p a) : run (star (one p)) (a :: s) = [a :: s] := by
  rw [run_star, List.length_cons, rounds_succ, run_one_cons, if_neg h]
  rfl

/-- **A repetition of a class takes as much as it can.** -/
theorem first_star_one : first (star (one p)) s = some (s.dropWhile p) := by
  unfold first
  induction s with
  | nil => rfl
  | cons a s ih =>
    by_cases h : p a
    · rw [run_star_one_of_pos h, List.head?_append, ih, List.dropWhile_cons_of_pos h]
      rfl
    · rw [run_star_one_of_neg h, List.dropWhile_cons_of_neg h]
      rfl

theorem first_plus_one_cons :
    first (plus (one p)) (a :: s) = if p a then some (s.dropWhile p) else none := by
  rw [plus, first_seq_one_cons, first_star_one]

theorem first_plus_one_nil : first (plus (one p)) [] = none := rfl

/-- **What was taken last is given back first.** -/
theorem first_many_cons (h : p a) : first (seq (star (one p)) q) (a :: s) =
    (first (seq (star (one p)) q) s).or (first q (a :: s)) := by
  unfold first
  rw [run_seq, run_star_one_of_pos h, List.flatMap_append, List.flatMap_singleton,
    List.head?_append, run_seq]

theorem first_many_of_neg (h : ¬p a) :
    first (seq (star (one p)) q) (a :: s) = first q (a :: s) := by
  unfold first
  rw [run_seq, run_star_one_of_neg h, List.flatMap_singleton]

end Regex

end Ninfer
