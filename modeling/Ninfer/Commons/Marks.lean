import Mathlib

/-!
# Marks in a text

A mark takes a fixed number of items, and no other mark starts inside it. The marks of a text are
then read from left to right, and each may be replaced by another text.

## Main definitions

* `Marking`: which mark starts at the front of a text
* `Marking.marks`: the marks of a text
* `Marking.substitute`: the text with its marks replaced, one after the other

## Main results

* `Marking.exists_of_marks_cons`: the first mark of a text, and what is behind it
* `Marking.marks_append_mark`, `Marking.substitute_append_mark`: a text with a mark in it
* `Marking.substitute_of_free`: a text without marks
* `Marking.substitute_append`: a text cut outside its marks
-/

namespace Ninfer

variable {α μ : Type}

/-- Marks of one width, by what is at the front of a text. -/
structure Marking (α μ : Type) where
  mark : List α → Option μ
  width : Nat
  positive : 0 < width
  length_le : ∀ {s m}, mark s = some m → width ≤ s.length
  append : ∀ {s} (t), width ≤ s.length → mark (s ++ t) = mark s
  apart : ∀ {s m} (j), mark s = some m → 0 < j → j < width → mark (s.drop j) = none

namespace Marking

variable (M : Marking α μ)

/-- The marks of a text, from left to right. -/
def marks : List α → List μ
  | [] => []
  | a :: s => (M.mark (a :: s)).toList ++ marks s

/-- The text with its marks replaced by the given texts, one after the other, of which the first
`skip` items have been replaced already. -/
def substituteFrom : Nat → List (List α) → List α → List α
  | _, _, [] => []
  | skip + 1, texts, _ :: s => substituteFrom skip texts s
  | 0, texts, a :: s =>
    match M.mark (a :: s), texts with
    | some _, text :: texts => text ++ substituteFrom (M.width - 1) texts s
    | _, _ => a :: substituteFrom 0 texts s

/-- The text with its marks replaced by the given texts, one after the other. -/
def substitute (texts : List (List α)) (s : List α) : List α := M.substituteFrom 0 texts s

/-- A place inside a mark. -/
def Inside (s : List α) (offset : Nat) : Prop :=
  ∃ i m, M.mark (s.drop i) = some m ∧ i < offset ∧ offset < i + M.width

/-- No mark starts in the first `n` items of a text. -/
def Free (n : Nat) (s : List α) : Prop := ∀ j < n, M.mark (s.drop j) = none

variable {M} {s word : List α} {m : μ} {ms : List μ}

theorem mark_nil : M.mark [] = none := by
  cases h : M.mark [] with
  | none => rfl
  | some m => exact absurd (M.length_le h) (Nat.not_le.mpr M.positive)

theorem Free.zero (s : List α) : M.Free 0 s := fun _ hj => absurd hj (Nat.not_lt_zero _)

theorem Free.tail {n : Nat} {a : α} (h : M.Free (n + 1) (a :: s)) : M.Free n s :=
  fun j hj => h (j + 1) (Nat.succ_lt_succ hj)

theorem Free.cons {n : Nat} {a : α} (ha : M.mark (a :: s) = none) (h : M.Free n s) :
    M.Free (n + 1) (a :: s) := by
  intro j hj
  cases j with
  | zero => exact ha
  | succ j => exact h j (Nat.lt_of_succ_lt_succ hj)

/-! ## The marks of a text -/

theorem marks_cons_of_none {a : α} (h : M.mark (a :: s) = none) :
    M.marks (a :: s) = M.marks s := by
  rw [marks, h, Option.toList_none, List.nil_append]

theorem marks_cons_of_some {a : α} (h : M.mark (a :: s) = some m) :
    M.marks (a :: s) = m :: M.marks s := by
  rw [marks, h, Option.toList_some, List.singleton_append]

/-- What no mark starts in may be left out. -/
theorem marks_of_free {n : Nat} (h : M.Free n s) : M.marks s = M.marks (s.drop n) := by
  induction n generalizing s with
  | zero => rfl
  | succ n ih =>
    cases s with
    | nil => rfl
    | cons a s => rw [marks_cons_of_none (h 0 (Nat.succ_pos n)), ih h.tail, List.drop_succ_cons]

theorem marks_eq_nil_iff : M.marks s = [] ↔ ∀ n, M.Free n s := by
  constructor
  · intro h n j hj
    clear hj
    induction s generalizing j with
    | nil => rw [List.drop_nil, mark_nil]
    | cons a s ih =>
      rw [marks, List.append_eq_nil_iff, Option.toList_eq_nil_iff] at h
      cases j with
      | zero => exact h.1
      | succ j => exact ih h.2 j
  · intro h
    rw [marks_of_free (h s.length), List.drop_length]
    rfl

/-- **A mark in a text.** -/
theorem marks_append_mark {before rest : List α} (hfree : M.Free before.length (before ++ (word ++ rest)))
    (hmark : M.mark (word ++ rest) = some m) (hwidth : word.length = M.width) :
    M.marks (before ++ (word ++ rest)) = m :: M.marks rest := by
  rw [marks_of_free hfree, List.drop_left]
  cases word with
  | nil => exact absurd hwidth (Nat.ne_of_lt M.positive)
  | cons a word =>
    rw [List.cons_append] at hmark ⊢
    rw [marks_cons_of_some hmark]
    have hinside : M.Free word.length (word ++ rest) := fun j hj => by
      rw [List.length_cons] at hwidth
      exact M.apart (j + 1) hmark (Nat.succ_pos j) (by omega)
    rw [marks_of_free hinside, List.drop_left]

/-- **The first mark of a text**, and what is behind it. -/
theorem exists_of_marks_cons (h : M.marks s = m :: ms) : ∃ before word rest,
    s = before ++ (word ++ rest) ∧ M.Free before.length s ∧ word.length = M.width ∧
      M.mark (word ++ rest) = some m ∧ M.marks rest = ms := by
  induction s with
  | nil => exact nomatch h
  | cons a s ih =>
    cases hmark : M.mark (a :: s) with
    | none =>
      rw [marks_cons_of_none hmark] at h
      obtain ⟨before, word, rest, hs, hfree, hwidth, hfirst, hrest⟩ := ih h
      exact ⟨a :: before, word, rest, by rw [hs, List.cons_append], hfree.cons hmark, hwidth, hfirst,
        hrest⟩
    | some m' =>
      have hlen := M.length_le hmark
      have hsplit := List.take_append_drop M.width (a :: s)
      have hwidth : ((a :: s).take M.width).length = M.width := by
        rw [List.length_take, Nat.min_eq_left hlen]
      have hmark' := hmark
      rw [← hsplit] at hmark'
      have hall := @marks_append_mark _ _ M _ _ [] _ (Free.zero _) hmark' hwidth
      rw [List.nil_append, hsplit, h] at hall
      obtain ⟨hm, hms⟩ := List.cons.inj hall
      exact ⟨[], (a :: s).take M.width, (a :: s).drop M.width, hsplit.symm, Free.zero _, hwidth,
        hm ▸ hmark', hms.symm⟩

/-! ## Replacing marks -/

theorem substituteFrom_drop (skip : Nat) (texts : List (List α)) (s : List α) :
    M.substituteFrom skip texts s = M.substitute texts (s.drop skip) := by
  induction s generalizing skip with
  | nil =>
    rw [List.drop_nil]
    cases skip <;> rfl
  | cons a s ih =>
    cases skip with
    | zero => rfl
    | succ skip => rw [substituteFrom, ih, List.drop_succ_cons]

theorem substitute_cons_of_none (texts : List (List α)) {a : α} (h : M.mark (a :: s) = none) :
    M.substitute texts (a :: s) = a :: M.substitute texts s := by
  unfold substitute
  conv_lhs => unfold substituteFrom
  rw [h]

theorem substitute_cons_of_some (text : List α) (texts : List (List α)) {a : α}
    (h : M.mark (a :: s) = some m) :
    M.substitute (text :: texts) (a :: s) =
      text ++ M.substitute texts ((a :: s).drop M.width) := by
  obtain ⟨k, hk⟩ := Nat.exists_eq_succ_of_ne_zero (Nat.ne_of_gt M.positive)
  unfold substitute
  conv_lhs => unfold substituteFrom
  rw [h]
  dsimp only
  rw [substituteFrom_drop, hk]
  rfl

/-- What no mark starts in is kept. -/
theorem substitute_of_free (texts : List (List α)) {n : Nat} (h : M.Free n s) :
    M.substitute texts s = s.take n ++ M.substitute texts (s.drop n) := by
  induction n generalizing s with
  | zero => rfl
  | succ n ih =>
    cases s with
    | nil => rfl
    | cons a s =>
      rw [substitute_cons_of_none texts (h 0 (Nat.succ_pos n)), ih h.tail, List.drop_succ_cons,
        List.take_succ_cons, List.cons_append]

/-- **A mark is replaced** by the first of the texts. -/
theorem substitute_append_mark {before rest : List α} (text : List α) (texts : List (List α))
    (hfree : M.Free before.length (before ++ (word ++ rest)))
    (hmark : M.mark (word ++ rest) = some m) (hwidth : word.length = M.width) :
    M.substitute (text :: texts) (before ++ (word ++ rest)) =
      before ++ (text ++ M.substitute texts rest) := by
  rw [substitute_of_free _ hfree, List.take_left, List.drop_left]
  cases word with
  | nil => exact absurd hwidth (Nat.ne_of_lt M.positive)
  | cons a word =>
    have hdrop : (a :: word ++ rest).drop M.width = rest := by rw [← hwidth, List.drop_left]
    rw [List.cons_append] at hmark hdrop ⊢
    rw [substitute_cons_of_some text texts hmark, hdrop]

theorem substitute_of_marks_nil (texts : List (List α)) (h : M.marks s = []) :
    M.substitute texts s = s := by
  rw [substitute_of_free texts (marks_eq_nil_iff.mp h s.length), List.take_length, List.drop_length]
  exact List.append_nil s

/-- The start of a text is free of marks where the text is. -/
theorem Free.take {n : Nat} (h : M.Free n s) (k : Nat) : M.Free n (s.take k) := by
  intro j hj
  have hnone := h j hj
  rw [List.drop_take]
  cases hmark : M.mark ((s.drop j).take (k - j)) with
  | none => rfl
  | some m =>
    have happend := M.append ((s.drop j).drop (k - j)) (M.length_le hmark)
    rw [List.take_append_drop, hnone, hmark] at happend
    exact nomatch happend

/-! ## A text cut outside its marks -/

theorem marks_cons_of_mark {a : α} (h : M.mark (a :: s) = some m) :
    M.marks (a :: s) = m :: M.marks ((a :: s).drop M.width) := by
  have hlen := M.length_le h
  have hsplit := List.take_append_drop M.width (a :: s)
  have hall := @marks_append_mark _ _ M ((a :: s).take M.width) m [] ((a :: s).drop M.width)
    (Free.zero _) (by rw [hsplit]; exact h) (by rw [List.length_take, Nat.min_eq_left hlen])
  rwa [List.nil_append, hsplit] at hall

theorem substitute_nil (s : List α) : M.substitute [] s = s := by
  induction s with
  | nil => rfl
  | cons a s ih =>
    unfold substitute at ih ⊢
    conv_lhs => unfold substituteFrom
    cases M.mark (a :: s) with
    | none => exact congrArg (a :: ·) ih
    | some m => exact congrArg (a :: ·) ih

theorem not_inside_drop {k : Nat} {offset : Nat} (h : ¬M.Inside s (k + offset)) :
    ¬M.Inside (s.drop k) offset := by
  rintro ⟨i, m, hmark, hlt, hgt⟩
  refine h ⟨k + i, m, ?_, by omega, by omega⟩
  rw [← List.drop_drop]
  exact hmark

/-- **A text cut outside its marks** is replaced in both parts. -/
theorem substitute_append {x : List α} (texts : List (List α)) (h : ¬M.Inside (s ++ x) s.length) :
    M.substitute texts (s ++ x) =
      M.substitute texts s ++ M.substitute (texts.drop (M.marks s).length) x := by
  induction hn : s.length using Nat.strong_induction_on generalizing s texts with
  | _ n ih =>
    cases s with
    | nil => rfl
    | cons a s =>
      cases hmark : M.mark (a :: (s ++ x)) with
      | none =>
        have hmark' : M.mark (a :: s) = none := by
          cases hs : M.mark (a :: s) with
          | none => rfl
          | some m =>
            have happend := M.append x (M.length_le hs)
            rw [List.cons_append, hmark, hs] at happend
            exact nomatch happend
        have htail : ¬M.Inside (s ++ x) s.length :=
          not_inside_drop (s := a :: (s ++ x)) (k := 1) (by rwa [Nat.add_comm])
        rw [List.cons_append, substitute_cons_of_none texts hmark, substitute_cons_of_none texts hmark',
          marks_cons_of_none hmark', List.cons_append,
          ih s.length (by rw [← hn]; exact Nat.lt_succ_self _) texts htail rfl]
      | some m =>
        -- The mark ends in the first part.
        have hfits : M.width ≤ (a :: s).length := by
          by_contra hlt
          exact h ⟨0, m, hmark, Nat.succ_pos _, by omega⟩
        have hmark' : M.mark (a :: s) = some m := by
          rw [← M.append x hfits]
          exact hmark
        cases texts with
        | nil => rw [List.drop_nil, substitute_nil, substitute_nil, substitute_nil]
        | cons text texts =>
          have hdrop : (a :: (s ++ x)).drop M.width = (a :: s).drop M.width ++ x :=
            List.drop_append_of_le_length (show M.width ≤ (a :: s).length from hfits)
          have hlen : ((a :: s).drop M.width).length < n := by
            have := M.positive
            rw [List.length_drop, ← hn, List.length_cons]
            omega
          have htail : ¬M.Inside ((a :: s).drop M.width ++ x) ((a :: s).drop M.width).length := by
            rw [← hdrop]
            refine not_inside_drop (s := a :: (s ++ x)) ?_
            rw [List.length_drop, Nat.add_sub_cancel' hfits]
            exact h
          rw [List.cons_append, substitute_cons_of_some text texts hmark,
            substitute_cons_of_some text texts hmark', hdrop, ih _ hlen texts htail rfl,
            marks_cons_of_mark hmark', List.length_cons, List.drop_succ_cons, List.append_assoc]

end Marking

end Ninfer
