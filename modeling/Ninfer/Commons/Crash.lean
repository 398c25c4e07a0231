import Mathlib

/-!
# Programs that write step by step and may be stopped

A program reads a storage, performs a sequence of writes on it and returns or throws. It may be
stopped before any of its writes; what has been written by then stays. The rules below prove of a
program what holds of the storage before each of its writes and at its end, which is all a program
that is stopped can leave behind.

## Main definitions

* `Storage`: what a write does
* `Program`: the writes of a program and how it ends, by the storage it starts on
* `Program.stopped`, `Program.final`: the storage after some of the writes and after all of them
* `Program.Ensures`: what holds before each write, on return and on throw

## Main results

* `Program.ensures_bind`, `Program.ensures_handle`, `Program.ensures_write`: the rules
* `Program.Ensures.stopped`: what a stopped program leaves behind
-/

namespace Ninfer.Crash

/-- What a write of type `ω` does to a storage of type `σ`. -/
class Storage (ω σ : Type) where
  /-- The storage after a write. -/
  apply : ω → σ → σ

variable {ω σ ε α β : Type} [Storage ω σ]

/-- The storage after a sequence of writes. -/
def applyAll (ws : List ω) (s : σ) : σ := ws.foldl (fun s w => Storage.apply w s) s

theorem applyAll_append (ws ws' : List ω) (s : σ) :
    applyAll (ws ++ ws') s = applyAll ws' (applyAll ws s) := List.foldl_append

/-- A program: its writes, and the value it returns or the exception it throws. -/
def Program (ω σ ε α : Type) : Type := σ → List ω × Except ε α

namespace Program

/-- A program that performs the given writes. -/
def write (ws : List ω) : Program ω σ ε Unit := fun _ => (ws, .ok ())

/-- A program that reads the storage and writes nothing. -/
def read (f : σ → Except ε α) : Program ω σ ε α := fun s => ([], f s)

/-- One program after another. -/
def andThen (m : Program ω σ ε α) (f : α → Program ω σ ε β) : Program ω σ ε β := fun s =>
  match m s with
  | (ws, .ok a) => (ws ++ (f a (applyAll ws s)).1, (f a (applyAll ws s)).2)
  | (ws, .error e) => (ws, .error e)

instance : Monad (Program ω σ ε) where
  pure a := fun _ => ([], .ok a)
  bind := andThen

/-- A program with a handler for what it throws. -/
def handle (m : Program ω σ ε α) (g : ε → Program ω σ ε α) : Program ω σ ε α := fun s =>
  match m s with
  | (ws, .ok a) => (ws, .ok a)
  | (ws, .error e) => (ws ++ (g e (applyAll ws s)).1, (g e (applyAll ws s)).2)

variable (m : Program ω σ ε α)

/-- The storage a program leaves when it is stopped after `k` writes. -/
def stopped (k : Nat) (s : σ) : σ := applyAll ((m s).1.take k) s

/-- The storage a program leaves when it is not stopped. -/
def final (s : σ) : σ := applyAll (m s).1 s

/-- How a program ends. -/
def result (s : σ) : Except ε α := (m s).2

/-- Every write `w` of the program is made on a storage with `B w`, and the storage at its end has
`Q` if it returns and `E` if it throws. -/
def Ensures (s : σ) (B : ω → σ → Prop) (Q : α → σ → Prop) (E : ε → σ → Prop) : Prop :=
  (∀ k w, (m s).1[k]? = some w → B w (m.stopped k s)) ∧
    match m.result s with
    | .ok a => Q a (m.final s)
    | .error e => E e (m.final s)

variable {m} {s : σ} {B : ω → σ → Prop} {Q : α → σ → Prop} {R : β → σ → Prop} {E : ε → σ → Prop}

/-- A stopped program leaves the storage before one of its writes, or the one at its end. -/
theorem Ensures.stopped {P : σ → Prop} (h : m.Ensures s B Q E) (hB : ∀ w s', B w s' → P s')
    (hQ : ∀ a s', Q a s' → P s') (hE : ∀ e s', E e s' → P s') (k : Nat) :
    P (m.stopped k s) := by
  obtain ⟨hbefore, hend⟩ := h
  cases hw : (m s).1[k]? with
  | some w => exact hB w _ (hbefore k w hw)
  | none =>
    have hfinal : m.stopped k s = m.final s := by
      unfold Program.stopped Program.final
      rw [List.take_of_length_le (List.getElem?_eq_none_iff.mp hw)]
    rw [hfinal]
    cases hr : m.result s with
    | ok a =>
      rw [hr] at hend
      exact hQ a _ hend
    | error e =>
      rw [hr] at hend
      exact hE e _ hend

theorem Ensures.imp {B' : ω → σ → Prop} {Q' : α → σ → Prop} {E' : ε → σ → Prop}
    (h : m.Ensures s B Q E) (hB : ∀ w s', B w s' → B' w s') (hQ : ∀ a s', Q a s' → Q' a s')
    (hE : ∀ e s', E e s' → E' e s') : m.Ensures s B' Q' E' := by
  obtain ⟨hbefore, hend⟩ := h
  refine ⟨fun k w hw => hB w _ (hbefore k w hw), ?_⟩
  cases hr : m.result s with
  | ok a =>
    rw [hr] at hend
    exact hQ a _ hend
  | error e =>
    rw [hr] at hend
    exact hE e _ hend

theorem ensures_pure {a : α} (h : Q a s) : (pure a : Program ω σ ε α).Ensures s B Q E := by
  refine ⟨?_, h⟩
  intro k w hw
  cases hw

theorem ensures_read {f : σ → Except ε α} (hQ : ∀ a, f s = .ok a → Q a s)
    (hE : ∀ e, f s = .error e → E e s) : (read f : Program ω σ ε α).Ensures s B Q E := by
  refine ⟨?_, ?_⟩
  · intro k w hw
    cases hw
  · show match f s with
      | .ok a => Q a s
      | .error e => E e s
    cases hf : f s with
    | ok a => exact hQ a hf
    | error e => exact hE e hf

theorem ensures_write {ws : List ω} {Q : Unit → σ → Prop}
    (hB : ∀ k w, ws[k]? = some w → B w (applyAll (ws.take k) s)) (hQ : Q () (applyAll ws s)) :
    (write ws : Program ω σ ε Unit).Ensures s B Q E :=
  ⟨hB, hQ⟩

/-- The writes of two programs, one after the other. -/
theorem before_append {ws ws' : List ω} (h : ∀ k w, ws[k]? = some w → B w (applyAll (ws.take k) s))
    (h' : ∀ k w, ws'[k]? = some w → B w (applyAll (ws'.take k) (applyAll ws s))) :
    ∀ k w, (ws ++ ws')[k]? = some w → B w (applyAll ((ws ++ ws').take k) s) := by
  intro k w hw
  by_cases hk : k < ws.length
  · rw [List.getElem?_append_left hk] at hw
    rw [List.take_append_of_le_length (Nat.le_of_lt hk)]
    exact h k w hw
  · have hle : ws.length ≤ k := Nat.le_of_not_lt hk
    rw [List.getElem?_append_right hle] at hw
    obtain ⟨i, rfl⟩ := Nat.exists_eq_add_of_le hle
    rw [Nat.add_sub_cancel_left] at hw
    rw [List.take_length_add_append, applyAll_append]
    exact h' i w hw

theorem ensures_bind {f : α → Program ω σ ε β}
    (h : m.Ensures s B (fun a s' => (f a).Ensures s' B R E) E) : Ensures (m >>= f) s B R E := by
  obtain ⟨hbefore, hend⟩ := h
  unfold Program.stopped at hbefore
  unfold result Program.final at hend
  have hbind : (m >>= f) s = andThen m f s := rfl
  cases hm : m s with
  | mk ws r =>
    rw [hm] at hbefore hend
    cases r with
    | ok a =>
      obtain ⟨hbefore', hend'⟩ := hend
      have hrun : (m >>= f) s =
          (ws ++ (f a (applyAll ws s)).1, (f a (applyAll ws s)).2) := by
        rw [hbind]
        unfold andThen
        rw [hm]
      refine ⟨?_, ?_⟩
      · unfold Program.stopped
        rw [hrun]
        exact before_append hbefore hbefore'
      · unfold result Program.final
        rw [hrun, applyAll_append]
        exact hend'
    | error e =>
      have hrun : (m >>= f) s = (ws, .error e) := by
        rw [hbind]
        unfold andThen
        rw [hm]
      refine ⟨?_, ?_⟩
      · unfold Program.stopped
        rw [hrun]
        exact hbefore
      · unfold result Program.final
        rw [hrun]
        exact hend

theorem ensures_handle {g : ε → Program ω σ ε α}
    (h : m.Ensures s B Q fun e s' => (g e).Ensures s' B Q E) : (m.handle g).Ensures s B Q E := by
  obtain ⟨hbefore, hend⟩ := h
  unfold Program.stopped at hbefore
  unfold result Program.final at hend
  cases hm : m s with
  | mk ws r =>
    rw [hm] at hbefore hend
    cases r with
    | ok a =>
      have hrun : m.handle g s = (ws, .ok a) := by
        unfold handle
        rw [hm]
      refine ⟨?_, ?_⟩
      · unfold Program.stopped
        rw [hrun]
        exact hbefore
      · unfold result Program.final
        rw [hrun]
        exact hend
    | error e =>
      obtain ⟨hbefore', hend'⟩ := hend
      have hrun : m.handle g s = (ws ++ (g e (applyAll ws s)).1, (g e (applyAll ws s)).2) := by
        unfold handle
        rw [hm]
      refine ⟨?_, ?_⟩
      · unfold Program.stopped
        rw [hrun]
        exact before_append hbefore hbefore'
      · unfold result Program.final
        rw [hrun, applyAll_append]
        exact hend'

end Program

end Ninfer.Crash
