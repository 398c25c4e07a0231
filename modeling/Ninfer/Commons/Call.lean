import Ninfer.Commons.Check

/-!
# Calls that may throw

A call runs in a state and either returns a value or throws a standard exception; the state it
leaves behind is kept in both cases, so that a call that throws half way is not confused with one
that never ran.

## Main definitions

* `Exception`: the standard exceptions, with the text of `what()`
* `Call σ α`: calls in the state `σ` returning `α`
* `Call.final`: the state a call leaves, returned or thrown
* `Call.Ensures`: what holds after a call, on return and on throw
* `check`: throws unless a condition holds

## Main results

* `Call.ensures_bind`, `Call.ensures_handle`: the rules for sequencing and for handlers
* `check_bind_eq_ok`: what a check that passed says
-/

namespace Ninfer

/-- A standard exception and the text it carries. -/
inductive Exception
  | badAlloc
  | invalidArgument (what : String)
  | logicError (what : String)
  | outOfRange (what : String)
  | overflowError (what : String)
  | runtimeError (what : String)
  deriving DecidableEq, Repr

/-- A call in the state `σ`: the value or the exception, with the state left behind. -/
abbrev Call (σ α : Type) := EStateM Exception σ α

section Check

variable {α : Type}

/-- Throws `e` unless `p` holds. -/
def check (p : Prop) [Decidable p] (e : Exception) : Except Exception Unit :=
  if p then .ok () else .error e

variable {p : Prop} [Decidable p] {e : Exception} {f : Unit → Except Exception α} {a : α}

theorem check_bind_eq_ok : (check p e >>= f) = .ok a ↔ p ∧ f () = .ok a := ensure_bind_eq_ok

theorem check_of (h : p) : check p e = .ok () := if_pos h

end Check

namespace Call

variable {σ α β : Type}

/-- The state a call leaves, whether it returned or threw. -/
def final (c : Call σ α) (s : σ) : σ :=
  match c s with
  | .ok _ s' => s'
  | .error _ s' => s'

/-- After the call from `s`, `Q` holds of the value and the state if it returned, and `E` of the
exception and the state if it threw. -/
def Ensures (c : Call σ α) (s : σ) (Q : α → σ → Prop) (E : Exception → σ → Prop) : Prop :=
  match c s with
  | .ok a s' => Q a s'
  | .error e s' => E e s'

variable {c : Call σ α} {f : α → Call σ β} {s : σ} {Q : α → σ → Prop} {R : β → σ → Prop}
  {E : Exception → σ → Prop}

theorem ensures_bind (h : c.Ensures s (fun a s' => (f a).Ensures s' R E) E) :
    Ensures (c >>= f) s R E := by
  unfold Ensures at h ⊢
  simp only [bind, EStateM.bind]
  cases hc : c s <;> simp only [hc] at h ⊢ <;> exact h

theorem Ensures.imp {Q' : α → σ → Prop} {E' : Exception → σ → Prop} (h : c.Ensures s Q E)
    (hQ : ∀ a s', Q a s' → Q' a s') (hE : ∀ e s', E e s' → E' e s') : c.Ensures s Q' E' := by
  unfold Ensures at h ⊢
  cases hc : c s with
  | ok a s' => simp only [hc] at h ⊢; exact hQ _ _ h
  | error e s' => simp only [hc] at h ⊢; exact hE _ _ h

/-- What holds on return and on throw holds of the state left behind. -/
theorem Ensures.final {P : σ → Prop} (h : c.Ensures s (fun _ => P) fun _ => P) :
    P (c.final s) := by
  unfold Ensures Call.final at *
  cases hc : c s <;> simp only [hc] at h ⊢ <;> exact h

theorem bind_of_ok {a : α} {s' : σ} (hc : c s = .ok a s') : (c >>= f) s = f a s' := by
  simp only [bind, EStateM.bind, hc]

theorem bind_of_error {e : Exception} {s' : σ} (hc : c s = .error e s') :
    (c >>= f) s = .error e s' := by
  simp only [bind, EStateM.bind, hc]

theorem exists_of_bind_ok {b : β} {s' : σ} (h : (c >>= f) s = .ok b s') :
    ∃ a t, c s = .ok a t ∧ f a t = .ok b s' := by
  cases hc : c s with
  | ok a t =>
    rw [bind_of_ok hc] at h
    exact ⟨a, t, rfl, h⟩
  | error e t =>
    rw [bind_of_error hc] at h
    cases h

/-- The result of a check in a call. -/
def ofExcept (x : Except Exception α) : Call σ α := fun s =>
  match x with
  | .ok a => .ok a s
  | .error e => .error e s

theorem ofExcept_of_ok {x : Except Exception α} {a : α} (hx : x = .ok a) (s : σ) :
    ofExcept x s = .ok a s := by
  rw [hx]
  rfl

theorem bind_ofExcept_eq_ok {x : Except Exception α} {b : β} {s' : σ}
    (h : (ofExcept x >>= f) s = .ok b s') : ∃ a, x = .ok a ∧ f a s = .ok b s' := by
  cases x with
  | error e => cases h
  | ok a => exact ⟨a, rfl, h⟩

/-- A check that throws leaves the state as it was. -/
theorem bind_ofExcept_eq_error {x : Except Exception α} {e : Exception} {s' : σ}
    (h : (ofExcept x >>= f) s = .error e s') :
    (x = .error e ∧ s' = s) ∨ ∃ a, x = .ok a ∧ f a s = .error e s' := by
  cases x with
  | error e' =>
    cases h
    exact Or.inl ⟨rfl, rfl⟩
  | ok a => exact Or.inr ⟨a, rfl, h⟩

theorem ensures_of_ok {a : α} {s' : σ} (hc : c s = .ok a s') (h : Q a s') : c.Ensures s Q E := by
  simpa only [Ensures, hc] using h

/-- The handler of a call that throws runs in the state the throw left. -/
def handle (c : Call σ α) (g : Exception → Call σ α) : Call σ α := fun s =>
  match c s with
  | .ok a s' => .ok a s'
  | .error e s' => g e s'

theorem ensures_handle {g : Exception → Call σ α}
    (h : c.Ensures s Q fun e s' => (g e).Ensures s' Q E) : (c.handle g).Ensures s Q E := by
  unfold Ensures handle at *
  cases hc : c s <;> simp only [hc] at h ⊢ <;> exact h

end Call

end Ninfer
