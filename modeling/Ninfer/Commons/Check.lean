import Mathlib

/-!
# Checks that throw

Functions that fail with an error of some type, and the checks they are made of: the rules that
take apart a function that returned.

## Main definitions

* `ensure`: throws unless a condition holds

## Main results

* `ensure_bind_eq_ok`, `bind_eq_ok`: what a sequence that returned says of its parts
* `mapM_eq_ok`: a function that returned on every item of a list
-/

namespace Ninfer

variable {ε α β : Type}

/-- Throws `e` unless `p` holds. -/
def ensure (p : Prop) [Decidable p] (e : ε) : Except ε Unit := if p then .ok () else .error e

section Ensure

variable {p : Prop} [Decidable p] {e : ε} {f : Unit → Except ε α} {a : α}

theorem ensure_bind_eq_ok : (ensure p e >>= f) = .ok a ↔ p ∧ f () = .ok a := by
  unfold ensure
  split_ifs with h
  · exact ⟨fun hf => ⟨h, hf⟩, fun hf => hf.2⟩
  · constructor
    · exact fun hf => nomatch hf
    · exact fun hf => absurd hf.1 h

theorem ensure_bind_of (h : p) : (ensure p e >>= f) = f () := by
  unfold ensure
  rw [if_pos h]
  rfl

theorem ensure_bind_of_not (h : ¬p) : (ensure p e >>= f) = .error e := by
  unfold ensure
  rw [if_neg h]
  rfl

end Ensure

theorem ok_bind {b : β} {f : β → Except ε α} : (Except.ok b >>= f) = f b := rfl

theorem bind_eq_ok {x : Except ε β} {f : β → Except ε α} {a : α} :
    (x >>= f) = .ok a ↔ ∃ b, x = .ok b ∧ f b = .ok a := by
  cases x with
  | error e =>
    constructor
    · exact fun hf => nomatch hf
    · rintro ⟨b, hb, -⟩
      cases hb
  | ok b =>
    constructor
    · exact fun hf => ⟨b, rfl, hf⟩
    · rintro ⟨b', hb, hf⟩
      cases hb
      exact hf

theorem bind_of_eq_ok {x : Except ε β} {b : β} {f : β → Except ε α} {a : α} (hx : x = .ok b)
    (h : f b = .ok a) : (x >>= f) = .ok a :=
  bind_eq_ok.mpr ⟨b, hx, h⟩

/-- A check among the steps of a sequence that returned. -/
theorem exists_ensure {p : Prop} [Decidable p] {e : ε} {q : Unit → Prop} :
    (∃ u, ensure p e = .ok u ∧ q u) ↔ p ∧ q () := by
  unfold ensure
  split_ifs with h
  · constructor
    · rintro ⟨⟨⟩, -, hq⟩
      exact ⟨h, hq⟩
    · rintro ⟨-, hq⟩
      exact ⟨(), rfl, hq⟩
  · constructor
    · rintro ⟨u, hu, -⟩
      cases hu
    · rintro ⟨hp, -⟩
      exact absurd hp h

theorem exists_ok_of_isOk {x : Except ε α} (h : x.isOk = true) : ∃ a, x = .ok a := by
  cases x with
  | ok a => exact ⟨a, rfl⟩
  | error e => cases h

theorem mapM_eq_ok {f : β → Except ε α} {g : β → α} {l : List β}
    (h : ∀ b ∈ l, f b = .ok (g b)) : l.mapM f = .ok (l.map g) := by
  induction l with
  | nil => rfl
  | cons b l ih =>
    rw [List.mapM_cons]
    refine bind_of_eq_ok (h b (List.mem_cons_self ..)) ?_
    exact bind_of_eq_ok (ih fun b' hb' => h b' (List.mem_cons_of_mem _ hb')) rfl

end Ninfer
