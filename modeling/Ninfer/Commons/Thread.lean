import Mathlib

/-!
# One thread among others

A thread is written as a program of atomic actions on a shared state, between which the other
threads of the process may act. Questions are put to an oracle: they stand for calls whose outcome
the program does not control. Its answers are arbitrary, or those of a contract. A program is
reasoned about with its weakest precondition under a rely (what the others may do between two
actions) and a guarantee (what each action of this thread does). What a program does and throws
wherever it stands can be read off it without a precondition.

A machine is a thread that goes through labelled blocks, each of them a program that returns the
label to continue with; it interleaves with its environment step by step.

## Main definitions

* `Prog σ E ε α`: programs on the state `σ` with questions `E`, throwing `ε`, returning `α`
* `Prog.bind`, `Prog.handle`, `Prog.forEach`, `Prog.mapEach`: sequencing, handlers and loops
* `Answers`: the contract of an oracle
* `Prog.WpIn`, `Prog.Wp`: the weakest precondition under a rely and a guarantee, with the answers of
  a contract or with any
* `Prog.Always`: what every action of a program does, and what it throws
* `Ctl`, `MachineStepIn`, `MachineStep`: a machine and its interleaving with the environment
* `StepUntil`: the steps of a run that stops at certain labels

## Main results

* `Prog.wp_bind`, `Prog.wp_handle`, `Prog.wp_forEach`, `Prog.wp_mapEach`: the rules
* `Prog.WpIn.stable`: a precondition survives what the others do
* `Prog.WpIn.frame`: what no thread breaks holds from the start to the end
* `Prog.WpIn.and_always`: what every action does holds from the start to the end
* `machineStep_good`, `machine_good`: block preconditions hold along every interleaving, and every
  action of the machine meets its guarantee
* `machine_goodUntil`: the same from one of certain labels to the next
-/

namespace Ninfer

/-- Programs of one thread: atomic actions `act`, questions `ask`, and the three ways to end. -/
inductive Prog (σ : Type) (E : Type → Type) (ε α : Type) : Type 1
  | ret (a : α)
  | throw (e : ε)
  | abort
  | act {β : Type} (f : σ → β × σ) (k : β → Prog σ E ε α)
  | ask {β : Type} (q : E β) (k : β → Prog σ E ε α)

/-- Which answers an oracle may give to a question in a state. -/
abbrev Answers (σ : Type) (E : Type → Type) : Type 1 := ∀ β : Type, E β → σ → β → Prop

/-- An oracle that may answer anything. -/
def anyAnswer {σ : Type} {E : Type → Type} : Answers σ E := fun _ _ _ _ => True

namespace Answers

variable {σ : Type} {E : Type → Type}

/-- What the others do does not add answers. -/
def Stable (A : Answers σ E) (R : σ → σ → Prop) : Prop :=
  ∀ (β : Type) (q : E β) (s s' : σ) (b : β), R s s' → A _ q s' b → A _ q s b

theorem stable_any (R : σ → σ → Prop) : (anyAnswer : Answers σ E).Stable R := fun _ _ _ _ _ _ h => h

theorem Stable.reflTransGen {A : Answers σ E} {R : σ → σ → Prop} (h : A.Stable R) :
    A.Stable (Relation.ReflTransGen R) := by
  intro β q s s' b hr hb
  induction hr with
  | refl => exact hb
  | tail _ hs ih => exact ih (h _ _ _ _ _ hs hb)

end Answers

namespace Prog

variable {σ ε α β γ : Type} {E : Type → Type}

/-- Sequencing. -/
def bind : Prog σ E ε α → (α → Prog σ E ε β) → Prog σ E ε β
  | ret a, g => g a
  | throw e, _ => throw e
  | abort, _ => abort
  | act f k, g => act f fun b => (k b).bind g
  | ask q k, g => ask q fun b => (k b).bind g

instance : Monad (Prog σ E ε) where
  pure := ret
  bind := bind

/-- `try … catch (...)`. -/
def handle : Prog σ E ε α → (ε → Prog σ E ε α) → Prog σ E ε α
  | ret a, _ => ret a
  | throw e, g => g e
  | abort, _ => abort
  | act f k, g => act f fun b => (k b).handle g
  | ask q k, g => ask q fun b => (k b).handle g

/-- An action on the state that returns nothing. -/
def writeState (f : σ → σ) : Prog σ E ε Unit := act (fun s => ((), f s)) ret

/-- An action that reads the state. -/
def readState (f : σ → α) : Prog σ E ε α := act (fun s => (f s, s)) ret

/-- An action that changes the state and returns a value. -/
def atomically (f : σ → α × σ) : Prog σ E ε α := act f ret

/-- A question. -/
def query (q : E α) : Prog σ E ε α := ask q ret

/-- A question whose answer may be an exception. -/
def attempt (q : E (Except ε α)) : Prog σ E ε α :=
  ask q fun
    | .ok a => ret a
    | .error e => throw e

/-- The outcome of a program, with an exception caught. -/
def catching (p : Prog σ E ε α) : Prog σ E ε (Except ε α) :=
  (p.bind fun a => ret (.ok a)).handle fun e => ret (.error e)

/-- A loop over a list. -/
def forEach : List α → (α → Prog σ E ε Unit) → Prog σ E ε Unit
  | [], _ => ret ()
  | a :: as, body => (body a).bind fun _ => forEach as body

/-- A loop over a list that collects a value for each element. -/
def mapEach : List α → (α → Prog σ E ε β) → Prog σ E ε (List β)
  | [], _ => ret []
  | a :: as, body => (body a).bind fun b => (mapEach as body).bind fun bs => ret (b :: bs)

/-! ## Weakest preconditions -/

/-- The weakest precondition of a program. `A` are the answers of the oracle, and `R` is what the
other threads do between two actions; `G` holds of each action, `Q` and `X` hold when the program
returns and when it throws. -/
def WpIn (A : Answers σ E) (R G : σ → σ → Prop) :
    Prog σ E ε α → (α → σ → Prop) → (ε → σ → Prop) → σ → Prop
  | ret a, Q, _, s => Q a s
  | throw e, _, X, s => X e s
  | abort, _, _, _ => True
  | act f k, Q, X, s => ∀ s', R s s' → G s' (f s').2 ∧ WpIn A R G (k (f s').1) Q X (f s').2
  | ask q k, Q, X, s => ∀ b, A _ q s b → WpIn A R G (k b) Q X s

/-- The weakest precondition of a program, whatever the oracle answers. -/
abbrev Wp (R G : σ → σ → Prop) :
    Prog σ E ε α → (α → σ → Prop) → (ε → σ → Prop) → σ → Prop :=
  WpIn anyAnswer R G

variable {A A' : Answers σ E} {R G : σ → σ → Prop} {Q : α → σ → Prop} {X : ε → σ → Prop}

theorem wp_bind (p : Prog σ E ε α) (g : α → Prog σ E ε β) {Q : β → σ → Prop} (s : σ) :
    (p >>= g).WpIn A R G Q X s ↔ p.WpIn A R G (fun a => (g a).WpIn A R G Q X) X s := by
  induction p generalizing s with
  | ret a => exact Iff.rfl
  | throw e => exact Iff.rfl
  | abort => exact Iff.rfl
  | act f k ih =>
    refine forall₂_congr fun s' _ => and_congr_right fun _ => ?_
    exact ih _ _
  | ask q k ih =>
    refine forall₂_congr fun b _ => ?_
    exact ih b s

theorem wp_handle (p : Prog σ E ε α) (g : ε → Prog σ E ε α) (s : σ) :
    (p.handle g).WpIn A R G Q X s ↔ p.WpIn A R G Q (fun e => (g e).WpIn A R G Q X) s := by
  induction p generalizing s with
  | ret a => exact Iff.rfl
  | throw e => exact Iff.rfl
  | abort => exact Iff.rfl
  | act f k ih =>
    refine forall₂_congr fun s' _ => and_congr_right fun _ => ?_
    exact ih _ _
  | ask q k ih =>
    refine forall₂_congr fun b _ => ?_
    exact ih b s

theorem wp_catching (p : Prog σ E ε α) {Q : Except ε α → σ → Prop} (s : σ) :
    p.catching.WpIn A R G Q X s ↔ p.WpIn A R G (fun a => Q (.ok a)) (fun e => Q (.error e)) s := by
  rw [catching, wp_handle]
  exact wp_bind p _ s

theorem WpIn.mono {p : Prog σ E ε α} {Q' : α → σ → Prop} {X' : ε → σ → Prop} {s : σ}
    (h : p.WpIn A R G Q X s) (hQ : ∀ a s', Q a s' → Q' a s') (hX : ∀ e s', X e s' → X' e s') :
    p.WpIn A R G Q' X' s := by
  induction p generalizing s with
  | ret a => exact hQ a s h
  | throw e => exact hX e s h
  | abort => exact h
  | act f k ih => exact fun s' hs => ⟨(h s' hs).1, ih _ (h s' hs).2⟩
  | ask q k ih => exact fun b hb => ih b (h b hb)

/-- A contract with fewer answers, and a weaker guarantee. -/
theorem WpIn.contract {G' : σ → σ → Prop}
    (hA : ∀ {β : Type} {q : E β} {s : σ} {b : β}, A' _ q s b → A _ q s b)
    (hG : ∀ {s s'}, G s s' → G' s s') {p : Prog σ E ε α} {s : σ} (h : p.WpIn A R G Q X s) :
    p.WpIn A' R G' Q X s := by
  induction p generalizing s with
  | ret a => exact h
  | throw e => exact h
  | abort => exact h
  | act f k ih => exact fun s' hs => ⟨hG (h s' hs).1, ih _ (h s' hs).2⟩
  | ask q k ih => exact fun b hb => ih b (h b (hA hb))

/-- **A precondition survives what the others do**, when the answers and the postconditions do. -/
theorem WpIn.stable (htrans : ∀ {a b c}, R a b → R b c → R a c)
    (hA : A.Stable R) {p : Prog σ E ε α} {s s' : σ} (hQ : ∀ a {s s'}, R s s' → Q a s → Q a s')
    (hX : ∀ e {s s'}, R s s' → X e s → X e s') (h : p.WpIn A R G Q X s) (hs : R s s') :
    p.WpIn A R G Q X s' := by
  induction p generalizing s with
  | ret a => exact hQ a hs h
  | throw e => exact hX e hs h
  | abort => trivial
  | act f k ih => exact fun s'' hs' => h s'' (htrans hs hs')
  | ask q k ih => exact fun b hb => ih b (h b (hA _ _ _ _ _ hs hb)) hs

/-- What neither the others nor the actions of this thread ever break relates the state at the end
to the state at the start. -/
theorem WpIn.frame {T : σ → σ → Prop} (hrefl : ∀ s, T s s)
    (htrans : ∀ {a b c}, T a b → T b c → T a c) (hR : ∀ {s s'}, R s s' → T s s')
    (hG : ∀ {s s'}, G s s' → T s s') {p : Prog σ E ε α} {s : σ} (h : p.WpIn A R G Q X s) :
    p.WpIn A R G (fun a s' => Q a s' ∧ T s s') (fun e s' => X e s' ∧ T s s') s := by
  induction p generalizing s with
  | ret a => exact ⟨h, hrefl s⟩
  | throw e => exact ⟨h, hrefl s⟩
  | abort => exact h
  | act f k ih =>
    intro s' hs
    obtain ⟨hg, hw⟩ := h s' hs
    have hT : T s (f s').2 := htrans (hR hs) (hG hg)
    refine ⟨hg, (ih _ hw).mono ?_ ?_⟩
    · exact fun a s'' h' => ⟨h'.1, htrans hT h'.2⟩
    · exact fun e s'' h' => ⟨h'.1, htrans hT h'.2⟩
  | ask q k ih => exact fun b hb => ih b (h b hb)

/-- Two specifications of one program. -/
theorem WpIn.and {G' : σ → σ → Prop} {Q' : α → σ → Prop} {X' : ε → σ → Prop} {p : Prog σ E ε α}
    {s : σ} (h : p.WpIn A R G Q X s) (h' : p.WpIn A R G' Q' X' s) :
    p.WpIn A R G (fun a s' => Q a s' ∧ Q' a s') (fun e s' => X e s' ∧ X' e s') s := by
  induction p generalizing s with
  | ret a => exact ⟨h, h'⟩
  | throw e => exact ⟨h, h'⟩
  | abort => trivial
  | act f k ih => exact fun s' hs => ⟨(h s' hs).1, ih _ (h s' hs).2 (h' s' hs).2⟩
  | ask q k ih => exact fun b hb => ih b (h b hb) (h' b hb)

/-- Nothing is asked of a program. -/
theorem wp_true (p : Prog σ E ε α) (s : σ) :
    p.WpIn A R (fun _ _ => True) (fun _ _ => True) (fun _ _ => True) s := by
  induction p generalizing s with
  | ret a => trivial
  | throw e => trivial
  | abort => trivial
  | act f k ih => exact fun s' _ => ⟨trivial, ih _ _⟩
  | ask q k ih => exact fun b _ => ih b s

/-- Sequencing, from the two halves. -/
theorem wp_seq {p : Prog σ E ε α} {g : α → Prog σ E ε β} {Q' : β → σ → Prop} {s : σ}
    (hp : p.WpIn A R G Q X s) (hg : ∀ a s', Q a s' → (g a).WpIn A R G Q' X s') :
    (p >>= g).WpIn A R G Q' X s :=
  (wp_bind p g s).mpr (hp.mono hg fun _ _ h => h)

theorem wp_ite {c : Prop} [Decidable c] {p q : Prog σ E ε α} {s : σ} (hp : c → p.WpIn A R G Q X s)
    (hq : ¬ c → q.WpIn A R G Q X s) : (if c then p else q).WpIn A R G Q X s := by
  by_cases h : c
  · rw [if_pos h]
    exact hp h
  · rw [if_neg h]
    exact hq h

theorem wp_writeState {f : σ → σ} {Q : Unit → σ → Prop} {s : σ}
    (h : ∀ s', R s s' → G s' (f s') ∧ Q () (f s')) :
    (writeState f : Prog σ E ε Unit).WpIn A R G Q X s :=
  h

theorem wp_atomically {f : σ → α × σ} {s : σ}
    (h : ∀ s', R s s' → G s' (f s').2 ∧ Q (f s').1 (f s').2) :
    (atomically f : Prog σ E ε α).WpIn A R G Q X s :=
  h

theorem wp_attempt {q : E (Except ε α)} {s : σ} (hok : ∀ a, A _ q s (.ok a) → Q a s)
    (herr : ∀ e, A _ q s (.error e) → X e s) : (attempt q).WpIn A R G Q X s := by
  rintro (e | a) hb
  · exact herr e hb
  · exact hok a hb

/-- Loops keep an invariant, which may speak of the elements still to come. -/
theorem wp_forEach {I : List α → σ → Prop} {body : α → Prog σ E ε Unit}
    (h : ∀ a as s, I (a :: as) s → (body a).WpIn A R G (fun _ => I as) X s) :
    ∀ {as : List α} {s : σ}, I as s → (forEach as body).WpIn A R G (fun _ => I []) X s
  | [], _, hs => hs
  | a :: as, s, hs => by
    refine (wp_bind _ _ s).mpr ?_
    exact (h a as s hs).mono (fun _ _ h' => wp_forEach h h') fun _ _ h' => h'

theorem wp_mapEach {I : σ → Prop} {body : α → Prog σ E ε β}
    (h : ∀ a s, I s → (body a).WpIn A R G (fun _ => I) X s) :
    ∀ {as : List α} {s : σ}, I s → (mapEach as body).WpIn A R G (fun _ => I) X s
  | [], _, hs => hs
  | a :: as, s, hs => by
    refine (wp_bind _ _ s).mpr ((h a s hs).mono (fun b s' h' => ?_) fun _ _ h' => h')
    exact (wp_bind _ _ s').mpr (wp_mapEach h h')

/-- A loop that collects values of a kind. -/
theorem wp_mapEach_forall {I : σ → Prop} {body : α → Prog σ E ε β} {P : β → Prop} :
    ∀ {as : List α} {s : σ},
      (∀ a ∈ as, ∀ s, I s → (body a).WpIn A R G (fun b s' => I s' ∧ P b) X s) → I s →
        (mapEach as body).WpIn A R G (fun bs s' => I s' ∧ ∀ b ∈ bs, P b) X s
  | [], _, _, hs => ⟨hs, List.forall_mem_nil _⟩
  | a :: as, s, h, hs => by
    obtain ⟨ha, has⟩ := List.forall_mem_cons.mp h
    refine (wp_bind _ _ s).mpr ((ha s hs).mono (fun b s' hb => ?_) fun _ _ h' => h')
    refine (wp_bind _ _ s').mpr ((wp_mapEach_forall has hb.1).mono (fun bs s'' hbs => ?_)
      fun _ _ h' => h')
    exact ⟨hbs.1, List.forall_mem_cons.mpr ⟨hb.2, hbs.2⟩⟩

/-! ## What a program does wherever it stands -/

/-- Every action of the program does `T`, and what it throws is `B`. -/
def Always (A : Answers σ E) (T : σ → σ → Prop) (B : ε → Prop) : Prog σ E ε α → Prop
  | ret _ => True
  | throw e => B e
  | abort => True
  | act f k => (∀ s, T s (f s).2) ∧ ∀ b, Always A T B (k b)
  | ask q k => ∀ s b, A _ q s b → Always A T B (k b)

section Always

variable {T T' : σ → σ → Prop} {B B' : ε → Prop}

theorem Always.mono {p : Prog σ E ε α} (h : p.Always A T B) (hT : ∀ {s s'}, T s s' → T' s s')
    (hB : ∀ {e}, B e → B' e) : p.Always A T' B' := by
  induction p with
  | ret a => trivial
  | throw e => exact hB h
  | abort => trivial
  | act f k ih => exact ⟨fun s => hT (h.1 s), fun b => ih b (h.2 b)⟩
  | ask q k ih => exact fun s b hb => ih b (h s b hb)

theorem always_bind {p : Prog σ E ε α} {g : α → Prog σ E ε β} (hp : p.Always A T B)
    (hg : ∀ a, (g a).Always A T B) : (p >>= g).Always A T B := by
  induction p with
  | ret a => exact hg a
  | throw e => exact hp
  | abort => trivial
  | act f k ih => exact ⟨hp.1, fun b => ih b (hp.2 b)⟩
  | ask q k ih => exact fun s b hb => ih b (hp s b hb)

theorem always_handle {p : Prog σ E ε α} {g : ε → Prog σ E ε α} (hp : p.Always A T B')
    (hg : ∀ e, B' e → (g e).Always A T B) : (p.handle g).Always A T B := by
  induction p with
  | ret a => trivial
  | throw e => exact hg e hp
  | abort => trivial
  | act f k ih => exact ⟨hp.1, fun b => ih b (hp.2 b)⟩
  | ask q k ih => exact fun s b hb => ih b (hp s b hb)

theorem always_catching {p : Prog σ E ε α} (hp : p.Always A T B') : p.catching.Always A T B :=
  always_handle (always_bind hp fun _ => trivial) fun _ _ => trivial

theorem always_ite {c : Prop} [Decidable c] {p q : Prog σ E ε α} (hp : c → p.Always A T B)
    (hq : ¬ c → q.Always A T B) : (if c then p else q).Always A T B := by
  by_cases h : c
  · rw [if_pos h]
    exact hp h
  · rw [if_neg h]
    exact hq h

theorem always_readState (hT : ∀ s, T s s) (f : σ → α) :
    (readState f : Prog σ E ε α).Always A T B :=
  ⟨hT, fun _ => trivial⟩

theorem always_writeState {f : σ → σ} (h : ∀ s, T s (f s)) :
    (writeState f : Prog σ E ε Unit).Always A T B :=
  ⟨h, fun _ => trivial⟩

theorem always_atomically {f : σ → α × σ} (h : ∀ s, T s (f s).2) :
    (atomically f : Prog σ E ε α).Always A T B :=
  ⟨h, fun _ => trivial⟩

theorem always_query (q : E α) : (query q : Prog σ E ε α).Always A T B := fun _ _ _ => trivial

theorem always_attempt {q : E (Except ε α)} (h : ∀ s e, A _ q s (.error e) → B e) :
    (attempt q).Always A T B := by
  rintro s (e | a) hb
  · exact h s e hb
  · trivial

theorem always_forEach {body : α → Prog σ E ε Unit} (h : ∀ a, (body a).Always A T B)
    (as : List α) : (forEach as body).Always A T B := by
  induction as with
  | nil => trivial
  | cons a as ih => exact always_bind (h a) fun _ => ih

theorem Always.wpIn {p : Prog σ E ε α} (h : p.Always A T B) (s : σ) :
    p.WpIn A R (fun _ _ => True) (fun _ _ => True) (fun e _ => B e) s := by
  induction p generalizing s with
  | ret a => trivial
  | throw e => exact h
  | abort => trivial
  | act f k ih => exact fun s' _ => ⟨trivial, ih _ (h.2 _) _⟩
  | ask q k ih => exact fun b hb => ih b (h s b hb) s

theorem always_mapEach {body : α → Prog σ E ε β} (h : ∀ a, (body a).Always A T B) (as : List α) :
    (mapEach as body).Always A T B := by
  induction as with
  | nil => trivial
  | cons a as ih => exact always_bind (h a) fun _ => always_bind ih fun _ => trivial

/-- **What every action does holds from the start to the end**, if the others do it as well. -/
theorem WpIn.and_always (hrefl : ∀ s, T s s) (htrans : ∀ {a b c}, T a b → T b c → T a c)
    (hR : ∀ {s s'}, R s s' → T s s') {p : Prog σ E ε α} {s : σ} (h : p.WpIn A R G Q X s)
    (hp : p.Always A T B) :
    p.WpIn A R G (fun a s' => Q a s' ∧ T s s') (fun e s' => X e s' ∧ B e ∧ T s s') s := by
  induction p generalizing s with
  | ret a => exact ⟨h, hrefl s⟩
  | throw e => exact ⟨h, hp, hrefl s⟩
  | abort => exact h
  | act f k ih =>
    intro s' hs
    obtain ⟨hg, hw⟩ := h s' hs
    have hT : T s (f s').2 := htrans (hR hs) (hp.1 s')
    refine ⟨hg, (ih _ hw (hp.2 _)).mono ?_ ?_⟩
    · exact fun a s'' h' => ⟨h'.1, htrans hT h'.2⟩
    · exact fun e s'' h' => ⟨h'.1, h'.2.1, htrans hT h'.2.2⟩
  | ask q k ih => exact fun b hb => ih b (h b hb) (hp s b hb)

end Always

end Prog

/-! ## Machines -/

variable {σ ε Λ : Type} {E : Type → Type}

/-- Where a machine stands: at a label, or inside a block. -/
inductive Ctl (σ : Type) (E : Type → Type) (ε Λ : Type) : Type 1
  | label (l : Λ)
  | run (p : Prog σ E ε Λ)

/-- One step of the machine, or of its environment, with the answers of a contract. A label without
code is where the thread has returned. -/
inductive MachineStepIn (A : Answers σ E) (code : Λ → Option (Prog σ E ε Λ)) (env : σ → σ → Prop) :
    Ctl σ E ε Λ × σ → Ctl σ E ε Λ × σ → Prop
  | enter {l : Λ} {p : Prog σ E ε Λ} {s : σ} (h : code l = some p) :
      MachineStepIn A code env (.label l, s) (.run p, s)
  | act {β : Type} {f : σ → β × σ} {k : β → Prog σ E ε Λ} {s : σ} :
      MachineStepIn A code env (.run (.act f k), s) (.run (k (f s).1), (f s).2)
  | ask {β : Type} {q : E β} {k : β → Prog σ E ε Λ} {s : σ} (b : β) (hb : A _ q s b) :
      MachineStepIn A code env (.run (.ask q k), s) (.run (k b), s)
  | goto {l : Λ} {s : σ} : MachineStepIn A code env (.run (.ret l), s) (.label l, s)
  | env {c : Ctl σ E ε Λ} {s s' : σ} (h : env s s') : MachineStepIn A code env (c, s) (c, s')

/-- One step of the machine, or of its environment, whatever the oracle answers. -/
abbrev MachineStep (code : Λ → Option (Prog σ E ε Λ)) (env : σ → σ → Prop) :
    Ctl σ E ε Λ × σ → Ctl σ E ε Λ × σ → Prop :=
  MachineStepIn anyAnswer code env

variable {A A' : Answers σ E} {code : Λ → Option (Prog σ E ε Λ)} {env G : σ → σ → Prop}
  {pre : Λ → σ → Prop} {c c' : Ctl σ E ε Λ × σ}

/-- The block preconditions at a label; the weakest precondition of what is left inside a block. -/
def GoodIn (A : Answers σ E) (env G : σ → σ → Prop) (pre : Λ → σ → Prop) :
    Ctl σ E ε Λ × σ → Prop
  | (.label l, s) => pre l s
  | (.run p, s) => p.WpIn A (Relation.ReflTransGen env) G pre (fun _ _ => True) s

/-- The same, whatever the oracle answers. -/
abbrev Good (env G : σ → σ → Prop) (pre : Λ → σ → Prop) : Ctl σ E ε Λ × σ → Prop :=
  GoodIn anyAnswer env G pre

section Blocks

variable (hA : A.Stable env) (hstable : ∀ l {s s'}, env s s' → pre l s → pre l s')
include hA hstable

/-- **What is left of a block** leads on, one step further. -/
theorem machineStep_run {p : Prog σ E ε Λ} {s : σ} (h : GoodIn A env G pre (.run p, s))
    (hs : MachineStepIn A code env (.run p, s) c') :
    GoodIn A env G pre c' ∧ (env s c'.2 ∨ G s c'.2 ∨ c'.2 = s) := by
  cases hs with
  | act =>
    obtain ⟨hg, hw⟩ := h _ .refl
    exact ⟨hw, Or.inr (Or.inl hg)⟩
  | ask b hb => exact ⟨h b hb, Or.inr (Or.inr rfl)⟩
  | goto => exact ⟨h, Or.inr (Or.inr rfl)⟩
  | env he =>
    refine ⟨Prog.WpIn.stable (fun h₁ h₂ => h₁.trans h₂) hA.reflTransGen (fun l s s' hr hp => ?_)
      (fun _ _ _ _ _ => trivial) h (.single he), Or.inl he⟩
    induction hr with
    | refl => exact hp
    | tail _ hstep ih => exact hstable l hstep ih

variable (hcode : ∀ l p s, code l = some p → pre l s →
    p.WpIn A (Relation.ReflTransGen env) G pre (fun _ _ => True) s)
include hcode

/-- **One step keeps the block preconditions**, and an action of the machine meets its guarantee. -/
theorem machineStep_goodIn (h : GoodIn A env G pre c) (hs : MachineStepIn A code env c c') :
    GoodIn A env G pre c' ∧ (env c.2 c'.2 ∨ G c.2 c'.2 ∨ c'.2 = c.2) := by
  obtain ⟨w, s⟩ := c
  cases w with
  | run p => exact machineStep_run hA hstable h hs
  | label l =>
    cases hs with
    | enter hl => exact ⟨hcode _ _ _ hl h, Or.inr (Or.inr rfl)⟩
    | env he => exact ⟨hstable l he h, Or.inl he⟩

/-- **Block preconditions hold along every interleaving.** -/
theorem machine_goodIn (h : GoodIn A env G pre c)
    (hr : Relation.ReflTransGen (MachineStepIn A code env) c c') : GoodIn A env G pre c' := by
  induction hr with
  | refl => exact h
  | tail _ hs ih => exact (machineStep_goodIn hA hstable hcode ih hs).1

end Blocks

section Any

variable (hstable : ∀ l {s s'}, env s s' → pre l s → pre l s')
  (hcode : ∀ l p s, code l = some p → pre l s →
    p.Wp (Relation.ReflTransGen env) G pre (fun _ _ => True) s)
include hstable hcode

theorem machineStep_good (h : Good env G pre c) (hs : MachineStep code env c c') :
    Good env G pre c' ∧ (env c.2 c'.2 ∨ G c.2 c'.2 ∨ c'.2 = c.2) :=
  machineStep_goodIn (Answers.stable_any env) hstable hcode h hs

theorem machine_good (h : Good env G pre c)
    (hr : Relation.ReflTransGen (MachineStep code env) c c') : Good env G pre c' :=
  machine_goodIn (Answers.stable_any env) hstable hcode h hr

end Any

/-! ## Up to certain labels -/

/-- A step of a run that stops at certain labels. -/
def StepUntil (A : Answers σ E) (code : Λ → Option (Prog σ E ε Λ)) (env : σ → σ → Prop)
    (stop : Λ → Prop) (c c' : Ctl σ E ε Λ × σ) : Prop :=
  MachineStepIn A code env c c' ∧ ∀ l, c.1 = .label l → ¬stop l

/-- **Block preconditions hold along a run that stops at certain labels**, if they do from every
other label to the next. -/
theorem machine_goodUntil (hA : A.Stable env) (hstable : ∀ l {s s'}, env s s' → pre l s → pre l s')
    {stop : Λ → Prop} (hcode : ∀ l p s, ¬stop l → code l = some p → pre l s →
      p.WpIn A (Relation.ReflTransGen env) G pre (fun _ _ => True) s)
    (h : GoodIn A env G pre c) (hr : Relation.ReflTransGen (StepUntil A code env stop) c c') :
    GoodIn A env G pre c' := by
  induction hr with
  | refl => exact h
  | @tail c₁ c₂ _ hs ih =>
    obtain ⟨w, s⟩ := c₁
    obtain ⟨hstep, hgo⟩ := hs
    cases w with
    | run p => exact (machineStep_run hA hstable ih hstep).1
    | label l =>
      cases hstep with
      | enter hl => exact hcode _ _ _ (hgo l rfl) hl ih
      | env he => exact hstable l he ih

end Ninfer
