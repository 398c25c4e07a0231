import Ninfer.Commons.Thread

/-!
# A machine with a history

What a run has done so far is not in the state of its machine. It is kept beside it: notes are taken
when a label is entered, after an action, and when a question is put. The notes change nothing: a
recorded run is a run of the machine, and every run can be recorded.

The weakest precondition of a program with notes asserts, besides what holds at its end, that the
history is lawful after each note. A program that takes no notes needs no more than its weakest
precondition.

## Main definitions

* `Notes`: what is noted at a label, at an action and at a question
* `HistoryStep`: one step of a machine and its environment, with the history
* `Prog.WpNoted`: the weakest precondition of a program with notes
* `Prog.Asks`: all questions of a program are of a kind

## Main results

* `HistoryStep.machineStep`, `MachineStepIn.historyStep`: the history can be erased and added
* `Prog.wpNoted_bind`, `Prog.wpNoted_handle`: the rules
* `Prog.WpIn.noted`: a program that takes no notes
* `historyStep_good`, `history_good`: a history stays lawful along every interleaving
-/

namespace Ninfer

/-- What is noted when a label is entered, after an action, and when a question is put. -/
structure Notes (σ : Type) (E : Type → Type) (Λ τ : Type) where
  enter : Λ → σ → τ → τ
  act : σ → σ → τ → τ
  ask : ∀ {β : Type}, E β → σ → τ → τ

variable {σ ε Λ τ : Type} {E : Type → Type}

/-- What the others do does not change what a question notes. -/
def Notes.Stable (N : Notes σ E Λ τ) (R : σ → σ → Prop) : Prop :=
  ∀ (β : Type) (q : E β) (s s' : σ) (t : τ), R s s' → N.ask q s' t = N.ask q s t

theorem Notes.Stable.reflTransGen {N : Notes σ E Λ τ} {R : σ → σ → Prop} (h : N.Stable R) :
    N.Stable (Relation.ReflTransGen R) := by
  intro β q s s' t hr
  induction hr with
  | refl => rfl
  | tail _ hs ih => exact (h _ _ _ _ _ hs).trans ih

namespace Prog

variable {α β : Type}

/-! ## Weakest preconditions with notes -/

/-- The weakest precondition of a program with notes, under which the history satisfies `I` after
each of them. -/
def WpNoted (N : Notes σ E Λ τ) (A : Answers σ E) (R : σ → σ → Prop) (I : τ → Prop) :
    Prog σ E ε α → (α → σ → τ → Prop) → (ε → σ → τ → Prop) → σ → τ → Prop
  | ret a, Q, _, s, t => Q a s t
  | throw e, _, X, s, t => X e s t
  | abort, _, _, _, _ => True
  | act f k, Q, X, s, t => ∀ s', R s s' →
      I (N.act s' (f s').2 t) ∧
        WpNoted N A R I (k (f s').1) Q X (f s').2 (N.act s' (f s').2 t)
  | ask q k, Q, X, s, t =>
      I (N.ask q s t) ∧ ∀ b, A _ q s b → WpNoted N A R I (k b) Q X s (N.ask q s t)

/-- Every question of the program is of the kind `P`. -/
def Asks (P : ∀ {β : Type}, E β → Prop) : Prog σ E ε α → Prop
  | ret _ => True
  | throw _ => True
  | abort => True
  | act _ k => ∀ b, Asks P (k b)
  | ask q k => P q ∧ ∀ b, Asks P (k b)

variable {N : Notes σ E Λ τ} {A : Answers σ E} {R G : σ → σ → Prop} {I : τ → Prop}
  {Q : α → σ → τ → Prop} {X : ε → σ → τ → Prop} {s s' : σ} {t : τ}

theorem wpNoted_bind (p : Prog σ E ε α) (g : α → Prog σ E ε β) {Q : β → σ → τ → Prop} :
    (p >>= g).WpNoted N A R I Q X s t ↔
      p.WpNoted N A R I (fun a => (g a).WpNoted N A R I Q X) X s t := by
  induction p generalizing s t with
  | ret a => exact Iff.rfl
  | throw e => exact Iff.rfl
  | abort => exact Iff.rfl
  | act f k ih => exact forall₂_congr fun s' _ => and_congr_right fun _ => ih _
  | ask q k ih => exact and_congr_right fun _ => forall₂_congr fun b _ => ih b

theorem wpNoted_handle (p : Prog σ E ε α) (g : ε → Prog σ E ε α) :
    (p.handle g).WpNoted N A R I Q X s t ↔
      p.WpNoted N A R I Q (fun e => (g e).WpNoted N A R I Q X) s t := by
  induction p generalizing s t with
  | ret a => exact Iff.rfl
  | throw e => exact Iff.rfl
  | abort => exact Iff.rfl
  | act f k ih => exact forall₂_congr fun s' _ => and_congr_right fun _ => ih _
  | ask q k ih => exact and_congr_right fun _ => forall₂_congr fun b _ => ih b

theorem WpNoted.mono {p : Prog σ E ε α} {Q' : α → σ → τ → Prop} {X' : ε → σ → τ → Prop}
    (h : p.WpNoted N A R I Q X s t) (hQ : ∀ a s' t', Q a s' t' → Q' a s' t')
    (hX : ∀ e s' t', X e s' t' → X' e s' t') : p.WpNoted N A R I Q' X' s t := by
  induction p generalizing s t with
  | ret a => exact hQ a s t h
  | throw e => exact hX e s t h
  | abort => exact h
  | act f k ih => exact fun s' hs => ⟨(h s' hs).1, ih _ (h s' hs).2⟩
  | ask q k ih => exact ⟨h.1, fun b hb => ih b (h.2 b hb)⟩

/-- Sequencing, from the two halves. -/
theorem wpNoted_seq {p : Prog σ E ε α} {g : α → Prog σ E ε β} {Q' : β → σ → τ → Prop}
    (hp : p.WpNoted N A R I Q X s t)
    (hg : ∀ a s' t', Q a s' t' → (g a).WpNoted N A R I Q' X s' t') :
    (p >>= g).WpNoted N A R I Q' X s t :=
  (wpNoted_bind p g).mpr (hp.mono hg fun _ _ _ h => h)

theorem wpNoted_ite {c : Prop} [Decidable c] {p q : Prog σ E ε α}
    (hp : c → p.WpNoted N A R I Q X s t) (hq : ¬c → q.WpNoted N A R I Q X s t) :
    (if c then p else q).WpNoted N A R I Q X s t := by
  by_cases h : c
  · rw [if_pos h]
    exact hp h
  · rw [if_neg h]
    exact hq h

/-- **A precondition survives what the others do**, when the answers, the notes and the
postconditions do. -/
theorem WpNoted.stable (htrans : ∀ {a b c}, R a b → R b c → R a c) (hA : A.Stable R)
    (hN : N.Stable R) {p : Prog σ E ε α} (hQ : ∀ a t {s s'}, R s s' → Q a s t → Q a s' t)
    (hX : ∀ e t {s s'}, R s s' → X e s t → X e s' t) (h : p.WpNoted N A R I Q X s t)
    (hs : R s s') : p.WpNoted N A R I Q X s' t := by
  induction p generalizing s t with
  | ret a => exact hQ a t hs h
  | throw e => exact hX e t hs h
  | abort => trivial
  | act f k ih => exact fun s'' hs' => h s'' (htrans hs hs')
  | ask q k ih =>
    have hnote := hN _ q _ _ t hs
    refine ⟨hnote ▸ h.1, fun b hb => ?_⟩
    rw [hnote]
    exact ih b (h.2 b (hA _ _ _ _ _ hs hb)) hs

/-- What the program does besides. -/
theorem WpNoted.and_wpIn {p : Prog σ E ε α} {Q' : α → σ → Prop} {X' : ε → σ → Prop}
    (h : p.WpNoted N A R I Q X s t) (h' : p.WpIn A R G Q' X' s) :
    p.WpNoted N A R I (fun a s' t' => Q a s' t' ∧ Q' a s')
      (fun e s' t' => X e s' t' ∧ X' e s') s t := by
  induction p generalizing s t with
  | ret a => exact ⟨h, h'⟩
  | throw e => exact ⟨h, h'⟩
  | abort => trivial
  | act f k ih => exact fun s' hs => ⟨(h s' hs).1, ih _ (h s' hs).2 (h' s' hs).2⟩
  | ask q k ih => exact ⟨h.1, fun b hb => ih b (h.2 b hb) (h' b hb)⟩

/-! ## Programs that take no notes -/

section Asks

variable {P P' : ∀ {β : Type}, E β → Prop}

theorem asks_bind {p : Prog σ E ε α} {g : α → Prog σ E ε β} (hp : p.Asks P)
    (hg : ∀ a, (g a).Asks P) : (p >>= g).Asks P := by
  induction p with
  | ret a => exact hg a
  | throw e => trivial
  | abort => trivial
  | act f k ih => exact fun b => ih b (hp b)
  | ask q k ih => exact ⟨hp.1, fun b => ih b (hp.2 b)⟩

theorem asks_handle {p : Prog σ E ε α} {g : ε → Prog σ E ε α} (hp : p.Asks P)
    (hg : ∀ e, (g e).Asks P) : (p.handle g).Asks P := by
  induction p with
  | ret a => trivial
  | throw e => exact hg e
  | abort => trivial
  | act f k ih => exact fun b => ih b (hp b)
  | ask q k ih => exact ⟨hp.1, fun b => ih b (hp.2 b)⟩

theorem asks_catching {p : Prog σ E ε α} (hp : p.Asks P) : p.catching.Asks P :=
  asks_handle (asks_bind hp fun _ => trivial) fun _ => trivial

theorem asks_ite {c : Prop} [Decidable c] {p q : Prog σ E ε α} (hp : p.Asks P) (hq : q.Asks P) :
    (if c then p else q).Asks P := by
  by_cases h : c
  · rwa [if_pos h]
  · rwa [if_neg h]

theorem asks_readState (f : σ → α) : (readState f : Prog σ E ε α).Asks P := fun _ => trivial

theorem asks_writeState (f : σ → σ) : (writeState f : Prog σ E ε Unit).Asks P := fun _ => trivial

theorem asks_atomically (f : σ → α × σ) : (atomically f : Prog σ E ε α).Asks P := fun _ => trivial

theorem asks_query {q : E α} (h : P q) : (query q : Prog σ E ε α).Asks P := ⟨h, fun _ => trivial⟩

theorem asks_attempt {q : E (Except ε α)} (h : P q) : (attempt q : Prog σ E ε α).Asks P := by
  refine ⟨h, fun b => ?_⟩
  cases b <;> trivial

theorem asks_forEach {body : α → Prog σ E ε Unit} (h : ∀ a, (body a).Asks P) (as : List α) :
    (forEach as body).Asks P := by
  induction as with
  | nil => trivial
  | cons a as ih => exact asks_bind (h a) fun _ => ih

theorem asks_mapEach {body : α → Prog σ E ε β} (h : ∀ a, (body a).Asks P) (as : List α) :
    (mapEach as body).Asks P := by
  induction as with
  | nil => trivial
  | cons a as ih => exact asks_bind (h a) fun _ => asks_bind ih fun _ => trivial

/-- **A program that takes no notes** keeps the history, besides what it does. -/
theorem WpIn.noted {Q : α → σ → Prop} {X : ε → σ → Prop} {p : Prog σ E ε α}
    (h : p.WpIn A R G Q X s) (hp : p.Asks P)
    (hask : ∀ {β : Type} (q : E β) (s : σ), P q → N.ask q s t = t)
    (hact : ∀ s s', N.act s s' t = t) (hI : I t) :
    p.WpNoted N A R I (fun a s' t' => Q a s' ∧ t' = t) (fun e s' t' => X e s' ∧ t' = t) s t := by
  induction p generalizing s with
  | ret a => exact ⟨h, rfl⟩
  | throw e => exact ⟨h, rfl⟩
  | abort => trivial
  | act f k ih =>
    intro s' hs
    rw [hact]
    exact ⟨hI, ih _ (h s' hs).2 (hp _)⟩
  | ask q k ih =>
    rw [WpNoted, hask q s hp.1]
    exact ⟨hI, fun b hb => ih b (h b hb) (hp.2 b)⟩

end Asks

end Prog

/-! ## Recorded runs -/

/-- One step of the machine, or of its environment, with the history. -/
inductive HistoryStep (N : Notes σ E Λ τ) (A : Answers σ E) (code : Λ → Option (Prog σ E ε Λ))
    (env : σ → σ → Prop) : (Ctl σ E ε Λ × σ) × τ → (Ctl σ E ε Λ × σ) × τ → Prop
  | enter {l : Λ} {p : Prog σ E ε Λ} {s : σ} {t : τ} (h : code l = some p) :
      HistoryStep N A code env ((.label l, s), t) ((.run p, s), N.enter l s t)
  | act {β : Type} {f : σ → β × σ} {k : β → Prog σ E ε Λ} {s : σ} {t : τ} :
      HistoryStep N A code env ((.run (.act f k), s), t)
        ((.run (k (f s).1), (f s).2), N.act s (f s).2 t)
  | ask {β : Type} {q : E β} {k : β → Prog σ E ε Λ} {s : σ} {t : τ} (b : β) (hb : A _ q s b) :
      HistoryStep N A code env ((.run (.ask q k), s), t) ((.run (k b), s), N.ask q s t)
  | goto {l : Λ} {s : σ} {t : τ} :
      HistoryStep N A code env ((.run (.ret l), s), t) ((.label l, s), t)
  | env {c : Ctl σ E ε Λ} {s s' : σ} {t : τ} (h : env s s') :
      HistoryStep N A code env ((c, s), t) ((c, s'), t)

variable {N : Notes σ E Λ τ} {A : Answers σ E} {code : Λ → Option (Prog σ E ε Λ)}
  {env : σ → σ → Prop} {c c' : (Ctl σ E ε Λ × σ) × τ}

/-- The history can be erased from a step. -/
theorem HistoryStep.machineStep (h : HistoryStep N A code env c c') :
    MachineStepIn A code env c.1 c'.1 := by
  cases h with
  | enter h => exact .enter h
  | act => exact .act
  | ask b hb => exact .ask b hb
  | goto => exact .goto
  | env h => exact .env h

/-- **Every step of the machine can be recorded**, whatever has been noted before. -/
theorem MachineStepIn.historyStep {c c' : Ctl σ E ε Λ × σ} (h : MachineStepIn A code env c c')
    (t : τ) : ∃ t', HistoryStep N A code env (c, t) (c', t') := by
  cases h with
  | enter h => exact ⟨_, .enter h⟩
  | act => exact ⟨_, .act⟩
  | ask b hb => exact ⟨_, .ask b hb⟩
  | goto => exact ⟨_, .goto⟩
  | env h => exact ⟨_, .env h⟩

/-- The history can be erased from a run. -/
theorem machineSteps_of_history (h : Relation.ReflTransGen (HistoryStep N A code env) c c') :
    Relation.ReflTransGen (MachineStepIn A code env) c.1 c'.1 := by
  induction h with
  | refl => exact .refl
  | tail _ hs ih => exact ih.tail hs.machineStep

/-- Every run of the machine can be recorded. -/
theorem exists_history {c c' : Ctl σ E ε Λ × σ}
    (h : Relation.ReflTransGen (MachineStepIn A code env) c c') (t : τ) :
    ∃ t', Relation.ReflTransGen (HistoryStep N A code env) (c, t) (c', t') := by
  induction h with
  | refl => exact ⟨t, .refl⟩
  | tail _ hs ih =>
    obtain ⟨t', ht⟩ := ih
    obtain ⟨t'', hstep⟩ := hs.historyStep t'
    exact ⟨t'', ht.tail hstep⟩

/-! ## Lawful histories -/

variable {I : τ → Prop} {pre : Λ → σ → τ → Prop}

/-- The history is lawful. The block preconditions hold at a label, and the weakest precondition of
what is left inside a block. -/
def GoodNoted (N : Notes σ E Λ τ) (A : Answers σ E) (env : σ → σ → Prop) (I : τ → Prop)
    (pre : Λ → σ → τ → Prop) : (Ctl σ E ε Λ × σ) × τ → Prop
  | ((.label l, s), t) => I t ∧ pre l s t
  | ((.run p, s), t) =>
    I t ∧ p.WpNoted N A (Relation.ReflTransGen env) I pre (fun _ _ _ => True) s t

theorem GoodNoted.lawful (h : GoodNoted N A env I pre c) : I c.2 := by
  obtain ⟨⟨w, s⟩, t⟩ := c
  cases w with
  | label l => exact h.1
  | run p => exact h.1

section Blocks

variable (hA : A.Stable env) (hN : N.Stable env)
  (hstable : ∀ l t {s s'}, env s s' → pre l s t → pre l s' t)
  (hcode : ∀ l p s t, code l = some p → I t → pre l s t →
    I (N.enter l s t) ∧ p.WpNoted N A (Relation.ReflTransGen env) I pre (fun _ _ _ => True) s
      (N.enter l s t))
include hA hN hstable hcode

/-- **One step keeps the history lawful**, and the block preconditions with it. -/
theorem historyStep_good (h : GoodNoted N A env I pre c) (hs : HistoryStep N A code env c c') :
    GoodNoted N A env I pre c' := by
  cases hs with
  | enter hl => exact hcode _ _ _ _ hl h.1 h.2
  | act => exact h.2 _ .refl
  | ask b hb => exact ⟨h.2.1, h.2.2 b hb⟩
  | goto => exact h
  | @env w s s' t he =>
    cases w with
    | label l => exact ⟨h.1, hstable l t he h.2⟩
    | run p =>
      refine ⟨h.1, h.2.stable (fun h₁ h₂ => h₁.trans h₂) hA.reflTransGen hN.reflTransGen
        (fun l t s s' hr hp => ?_) (fun _ _ _ _ _ _ => trivial) (.single he)⟩
      induction hr with
      | refl => exact hp
      | tail _ hstep ih => exact hstable l t hstep ih

/-- **A history stays lawful along every interleaving.** -/
theorem history_good (h : GoodNoted N A env I pre c)
    (hr : Relation.ReflTransGen (HistoryStep N A code env) c c') : GoodNoted N A env I pre c' := by
  induction hr with
  | refl => exact h
  | tail _ hs ih => exact historyStep_good hA hN hstable hcode ih hs

end Blocks

end Ninfer
