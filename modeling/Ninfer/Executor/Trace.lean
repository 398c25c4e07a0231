import Ninfer.Executor.Progress
import Ninfer.Executor.Units

/-!
# The history of the worker

What `worker_loop` promises about the order of its units on the GPU is a property of the history of
a run. The history notes where the worker is at the top of its loop, what the expiry pass of an
iteration leaves in the queue, the calls of `try_admit_one`, and each unit with the state it starts
in: the prefilled lane, and the lanes that are ready to decode.

## Main definitions

* `GpuUnit`, `Event`, `History`: what is noted of a run
* `notes`: when it is noted
* `MayFollow`, `Alternates`: a lawful history
* `SameView`: what a unit is noted with stays
* `Noted`: programs of the worker with their notes

## Main results

* `noted_of_unitFree`, `noted_calm`: a program that runs no unit leaves the history alone
* `gpuUnit_noted`: a unit is noted when it starts
-/

namespace Ninfer.Executor

open Prog (readState writeState atomically query attempt forEach mapEach catching)

/-! ## The history of a run -/

/-- A unit on the GPU, with the lane that is prefilled and the lanes that are ready to decode when
it starts. -/
structure GpuUnit where
  kind : UnitKind
  prefillLane : Option Nat
  readyLanes : List Nat
  deriving DecidableEq, Repr

/-- What is noted of a run. -/
inductive Event
  /-- The worker is at the top of its loop. -/
  | iteration
  /-- The expiry pass of the iteration has read the clock. -/
  | expiring
  /-- The expiry pass has left these requests in the queue. -/
  | expired (pending : List Nat)
  /-- `try_admit_one` is called, or goes around. -/
  | admission
  | unit (u : GpuUnit)
  | failure
  deriving DecidableEq, Repr

/-- The events of a run, the newest first. -/
abbrev History : Type := List Event

/-- The call reads the clock. -/
def Oracle.readsClock : ∀ {β : Type}, Oracle β → Bool
  | _, .deadlinesPassed => true
  | _, _ => false

/-- The lanes whose requests are ready to decode. -/
def readyLanes (n : Nat) (s : State) : List Nat :=
  (List.range n).filter fun lane =>
    match s.slots lane with
    | none => false
    | some id => (s.reqs id).job.decodeReady

/-- A unit that starts in a state. -/
def unitAt (n : Nat) (kind : UnitKind) (s : State) : GpuUnit :=
  ⟨kind, s.schedule.prefillLane, readyLanes n s⟩

/-- The first reading of the clock in an iteration is that of the expiry pass. -/
def noteClock : History → History
  | .iteration :: t => .expiring :: .iteration :: t
  | t => t

/-- The action after it is the critical section of the pass. -/
def notePass (pending : List Nat) : History → History
  | .expiring :: t => .expired pending :: .expiring :: t
  | t => t

/-- When the events are noted. -/
def notes (o : Options) : Notes State Oracle Label History where
  enter l _ t :=
    match l with
    | .top _ => .iteration :: t
    | .admitting _ _ _ => .admission :: t
    | .failing _ => .failure :: t
    | .returned => t
  act _ s t := notePass s.pending t
  ask q s t :=
    match q.unit with
    | some kind => .unit (unitAt o.maxConcurrency kind s) :: t
    | none => if q.readsClock then noteClock t else t

/-- The last unit of a history. -/
def lastUnit : History → Option GpuUnit
  | [] => none
  | .unit u :: _ => some u
  | _ :: t => lastUnit t

/-- What the last expiry pass has left in the queue. -/
def queueLeft : History → List Nat
  | [] => []
  | .expired pending :: _ => pending
  | _ :: t => queueLeft t

/-- `try_admit_one` has been called since the last unit. -/
def admissionTried : History → Bool
  | [] => false
  | .unit _ :: _ => false
  | .admission :: _ => true
  | _ :: t => admissionTried t

/-- The unit `u` may follow the unit `v`, after the history `t`. -/
structure MayFollow (t : History) (v u : GpuUnit) : Prop where
  prefill : v.kind = .prefill → u.kind = .prefill → u.readyLanes = []
  decode : v.kind = .decode → u.kind = .decode → u.prefillLane = none
  queued : v.kind = .decode → u.kind = .decode → queueLeft t ≠ [] → admissionTried t = true

/-- Each unit of the history may follow the one before it. -/
def Alternates (t : History) : Prop :=
  ∀ newer u older, t = newer ++ .unit u :: older → ∀ v ∈ lastUnit older, MayFollow older v u

/-- A unit of a kind may start now. -/
def Allowed (o : Options) (t : History) (kind : UnitKind) (s : State) : Prop :=
  ∀ v ∈ lastUnit t, MayFollow t v (unitAt o.maxConcurrency kind s)

theorem alternates_nil : Alternates [] := fun newer _ _ h => by simp at h

theorem Alternates.unit {t : History} {u : GpuUnit} (h : Alternates t)
    (hu : ∀ v ∈ lastUnit t, MayFollow t v u) : Alternates (.unit u :: t) := by
  intro newer u' older ht
  rcases List.cons_eq_append_iff.mp ht with ⟨rfl, hhead⟩ | ⟨newer', rfl, htail⟩
  · obtain ⟨⟨⟩, rfl⟩ := List.cons.inj hhead
    exact hu
  · exact h newer' u' older htail

theorem Alternates.event {t : History} {e : Event} (h : Alternates t) (he : ∀ u, e ≠ .unit u) :
    Alternates (e :: t) := by
  intro newer u older ht
  rcases List.cons_eq_append_iff.mp ht with ⟨rfl, hhead⟩ | ⟨newer', rfl, htail⟩
  · exact absurd (List.cons.inj hhead).1.symm (he u)
  · exact h newer' u older htail

/-- The last unit was a decode round. -/
def decodedLast (t : History) : Bool := (lastUnit t).any fun u => u.kind = .decode

theorem decodedLast_eq_true {t : History} {v : GpuUnit} (hv : v ∈ lastUnit t) :
    decodedLast t = true ↔ v.kind = .decode := by
  simp [decodedLast, Option.mem_def.mp hv]

/-- The expiry pass of the iteration is over. -/
def PassOver : History → Prop
  | .iteration :: _ => False
  | .expiring :: _ => False
  | _ => True

variable {o : Options} {s s' s'' : State} {t : History} {id lane : Nat} {α : Type}

theorem notes_act (ht : PassOver t) (s s' : State) : (notes o).act s s' t = t := by
  rcases t with _ | ⟨_ | _, t⟩
  · rfl
  · rfl
  · exact ht.elim
  all_goals rfl

theorem notes_ask (ht : PassOver t) {β : Type} (q : Oracle β) (s : State) (hq : q.unit = none) :
    (notes o).ask q s t = t := by
  have hclock : noteClock t = t := by
    rcases t with _ | ⟨_ | _, t⟩
    · rfl
    · exact ht.elim
    all_goals rfl
  simp only [notes, hq, hclock, ite_self]

theorem notes_unit {β : Type} {q : Oracle β} {kind : UnitKind} (hq : q.unit = some kind)
    (s : State) (t : History) :
    (notes o).ask q s t = .unit (unitAt o.maxConcurrency kind s) :: t := by
  simp only [notes, hq]

/-! ## What the others leave alone -/

/-- What a unit is noted with, and more: the slots, the prefilled lane and the requests that are
ready. -/
structure SameView (s s' : State) : Prop where
  slots : s'.slots = s.slots
  prefillLane : s'.schedule.prefillLane = s.schedule.prefillLane
  ready : ∀ id, (s'.reqs id).job.decodeReady = (s.reqs id).job.decodeReady

theorem SameView.trans (h : SameView s s') (h' : SameView s' s'') : SameView s s'' :=
  ⟨h'.slots.trans h.slots, h'.prefillLane.trans h.prefillLane,
    fun id => (h'.ready id).trans (h.ready id)⟩

theorem Calm.sameView (h : Calm s s') : SameView s s' :=
  ⟨h.slots, h.prefillLane, fun id => (h.job id).decodeReady⟩

theorem sameView_of_rely (h : Rely o s s') : SameView s s' := (calm_of_rely h).sameView

theorem SameView.readyLanes (h : SameView s s') (n : Nat) :
    Executor.readyLanes n s' = Executor.readyLanes n s := by
  simp only [Executor.readyLanes, h.slots, h.ready]

theorem SameView.unitAt (h : SameView s s') (n : Nat) (kind : UnitKind) :
    Executor.unitAt n kind s' = Executor.unitAt n kind s := by
  rw [Executor.unitAt, Executor.unitAt, h.readyLanes, h.prefillLane]

theorem SameView.allowed (h : SameView s s') {kind : UnitKind} (ha : Allowed o t kind s) :
    Allowed o t kind s' := by
  rw [Allowed, h.unitAt]
  exact ha

theorem mem_readyLanes {n : Nat} :
    lane ∈ readyLanes n s ↔ lane < n ∧ ∃ id, s.slots lane = some id ∧
      (s.reqs id).job.decodeReady = true := by
  rw [readyLanes, List.mem_filter, List.mem_range]
  refine and_congr_right fun _ => ?_
  cases s.slots lane <;> simp

theorem readyLanes_eq_nil {n : Nat} :
    readyLanes n s = [] ↔ ∀ lane < n, ∀ id, s.slots lane = some id →
      (s.reqs id).job.decodeReady = false := by
  rw [List.eq_nil_iff_forall_not_mem]
  refine forall_congr' fun lane => ?_
  rw [mem_readyLanes]
  simp

theorem notes_stable : (notes o).Stable (CallerStep o.maxOutstanding) := by
  intro β q s s' t h
  have hview : SameView s s' := sameView_of_rely (.single h)
  cases hq : q.unit with
  | some kind => rw [notes_unit hq, notes_unit hq, hview.unitAt]
  | none => simp only [notes, hq]

/-! ## Programs of the worker with their notes -/

/-- A program of the worker among the callers, with the notes. -/
abbrev Noted (o : Options) (p : Worker α) (Q : α → State → History → Prop) (s : State)
    (t : History) : Prop :=
  p.WpNoted (notes o) anyAnswer (Rely o) Alternates Q (fun _ _ _ => True) s t

/-- A program that runs no unit leaves the history alone. -/
theorem noted_of_unitFree {p : Worker α} {G : State → State → Prop} {Q : α → State → Prop}
    {X : Failure → State → Prop} (hp : UnitFree p) (h : p.WpIn anyAnswer (Rely o) G Q X s)
    (ht : PassOver t) (hI : Alternates t) :
    Noted o p (fun a s' t' => Q a s' ∧ t' = t) s t :=
  (h.noted hp (fun q s hq => notes_ask ht q s hq) (notes_act ht) hI).mono (fun _ _ _ h => h)
    fun _ _ _ _ => trivial

/-- Such a program that is calm besides. -/
theorem noted_calm {p : Worker α} {G : State → State → Prop} {Q : α → State → Prop}
    {X : Failure → State → Prop} (hp : UnitFree p) (hc : IsCalm anyAnswer p)
    (h : p.WpIn anyAnswer (Rely o) G Q X s) (ht : PassOver t) (hI : Alternates t) :
    Noted o p (fun a s' t' => Q a s' ∧ Calm s s' ∧ t' = t) s t :=
  (noted_of_unitFree hp (h.and_always Calm.refl Calm.trans calm_of_rely hc) ht hI).mono
    (fun _ _ _ h => ⟨h.1.1, h.1.2, h.2⟩) fun _ _ _ h => h

/-- Such a program, of which nothing is known, returns and throws with the history as it was. -/
theorem wpNoted_true {p : Worker α} (hp : UnitFree p) (ht : PassOver t) (hI : Alternates t)
    (s : State) :
    p.WpNoted (notes o) anyAnswer (Rely o) Alternates (fun _ _ t' => t' = t) (fun _ _ t' => t' = t)
      s t :=
  ((Prog.wp_true p s).noted hp (fun q s hq => notes_ask ht q s hq) (notes_act ht) hI).mono
    (fun _ _ _ h => h.2) fun _ _ _ h => h.2

theorem noted_true {p : Worker α} (hp : UnitFree p) (ht : PassOver t) (hI : Alternates t)
    (s : State) : Noted o p (fun _ _ t' => t' = t) s t :=
  (wpNoted_true hp ht hI s).mono (fun _ _ _ h => h) fun _ _ _ _ => trivial

theorem noted_read {β : Type} {g : State → α} {k : α → Worker β} {Q : β → State → History → Prop}
    (ht : PassOver t) (hI : Alternates t) (h : ∀ s', Rely o s s' → Noted o (k (g s')) Q s' t) :
    Noted o (readState g >>= k) Q s t := by
  intro s' hr
  rw [notes_act ht]
  exact ⟨hI, h s' hr⟩

/-- **A unit on the GPU is noted** when it starts, and is followed by programs that run none. -/
theorem gpuUnit_noted {β : Type} {q : Oracle (Except Failure α)} {kind : UnitKind}
    {k : α → Worker β} (hq : q.unit = some kind) (hk : ∀ a, UnitFree (k a)) (ht : PassOver t)
    (hI : Alternates t) (ha : Allowed o t kind s) :
    (gpuUnit q >>= k).WpNoted (notes o) anyAnswer (Rely o) Alternates
      (fun _ _ t' => t' = .unit (unitAt o.maxConcurrency kind s) :: t)
      (fun _ _ t' => t' = .unit (unitAt o.maxConcurrency kind s) :: t) s t := by
  have hlawful := hI.unit ha
  refine Prog.wpNoted_seq (Q := fun _ _ t' => t' = .unit (unitAt o.maxConcurrency kind s) :: t) ?_
    fun a s' t' h => ?_
  · -- The unit is counted, and then it starts.
    refine Prog.wpNoted_seq (Q := fun _ s' t' => SameView s s' ∧ t' = t) (fun s₁ hr => ?_)
      fun _ s₂ t₂ h => ?_
    · rw [notes_act ht]
      exact ⟨hI, { sameView_of_rely hr with }, rfl⟩
    obtain ⟨hview, rfl⟩ := h
    have hnote : (notes o).ask q s₂ t₂ = .unit (unitAt o.maxConcurrency kind s) :: t₂ := by
      rw [notes_unit hq, hview.unitAt]
    refine ⟨hnote ▸ hlawful, fun b _ => ?_⟩
    rw [hnote]
    cases b <;> rfl
  · rw [h]
    exact wpNoted_true (hk a) (show PassOver (.unit _ :: t) from trivial) hlawful s'

end Ninfer.Executor
