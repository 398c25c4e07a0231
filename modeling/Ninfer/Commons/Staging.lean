import Mathlib

/-!
# Staged copies on an asynchronous queue

A host fills staging buffers and queues copies out of them to a device, which executes its queue in
order and at its own pace. A record on the queue lets the host wait until everything queued before
it is done. A program that waits for a buffer before it fills it again leaves, in every
interleaving, the memory it leaves when each copy is done at once.

## Main definitions

* `Action`, `Command`: what the host does, and what is on the queue of the device
* `Machine`, `Step`: the two with their buffers and memory, and their interleaving
* `Disciplined`: no buffer is filled while a copy out of it may be queued
* `serial`: the memory a program leaves when the device has no queue
* `Batch`: a buffer filled once, the copies out of it, and the record that ends them

## Main results

* `Machine.Sound.not_reads`: in a disciplined program no copy is queued out of a buffer that the
  host fills
* `Machine.complete`, `Machine.exists_step`, `Step.size_lt`: every interleaving ends, with the
  memory of the serial execution
* `serial_batches`: what batches leave at an address
-/

namespace Ninfer.Staging

variable {α : Type}

/-- What the host does. -/
inductive Action (α : Type)
  | wait (slot : Nat)
  | fill (slot : Nat) (data : List α)
  | copy (slot offset amount destination : Nat)
  | record (slot : Nat)
  | synchronize
  deriving DecidableEq, Repr

/-- What is on the queue of the device. -/
inductive Command
  | copy (slot offset amount destination : Nat)
  | record (slot : Nat)
  deriving DecidableEq, Repr

/-- The contents of the buffers, by slot and offset. -/
abbrev Buffers (α : Type) : Type := Nat → Nat → α

/-- The buffers after one is filled from its start. -/
def fill (buffers : Buffers α) (slot : Nat) (data : List α) : Buffers α :=
  fun s i => if s = slot then data[i]?.getD (buffers s i) else buffers s i

/-- The memory after a command. -/
def Command.run (buffers : Buffers α) : Command → (Nat → α) → Nat → α
  | .copy slot offset amount destination, memory => fun a =>
    if destination ≤ a ∧ a < destination + amount then
      buffers slot (offset + (a - destination))
    else memory a
  | .record _, memory => memory

/-- The host with the rest of its program, and the device. -/
structure Machine (α : Type) where
  program : List (Action α)
  buffers : Buffers α
  queue : List Command
  memory : Nat → α

/-- One step of the host or of the device. The host waits for a buffer until no record of it is
queued. -/
inductive Step : Machine α → Machine α → Prop
  | device {program : List (Action α)} {buffers : Buffers α} {command : Command}
      {queue : List Command} {memory : Nat → α} :
      Step ⟨program, buffers, command :: queue, memory⟩
        ⟨program, buffers, queue, command.run buffers memory⟩
  | wait {slot : Nat} {program : List (Action α)} {buffers : Buffers α} {queue : List Command}
      {memory : Nat → α} (done : .record slot ∉ queue) :
      Step ⟨.wait slot :: program, buffers, queue, memory⟩ ⟨program, buffers, queue, memory⟩
  | fill {slot : Nat} {data : List α} {program : List (Action α)} {buffers : Buffers α}
      {queue : List Command} {memory : Nat → α} :
      Step ⟨.fill slot data :: program, buffers, queue, memory⟩
        ⟨program, Staging.fill buffers slot data, queue, memory⟩
  | copy {slot offset amount destination : Nat} {program : List (Action α)} {buffers : Buffers α}
      {queue : List Command} {memory : Nat → α} :
      Step ⟨.copy slot offset amount destination :: program, buffers, queue, memory⟩
        ⟨program, buffers, queue ++ [.copy slot offset amount destination], memory⟩
  | record {slot : Nat} {program : List (Action α)} {buffers : Buffers α} {queue : List Command}
      {memory : Nat → α} :
      Step ⟨.record slot :: program, buffers, queue, memory⟩
        ⟨program, buffers, queue ++ [.record slot], memory⟩
  | synchronize {program : List (Action α)} {buffers : Buffers α} {memory : Nat → α} :
      Step ⟨.synchronize :: program, buffers, [], memory⟩ ⟨program, buffers, [], memory⟩

/-- A command copies out of a slot. -/
def Command.Reads (slot : Nat) : Command → Prop
  | .copy s _ _ _ => s = slot
  | .record _ => False

@[simp] theorem Command.reads_copy {slot s offset amount destination : Nat} :
    Command.Reads slot (.copy s offset amount destination) ↔ s = slot := Iff.rfl

@[simp] theorem Command.reads_record {slot s : Nat} : ¬Command.Reads slot (.record s) := id

/-- The program fills no slot that is busy: one out of which a copy may be queued. A copy out of a
slot that is not loose has a record of the slot after it. -/
def Disciplined : Set Nat → Set Nat → List (Action α) → Prop
  | _, _, [] => True
  | busy, loose, .wait slot :: program =>
    Disciplined {s | s ∈ busy ∧ (s = slot → s ∈ loose)} loose program
  | busy, loose, .fill slot _ :: program => slot ∉ busy ∧ Disciplined busy loose program
  | busy, loose, .copy slot _ _ _ :: program =>
    Disciplined (insert slot busy) (insert slot loose) program
  | busy, loose, .record slot :: program => Disciplined busy (loose \ {slot}) program
  | _, _, .synchronize :: program => Disciplined ∅ ∅ program

/-- A program that is disciplined when more may be queued is disciplined. -/
theorem Disciplined.mono {busy busy' loose loose' : Set Nat} {program : List (Action α)}
    (h : Disciplined busy loose program) (hbusy : busy' ⊆ busy) (hloose : loose' ⊆ loose) :
    Disciplined busy' loose' program := by
  induction program generalizing busy busy' loose loose' with
  | nil => trivial
  | cons action program ih =>
    cases action with
    | wait slot => exact ih h (fun s hs => ⟨hbusy hs.1, fun he => hloose (hs.2 he)⟩) hloose
    | fill slot data => exact ⟨fun hs => h.1 (hbusy hs), ih h.2 hbusy hloose⟩
    | copy slot offset amount destination =>
      exact ih h (Set.insert_subset_insert hbusy) (Set.insert_subset_insert hloose)
    | record slot => exact ih h hbusy (Set.sdiff_subset_sdiff_left hloose)
    | synchronize => exact ih h subset_rfl subset_rfl

/-- The memory that a program leaves when every copy is done at once. -/
def serial (buffers : Buffers α) (memory : Nat → α) : List (Action α) → Nat → α
  | [] => memory
  | .fill slot data :: program => serial (fill buffers slot data) memory program
  | .copy slot offset amount destination :: program =>
    serial buffers (Command.run buffers (.copy slot offset amount destination) memory) program
  | .wait _ :: program | .record _ :: program | .synchronize :: program =>
    serial buffers memory program

/-- The memory once the queue is done. -/
def drained (buffers : Buffers α) (queue : List Command) (memory : Nat → α) : Nat → α :=
  queue.foldl (fun m command => command.run buffers m) memory

/-- A command that does not read a slot does the same whatever is filled in there. -/
theorem Command.run_fill {command : Command} {slot : Nat} (h : ¬command.Reads slot)
    (buffers : Buffers α) (data : List α) (memory : Nat → α) :
    command.run (fill buffers slot data) memory = command.run buffers memory := by
  cases command with
  | record s => rfl
  | copy s offset amount destination =>
    have hs : s ≠ slot := h
    funext a
    simp [Command.run, fill, hs]

theorem drained_fill {queue : List Command} {slot : Nat}
    (h : ∀ command ∈ queue, ¬command.Reads slot) (buffers : Buffers α) (data : List α)
    (memory : Nat → α) :
    drained (fill buffers slot data) queue memory = drained buffers queue memory := by
  induction queue generalizing memory with
  | nil => rfl
  | cons command queue ih =>
    simp only [List.mem_cons, forall_eq_or_imp] at h
    simp only [drained, List.foldl_cons] at ih ⊢
    rw [Command.run_fill h.1, ih h.2]

namespace Machine

/-- The memory that a machine leaves if its host goes on with no queue. -/
def outcome (m : Machine α) : Nat → α :=
  serial m.buffers (drained m.buffers m.queue m.memory) m.program

/-- How many steps a machine can still do. -/
def size (m : Machine α) : Nat := 2 * m.program.length + m.queue.length

/-- What the discipline of the rest of the program says of the queue. -/
def Sound (m : Machine α) : Prop :=
  ∃ busy loose : Set Nat, Disciplined busy loose m.program ∧
    (∀ s, ∀ command ∈ m.queue, command.Reads s → s ∈ busy) ∧
    ∀ s before command after, m.queue = before ++ command :: after → command.Reads s →
      s ∈ loose ∨ .record s ∈ after

/-- A disciplined host that starts with an empty queue is sound. -/
theorem Sound.start {program : List (Action α)} {buffers : Buffers α} {memory : Nat → α}
    (h : Disciplined ∅ ∅ program) : Sound ⟨program, buffers, [], memory⟩ := by
  refine ⟨∅, ∅, h, by simp, ?_⟩
  intro s before command after hqueue
  simp at hqueue

/-- **No race**: when the host fills a buffer, no copy out of it is queued. -/
theorem Sound.not_reads {slot : Nat} {data : List α} {program : List (Action α)}
    {buffers : Buffers α} {queue : List Command} {memory : Nat → α}
    (h : Sound ⟨.fill slot data :: program, buffers, queue, memory⟩) :
    ∀ command ∈ queue, ¬command.Reads slot := by
  obtain ⟨busy, loose, hprogram, hbusy, -⟩ := h
  exact fun command hc hr => hprogram.1 (hbusy slot command hc hr)

end Machine

open Machine

/-- A queued copy with one more command at the end of the queue. -/
theorem split_concat {queue before after : List Command} {last command : Command}
    (h : queue ++ [last] = before ++ command :: after) :
    (after = [] ∧ command = last ∧ before = queue) ∨
      ∃ rest, after = rest ++ [last] ∧ queue = before ++ command :: rest := by
  rcases List.eq_nil_or_concat after with rfl | ⟨rest, c, rfl⟩
  · obtain ⟨rfl, hc⟩ := List.append_inj' h rfl
    simp only [List.cons.injEq, and_true] at hc
    exact Or.inl ⟨rfl, hc.symm, rfl⟩
  · rw [List.concat_eq_append, ← List.cons_append, ← List.append_assoc] at h
    obtain ⟨hq, hc⟩ := List.append_inj' h rfl
    simp only [List.cons.injEq, and_true] at hc
    exact Or.inr ⟨rest, by rw [List.concat_eq_append, hc], hq⟩

/-- A host that still waits for the device in the end, or is done together with it. -/
def Machine.Settles (m : Machine α) : Prop :=
  m.program.getLast? = some .synchronize ∨ m.program = [] ∧ m.queue = []

theorem Step.settles {m m' : Machine α} (hstep : Step m m') (h : m.Settles) : m'.Settles := by
  -- an action that is not the last one leaves the last one
  have hlast : ∀ (action : Action α) (program : List (Action α)), action ≠ .synchronize →
      (action :: program).getLast? = some .synchronize → program.getLast? = some .synchronize := by
    intro action program hne hl
    cases program with
    | nil => exact absurd (by simpa using hl) hne
    | cons next program => simpa using hl
  rcases h with h | ⟨hprogram, hqueue⟩
  · cases hstep with
    | device => exact Or.inl h
    | wait done => exact Or.inl (hlast _ _ (by simp) h)
    | fill => exact Or.inl (hlast _ _ (by simp) h)
    | copy => exact Or.inl (hlast _ _ (by simp) h)
    | record => exact Or.inl (hlast _ _ (by simp) h)
    | @synchronize program =>
      cases program with
      | nil => exact Or.inr ⟨rfl, rfl⟩
      | cons next program => exact Or.inl (by simpa using h)
  · cases hstep with
    | device => simp at hqueue
    | _ => simp at hprogram

/-- A step keeps the discipline. -/
theorem Step.sound {m m' : Machine α} (hstep : Step m m') (h : m.Sound) : m'.Sound := by
  obtain ⟨busy, loose, hprogram, hbusy, hloose⟩ := h
  cases hstep with
  | @device _ _ first =>
    refine ⟨busy, loose, hprogram, fun s c hc => hbusy s c (List.mem_cons_of_mem _ hc), ?_⟩
    intro s before c after hqueue
    exact hloose s (first :: before) c after (congrArg (List.cons first) hqueue)
  | @wait slot _ _ queue _ done =>
    refine ⟨_, loose, hprogram, ?_, hloose⟩
    intro s c hc hr
    refine ⟨hbusy s c hc hr, fun hs => ?_⟩
    -- a copy out of the slot that is still queued has no record after it
    obtain ⟨before, after, hqueue⟩ := List.append_of_mem hc
    rcases hloose s before c after hqueue hr with hl | hrecord
    · exact hl
    · have hmem : Command.record s ∈ before ++ c :: after :=
        List.mem_append_right before (List.mem_cons_of_mem c hrecord)
      rw [← hqueue, hs] at hmem
      exact absurd hmem done
  | fill => exact ⟨busy, loose, hprogram.2, hbusy, hloose⟩
  | copy =>
    refine ⟨_, _, hprogram, ?_, ?_⟩
    · intro s c hc hr
      rcases List.mem_append.mp hc with hc | hc
      · exact Set.mem_insert_of_mem _ (hbusy s c hc hr)
      · rw [List.mem_singleton.mp hc, Command.reads_copy] at hr
        simp [hr]
    · intro s before c after hqueue hr
      rcases split_concat hqueue with ⟨rfl, rfl, -⟩ | ⟨rest, rfl, hq⟩
      · simp [Command.reads_copy.mp hr]
      · rcases hloose s before c rest hq hr with hl | hrecord
        · exact Or.inl (Set.mem_insert_of_mem _ hl)
        · exact Or.inr (List.mem_append_left _ hrecord)
  | @record slot =>
    refine ⟨busy, _, hprogram, ?_, ?_⟩
    · intro s c hc hr
      rcases List.mem_append.mp hc with hc | hc
      · exact hbusy s c hc hr
      · rw [List.mem_singleton.mp hc] at hr
        exact absurd hr Command.reads_record
    · intro s before c after hqueue hr
      rcases split_concat hqueue with ⟨rfl, rfl, -⟩ | ⟨rest, rfl, hq⟩
      · exact absurd hr Command.reads_record
      · by_cases hs : s = slot
        · exact Or.inr (by simp [hs])
        · rcases hloose s before c rest hq hr with hl | hrecord
          · exact Or.inl ⟨hl, hs⟩
          · exact Or.inr (List.mem_append_left _ hrecord)
  | synchronize => exact Sound.start hprogram

/-- A step of a disciplined machine does not change the outcome. -/
theorem Step.outcome {m m' : Machine α} (hstep : Step m m') (h : m.Sound) :
    m'.outcome = m.outcome := by
  cases hstep with
  | device => rfl
  | wait done => rfl
  | fill =>
    -- the queue does not read what is filled
    simp only [Machine.outcome, serial]
    rw [drained_fill h.not_reads]
  | copy => simp [Machine.outcome, serial, drained]
  | record => simp [Machine.outcome, serial, drained, Command.run]
  | synchronize => rfl

theorem Step.size_lt {m m' : Machine α} (hstep : Step m m') : m'.size < m.size := by
  cases hstep <;> simp [Machine.size] <;> omega

namespace Machine

/-- Until the host and the queue are done, one of the two can go on. -/
theorem exists_step {m : Machine α} (h : m.program ≠ [] ∨ m.queue ≠ []) : ∃ m', Step m m' := by
  obtain ⟨program, buffers, queue, memory⟩ := m
  cases queue with
  | cons command queue => exact ⟨_, Step.device⟩
  | nil =>
    cases program with
    | nil => simp at h
    | cons action program =>
      cases action with
      | wait slot => exact ⟨_, Step.wait (by simp)⟩
      | fill slot data => exact ⟨_, Step.fill⟩
      | copy slot offset amount destination => exact ⟨_, Step.copy⟩
      | record slot => exact ⟨_, Step.record⟩
      | synchronize => exact ⟨_, Step.synchronize⟩

/-- Every state of a disciplined machine is sound, with the outcome of its start. -/
theorem Sound.run {m m' : Machine α} (h : m.Sound) (hrun : Relation.ReflTransGen Step m m') :
    m'.Sound ∧ m'.outcome = m.outcome := by
  induction hrun with
  | refl => exact ⟨h, rfl⟩
  | tail _ hstep ih => exact ⟨hstep.sound ih.1, (hstep.outcome ih.1).trans ih.2⟩

theorem Settles.run {m m' : Machine α} (h : m.Settles) (hrun : Relation.ReflTransGen Step m m') :
    m'.Settles := by
  induction hrun with
  | refl => exact h
  | tail _ hstep ih => exact hstep.settles ih

/-- **The memory does not depend on the interleaving**: when a host that ends with waiting for the
device is done, it is what the host leaves with no queue. -/
theorem complete {program : List (Action α)} {buffers : Buffers α} {memory : Nat → α}
    {m : Machine α} (h : Disciplined ∅ ∅ program) (hlast : program.getLast? = some .synchronize)
    (hrun : Relation.ReflTransGen Step ⟨program, buffers, [], memory⟩ m)
    (hprogram : m.program = []) : m.memory = serial buffers memory program := by
  obtain ⟨-, houtcome⟩ := (Sound.start h).run hrun
  have hqueue : m.queue = [] := by
    have hsettles := Settles.run (Or.inl hlast) hrun
    rcases hsettles with hl | hdone
    · simp [hprogram] at hl
    · exact hdone.2
  simpa [Machine.outcome, hprogram, hqueue, serial, drained] using houtcome

end Machine

/-- A copy out of a buffer. -/
structure Piece where
  offset : Nat
  amount : Nat
  destination : Nat
  deriving DecidableEq, Repr

/-- The copy writes an address. -/
def Piece.Covers (address : Nat) (piece : Piece) : Prop :=
  piece.destination ≤ address ∧ address < piece.destination + piece.amount

instance (address : Nat) (piece : Piece) : Decidable (piece.Covers address) := by
  unfold Piece.Covers
  infer_instance

/-- What a copy out of `data` writes to an address. -/
def Piece.item (data : List α) (address : Nat) (piece : Piece) : Option α :=
  data[piece.offset + (address - piece.destination)]?

/-- A buffer filled once, and the copies out of it. -/
structure Batch (α : Type) where
  waits : Bool
  slot : Nat
  data : List α
  pieces : List Piece

/-- The copies of a batch. -/
def Batch.copies (batch : Batch α) : List (Action α) :=
  batch.pieces.map fun piece => .copy batch.slot piece.offset piece.amount piece.destination

/-- What the host does for a batch. -/
def Batch.actions (batch : Batch α) : List (Action α) :=
  (if batch.waits then [.wait batch.slot] else []) ++
    (.fill batch.slot batch.data :: (batch.copies ++ [.record batch.slot]))

theorem Batch.actions_append (batch : Batch α) (program : List (Action α)) :
    batch.actions ++ program = (if batch.waits then [.wait batch.slot] else []) ++
      (.fill batch.slot batch.data :: (batch.copies ++ (.record batch.slot :: program))) := by
  simp [Batch.actions]

/-- The copies read no more than was filled in. -/
def Batch.Within (batch : Batch α) : Prop :=
  ∀ piece ∈ batch.pieces, piece.offset + piece.amount ≤ batch.data.length

/-- The action queues a copy that writes an address. -/
def Action.Writes (address : Nat) : Action α → Prop
  | .copy _ offset amount destination => Piece.Covers address ⟨offset, amount, destination⟩
  | _ => False

instance (address : Nat) (action : Action α) : Decidable (action.Writes address) := by
  cases action <;> unfold Action.Writes <;> infer_instance

@[simp] theorem Action.writes_wait {address slot : Nat} :
    ¬(.wait slot : Action α).Writes address := id

@[simp] theorem Action.writes_fill {address slot : Nat} {data : List α} :
    ¬(.fill slot data : Action α).Writes address := id

@[simp] theorem Action.writes_record {address slot : Nat} :
    ¬(.record slot : Action α).Writes address := id

@[simp] theorem Action.writes_synchronize {address : Nat} :
    ¬(.synchronize : Action α).Writes address := id

/-- The action neither fills a buffer nor copies out of one. -/
def Action.Quiet : Action α → Prop
  | .fill _ _ | .copy _ _ _ _ => False
  | _ => True

/-- The host writes an address as often as the copies of its batches. -/
theorem countP_batches (address : Nat) (batches : List (Batch α)) :
    (batches.flatMap Batch.actions).countP (fun action => action.Writes address) =
      (batches.flatMap Batch.pieces).countP (fun piece => piece.Covers address) := by
  have hbatch : ∀ batch : Batch α, batch.actions.countP (fun action => action.Writes address) =
      batch.pieces.countP fun piece => piece.Covers address := by
    intro batch
    have hcopies : batch.copies.countP (fun action => action.Writes address) =
        batch.pieces.countP fun piece => piece.Covers address := by
      simp only [Batch.copies, List.countP_map]
      rfl
    unfold Batch.actions
    cases batch.waits <;> simp [hcopies]
  induction batches with
  | nil => rfl
  | cons batch batches ih =>
    rw [List.flatMap_cons, List.flatMap_cons, List.countP_append, List.countP_append, hbatch, ih]

theorem countP_quiet {program : List (Action α)} (h : ∀ action ∈ program, action.Quiet)
    (address : Nat) : program.countP (fun action => action.Writes address) = 0 := by
  rw [List.countP_eq_zero]
  intro action ha
  have hquiet := h action ha
  cases action with
  | copy slot offset amount destination => exact absurd hquiet id
  | _ => simp

theorem disciplined_quiet {program : List (Action α)} (h : ∀ action ∈ program, action.Quiet)
    (busy loose : Set Nat) : Disciplined busy loose program := by
  induction program generalizing busy loose with
  | nil => trivial
  | cons action program ih =>
    simp only [List.mem_cons, forall_eq_or_imp] at h
    cases action with
    | fill slot data => exact absurd h.1 id
    | copy slot offset amount destination => exact absurd h.1 id
    | wait slot => exact ih h.2 _ _
    | record slot => exact ih h.2 _ _
    | synchronize => exact ih h.2 _ _

theorem serial_quiet {program : List (Action α)} (h : ∀ action ∈ program, action.Quiet)
    (buffers : Buffers α) (memory : Nat → α) : serial buffers memory program = memory := by
  induction program with
  | nil => rfl
  | cons action program ih =>
    simp only [List.mem_cons, forall_eq_or_imp] at h
    cases action with
    | fill slot data => exact absurd h.1 id
    | copy slot offset amount destination => exact absurd h.1 id
    | wait slot => exact ih h.2
    | record slot => exact ih h.2
    | synchronize => exact ih h.2

/-- What no copy writes stays as it was. -/
theorem serial_of_not_writes {program : List (Action α)} {address : Nat}
    (h : ∀ action ∈ program, ¬action.Writes address) (buffers : Buffers α) (memory : Nat → α) :
    serial buffers memory program address = memory address := by
  induction program generalizing buffers memory with
  | nil => rfl
  | cons action program ih =>
    simp only [List.mem_cons, forall_eq_or_imp] at h
    cases action with
    | copy slot offset amount destination => exact (ih h.2 _ _).trans (if_neg h.1)
    | fill slot data => exact ih h.2 _ _
    | wait slot => exact ih h.2 _ _
    | record slot => exact ih h.2 _ _
    | synchronize => exact ih h.2 _ _

/-- A batch that waits for a slot that is busy keeps the discipline, and its slot is busy after
it. -/
theorem Disciplined.batch {batch : Batch α} {busy : Set Nat} {program : List (Action α)}
    (h : Disciplined (insert batch.slot busy) ∅ program)
    (hwaits : batch.slot ∈ busy → batch.waits = true) :
    Disciplined busy ∅ (batch.actions ++ program) := by
  have hcopies : ∀ (pieces : List Piece) (b l : Set Nat), b ⊆ insert batch.slot busy →
      l ⊆ {batch.slot} → Disciplined b l
        ((pieces.map fun piece => Action.copy batch.slot piece.offset piece.amount
          piece.destination) ++ (.record batch.slot :: program)) := by
    intro pieces
    induction pieces with
    | nil =>
      intro b l hb hl
      exact h.mono hb (by simpa [Set.sdiff_eq_empty] using hl)
    | cons piece pieces ih =>
      intro b l hb hl
      exact ih _ _ (Set.insert_subset (Set.mem_insert _ _) hb)
        (Set.insert_subset (Set.mem_singleton _) hl)
  have hfill : ∀ b : Set Nat, b ⊆ busy → batch.slot ∉ b → Disciplined b ∅
      (.fill batch.slot batch.data :: (batch.copies ++ (.record batch.slot :: program))) := by
    intro b hb hslot
    refine ⟨hslot, ?_⟩
    exact hcopies _ _ _ (hb.trans (Set.subset_insert _ _)) (Set.empty_subset _)
  rw [Batch.actions_append]
  by_cases hw : batch.waits = true
  · rw [if_pos hw]
    exact hfill _ (fun s hs => hs.1) fun hs => hs.2 rfl
  · rw [if_neg hw]
    exact hfill _ subset_rfl fun hs => hw (hwaits hs)

/-- What the copies of a batch leave at an address. -/
theorem serial_copies {slot : Nat} {data : List α} {pieces : List Piece} {address : Nat} {a : α}
    (buffers : Buffers α) (memory : Nat → α) (program : List (Action α))
    (hdata : ∀ i b, data[i]? = some b → buffers slot i = b)
    (hcovered : ∀ piece ∈ pieces, piece.Covers address → piece.item data address = some a) :
    ∃ memory', serial buffers memory ((pieces.map fun piece => Action.copy slot piece.offset
        piece.amount piece.destination) ++ program) = serial buffers memory' program ∧
      (memory address = a ∨ (∃ piece ∈ pieces, piece.Covers address) → memory' address = a) := by
  induction pieces generalizing memory with
  | nil =>
    refine ⟨memory, rfl, ?_⟩
    rintro (hm | ⟨piece, hp, -⟩)
    · exact hm
    · cases hp
  | cons piece pieces ih =>
    simp only [List.mem_cons, forall_eq_or_imp] at hcovered
    obtain ⟨memory', hserial, hmemory⟩ := ih
      (Command.run buffers (.copy slot piece.offset piece.amount piece.destination) memory)
      hcovered.2
    refine ⟨memory', hserial, fun h => hmemory ?_⟩
    by_cases hc : piece.Covers address
    · exact Or.inl ((if_pos hc).trans (hdata _ _ (hcovered.1 hc)))
    · rcases h with hm | ⟨p, hp, hpc⟩
      · exact Or.inl ((if_neg hc).trans hm)
      · rcases List.mem_cons.mp hp with rfl | hp
        · exact absurd hpc hc
        · exact Or.inr ⟨p, hp, hpc⟩

/-- **What batches leave at an address**: if every copy that writes the address brings the same item
there and one of them does, that item. -/
theorem serial_batches {batches : List (Batch α)} {address : Nat} {a : α} (buffers : Buffers α)
    (memory : Nat → α) (program : List (Action α))
    (hcovered : ∀ batch ∈ batches, ∀ piece ∈ batch.pieces, piece.Covers address →
      piece.item batch.data address = some a) :
    ∃ buffers' memory', serial buffers memory (batches.flatMap Batch.actions ++ program) =
        serial buffers' memory' program ∧
      (memory address = a ∨ (∃ batch ∈ batches, ∃ piece ∈ batch.pieces, piece.Covers address) →
        memory' address = a) := by
  induction batches generalizing buffers memory with
  | nil =>
    refine ⟨buffers, memory, rfl, ?_⟩
    rintro (hm | ⟨batch, hb, -⟩)
    · exact hm
    · cases hb
  | cons batch batches ih =>
    simp only [List.mem_cons, forall_eq_or_imp] at hcovered
    have hdata : ∀ i b, batch.data[i]? = some b →
        fill buffers batch.slot batch.data batch.slot i = b := by
      intro i b hb
      simp [fill, hb]
    obtain ⟨memory₁, hserial₁, hmemory₁⟩ := serial_copies _ memory
      (.record batch.slot :: (batches.flatMap Batch.actions ++ program)) hdata hcovered.1
    obtain ⟨buffers', memory', hserial, hmemory⟩ := ih
      (fill buffers batch.slot batch.data) memory₁ hcovered.2
    refine ⟨buffers', memory', ?_, fun h => hmemory ?_⟩
    · rw [← hserial]
      have hactions : serial buffers memory ((batch :: batches).flatMap Batch.actions ++ program) =
          serial (fill buffers batch.slot batch.data) memory (batch.copies ++
            (.record batch.slot :: (batches.flatMap Batch.actions ++ program))) := by
        rw [List.flatMap_cons, List.append_assoc, Batch.actions_append]
        cases batch.waits <;> rfl
      exact hactions.trans hserial₁
    · rcases h with hm | ⟨b, hb, hpiece⟩
      · exact Or.inl (hmemory₁ (Or.inl hm))
      · rcases List.mem_cons.mp hb with rfl | hb
        · exact Or.inl (hmemory₁ (Or.inr hpiece))
        · exact Or.inr ⟨b, hb, hpiece⟩

end Ninfer.Staging
