import Mathlib

/-!
# Scopes over a stack of allocations

An allocator with one position: what is placed lies above it and moves it up, a scope saves it, and
the destructor of the scope puts it back, so that what comes later reuses the space. Scope objects
can be moved from, and then own nothing. As long as the scopes are closed in stack order, nothing is
placed over something whose scope is open.

## Main definitions

* `Scopes`: the scope objects of a program and the scopes that are open
* `Scopes.Closes`: a destructor closes the innermost scope or none
* `Placed`, `Placed.OpenIn`, `Scopes.live`: what was placed in which scopes, and what is still alive
* `Scopes.Sound`: the invariant of a program whose scopes are closed in stack order

## Main results

* `Scopes.Sound.place`, `Scopes.Sound.openScope`, `Scopes.Sound.moveScope`,
  `Scopes.Sound.closeScope`: every operation keeps the invariant
* `Scopes.Sound.live_pairwise`: what is alive has no byte in common
-/

namespace Ninfer

variable {α : Type*}

/-- A scope object: whether its pointer to the allocator is set, the position it saved, and which of
the scopes opened so far it is. Moving a scope object moves the scope. -/
structure Scope where
  owns : Bool
  saved : Nat
  scope : Nat
  deriving DecidableEq, Repr

/-- The scopes of a program: the scope objects by the order of their construction with none for the
destroyed ones, how many scopes were opened, and those that are open, the innermost first. -/
structure Scopes where
  objects : List (Option Scope) := []
  opened : Nat := 0
  stack : List Nat := []
  deriving DecidableEq, Repr

namespace Scopes

/-- The scope object `object`, if it was constructed and is not destroyed. -/
def object? (s : Scopes) (object : Nat) : Option Scope := s.objects[object]?.join

/-- A scope is opened at a position. -/
def openScope (s : Scopes) (position : Nat) : Scopes where
  objects := s.objects ++ [some ⟨true, position, s.opened⟩]
  opened := s.opened + 1
  stack := s.opened :: s.stack

/-- The move constructor from the scope object `source`. -/
def moveScope (s : Scopes) (source : Nat) : Scopes :=
  match s.object? source with
  | some scope =>
    { s with objects := s.objects.set source (some { scope with owns := false }) ++ [some scope] }
  | none => s

/-- The destructor of the scope object `object`, with the position that its scope saved. -/
def closeScope (s : Scopes) (object : Nat) : Option Nat × Scopes :=
  match s.object? object with
  | some scope =>
    if scope.owns then
      (some scope.saved, { s with
        objects := s.objects.set object none
        stack := s.stack.erase scope.scope })
    else (none, { s with objects := s.objects.set object none })
  | none => (none, s)

/-- A scope object that is destroyed owns the innermost open scope or none. -/
def Closes (s : Scopes) (object : Nat) : Prop :=
  ∀ scope ∈ s.object? object, scope.owns → s.stack.head? = some scope.scope

end Scopes

/-- Something that was placed, with the scopes that were open then, the innermost first. -/
structure Placed (α : Type*) where
  item : α
  within : List Nat
  deriving DecidableEq, Repr

/-- The scope something was placed in is one of `scopes`. What is placed outside all scopes is in
the allocator itself, which is never closed. -/
def Placed.OpenIn (p : Placed α) (scopes : List Nat) : Prop :=
  ∀ scope ∈ p.within.head?, scope ∈ scopes

instance (p : Placed α) (scopes : List Nat) : Decidable (p.OpenIn scopes) := by
  unfold Placed.OpenIn
  infer_instance

/-- Two ranges have no byte in common. -/
def Apart (lo hi : α → Nat) (a b : α) : Prop := hi a ≤ lo b ∨ hi b ≤ lo a

namespace Scopes

/-- What is alive: what was placed in a scope that is open. -/
def live (s : Scopes) (placed : List (Placed α)) : List α :=
  (placed.filter fun p => p.OpenIn s.stack).map Placed.item

/-! ## Nesting -/

/-- What lies in the scopes among `scopes` ends below `top`. -/
def Below (hi : α → Nat) (top : Nat) (placed : List (Placed α)) (scopes : List Nat) : Prop :=
  ∀ p ∈ placed, p.OpenIn scopes → hi p.item ≤ top

/-- The open scopes with the positions they saved, the innermost first: what was placed before a
scope was opened, in the scopes around it, ends below the position it saved. -/
def Nested (hi : α → Nat) (base : Nat) (placed : List (Placed α)) : Nat → List (Nat × Nat) → Prop
  | top, [] => Below hi (base + top) placed []
  | top, mark :: rest =>
    Below hi (base + top) placed (mark.1 :: rest.map Prod.fst) ∧ mark.2 ≤ top ∧
      Nested hi base placed mark.2 rest

namespace Nested

variable {hi : α → Nat} {base top : Nat} {placed : List (Placed α)} {marks : List (Nat × Nat)}

theorem below (h : Nested hi base placed top marks) :
    Below hi (base + top) placed (marks.map Prod.fst) := by
  cases marks with
  | nil => exact h
  | cons mark rest => exact h.1

/-- Something in a scope that is not among the marks says nothing about them. -/
theorem cons_of_not_open (h : Nested hi base placed top marks) {p : Placed α} {scope : Nat}
    (hscope : scope ∈ p.within.head?) (hout : scope ∉ marks.map Prod.fst) :
    Nested hi base (p :: placed) top marks := by
  -- by induction on the open scopes, from the innermost outwards
  induction marks generalizing top with
  | nil =>
    intro q hq hopen
    rcases List.mem_cons.mp hq with rfl | hq
    · exact absurd (hopen scope hscope) hout
    · exact h q hq hopen
  | cons mark rest ih =>
    obtain ⟨hbelow, hle, hrest⟩ := h
    refine ⟨?_, hle, ih hrest ?_⟩
    · intro q hq hopen
      rcases List.mem_cons.mp hq with rfl | hq
      · exact absurd (hopen scope hscope) hout
      · exact hbelow q hq hopen
    · intro hmem
      exact hout (List.mem_cons_of_mem _ hmem)

/-- Something placed above the position moves it up. -/
theorem push (h : Nested hi base placed top marks) {p : Placed α} {top' : Nat}
    (hwithin : p.within = marks.map Prod.fst) (hnodup : (marks.map Prod.fst).Nodup)
    (hle : top ≤ top') (hend : hi p.item ≤ base + top') :
    Nested hi base (p :: placed) top' marks := by
  have hbelow : Below hi (base + top') (p :: placed) (marks.map Prod.fst) := by
    intro q hq hopen
    rcases List.mem_cons.mp hq with rfl | hq
    · exact hend
    · exact Nat.le_trans (h.below q hq hopen) (Nat.add_le_add_left hle base)
  cases marks with
  | nil => exact hbelow
  | cons mark rest =>
    obtain ⟨-, hsaved, hrest⟩ := h
    refine ⟨hbelow, Nat.le_trans hsaved hle, ?_⟩
    have hscope : mark.1 ∈ p.within.head? := by simp [hwithin]
    exact hrest.cons_of_not_open hscope (List.nodup_cons.mp hnodup).1

/-- A scope that nothing was placed in saves the position. -/
theorem opened (h : Nested hi base placed top marks) {scope : Nat}
    (hfresh : ∀ p ∈ placed, scope ∉ p.within.head?) :
    Nested hi base placed top ((scope, top) :: marks) := by
  refine ⟨?_, Nat.le_refl _, h⟩
  intro p hp hopen
  apply h.below p hp
  intro s hs
  rcases List.mem_cons.mp (hopen s hs) with rfl | hmem
  · exact absurd hs (hfresh p hp)
  · exact hmem

end Nested

/-! ## Ownership -/

/-- The scope objects own the scopes of `marks`, with the positions they saved, no two the same. -/
structure Owned (objects : List (Option Scope)) (marks : List (Nat × Nat)) : Prop where
  mark : ∀ (i : Nat) (o : Scope), objects[i]?.join = some o → o.owns → (o.scope, o.saved) ∈ marks
  unique : ∀ (i j : Nat) (o o' : Scope), objects[i]?.join = some o →
    objects[j]?.join = some o' → o.owns → o'.owns → o.scope = o'.scope → i = j

namespace Owned

variable {objects objects' : List (Option Scope)} {marks : List (Nat × Nat)}

/-- Scopes that every object has from an object of its own stay owned. -/
theorem transfer (h : Owned objects marks) (origin : Nat → Nat)
    (horigin : ∀ (i : Nat) (o : Scope), objects'[i]?.join = some o → o.owns →
      objects[origin i]?.join = some o)
    (hinj : ∀ (i j : Nat) (o o' : Scope), objects'[i]?.join = some o →
      objects'[j]?.join = some o' → o.owns → o'.owns → origin i = origin j → i = j) :
    Owned objects' marks where
  mark i o hi howns := h.mark _ o (horigin i o hi howns) howns
  unique i j o o' hi hj howns howns' heq :=
    hinj i j o o' hi hj howns howns' (h.unique _ _ o o' (horigin i o hi howns)
      (horigin j o' hj howns') howns howns' heq)

theorem of_destroyed {object i : Nat} {o : Scope}
    (h : (objects.set object none)[i]?.join = some o) :
    i ≠ object ∧ objects[i]?.join = some o := by
  by_cases hne : object = i
  · subst hne
    rw [List.getElem?_set_self'] at h
    cases hget : objects[object]? <;> simp [hget] at h
  · rw [List.getElem?_set_ne hne] at h
    exact ⟨Ne.symm hne, h⟩

theorem destroyed (h : Owned objects marks) (object : Nat) :
    Owned (objects.set object none) marks := by
  apply h.transfer id
  · intro i o hi _
    exact (of_destroyed hi).2
  · intro i j _ _ _ _ _ _ heq
    exact heq

/-- A scope that is closed leaves with its object. -/
theorem closed {object : Nat} {o : Scope} {rest : List (Nat × Nat)}
    (h : Owned objects ((o.scope, o.saved) :: rest)) (hobject : objects[object]?.join = some o)
    (howns : o.owns) : Owned (objects.set object none) rest := by
  refine ⟨?_, (h.destroyed object).unique⟩
  intro i o' hi howns'
  obtain ⟨hne, hi⟩ := of_destroyed hi
  rcases List.mem_cons.mp (h.mark i o' hi howns') with heq | hmem
  · exact absurd (h.unique i object o' o hi hobject howns' howns (congrArg Prod.fst heq)) hne
  · exact hmem

theorem opened (h : Owned objects marks) {scope saved : Nat}
    (hfresh : scope ∉ marks.map Prod.fst) :
    Owned (objects ++ [some ⟨true, saved, scope⟩]) ((scope, saved) :: marks) := by
  have hold : ∀ (i : Nat) (o : Scope),
      (objects ++ [some ⟨true, saved, scope⟩])[i]?.join = some o →
      (i < objects.length ∧ objects[i]?.join = some o) ∨
        (i = objects.length ∧ o = ⟨true, saved, scope⟩) := by
    intro i o hi
    rcases Nat.lt_trichotomy i objects.length with hlt | rfl | hgt
    · rw [List.getElem?_append_left hlt] at hi
      exact Or.inl ⟨hlt, hi⟩
    · rw [List.getElem?_concat_length] at hi
      cases hi
      exact Or.inr ⟨rfl, rfl⟩
    · rw [List.getElem?_eq_none (by simp; omega)] at hi
      cases hi
  have hne : ∀ (i : Nat) (o : Scope), objects[i]?.join = some o → o.owns → o.scope ≠ scope := by
    rintro i o hi howns rfl
    exact hfresh (List.mem_map_of_mem (h.mark i o hi howns))
  refine ⟨?_, ?_⟩
  · intro i o hi howns
    rcases hold i o hi with ⟨-, hi⟩ | ⟨-, rfl⟩
    · exact List.mem_cons_of_mem _ (h.mark i o hi howns)
    · exact List.mem_cons_self
  · intro i j o o' hi hj howns howns' heq
    rcases hold i o hi with ⟨-, hi⟩ | ⟨rfl, rfl⟩ <;> rcases hold j o' hj with ⟨-, hj⟩ | ⟨rfl, rfl⟩
    · exact h.unique i j o o' hi hj howns howns' heq
    · exact absurd heq (hne i o hi howns)
    · exact absurd heq.symm (hne j o' hj howns')
    · rfl

/-- A scope that is moved has the new object, and the old one owns nothing. -/
theorem moved (h : Owned objects marks) {source : Nat} {o : Scope}
    (hsource : objects[source]?.join = some o) :
    Owned (objects.set source (some { o with owns := false }) ++ [some o]) marks := by
  have hold : ∀ (i : Nat) (o' : Scope),
      (objects.set source (some { o with owns := false }) ++ [some o])[i]?.join = some o' →
      o'.owns → (i < objects.length ∧ i ≠ source ∧ objects[i]?.join = some o') ∨
        (i = objects.length ∧ o' = o) := by
    intro i o' hi howns
    rcases Nat.lt_trichotomy i objects.length with hlt | rfl | hgt
    · rw [List.getElem?_append_left (by simpa using hlt)] at hi
      by_cases hne : source = i
      · subst hne
        rw [List.getElem?_set_self hlt] at hi
        cases hi
        cases howns
      · rw [List.getElem?_set_ne hne] at hi
        exact Or.inl ⟨hlt, Ne.symm hne, hi⟩
    · rw [List.getElem?_append_right (by simp)] at hi
      simp at hi
      exact Or.inr ⟨rfl, hi.symm⟩
    · rw [List.getElem?_eq_none (by simp; omega)] at hi
      cases hi
  apply h.transfer fun i => if i = objects.length then source else i
  · intro i o' hi howns
    rcases hold i o' hi howns with ⟨hlt, -, hi⟩ | ⟨rfl, rfl⟩
    · rwa [if_neg (Nat.ne_of_lt hlt)]
    · rwa [if_pos rfl]
  · intro i j oi oj hi hj howns howns' heq
    rcases hold i oi hi howns with ⟨hi, hni, -⟩ | ⟨rfl, -⟩ <;>
      rcases hold j oj hj howns' with ⟨hj, hnj, -⟩ | ⟨rfl, -⟩
    · rwa [if_neg (Nat.ne_of_lt hi), if_neg (Nat.ne_of_lt hj)] at heq
    · rw [if_neg (Nat.ne_of_lt hi), if_pos rfl] at heq
      exact absurd heq hni
    · rw [if_pos rfl, if_neg (Nat.ne_of_lt hj)] at heq
      exact absurd heq.symm hnj
    · rfl

end Owned

/-! ## The invariant -/

/-- What holds of a program whose scopes are closed in stack order, after any operation: the extents
of what was placed run from `lo` to `hi`, the position is `top` above `base`. -/
structure Sound (lo hi : α → Nat) (base top : Nat) (s : Scopes) (placed : List (Placed α)) :
    Prop where
  fresh : ∀ p ∈ placed, ∀ scope ∈ p.within.head?, scope < s.opened
  stack_lt : ∀ scope ∈ s.stack, scope < s.opened
  nodup : s.stack.Nodup
  nested : ∃ marks, marks.map Prod.fst = s.stack ∧ Owned s.objects marks ∧
    Nested hi base placed top marks
  disjoint : placed.Pairwise fun later earlier =>
    earlier.OpenIn later.within → Apart lo hi earlier.item later.item
  alive : placed.Pairwise fun later earlier =>
    later.OpenIn s.stack → earlier.OpenIn s.stack → Apart lo hi later.item earlier.item

namespace Sound

variable {lo hi : α → Nat} {base top : Nat} {s : Scopes} {placed : List (Placed α)}

theorem start : Sound lo hi base 0 {} [] where
  fresh := by simp
  stack_lt := by simp
  nodup := List.nodup_nil
  nested := ⟨[], rfl, ⟨by simp, by simp⟩, by simp [Nested, Below]⟩
  disjoint := List.Pairwise.nil
  alive := List.Pairwise.nil

/-- **What is alive has no byte in common.** -/
theorem live_pairwise (h : Sound lo hi base top s placed) :
    (s.live placed).Pairwise (Apart lo hi) := by
  rw [live, List.pairwise_map, List.pairwise_filter]
  exact h.alive.imp fun hab ha hb => hab (of_decide_eq_true ha) (of_decide_eq_true hb)

/-- Something is placed above the position, hence above everything whose scope is still open. -/
theorem place (h : Sound lo hi base top s placed) {item : α} {top' : Nat}
    (hlo : base + top ≤ lo item) (hhi : hi item ≤ base + top') (hle : top ≤ top') :
    Sound lo hi base top' s (⟨item, s.stack⟩ :: placed) := by
  obtain ⟨marks, hmarks, howned, hnested⟩ := h.nested
  have hbelow : ∀ p ∈ placed, p.OpenIn s.stack → hi p.item ≤ lo item := by
    intro p hp hopen
    rw [← hmarks] at hopen
    exact Nat.le_trans (hnested.below p hp hopen) hlo
  refine
    { h with
      fresh := ?_
      nested := ⟨marks, hmarks, howned, hnested.push hmarks.symm ?_ hle hhi⟩
      disjoint := List.pairwise_cons.mpr ⟨fun p hp hopen => Or.inl (hbelow p hp hopen), h.disjoint⟩
      alive := List.pairwise_cons.mpr ⟨fun p hp _ hopen => Or.inr (hbelow p hp hopen), h.alive⟩ }
  · intro p hp scope hscope
    rcases List.mem_cons.mp hp with rfl | hp
    · exact h.stack_lt scope (List.mem_of_mem_head? hscope)
    · exact h.fresh p hp scope hscope
  · rw [hmarks]
    exact h.nodup

theorem openScope (h : Sound lo hi base top s placed) :
    Sound lo hi base top (s.openScope top) placed := by
  obtain ⟨marks, hmarks, howned, hnested⟩ := h.nested
  have hnew : s.opened ∉ s.stack := by
    intro hmem
    exact Nat.lt_irrefl _ (h.stack_lt _ hmem)
  have hunplaced : ∀ p ∈ placed, s.opened ∉ p.within.head? := by
    intro p hp hmem
    exact Nat.lt_irrefl _ (h.fresh p hp _ hmem)
  -- nothing was placed in the new scope, so the same is alive
  have hopen : ∀ p ∈ placed, p.OpenIn (s.opened :: s.stack) → p.OpenIn s.stack := by
    intro p hp hopen scope hscope
    rcases List.mem_cons.mp (hopen scope hscope) with rfl | hmem
    · exact absurd hscope (hunplaced p hp)
    · exact hmem
  refine
    { fresh := fun p hp scope hscope => Nat.lt_succ_of_lt (h.fresh p hp scope hscope)
      stack_lt := ?_
      nodup := List.nodup_cons.mpr ⟨hnew, h.nodup⟩
      nested := ⟨(s.opened, top) :: marks, congrArg (s.opened :: ·) hmarks, ?_,
        hnested.opened hunplaced⟩
      disjoint := h.disjoint
      alive := h.alive.imp_of_mem fun ha hb hab hla hlb => hab (hopen _ ha hla) (hopen _ hb hlb) }
  · intro scope hscope
    rcases List.mem_cons.mp hscope with rfl | hscope
    · exact Nat.lt_succ_self _
    · exact Nat.lt_succ_of_lt (h.stack_lt scope hscope)
  · apply howned.opened
    rw [hmarks]
    exact hnew

theorem moveScope (h : Sound lo hi base top s placed) (source : Nat) :
    Sound lo hi base top (s.moveScope source) placed := by
  unfold Scopes.moveScope
  cases hsource : s.object? source with
  | none => exact h
  | some o =>
    obtain ⟨marks, hmarks, howned, hnested⟩ := h.nested
    exact { h with nested := ⟨marks, hmarks, howned.moved hsource, hnested⟩ }

/-- The scope that is closed is the innermost one, so that the position it saved is above what lies
in the scopes that stay open. -/
theorem closeScope (h : Sound lo hi base top s placed) {object : Nat} (hcloses : s.Closes object) :
    (s.closeScope object).1.getD top ≤ top ∧
      Sound lo hi base ((s.closeScope object).1.getD top) (s.closeScope object).2 placed := by
  obtain ⟨marks, hmarks, howned, hnested⟩ := h.nested
  unfold Scopes.closeScope
  cases hobject : s.object? object with
  | none => exact ⟨Nat.le_refl _, h⟩
  | some o =>
    dsimp only
    split_ifs with howns
    · have hmark := howned.mark object o hobject howns
      have hhead := hcloses o hobject howns
      have hnodup := h.nodup
      rw [← hmarks] at hhead hnodup
      cases marks with
      | nil => cases hmark
      | cons mark rest =>
        obtain ⟨-, hsaved, hrest⟩ := hnested
        obtain ⟨hnotin, hnodup'⟩ := List.nodup_cons.mp hnodup
        have hscope : mark.1 = o.scope := Option.some.inj hhead
        have hfirst : mark = (o.scope, o.saved) := by
          rcases List.mem_cons.mp hmark with hmark | hmark
          · exact hmark.symm
          · exact absurd (hscope ▸ List.mem_map_of_mem hmark) hnotin
        subst hfirst
        have herase : s.stack.erase o.scope = rest.map Prod.fst := by
          rw [← hmarks, List.map_cons, List.erase_cons_head]
        have hsub : ∀ scope ∈ rest.map Prod.fst, scope ∈ s.stack := by
          intro scope hscope
          rw [← hmarks]
          exact List.mem_cons_of_mem _ hscope
        rw [herase]
        exact ⟨hsaved,
          { fresh := h.fresh
            stack_lt := fun scope hscope => h.stack_lt scope (hsub scope hscope)
            nodup := hnodup'
            nested := ⟨rest, rfl, howned.closed hobject howns, hrest⟩
            disjoint := h.disjoint
            alive := h.alive.imp fun hab ha hb =>
              hab (fun c hc => hsub c (ha c hc)) fun c hc => hsub c (hb c hc) }⟩
    · exact ⟨Nat.le_refl _,
        { h with nested := ⟨marks, hmarks, howned.destroyed object, hnested⟩ }⟩

end Sound

end Scopes

end Ninfer
