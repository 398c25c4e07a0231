import Ninfer.Commons.Scopes
import Ninfer.Core.Arena

/-!
# The dry run of a workspace simulates its arena

Allocation helpers run against `WorkspaceLayoutBuilder` to learn how much workspace they need and
against `DeviceArena` to use it. A program is a sequence of allocations and of openings, moves and
destructions of scopes, and runs over either. An allocation is live until the scope it was made in
is closed; scopes are closed in stack order, and a scope object that was moved from closes
nothing.

## Main definitions

* `Workspace`: the operations programs are written against, with `layoutWorkspace` and
  `arenaWorkspace` the two workspaces of the source
* `Operation`, `run`: programs and their runs
* `StackOrder`: the scopes of a program are closed in stack order
* `Simulates`: the two workspaces of a program together

## Main results

* `Simulates.step`: an operation that the builder accepts keeps the two workspaces together
* `arena_follows_layout`: so does a program, which never throws on the arena
-/

namespace Ninfer.Core

/-- What allocation helpers use of a workspace: the two allocations, the position a scope saves
and what its destructor does with it. -/
structure Workspace (σ : Type) where
  alloc : DType → List Int → Nat → Call σ Tensor
  allocBytes : Nat → Nat → Call σ DeviceSpan
  position : σ → Nat
  restore : Nat → σ → σ

/-- `WorkspaceLayoutBuilder` as a workspace. -/
def layoutWorkspace : Workspace WorkspaceLayoutBuilder where
  alloc := WorkspaceLayoutBuilder.alloc
  allocBytes := WorkspaceLayoutBuilder.allocBytes
  position := WorkspaceLayoutBuilder.cursor
  restore := WorkspaceLayoutBuilder.restore

/-- `DeviceArena` as a workspace. -/
def arenaWorkspace : Workspace DeviceArena where
  alloc := DeviceArena.alloc
  allocBytes := DeviceArena.allocBytes
  position := DeviceArena.off
  restore := DeviceArena.restore

/-- The state of a program: the workspace, its scopes, and every allocation, the latest first. -/
structure Running (σ : Type) where
  workspace : σ
  scopes : Scopes
  placed : List (Placed DeviceSpan)

/-- A program over the workspace before its first operation. -/
def Running.start {σ : Type} (workspace : σ) : Running σ := ⟨workspace, {}, []⟩

/-- An allocation is made in the innermost open scope. -/
def Running.place {σ : Type} (r : Running σ) (workspace : σ) (span : DeviceSpan) : Running σ :=
  { r with workspace := workspace, placed := ⟨span, r.scopes.stack⟩ :: r.placed }

/-- The live allocations: those whose scope is open. -/
def Running.live {σ : Type} (r : Running σ) : List DeviceSpan := r.scopes.live r.placed

/-- The operations of a program. Scope objects are named by the order of their construction. -/
inductive Operation
  | alloc (dtype : DType) (shape : List Int) (alignment : Nat)
  | allocBytes (bytes alignment : Nat)
  | openScope
  | moveScope (source : Nat)
  | closeScope (object : Nat)
  deriving DecidableEq, Repr

section Run

variable {σ : Type} (W : Workspace σ)

/-- The destructor of the scope object `object`. -/
def closeScope (r : Running σ) (object : Nat) : Running σ :=
  let closed := r.scopes.closeScope object
  { r with
    workspace := closed.1.elim r.workspace fun position => W.restore position r.workspace
    scopes := closed.2 }

/-- One operation of a program. -/
def step (r : Running σ) : Operation → Except Exception (Running σ)
  | .alloc dtype shape alignment =>
    match W.alloc dtype shape alignment r.workspace with
    | .ok tensor workspace =>
      tensor.bytes >>= fun bytes => .ok (r.place workspace ⟨tensor.data, bytes⟩)
    | .error e _ => .error e
  | .allocBytes bytes alignment =>
    match W.allocBytes bytes alignment r.workspace with
    | .ok span workspace => .ok (r.place workspace span)
    | .error e _ => .error e
  | .openScope => .ok { r with scopes := r.scopes.openScope (W.position r.workspace) }
  | .moveScope source => .ok { r with scopes := r.scopes.moveScope source }
  | .closeScope object => .ok (closeScope W r object)

/-- A program. -/
def run (r : Running σ) (ops : List Operation) : Except Exception (Running σ) :=
  ops.foldlM (step W) r

end Run

/-- A scope object that is destroyed owns the innermost open scope or none. -/
def Permitted {σ : Type} (r : Running σ) : Operation → Prop
  | .closeScope object => r.scopes.Closes object
  | _ => True

/-- The scopes of a program over the builder are closed in stack order, as far as it comes. -/
def StackOrder (b : Running WorkspaceLayoutBuilder) : List Operation → Prop
  | [] => True
  | op :: ops => Permitted b op ∧
    match step layoutWorkspace b op with
    | .ok b' => StackOrder b' ops
    | .error _ => True

/-- The allocation of an operation, if it is one, is not empty and its alignment is at most
`limit`. -/
def Operation.Within (limit : Nat) : Operation → Prop
  | .alloc _ _ alignment => alignment ≤ limit
  | .allocBytes bytes alignment => bytes ≠ 0 ∧ alignment ≤ limit
  | _ => True

/-- The end of an allocation. -/
def DeviceSpan.stop (span : DeviceSpan) : Nat := span.data + span.bytes

/-- The state of a program over the builder and over an arena on `storage`: same positions, same
peaks, same scopes, and the allocations of the arena nested in the open scopes. -/
structure Simulates (storage : DeviceSpan) (b : Running WorkspaceLayoutBuilder)
    (a : Running DeviceArena) : Prop where
  base : a.workspace.base = storage.data
  cap : a.workspace.cap = storage.bytes
  off : a.workspace.off = b.workspace.cursor
  peak : a.workspace.peak = b.workspace.peak
  cursor_lt : b.workspace.cursor < U64.size
  peak_lt : b.workspace.peak < U64.size
  scopes : a.scopes = b.scopes
  sound : a.scopes.Sound DeviceSpan.data DeviceSpan.stop storage.data a.workspace.off a.placed

namespace Simulates

variable {storage : DeviceStorage} {limit : Nat} {b b' : Running WorkspaceLayoutBuilder}
  {a : Running DeviceArena}

/-- The arena makes the allocation the builder placed: its address is aligned because the storage
is, and its end is within the capacity because the peak of the builder is. -/
theorem place (h : Simulates storage.toDeviceSpan b a)
    (hdata : storage.data ≠ 0) (hlimit : isPowerOfTwo limit) (hbase : limit ∣ storage.data)
    {bytes alignment : Nat} {size : Except Exception Nat} (hle : alignment ≤ limit)
    (hbytes : bytes ≠ 0) {builder : WorkspaceLayoutBuilder}
    (hplace : WorkspaceLayoutBuilder.place size alignment b.workspace = .ok bytes builder)
    (hcap : builder.peak ≤ storage.bytes) :
    ∃ arena address,
      DeviceArena.allocBytes bytes alignment a.workspace = .ok ⟨address, bytes⟩ arena ∧
      ∀ data, Simulates storage.toDeviceSpan (b.place builder ⟨data, bytes⟩)
        (a.place arena ⟨address, bytes⟩) := by
  obtain ⟨-, hpow, hcursor, hlt, hpeak⟩ :=
    WorkspaceLayoutBuilder.place_eq_ok h.cursor_lt hplace
  have hfits : roundUp a.workspace.off alignment + bytes ≤ a.workspace.cap := by
    rw [h.off, h.cap, ← hcursor]
    omega
  have hdvd : alignment ∣ a.workspace.base := by
    rw [h.base]
    exact Nat.dvd_trans (hpow.dvd hlimit hle) hbase
  have halloc := DeviceArena.allocBytes_of_fits (by rw [h.base]; exact hdata)
    (by rw [h.base, h.cap]; exact storage.end_le) hpow hdvd hbytes hfits
  have hup := le_roundUp a.workspace.off hpow.pos
  refine ⟨_, _, halloc, fun data => ?_⟩
  exact
    { base := h.base
      cap := h.cap
      off := by
        dsimp only [Running.place]
        rw [hcursor, h.off]
      peak := by
        dsimp only [Running.place]
        rw [hpeak, h.peak, hcursor, h.off]
      cursor_lt := hlt
      peak_lt := by
        dsimp only [Running.place]
        rw [hpeak]
        exact Nat.max_lt.mpr ⟨h.peak_lt, hlt⟩
      scopes := h.scopes
      sound := by
        rw [h.base]
        exact h.sound.place (Nat.add_le_add_left hup storage.data) (Nat.add_assoc .. ▸ Nat.le_refl _)
          (Nat.le_trans hup (Nat.le_add_right _ _)) }

theorem alloc (h : Simulates storage.toDeviceSpan b a)
    (hdata : storage.data ≠ 0) (hlimit : isPowerOfTwo limit) (hbase : limit ∣ storage.data)
    {dtype : DType} {shape : List Int} {alignment : Nat} (hle : alignment ≤ limit)
    (hstep : step layoutWorkspace b (.alloc dtype shape alignment) = .ok b')
    (hcap : b'.workspace.peak ≤ storage.bytes) :
    ∃ a', step arenaWorkspace a (.alloc dtype shape alignment) = .ok a' ∧
      Simulates storage.toDeviceSpan b' a' := by
  -- the builder constructed the tensor, placed it and returned it
  cases hnew : Tensor.new 0 dtype shape with
  | error e =>
    simp only [step, layoutWorkspace, WorkspaceLayoutBuilder.alloc, bind, EStateM.bind,
      Call.ofExcept, hnew] at hstep
    cases hstep
  | ok view =>
    cases hplace : WorkspaceLayoutBuilder.place view.bytes alignment b.workspace with
    | error e builder =>
      simp only [step, layoutWorkspace, WorkspaceLayoutBuilder.alloc, bind, EStateM.bind,
        Call.ofExcept, hnew, hplace] at hstep
      cases hstep
    | ok bytes builder =>
      have hsize := (WorkspaceLayoutBuilder.place_eq_ok h.cursor_lt hplace).1
      simp only [step, layoutWorkspace, WorkspaceLayoutBuilder.alloc, bind, EStateM.bind,
        Call.ofExcept, hnew, hplace, pure, EStateM.pure] at hstep
      rw [hsize] at hstep
      cases hstep
      obtain ⟨arena, address, halloc, hsim⟩ := h.place hdata hlimit hbase hle
        (Nat.ne_of_gt (Tensor.bytes_pos hsize)) hplace hcap
      refine ⟨a.place arena ⟨address, bytes⟩, ?_, hsim _⟩
      have hbytes : Tensor.bytes { view with data := address } = .ok bytes := hsize
      simp only [step, arenaWorkspace, DeviceArena.alloc, bind, EStateM.bind, Call.ofExcept, hnew,
        hsize, halloc, Tensor.new_data hnew address, Except.bind, hbytes]

theorem allocBytes (h : Simulates storage.toDeviceSpan b a)
    (hdata : storage.data ≠ 0) (hlimit : isPowerOfTwo limit) (hbase : limit ∣ storage.data)
    {bytes alignment : Nat} (hbytes : bytes ≠ 0) (hle : alignment ≤ limit)
    (hstep : step layoutWorkspace b (.allocBytes bytes alignment) = .ok b')
    (hcap : b'.workspace.peak ≤ storage.bytes) :
    ∃ a', step arenaWorkspace a (.allocBytes bytes alignment) = .ok a' ∧
      Simulates storage.toDeviceSpan b' a' := by
  cases hplace : WorkspaceLayoutBuilder.place (.ok bytes) alignment b.workspace with
  | error e builder =>
    simp only [step, layoutWorkspace, WorkspaceLayoutBuilder.allocBytes, if_neg hbytes, bind,
      EStateM.bind, hplace] at hstep
    cases hstep
  | ok n builder =>
    simp only [step, layoutWorkspace, WorkspaceLayoutBuilder.allocBytes, if_neg hbytes, bind,
      EStateM.bind, hplace, pure, EStateM.pure] at hstep
    cases hstep
    cases (WorkspaceLayoutBuilder.place_eq_ok h.cursor_lt hplace).1
    obtain ⟨arena, address, halloc, hsim⟩ := h.place hdata hlimit hbase hle hbytes hplace hcap
    refine ⟨a.place arena ⟨address, bytes⟩, ?_, hsim _⟩
    simp only [step, arenaWorkspace, halloc]

theorem openScope (h : Simulates storage.toDeviceSpan b a) :
    Simulates storage.toDeviceSpan
      { b with scopes := b.scopes.openScope b.workspace.cursor }
      { a with scopes := a.scopes.openScope a.workspace.off } :=
  { h with
    scopes := by rw [h.scopes, h.off]
    sound := h.sound.openScope }

theorem moveScope (h : Simulates storage.toDeviceSpan b a) (source : Nat) :
    Simulates storage.toDeviceSpan { b with scopes := b.scopes.moveScope source }
      { a with scopes := a.scopes.moveScope source } :=
  { h with
    scopes := by rw [h.scopes]
    sound := h.sound.moveScope source }

/-- Destroying a scope object: the offset the arena saved is not above its offset, so the guard of
its destructor lets it take the offset back, as the builder does without a guard. -/
theorem closeScope (h : Simulates storage.toDeviceSpan b a) {object : Nat}
    (hcloses : b.scopes.Closes object) :
    Simulates storage.toDeviceSpan (Core.closeScope layoutWorkspace b object)
      (Core.closeScope arenaWorkspace a object) := by
  rw [← h.scopes] at hcloses
  obtain ⟨hle, hsound⟩ := h.sound.closeScope hcloses
  unfold Core.closeScope
  rw [← h.scopes]
  dsimp only
  cases hsaved : (a.scopes.closeScope object).1 with
  | none =>
    rw [hsaved] at hsound
    exact { h with scopes := rfl, sound := hsound }
  | some position =>
    rw [hsaved] at hle hsound
    have hrestore : arenaWorkspace.restore position a.workspace =
        { a.workspace with off := position } := if_pos hle
    dsimp only [Option.elim_some]
    rw [hrestore]
    exact
      { h with
        off := rfl
        cursor_lt := by
          have := h.cursor_lt
          rw [← h.off] at this
          exact Nat.lt_of_le_of_lt hle this
        scopes := rfl
        sound := hsound }

/-- An operation that the builder accepts and that leaves its peak within the capacity is one the
arena accepts, and the two stay together. -/
theorem step (h : Simulates storage.toDeviceSpan b a)
    (hdata : storage.data ≠ 0) (hlimit : isPowerOfTwo limit) (hbase : limit ∣ storage.data)
    {op : Operation} (hpermitted : Permitted b op) (hwithin : op.Within limit)
    (hstep : Core.step layoutWorkspace b op = .ok b')
    (hcap : b'.workspace.peak ≤ storage.bytes) :
    ∃ a', Core.step arenaWorkspace a op = .ok a' ∧ Simulates storage.toDeviceSpan b' a' := by
  cases op with
  | alloc dtype shape alignment => exact h.alloc hdata hlimit hbase hwithin hstep hcap
  | allocBytes bytes alignment =>
    exact h.allocBytes hdata hlimit hbase hwithin.1 hwithin.2 hstep hcap
  | openScope =>
    cases hstep
    exact ⟨_, rfl, h.openScope⟩
  | moveScope source =>
    cases hstep
    exact ⟨_, rfl, h.moveScope source⟩
  | closeScope object =>
    cases hstep
    exact ⟨_, rfl, h.closeScope hpermitted⟩

theorem start {arena : DeviceArena} (harena : DeviceArena.borrow storage.toDeviceSpan = .ok arena) :
    storage.data ≠ 0 ∧ Simulates storage.toDeviceSpan
      (Running.start WorkspaceLayoutBuilder.fresh) (Running.start arena) := by
  obtain ⟨⟨hdata, -⟩, harena⟩ := check_bind_eq_ok.mp harena
  cases harena
  refine ⟨hdata, ?_⟩
  exact
    { base := rfl
      cap := rfl
      off := rfl
      peak := rfl
      cursor_lt := by decide
      peak_lt := by decide
      scopes := rfl
      sound := Scopes.Sound.start }

end Simulates

section Peak

variable {b b' : Running WorkspaceLayoutBuilder}

/-- A peak that is not lowered and stays a `std::size_t`. -/
def Raised (before after : Nat) : Prop := before ≤ after ∧ (before < U64.size → after < U64.size)

theorem Raised.refl (peak : Nat) : Raised peak peak := ⟨Nat.le_refl _, id⟩

theorem Raised.trans {p q r : Nat} (hpq : Raised p q) (hqr : Raised q r) : Raised p r :=
  ⟨Nat.le_trans hpq.1 hqr.1, fun hp => hqr.2 (hpq.2 hp)⟩

theorem place_raised {builder builder' : WorkspaceLayoutBuilder} {size : Except Exception Nat}
    {alignment bytes : Nat}
    (h : WorkspaceLayoutBuilder.place size alignment builder = .ok bytes builder') :
    Raised builder.peak builder'.peak := by
  unfold WorkspaceLayoutBuilder.place at h
  split at h
  · cases h
  · rename_i aligned haligned
    split at h
    · cases h
    · rename_i n cursor hsum
      obtain ⟨bytes', -, hsum⟩ := bind_eq_ok.mp hsum
      obtain ⟨cursor', hsum, hpair⟩ := bind_eq_ok.mp hsum
      cases hpair
      cases h
      have hlt := (checkedAdd_eq_ok (alignUp_lt haligned) hsum).2
      exact ⟨Nat.le_max_left _ _, fun hpeak => Nat.max_lt.mpr ⟨hpeak, hlt⟩⟩

/-- No operation lowers the peak of the builder. -/
theorem step_raised {op : Operation} (h : step layoutWorkspace b op = .ok b') :
    Raised b.workspace.peak b'.workspace.peak := by
  cases op with
  | alloc dtype shape alignment =>
    simp only [step, layoutWorkspace, WorkspaceLayoutBuilder.alloc, bind, EStateM.bind,
      Call.ofExcept] at h
    cases hnew : Tensor.new 0 dtype shape with
    | error e =>
      simp only [hnew] at h
      cases h
    | ok view =>
      cases hplace : WorkspaceLayoutBuilder.place view.bytes alignment b.workspace with
      | error e builder =>
        simp only [hnew, hplace] at h
        cases h
      | ok bytes builder =>
        simp only [hnew, hplace, pure, EStateM.pure] at h
        obtain ⟨n, -, h⟩ := bind_eq_ok.mp h
        cases h
        exact place_raised hplace
  | allocBytes bytes alignment =>
    simp only [step, layoutWorkspace, WorkspaceLayoutBuilder.allocBytes] at h
    by_cases hbytes : bytes = 0
    · rw [if_pos hbytes] at h
      cases h
      exact Raised.refl _
    · rw [if_neg hbytes] at h
      cases hplace : WorkspaceLayoutBuilder.place (.ok bytes) alignment b.workspace with
      | error e builder =>
        simp only [bind, EStateM.bind, hplace] at h
        cases h
      | ok n builder =>
        simp only [bind, EStateM.bind, hplace, pure, EStateM.pure] at h
        cases h
        exact place_raised hplace
  | openScope =>
    cases h
    exact Raised.refl _
  | moveScope source =>
    cases h
    exact Raised.refl _
  | closeScope object =>
    cases h
    unfold closeScope
    dsimp only
    cases (b.scopes.closeScope object).1 <;> exact Raised.refl _

theorem run_raised {ops : List Operation} (h : run layoutWorkspace b ops = .ok b') :
    Raised b.workspace.peak b'.workspace.peak := by
  induction ops generalizing b with
  | nil =>
    cases h
    exact Raised.refl _
  | cons op ops ih =>
    unfold run at h
    rw [List.foldlM_cons] at h
    obtain ⟨b₁, hstep, h⟩ := bind_eq_ok.mp h
    exact (step_raised hstep).trans (ih h)

end Peak

section Programs

variable {storage : DeviceStorage} {limit : Nat}

/-- The invariant of runs: after any number of operations of a program that the builder accepts,
the arena has accepted them too and is with the builder. -/
theorem Simulates.run {b b' : Running WorkspaceLayoutBuilder} {a : Running DeviceArena}
    {ops : List Operation} (h : Simulates storage.toDeviceSpan b a) (hdata : storage.data ≠ 0)
    (hlimit : isPowerOfTwo limit) (hbase : limit ∣ storage.data) (horder : StackOrder b ops)
    (hwithin : ∀ op ∈ ops, op.Within limit) (hrun : Core.run layoutWorkspace b ops = .ok b')
    (hcap : b'.workspace.peak ≤ storage.bytes) (n : Nat) :
    ∃ bn an, Core.run layoutWorkspace b (ops.take n) = .ok bn ∧
      Core.run arenaWorkspace a (ops.take n) = .ok an ∧
      Simulates storage.toDeviceSpan bn an := by
  -- by induction on the program; the peak of the whole run bounds the peak after each operation
  induction ops generalizing b a n with
  | nil =>
    rw [List.take_nil]
    exact ⟨b, a, rfl, rfl, h⟩
  | cons op ops ih =>
    cases n with
    | zero => exact ⟨b, a, rfl, rfl, h⟩
    | succ n =>
      unfold Core.run at hrun
      rw [List.foldlM_cons] at hrun
      obtain ⟨b₁, hstep, hrest⟩ := bind_eq_ok.mp hrun
      obtain ⟨hpermitted, horder⟩ := horder
      rw [hstep] at horder
      obtain ⟨a₁, ha₁, hsim⟩ :=
        h.step hdata hlimit hbase hpermitted (hwithin op (List.mem_cons_self ..)) hstep
          (Nat.le_trans (run_raised hrest).1 hcap)
      obtain ⟨bn, an, hbn, han, hend⟩ :=
        ih hsim horder (fun op' hmem => hwithin op' (List.mem_cons_of_mem _ hmem)) hrest n
      refine ⟨bn, an, ?_, ?_, hend⟩
      · rw [List.take_succ_cons]
        unfold Core.run
        rw [List.foldlM_cons]
        exact bind_eq_ok.mpr ⟨b₁, hstep, hbn⟩
      · rw [List.take_succ_cons]
        unfold Core.run
        rw [List.foldlM_cons]
        exact bind_eq_ok.mpr ⟨a₁, ha₁, han⟩

/-- **The dry run sizes the arena.** For a program in stack order whose allocations are non-empty
and aligned to at most `limit`, that the builder accepts: over storage aligned to `limit` with at
least the reported peak, the arena accepts it too, and after every operation the offset of the
arena is the cursor of the builder, their peaks are equal and the live allocations are
disjoint. -/
theorem arena_follows_layout (storage : DeviceStorage) (limit : Nat) (ops : List Operation)
    (horder : StackOrder (.start .fresh) ops) (hlimit : isPowerOfTwo limit)
    (hwithin : ∀ op ∈ ops, op.Within limit) {b : Running WorkspaceLayoutBuilder}
    (hrun : run layoutWorkspace (.start .fresh) ops = .ok b) {alignment bytes : Nat}
    (hpeak : b.workspace.peakBytes alignment = .ok bytes)
    {arena : DeviceArena} (harena : DeviceArena.borrow storage.toDeviceSpan = .ok arena)
    (hbase : limit ∣ storage.data) (hcap : bytes ≤ storage.bytes) (n : Nat) :
    ∃ bn an, run layoutWorkspace (.start .fresh) (ops.take n) = .ok bn ∧
      run arenaWorkspace (.start arena) (ops.take n) = .ok an ∧
      an.workspace.off = bn.workspace.cursor ∧ an.workspace.peak = bn.workspace.peak ∧
      an.live.Pairwise (Apart DeviceSpan.data DeviceSpan.stop) := by
  obtain ⟨hdata, hstart⟩ := Simulates.start harena
  have hlt : b.workspace.peak < U64.size := (run_raised hrun).2 (by decide)
  -- The simulation holds after each prefix of the operations, with the live blocks on its stack.
  obtain ⟨bn, an, hbn, han, hsim⟩ :=
    hstart.run hdata hlimit hbase horder hwithin hrun
      (Nat.le_trans (WorkspaceLayoutBuilder.peak_le_peakBytes hlt hpeak) hcap) n
  exact ⟨bn, an, hbn, han, hsim.off, hsim.peak, hsim.sound.live_pairwise⟩

/-- A program with a moved scope. -/
def movedProgram : List Operation :=
  [.allocBytes 3 1, .openScope, .alloc .fp32 [5, 2] 16, .moveScope 0, .closeScope 0, .closeScope 1,
    .allocBytes 7 4]

theorem stackOrder_movedProgram : StackOrder (.start .fresh) movedProgram := by
  refine ⟨trivial, trivial, trivial, trivial, ?_, ?_, trivial, trivial⟩
  · rintro _ ⟨⟩ ⟨⟩
  · rintro _ ⟨⟩ -
    rfl

/-- Over storage that has exactly its peak. -/
theorem arena_follows_layout_moved :
    ∃ bn an, run layoutWorkspace (.start .fresh) movedProgram = .ok bn ∧
      run arenaWorkspace (.start ⟨256, 256, 0, 0⟩) movedProgram = .ok an ∧
      an.workspace.off = bn.workspace.cursor ∧ an.workspace.peak = bn.workspace.peak ∧
      an.live.Pairwise (Apart DeviceSpan.data DeviceSpan.stop) :=
  arena_follows_layout ⟨⟨256, 256⟩, by decide⟩ 256 movedProgram stackOrder_movedProgram (by decide)
    (by simp [movedProgram, Operation.Within])
    (b := ⟨⟨11, 56⟩, ⟨[none, none], 1, []⟩, [⟨⟨0, 7⟩, []⟩, ⟨⟨0, 40⟩, [0]⟩, ⟨⟨0, 3⟩, []⟩]⟩) (by rfl)
    (show WorkspaceLayoutBuilder.peakBytes ⟨11, 56⟩ 256 = .ok 256 from rfl)
    (show DeviceArena.borrow ⟨256, 256⟩ = .ok ⟨256, 256, 0, 0⟩ from rfl) (by decide) (by decide) 7

end Programs

end Ninfer.Core
