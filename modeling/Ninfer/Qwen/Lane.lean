import Ninfer.Qwen.Vision
import Ninfer.PagedKV.Runs

/-!
# Lanes

`runtime/program.h`: the state of a request lane, host and device. On the host a lane has a
`SequenceState`, which may outlive the request that produced it, and a `RequestControl`. On the
device it has the KV rows of its tokens, a linear-attention state with a checkpoint slot, and two
hidden vectors.

Device tensors are modelled by where they come from: a KV row, a linear state or a hidden vector
carries the entries of the tokens that produced it, or nothing when these are not one sequence.

## Main definitions

* `Config`: the extents of a program, with the bounds its planner checks
* `Contents`, `LaneDevice`, `LaneDevice.forward`: the device tensors of a lane
* `Lane`: a lane
-/

namespace Ninfer.Qwen

open PagedKV (PagedKVPoolSpec Heap pagesForTokens kPagedKVPageSize)

/-- `SpeculativeBackend`. -/
inductive SpeculativeBackend
  | none
  | mtp
  | dflash
  deriving DecidableEq, Repr

/-- The KV caches of a program: that of the text model, and that of the speculative backend. -/
inductive Cache
  | text
  | backend
  deriving DecidableEq, Repr

instance : Fintype Cache := ⟨{.text, .backend}, fun c => by cases c <;> simp⟩

/-- The extents of a program with `n` lanes. The bounds are those `validate_target_options` and the
layout planner check. `workspaceFits` is the check of an item against the workspace envelope. -/
structure Config (n : Nat) where
  capacity : Nat
  prefillChunk : Nat
  draftWindow : Nat
  backend : SpeculativeBackend
  visionEnabled : Bool
  workspaceFits : VisionItemControl → Bool
  outHidden : Nat
  pools : Cache → PagedKVPoolSpec
  capacity_pos : 0 < capacity
  capacity_le : capacity ≤ 262144
  outHidden_pos : 0 < outHidden
  prefillChunk_pos : 0 < prefillChunk
  draftWindow_none : backend = .none → draftWindow = 0
  draftWindow_pos : backend ≠ .none → 0 < draftWindow
  draftWindow_le : draftWindow ≤ 15
  dflash_text : backend = .dflash → visionEnabled = false
  tableRows : ∀ c, (pools c).tableRows = n
  logicalPages : ∀ c, (pools c).logicalPageCapacity = pagesForTokens capacity

/-- `backend_kv_cache() != nullptr`. -/
def Config.hasBackend {n : Nat} (cfg : Config n) : Bool := decide (cfg.backend ≠ .none)

/-- `TextConfig::token_domain`. -/
def tokenDomain : Int := 248077

/-! ## Device tensors -/

/-- The entries a device tensor was produced from; nothing when they are not one sequence. -/
abbrev Contents := Option (List Entry)

/-- The device tensors of a lane: its KV rows by token index, the current and the checkpoint slot
of the linear attention, the checkpoint and the tail hidden vector, and what the columns of its
last verification have recorded. -/
structure LaneDevice where
  rows : Nat → Contents := fun _ => none
  linear : Contents := none
  checkpointLinear : Contents := none
  checkpointHidden : Contents := none
  tailHidden : Contents := none
  columns : List Contents := []

namespace LaneDevice

variable (d : LaneDevice)

/-- What executing the entry `e` at the index `i` produces: a token attends to the rows before it
and to the linear state, so these have to be those of one sequence of `i` tokens. -/
def produce (i : Nat) (e : Entry) : Contents :=
  match d.linear with
  | none => none
  | some l =>
    if l.length = i ∧ ∀ j < i, d.rows j = some (l.take (j + 1)) then some (l ++ [e]) else none

/-- Executing one token: it writes its row and updates the linear state. -/
def forward (i : Nat) (e : Entry) : LaneDevice :=
  { d with rows := Function.update d.rows i (d.produce i e), linear := d.produce i e }

/-- Executing tokens one after the other, with the hidden vector of each. -/
def forwardAll (d : LaneDevice) (i : Nat) : List Entry → LaneDevice × List Contents
  | [] => (d, [])
  | e :: es =>
    let rest := forwardAll (d.forward i e) (i + 1) es
    (rest.1, d.produce i e :: rest.2)

/-- Verifying tokens: their rows are written and their columns recorded, but the linear state is
left for the fold. -/
def verify (i : Nat) (es : List Entry) : LaneDevice :=
  { (d.forwardAll i es).1 with linear := d.linear, columns := (d.forwardAll i es).2 }

/-- `gdn_replay_fold` of one lane: the linear state after the committed columns. -/
def fold (committed : Nat) : LaneDevice :=
  if committed = 0 then d else { d with linear := d.columns.getD (committed - 1) none }

/-- The rows below `limit`: those of the pages that stay mapped. -/
def cut (limit : Nat) : LaneDevice :=
  { d with rows := fun i => if i < limit then d.rows i else none }

end LaneDevice

/-! ## Lanes -/

/-- `Lifecycle`. -/
inductive Lifecycle
  | empty
  | prefilling
  | active
  | pending
  | complete
  deriving DecidableEq, Repr

/-- `PendingKind`. -/
inductive PendingKind
  | none
  | start
  | ordinary
  | speculative
  deriving DecidableEq, Repr

/-- `PendingCandidate`; `PendingKind::Begin` is `start`. -/
structure PendingCandidate where
  kind : PendingKind := .none
  baseE : Nat := 0
  baseS : Nat := 0
  promptTokens : Nat := 0
  produced : Nat := 0
  deriving DecidableEq, Repr

/-- `RewriteCheckpoint`. -/
structure RewriteCheckpoint where
  valid : Bool := false
  kind : RewriteCheckpointKind := .turnClosure
  frontier : Nat := 0
  deriving DecidableEq, Repr

/-- `ReusePath`. -/
inductive ReusePath
  | fullReset
  | appendAtFrontier
  | restoreTurnCheckpoint
  | restoreResponseCheckpoint
  deriving DecidableEq, Repr

/-- `is_rewrite_checkpoint_restore`. -/
def isRewriteCheckpointRestore : ReusePath → Bool
  | .restoreTurnCheckpoint | .restoreResponseCheckpoint => true
  | _ => false

/-- `restore_path`. -/
def restorePath : RewriteCheckpointKind → ReusePath
  | .turnClosure => .restoreTurnCheckpoint
  | .responseReplay => .restoreResponseCheckpoint

/-- `RewriteCheckpointAction`. -/
inductive RewriteCheckpointAction
  | drop
  | keepExisting
  | reclassifyExisting
  | captureNew
  | deferCapture
  deriving DecidableEq, Repr

/-- `MtpBridgeMode`. -/
inductive MtpBridgeMode
  | none
  | beforeSuffix
  | afterExactHit
  deriving DecidableEq, Repr

/-- `RequestControl::Prefill`. Beside the source's fields it lists the rotary positions given to
the prompt tokens executed so far. -/
structure Prefill where
  prompt : PreparedPromptData
  visionPlan : Option VisionPrefillPlan
  vision : Option VisionPrefillSession
  transient : TransientRegion
  rewriteCheckpointCapture : Option RewriteCheckpointSpec
  base : Nat
  cursor : Nat
  promptTokens : Nat
  initialMtpExtent : Nat
  prepareMtp : Bool
  reuse : ReusePath
  mtpBridge : MtpBridgeMode
  given : List (Nat × Position) := []
  deriving DecidableEq, Repr

/-- `SequenceKVBundle`: whether the optional backend allocation is there. The allocations live in
the heap of the paged KV pools. -/
structure SequenceKVBundle where
  backend : Bool
  deriving DecidableEq, Repr

/-- A lane: its `SequenceState`, its `RequestControl` and its device tensors. The last field records
the pages reserved for the request in each cache. -/
structure Lane where
  kv : Option SequenceKVBundle := none
  executionFrontier : Nat := 0
  ledgerFrontier : Nat := 0
  ledger : List TokenId := []
  prefixIdentity : ResidentPrefixIdentity := {}
  ropeDelta : Int := 0
  textKvValid : Nat := 0
  mtpKvValid : Nat := 0
  dflashContextFrontier : Nat := 0
  mtpDrafts : List TokenId := []
  mtpDraftCount : Nat := 0
  tailHiddenValid : Bool := false
  retained : Bool := false
  rewriteCheckpoint : RewriteCheckpoint := {}
  lifecycle : Lifecycle := .empty
  pending : PendingCandidate := {}
  prefill : Option Prefill := none
  device : LaneDevice := {}
  reserved : Cache → Nat := fun _ => 0

/-- The lane runs a request: its lifecycle is `Prefilling`, `Active` or `Pending`. -/
def Lane.busy (x : Lane) : Bool :=
  decide (x.lifecycle = .prefilling ∨ x.lifecycle = .active ∨ x.lifecycle = .pending)

/-- The entries of a lane's ledger. -/
def Lane.entries (x : Lane) : List Entry := x.prefixIdentity.entries x.ledger

/-- A prefill that has run to its end: the prompt, how much of it was reused, the positions given to
the tokens executed, and the rope deltas it left on the host and on the device. -/
structure PrefillRecord where
  prompt : PreparedPromptData
  base : Nat
  given : List (Nat × Position)
  ropeDelta : Int
  deviceRopeDelta : Int
  deriving DecidableEq, Repr

/-- `backend_kv_valid`. -/
def Lane.backendKvValid {n : Nat} (cfg : Config n) (x : Lane) : Nat :=
  match cfg.backend with
  | .none => 0
  | .mtp => x.mtpKvValid
  | .dflash => x.dflashContextFrontier

/-- What `clear_lane` leaves of a lane; its allocations are destroyed. -/
def Lane.cleared (x : Lane) : Lane :=
  { x with
    prefill := none
    kv := none
    lifecycle := .empty
    executionFrontier := 0
    ledgerFrontier := 0
    ledger := []
    prefixIdentity := {}
    textKvValid := 0
    mtpKvValid := 0
    dflashContextFrontier := 0
    mtpDraftCount := 0
    tailHiddenValid := false
    retained := false
    rewriteCheckpoint := {}
    pending := {} }

end Ninfer.Qwen
