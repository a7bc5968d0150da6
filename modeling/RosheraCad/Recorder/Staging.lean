import RosheraCad.Types
import RosheraCad.Library.Nesting

/-!
# Transactional staging

While a window is open, records are buffered instead of going to the drain worker. Windows nest, but
share one buffer and a depth: the buffer is flushed or discarded only when the outermost window
closes.
-/

namespace RosheraCad

open Nesting

/-- One staged record with everything snapshotted when it was recorded. -/
structure StagedOp where
  record : RecordedOperation
  reservedSequence : Option EventIndex
  author : Author
  branch : BranchId
  document : Option String

structure StagingState where
  depth : ℕ
  buffer : List StagedOp
  discardDepth : ℕ
  discardScopeSequence : Option EventIndex
  pendingConsolidatedSequence : Option EventIndex

namespace StagingState

def new : StagingState := ⟨0, [], 0, none, none⟩

variable (state : StagingState)

/-- A record as the handoff of a closed discard scope stamps it: without a reservation it takes the
scope's. -/
def stamp (op : StagedOp) : StagedOp :=
  match state.pendingConsolidatedSequence with
  | some seq => if op.reservedSequence.isNone then { op with reservedSequence := some seq } else op
  | none => op

/-- `record`: the record is stamped, the handoff consumed, and the record staged or handed over. -/
def record (op : StagedOp) : StagingState × List StagedOp :=
  let op := state.stamp op
  let state := { state with pendingConsolidatedSequence := none }
  if 0 < state.depth then ({ state with buffer := state.buffer ++ [op] }, []) else (state, [op])

def beginPending : StagingState := { state with depth := state.depth + 1 }

/-- `commit_pending`: closing the outermost window hands the buffer over. -/
def commitPending : StagingState × List StagedOp :=
  if state.depth = 0 then (state, [])
  else
    let state := { state with depth := state.depth - 1 }
    if state.depth = 0 then ({ state with buffer := [] }, state.buffer) else (state, [])

/-- `abort_pending`: closing the outermost window discards the buffer. -/
def abortPending : StagingState :=
  if state.depth = 0 then state
  else
    let state := { state with depth := state.depth - 1 }
    if state.depth = 0 then { state with buffer := [] } else state

end StagingState

/-! ## Sequences of calls -/

/-- How a window is closed. -/
inductive Resolution
  | commit
  | abort
  deriving DecidableEq

/-- Whether a window's records are forwarded. -/
def Resolution.forwards (how : Resolution) : Bool := how = .commit

/-- A call on a recorder: `record`, `begin_pending`, or `commit_pending` or `abort_pending`. -/
abbrev StagingCall := Token StagedOp Resolution

namespace StagingState

def call (state : StagingState) : StagingCall → StagingState × List StagedOp
  | .item op => state.record op
  | .start => (state.beginPending, [])
  | .stop .commit => state.commitPending
  | .stop .abort => (state.abortPending, [])

/-- A sequence of calls: the last state, and everything handed to the channel, in order. -/
def calls (state : StagingState) : List StagingCall → StagingState × List StagedOp
  | [] => (state, [])
  | c :: cs => (((state.call c).1.calls cs).1, (state.call c).2 ++ ((state.call c).1.calls cs).2)

variable {state state' state'' : StagingState} {handed handed' : List StagedOp}

theorem calls_cons_eq {c : StagingCall} {cs : List StagingCall}
    (hcall : state.call c = (state', handed)) (hcalls : state'.calls cs = (state'', handed')) :
    state.calls (c :: cs) = (state'', handed ++ handed') := by
  rw [calls, hcall, hcalls]

theorem calls_append_eq {cs ds : List StagingCall} (hcs : state.calls cs = (state', handed))
    (hds : state'.calls ds = (state'', handed')) :
    state.calls (cs ++ ds) = (state'', handed ++ handed') := by
  induction cs generalizing state handed with
  | nil =>
    obtain ⟨rfl, rfl⟩ := Prod.mk.inj hcs
    exact hds
  | cons c cs ih =>
    obtain ⟨rfl, rfl⟩ := Prod.mk.inj hcs
    rw [List.cons_append, calls, ih rfl, List.append_assoc]

/-- No window is open, and no handoff is pending. -/
structure Idle (state : StagingState) : Prop where
  depth : state.depth = 0
  buffer : state.buffer = []
  pending : state.pendingConsolidatedSequence = none

theorem idle_new : new.Idle := ⟨rfl, rfl, rfl⟩

def stage (state : StagingState) (ops : List StagedOp) : StagingState :=
  { state with buffer := state.buffer ++ ops }

theorem stage_nil (state : StagingState) : state.stage [] = state := by
  rw [stage, List.append_nil]

theorem stage_stage (state : StagingState) (ops ops' : List StagedOp) :
    (state.stage ops).stage ops' = state.stage (ops ++ ops') := by
  rw [stage, stage, stage, List.append_assoc]

theorem record_of_no_handoff (h : state.pendingConsolidatedSequence = none) (op : StagedOp) :
    state.record op = if 0 < state.depth then (state.stage [op], []) else (state, [op]) := by
  obtain ⟨depth, buffer, discardDepth, discardScopeSequence, pending⟩ := state
  obtain rfl : pending = none := h
  rfl

/-- Closing an inner window, either way, leaves what is staged. -/
theorem call_stop_of_open (hdepth : 0 < state.depth) (ops : List StagedOp) (how : Resolution) :
    (state.beginPending.stage ops).call (.stop how) = (state.stage ops, []) := by
  have hne : state.depth ≠ 0 := Nat.ne_of_gt hdepth
  rcases how with _ | _
  · simp [call, commitPending, beginPending, stage, hne]
  · simp [call, abortPending, beginPending, stage, hne]

theorem call_stop_of_idle (hidle : state.Idle) (ops : List StagedOp) (how : Resolution) :
    (state.beginPending.stage ops).call (.stop how) =
      (state, if how.forwards then ops else []) := by
  obtain ⟨depth, buffer, discardDepth, discardScopeSequence, pending⟩ := state
  obtain ⟨rfl, rfl, rfl⟩ := hidle
  rcases how with _ | _
  · simp [call, commitPending, beginPending, stage, Resolution.forwards]
  · simp [call, abortPending, beginPending, stage, Resolution.forwards]

/-- **Inside a window** every record is staged, whatever becomes of the windows further in. -/
theorem calls_tokens_of_open (nest : Nest StagedOp Resolution) :
    ∀ state : StagingState, 0 < state.depth → state.pendingConsolidatedSequence = none →
      state.calls nest.tokens = (state.stage nest.items, []) := by
  induction nest with
  | nil =>
    intro state _ _
    rw [Nest.items, stage_nil]
    rfl
  | item op rest ih =>
    intro state hdepth hpending
    have hcall : state.call (.item op) = (state.stage [op], []) := by
      rw [call, record_of_no_handoff hpending, if_pos hdepth]
    have hrest := ih (state.stage [op]) hdepth hpending
    rw [stage_stage] at hrest
    exact calls_cons_eq hcall hrest
  | window inner how rest ihinner ihrest =>
    intro state hdepth hpending
    have hinner := ihinner state.beginPending (Nat.succ_pos _) hpending
    have hrest := ihrest (state.stage inner.items) hdepth hpending
    rw [stage_stage] at hrest
    -- Closing the inner window leaves the outer one open, so what is staged stays.
    have hclose := call_stop_of_open hdepth inner.items how
    exact calls_cons_eq rfl (calls_append_eq hinner (calls_cons_eq hclose hrest))

/-- **Outside any window** what is handed over is decided by the outermost windows alone. -/
theorem calls_tokens_of_idle (hidle : state.Idle) (nest : Nest StagedOp Resolution) :
    state.calls nest.tokens = (state, nest.outerSurvivors Resolution.forwards) := by
  induction nest with
  | nil => rfl
  | item op rest ih =>
    have hcall : state.call (.item op) = (state, [op]) := by
      rw [call, record_of_no_handoff hidle.pending, if_neg (by rw [hidle.depth]; omega)]
    exact calls_cons_eq hcall ih
  | window inner how rest _ ihrest =>
    have hinner := calls_tokens_of_open inner state.beginPending (Nat.succ_pos _) hidle.pending
    have hclose := call_stop_of_idle hidle inner.items how
    have hstart : state.call .start = (state.beginPending, []) := rfl
    have hall := calls_cons_eq hstart (calls_append_eq hinner (calls_cons_eq hclose ihrest))
    exact hall

/-- **What staging hands over.** Every sequence of calls with matching windows is well nested; and
it hands over exactly the records none of whose windows was aborted, in order, just when no window
aborted inside a committed outermost one has recorded anything. -/
theorem staging_hands_survivors_iff (hidle : state.Idle) (cs : List StagingCall)
    (hcs : Balanced cs) :
    (∃ nest : Nest StagedOp Resolution, nest.tokens = cs) ∧
      ∀ nest : Nest StagedOp Resolution, nest.tokens = cs →
        ((state.calls cs).2 = nest.survivors Resolution.forwards ↔
          nest.InnerDropsNothing Resolution.forwards) := by
  refine ⟨exists_tokens_eq_of_balanced hcs, ?_⟩
  rintro nest rfl
  rw [calls_tokens_of_idle hidle]
  exact nest.outerSurvivors_eq_survivors_iff Resolution.forwards

private def exampleStagedOp (kind : String) : StagedOp :=
  ⟨⟨kind, .null, [], [], [], []⟩, none, .system, BranchId.main, none⟩

/-- An aborted outermost window around a committed one hands nothing over. -/
theorem staging_hands_survivors_of_example :
    (new.calls [.start, .start, .item (exampleStagedOp "fillet"), .stop .commit, .stop .abort]).2
      = [] :=
  ((staging_hands_survivors_iff idle_new _ (by exact rfl)).2
    (.window (.window (.item (exampleStagedOp "fillet") .nil) .commit .nil) .abort .nil) rfl).mpr
    ⟨fun h ↦ absurd h (by decide), trivial⟩

/-- A window aborted inside a committed one hands its record over. -/
theorem inner_abort_handed :
    let nest : Nest StagedOp Resolution :=
      .window (.window (.item (exampleStagedOp "fillet") .nil) .abort .nil) .commit .nil
    nest.survivors Resolution.forwards = [] ∧
      (new.calls nest.tokens).2 = [exampleStagedOp "fillet"] ∧
      ¬ ∀ nest : Nest StagedOp Resolution,
        (new.calls nest.tokens).2 = nest.survivors Resolution.forwards := by
  refine ⟨rfl, rfl, fun h ↦ ?_⟩
  have h := h (.window (.window (.item (exampleStagedOp "fillet") .nil) .abort .nil) .commit .nil)
  exact List.cons_ne_nil _ _ h

end StagingState

end RosheraCad
