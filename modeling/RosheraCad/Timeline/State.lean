import RosheraCad.KernelRef
import RosheraCad.Library.SortedPrefix

/-!
# The timeline's state

The timeline keeps every event once, by id, and for each branch an index from sequence numbers to
event ids. Branches share events: a fork copies index entries, a merge copies more.
-/

namespace RosheraCad

/-! ## Branches -/

inductive BranchState
  | active
  | merged (into : BranchId) («at» : Timestamp)
  | abandoned (reason : String)
  | completed (score : ℚ)
  deriving DecidableEq

def BranchState.isActive : BranchState → Bool
  | active => true
  | _ => false

@[simp] theorem BranchState.isActive_iff {s : BranchState} : s.isActive ↔ s = .active := by
  cases s <;> simp [isActive]

structure ForkPoint where
  branchId : BranchId
  eventIndex : EventIndex
  deriving DecidableEq

structure Branch where
  id : BranchId
  name : String
  forkPoint : ForkPoint
  parent : Option BranchId
  state : BranchState
  createdBy : Author
  /-- Whether truncating or abandoning the branch takes force. -/
  isProtected : Bool
  deriving DecidableEq

structure SessionPosition where
  branchId : BranchId
  eventIndex : EventIndex
  deriving DecidableEq

/-! ## Errors -/

inductive ConflictStrategy
  | preferSource
  | preferTarget
  | preferNewest
  | manual
  | ai (model : String) (criteria : List String)
  deriving DecidableEq

inductive MergeStrategy
  | fastForward
  | threeWay (conflictStrategy : ConflictStrategy)
  | rebase
  | squash (message : String)
  | cherryPick (events : List EventId)
  deriving DecidableEq

/-- A piece of an error message: text, or a value the message prints in its debug form. -/
inductive MessagePiece
  | text (s : String)
  | debugState (s : BranchState)
  | debugStrategy (s : MergeStrategy)
  | debugScore (x : ℚ)
  deriving DecidableEq

inductive TimelineError
  | eventNotFound (id : EventId)
  | branchNotFound (id : BranchId)
  | invalidOperation (message : List MessagePiece)
  | branchConflict (message : String)
  | notImplemented (message : List MessagePiece)
  | internal (message : String)
  | sessionNotFound
  | noMoreUndo
  | noMoreRedo
  deriving DecidableEq

/-! ## The state -/

abbrev BranchIndex := OrderedMap EventIndex EventId

/-- The timeline's concurrent maps and its sequence counter. -/
structure Timeline where
  events : OrderedMap EventId TimelineEvent
  branchEvents : OrderedMap BranchId BranchIndex
  eventCounter : EventIndex
  branches : OrderedMap BranchId Branch
  entityEvents : OrderedMap EntityId (List EventId)
  sessionPositions : OrderedMap SessionId SessionPosition
  appliedHeads : OrderedMap BranchId EventIndex

/-- The result of an operation and the timeline it leaves. -/
abbrev Outcome (α : Type) := Except TimelineError α × Timeline

namespace Timeline

def mainBranch : Branch where
  id := .main
  name := "main"
  forkPoint := ⟨.main, 0⟩
  parent := none
  state := .active
  createdBy := .system
  isProtected := true

/-- A new timeline: the main branch, protected and empty. -/
def new : Timeline where
  events := ∅
  branchEvents := (∅ : OrderedMap BranchId BranchIndex).insert .main ∅
  eventCounter := 0
  branches := (∅ : OrderedMap BranchId Branch).insert .main mainBranch
  entityEvents := ∅
  sessionPositions := ∅
  appliedHeads := ∅

variable (t : Timeline)

/-! ## Reading the state -/

/-- The history of `b`: its index, empty when the branch does not exist. -/
def index (b : BranchId) : BranchIndex := t.branchEvents[b]?.getD ∅

def stateOf (b : BranchId) : Option BranchState := t.branches[b]?.map Branch.state

theorem index_eq_of_getElem? {t : Timeline} {b : BranchId} {m : BranchIndex}
    (h : t.branchEvents[b]? = some m) : t.index b = m := by
  rw [index, h, Option.getD_some]

def branchSequence (b : BranchId) : Except TimelineError (List (EventIndex × EventId)) :=
  match t.branchEvents[b]? with
  | none => .error (.branchNotFound b)
  | some m => .ok m.toList

def branchEventKeysSorted (b : BranchId) : Except TimelineError (List EventIndex) :=
  match t.branchEvents[b]? with
  | none => .error (.branchNotFound b)
  | some m => .ok m.keys

/-- The events behind a slice of a branch's entries. Entries whose event is gone are skipped. -/
def eventsFor (seq : List (EventIndex × EventId)) : List TimelineEvent :=
  seq.filterMap fun e ↦ t.events[e.2]?

def getBranchHead (b : BranchId) : Except TimelineError EventIndex :=
  match t.branchEvents[b]? with
  | none => .error (.branchNotFound b)
  | some m => .ok (m.keys.max?.getD 0)

end Timeline

end RosheraCad
