import RosheraCad.Library.Run
import RosheraCad.Timeline.Merge

/-!
# Runs of the timeline

A run starts from `Timeline.new` and takes any finite sequence of operations. Two conditions come
with the operations that draw something new: an identifier is not in use when it is drawn, and a
reserved number is used at most once.
-/

namespace RosheraCad

/-- A timeline and the sequence numbers reserved on it and not yet used. -/
structure TimelineRun where
  timeline : Timeline
  reserved : List EventIndex

inductive TimelineOp
  | reserveSequenceNumber
  | addOperation (operation : Operation) (author : Author) (branch : BranchId) (eventId : EventId)
  | addOperationReserved (operation : Operation) (author : Author) (branch : BranchId)
      (sequenceNumber : EventIndex) (eventId : EventId)
  | createBranch (name : String) (parent : BranchId) (forkPoint : Option EventIndex)
      (author : Author) (branchId : BranchId)
  | mergeBranches (source target : BranchId) (strategy : MergeStrategy) (now : Timestamp)
  | truncateBranch (branch : BranchId) (cut : EventIndex) (force : Bool)
  | abandonBranch (branch : BranchId) (reason : String) (force : Bool)
  | updateSessionPosition (session : SessionId) (branch : BranchId) (eventIndex : EventIndex)
  | setAppliedHead (branch : BranchId) (count : EventIndex)
  | undo (session : SessionId)
  | redo (session : SessionId)

namespace TimelineRun

/-- When an operation may be taken: what it draws is new, and a reserved number it uses is held. -/
def enabled (s : TimelineRun) : TimelineOp → Prop
  | .addOperation _ _ _ eventId => eventId ∉ s.timeline.events
  | .addOperationReserved _ _ _ seq eventId => seq ∈ s.reserved ∧ eventId ∉ s.timeline.events
  | .createBranch _ _ _ _ branchId => branchId ∉ s.timeline.branches
  | _ => True

instance (s : TimelineRun) : ∀ op, Decidable (s.enabled op)
  | .addOperation _ _ _ eventId => inferInstanceAs (Decidable (eventId ∉ s.timeline.events))
  | .addOperationReserved _ _ _ seq eventId =>
    inferInstanceAs (Decidable (seq ∈ s.reserved ∧ eventId ∉ s.timeline.events))
  | .createBranch _ _ _ _ branchId => inferInstanceAs (Decidable (branchId ∉ s.timeline.branches))
  | .reserveSequenceNumber | .mergeBranches .. | .truncateBranch .. | .abandonBranch ..
  | .updateSessionPosition .. | .setAppliedHead .. | .undo _ | .redo _ => isTrue trivial

variable [UuidParser]

/-- The outcome of an operation, whether it succeeds or not. -/
def step (s : TimelineRun) : TimelineOp → TimelineRun
  | .reserveSequenceNumber =>
    ⟨s.timeline.reserveSequenceNumber.2, s.timeline.reserveSequenceNumber.1 :: s.reserved⟩
  | .addOperation operation author b eventId =>
    { s with timeline := (s.timeline.appendInternal operation author b none eventId).2 }
  | .addOperationReserved operation author b seq eventId =>
    ⟨(s.timeline.appendInternal operation author b (some seq) eventId).2,
      Timeline.remaining (some seq) s.reserved⟩
  | .createBranch name parent forkPoint author branchId =>
    { s with timeline := (s.timeline.createBranch name parent forkPoint author branchId).2 }
  | .mergeBranches source target strategy now =>
    { s with timeline := (s.timeline.mergeBranches source target strategy now).2 }
  | .truncateBranch b cut force =>
    { s with timeline := (s.timeline.truncateBranch b cut force).2 }
  | .abandonBranch b reason force =>
    { s with timeline := (s.timeline.abandonBranch b reason force).2 }
  | .updateSessionPosition session b i =>
    { s with timeline := (s.timeline.updateSessionPosition session b i).2 }
  | .setAppliedHead b count => { s with timeline := (s.timeline.setAppliedHead b count).2 }
  | .undo session => { s with timeline := (s.timeline.undo session).2 }
  | .redo session => { s with timeline := (s.timeline.redo session).2 }

end TimelineRun

def timelineSystem [UuidParser] : GuardedSystem TimelineRun TimelineOp where
  init := ⟨.new, []⟩
  enabled := TimelineRun.enabled
  step := TimelineRun.step

instance [UuidParser] (s : TimelineRun) (op : TimelineOp) :
    Decidable (timelineSystem.enabled s op) :=
  inferInstanceAs (Decidable (s.enabled op))

section Invariant

variable [UuidParser] {s : TimelineRun}

/-- **One step keeps the invariant**, whichever operation it takes and whether or not it
succeeds. -/
theorem TimelineRun.step_wellFormed (h : s.timeline.WellFormed s.reserved) {op : TimelineOp}
    (he : s.enabled op) : (s.step op).timeline.WellFormed (s.step op).reserved := by
  cases op with
  | reserveSequenceNumber => exact Timeline.reserveSequenceNumber_wellFormed h
  | addOperation operation author b eventId =>
    have hnone : ∀ r, (none : Option EventIndex) = some r → r ∈ s.reserved := nofun
    refine (Timeline.appendInternal_wellFormed h hnone he).mono fun r hr ↦ ?_
    exact List.mem_filter.mpr ⟨hr, rfl⟩
  | addOperationReserved operation author b seq eventId =>
    refine Timeline.appendInternal_wellFormed h (fun r hr ↦ ?_) he.2
    cases hr
    exact he.1
  | createBranch name parent forkPoint author branchId =>
    exact Timeline.createBranch_wellFormed h name parent forkPoint author he
  | mergeBranches source target strategy now =>
    exact Timeline.mergeBranches_wellFormed h source target strategy now
  | truncateBranch b cut force => exact Timeline.truncateBranch_wellFormed b cut force h
  | abandonBranch b reason force => exact Timeline.abandonBranch_wellFormed b reason force h
  | updateSessionPosition session b i =>
    exact Timeline.updateSessionPosition_wellFormed h session b i
  | setAppliedHead b count => exact Timeline.setAppliedHead_wellFormed h b count
  | undo session => exact Timeline.undo_wellFormed h session
  | redo session => exact Timeline.redo_wellFormed h session

theorem reachable_wellFormed (h : timelineSystem.Reachable s) :
    s.timeline.WellFormed s.reserved :=
  h.invariant (fun s ↦ s.timeline.WellFormed s.reserved) Timeline.new_wellFormed
    fun _ _ _ hs he _ ↦ TimelineRun.step_wellFormed hs he

/-- The seven relations `validate` documents hold together on every reachable timeline. -/
theorem crossMapInvariants_of_reachable (h : timelineSystem.Reachable s) :
    s.timeline.CrossMapInvariants :=
  (reachable_wellFormed h).toCrossMapInvariants

end Invariant

/-! ## Example runs

The identifiers and operations the concrete runs of this development are built from. None of their
operations carries a reference with a UUID, so the parser is never consulted. -/

/-- A parser for runs that never read a UUID. -/
abbrev noUuids : UuidParser := ⟨fun _ ↦ none⟩

/-- The `n`-th event of an example run. -/
def exampleEvent (n : ℕ) : EventId := ⟨BitVec.ofNat 128 n⟩

/-- The `n`-th branch of an example run; the main branch is the zeroth. -/
def exampleBranch (n : ℕ) : BranchId := ⟨BitVec.ofNat 128 n⟩

/-- An operation that names no entity. -/
def exampleOp : Operation := .createPrimitive (.string "Box") .null

def exampleRun (ops : List TimelineOp) : TimelineRun :=
  (@timelineSystem noUuids).run ⟨.new, []⟩ ops

/-- A run of fork, merge, undo and truncate keeps the seven relations. -/
theorem crossMapInvariants_of_example : (exampleRun
    [.addOperation exampleOp .system .main (exampleEvent 1),
      .createBranch "side" .main none .system (exampleBranch 1),
      .addOperation exampleOp .system (exampleBranch 1) (exampleEvent 2),
      .mergeBranches (exampleBranch 1) .main .fastForward ⟨0⟩,
      .setAppliedHead .main 1,
      .addOperation exampleOp .system .main (exampleEvent 3),
      .truncateBranch .main 2 true]).timeline.CrossMapInvariants :=
  letI := noUuids
  crossMapInvariants_of_reachable (GuardedSystem.ReachableUnder.run .init (by decide))

end RosheraCad
