import RosheraCad.Durability.Reconcile
import RosheraCad.Timeline.Rehydrate
import Mathlib.Data.List.MinMax

/-!
# Boot

Boot rebuilds a document from its event rows and branch records. The live model is replayed from the
main branch's history: the first sequence that cannot be reproduced is the boundary, and everything
from there on is refused. How the kernel replays a history is left open.
-/

namespace RosheraCad

/-! ## The boundary -/

/-- The first event of the live history that cannot be served, and why. -/
structure Boundary where
  sequence : EventIndex
  kind : String
  reason : List ReasonPiece

/-- What boot asks of the kernel about recorded events. -/
structure ReplayChecks where
  firstBreak : List TimelineEvent → Option Boundary
  /-- The faces and edges an event's replay resolves by their recorded id. -/
  rawTopologyReferences : TimelineEvent → List String
  recordedSolidInputs : TimelineEvent → List ℕ
  recordedSolidOutputs : TimelineEvent → List ℕ

def earliest (breaks : List (Option Boundary)) : Option Boundary :=
  (breaks.filterMap id).argmin Boundary.sequence

namespace ReplayChecks

variable (checks : ReplayChecks)

/-- The first event that addresses a face or an edge by its id after a foreign event ran in the same
model. -/
def interleaveBreak (history : List TimelineEvent) (firstForeign : Option (EventIndex × BranchId)) :
    Option Boundary :=
  firstForeign.bind fun foreign ↦
    (history.filter (foreign.1 < ·.sequenceNumber)).findSome? fun e ↦
      match checks.rawTopologyReferences e with
      | [] => none
      | refs => some ⟨e.sequenceNumber, "interleaved_foreign_history", [.text ("event at sequence "
          ++ toString e.sequenceNumber ++ " addresses " ++ String.intercalate ", " refs
          ++ " by its raw recorded kernel id, but branch " ++ foreign.2.toText
          ++ " recorded sequence " ++ toString foreign.1
          ++ " into the same runtime model before it;"
          ++ " replaying this branch alone shifts kernel ids, so the reference cannot be reproduced"
          ++ " and is refused")]⟩

def solidBreak (producerOutside : ℕ → EventIndex → Option (EventIndex × BranchId)) :
    (produced : List ℕ) → List TimelineEvent → Option Boundary
  | _, [] => none
  | produced, event :: history =>
    match (checks.recordedSolidInputs event).find? (· ∉ produced) with
    | some solid =>
      let origin := match producerOutside solid event.sequenceNumber with
        | some (seq, branch) => "it was produced by sequence " ++ toString seq ++ " on branch "
            ++ branch.toText ++ ", outside this history"
        | none => "no persisted event produced it"
      some ⟨event.sequenceNumber, "foreign_solid_input", [.text ("event at sequence "
        ++ toString event.sequenceNumber ++ " takes solid:" ++ toString solid
        ++ " as input, but no earlier event in this branch's history produced it (" ++ origin
        ++ "); replay would bind whatever solid carries that number, so it is refused")]⟩
    | none => solidBreak producerOutside (produced ++ checks.recordedSolidOutputs event) history

/-- Where the first event of a subset replay sits that its history alone cannot reproduce. -/
def subsetReplayBoundary (history : List TimelineEvent)
    (firstForeign : Option (EventIndex × BranchId))
    (producerOutside : ℕ → EventIndex → Option (EventIndex × BranchId)) : Option Boundary :=
  earliest [checks.interleaveBreak history firstForeign,
    checks.solidBreak producerOutside [] history]

end ReplayChecks

/-! ## What boot has read -/

/-- The stored rows and records, read and reconciled. -/
structure LoadedDocument where
  timeline : Timeline
  rows : List EventRow
  scan : RowScan
  reconciled : Reconciled
  faults : List BranchFault

/-- Read the records and the rows, rebuild the histories and drop the tails of stale heads. -/
def loadDocument (table : EventTable) (records : List BranchRecord) : LoadedDocument :=
  let restored := restoreBranches records
  let rows := table.loadAllTimelineEvents
  let scan := scanRows restored.plans rows
  let (histories, walkFaults) := branchHistories restored.plans scan.own
  let reconciled := reconcileStaleHeads restored.plans histories
  { timeline := restored.timeline
    rows
    scan
    reconciled
    faults := restored.faults ++ scan.faults ++ walkFaults ++ reconciled.faults }

namespace LoadedDocument

variable (d : LoadedDocument) (checks : ReplayChecks)

def history (b : BranchId) : SequenceSet := d.reconciled.histories.setAt b

def liveHistory : SequenceSet := d.history .main

def liveEvents : List TimelineEvent := d.liveHistory.toList.filterMap fun seq ↦ d.scan.bySeq[seq]?

/-! ### Breaks of the live history -/

/-- Why a history names a sequence no restorable event holds. -/
def holeCause (seq : EventIndex) : FaultKind × List ReasonPiece :=
  if seq ∈ d.scan.corrupt then
    (.corruptEventRow,
      [.text "event row could not be deserialized (corrupt or from an incompatible build)"])
  else
    match d.scan.orphans[seq]? with
    | some origin => (.unknownOriginBranch, [.text ("event at sequence " ++ toString seq
        ++ " was recorded on branch " ++ origin.toText ++ ", which has no durable branch record")])
    | none => (.missingEvent, [.text ("the branch's durable history names sequence "
        ++ toString seq ++ ", but no persisted event holds it")])

/-- The first sequence of the live history that no restorable event holds. -/
def holeBreak : Option Boundary :=
  (d.liveHistory.toList.find? (· ∉ d.scan.bySeq)).map fun seq ↦
    ⟨seq, (d.holeCause seq).1.text, (d.holeCause seq).2⟩

/-- The first sequence of the live history held by more than one row. -/
def duplicateBreak : Option Boundary :=
  (d.liveHistory.toList.find? (· ∈ d.scan.duplicates)).map fun seq ↦
    ⟨seq, "duplicate_sequence", [.text ("sequence " ++ toString seq
      ++ " is held by more than one stored event row; which row is this history cannot be "
      ++ "determined")]⟩

/-- The earliest stored sequence outside the live history, and its branch. -/
def firstForeign : Option (EventIndex × BranchId) :=
  ((d.rows.map EventRow.sequence).filter (· ∉ d.liveHistory)).min?.map fun seq ↦
    (seq, (((d.scan.bySeq[seq]?.map TimelineEvent.branchId).or d.scan.corrupt[seq]?).or
      d.scan.orphans[seq]?).getD .main)

/-- The latest stored event below `before` that produced `solid`. -/
def producerOutside (solid : ℕ) (before : EventIndex) : Option (EventIndex × BranchId) :=
  (((d.scan.bySeq.toList.map Prod.snd).filter fun p ↦
    p.sequenceNumber < before ∧ solid ∈ checks.recordedSolidOutputs p).argmax
      TimelineEvent.sequenceNumber).map fun p ↦ (p.sequenceNumber, p.branchId)

/-- The first sequence of the live history that cannot be served, a duplicate first. -/
def boundary : Option Boundary :=
  earliest [d.duplicateBreak, checks.firstBreak d.liveEvents, d.holeBreak,
    checks.subsetReplayBoundary d.liveEvents d.firstForeign (d.producerOutside checks)]

def refusedByLive (seq : EventIndex) : Bool :=
  (d.boundary checks).any fun bound ↦ bound.sequence ≤ seq

def duplicateFaults : List BranchFault :=
  (d.scan.duplicates.toList.filter (· ∉ d.liveHistory)).map fun seq ↦
    branchFault ((d.scan.bySeq[seq]?.map TimelineEvent.branchId).getD .main) (some seq)
      .duplicateSequence
      [.text ("sequence " ++ toString seq ++ " is held by more than one stored event row")]

/-! ### The events that are restored -/

def liveHead : Option (Option EventIndex) := d.reconciled.plans[BranchId.main]?.bind
  BranchPlan.appliedHead

/-- The events replayed into the model: the live history's clean prefix, up to the applied head. -/
def served : List TimelineEvent :=
  (d.liveEvents.filter fun e ↦ !d.refusedByLive checks e.sequenceNumber).filter fun e ↦
    withinAppliedHead d.liveHead e.sequenceNumber

def held (seq : EventIndex) : Bool := d.reconciled.histories.toList.any fun e ↦ seq ∈ e.2

/-- Some history holds the event, and it is not of the live branch's refused tail. -/
def restores (e : TimelineEvent) : Bool :=
  !(e.branchId == .main && d.refusedByLive checks e.sequenceNumber) && d.held e.sequenceNumber

def restored : List TimelineEvent := (d.scan.bySeq.toList.map Prod.snd).filter (d.restores checks)

def restoredIds : OrderedMap EventIndex (EventId × BranchId) :=
  OrderedMap.insertEntries ∅
    ((d.restored checks).map fun e ↦ (e.sequenceNumber, (e.id, e.branchId)))

def entryToFile (b : BranchId) (seq : EventIndex) : Option (EventIndex × EventId) :=
  if b = .main ∧ d.refusedByLive checks seq then none
  else
    match (d.restoredIds checks)[seq]? with
    | some (id, origin) => if origin ≠ b then some (seq, id) else none
    | none => none

def unfiledFault (b : BranchId) (seq : EventIndex) : Option BranchFault :=
  if b = .main ∧ d.refusedByLive checks seq then none
  else
    match (d.restoredIds checks)[seq]? with
    | some _ => none
    | none =>
      if b = .main then none
      else if seq ∈ d.scan.bySeq then
        some (branchFault b (some seq) .refusedByLiveQuarantine [.text ("event at sequence "
          ++ toString seq ++ " belongs to the live branch's quarantined tail and is refused on "
          ++ "every branch")])
      else some (branchFault b (some seq) (d.holeCause seq).1 (d.holeCause seq).2)

/-- The restored entries the branch that recorded them no longer holds. -/
def unfiled (b : BranchId) (history : SequenceSet) : List EventIndex :=
  ((d.restoredIds checks).toList.filter fun e ↦ e.2.2 = b ∧ e.1 ∉ history).map Prod.fst

end LoadedDocument

/-! ## Restoring the timeline -/

structure Restoring where
  timeline : Timeline
  faults : List BranchFault

namespace Restoring

variable (r : Restoring)

/-- Take a step of the restoration, naming a refusal as a fault of `b`. -/
def attempt (b : BranchId) (message : String) (op : Timeline → Outcome Unit) : Restoring :=
  match op r.timeline with
  | (.ok (), t) => ⟨t, r.faults⟩
  | (.error e, t) =>
    ⟨t, r.faults ++ [branchFault b none .restoreFailed [.text message, .error e]]⟩

variable (d : LoadedDocument) (checks : ReplayChecks)

def fileEntries (e : BranchId × SequenceSet) : Restoring :=
  Restoring.attempt ⟨r.timeline, r.faults ++ e.2.toList.filterMap (d.unfiledFault checks e.1)⟩ e.1
    "the branch's history entries could not be restored: "
    fun t ↦ t.rehydrateBranchEntries e.1 (e.2.toList.filterMap (d.entryToFile checks e.1))

/-- Take the entries a branch's history dropped out of its index again. -/
def unfileEntries (e : BranchId × SequenceSet) : Restoring :=
  match d.unfiled checks e.1 e.2 with
  | [] => r
  | unfiled => r.attempt e.1 "the branch's discarded entries could not be removed: "
      fun t ↦ t.removeBranchEntries e.1 unfiled

/-- Put a branch's applied head back, counted against its index as restored. -/
def restoreHead (e : BranchId × BranchPlan) : Restoring :=
  match e.2.appliedHead with
  | none => r
  | some head =>
    r.attempt e.1 "the branch's applied head could not be restored: " fun t ↦
      t.setAppliedHead e.1 ((t.index e.1).keys.countP (withinAppliedHead (some head)))

end Restoring

namespace LoadedDocument

variable (d : LoadedDocument) (checks : ReplayChecks)

/-- The timeline with the events back, and the counter past every stored row. -/
def rehydrated : Timeline :=
  let t := (d.timeline.rehydrateEvents (d.restored checks)).2
  match (d.rows.map EventRow.sequence).max? with
  | some maxStored => t.ensureNextSequenceAtLeast (maxStored + 1)
  | none => t

/-- The timeline with every history and every applied head back, and all the faults. -/
def restoration : Restoring :=
  let r : Restoring := ⟨d.rehydrated checks, d.faults ++ d.duplicateFaults⟩
  let r := d.reconciled.histories.toList.foldl (fun r e ↦ r.fileEntries d checks e) r
  let r := d.reconciled.histories.toList.foldl (fun r e ↦ r.unfileEntries d checks e) r
  d.reconciled.plans.toList.foldl (fun r e ↦ r.restoreHead e) r

end LoadedDocument

/-! ## The boot -/

def BranchFault.reportedBefore (a b : BranchFault) : Bool :=
  match a.sequence, b.sequence with
  | none, some _ => true
  | some _, none => false
  | none, none => a.branchId ≤ b.branchId
  | some k, some l => k < l || k == l && decide (a.branchId ≤ b.branchId)

inductive DurabilityStatus
  | empty
  | active (eventsReplayed eventsRestored : ℕ) (branchFaults : List BranchFault)
  | quarantined (boundary : Boundary) (eventsServed eventsTotal : ℕ)
      (branchFaults : List BranchFault)

namespace DurabilityStatus

def branchFaults : DurabilityStatus → List BranchFault
  | empty => []
  | active _ _ faults => faults
  | quarantined _ _ _ faults => faults

def boundary : DurabilityStatus → Option Boundary
  | quarantined bound _ _ _ => some bound
  | _ => none

end DurabilityStatus

structure Boot where
  status : DurabilityStatus
  timeline : Timeline
  served : List TimelineEvent
  records : List BranchRecord

/-- Rebuild a document. A document without event rows boots blank. -/
def bootReplay (checks : ReplayChecks) (table : EventTable) (records : List BranchRecord) : Boot :=
  let d := loadDocument table records
  match d.rows with
  | [] => ⟨.empty, d.timeline, [], records⟩
  | _ :: _ =>
    let restoration := d.restoration checks
    let faults := restoration.faults.insertionSort (BranchFault.reportedBefore · ·)
    let status := match d.boundary checks with
      | some bound => .quarantined bound (d.served checks).length d.liveHistory.size faults
      | none => .active (d.served checks).length (d.restored checks).length faults
    ⟨status, restoration.timeline, d.served checks, records.map d.reconciled.correctedRecord⟩

end RosheraCad
