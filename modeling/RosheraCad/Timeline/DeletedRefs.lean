import RosheraCad.Timeline.Reachable

/-!
# Deleted references in a three-way merge

A kernel record names what its operation removed, and the envelope carries the list, but the
classification of a merge reads an envelope's inputs and outputs only.
-/

namespace RosheraCad

def recordedRefs (channel : String) : Operation → List String
  | .generic _ parameters => parseRefArray parameters channel
  | _ => []

/-- An event in the shape the recorder emits. -/
def IsRecorded (ev : TimelineEvent) : Prop :=
  ∃ record : RecordedOperation, ev.operation = record.toTimelineOperation

theorem isRecorded_of_operations {events : List TimelineEvent} {records : List RecordedOperation}
    (h : events.map TimelineEvent.operation = records.map RecordedOperation.toTimelineOperation) :
    ∀ ev ∈ events, IsRecorded ev := by
  intro ev hev
  have hmem : ev.operation ∈ records.map RecordedOperation.toTimelineOperation :=
    h ▸ List.mem_map_of_mem hev
  obtain ⟨record, -, hrecord⟩ := List.mem_map.mp hmem
  exact ⟨record, hrecord.symm⟩

/-! ## The roles of a reference on a recorded side -/

section Roles

variable {events : List TimelineEvent} {r : String}

def lastOutput (r : String) (events : List TimelineEvent) : Option TimelineEvent :=
  events.findRev? fun ev ↦ r ∈ recordedRefs "outputs" ev.operation

private theorem find?_congr {α : Type} {p q : α → Bool} {l : List α} (h : ∀ a ∈ l, p a = q a) :
    l.find? p = l.find? q := by
  induction l with
  | nil => rfl
  | cons a l ih =>
    rw [List.find?_cons, List.find?_cons, h a List.mem_cons_self,
      ih fun b hb ↦ h b (List.mem_cons_of_mem _ hb)]

theorem deletedBy_roleOf_recorded (h : ∀ ev ∈ events, IsRecorded ev) (s : ConflictSubject) :
    (roleOf events s).deletedBy = none := by
  simp only [roleOf, lastListing, List.findRev?_eq_find?_reverse, List.find?_eq_none,
    List.mem_reverse]
  intro ev hev
  obtain ⟨record, hrecord⟩ := h ev hev
  simp [hrecord, RecordedOperation.toTimelineOperation, getAffectedSubjects]

theorem touchedBy_roleOf_recorded (h : ∀ ev ∈ events, IsRecorded ev) :
    (roleOf events (.kernelRef r)).touchedBy = lastOutput r events := by
  simp only [roleOf, lastListing, lastOutput, List.findRev?_eq_find?_reverse]
  refine find?_congr fun ev hev ↦ ?_
  obtain ⟨record, hrecord⟩ := h ev (List.mem_reverse.mp hev)
  simp [hrecord, RecordedOperation.toTimelineOperation, getAffectedSubjects, recordedRefs]

theorem classifySubjectConflict_isSome_iff {source target : SubjectRole}
    (hs : source.deletedBy = none) (ht : target.deletedBy = none) :
    (classifySubjectConflict source target).isSome ↔
      ∃ a b, source.touchedBy = some a ∧ target.touchedBy = some b ∧
        operationsIdentical a.operation b.operation = false := by
  obtain ⟨sd, st, sr⟩ := source
  obtain ⟨td, tt, tr⟩ := target
  simp only at hs ht
  subst hs ht
  cases st with
  | none => cases tt <;> cases sr <;> cases tr <;> simp [classifySubjectConflict]
  | some a =>
    cases tt with
    | none => cases sr <;> cases tr <;> simp [classifySubjectConflict]
    | some b =>
      by_cases hab : operationsIdentical a.operation b.operation = true
      · simp [classifySubjectConflict, hab]
      · simp [classifySubjectConflict, hab]

end Roles

/-! ## Delete against use -/

namespace Timeline

/-- One side deletes `r` after the merge base, and the other uses it. -/
def DeleteUseClash (t : Timeline) (source target : BranchId) (r : String) : Prop :=
  ∃ a b, (a = source ∧ b = target ∨ a = target ∧ b = source) ∧
    (∃ ev ∈ t.eventsAfterBase source target a, r ∈ recordedRefs "deleted" ev.operation) ∧
    ∃ ev ∈ t.eventsAfterBase source target b,
      r ∈ recordedRefs "inputs" ev.operation ∨ r ∈ recordedRefs "outputs" ev.operation

/-- A merge reports a conflict on the kernel reference `r` and does not succeed. -/
def ReportsConflictOn (out : Outcome MergeResult) (r : String) : Prop :=
  ∃ result, out.1 = .ok result ∧ result.success = false ∧
    ∃ c ∈ result.conflicts, c.subject = .kernelRef r

theorem not_reportsConflictOn_of_succeeded {out : Outcome MergeResult} {r : String}
    (hs : mergeSucceeded out) : ¬ ReportsConflictOn out r := by
  rintro ⟨result, hresult, hfailed, -⟩
  obtain ⟨answer, t⟩ := out
  obtain rfl : answer = .ok result := hresult
  rw [mergeSucceeded, hfailed] at hs
  cases hs

/-- Both sides list `r` among their outputs after the merge base, and the last operations to do so
differ. -/
def OutputsDiffer (t : Timeline) (source target : BranchId) (r : String) : Prop :=
  ∃ a b, lastOutput r (t.eventsAfterBase source target source) = some a ∧
    lastOutput r (t.eventsAfterBase source target target) = some b ∧
    operationsIdentical a.operation b.operation = false

section Spec

variable {t : Timeline} {source target : BranchId} {cs : ConflictStrategy} {now : Timestamp}
  {reserved : List EventIndex}

/-- **On recorded sides a reference is reported exactly when both sides output it differently.** -/
theorem reportsConflictOn_iff (h : t.WellFormed reserved) (hd : t.Diverged source target)
    (hs : ∀ ev ∈ t.eventsAfterBase source target source, IsRecorded ev)
    (ht : ∀ ev ∈ t.eventsAfterBase source target target, IsRecorded ev) (r : String) :
    ReportsConflictOn (t.mergeBranches source target (.threeWay cs) now) r ↔
      cs.Reports ∧ t.OutputsDiffer source target r := by
  have hlisted : (∃ c ∈ classifyDivergenceConflicts (t.eventsAfterBase source target source)
      (t.eventsAfterBase source target target), c.subject = .kernelRef r) ↔
        t.OutputsDiffer source target r := by
    rw [exists_conflict_iff, classifySubjectConflict_isSome_iff (deletedBy_roleOf_recorded hs _)
      (deletedBy_roleOf_recorded ht _), touchedBy_roleOf_recorded hs, touchedBy_roleOf_recorded ht]
    rfl
  rw [ReportsConflictOn, mergeBranches_of_diverged h hd]
  by_cases hcs : cs.Reports
  · rw [strategyRefusal_threeWay _ _ _ _ hcs, ← hlisted]
    constructor
    · rintro ⟨result, hresult, -, c, hc, hsubject⟩
      refine ⟨hcs, c, ?_, hsubject⟩
      simp only at hresult
      split at hresult
      · cases hresult
        simp [mergedResult] at hc
      · cases hresult
        exact hc
    · rintro ⟨-, c, hc, hsubject⟩
      exact ⟨_, if_neg (List.ne_nil_of_mem hc), rfl, c, hc, hsubject⟩
  · refine iff_of_false ?_ fun hreports ↦ hcs hreports.1
    obtain ⟨model, criteria, rfl⟩ : ∃ model criteria, cs = .ai model criteria := by
      simpa [ConflictStrategy.Reports] using hcs
    rintro ⟨result, hresult, -⟩
    cases hresult

end Spec

end Timeline

/-! ## On reachable timelines -/

/-- **A three-way merge reports the reference of a delete-use clash exactly when both sides list it
among their outputs, last by operations that differ.** -/
theorem delete_use_reported_iff [UuidParser] {s : TimelineRun} (h : timelineSystem.Reachable s)
    {source target : BranchId} (hd : s.timeline.Diverged source target)
    (hs : ∀ ev ∈ s.timeline.eventsAfterBase source target source, IsRecorded ev)
    (ht : ∀ ev ∈ s.timeline.eventsAfterBase source target target, IsRecorded ev)
    (cs : ConflictStrategy) (now : Timestamp) (r : String) :
    (s.timeline.DeleteUseClash source target r →
        Timeline.ReportsConflictOn
          (s.timeline.mergeBranches source target (.threeWay cs) now) r) ↔
      (s.timeline.DeleteUseClash source target r →
        cs.Reports ∧ s.timeline.OutputsDiffer source target r) :=
  imp_congr_right fun _ ↦ Timeline.reportsConflictOn_iff (reachable_wellFormed h) hd hs ht r

def deleteRecord : RecordedOperation where
  kind := "delete_solid"
  parameters := .null
  inputs := ["solid:1"]
  outputs := []
  deleted := ["solid:1"]
  facets := []

def moveRecord : RecordedOperation where
  kind := "transform"
  parameters := .null
  inputs := ["solid:1"]
  outputs := ["solid:1"]
  deleted := []
  facets := []

def deleteMoveRun : TimelineRun := exampleRun
  [.addOperation exampleOp .system .main (exampleEvent 1),
    .createBranch "side" .main none .system (exampleBranch 1),
    .addOperation moveRecord.toTimelineOperation .system .main (exampleEvent 2),
    .addOperation deleteRecord.toTimelineOperation .system (exampleBranch 1) (exampleEvent 3)]

theorem deleteMoveRun_reachable : (@timelineSystem noUuids).Reachable deleteMoveRun :=
  letI := noUuids
  .run .init (by decide)

theorem deleteMoveRun_diverged : deleteMoveRun.timeline.Diverged (exampleBranch 1) .main :=
  ⟨⟨by decide, by decide, by decide⟩, by decide, by decide⟩

theorem deleteMoveRun_sides :
    (deleteMoveRun.timeline.eventsAfterBase (exampleBranch 1) .main (exampleBranch 1)).map
        TimelineEvent.operation = [deleteRecord].map RecordedOperation.toTimelineOperation ∧
      (deleteMoveRun.timeline.eventsAfterBase (exampleBranch 1) .main .main).map
        TimelineEvent.operation = [moveRecord].map RecordedOperation.toTimelineOperation :=
  ⟨rfl, rfl⟩

theorem delete_use_reported_iff_example :
    (deleteMoveRun.timeline.DeleteUseClash (exampleBranch 1) .main "solid:1" →
        Timeline.ReportsConflictOn (deleteMoveRun.timeline.mergeBranches (exampleBranch 1) .main
          (.threeWay .manual) ⟨0⟩) "solid:1") ↔
      (deleteMoveRun.timeline.DeleteUseClash (exampleBranch 1) .main "solid:1" →
        ConflictStrategy.Reports .manual ∧
          deleteMoveRun.timeline.OutputsDiffer (exampleBranch 1) .main "solid:1") :=
  letI := noUuids
  delete_use_reported_iff deleteMoveRun_reachable deleteMoveRun_diverged
    (isRecorded_of_operations deleteMoveRun_sides.1)
    (isRecorded_of_operations deleteMoveRun_sides.2) .manual ⟨0⟩ "solid:1"

/-- A merge joins the deletion of a solid with its move, and reports nothing. -/
theorem delete_move_merged :
    (@timelineSystem noUuids).Reachable deleteMoveRun ∧
      deleteMoveRun.timeline.Diverged (exampleBranch 1) .main ∧
      (∀ ev ∈ deleteMoveRun.timeline.eventsAfterBase (exampleBranch 1) .main (exampleBranch 1),
        IsRecorded ev) ∧
      (∀ ev ∈ deleteMoveRun.timeline.eventsAfterBase (exampleBranch 1) .main .main,
        IsRecorded ev) ∧
      deleteMoveRun.timeline.DeleteUseClash (exampleBranch 1) .main "solid:1" ∧
      Timeline.mergeSucceeded (deleteMoveRun.timeline.mergeBranches (exampleBranch 1) .main
        (.threeWay .manual) ⟨0⟩) ∧
      ¬ Timeline.ReportsConflictOn (deleteMoveRun.timeline.mergeBranches (exampleBranch 1) .main
        (.threeWay .manual) ⟨0⟩) "solid:1" := by
  refine ⟨deleteMoveRun_reachable, deleteMoveRun_diverged,
    isRecorded_of_operations deleteMoveRun_sides.1, isRecorded_of_operations deleteMoveRun_sides.2,
    ⟨exampleBranch 1, .main, Or.inl ⟨rfl, rfl⟩, ?_, ?_⟩, by decide,
    Timeline.not_reportsConflictOn_of_succeeded (by decide)⟩
  · decide
  · decide

end RosheraCad
