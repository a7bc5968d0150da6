import RosheraCad.Durability.Histories

/-!
# Reading the event rows

A row that does not read is kept as a hole at its sequence, under the branch its column names or the
live branch. An event whose branch has no record is an orphan. A sequence held by more than one row
is a store fault.
-/

namespace RosheraCad

namespace EventRow

variable (plans : OrderedMap BranchId BranchPlan) (row : EventRow)

def attributed : BranchId := row.branchId.getD .main

def origin : BranchId := row.data.elim row.attributed TimelineEvent.branchId

def restorable : Option (EventIndex × TimelineEvent) :=
  match row.data with
  | some event => if event.branchId ∈ plans then some (row.sequence, event) else none
  | none => none

def orphaned : Option (EventIndex × BranchId) :=
  match row.data with
  | some event => if event.branchId ∈ plans then none else some (row.sequence, event.branchId)
  | none => none

def corrupted : Option (EventIndex × BranchId) :=
  match row.data with
  | some _ => none
  | none => some (row.sequence, row.attributed)

def ownEntry : Option (BranchId × List EventIndex) :=
  if row.origin ∈ plans then some (row.origin, [row.sequence]) else none

def fault : Option BranchFault :=
  if row.origin ∈ plans then none
  else
    match row.data with
    | some event => some (branchFault event.branchId (some row.sequence) .unknownOriginBranch
        [.text ("event at sequence " ++ toString row.sequence ++ " was recorded on branch "
          ++ event.branchId.toText ++ ", which has no durable branch record; it cannot be placed "
          ++ "in any history")])
    | none => some (branchFault row.attributed (some row.sequence) .corruptEventRow
        [.text ("row at sequence " ++ toString row.sequence ++ " could not be deserialized and "
          ++ "names branch " ++ row.attributed.toText ++ ", which has no durable branch record")])

end EventRow

structure RowScan where
  /-- The restorable event at each sequence, the last row read winning. -/
  bySeq : OrderedMap EventIndex TimelineEvent
  corrupt : OrderedMap EventIndex BranchId
  orphans : OrderedMap EventIndex BranchId
  own : OrderedMap BranchId SequenceSet
  duplicates : SequenceSet
  faults : List BranchFault

def scanRows (plans : OrderedMap BranchId BranchPlan) (rows : List EventRow) : RowScan where
  bySeq := OrderedMap.insertEntries ∅ (rows.filterMap fun row ↦ row.restorable plans)
  corrupt := OrderedMap.insertEntries ∅ (rows.filterMap EventRow.corrupted)
  orphans := OrderedMap.insertEntries ∅ (rows.filterMap fun row ↦ row.orphaned plans)
  own := OrderedMap.collect (rows.filterMap fun row ↦ row.ownEntry plans)
  duplicates := Std.ExtTreeSet.ofList ((rows.map EventRow.sequence).filter fun seq ↦
    1 < (rows.map EventRow.sequence).count seq)
  faults := rows.filterMap fun row ↦ row.fault plans

def recordedHistories (table : EventTable) (records : List BranchRecord) :
    OrderedMap BranchId SequenceSet :=
  let plans := (restoreBranches records).plans
  (branchHistories plans (scanRows plans table.loadAllTimelineEvents).own).1

/-! ## What the scan finds -/

variable {k : EventIndex} {ev : TimelineEvent}

section Scan

variable {plans : OrderedMap BranchId BranchPlan} {rows : List EventRow}

theorem mem_setAt_own {b : BranchId} :
    k ∈ (scanRows plans rows).own.setAt b ↔
      b ∈ plans ∧ ∃ row ∈ rows, row.origin = b ∧ row.sequence = k := by
  rw [scanRows, OrderedMap.mem_setAt_collect]
  simp only [List.mem_filterMap, EventRow.ownEntry, Option.ite_none_right_eq_some,
    Option.some.injEq, Prod.mk.injEq]
  constructor
  · rintro ⟨as, ⟨row, hrow, hplan, rfl, rfl⟩, hk⟩
    exact ⟨hplan, row, hrow, rfl, (List.mem_singleton.mp hk).symm⟩
  · rintro ⟨hplan, row, hrow, rfl, rfl⟩
    exact ⟨_, ⟨row, hrow, hplan, rfl, rfl⟩, List.mem_singleton_self _⟩

theorem mem_restorable {row : EventRow} :
    row.restorable plans = some (k, ev) ↔
      row.data = some ev ∧ ev.branchId ∈ plans ∧ row.sequence = k := by
  rw [EventRow.restorable]
  cases hdata : row.data with
  | none => simp
  | some event =>
    simp only [Option.ite_none_right_eq_some, Option.some.injEq, Prod.mk.injEq]
    constructor
    · rintro ⟨hplan, rfl, rfl⟩
      exact ⟨rfl, hplan, rfl⟩
    · rintro ⟨rfl, hplan, rfl⟩
      exact ⟨hplan, rfl, rfl⟩

theorem row_of_bySeq (h : (scanRows plans rows).bySeq[k]? = some ev) :
    ∃ row ∈ rows, row.data = some ev ∧ ev.branchId ∈ plans ∧ row.sequence = k := by
  rcases OrderedMap.mem_or_of_getElem?_insertEntries h with hes | hempty
  · obtain ⟨row, hrow, hrestorable⟩ := List.mem_filterMap.mp hes
    obtain ⟨hdata, hplan, hseq⟩ := mem_restorable.mp hrestorable
    exact ⟨row, hrow, hdata, hplan, hseq⟩
  · simp at hempty

theorem mem_bySeq_of_row {row : EventRow} (hrow : row ∈ rows)
    (hdata : row.data = some ev) (hplan : ev.branchId ∈ plans) :
    row.sequence ∈ (scanRows plans rows).bySeq := by
  refine OrderedMap.mem_insertEntries.mpr (Or.inl ⟨ev, ?_⟩)
  exact List.mem_filterMap.mpr ⟨row, hrow, mem_restorable.mpr ⟨hdata, hplan, rfl⟩⟩

theorem mem_duplicates : k ∈ (scanRows plans rows).duplicates ↔
    1 < (rows.map EventRow.sequence).count k := by
  rw [scanRows, OrderedSet.mem_ofList, List.mem_filter, decide_eq_true_eq]
  refine and_iff_right_of_imp fun hcount ↦ ?_
  exact List.count_pos_iff.mp (Nat.zero_lt_of_lt hcount)

end Scan

theorem sequence_of_bySeq {plans : OrderedMap BranchId BranchPlan} {rows : List EventRow}
    (h : (scanRows plans rows).bySeq[k]? = some ev) :
    ev.sequenceNumber = k := by
  obtain ⟨row, -, hdata, -, rfl⟩ := row_of_bySeq h
  exact (EventRow.sequence_of_data hdata).symm

theorem bySeq_of_id {plans : OrderedMap BranchId BranchPlan} {table : EventTable}
    {k l : EventIndex} {ev ev' : TimelineEvent}
    (hk : (scanRows plans table.loadAllTimelineEvents).bySeq[k]? = some ev)
    (hl : (scanRows plans table.loadAllTimelineEvents).bySeq[l]? = some ev')
    (hid : ev.id = ev'.id) : k = l := by
  obtain ⟨row, hrow, hdata, -, rfl⟩ := row_of_bySeq hk
  obtain ⟨row', hrow', hdata', -, rfl⟩ := row_of_bySeq hl
  have hids : row.id = row'.id := by
    rw [row.data_identified ev hdata, row'.data_identified ev' hdata', hid]
  rw [EventTable.eq_of_id (EventTable.mem_loadAllTimelineEvents.mp hrow)
    (EventTable.mem_loadAllTimelineEvents.mp hrow') hids]

end RosheraCad
