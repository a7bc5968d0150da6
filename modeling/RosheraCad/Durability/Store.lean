import RosheraCad.Library.OrderedSet
import RosheraCad.Timeline.Merge

/-!
# The durable store

What one document keeps across a restart: a table of event rows and a table of branch rows. A branch
row carries a data blob of optional keys, each of which may be missing or unreadable. Every rewrite
of a branch row starts from the keys the row already carries.
-/

namespace RosheraCad

abbrev SequenceSet := OrderedSet EventIndex

/-! ## Branch rows -/

/-- One key of a data blob: missing, present but not readable as what it should hold, or read. -/
inductive Stored (α : Type)
  | absent
  | unreadable (error : String)
  | value (a : α)
  deriving DecidableEq

def Stored.value? {α : Type} : Stored α → Option α
  | value a => some a
  | absent | unreadable _ => none

structure StoredHead where
  lastApplied : Stored (Option EventIndex)
  tailEnd : Option EventIndex
  deriving DecidableEq

structure BranchData where
  createdBy : Stored Author
  inherited : Stored (List EventIndex)
  state : Stored BranchState
  merged : Stored (List EventIndex)
  appliedHead : Option StoredHead
  /-- The sequences a redo-tail discard dropped from the branch (`discarded_sequences`). -/
  discarded : Stored (List EventIndex)
  deriving DecidableEq

/-- A blob without keys. -/
def BranchData.empty : BranchData := ⟨.absent, .absent, .absent, .absent, none, .absent⟩

structure BranchRow where
  parentBranchId : Option BranchId
  forkSequence : ℤ
  name : String
  data : BranchData
  deriving DecidableEq

/-! ## Event rows -/

/-- A row of the event table. The columns are written from the event the blob holds. -/
structure EventRow where
  id : EventId
  sequenceNumber : ℤ
  branchId : Option BranchId
  data : Option TimelineEvent
  data_identified : ∀ ev, data = some ev → id = ev.id
  data_numbered : ∀ ev, data = some ev → sequenceNumber = ev.sequenceNumber

namespace EventRow

/-- The sequence a row stands at, read as boot reads the column. -/
def sequence (row : EventRow) : EventIndex := (max row.sequenceNumber 0).toNat

def toEventData (event : TimelineEvent) : EventRow where
  id := event.id
  sequenceNumber := event.sequenceNumber
  branchId := some event.branchId
  data := some event
  data_identified ev h := by rw [Option.some_inj.mp h]
  data_numbered ev h := by rw [Option.some_inj.mp h]

theorem sequence_of_data {row : EventRow} {ev : TimelineEvent} (h : row.data = some ev) :
    row.sequence = ev.sequenceNumber := by
  rw [sequence, row.data_numbered ev h, max_eq_left (Int.natCast_nonneg _), Int.toNat_natCast]

end EventRow

/-- The event table: no two rows share a primary key. -/
structure EventTable where
  rows : List EventRow
  ids_distinct : (rows.map EventRow.id).Nodup

namespace EventTable

def empty : EventTable := ⟨[], List.nodup_nil⟩

def insert (table : EventTable) (row : EventRow) : Option EventTable :=
  if h : row.id ∈ table.rows.map EventRow.id then none
  else some ⟨table.rows ++ [row], by
    rw [List.map_append, List.map_singleton, List.nodup_append_comm, List.singleton_append]
    exact List.nodup_cons.mpr ⟨h, table.ids_distinct⟩⟩

def deleteAt (table : EventTable) (purged : List EventIndex) : EventTable where
  rows := table.rows.filter fun row ↦ ¬ ∃ seq ∈ purged, row.sequenceNumber = (seq : ℤ)
  ids_distinct := table.ids_distinct.sublist (List.filter_sublist.map _)

def loadAllTimelineEvents (table : EventTable) : List EventRow :=
  table.rows.insertionSort fun a b ↦ a.sequenceNumber ≤ b.sequenceNumber

theorem insert_rows {table table' : EventTable} {row : EventRow}
    (h : table.insert row = some table') : table'.rows = table.rows ++ [row] := by
  rw [insert] at h
  split at h
  · cases h
  · cases h
    rfl

theorem mem_loadAllTimelineEvents {table : EventTable} {row : EventRow} :
    row ∈ table.loadAllTimelineEvents ↔ row ∈ table.rows :=
  List.mem_insertionSort _

theorem eq_of_id {table : EventTable} {row row' : EventRow} (h : row ∈ table.rows)
    (h' : row' ∈ table.rows) (hid : row.id = row'.id) : row = row' :=
  List.inj_on_of_nodup_map table.ids_distinct h h' hid

end EventTable

/-! ## The store -/

structure DurableStore where
  events : EventTable
  branches : OrderedMap BranchId BranchRow

/-- Why a durable write failed. -/
inductive DurabilityError
  | store (record : String)
  | missing (record id : String)
  | unreadableDiscarded (error : String)
  deriving DecidableEq

structure DurableHead where
  lastApplied : Option EventIndex
  /-- The sequence of the branch's last entry when the head was written. -/
  tailEnd : EventIndex
  deriving DecidableEq

namespace DurableStore

def empty : DurableStore := ⟨.empty, ∅⟩

variable (store : DurableStore)

def saveBranch (b : BranchId) (row : BranchRow) : DurableStore :=
  { store with branches := store.branches.insert b row }

def saveTimelineEvent (row : EventRow) : Except DurabilityError DurableStore :=
  match store.events.insert row with
  | none => .error (.store "timeline event")
  | some events => .ok { store with events }

/-- Delete the purged rows, write the branch rows and insert the event, all or nothing. -/
def discardRedoTail (purged : List EventIndex) (records : List (BranchId × BranchRow))
    (row : EventRow) : Except DurabilityError DurableStore :=
  match (store.events.deleteAt purged).insert row with
  | none => .error (.store "redo tail")
  | some events => .ok ⟨events, store.branches.insertEntries records⟩

def dataOf? (b : BranchId) : Option BranchData := store.branches[b]?.map BranchRow.data

/-! ## Rewriting a branch row -/

def branchRow (branch : Branch) (data : BranchData) : BranchRow :=
  ⟨branch.parent, branch.forkPoint.eventIndex, branch.name, data⟩

/-- The keys an existing row carries, under the live branch's author and state. -/
def rebuiltData (branch : Branch) (existing : Option BranchData) : BranchData :=
  { existing.getD .empty with
    createdBy := .value branch.createdBy
    state := .value branch.state }

def discardedBranchRecord (branch : Branch) (existing : Option BranchData)
    (removed : List EventIndex) : Except DurabilityError BranchRow :=
  let data := rebuiltData branch existing
  match data.discarded with
  | .unreadable e => .error (.unreadableDiscarded e)
  | discarded =>
    let sequences : SequenceSet :=
      (Std.ExtTreeSet.ofList (discarded.value?.getD [])).insertMany removed
    .ok (branchRow branch { data with
      discarded := .value sequences.toList
      appliedHead := none })

def discardedRecords (removed : List EventIndex) :
    List Branch → Except DurabilityError (List (BranchId × BranchRow))
  | [] => .ok []
  | branch :: branches =>
    match discardedBranchRecord branch (store.dataOf? branch.id) removed with
    | .error e => .error e
    | .ok row =>
      match discardedRecords removed branches with
      | .error e => .error e
      | .ok rows => .ok ((branch.id, row) :: rows)

/-! ## The persist functions -/

/-- Write an event through. -/
def persist (event : TimelineEvent) : Except DurabilityError DurableStore :=
  store.saveTimelineEvent (.toEventData event)

def persistDiscarding (event : TimelineEvent) (discard : RedoTailDiscard) :
    Except DurabilityError DurableStore :=
  match store.discardedRecords discard.removedSequences (discard.branch :: discard.cascaded) with
  | .error e => .error e
  | .ok records => store.discardRedoTail discard.purgedSequences records (.toEventData event)

def persistBranch (t : Timeline) (b : BranchId) (parent : Option BranchId) (forkSequence : ℤ)
    (name : String) (createdBy : Author) : DurableStore :=
  let data : BranchData := { BranchData.empty with createdBy := .value createdBy }
  store.saveBranch b ⟨parent, forkSequence, name,
    match t.branchEvents[b]? with
    | none => data
    | some m => { data with inherited := .value m.keys }⟩

def persistBranchTransition (t : Timeline) (b : BranchId)
    (mergedSequences : Option (List EventIndex)) : Except DurabilityError DurableStore :=
  match t.branches[b]? with
  | none => .error (.missing "branch" b.toText)
  | some branch =>
    let data := rebuiltData branch (store.dataOf? b)
    .ok (store.saveBranch b (branchRow branch
      (match mergedSequences with
      | none => data
      | some merged => { data with merged := .value merged })))

def persistAppliedHead (t : Timeline) (b : BranchId) (head : Option DurableHead) :
    Except DurabilityError DurableStore :=
  match t.branches[b]? with
  | none => .error (.missing "branch" b.toText)
  | some branch =>
    .ok (store.saveBranch b (branchRow branch
      { rebuiltData branch (store.dataOf? b) with
        appliedHead := head.map fun head ↦ ⟨.value head.lastApplied, some head.tailEnd⟩ }))

/-! ## What they write -/

variable {store}

@[simp] theorem saveBranch_branches (b c : BranchId) (row : BranchRow) :
    (store.saveBranch b row).branches[c]? = if c = b then some row else store.branches[c]? := by
  rw [saveBranch, OrderedMap.lookup_insert]

def discardedRow (store : DurableStore) (removed : List EventIndex) (branch : Branch) : BranchRow :=
  let data := rebuiltData branch (store.dataOf? branch.id)
  let sequences : SequenceSet :=
    (Std.ExtTreeSet.ofList (data.discarded.value?.getD [])).insertMany removed
  branchRow branch { data with
    discarded := .value sequences.toList
    appliedHead := none }

theorem discardedRecords_eq {removed : List EventIndex} {branches : List Branch}
    {records : List (BranchId × BranchRow)}
    (h : store.discardedRecords removed branches = .ok records) :
    records = branches.map fun branch ↦ (branch.id, store.discardedRow removed branch) := by
  induction branches generalizing records with
  | nil =>
    cases h
    rfl
  | cons branch branches ih =>
    rw [discardedRecords] at h
    cases hrow : discardedBranchRecord branch (store.dataOf? branch.id) removed with
    | error e =>
      rw [hrow] at h
      cases h
    | ok row =>
      have heq : row = store.discardedRow removed branch := by
        rw [discardedBranchRecord] at hrow
        rw [discardedRow]
        cases hd : (rebuiltData branch (store.dataOf? branch.id)).discarded with
        | absent =>
          rw [hd] at hrow
          cases hrow
          rfl
        | unreadable e =>
          rw [hd] at hrow
          cases hrow
        | value l =>
          rw [hd] at hrow
          cases hrow
          rfl
      cases hrest : store.discardedRecords removed branches with
      | error e =>
        rw [hrow, hrest] at h
        cases h
      | ok rows =>
        rw [hrow, hrest] at h
        cases h
        rw [List.map_cons, ih hrest, heq]

/-- **Everything a plain write-through does**: one more row. -/
theorem persist_eq {store' : DurableStore} {event : TimelineEvent}
    (h : store.persist event = .ok store') :
    store'.events.rows = store.events.rows ++ [.toEventData event] ∧
      store'.branches = store.branches := by
  rw [persist, saveTimelineEvent] at h
  cases hinsert : store.events.insert (.toEventData event) with
  | none =>
    rw [hinsert] at h
    cases h
  | some events =>
    rw [hinsert] at h
    cases h
    exact ⟨EventTable.insert_rows hinsert, rfl⟩

theorem persistDiscarding_eq {store' : DurableStore} {event : TimelineEvent}
    {discard : RedoTailDiscard} (h : store.persistDiscarding event discard = .ok store') :
    store'.events.rows =
        (store.events.deleteAt discard.purgedSequences).rows ++ [.toEventData event] ∧
      store'.branches = store.branches.insertEntries
        ((discard.branch :: discard.cascaded).map fun branch ↦
          (branch.id, store.discardedRow discard.removedSequences branch)) := by
  rw [persistDiscarding] at h
  cases hrecords : store.discardedRecords discard.removedSequences
      (discard.branch :: discard.cascaded) with
  | error e =>
    rw [hrecords] at h
    cases h
  | ok records =>
    rw [hrecords] at h
    simp only [discardRedoTail] at h
    cases hinsert : (store.events.deleteAt discard.purgedSequences).insert
        (.toEventData event) with
    | none =>
      rw [hinsert] at h
      cases h
    | some events =>
      rw [hinsert] at h
      cases h
      exact ⟨EventTable.insert_rows hinsert, by rw [discardedRecords_eq hrecords]⟩

end DurableStore

end RosheraCad
