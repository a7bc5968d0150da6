import RosheraCad.Durability.Rows
import RosheraCad.Timeline.Reachable

/-!
# Runs with a durable store

A run of the timeline whose operations are written through as they succeed. A caller-requested
truncate is kept in memory only, so no durable run takes one. At every state of a run, a sequence
stands in a branch's index exactly when the branch's rows say so.
-/

namespace RosheraCad

/-! ## The runs -/

def TimelineOp.IsDurable : TimelineOp → Prop
  | .truncateBranch .. => False
  | _ => True

instance : ∀ op : TimelineOp, Decidable op.IsDurable
  | .truncateBranch .. => isFalse id
  | .reserveSequenceNumber | .addOperation .. | .addOperationReserved .. | .createBranch ..
  | .mergeBranches .. | .abandonBranch .. | .updateSessionPosition .. | .setAppliedHead ..
  | .undo _ | .redo _ => isTrue trivial

namespace Timeline

def insertedSequences (t t' : Timeline) (target : BranchId) : List EventIndex :=
  (t'.index target).keys.filter fun k ↦ k ∉ t.index target

def durableHead (t : Timeline) (b : BranchId) : Except TimelineError (Option DurableHead) :=
  match t.appliedHead b with
  | none => .ok none
  | some head =>
    match t.appliedHeadSequence b head, t.getBranchHead b with
    | .ok lastApplied, .ok tailEnd => .ok (some ⟨lastApplied, tailEnd⟩)
    | .error e, _ => .error e
    | .ok _, .error e => .error e

end Timeline

/-- A timeline run and the store it writes through to. -/
structure DurableRun where
  run : TimelineRun
  store : DurableStore

namespace DurableRun

def writeAppend (s : DurableRun) :
    Outcome (EventId × Option RedoTailDiscard) → Except DurabilityError DurableStore
  | (.error _, _) => .ok s.store
  | (.ok (eventId, discarded), t') =>
    match t'.events[eventId]?, discarded with
    | none, _ => .ok s.store
    | some event, none => s.store.persist event
    | some event, some discard => s.store.persistDiscarding event discard

def writeFork (s : DurableRun) (name : String) (parent : BranchId) :
    Outcome BranchId → Except DurabilityError DurableStore
  | (.error _, _) => .ok s.store
  | (.ok child, t') =>
    match t'.branches[child]? with
    | none => .ok s.store
    | some branch => .ok (s.store.persistBranch t' child (some parent) branch.forkPoint.eventIndex
        name branch.createdBy)

def writeMerge (s : DurableRun) (source target : BranchId) :
    Outcome MergeResult → Except DurabilityError DurableStore
  | (.error _, _) => .ok s.store
  | (.ok result, t') =>
    if result.success then
      s.store.persistBranchTransition t' source
        (some (Timeline.insertedSequences s.run.timeline t' target))
    else .ok s.store

def writeAbandon (s : DurableRun) (b : BranchId) :
    Outcome Unit → Except DurabilityError DurableStore
  | (.error _, _) => .ok s.store
  | (.ok (), t') => s.store.persistBranchTransition t' b none

def writeHead (s : DurableRun) (b : BranchId) :
    Outcome Unit → Except DurabilityError DurableStore
  | (.error _, _) => .ok s.store
  | (.ok (), t') =>
    match t'.durableHead b with
    | .error _ => .ok s.store
    | .ok head => s.store.persistAppliedHead t' b head

variable [UuidParser]

def durableWrite (s : DurableRun) : TimelineOp → Except DurabilityError DurableStore
  | .addOperation operation author b eventId =>
    s.writeAppend (s.run.timeline.appendInternal operation author b none eventId)
  | .addOperationReserved operation author b seq eventId =>
    s.writeAppend (s.run.timeline.appendInternal operation author b (some seq) eventId)
  | .createBranch name parent forkPoint author branchId =>
    s.writeFork name parent (s.run.timeline.createBranch name parent forkPoint author branchId)
  | .mergeBranches source target strategy now =>
    s.writeMerge source target (s.run.timeline.mergeBranches source target strategy now)
  | .abandonBranch b reason force => s.writeAbandon b (s.run.timeline.abandonBranch b reason force)
  | .setAppliedHead b count => s.writeHead b (s.run.timeline.setAppliedHead b count)
  | .reserveSequenceNumber | .truncateBranch .. | .updateSessionPosition .. | .undo _ | .redo _ =>
    .ok s.store

/-- When an operation may be taken: the timeline allows it, and its durable write succeeds. -/
def enabled (s : DurableRun) (op : TimelineOp) : Prop :=
  s.run.enabled op ∧ op.IsDurable ∧ (s.durableWrite op).isOk

instance (s : DurableRun) (op : TimelineOp) : Decidable (s.enabled op) :=
  inferInstanceAs (Decidable (_ ∧ _ ∧ _))

/-- The outcome of an operation, in memory and in the store. -/
def step (s : DurableRun) (op : TimelineOp) : DurableRun :=
  ⟨s.run.step op, (s.durableWrite op).toOption.getD s.store⟩

end DurableRun

def durableSystem [UuidParser] : GuardedSystem DurableRun TimelineOp where
  init := ⟨⟨.new, []⟩, .empty⟩
  enabled := DurableRun.enabled
  step := DurableRun.step

instance [UuidParser] (s : DurableRun) (op : TimelineOp) : Decidable (durableSystem.enabled s op) :=
  inferInstanceAs (Decidable (s.enabled op))

theorem durable_reachable_run [UuidParser] {G : DurableRun → TimelineOp → Prop} {s : DurableRun}
    (h : durableSystem.ReachableUnder G s) : timelineSystem.Reachable s.run := by
  induction h with
  | init => exact .init
  | step _ he _ ih => exact ih.step he.1 trivial

theorem durable_reachable_wellFormed [UuidParser] {G : DurableRun → TimelineOp → Prop}
    {s : DurableRun} (h : durableSystem.ReachableUnder G s) :
    s.run.timeline.WellFormed s.run.reserved :=
  reachable_wellFormed (durable_reachable_run h)

/-! ## What the store records of a branch -/

variable {b : BranchId}

namespace DurableStore

def dataOf (store : DurableStore) (b : BranchId) : BranchData := (store.dataOf? b).getD .empty

variable {store : DurableStore}

theorem dataOf_of_row {row : BranchRow} (h : store.branches[b]? = some row) :
    store.dataOf b = row.data := by
  rw [dataOf, dataOf?, h, Option.map_some, Option.getD_some]

theorem dataOf_of_not_mem (h : b ∉ store.branches) : store.dataOf b = .empty := by
  rw [dataOf, dataOf?, OrderedMap.not_mem_iff.mp h, Option.map_none, Option.getD_none]

theorem dataOf_congr {store' : DurableStore}
    (h : store'.branches[b]? = store.branches[b]?) : store'.dataOf b = store.dataOf b := by
  rw [dataOf, dataOf?, h, dataOf, dataOf?]

theorem restoredMerge_eq_none {data : BranchData}
    (h : ∀ into now, data.restoredState ≠ .merged into now) : data.restoredMerge = none := by
  rw [BranchData.restoredMerge]
  cases hstate : data.restoredState with
  | merged into now => exact absurd hstate (h into now)
  | active | abandoned | completed => rfl

theorem restoredState_of_restoredMerge {data : BranchData} {into : BranchId}
    {seqs : List EventIndex} (h : data.restoredMerge = some (into, seqs)) :
    ∃ now, data.restoredState = .merged into now := by
  rw [BranchData.restoredMerge] at h
  cases hstate : data.restoredState with
  | merged target now =>
    rw [hstate] at h
    obtain ⟨merged, -, heq⟩ := Option.map_eq_some_iff.mp h
    rw [(Prod.mk.inj heq).1]
    exact ⟨now, rfl⟩
  | active | abandoned | completed =>
    rw [hstate] at h
    cases h

end DurableStore

def Timeline.Recorded (t : Timeline) (store : DurableStore) (b : BranchId) (k : EventIndex) :
    Prop :=
  (k ∈ (store.dataOf b).inherited.value?.getD [] ∨
      (∃ (e : EventId) (ev : TimelineEvent),
        t.events[e]? = some ev ∧ ev.branchId = b ∧ ev.sequenceNumber = k) ∨
      ∃ (c : BranchId) (seqs : List EventIndex),
        (store.dataOf c).restoredMerge = some (b, seqs) ∧ k ∈ seqs) ∧
    k ∉ (store.dataOf b).restoredDiscarded

/-! ## The invariant -/

/-- The event table holds exactly the stored events. -/
structure RowsMatch (t : Timeline) (store : DurableStore) : Prop where
  rows_stored : ∀ row ∈ store.events.rows, ∃ ev, t.events[ev.id]? = some ev ∧
    row = .toEventData ev
  events_written : ∀ (e : EventId) (ev : TimelineEvent), t.events[e]? = some ev →
    .toEventData ev ∈ store.events.rows

/-- The branch table describes the live branches. -/
structure RecordsMatch (t : Timeline) (store : DurableStore) : Prop where
  rows_known : ∀ b ∈ store.branches, b ∈ t.branches
  forks_written : ∀ b ∈ t.branches, b ≠ .main → (store.dataOf b).inherited.value?.isSome
  states_written : ∀ (b : BranchId) (r : Branch), b ∈ store.branches → t.branches[b]? = some r →
    (store.dataOf b).restoredState = r.state
  main_root : (∀ r, t.branches[BranchId.main]? = some r → r.parent = none) ∧
    ∀ row, store.branches[BranchId.main]? = some row → row.parentBranchId = none

structure HistoriesMatch (t : Timeline) (reserved : List EventIndex) (store : DurableStore) :
    Prop where
  discarded_spent : ∀ (b : BranchId) (k : EventIndex), k ∈ (store.dataOf b).restoredDiscarded →
    k < t.eventCounter ∧ k ∉ reserved
  /-- **A sequence stands in an index exactly when the rows record it there.** -/
  histories : ∀ b ∈ t.branches, ∀ k, k ∈ t.index b ↔ t.Recorded store b k

structure StoreMatches (t : Timeline) (reserved : List EventIndex) (store : DurableStore) : Prop
    extends RowsMatch t store, RecordsMatch t store, HistoriesMatch t reserved store

theorem new_storeMatches : StoreMatches .new [] .empty where
  rows_stored row hrow := by cases hrow
  events_written e ev hev := by simp [Timeline.new] at hev
  rows_known b hb := by simp [DurableStore.empty] at hb
  forks_written b hb hmain := by
    simp only [Timeline.new, Std.ExtTreeMap.mem_insert, Std.ExtTreeMap.not_mem_empty, or_false,
      Std.LawfulEqOrd.compare_eq_iff_eq] at hb
    exact absurd hb.symm hmain
  states_written b r hb := by simp [DurableStore.empty] at hb
  main_root := by
    refine ⟨fun r hr ↦ ?_, fun row hrow ↦ ?_⟩
    · simp only [Timeline.new, OrderedMap.lookup_insert, if_true] at hr
      rw [← Option.some_inj.mp hr, Timeline.mainBranch]
    · simp [DurableStore.empty] at hrow
  discarded_spent b k hk := by
    rw [DurableStore.dataOf_of_not_mem (by simp [DurableStore.empty])] at hk
    simp [BranchData.restoredDiscarded, BranchData.empty, Stored.value?] at hk
  histories b hb k := by
    have hdata (c : BranchId) : DurableStore.empty.dataOf c = .empty :=
      DurableStore.dataOf_of_not_mem (by simp [DurableStore.empty])
    have hindex : k ∉ Timeline.new.index b := by
      simp only [Timeline.index, Timeline.new, OrderedMap.lookup_insert]
      split <;> simp
    refine iff_of_false hindex ?_
    simp [Timeline.Recorded, hdata, BranchData.empty, Stored.value?, BranchData.restoredMerge,
      BranchData.restoredState, Timeline.new]

/-- The rows of the touched branches were rewritten from the live records, and nothing else. -/
structure Rewrites (t t' : Timeline) (store store' : DurableStore) (touched : BranchId → Prop) :
    Prop where
  rewritten : ∀ b, touched b → ∃ r data, t'.branches[b]? = some r ∧
    store'.branches[b]? = some (DurableStore.branchRow r data) ∧ data.state = .value r.state ∧
    data.inherited = (store.dataOf b).inherited
  kept : ∀ b, ¬ touched b →
    store'.branches[b]? = store.branches[b]? ∧ t'.branches[b]? = t.branches[b]?
  same_branches : ∀ b, b ∈ t'.branches ↔ b ∈ t.branches
  same_parents : ∀ (b : BranchId) (r' : Branch), t'.branches[b]? = some r' →
    ∃ r, t.branches[b]? = some r ∧ r'.parent = r.parent

theorem RecordsMatch.rewrite {t t' : Timeline} {store store' : DurableStore}
    {touched : BranchId → Prop} (h : RecordsMatch t store)
    (hr : Rewrites t t' store store' touched) : RecordsMatch t' store' := by
  have hroot : ∀ r, t'.branches[BranchId.main]? = some r → r.parent = none := by
    intro r' hr'
    obtain ⟨r, hold, hparent⟩ := hr.same_parents _ r' hr'
    rw [hparent, h.main_root.1 r hold]
  refine ⟨fun b hb ↦ ?_, fun b hb hmain ↦ ?_, fun b r hb hlive ↦ ?_, hroot, fun row hrow ↦ ?_⟩
  · by_cases ht : touched b
    · obtain ⟨r, data, hlive, -⟩ := hr.rewritten b ht
      exact OrderedMap.mem_of_getElem? hlive
    · rw [OrderedMap.mem_iff_exists, (hr.kept b ht).1, ← OrderedMap.mem_iff_exists] at hb
      exact (hr.same_branches b).mpr (h.rows_known b hb)
  · have hold := h.forks_written b ((hr.same_branches b).mp hb) hmain
    by_cases ht : touched b
    · obtain ⟨r, data, -, hrow, -, hinherited⟩ := hr.rewritten b ht
      have hdata : store'.dataOf b = data := DurableStore.dataOf_of_row hrow
      rwa [hdata, hinherited]
    · rwa [DurableStore.dataOf_congr (hr.kept b ht).1]
  · by_cases ht : touched b
    · obtain ⟨r', data, hlive', hrow, hstate, -⟩ := hr.rewritten b ht
      have hdata : store'.dataOf b = data := DurableStore.dataOf_of_row hrow
      obtain rfl : r' = r := Option.some_inj.mp (hlive'.symm.trans hlive)
      rw [hdata, BranchData.restoredState, hstate]
      rfl
    · rw [OrderedMap.mem_iff_exists, (hr.kept b ht).1, ← OrderedMap.mem_iff_exists] at hb
      rw [DurableStore.dataOf_congr (hr.kept b ht).1]
      exact h.states_written b r hb ((hr.kept b ht).2 ▸ hlive)
  · by_cases ht : touched BranchId.main
    · obtain ⟨r, data, hlive, hrow', -⟩ := hr.rewritten _ ht
      obtain rfl := Option.some_inj.mp (hrow'.symm.trans hrow)
      exact hroot r hlive
    · rw [(hr.kept _ ht).1] at hrow
      exact h.main_root.2 row hrow

theorem RecordsMatch.restoredMerge_eq_none {t : Timeline} {store : DurableStore}
    (h : RecordsMatch t store)
    (hstate : ∀ r into now, t.branches[b]? = some r → r.state ≠ .merged into now) :
    (store.dataOf b).restoredMerge = none := by
  refine DurableStore.restoredMerge_eq_none fun into now heq ↦ ?_
  by_cases hb : b ∈ store.branches
  · obtain ⟨r, hr⟩ := OrderedMap.mem_iff_exists.mp (h.rows_known b hb)
    exact hstate r into now hr ((h.states_written b r hb hr).symm.trans heq)
  · rw [DurableStore.dataOf_of_not_mem hb] at heq
    cases heq

end RosheraCad
