import RosheraCad.Durability.Store
import Mathlib.Data.List.ProdSigma

/-!
# Recorded histories

Boot rebuilds every branch's history from what the fork gave it, its own event rows, and the
sequences merges inserted into it, less those that redo-tail discards dropped. An older row has its
parent's history cut at the fork, so the walk goes up the parent chain.
-/

namespace RosheraCad

/-! ## Faults -/

inductive FaultKind
  | corruptEventRow
  | unknownOriginBranch
  | missingEvent
  | refusedByLiveQuarantine
  | missingParentBranch
  | branchParentCycle
  | unreadableBranchRecord
  | mergeMembershipMissing
  | restoreFailed
  | redoTailDiscardRecovered
  | duplicateSequence
  deriving DecidableEq

def FaultKind.text : FaultKind → String
  | corruptEventRow => "corrupt_event_row"
  | unknownOriginBranch => "unknown_origin_branch"
  | missingEvent => "missing_event"
  | refusedByLiveQuarantine => "refused_by_live_quarantine"
  | missingParentBranch => "missing_parent_branch"
  | branchParentCycle => "branch_parent_cycle"
  | unreadableBranchRecord => "unreadable_branch_record"
  | mergeMembershipMissing => "merge_membership_missing"
  | restoreFailed => "restore_failed"
  | redoTailDiscardRecovered => "redo_tail_discard_recovered"
  | duplicateSequence => "duplicate_sequence"

/-- A piece of a reason: text, a list of sequences, or an error the reason prints. -/
inductive ReasonPiece
  | text (s : String)
  | sequences (l : List EventIndex)
  | error (e : TimelineError)
  deriving DecidableEq

/-- One named defect in a branch, found at boot. -/
structure BranchFault where
  branchId : String
  sequence : Option EventIndex
  kind : FaultKind
  reason : List ReasonPiece
  deriving DecidableEq

def branchFault (b : BranchId) (sequence : Option EventIndex) (kind : FaultKind)
    (reason : List ReasonPiece) : BranchFault :=
  ⟨b.toText, sequence, kind, reason⟩

/-- The fault tells the reader of sequence `k`: it is about that event, or its reason lists it. -/
def BranchFault.Names (fault : BranchFault) (k : EventIndex) : Prop :=
  fault.sequence = some k ∨ ∃ l, .sequences l ∈ fault.reason ∧ k ∈ l

/-! ## Plans -/

structure BranchPlan where
  parent : Option BranchId
  forkSequence : EventIndex
  inherited : Option (List EventIndex)
  merged : Option (BranchId × List EventIndex)
  appliedHead : Option (Option EventIndex)
  tailEnd : Option EventIndex
  discarded : SequenceSet

def livePlan : BranchPlan := ⟨none, 0, none, none, none, none, ∅⟩

def withinAppliedHead (head : Option (Option EventIndex)) (sequence : EventIndex) : Bool :=
  match head with
  | none => true
  | some none => false
  | some (some last) => sequence ≤ last

namespace BranchData

variable (data : BranchData)

def restoredState : BranchState := data.state.value?.getD .active

def restoredMerge : Option (BranchId × List EventIndex) :=
  match data.restoredState with
  | .merged into _ => data.merged.value?.map (into, ·)
  | _ => none

def restoredHead : Option (Option EventIndex) :=
  data.appliedHead.bind fun head ↦ head.lastApplied.value?

def restoredTailEnd : Option EventIndex := data.appliedHead.bind StoredHead.tailEnd

def restoredDiscarded : SequenceSet := Std.ExtTreeSet.ofList (data.discarded.value?.getD [])

def unreadableFault {α : Type} (id : BranchId) (key : Stored α) (message : String) :
    List BranchFault :=
  match key with
  | .unreadable e => [branchFault id none .unreadableBranchRecord [.text (message ++ e)]]
  | .absent | .value _ => []

def mergeFault (id : BranchId) : List BranchFault :=
  match data.restoredState with
  | .merged into _ =>
    match data.merged with
    | .value _ => []
    | .unreadable e => [branchFault into none .mergeMembershipMissing [.text ("branch "
        ++ id.toText ++ " was merged into this branch, but the merged sequences could not be read: "
        ++ e)]]
    | .absent => [branchFault into none .mergeMembershipMissing [.text ("branch " ++ id.toText
        ++ " was merged into this branch, but its row records no merged sequences")]]
  | _ => []

def headFault (id : BranchId) : List BranchFault :=
  match data.appliedHead with
  | none => []
  | some head =>
    match head.lastApplied with
    | .value _ => []
    | .unreadable e => [branchFault id none .unreadableBranchRecord [.text
        ("the persisted applied head could not be read, the whole history is applied: " ++ e)]]
    | .absent => [branchFault id none .unreadableBranchRecord [.text
        "the persisted applied head names no last_applied_sequence, the whole history is applied"]]

def faults (id : BranchId) : List BranchFault :=
  unreadableFault id data.state
      "the persisted branch state could not be read, restored as active: "
    ++ unreadableFault id data.inherited
      "the persisted inherited history could not be read, rebuilt with the fork rule: "
    ++ data.mergeFault id
    ++ data.headFault id
    ++ unreadableFault id data.discarded
      "the persisted discarded sequences could not be read, none are subtracted: "

end BranchData

def BranchRow.plan (row : BranchRow) : BranchPlan where
  parent := row.parentBranchId
  forkSequence := (max row.forkSequence 0).toNat
  inherited := row.data.inherited.value?
  merged := row.data.restoredMerge
  appliedHead := row.data.restoredHead
  tailEnd := row.data.restoredTailEnd
  discarded := row.data.restoredDiscarded

/-- The id column of a branch record: a UUID, or text that is none. -/
inductive StoredId
  | uuid (b : BranchId)
  | unreadable (text error : String)
  deriving DecidableEq

structure BranchRecord extends BranchRow where
  branchId : StoredId

def BranchRecord.plan? (record : BranchRecord) : Option (BranchId × BranchPlan) :=
  match record.branchId with
  | .uuid id => some (id, record.plan)
  | .unreadable _ _ => none

/-! ## Restoring the branches -/

namespace Timeline

variable (t : Timeline)

/-- Reinstate a persisted branch, active and with an empty index; never the main branch. -/
def rehydrateBranch (id : BranchId) (name : String) (parent : Option BranchId)
    (forkEventIndex : EventIndex) (createdBy : Option Author) : Timeline :=
  if id = .main then t
  else { t with
    branchEvents := t.branchEvents.insertIfNew id ∅
    branches := t.branches.insert id
      { id
        name
        forkPoint := ⟨parent.getD .main, forkEventIndex⟩
        parent
        state := .active
        createdBy := createdBy.getD .system
        isProtected := false } }

def restoreBranchState (b : BranchId) (state : BranchState) : Outcome Unit :=
  match t.branches[b]? with
  | none => (.error (.branchNotFound b), t)
  | some _ => (.ok (), t.setState b state)

end Timeline

structure RestoredBranches where
  timeline : Timeline
  plans : OrderedMap BranchId BranchPlan
  faults : List BranchFault

namespace RestoredBranches

/-- Before any record is read: the live branch has its plan. -/
def start : RestoredBranches :=
  ⟨.new, (∅ : OrderedMap BranchId BranchPlan).insert .main livePlan, []⟩

def restoreBranch (r : RestoredBranches) (record : BranchRecord) : RestoredBranches :=
  match record.branchId with
  | .unreadable text e =>
    { r with faults := r.faults ++ [⟨text, none, .unreadableBranchRecord,
      [.text ("the persisted branch id is not a valid uuid: " ++ e)]⟩] }
  | .uuid id =>
    let t := r.timeline.rehydrateBranch id record.name record.parentBranchId
      record.plan.forkSequence record.data.createdBy.value?
    let (result, t') := t.restoreBranchState id record.data.restoredState
    let refused := match result with
      | .ok () => []
      | .error e => [branchFault id none .restoreFailed
          [.text "the persisted branch state could not be applied: ", .error e]]
    ⟨t', r.plans.insert id record.plan, r.faults ++ record.data.faults id ++ refused⟩

end RestoredBranches

def restoreBranches (records : List BranchRecord) : RestoredBranches :=
  records.foldl RestoredBranches.restoreBranch .start

/-- The records in the order boot reads them. -/
def DurableStore.loadBranches (store : DurableStore) : List BranchRecord :=
  (store.branches.toList.map fun e ↦ { e.2 with branchId := .uuid e.1 }).insertionSort
    fun a b ↦ a.forkSequence ≤ b.forkSequence

/-! ## The walk -/

/-- The memo of one walk over the histories, by branch and by whether merges are counted. -/
structure HistoryWalk where
  memo : List ((BranchId × Bool) × SequenceSet)
  faults : List BranchFault

def mergedIn (plans : OrderedMap BranchId BranchPlan) : OrderedMap BranchId SequenceSet :=
  OrderedMap.collect (plans.toList.filterMap fun e ↦ e.2.merged)

def unvisited (plans : OrderedMap BranchId BranchPlan) (visiting : List (BranchId × Bool)) :
    List (BranchId × Bool) :=
  (plans.keys.product [true, false]).filter fun p ↦ p ∉ visiting

theorem length_unvisited_cons {plans : OrderedMap BranchId BranchPlan}
    {visiting : List (BranchId × Bool)} {p : BranchId × Bool} (hp : p.1 ∈ plans)
    (hnew : p ∉ visiting) :
    (unvisited plans (p :: visiting)).length < (unvisited plans visiting).length := by
  have hfilter : unvisited plans (p :: visiting) =
      (unvisited plans visiting).filter fun q ↦ q ≠ p := by
    simp only [unvisited, List.filter_filter, List.mem_cons, not_or, Bool.decide_and]
  have hmem : p ∈ unvisited plans visiting := by
    refine List.mem_filter.mpr ⟨List.mem_product.mpr ⟨?_, ?_⟩, decide_eq_true hnew⟩
    · exact Std.ExtTreeMap.mem_keys.mpr hp
    · cases p.2 <;> simp
  rw [hfilter, List.length_filter_lt_length_iff_exists]
  exact ⟨p, hmem, by simp⟩

/-- Add a branch's own rows and, with `withMerges`, the merges to what its fork gave it, less what
was discarded. -/
def finishHistory (plans : OrderedMap BranchId BranchPlan) (own : OrderedMap BranchId SequenceSet)
    (id : BranchId) (withMerges : Bool) (inherited : SequenceSet) : SequenceSet :=
  let history : SequenceSet := inherited.insertMany (own.setAt id).toList
  let history : SequenceSet :=
    if withMerges then history.insertMany ((mergedIn plans).setAt id).toList else history
  match plans[id]? with
  | some plan => history.keep fun seq ↦ seq ∉ plan.discarded
  | none => history

def historyOf (plans : OrderedMap BranchId BranchPlan) (own : OrderedMap BranchId SequenceSet)
    (id : BranchId) (withMerges : Bool) (visiting : List (BranchId × Bool)) (walk : HistoryWalk) :
    SequenceSet × HistoryWalk :=
  match walk.memo.lookup (id, withMerges) with
  | some done => (done, walk)
  | none =>
    if hv : (id, withMerges) ∈ visiting then
      (∅, { walk with faults := walk.faults ++ [branchFault id none .branchParentCycle
        [.text "the branch's durable parent chain loops back to itself"]] })
    else
      let inherited : SequenceSet × HistoryWalk :=
        match hp : plans[id]? with
        | none => (∅, walk)
        | some plan =>
          match plan.inherited, plan.parent with
          | some inherited, _ => (Std.ExtTreeSet.ofList inherited, walk)
          | none, some parent =>
            if parent ∈ plans then
              let (parentHistory, walk) :=
                historyOf plans own parent false ((id, withMerges) :: visiting) walk
              (parentHistory.keep (· ≤ plan.forkSequence), walk)
            else
              (∅, { walk with faults := walk.faults ++ [branchFault id none .missingParentBranch
                [.text ("the branch forked from " ++ parent.toText ++ ", which has no durable "
                  ++ "record; its inherited prefix cannot be rebuilt")]] })
          | none, none => (∅, walk)
      let history := finishHistory plans own id withMerges inherited.1
      (history, { inherited.2 with memo := ((id, withMerges), history) :: inherited.2.memo })
termination_by (unvisited plans visiting).length
decreasing_by exact length_unvisited_cons (OrderedMap.mem_of_getElem? hp) hv

def branchHistories (plans : OrderedMap BranchId BranchPlan)
    (own : OrderedMap BranchId SequenceSet) :
    OrderedMap BranchId SequenceSet × List BranchFault :=
  let (histories, walk) := plans.keys.foldl (fun (histories, walk) id ↦
    let (history, walk) := historyOf plans own id true [] walk
    (histories.insert id history, walk))
      ((∅ : OrderedMap BranchId SequenceSet), HistoryWalk.mk [] [])
  (histories, walk.faults)

/-! ## What the records restore -/

/-- A timeline whose planned branches are back but whose events are not. -/
structure RestoredBranches.Sound (r : RestoredBranches) : Prop where
  index_empty : ∀ b, r.timeline.index b = ∅
  events_empty : r.timeline.events = ∅
  heads_empty : r.timeline.appliedHeads = ∅
  plans_exist : ∀ b ∈ r.plans, b ∈ r.timeline.branches ∧ b ∈ r.timeline.branchEvents
  live_planned : BranchId.main ∈ r.plans

namespace RestoredBranches

theorem sound_start : start.Sound where
  index_empty b := by
    simp only [start, Timeline.index, Timeline.new, OrderedMap.lookup_insert]
    split <;> simp
  events_empty := rfl
  heads_empty := rfl
  plans_exist b hb := by
    rw [start, Std.ExtTreeMap.mem_insert] at hb
    simp only [start, Timeline.new, Std.ExtTreeMap.mem_insert]
    rcases hb with hb | hb
    · exact ⟨Or.inl hb, Or.inl hb⟩
    · exact absurd hb Std.ExtTreeMap.not_mem_empty
  live_planned := by simp [start]

/-- Reinstating a branch gives it a record and an empty index, and takes nothing away. -/
private theorem rehydrateBranch_spec {t : Timeline} (hmain : BranchId.main ∈ t.branches)
    (hmain' : BranchId.main ∈ t.branchEvents) (id : BranchId) (name : String)
    (parent : Option BranchId) (fork : EventIndex) (createdBy : Option Author) :
    let t' := t.rehydrateBranch id name parent fork createdBy
    (id ∈ t'.branches ∧ id ∈ t'.branchEvents) ∧
      (∀ b ∈ t.branches, b ∈ t'.branches) ∧ (∀ b ∈ t.branchEvents, b ∈ t'.branchEvents) ∧
      (∀ b, t'.index b = t.index b) ∧ t'.events = t.events ∧ t'.appliedHeads = t.appliedHeads := by
  intro t'
  by_cases hid : id = .main
  · have heq : t' = t := if_pos hid
    rw [heq, hid]
    exact ⟨⟨hmain, hmain'⟩, fun _ hb ↦ hb, fun _ hb ↦ hb, fun _ ↦ rfl, rfl, rfl⟩
  · have heq : t' = _ := if_neg hid
    rw [heq]
    refine ⟨⟨?_, ?_⟩, fun b hb ↦ ?_, fun b hb ↦ ?_, fun b ↦ ?_, rfl, rfl⟩
    · simp
    · simp
    · exact Std.ExtTreeMap.mem_insert.mpr (Or.inr hb)
    · exact Std.ExtTreeMap.mem_insertIfNew.mpr (Or.inr hb)
    · simp only [Timeline.index, Std.ExtTreeMap.getElem?_insertIfNew]
      split
      · next hb =>
        obtain rfl := Std.LawfulEqOrd.eq_of_compare hb.1
        rw [OrderedMap.not_mem_iff.mp hb.2]
        rfl
      · rfl

theorem Sound.restoreBranch {r : RestoredBranches} (h : r.Sound) (record : BranchRecord) :
    (r.restoreBranch record).Sound := by
  rw [RestoredBranches.restoreBranch]
  cases record.branchId with
  | unreadable text e =>
    exact ⟨h.index_empty, h.events_empty, h.heads_empty, h.plans_exist, h.live_planned⟩
  | uuid id =>
    have hmain := h.plans_exist _ h.live_planned
    have hspec := rehydrateBranch_spec hmain.1 hmain.2 id record.name record.parentBranchId
      record.plan.forkSequence record.data.createdBy.value?
    simp only at hspec ⊢
    set t := r.timeline.rehydrateBranch id record.name record.parentBranchId
      record.plan.forkSequence record.data.createdBy.value?
    obtain ⟨⟨hid, hid'⟩, hbranches, hindexes, hindex, hevents, hheads⟩ := hspec
    have hstate : (t.restoreBranchState id record.data.restoredState).2 =
        t.setState id record.data.restoredState := by
      obtain ⟨branch, hbranch⟩ := OrderedMap.mem_iff_exists.mp hid
      rw [Timeline.restoreBranchState, hbranch]
    refine ⟨fun b ↦ ?_, ?_, ?_, fun b hb ↦ ?_, ?_⟩
    · rw [hstate, Timeline.index_setState, hindex, h.index_empty]
    · rw [hstate]
      exact hevents.trans h.events_empty
    · rw [hstate]
      exact hheads.trans h.heads_empty
    · rw [hstate, Timeline.mem_branches_setState]
      rcases Std.ExtTreeMap.mem_insert.mp hb with hb | hb
      · obtain rfl := Std.LawfulEqOrd.eq_of_compare hb
        exact ⟨hid, hid'⟩
      · exact ⟨hbranches b (h.plans_exist b hb).1, hindexes b (h.plans_exist b hb).2⟩
    · exact Std.ExtTreeMap.mem_insert.mpr (Or.inr h.live_planned)

end RestoredBranches

theorem sound_restoreBranches (records : List BranchRecord) : (restoreBranches records).Sound := by
  have hfold (r : RestoredBranches) (h : r.Sound) :
      (records.foldl RestoredBranches.restoreBranch r).Sound := by
    induction records generalizing r with
    | nil => exact h
    | cons record records ih => exact ih _ (h.restoreBranch record)
  exact hfold _ RestoredBranches.sound_start

theorem restoreBranches_plans (records : List BranchRecord) : (restoreBranches records).plans =
    OrderedMap.insertEntries ((∅ : OrderedMap BranchId BranchPlan).insert .main livePlan)
      (records.filterMap BranchRecord.plan?) := by
  have hfold (r : RestoredBranches) :
      (records.foldl RestoredBranches.restoreBranch r).plans =
        OrderedMap.insertEntries r.plans (records.filterMap BranchRecord.plan?) := by
    induction records generalizing r with
    | nil => rfl
    | cons record records ih =>
      rw [List.foldl_cons, ih, List.filterMap_cons, RestoredBranches.restoreBranch,
        BranchRecord.plan?]
      cases record.branchId with
      | unreadable text e => rfl
      | uuid id => rfl
  exact hfold _

theorem plans_loadBranches (store : DurableStore) (b : BranchId) :
    (restoreBranches store.loadBranches).plans[b]? =
      match store.branches[b]? with
      | some row => some row.plan
      | none => if b = .main then some livePlan else none := by
  have hmem (c : BranchId) (plan : BranchPlan) :
      (c, plan) ∈ store.loadBranches.filterMap BranchRecord.plan? ↔
        ∃ row, store.branches[c]? = some row ∧ row.plan = plan := by
    simp only [List.mem_filterMap, DurableStore.loadBranches, List.mem_insertionSort, List.mem_map,
      Prod.exists]
    constructor
    · rintro ⟨record, ⟨c', row, hrow, rfl⟩, hplan⟩
      obtain ⟨rfl, rfl⟩ := Prod.mk.inj (Option.some_inj.mp hplan)
      exact ⟨row, OrderedMap.mem_toList.mp hrow, rfl⟩
    · rintro ⟨row, hrow, rfl⟩
      exact ⟨_, ⟨c, row, OrderedMap.mem_toList.mpr hrow, rfl⟩, rfl⟩
  have hfun : ∀ (c : BranchId) (p q : BranchPlan),
      (c, p) ∈ store.loadBranches.filterMap BranchRecord.plan? →
      (c, q) ∈ store.loadBranches.filterMap BranchRecord.plan? → p = q := by
    intro c p q hp hq
    obtain ⟨row, hrow, rfl⟩ := (hmem c p).mp hp
    obtain ⟨row', hrow', rfl⟩ := (hmem c q).mp hq
    rw [Option.some_inj.mp (hrow.symm.trans hrow')]
  refine Option.ext fun plan ↦ ?_
  rw [restoreBranches_plans, OrderedMap.getElem?_insertEntries_iff hfun, hmem]
  cases hrow : store.branches[b]? with
  | none =>
    have hnone : ∀ q, (b, q) ∉ store.loadBranches.filterMap BranchRecord.plan? := by
      intro q hq
      obtain ⟨row, hrow', -⟩ := (hmem b q).mp hq
      rw [hrow] at hrow'
      cases hrow'
    simp [hnone]
  | some row =>
    have hsome : ¬ ∀ q, (b, q) ∉ store.loadBranches.filterMap BranchRecord.plan? := by
      intro hnone
      exact hnone row.plan ((hmem b row.plan).mpr ⟨row, hrow, rfl⟩)
    simp only [hsome, Option.some.injEq, exists_eq_left', false_and, or_false]

/-! ## What the walk computes -/

section Walk

variable {plans : OrderedMap BranchId BranchPlan} {own : OrderedMap BranchId SequenceSet}
  {b : BranchId} {k : EventIndex}

theorem mem_branchHistories : b ∈ (branchHistories plans own).1 ↔ b ∈ plans := by
  have hfold (ids : List BranchId) (histories : OrderedMap BranchId SequenceSet)
      (walk : HistoryWalk) :
      b ∈ (ids.foldl (fun (histories, walk) id ↦
        let (history, walk) := historyOf plans own id true [] walk
        (histories.insert id history, walk)) (histories, walk)).1 ↔ b ∈ ids ∨ b ∈ histories := by
    induction ids generalizing histories walk with
    | nil => simp
    | cons id ids ih =>
      rw [List.foldl_cons, ih, Std.ExtTreeMap.mem_insert, Std.LawfulEqOrd.compare_eq_iff_eq,
        List.mem_cons]
      simp only [@eq_comm _ id b]
      tauto
  rw [branchHistories]
  simp only [hfold]
  simp

theorem mem_finishHistory {id : BranchId} {withMerges : Bool} {inherited : SequenceSet}
    : k ∈ finishHistory plans own id withMerges inherited ↔
      (k ∈ inherited ∨ k ∈ own.setAt id ∨ withMerges = true ∧ k ∈ (mergedIn plans).setAt id) ∧
        ∀ plan, plans[id]? = some plan → k ∉ plan.discarded := by
  rw [finishHistory]
  cases hplan : plans[id]? with
  | none => cases withMerges <;> simp [or_assoc]
  | some plan => cases withMerges <;> simp [OrderedSet.mem_keep, or_assoc]

/-- What the fork may have given `id`: its plan's list, its parent's history cut at the fork, or
nothing. -/
inductive Inherits (plans : OrderedMap BranchId BranchPlan)
    (Done : BranchId × Bool → SequenceSet → Prop) (id : BranchId) : SequenceSet → Prop
  | listed {plan : BranchPlan} {inherited : List EventIndex} : plans[id]? = some plan →
      plan.inherited = some inherited → Inherits plans Done id (Std.ExtTreeSet.ofList inherited)
  | cut {plan : BranchPlan} {parent : BranchId} {history : SequenceSet} : plans[id]? = some plan →
      plan.inherited = none → plan.parent = some parent → parent ∈ plans →
      Done (parent, false) history ∨ history = ∅ →
      Inherits plans Done id (history.keep (· ≤ plan.forkSequence))
  | nothing : (∀ plan, plans[id]? = some plan → plan.inherited = none) → Inherits plans Done id ∅

/-- **What holds of every history finished from its fork's holds of every history computed.** -/
theorem historyOf_spec {Done : BranchId × Bool → SequenceSet → Prop}
    (hfinish : ∀ id withMerges inherited, Inherits plans Done id inherited →
      Done (id, withMerges) (finishHistory plans own id withMerges inherited))
    (id : BranchId) (withMerges : Bool) (visiting : List (BranchId × Bool)) (walk : HistoryWalk)
    (hmemo : ∀ e ∈ walk.memo, Done e.1 e.2) :
    (Done (id, withMerges) (historyOf plans own id withMerges visiting walk).1 ∨
      (id, withMerges) ∈ visiting ∧ (historyOf plans own id withMerges visiting walk).1 = ∅) ∧
      ∀ e ∈ (historyOf plans own id withMerges visiting walk).2.memo, Done e.1 e.2 := by
  induction hn : (unvisited plans visiting).length using Nat.strong_induction_on
    generalizing id withMerges visiting walk with
  | h n ih =>
    rw [historyOf]
    cases hlookup : walk.memo.lookup (id, withMerges) with
    | some done =>
      obtain ⟨before, after, hsplit, -⟩ := List.lookup_eq_some_iff.mp hlookup
      have hmem : ((id, withMerges), done) ∈ walk.memo := by
        rw [hsplit]
        simp
      exact ⟨Or.inl (hmemo _ hmem), hmemo⟩
    | none =>
      by_cases hv : (id, withMerges) ∈ visiting
      · simp only [dif_pos hv]
        exact ⟨Or.inr ⟨hv, trivial⟩, hmemo⟩
      · simp only [dif_neg hv]
        -- Whatever the fork gave, the finished history is memoised with those found on the way.
        suffices h : ∀ inherited : SequenceSet × HistoryWalk, Inherits plans Done id inherited.1 →
            (∀ e ∈ inherited.2.memo, Done e.1 e.2) →
            (Done (id, withMerges) (finishHistory plans own id withMerges inherited.1) ∨
              (id, withMerges) ∈ visiting ∧ finishHistory plans own id withMerges inherited.1 = ∅) ∧
            ∀ e ∈ ((id, withMerges), finishHistory plans own id withMerges inherited.1) ::
              inherited.2.memo, Done e.1 e.2 by
          split
          · next hnone =>
            refine h (∅, walk) (.nothing fun plan hplan ↦ ?_) hmemo
            rw [hnone] at hplan
            cases hplan
          · next plan hplan =>
            cases hinherited : plan.inherited with
            | some inherited => exact h (_, walk) (.listed hplan hinherited) hmemo
            | none =>
              cases hparent : plan.parent with
              | none =>
                refine h (∅, walk) (.nothing fun plan' hplan' ↦ ?_) hmemo
                rwa [Option.some_inj.mp (hplan'.symm.trans hplan)]
              | some parent =>
                by_cases hp : parent ∈ plans
                · simp only [hp, if_true]
                  obtain ⟨hhistory, hmemo'⟩ := ih _ (hn ▸ length_unvisited_cons
                    (OrderedMap.mem_of_getElem? hplan) hv) parent false _ walk hmemo rfl
                  refine h (_, _) (.cut hplan hinherited hparent hp ?_) hmemo'
                  exact hhistory.imp_right And.right
                · simp only [hp, if_false]
                  refine h (∅, _) (.nothing fun plan' hplan' ↦ ?_) hmemo
                  rwa [Option.some_inj.mp (hplan'.symm.trans hplan)]
        intro inherited hinherits hmemo'
        have hdone := hfinish id withMerges inherited.1 hinherits
        refine ⟨Or.inl hdone, fun e he ↦ ?_⟩
        rcases List.mem_cons.mp he with rfl | he
        · exact hdone
        · exact hmemo' e he

theorem branchHistories_spec {Done : BranchId × Bool → SequenceSet → Prop}
    (hfinish : ∀ id withMerges inherited, Inherits plans Done id inherited →
      Done (id, withMerges) (finishHistory plans own id withMerges inherited))
    (hb : b ∈ plans) :
    ∃ history, (branchHistories plans own).1[b]? = some history ∧ Done (b, true) history := by
  have hfold (ids : List BranchId) (histories : OrderedMap BranchId SequenceSet)
      (walk : HistoryWalk) (hmemo : ∀ e ∈ walk.memo, Done e.1 e.2)
      (hb : b ∈ ids ∨ ∃ history, histories[b]? = some history ∧ Done (b, true) history) :
      ∃ history, (ids.foldl (fun (histories, walk) id ↦
        let (history, walk) := historyOf plans own id true [] walk
        (histories.insert id history, walk)) (histories, walk)).1[b]? = some history ∧
        Done (b, true) history := by
    induction ids generalizing histories walk with
    | nil => exact hb.resolve_left List.not_mem_nil
    | cons id ids ih =>
      obtain ⟨hhistory, hmemo'⟩ := historyOf_spec hfinish id true [] walk hmemo
      have hdone := hhistory.resolve_right fun h ↦ List.not_mem_nil h.1
      refine ih _ _ hmemo' ?_
      simp only [OrderedMap.lookup_insert]
      by_cases hid : b = id
      · rw [if_pos hid, hid]
        exact Or.inr ⟨_, rfl, hdone⟩
      · rw [if_neg hid]
        rcases hb with hb | hb
        · exact Or.inl ((List.mem_cons.mp hb).resolve_left hid)
        · exact Or.inr hb
  rw [branchHistories]
  refine hfold plans.keys ∅ ⟨[], []⟩ (fun e he ↦ by cases he) (Or.inl ?_)
  exact Std.ExtTreeMap.mem_keys.mpr hb

def BranchPlan.Flat (plan : BranchPlan) : Prop := plan.inherited.isSome ∨ plan.parent = none

def flatHistory (plans : OrderedMap BranchId BranchPlan) (own : OrderedMap BranchId SequenceSet)
    (b : BranchId) : SequenceSet :=
  finishHistory plans own b true
    (Std.ExtTreeSet.ofList ((plans[b]?.bind BranchPlan.inherited).getD []))

theorem branchHistories_of_flat (hflat : ∀ (b : BranchId) (plan : BranchPlan),
    plans[b]? = some plan → plan.Flat) (hb : b ∈ plans) :
    (branchHistories plans own).1[b]? = some (flatHistory plans own b) := by
  have hfinish (id : BranchId) (withMerges : Bool) (inherited : SequenceSet)
      (hinherits : Inherits plans
        (fun p history ↦ p.2 = true → history = flatHistory plans own p.1) id inherited) :
      withMerges = true →
        finishHistory plans own id withMerges inherited = flatHistory plans own id := by
    rintro rfl
    rw [flatHistory]
    cases hinherits with
    | listed hplan hinherited =>
      rw [hplan, Option.bind_some, hinherited, Option.getD_some]
    | cut hplan hinherited hparent _ _ =>
      rcases hflat id _ hplan with hsome | hnone
      · rw [hinherited] at hsome
        cases hsome
      · rw [hnone] at hparent
        cases hparent
    | nothing hnone =>
      have hempty : plans[id]?.bind BranchPlan.inherited = none :=
        Option.bind_eq_none_iff.mpr hnone
      rw [hempty, Option.getD_none]
      rfl
  obtain ⟨history, hhistory, hdone⟩ := branchHistories_spec hfinish hb
  rw [hhistory, hdone rfl]

theorem mem_setAt_mergedIn : k ∈ (mergedIn plans).setAt b ↔
    ∃ (c : BranchId) (plan : BranchPlan) (seqs : List EventIndex),
      plans[c]? = some plan ∧ plan.merged = some (b, seqs) ∧ k ∈ seqs := by
  rw [mergedIn, OrderedMap.mem_setAt_collect]
  simp only [List.mem_filterMap, Prod.exists, OrderedMap.mem_toList]
  constructor
  · rintro ⟨seqs, ⟨c, plan, hplan, hmerged⟩, hk⟩
    exact ⟨c, plan, seqs, hplan, hmerged, hk⟩
  · rintro ⟨c, plan, seqs, hplan, hmerged, hk⟩
    exact ⟨seqs, ⟨c, plan, hplan, hmerged⟩, hk⟩

theorem mem_flatHistory {plan : BranchPlan} (hplan : plans[b]? = some plan)
    : k ∈ flatHistory plans own b ↔
      (k ∈ plan.inherited.getD [] ∨ k ∈ own.setAt b ∨ k ∈ (mergedIn plans).setAt b) ∧
        k ∉ plan.discarded := by
  simp only [flatHistory, mem_finishHistory, hplan, OrderedSet.mem_ofList, Option.bind_some,
    Option.some.injEq, forall_eq', true_and]

/-- The plan of `b` names `k`: the fork gave it or a merge inserted it, and no discard dropped it.
-/
def Named (plans : OrderedMap BranchId BranchPlan) (b : BranchId) (k : EventIndex) : Prop :=
  ∃ plan, plans[b]? = some plan ∧ k ∉ plan.discarded ∧
    (k ∈ plan.inherited.getD [] ∨ k ∈ (mergedIn plans).setAt b)

/-- **A named sequence is in the rebuilt history**, whatever the rows hold. -/
theorem mem_history_of_named (h : Named plans b k) :
    k ∈ (branchHistories plans own).1.setAt b := by
  obtain ⟨plan, hplan, hkept, hk⟩ := h
  have hfinish (id : BranchId) (withMerges : Bool) (inherited : SequenceSet)
      (hinherits : Inherits plans
        (fun p history ↦ p = (b, true) → k ∈ history) id inherited)
      (hid : (id, withMerges) = (b, true)) :
      k ∈ finishHistory plans own id withMerges inherited := by
    obtain ⟨rfl, rfl⟩ := Prod.mk.inj hid
    refine mem_finishHistory.mpr ⟨?_, fun plan' hplan' ↦ ?_⟩
    · rcases hk with hk | hk
      · left
        cases hinherits with
        | listed hplan' hinherited =>
          obtain rfl := Option.some_inj.mp (hplan'.symm.trans hplan)
          rw [hinherited, Option.getD_some] at hk
          exact OrderedSet.mem_ofList.mpr hk
        | cut hplan' hinherited _ _ _ =>
          obtain rfl := Option.some_inj.mp (hplan'.symm.trans hplan)
          rw [hinherited, Option.getD_none] at hk
          cases hk
        | nothing hnone =>
          rw [hnone plan hplan, Option.getD_none] at hk
          cases hk
      · exact Or.inr (Or.inr ⟨rfl, hk⟩)
    · rwa [Option.some_inj.mp (hplan'.symm.trans hplan)]
  obtain ⟨history, hhistory, hdone⟩ := branchHistories_spec hfinish
    (OrderedMap.mem_of_getElem? hplan)
  rw [OrderedMap.setAt, hhistory]
  exact hdone rfl

/-- **Without rows and without a named sequence every history is empty.** -/
theorem history_eq_empty (hown : ∀ b, own.setAt b = ∅) (hnamed : ∀ b k, ¬ Named plans b k)
    (b : BranchId) : (branchHistories plans own).1.setAt b = ∅ := by
  have hfinish (id : BranchId) (withMerges : Bool) (inherited : SequenceSet)
      (hinherits : Inherits plans (fun p history ↦ p.1 ∈ plans → history = ∅) id inherited)
      (hid : id ∈ plans) : finishHistory plans own id withMerges inherited = ∅ := by
    obtain ⟨plan, hplan⟩ := OrderedMap.mem_iff_exists.mp hid
    refine Std.ExtTreeSet.eq_empty_iff_forall_not_mem.mpr fun k hk ↦ ?_
    obtain ⟨hsource, hkept⟩ := mem_finishHistory.mp hk
    rcases hsource with hk | hk | ⟨-, hk⟩
    · cases hinherits with
      | listed hplan' hinherited =>
        obtain rfl := Option.some_inj.mp (hplan'.symm.trans hplan)
        refine hnamed id k ⟨_, hplan, hkept _ hplan, Or.inl ?_⟩
        rw [hinherited, Option.getD_some]
        exact OrderedSet.mem_ofList.mp hk
      | cut _ _ _ hparent hdone =>
        have hempty := hdone.elim (fun hdone ↦ hdone hparent) fun hempty ↦ hempty
        rw [OrderedSet.mem_keep, hempty] at hk
        exact Std.ExtTreeSet.not_mem_empty hk.1
      | nothing _ => exact Std.ExtTreeSet.not_mem_empty hk
    · rw [hown] at hk
      exact Std.ExtTreeSet.not_mem_empty hk
    · exact hnamed id k ⟨plan, hplan, hkept plan hplan, Or.inr hk⟩
  by_cases hb : b ∈ plans
  · obtain ⟨history, hhistory, hdone⟩ := branchHistories_spec hfinish hb
    rw [OrderedMap.setAt, hhistory]
    exact hdone hb
  · rw [OrderedMap.setAt, OrderedMap.not_mem_iff.mp fun h ↦ hb (mem_branchHistories.mp h)]
    rfl

end Walk

end RosheraCad
