import RosheraCad.Durability.Rows

/-!
# Stale heads

A head is written with the branch's last entry at the time, its tail end. An entry above it was
recorded later, by an operation that discarded the redo tail. Boot drops that tail, clears the head,
and writes the correction down.
-/

namespace RosheraCad

namespace BranchPlan

variable (plan : BranchPlan) (history : SequenceSet)

def staleTail : Option (List EventIndex) :=
  match plan.appliedHead, plan.tailEnd with
  | some head, some tailEnd =>
    if history.toList.any (tailEnd < ·) then
      some (history.toList.filter fun seq ↦ !withinAppliedHead (some head) seq && seq ≤ tailEnd)
    else none
  | _, _ => none

/-- The plan once its stale head is gone. -/
def reconciled : BranchPlan :=
  match plan.staleTail history with
  | none => plan
  | some tail =>
    { plan with
      appliedHead := none
      tailEnd := none
      discarded := plan.discarded.insertMany tail }

def reconciledHistory : SequenceSet :=
  match plan.staleTail history with
  | none => history
  | some tail => history.keep fun seq ↦ seq ∉ tail

end BranchPlan

def staleHeadFault (b : BranchId) (tail : List EventIndex) : BranchFault :=
  branchFault b none .redoTailDiscardRecovered
    [.text "operations were recorded after the undo that left the redo tail ", .sequences tail,
      .text (", so that tail was discarded, but the discard never reached the store; "
        ++ "the tail is dropped and every later operation is served")]

/-- The plans and histories once every stale head is gone, and what was corrected. -/
structure Reconciled where
  plans : OrderedMap BranchId BranchPlan
  histories : OrderedMap BranchId SequenceSet
  corrections : OrderedMap BranchId (List EventIndex)

namespace Reconciled

variable (r : Reconciled)

def faults : List BranchFault := r.corrections.toList.map fun c ↦ staleHeadFault c.1 c.2

/-- A record with its branch's correction written down: the tail among the discarded sequences, and
no head. -/
def correctedRecord (record : BranchRecord) : BranchRecord :=
  match record.branchId with
  | .unreadable .. => record
  | .uuid b =>
    match r.corrections[b]? with
    | none => record
    | some tail => { record with data := { record.data with
        discarded := .value (record.data.restoredDiscarded.insertMany tail).toList
        appliedHead := none } }

end Reconciled

/-- Drop the redo tail of every branch whose head an operation after it already discarded. -/
def reconcileStaleHeads (plans : OrderedMap BranchId BranchPlan)
    (histories : OrderedMap BranchId SequenceSet) : Reconciled where
  plans := plans.map fun b plan ↦ plan.reconciled (histories.setAt b)
  histories := histories.map fun b history ↦
    plans[b]?.elim history fun plan ↦ plan.reconciledHistory history
  corrections := OrderedMap.insertEntries ∅ <| plans.toList.filterMap fun e ↦
    (e.2.staleTail (histories.setAt e.1)).map (e.1, ·)

/-! ## What a correction drops -/

namespace BranchPlan

variable {plan : BranchPlan} {history : SequenceSet}

theorem mem_reconciledHistory {k : EventIndex} : k ∈ plan.reconciledHistory history ↔
    k ∈ history ∧ ∀ tail, plan.staleTail history = some tail → k ∉ tail := by
  rw [reconciledHistory]
  cases htail : plan.staleTail history with
  | none => simp
  | some tail => simp [OrderedSet.mem_keep]

theorem reconciled_of_fresh (h : plan.staleTail history = none) :
    plan.reconciled history = plan := by
  rw [reconciled, h]

theorem reconciledHistory_of_fresh (h : plan.staleTail history = none) :
    plan.reconciledHistory history = history := by
  rw [reconciledHistory, h]

theorem staleTail_eq_none (h : ∀ tailEnd, plan.tailEnd = some tailEnd →
    plan.appliedHead.isSome → ∀ k ∈ history, k ≤ tailEnd) : plan.staleTail history = none := by
  rw [staleTail]
  split
  · next head tailEnd hhead hend =>
    refine if_neg fun hany ↦ ?_
    obtain ⟨k, hk, hlt⟩ := List.any_eq_true.mp hany
    have hle := h tailEnd hend (hhead ▸ rfl) k (Std.ExtTreeSet.mem_toList.mp hk)
    exact absurd (of_decide_eq_true hlt) (Nat.not_lt.mpr hle)
  · rfl

end BranchPlan

section Reconcile

variable {plans : OrderedMap BranchId BranchPlan} {histories : OrderedMap BranchId SequenceSet}
  {b : BranchId} {plan : BranchPlan}

theorem reconcile_plans (b : BranchId) : (reconcileStaleHeads plans histories).plans[b]? =
    plans[b]?.map fun plan ↦ plan.reconciled (histories.setAt b) := by
  rw [reconcileStaleHeads, Std.ExtTreeMap.getElem?_map]

theorem reconcile_histories (hplan : plans[b]? = some plan) (hb : b ∈ histories) :
    (reconcileStaleHeads plans histories).histories.setAt b =
      plan.reconciledHistory (histories.setAt b) := by
  obtain ⟨history, hhistory⟩ := OrderedMap.mem_iff_exists.mp hb
  simp only [reconcileStaleHeads, OrderedMap.setAt, Std.ExtTreeMap.getElem?_map, hhistory, hplan,
    Option.map_some, Option.elim_some, Option.getD_some]

theorem mem_reconcile_plans : b ∈ (reconcileStaleHeads plans histories).plans ↔ b ∈ plans := by
  rw [reconcileStaleHeads, Std.ExtTreeMap.mem_map]

theorem mem_reconcile_histories :
    b ∈ (reconcileStaleHeads plans histories).histories ↔ b ∈ histories := by
  rw [reconcileStaleHeads, Std.ExtTreeMap.mem_map]

theorem reconcile_corrections (b : BranchId) :
    (reconcileStaleHeads plans histories).corrections[b]? =
      plans[b]?.bind fun plan ↦ plan.staleTail (histories.setAt b) := by
  have hmem (c : BranchId) (tail : List EventIndex) : (c, tail) ∈ (plans.toList.filterMap fun e ↦
      (e.2.staleTail (histories.setAt e.1)).map (e.1, ·)) ↔
      plans[c]?.bind (fun plan ↦ plan.staleTail (histories.setAt c)) = some tail := by
    simp only [List.mem_filterMap, Option.map_eq_some_iff, Prod.mk.injEq, Prod.exists,
      OrderedMap.mem_toList, Option.bind_eq_some_iff]
    constructor
    · rintro ⟨c', plan, hplan, tail', htail, rfl, rfl⟩
      exact ⟨plan, hplan, htail⟩
    · rintro ⟨plan, hplan, htail⟩
      exact ⟨c, plan, hplan, tail, htail, rfl, rfl⟩
  refine Option.ext fun tail ↦ ?_
  rw [reconcileStaleHeads, OrderedMap.getElem?_insertEntries_iff, hmem]
  · simp
  · intro c v w hv hw
    rw [hmem] at hv hw
    exact Option.some_inj.mp (hv.symm.trans hw)

theorem exists_fault_of_dropped (hplan : plans[b]? = some plan) (hb : b ∈ histories)
    {k : EventIndex} (hk : k ∈ histories.setAt b)
    (hdropped : k ∉ (reconcileStaleHeads plans histories).histories.setAt b) :
    ∃ fault ∈ (reconcileStaleHeads plans histories).faults,
      fault.branchId = b.toText ∧ fault.kind = .redoTailDiscardRecovered ∧ fault.Names k := by
  rw [reconcile_histories hplan hb, BranchPlan.mem_reconciledHistory] at hdropped
  push Not at hdropped
  obtain ⟨tail, htail, hkt⟩ := hdropped hk
  refine ⟨staleHeadFault b tail, ?_, rfl, rfl, Or.inr ⟨tail, ?_, hkt⟩⟩
  · refine List.mem_map.mpr ⟨(b, tail), OrderedMap.mem_toList.mpr ?_, rfl⟩
    rw [reconcile_corrections, hplan]
    exact htail
  · simp [staleHeadFault, branchFault]

end Reconcile

end RosheraCad
