import RosheraCad.Timeline.Reachable
import RosheraCad.Timeline.Rehydrate

/-!
# Reverting a merge

The caller of a merge reads the target's keys before and after it, and the difference is what the
revert takes out again. A copied entry the target already held is not in the difference.
-/

namespace RosheraCad

namespace Timeline

variable (t : Timeline)

/-! ## The revert -/

def branchKeys (b : BranchId) : List EventIndex := (t.index b).keys

def insertedKeys (before after : Timeline) (target : BranchId) : List EventIndex :=
  (after.branchKeys target).filter fun k ↦ k ∉ before.branchKeys target

/-- Take `inserted` out of `target` and put `source`, if merged into `target`, back to active. -/
def revertMerge (source target : BranchId) (inserted : List EventIndex) : Outcome Unit :=
  match t.branches[source]? with
  | none => (.error (.branchNotFound source), t)
  | some branch =>
    let refusal : TimelineError := .invalidOperation
      [.text ("branch " ++ source.toText ++ " is not merged into " ++ target.toText
        ++ " (state="), .debugState branch.state,
        .text "); refusing to revert a merge that did not happen"]
    match branch.state with
    | .merged into _ =>
      if into = target then
        if target ∉ t.branchEvents then (.error (.branchNotFound target), t)
        else (.ok (), (t.withoutEntries target inserted).setState source .active)
      else (.error refusal, t)
    | _ => (.error refusal, t)

/-! ## What it undoes -/

section Spec

variable {t} {source target : BranchId} {strategy : MergeStrategy} {now : Timestamp}
  {reserved : List EventIndex} {entries : EntrySequence}

theorem revertMerge_of_error {inserted : List EventIndex} {e : TimelineError}
    (h : (t.revertMerge source target inserted).1 = .error e) :
    (t.revertMerge source target inserted).2 = t := by
  rw [revertMerge] at h ⊢
  cases hr : t.branches[source]? with
  | none => rfl
  | some branch =>
    rw [hr] at h
    cases hs : branch.state with
    | merged into at_ =>
      simp only [hs] at h ⊢
      by_cases hinto : into = target
      · by_cases hmem : target ∈ t.branchEvents
        · rw [if_pos hinto, if_neg (not_not_intro hmem)] at h
          cases h
        · rw [if_pos hinto, if_pos hmem]
      · rw [if_neg hinto]
    | active | abandoned _ | completed _ => simp only [hs]

theorem revertMerge_of_merged (hs : t.stateOf source = some (.merged target now))
    (htarget : target ∈ t.branchEvents) (inserted : List EventIndex) :
    t.revertMerge source target inserted =
      (.ok (), (t.withoutEntries target inserted).setState source .active) := by
  obtain ⟨r, hr, hstate⟩ := Option.map_eq_some_iff.mp hs
  simp only [revertMerge, hr, hstate, if_true, htarget, not_true_eq_false, if_false]

theorem mem_insertedKeys {before after : Timeline} {k : EventIndex} :
    k ∈ insertedKeys before after target ↔
      k ∈ after.index target ∧ k ∉ before.index target := by
  rw [insertedKeys, List.mem_filter, branchKeys, branchKeys, Std.ExtTreeMap.mem_keys,
    decide_eq_true_eq, Std.ExtTreeMap.mem_keys]

theorem withoutEntries_withEntries (h : t.WellFormed reserved)
    (hcopies : t.Copies source target entries) (htarget : target ∈ t.branchEvents)
    {after : Timeline} (hindex : after.index target = (t.withEntries target entries).index target) :
    (t.withEntries target entries).withoutEntries target (insertedKeys t after target) = t := by
  obtain ⟨m, hm⟩ := OrderedMap.mem_iff_exists.mp htarget
  have hback : (m.insertEntries entries).eraseKeys (insertedKeys t after target) = m := by
    have hbefore : t.index target = m := index_eq_of_getElem? hm
    have hafter : (t.withEntries target entries).index target = m.insertEntries entries := by
      rw [index_withEntries htarget, if_pos rfl, hbefore]
    refine OrderedMap.eraseKeys_eq_of_submap (fun k e hke ↦ ?_) fun k hk ↦ ?_
    · rw [← hafter, getElem?_index_withEntries h hcopies htarget, hbefore]
      exact Or.inl hke
    · rw [mem_insertedKeys, hindex, hafter, hbefore]
      exact and_iff_right hk
  have hmap : (((t.branchEvents.modifyKeys [target] fun m ↦ m.insertEntries entries).modifyKeys
      [target] fun m ↦ m.eraseKeys (insertedKeys t after target))) = t.branchEvents := by
    refine OrderedMap.ext_lookup fun b ↦ ?_
    simp only [OrderedMap.getElem?_modifyKeys, List.mem_singleton]
    by_cases hb : b = target
    · rw [hb, if_pos rfl, if_pos rfl, hm, Option.map_some, Option.map_some, hback]
    · rw [if_neg hb, if_neg hb]
  rw [withoutEntries, withEntries, hmap]

theorem withoutEntries_setState (b c : BranchId) (s : BranchState) (ks : List EventIndex) :
    (t.setState b s).withoutEntries c ks = (t.withoutEntries c ks).setState b s := rfl

theorem setState_active_setState (hactive : t.stateOf source = some .active) (s : BranchState) :
    (t.setState source s).setState source .active = t := by
  obtain ⟨r, hr, hstate⟩ := Option.map_eq_some_iff.mp hactive
  have hmap : ((t.setState source s).setState source .active).branches = t.branches := by
    refine OrderedMap.ext_lookup fun b ↦ ?_
    rw [setState_branches, setState_branches]
    by_cases hb : b = source
    · rw [hb, if_pos rfl, if_pos rfl, hr, Option.map_some, Option.map_some, ← hstate]
    · rw [if_neg hb, if_neg hb]
  calc (t.setState source s).setState source .active
      = { t with branches := ((t.setState source s).setState source .active).branches } := rfl
    _ = t := by rw [hmap]

theorem revertMerge_mergeBranches (h : t.WellFormed reserved)
    (hs : mergeSucceeded (t.mergeBranches source target strategy now)) :
    (t.mergeBranches source target strategy now).2.revertMerge source target
      (insertedKeys t (t.mergeBranches source target strategy now).2 target) = (.ok (), t) := by
  obtain ⟨entries, hm, hcopies, heq⟩ := mergeBranches_of_succeeded h hs
  have htarget : target ∈ t.branchEvents :=
    (h.branches_agree _).mp (mem_branches_of_stateOf hm.2.2)
  have hstate : ((t.withEntries target entries).setState source (.merged target now)).stateOf source
      = some (.merged target now) := by
    obtain ⟨r, hr, -⟩ := Option.map_eq_some_iff.mp hm.2.1
    have hr' : (t.withEntries target entries).branches[source]? = some r := hr
    rw [stateOf, setState_branches, if_pos rfl, hr', Option.map_some, Option.map_some]
  have hmem : target ∈
      ((t.withEntries target entries).setState source (.merged target now)).branchEvents :=
    mem_branchEvents_withEntries.mpr htarget
  rw [heq]
  dsimp only
  rw [revertMerge_of_merged hstate hmem, withoutEntries_setState,
    withoutEntries_withEntries h hcopies htarget (index_setState source target),
    setState_active_setState hm.2.1]

end Spec

end Timeline

section Reached

variable [UuidParser] {s : TimelineRun} {source target : BranchId} {strategy : MergeStrategy}
  {now : Timestamp}

/-- **A merge that could not be made durable leaves no trace**: on every reachable timeline a revert
of a successful merge restores every field. -/
theorem revertMerge_restores (h : timelineSystem.Reachable s)
    (hs : Timeline.mergeSucceeded (s.timeline.mergeBranches source target strategy now)) :
    (s.timeline.mergeBranches source target strategy now).2.revertMerge source target
      (Timeline.insertedKeys s.timeline
        (s.timeline.mergeBranches source target strategy now).2 target) = (.ok (), s.timeline) :=
  Timeline.revertMerge_mergeBranches (reachable_wellFormed h) hs

end Reached

/-- A main branch with one event and a side branch with two, ready to merge. -/
def sideBranchOps : List TimelineOp :=
  [.addOperation exampleOp .system .main (exampleEvent 1),
    .createBranch "side" .main none .system (exampleBranch 1),
    .addOperation exampleOp .system (exampleBranch 1) (exampleEvent 2)]

theorem revertMerge_restores_sideBranch :
    ((exampleRun sideBranchOps).timeline.mergeBranches (exampleBranch 1) .main .fastForward
      ⟨0⟩).2.revertMerge (exampleBranch 1) .main (Timeline.insertedKeys
        (exampleRun sideBranchOps).timeline
        ((exampleRun sideBranchOps).timeline.mergeBranches (exampleBranch 1) .main .fastForward
          ⟨0⟩).2 .main) = (.ok (), (exampleRun sideBranchOps).timeline) :=
  letI := noUuids
  revertMerge_restores (GuardedSystem.ReachableUnder.run .init (by decide)) (by decide)

end RosheraCad
