import RosheraCad.Timeline.Reachable

/-!
# What a merge leaves, and what its preview foretells

A successful merge turns the target's index into the union of both. The preview runs the merge's
gate and its classification on its own. They part where the merge is asked to resolve conflicts by a
model: on diverged branches it refuses, and no preview says so.
-/

namespace RosheraCad

inductive BranchRelationship
  | upToDate
  | fastForward (eventsAhead : ℕ)
  | divergent (commonPrefix sourceOnly targetOnly : ℕ)
  deriving DecidableEq

structure MergePreview where
  relationship : BranchRelationship
  conflicts : List MergeConflict

namespace Timeline

/-! ## The merged timeline, in full -/

structure MergedInto (t t' : Timeline) (source target : BranchId) (now : Timestamp) : Prop where
  distinct : source ≠ target
  target_union : ∀ (k : EventIndex) (e : EventId), (t'.index target)[k]? = some e ↔
    (t.index target)[k]? = some e ∨ (t.index source)[k]? = some e
  each_once : ∀ (k l : EventIndex) (e : EventId), (t'.index target)[k]? = some e →
    (t'.index target)[l]? = some e → k = l
  own_sequence : ∀ (k : EventIndex) (e : EventId), (t'.index target)[k]? = some e →
    ∃ ev, t'.events[e]? = some ev ∧ ev.sequenceNumber = k
  indexes_kept : ∀ b, b ≠ target → t'.branchEvents[b]? = t.branchEvents[b]?
  source_merged : ∃ r, t.branches[source]? = some r ∧
    t'.branches[source]? = some { r with state := .merged target now }
  records_kept : ∀ b, b ≠ source → t'.branches[b]? = t.branches[b]?
  events_kept : t'.events = t.events ∧ t'.entityEvents = t.entityEvents
  pointers_kept : t'.sessionPositions = t.sessionPositions ∧ t'.appliedHeads = t.appliedHeads ∧
    t'.eventCounter = t.eventCounter

section Merged

variable {t : Timeline} {source target : BranchId} {strategy : MergeStrategy} {now : Timestamp}
  {reserved : List EventIndex}

theorem mergedInto_of_succeeded (h : t.WellFormed reserved)
    (hs : mergeSucceeded (t.mergeBranches source target strategy now)) :
    MergedInto t (t.mergeBranches source target strategy now).2 source target now := by
  have hwf := mergeBranches_wellFormed h source target strategy now
  have hunion := getElem?_index_mergeBranches h hs target
  obtain ⟨entries, hm, -, heq⟩ := mergeBranches_of_succeeded h hs
  rw [heq] at hwf hunion ⊢
  refine ⟨hm.1, fun k e ↦ ?_, fun k l e hk hl ↦ hwf.key_unique hk hl, hwf.entries_resolve target,
    fun b hb ↦ ?_, ?_, fun b hb ↦ ?_, ⟨rfl, rfl⟩, ⟨rfl, rfl, rfl⟩⟩
  · rw [hunion]
    simp only [true_and]
  · have hmap : ((t.withEntries target entries).setState source (.merged target now)).branchEvents =
        (t.withEntries target entries).branchEvents := rfl
    rw [hmap, withEntries, OrderedMap.getElem?_modifyKeys, if_neg fun hmem ↦ ?_]
    exact hb (List.mem_singleton.mp hmem)
  · obtain ⟨r, hr, -⟩ := Option.map_eq_some_iff.mp hm.2.1
    refine ⟨r, hr, ?_⟩
    rw [setState_branches, if_pos rfl]
    exact congrArg _ hr
  · rw [setState_branches, if_neg hb]
    rfl

theorem mergeBranches_of_not_succeeded (h : t.WellFormed reserved)
    (hs : ¬ mergeSucceeded (t.mergeBranches source target strategy now)) :
    (t.mergeBranches source target strategy now).2 = t := by
  obtain ⟨e, heq⟩ | ⟨conflicts, -, heq⟩ | ⟨entries, -, -, heq⟩ :=
    mergeBranches_cases h source target strategy now
  · rw [heq]
  · rw [heq]
  · rw [heq] at hs
    exact absurd rfl hs

theorem not_succeeded_of_reported (h : t.WellFormed reserved)
    (hreported : (∃ e, (t.mergeBranches source target strategy now).1 = .error e) ∨
      ∃ r, (t.mergeBranches source target strategy now).1 = .ok r ∧ r.conflicts ≠ []) :
    ¬ mergeSucceeded (t.mergeBranches source target strategy now) := by
  intro hs
  obtain ⟨entries, -, -, heq⟩ := mergeBranches_of_succeeded h hs
  rw [heq] at hreported
  obtain ⟨e, he⟩ | ⟨r, hr, hconflicts⟩ := hreported
  · cases he
  · cases hr
    exact hconflicts rfl

end Merged

/-! ## The preview -/

def previewSequences (t : Timeline) (sourceSeq targetSeq : EntrySequence) : MergePreview :=
  if sourceSeq.UpToDate targetSeq then ⟨.upToDate, []⟩
  else if sourceSeq.FastForward targetSeq then
    ⟨.fastForward (sourceSeq.length - targetSeq.length), []⟩
  else
    let common := sourceSeq.commonPrefixLen targetSeq
    let sourceOnly := t.eventsFor (sourceSeq.drop common)
    let targetOnly := t.eventsFor (targetSeq.drop common)
    ⟨.divergent common (sourceSeq.length - common) (targetSeq.length - common),
      classifyDivergenceConflicts sourceOnly targetOnly⟩

/-- How `source` relates to `target`, and the conflicts a three-way merge would report. -/
def previewMerge (t : Timeline) (source target : BranchId) : Outcome MergePreview :=
  if source = target then
    (.error (.invalidOperation [.text "cannot merge a branch into itself"]), t)
  else
    match t.branches[source]?, t.branches[target]? with
    | none, _ => (.error (.branchNotFound source), t)
    | some _, none => (.error (.branchNotFound target), t)
    | some sourceRecord, some targetRecord =>
      if ¬ sourceRecord.state.isActive then
        (.error (.invalidOperation [.text ("source branch " ++ source.toText
          ++ " is not active (state="), .debugState sourceRecord.state, .text ")"]), t)
      else if ¬ targetRecord.state.isActive then
        (.error (.invalidOperation [.text ("target branch " ++ target.toText
          ++ " is not active (state="), .debugState targetRecord.state, .text ")"]), t)
      else
        match t.branchSequence source, t.branchSequence target with
        | .error e, _ => (.error e, t)
        | .ok _, .error e => (.error e, t)
        | .ok sourceSeq, .ok targetSeq => (.ok (t.previewSequences sourceSeq targetSeq), t)

section Preview

variable {t : Timeline} {source target : BranchId} {reserved : List EventIndex}

theorem previewMerge_gate (h : t.WellFormed reserved) (source target : BranchId) :
    (¬ t.Mergeable source target ∧ ∃ e, t.previewMerge source target = (.error e, t) ∧
        ∀ strategy now, t.mergeBranches source target strategy now = (.error e, t)) ∨
      (t.Mergeable source target ∧ t.previewMerge source target =
        (.ok (t.previewSequences (t.index source).toList (t.index target).toList), t)) := by
  simp only [previewMerge, mergeBranches, Mergeable]
  by_cases hne : source = target
  · exact Or.inl ⟨fun hm ↦ hm.1 hne, _, if_pos hne, fun _ _ ↦ if_pos hne⟩
  simp only [hne, if_false, stateOf]
  cases hs : t.branches[source]? with
  | none => exact Or.inl ⟨by simp, _, rfl, fun _ _ ↦ rfl⟩
  | some sr =>
    cases ht : t.branches[target]? with
    | none => exact Or.inl ⟨by simp, _, rfl, fun _ _ ↦ rfl⟩
    | some tr =>
      by_cases hsa : sr.state.isActive
      · by_cases hta : tr.state.isActive
        · rw [BranchState.isActive_iff] at hsa hta
          refine Or.inr ⟨⟨hne, congrArg some hsa, congrArg some hta⟩, ?_⟩
          simp only [hsa, hta, BranchState.isActive_iff, not_true_eq_false, if_false,
            branchSequence_of_mem h (OrderedMap.mem_of_getElem? hs),
            branchSequence_of_mem h (OrderedMap.mem_of_getElem? ht)]
        · refine Or.inl ⟨fun hm ↦ hta ?_, _, (if_neg (not_not_intro hsa)).trans (if_pos hta),
            fun _ _ ↦ (if_neg (not_not_intro hsa)).trans (if_pos hta)⟩
          exact BranchState.isActive_iff.mpr (Option.some_inj.mp hm.2.2)
      · refine Or.inl ⟨fun hm ↦ hsa ?_, _, if_pos hsa, fun _ _ ↦ if_pos hsa⟩
        exact BranchState.isActive_iff.mpr (Option.some_inj.mp hm.2.1)

/-- Whatever the strategy, a merge of the pair succeeds and brings in `n` events. -/
def AlwaysBringsIn (t : Timeline) (source target : BranchId) (n : ℕ) : Prop :=
  ∀ strategy now, ∃ events : List TimelineEvent, events.length = n ∧
    (t.mergeBranches source target strategy now).1 = .ok (mergedResult events)

def RefusesFastForward (t : Timeline) (source target : BranchId) : Prop :=
  ∀ now, ∃ message, (t.mergeBranches source target .fastForward now).1 =
    .error (.branchConflict message)

/-- Where the preview and the merge of a pair agree. -/
structure PreviewAgrees (t : Timeline) (source target : BranchId) : Prop where
  refused : ∀ e, (t.previewMerge source target).1 = .error e ↔
    ∀ strategy now, (t.mergeBranches source target strategy now).1 = .error e
  up_to_date : ∀ p, (t.previewMerge source target).1 = .ok p →
    (p.relationship = .upToDate ↔ t.AlwaysBringsIn source target 0)
  fast_forward : ∀ p n, (t.previewMerge source target).1 = .ok p →
    (p.relationship = .fastForward n ↔ 0 < n ∧ t.AlwaysBringsIn source target n)
  divergent : ∀ p, (t.previewMerge source target).1 = .ok p →
    ((∃ common sourceOnly targetOnly, p.relationship = .divergent common sourceOnly targetOnly) ↔
      t.RefusesFastForward source target)
  three_way : ∀ p, (t.previewMerge source target).1 = .ok p → ∀ cs now,
    cs.Reports →
      ∃ r, (t.mergeBranches source target (.threeWay cs) now).1 = .ok r ∧
        r.conflicts = p.conflicts ∧ (r.success = true ↔ p.conflicts = [])
  unchanged : (t.previewMerge source target).2 = t

theorem AlwaysBringsIn.unique {n m : ℕ} (hn : t.AlwaysBringsIn source target n)
    (hm : t.AlwaysBringsIn source target m) : n = m := by
  obtain ⟨events, hlen, heq⟩ := hn .fastForward ⟨0⟩
  obtain ⟨events', hlen', heq'⟩ := hm .fastForward ⟨0⟩
  have hevents : events = events' :=
    congrArg MergeResult.mergedEvents (Except.ok.inj (heq.symm.trans heq'))
  rw [← hlen, ← hlen', hevents]

theorem RefusesFastForward.not_alwaysBringsIn (hr : t.RefusesFastForward source target) (n : ℕ) :
    ¬ t.AlwaysBringsIn source target n := by
  intro hn
  obtain ⟨events, -, heq⟩ := hn .fastForward ⟨0⟩
  obtain ⟨message, heq'⟩ := hr ⟨0⟩
  cases heq.symm.trans heq'

theorem AlwaysBringsIn.no_conflicts {n : ℕ} (hn : t.AlwaysBringsIn source target n)
    (strategy : MergeStrategy) (now : Timestamp) :
    ∃ r, (t.mergeBranches source target strategy now).1 = .ok r ∧ r.conflicts = [] ∧
      r.success = true := by
  obtain ⟨events, -, heq⟩ := hn strategy now
  exact ⟨_, heq, rfl, rfl⟩

theorem mergeBranches_by_relationship (h : t.WellFormed reserved)
    (hm : t.Mergeable source target) :
    ∃ p, t.previewMerge source target = (.ok p, t) ∧
      ((p.relationship = .upToDate ∧ p.conflicts = [] ∧ t.AlwaysBringsIn source target 0) ∨
        (∃ n, p.relationship = .fastForward n ∧ p.conflicts = [] ∧ 0 < n ∧
          t.AlwaysBringsIn source target n) ∨
        ((∃ c s u, p.relationship = .divergent c s u) ∧ t.RefusesFastForward source target ∧
          ∀ cs now, cs.Reports →
            ∃ r, (t.mergeBranches source target (.threeWay cs) now).1 = .ok r ∧
              r.conflicts = p.conflicts ∧ (r.success = true ↔ p.conflicts = []))) := by
  obtain ⟨hnot, -⟩ | ⟨-, hpreview⟩ := previewMerge_gate h source target
  · exact absurd hm hnot
  have hmerge (strategy : MergeStrategy) (now : Timestamp) :
      t.mergeBranches source target strategy now =
        t.mergeSequences source target strategy now (t.index source).toList
          (t.index target).toList := by
    obtain ⟨hnot, -⟩ | ⟨-, heq⟩ := mergeBranches_gate h source target strategy now
    · exact absurd hm hnot
    · exact heq
  have htarget : target ∈ t.branchEvents :=
    (h.branches_agree _).mp (mem_branches_of_stateOf hm.2.2)
  refine ⟨_, hpreview, ?_⟩
  rw [previewSequences]
  by_cases hup : EntrySequence.UpToDate (t.index source).toList (t.index target).toList
  · rw [if_pos hup]
    refine Or.inl ⟨rfl, rfl, fun strategy now ↦ ⟨[], rfl, ?_⟩⟩
    rw [hmerge, mergeSequences, if_pos hup]
  rw [if_neg hup]
  by_cases hff : EntrySequence.FastForward (t.index source).toList (t.index target).toList
  · rw [if_pos hff]
    refine Or.inr (Or.inl ⟨_, rfl, rfl, Nat.sub_pos_of_lt hff.1, fun strategy now ↦
      ⟨t.eventsFor ((t.index source).toList.drop (t.index target).toList.length),
        length_eventsFor_drop h source _, ?_⟩⟩)
    rw [hmerge, mergeSequences, if_neg hup, if_pos hff, if_neg (not_not_intro htarget)]
  rw [if_neg hff]
  have hdiverged : t.Diverged source target := ⟨hm, hup, hff⟩
  obtain ⟨message, hmessage⟩ : ∃ message, strategyRefusal source target (t.index source).toList
      (t.index target).toList .fastForward = some (.branchConflict message) := ⟨_, rfl⟩
  refine Or.inr (Or.inr ⟨⟨_, _, _, rfl⟩, fun now ↦ ⟨message, ?_⟩, fun cs now hcs ↦ ?_⟩)
  · rw [mergeBranches_of_diverged h hdiverged, hmessage]
  · rw [mergeBranches_of_diverged h hdiverged, strategyRefusal_threeWay _ _ _ _ hcs]
    by_cases hc : classifyDivergenceConflicts
        (t.eventsAfterBase source target source) (t.eventsAfterBase source target target) = []
    · exact ⟨_, if_pos hc, hc.symm, iff_of_true rfl hc⟩
    · exact ⟨_, if_neg hc, rfl, iff_of_false Bool.false_ne_true hc⟩

theorem previewAgrees_of_wellFormed (h : t.WellFormed reserved) (source target : BranchId) :
    PreviewAgrees t source target := by
  obtain ⟨-, e, hpreview, hmerge⟩ | ⟨hm, -⟩ := previewMerge_gate h source target
  · have hnone (p : MergePreview) : (t.previewMerge source target).1 ≠ .ok p := by
      rw [hpreview]
      exact nofun
    refine ⟨fun e' ↦ ?_, fun p hp ↦ absurd hp (hnone p), fun p n hp ↦ absurd hp (hnone p),
      fun p hp ↦ absurd hp (hnone p), fun p hp ↦ absurd hp (hnone p), by rw [hpreview]⟩
    rw [hpreview]
    constructor
    · intro he strategy now
      rw [hmerge, Except.error.inj he]
    · -- Every strategy is refused alike, so one of them tells the error.
      intro he
      have hfirst := he .fastForward ⟨0⟩
      rw [hmerge] at hfirst
      rw [Except.error.inj hfirst]
  · obtain ⟨p, hpreview, hcases⟩ := mergeBranches_by_relationship h hm
    have hp {q : MergePreview} (hq : (t.previewMerge source target).1 = .ok q) : q = p := by
      rw [hpreview] at hq
      exact (Except.ok.inj hq).symm
    have hrefused {strategy : MergeStrategy} {r : MergeResult}
        (hr : (t.mergeBranches source target strategy ⟨0⟩).1 = .ok r) (e : TimelineError) :
        (t.previewMerge source target).1 = .error e ↔
          ∀ strategy now, (t.mergeBranches source target strategy now).1 = .error e := by
      rw [hpreview]
      refine iff_of_false nofun fun he ↦ ?_
      cases hr.symm.trans (he strategy ⟨0⟩)
    have hunchanged : (t.previewMerge source target).2 = t := by rw [hpreview]
    obtain ⟨hrel, hconflicts, hzero⟩ | ⟨n, hrel, hconflicts, hpos, hn⟩ |
      ⟨⟨c, s, u, hrel⟩, hdiverged, hthree⟩ := hcases
    · obtain ⟨r, hr, -⟩ := hzero.no_conflicts .fastForward ⟨0⟩
      refine ⟨hrefused hr, fun q hq ↦ ?_, fun q m hq ↦ ?_, fun q hq ↦ ?_, fun q hq cs now _ ↦ ?_,
        hunchanged⟩ <;> obtain rfl := hp hq
      · exact iff_of_true hrel hzero
      · exact iff_of_false (hrel ▸ nofun) fun hm ↦ hm.1.ne (hzero.unique hm.2)
      · exact iff_of_false (hrel ▸ nofun) fun hd ↦ hd.not_alwaysBringsIn 0 hzero
      · obtain ⟨r, hr, hnil, hsuccess⟩ := hzero.no_conflicts (.threeWay cs) now
        exact ⟨r, hr, hnil.trans hconflicts.symm, iff_of_true hsuccess hconflicts⟩
    · obtain ⟨r, hr, -⟩ := hn.no_conflicts .fastForward ⟨0⟩
      refine ⟨hrefused hr, fun q hq ↦ ?_, fun q m hq ↦ ?_, fun q hq ↦ ?_, fun q hq cs now _ ↦ ?_,
        hunchanged⟩ <;> obtain rfl := hp hq
      · exact iff_of_false (hrel ▸ nofun) fun hz ↦ hpos.ne (hz.unique hn)
      · rw [hrel, BranchRelationship.fastForward.injEq]
        exact ⟨fun h ↦ h ▸ ⟨hpos, hn⟩, fun hm ↦ hn.unique hm.2⟩
      · exact iff_of_false (hrel ▸ nofun) fun hd ↦ hd.not_alwaysBringsIn n hn
      · obtain ⟨r, hr, hnil, hsuccess⟩ := hn.no_conflicts (.threeWay cs) now
        exact ⟨r, hr, hnil.trans hconflicts.symm, iff_of_true hsuccess hconflicts⟩
    · obtain ⟨r, hr, -⟩ := hthree .manual ⟨0⟩ nofun
      refine ⟨hrefused hr, fun q hq ↦ ?_, fun q m hq ↦ ?_, fun q hq ↦ ?_, fun q hq ↦ ?_,
        hunchanged⟩ <;> obtain rfl := hp hq
      · exact iff_of_false (hrel ▸ nofun) (hdiverged.not_alwaysBringsIn 0)
      · exact iff_of_false (hrel ▸ nofun) fun hm ↦ hdiverged.not_alwaysBringsIn m hm.2
      · exact iff_of_true ⟨c, s, u, hrel⟩ hdiverged
      · exact hthree

end Preview

end Timeline

/-! ## On reachable timelines -/

section Reachable

variable {s : TimelineRun}

/-- **A merge is all or nothing.** A success is the union; anything else leaves the timeline as it
was. -/
theorem merge_all_or_nothing [UuidParser] (h : timelineSystem.Reachable s)
    (source target : BranchId) (strategy : MergeStrategy) (now : Timestamp) :
    (Timeline.mergeSucceeded (s.timeline.mergeBranches source target strategy now) →
        Timeline.MergedInto s.timeline (s.timeline.mergeBranches source target strategy now).2
          source target now) ∧
      (((∃ e, (s.timeline.mergeBranches source target strategy now).1 = .error e) ∨
          ∃ r, (s.timeline.mergeBranches source target strategy now).1 = .ok r ∧ r.conflicts ≠ []) →
        (s.timeline.mergeBranches source target strategy now).2 = s.timeline) :=
  ⟨Timeline.mergedInto_of_succeeded (reachable_wellFormed h), fun hreported ↦
    Timeline.mergeBranches_of_not_succeeded (reachable_wellFormed h)
      (Timeline.not_succeeded_of_reported (reachable_wellFormed h) hreported)⟩

/-- A branch forked from the first entry of main, and one more event on each. -/
def divergedRun : TimelineRun := exampleRun
  [.addOperation exampleOp .system .main (exampleEvent 1),
    .createBranch "side" .main none .system (exampleBranch 1),
    .addOperation exampleOp .system .main (exampleEvent 2),
    .addOperation exampleOp .system (exampleBranch 1) (exampleEvent 3)]

theorem divergedRun_reachable : (@timelineSystem noUuids).Reachable divergedRun :=
  letI := noUuids
  .run .init (by decide)

theorem merge_all_or_nothing_example :
    (Timeline.mergeSucceeded (divergedRun.timeline.mergeBranches (exampleBranch 1) .main
          (.threeWay .manual) ⟨0⟩) →
        Timeline.MergedInto divergedRun.timeline (divergedRun.timeline.mergeBranches
          (exampleBranch 1) .main (.threeWay .manual) ⟨0⟩).2 (exampleBranch 1) .main ⟨0⟩) ∧
      (((∃ e, (divergedRun.timeline.mergeBranches (exampleBranch 1) .main (.threeWay .manual)
            ⟨0⟩).1 = .error e) ∨
          ∃ r, (divergedRun.timeline.mergeBranches (exampleBranch 1) .main (.threeWay .manual)
            ⟨0⟩).1 = .ok r ∧ r.conflicts ≠ []) →
        (divergedRun.timeline.mergeBranches (exampleBranch 1) .main (.threeWay .manual) ⟨0⟩).2 =
          divergedRun.timeline) :=
  letI := noUuids
  merge_all_or_nothing divergedRun_reachable (exampleBranch 1) .main (.threeWay .manual) ⟨0⟩

end Reachable

end RosheraCad
