import RosheraCad.Timeline.Branching
import RosheraCad.Timeline.Conflict

/-!
# Merging

When the source's entry sequence is a prefix of the target's there is nothing to copy; when the
target's is a strict prefix of the source's the rest is copied whatever the strategy; otherwise only
a three-way merge without conflicts copies the source's entries.
-/

namespace RosheraCad

structure MergeStatistics where
  eventsMerged : ℕ
  conflictsCount : ℕ
  autoResolved : ℕ
  entitiesAffected : ℕ
  deriving DecidableEq

structure MergeResult where
  success : Bool
  mergedEvents : List TimelineEvent
  conflicts : List MergeConflict
  modifiedEntities : List EntityId
  statistics : MergeStatistics

abbrev EntrySequence := List (EventIndex × EventId)

namespace EntrySequence

abbrev UpToDate (source target : EntrySequence) : Prop :=
  source.length ≤ target.length ∧ (source.zip target).all fun p ↦ p.1 = p.2

abbrev FastForward (source target : EntrySequence) : Prop :=
  target.length < source.length ∧ source.take target.length = target

def commonPrefixLen (source target : EntrySequence) : ℕ :=
  ((source.zip target).takeWhile fun p ↦ p.1 = p.2).length

end EntrySequence

/-- The strategy asks no model to resolve the conflicts, so they are reported. -/
def ConflictStrategy.Reports (cs : ConflictStrategy) : Prop :=
  ∀ model criteria, cs ≠ .ai model criteria

namespace Timeline

variable (t : Timeline)

/-! ## The merge -/

def withEntries (b : BranchId) (entries : EntrySequence) : Timeline :=
  { t with branchEvents := t.branchEvents.modifyKeys [b] fun m ↦ m.insertEntries entries }

def affectedEntities (events : List TimelineEvent) : List EntityId :=
  (events.flatMap fun ev ↦
    ev.outputs.created.map CreatedEntity.id ++ ev.outputs.modified ++ ev.outputs.deleted).eraseDups

def mergedResult (events : List TimelineEvent) : MergeResult where
  success := true
  mergedEvents := events
  conflicts := []
  modifiedEntities := affectedEntities events
  statistics := ⟨events.length, 0, 0, (affectedEntities events).length⟩

def conflictedResult (conflicts : List MergeConflict) : MergeResult where
  success := false
  mergedEvents := []
  conflicts
  modifiedEntities := []
  statistics := ⟨0, conflicts.length, 0, 0⟩

def divergenceText (source target : BranchId) (sourceSeq targetSeq : EntrySequence) :
    String × String :=
  let common := sourceSeq.commonPrefixLen targetSeq
  (source.toText ++ " and " ++ target.toText ++ " have diverged",
    "common prefix = " ++ toString common ++ " events, source-only = "
      ++ toString (sourceSeq.length - common) ++ ", target-only = "
      ++ toString (targetSeq.length - common))

def strategyRefusal (source target : BranchId) (sourceSeq targetSeq : EntrySequence) :
    MergeStrategy → Option TimelineError
  | .fastForward =>
    let (who, shape) := divergenceText source target sourceSeq targetSeq
    some (.branchConflict ("branches " ++ who ++ ": " ++ shape
      ++ "; fast-forward-only merge cannot resolve divergence — retry with "
      ++ "MergeStrategy::ThreeWay for a real three-way merge"))
  | .threeWay (.ai model _) =>
    some (.notImplemented [.text ("ConflictStrategy::AI requested model '" ++ model
      ++ "' but no model dispatcher is wired into Timeline::merge_branches; use PreferSource / "
      ++ "PreferTarget / PreferNewest / Manual instead, or resolve the reported conflicts "
      ++ "yourself and retry")])
  | .threeWay _ => none
  | strategy =>
    let (who, shape) := divergenceText source target sourceSeq targetSeq
    some (.notImplemented [.text "MergeStrategy::", .debugStrategy strategy,
      .text (" has no divergent-merge implementation; branches " ++ who ++ " (" ++ shape
        ++ ") — use MergeStrategy::ThreeWay to detect and report conflicts")])

def mergeSequences (source target : BranchId) (strategy : MergeStrategy) (now : Timestamp)
    (sourceSeq targetSeq : EntrySequence) : Outcome MergeResult :=
  if sourceSeq.UpToDate targetSeq then
    (.ok (mergedResult []), t.setState source (.merged target now))
  else if sourceSeq.FastForward targetSeq then
    let suffix := sourceSeq.drop targetSeq.length
    if target ∉ t.branchEvents then (.error (.branchNotFound target), t)
    else
      (.ok (mergedResult (t.eventsFor suffix)),
        (t.withEntries target suffix).setState source (.merged target now))
  else
    match strategyRefusal source target sourceSeq targetSeq strategy with
    | some e => (.error e, t)
    | none =>
      let common := sourceSeq.commonPrefixLen targetSeq
      let sourceOnly := t.eventsFor (sourceSeq.drop common)
      let targetOnly := t.eventsFor (targetSeq.drop common)
      let conflicts := classifyDivergenceConflicts sourceOnly targetOnly
      if conflicts ≠ [] then (.ok (conflictedResult conflicts), t)
      else if target ∉ t.branchEvents then (.error (.branchNotFound target), t)
      else
        (.ok (mergedResult sourceOnly),
          (t.withEntries target (sourceOnly.map fun ev ↦ (ev.sequenceNumber, ev.id))).setState
            source (.merged target now))

/-- Merge `source` into `target`. `now` is the instant the merge is stamped with. -/
def mergeBranches (source target : BranchId) (strategy : MergeStrategy) (now : Timestamp) :
    Outcome MergeResult :=
  if source = target then
    (.error (.invalidOperation [.text "cannot merge a branch into itself"]), t)
  else
    match t.branches[source]?, t.branches[target]? with
    | none, _ => (.error (.branchNotFound source), t)
    | some _, none => (.error (.branchNotFound target), t)
    | some sourceRecord, some targetRecord =>
      if ¬ sourceRecord.state.isActive then
        (.error (.invalidOperation [.text ("source branch " ++ source.toText
          ++ " is not active (state="), .debugState sourceRecord.state, .text ")"]), t)
      else if ¬ targetRecord.state.isActive then
        (.error (.invalidOperation [.text ("target branch " ++ target.toText
          ++ " is not active (state="), .debugState targetRecord.state, .text ")"]), t)
      else
        match t.branchSequence source, t.branchSequence target with
        | .error e, _ => (.error e, t)
        | .ok _, .error e => (.error e, t)
        | .ok sourceSeq, .ok targetSeq =>
          t.mergeSequences source target strategy now sourceSeq targetSeq

/-- Whether a merge answers with success. -/
def mergeSucceeded : Outcome MergeResult → Bool
  | (.ok result, _) => result.success
  | (.error _, _) => false

end Timeline

namespace EntrySequence

variable {source target : EntrySequence}

theorem zip_all_iff {s t : EntrySequence} (hlen : s.length ≤ t.length) :
    ((s.zip t).all fun p ↦ p.1 = p.2) = true ↔ s <+: t := by
  induction s generalizing t with
  | nil => simp
  | cons a s ih =>
    cases t with
    | nil => simp at hlen
    | cons b t =>
      have hlen' : s.length ≤ t.length := Nat.le_of_succ_le_succ hlen
      rw [List.zip_cons_cons, List.all_cons, Bool.and_eq_true, ih hlen', decide_eq_true_eq,
        List.cons_prefix_cons]

theorem upToDate_iff : source.UpToDate target ↔ source <+: target := by
  constructor
  · rintro ⟨hlen, hall⟩
    exact (zip_all_iff hlen).mp hall
  · intro h
    exact ⟨h.length_le, (zip_all_iff h.length_le).mpr h⟩

theorem take_commonPrefixLen (source target : EntrySequence) :
    source.take (source.commonPrefixLen target) = target.take (source.commonPrefixLen target) := by
  induction source generalizing target with
  | nil => simp [commonPrefixLen]
  | cons a source ih =>
    cases target with
    | nil => simp [commonPrefixLen]
    | cons b target =>
      by_cases hab : a = b
      · have hlen : commonPrefixLen (a :: source) (b :: target) =
            commonPrefixLen source target + 1 := by
          simp [commonPrefixLen, hab]
        rw [hlen, List.take_succ_cons, List.take_succ_cons, ih, hab]
      · simp [commonPrefixLen, hab]

end EntrySequence

namespace Timeline

/-! ## What a merge does -/

variable {b : BranchId}

section Spec

variable {t : Timeline} {source target : BranchId} {strategy : MergeStrategy} {now : Timestamp}
  {reserved : List EventIndex}

theorem strategyRefusal_threeWay (source target : BranchId) (sourceSeq targetSeq : EntrySequence)
    {cs : ConflictStrategy} (hcs : cs.Reports) :
    strategyRefusal source target sourceSeq targetSeq (.threeWay cs) = none := by
  cases cs with
  | ai model criteria => exact absurd rfl (hcs model criteria)
  | preferSource | preferTarget | preferNewest | manual => rfl

/-- The pairs the gate admits: two distinct active branches. -/
def Mergeable (t : Timeline) (source target : BranchId) : Prop :=
  source ≠ target ∧ t.stateOf source = some .active ∧ t.stateOf target = some .active

theorem branchSequence_of_mem (h : t.WellFormed reserved) (hb : b ∈ t.branches) :
    t.branchSequence b = .ok (t.index b).toList := by
  obtain ⟨m, hm⟩ := h.exists_index hb
  rw [branchSequence, hm, index_eq_of_getElem? hm]

theorem mem_branches_of_stateOf {s : BranchState} (h : t.stateOf b = some s) :
    b ∈ t.branches := by
  obtain ⟨r, hr, -⟩ := Option.map_eq_some_iff.mp h
  exact OrderedMap.mem_of_getElem? hr

theorem mergeBranches_gate (h : t.WellFormed reserved) (source target : BranchId)
    (strategy : MergeStrategy) (now : Timestamp) :
    (¬ t.Mergeable source target ∧
        ∃ e, t.mergeBranches source target strategy now = (.error e, t)) ∨
      (t.Mergeable source target ∧ t.mergeBranches source target strategy now =
        t.mergeSequences source target strategy now (t.index source).toList
          (t.index target).toList) := by
  rw [mergeBranches, Mergeable]
  by_cases hne : source = target
  · exact Or.inl ⟨fun hm ↦ hm.1 hne, _, if_pos hne⟩
  rw [if_neg hne, stateOf, stateOf]
  cases hs : t.branches[source]? with
  | none => exact Or.inl ⟨by simp, _, rfl⟩
  | some sr =>
    cases ht : t.branches[target]? with
    | none => exact Or.inl ⟨by simp, _, rfl⟩
    | some tr =>
      by_cases hsa : sr.state.isActive
      · by_cases hta : tr.state.isActive
        · rw [BranchState.isActive_iff] at hsa hta
          refine Or.inr ⟨⟨hne, congrArg some hsa, congrArg some hta⟩, ?_⟩
          simp only [hsa, hta, BranchState.isActive_iff, not_true_eq_false, if_false,
            branchSequence_of_mem h (OrderedMap.mem_of_getElem? hs),
            branchSequence_of_mem h (OrderedMap.mem_of_getElem? ht)]
        · refine Or.inl ⟨fun hm ↦ hta ?_, _, (if_neg (not_not_intro hsa)).trans (if_pos hta)⟩
          exact BranchState.isActive_iff.mpr (Option.some_inj.mp hm.2.2)
      · refine Or.inl ⟨fun hm ↦ hsa ?_, _, if_pos hsa⟩
        exact BranchState.isActive_iff.mpr (Option.some_inj.mp hm.2.1)

structure Copies (t : Timeline) (source target : BranchId) (entries : EntrySequence) : Prop where
  sound : ∀ k e, (k, e) ∈ entries → (t.index source)[k]? = some e
  complete : ∀ k e, (t.index source)[k]? = some e →
    (k, e) ∈ entries ∨ (t.index target)[k]? = some e

private theorem copies_drop {n : ℕ}
    (hshared : (t.index source).toList.take n <+: (t.index target).toList) :
    t.Copies source target ((t.index source).toList.drop n) where
  sound k e hke := OrderedMap.mem_toList.mp (List.mem_of_mem_drop hke)
  complete k e hke := by
    rw [← OrderedMap.mem_toList, ← List.take_append_drop n (t.index source).toList,
      List.mem_append] at hke
    rcases hke with hke | hke
    · exact Or.inr (OrderedMap.mem_toList.mp (hshared.subset hke))
    · exact Or.inl hke

theorem eventsFor_entries (h : t.WellFormed reserved) (b : BranchId) {entries : EntrySequence}
    (hsub : ∀ p ∈ entries, p ∈ (t.index b).toList) :
    (t.eventsFor entries).map (fun ev ↦ (ev.sequenceNumber, ev.id)) = entries := by
  induction entries with
  | nil => rfl
  | cons p entries ih =>
    obtain ⟨k, e⟩ := p
    have hk : (t.index b)[k]? = some e := OrderedMap.mem_toList.mp (hsub _ List.mem_cons_self)
    obtain ⟨ev, hev, hseq⟩ := h.entries_resolve b k e hk
    have htail := ih fun p hp ↦ hsub p (List.mem_cons_of_mem _ hp)
    rw [eventsFor] at htail ⊢
    simp only [List.filterMap_cons, hev, List.map_cons, htail, hseq, h.event_ids e ev hev]

theorem length_eventsFor_drop (h : t.WellFormed reserved) (b : BranchId) (n : ℕ) :
    (t.eventsFor ((t.index b).toList.drop n)).length = (t.index b).toList.length - n := by
  rw [← List.length_drop, ← List.length_map (fun ev ↦ (ev.sequenceNumber, ev.id)),
    eventsFor_entries h b fun p hp ↦ List.mem_of_mem_drop hp]

theorem withEntries_nil (b : BranchId) : t.withEntries b [] = t := by
  have hmap : (t.branchEvents.modifyKeys [b] fun m ↦ m.insertEntries []) = t.branchEvents := by
    refine OrderedMap.ext_lookup fun c ↦ ?_
    rw [OrderedMap.getElem?_modifyKeys]
    split <;> simp
  rw [withEntries, hmap]

/-- **Everything a merge does.** Refusals and reported conflicts change nothing. A success copies
the missing entries of the source and marks it merged, whichever path it takes. -/
theorem mergeBranches_cases (h : t.WellFormed reserved) (source target : BranchId)
    (strategy : MergeStrategy) (now : Timestamp) :
    (∃ e, t.mergeBranches source target strategy now = (.error e, t)) ∨
      (∃ conflicts, conflicts ≠ [] ∧
        t.mergeBranches source target strategy now = (.ok (conflictedResult conflicts), t)) ∨
      ∃ entries, t.Mergeable source target ∧ t.Copies source target entries ∧
        t.mergeBranches source target strategy now = (.ok (mergedResult (t.eventsFor entries)),
          (t.withEntries target entries).setState source (.merged target now)) := by
  obtain ⟨-, e, heq⟩ | ⟨hmergeable, heq⟩ := mergeBranches_gate h source target strategy now
  · exact Or.inl ⟨e, heq⟩
  have htarget : target ∈ t.branchEvents :=
    (h.branches_agree _).mp (mem_branches_of_stateOf hmergeable.2.2)
  rw [heq, mergeSequences]
  -- The three paths, in the order the merge tries them.
  by_cases hup : EntrySequence.UpToDate (t.index source).toList (t.index target).toList
  · refine Or.inr (Or.inr ⟨[], hmergeable, ?_, ?_⟩)
    · have hinit := EntrySequence.upToDate_iff.mp hup
      exact ⟨fun k e hke ↦ by simp at hke, fun k e hke ↦ Or.inr (OrderedMap.mem_toList.mp
        (hinit.subset (OrderedMap.mem_toList.mpr hke)))⟩
    · rw [if_pos hup, withEntries_nil]
      rfl
  rw [if_neg hup]
  by_cases hff : EntrySequence.FastForward (t.index source).toList (t.index target).toList
  · refine Or.inr (Or.inr ⟨(t.index source).toList.drop (t.index target).toList.length,
      hmergeable, copies_drop ?_, ?_⟩)
    · exact hff.2.symm ▸ List.prefix_rfl
    · rw [if_pos hff, if_neg (not_not_intro htarget)]
  rw [if_neg hff]
  cases hstrat : strategyRefusal source target (t.index source).toList (t.index target).toList
      strategy with
  | some e => exact Or.inl ⟨e, rfl⟩
  | none =>
    simp only
    generalize hconf : classifyDivergenceConflicts _ _ = conflicts
    by_cases hc : conflicts = []
    · refine Or.inr (Or.inr ⟨(t.index source).toList.drop
        (EntrySequence.commonPrefixLen (t.index source).toList (t.index target).toList),
        hmergeable, copies_drop ?_, ?_⟩)
      · rw [EntrySequence.take_commonPrefixLen]
        exact List.take_prefix _ _
      · rw [eventsFor_entries h source fun p hp ↦ List.mem_of_mem_drop hp]
        rw [if_neg (not_not_intro hc), if_neg (not_not_intro htarget)]
    · exact Or.inr (Or.inl ⟨conflicts, hc, if_pos hc⟩)

/-- A mergeable pair of which neither history continues the other. -/
def Diverged (t : Timeline) (source target : BranchId) : Prop :=
  t.Mergeable source target ∧
    ¬ EntrySequence.UpToDate (t.index source).toList (t.index target).toList ∧
    ¬ EntrySequence.FastForward (t.index source).toList (t.index target).toList

/-- The events of `b` after the prefix `source` and `target` share. -/
def eventsAfterBase (t : Timeline) (source target b : BranchId) : List TimelineEvent :=
  t.eventsFor ((t.index b).toList.drop
    (EntrySequence.commonPrefixLen (t.index source).toList (t.index target).toList))

/-- **The merge of a diverged pair**: the strategy refuses, conflicts are reported, or the source's
events are copied. -/
theorem mergeBranches_of_diverged (h : t.WellFormed reserved) (hd : t.Diverged source target)
    (strategy : MergeStrategy) (now : Timestamp) :
    (t.mergeBranches source target strategy now).1 =
      match strategyRefusal source target (t.index source).toList (t.index target).toList
        strategy with
      | some e => .error e
      | none =>
        if classifyDivergenceConflicts (t.eventsAfterBase source target source)
          (t.eventsAfterBase source target target) = [] then
          .ok (mergedResult (t.eventsAfterBase source target source))
        else .ok (conflictedResult (classifyDivergenceConflicts
          (t.eventsAfterBase source target source) (t.eventsAfterBase source target target))) := by
  obtain ⟨hm, hup, hff⟩ := hd
  obtain ⟨hnot, -⟩ | ⟨-, heq⟩ := mergeBranches_gate h source target strategy now
  · exact absurd hm hnot
  have htarget : target ∈ t.branchEvents :=
    (h.branches_agree _).mp (mem_branches_of_stateOf hm.2.2)
  rw [heq, mergeSequences, if_neg hup, if_neg hff]
  cases strategyRefusal source target (t.index source).toList (t.index target).toList strategy with
  | some e => rfl
  | none =>
    simp only [htarget, not_true_eq_false, if_false, ite_not, eventsAfterBase]
    by_cases hc : classifyDivergenceConflicts
        (t.eventsAfterBase source target source) (t.eventsAfterBase source target target) = []
    · rw [if_pos (by exact hc)]
      exact (if_pos hc).symm
    · rw [if_neg (by exact hc)]
      exact (if_neg hc).symm

theorem mergeBranches_of_succeeded (h : t.WellFormed reserved)
    (hsucceeded : mergeSucceeded (t.mergeBranches source target strategy now)) :
    ∃ entries, t.Mergeable source target ∧ t.Copies source target entries ∧
      t.mergeBranches source target strategy now = (.ok (mergedResult (t.eventsFor entries)),
        (t.withEntries target entries).setState source (.merged target now)) := by
  obtain ⟨e, heq⟩ | ⟨conflicts, -, heq⟩ | hmerged :=
    mergeBranches_cases h source target strategy now
  · rw [heq] at hsucceeded
    cases hsucceeded
  · rw [heq] at hsucceeded
    cases hsucceeded
  · exact hmerged

end Spec

/-! ## The merged timeline -/

section Merged

variable {t : Timeline} {source target : BranchId} {entries : EntrySequence}
  {state : BranchState} {strategy : MergeStrategy} {now : Timestamp} {reserved : List EventIndex}

@[simp] theorem index_setState (b c : BranchId) : (t.setState b state).index c = t.index c := rfl

theorem index_withEntries (htarget : target ∈ t.branchEvents) (b : BranchId) :
    (t.withEntries target entries).index b =
      if b = target then (t.index b).insertEntries entries else t.index b := by
  obtain ⟨m, hm⟩ := OrderedMap.mem_iff_exists.mp htarget
  simp only [index, withEntries, OrderedMap.getElem?_modifyKeys, List.mem_singleton]
  by_cases hb : b = target
  · simp only [hb, hm, if_true, Option.map_some, Option.getD_some]
  · simp only [hb, if_false]

theorem mem_branchEvents_withEntries :
    b ∈ (t.withEntries target entries).branchEvents ↔ b ∈ t.branchEvents := by
  simp only [withEntries, OrderedMap.mem_modifyKeys]

section

variable (h : t.WellFormed reserved)

include h

section

variable (hcopies : t.Copies source target entries)

include hcopies

section

variable (htarget : target ∈ t.branchEvents)

include htarget

theorem getElem?_index_withEntries (b : BranchId) (k : EventIndex) (e : EventId) :
    ((t.withEntries target entries).index b)[k]? = some e ↔
      (t.index b)[k]? = some e ∨ b = target ∧ (t.index source)[k]? = some e := by
  rw [index_withEntries htarget]
  by_cases hb : b = target
  · subst hb
    rw [if_pos rfl, OrderedMap.getElem?_insertEntries_iff fun k v w hv hw ↦
      h.entries_agree (hcopies.sound k v hv) (hcopies.sound k w hw)]
    constructor
    · rintro (hke | ⟨-, hke⟩)
      · exact Or.inr ⟨rfl, hcopies.sound k e hke⟩
      · exact Or.inl hke
    · rintro (hke | ⟨-, hke⟩)
      · by_cases hin : ∃ w, (k, w) ∈ entries
        · obtain ⟨w, hw⟩ := hin
          exact Or.inl (h.entries_agree (hcopies.sound k w hw) hke ▸ hw)
        · exact Or.inr ⟨fun w hw ↦ hin ⟨w, hw⟩, hke⟩
      · rcases hcopies.complete k e hke with hin | hin
        · exact Or.inl hin
        · by_cases hin' : ∃ w, (k, w) ∈ entries
          · obtain ⟨w, hw⟩ := hin'
            exact Or.inl (h.entries_agree (hcopies.sound k w hw) hke ▸ hw)
          · exact Or.inr ⟨fun w hw ↦ hin' ⟨w, hw⟩, hin⟩
  · simp [hb]

theorem mem_index_withEntries {k : EventIndex} :
    k ∈ (t.withEntries target entries).index b ↔
      k ∈ t.index b ∨ b = target ∧ k ∈ t.index source := by
  simp only [OrderedMap.mem_iff_exists, getElem?_index_withEntries h hcopies htarget]
  constructor
  · rintro ⟨e, he | ⟨hb, he⟩⟩
    · exact Or.inl ⟨e, he⟩
    · exact Or.inr ⟨hb, e, he⟩
  · rintro (⟨e, he⟩ | ⟨hb, e, he⟩)
    · exact ⟨e, Or.inl he⟩
    · exact ⟨e, Or.inr ⟨hb, he⟩⟩

theorem size_index_le_withEntries
    (b : BranchId) : (t.index b).size ≤ ((t.withEntries target entries).index b).size := by
  exact OrderedMap.size_le_of_subset fun k hk ↦
    (mem_index_withEntries h hcopies htarget).mpr (Or.inl hk)

theorem withEntries_wellFormed
    (hinc : t.Incorporates target source) : (t.withEntries target entries).WellFormed reserved :=
  { h with
    branches_agree := fun b ↦ (h.branches_agree b).trans mem_branchEvents_withEntries.symm
    entries_resolve := fun b k e hk ↦ by
      obtain hk | ⟨-, hk⟩ := (getElem?_index_withEntries h hcopies htarget b k e).mp hk
      · exact h.entries_resolve b k e hk
      · exact h.entries_resolve source k e hk
    origins_incorporated := fun b k e ev hk hev ↦ by
      have hkept : t.RecordsKept (t.withEntries target entries) := .of_eq rfl
      obtain hold | ⟨hb, hold⟩ := (getElem?_index_withEntries h hcopies htarget b k e).mp hk
      · exact (h.origins_incorporated b k e ev hold hev).mono hkept
      · rw [hb]
        exact Incorporates.mono hkept
          (hinc.trans (h.origins_incorporated source k e ev hold hev))
    sessions_in_range := fun s pos hpos ↦ by
      obtain ⟨hmem, hlen⟩ := h.sessions_in_range s pos hpos
      exact ⟨mem_branchEvents_withEntries.mpr hmem,
        hlen.trans (size_index_le_withEntries h hcopies htarget _)⟩
    heads_short := fun b head hhead ↦
      (h.heads_short b head hhead).trans_le (size_index_le_withEntries h hcopies htarget b) }

end

end

/-- **A merge keeps the invariant**: its merge edge makes the copied events reachable. -/
theorem mergeBranches_wellFormed (source target : BranchId)
    (strategy : MergeStrategy) (now : Timestamp) :
    (t.mergeBranches source target strategy now).2.WellFormed reserved := by
  obtain ⟨e, heq⟩ | ⟨conflicts, -, heq⟩ | ⟨entries, hm, hcopies, heq⟩ :=
    mergeBranches_cases h source target strategy now
  · rw [heq]
    exact h
  · rw [heq]
    exact h
  · rw [heq]
    have htarget := mem_branches_of_stateOf hm.2.2
    have hstate : (t.setState source (.merged target now)).WellFormed reserved := by
      refine setState_wellFormed h hm.2.1 fun into now' hinto ↦ ?_
      cases hinto
      exact htarget
    have hinc : (t.setState source (.merged target now)).Incorporates target source := by
      obtain ⟨r, hr, -⟩ := Option.map_eq_some_iff.mp hm.2.1
      obtain rfl := h.branch_ids source r hr
      have hr' : (t.setState r.id (.merged target now)).branches[r.id]? =
          some { r with state := .merged target now } := by
        rw [setState_branches, if_pos rfl, hr, Option.map_some]
      exact .single (@IncorporatesStep.merged _ target r.id
        { r with state := .merged target now } now hr' rfl)
    exact withEntries_wellFormed hstate ⟨hcopies.sound, hcopies.complete⟩
      ((h.branches_agree _).mp htarget) hinc

theorem appliedHead_mergeBranches (b : BranchId) :
    (t.mergeBranches source target strategy now).2.appliedHead b = t.appliedHead b := by
  obtain ⟨e, heq⟩ | ⟨conflicts, -, heq⟩ | ⟨entries, -, -, heq⟩ :=
    mergeBranches_cases h source target strategy now
  · rw [heq]
  · rw [heq]
  · rw [heq]
    rfl

theorem getElem?_index_mergeBranches
    (hs : mergeSucceeded (t.mergeBranches source target strategy now)) (b : BranchId)
    (k : EventIndex) (e : EventId) :
    ((t.mergeBranches source target strategy now).2.index b)[k]? = some e ↔
      (t.index b)[k]? = some e ∨ b = target ∧ (t.index source)[k]? = some e := by
  obtain ⟨entries, hm, hcopies, heq⟩ := mergeBranches_of_succeeded h hs
  rw [heq, index_setState]
  exact getElem?_index_withEntries h hcopies
    ((h.branches_agree _).mp (mem_branches_of_stateOf hm.2.2)) b k e

theorem index_mergeBranches_of_subset
    (hs : mergeSucceeded (t.mergeBranches source target strategy now))
    (hsub : ∀ k ∈ t.index source, k ∈ t.index target) :
    (t.mergeBranches source target strategy now).2.index target = t.index target := by
  refine OrderedMap.ext_lookup fun k ↦ Option.ext fun e ↦ ?_
  rw [getElem?_index_mergeBranches h hs]
  constructor
  · rintro (hk | ⟨-, hk⟩)
    · exact hk
    · obtain ⟨e', he'⟩ := OrderedMap.mem_iff_exists.mp (hsub k (OrderedMap.mem_of_getElem? hk))
      rw [h.entries_agree hk he', he']
  · exact Or.inl

end

end Merged

end Timeline

end RosheraCad
