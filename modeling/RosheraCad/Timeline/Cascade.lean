import RosheraCad.Timeline.RedoTail

/-!
# Which forks a truncate abandons

A truncate abandons the active children that were forked at or after the cut, by the fork point of
their record. The runs here carry the inherited entries beside the timeline. An inherited key is
never past the fork point, so a child that holds a removed entry is abandoned; the converse fails.
-/

namespace RosheraCad

/-- A run with the inherited keys of each branch. -/
structure ForkRun where
  run : TimelineRun
  inherited : BranchId → List EventIndex

namespace ForkRun

abbrev timeline (s : ForkRun) : Timeline := s.run.timeline

/-- A new branch inherits the whole index it starts with; an older one keeps what its index still
holds. -/
def step [UuidParser] (s : ForkRun) (op : TimelineOp) : ForkRun where
  run := s.run.step op
  inherited c :=
    if c ∈ s.timeline.branches then
      (s.inherited c).filter (· ∈ (s.run.step op).timeline.index c)
    else ((s.run.step op).timeline.index c).keys

end ForkRun

/-- The runs of the timeline, with the inherited keys. -/
def forkSystem [UuidParser] : GuardedSystem ForkRun TimelineOp where
  init := ⟨⟨.new, []⟩, fun _ ↦ []⟩
  enabled s op := s.run.enabled op
  step := ForkRun.step

instance [UuidParser] (s : ForkRun) (op : TimelineOp) : Decidable (forkSystem.enabled s op) :=
  inferInstanceAs (Decidable (s.run.enabled op))

/-! ## Fork points -/

/-- A fork point is kept, and a new branch starts with no key past its own. -/
structure ForksKept (t t' : Timeline) : Prop where
  kept : ∀ (c : BranchId) (r r' : Branch), t.branches[c]? = some r → t'.branches[c]? = some r' →
    r'.forkPoint = r.forkPoint
  bounded : ∀ (c : BranchId) (r' : Branch), c ∉ t.branches → t'.branches[c]? = some r' →
    ∀ k ∈ t'.index c, k ≤ r'.forkPoint.eventIndex

section ForksKept

variable {s : ForkRun} {t t' : Timeline} {op : TimelineOp} {cut : EventIndex}
  {reserved : List EventIndex}

theorem ForksKept.of_records (h : ∀ (c : BranchId) (r' : Branch), t'.branches[c]? = some r' →
    ∃ r, t.branches[c]? = some r ∧ r'.forkPoint = r.forkPoint) : ForksKept t t' where
  kept c r r' hr hr' := by
    obtain ⟨r₀, hr₀, hfork⟩ := h c r' hr'
    rw [hfork, Option.some_inj.mp (hr₀.symm.trans hr)]
  bounded c r' hnew hr' := by
    obtain ⟨r₀, hr₀, -⟩ := h c r' hr'
    exact absurd (OrderedMap.mem_of_getElem? hr₀) hnew

theorem ForksKept.of_eq (h : t'.branches = t.branches) : ForksKept t t' :=
  .of_records fun _ r' hr' ↦ ⟨r', h ▸ hr', rfl⟩

theorem ForksKept.setState (h : t'.branches = t.branches) (b : BranchId) (state : BranchState) :
    ForksKept t (t'.setState b state) := by
  refine .of_records fun c r' hr' ↦ ?_
  obtain ⟨r₀, hr₀, -, -, hfork, -⟩ := Timeline.branches_of_setState hr'
  exact ⟨r₀, h ▸ hr₀, hfork⟩

theorem ForksKept.applyTruncatePlan {plan : TruncatePlan}
    (h : t'.branches = (t.applyTruncatePlan plan cut).branches) : ForksKept t t' := by
  refine .of_records fun c r' hr' ↦ ?_
  obtain ⟨r₀, hr₀, -, -, hfork, -⟩ := Timeline.branches_of_applyTruncatePlan (h ▸ hr')
  exact ⟨r₀, hr₀, hfork⟩

theorem ForksKept.appendInternal [UuidParser] (h : t.WellFormed reserved) (operation : Operation)
    (author : Author) (b : BranchId) (taken : Option EventIndex) (eventId : EventId) :
    ForksKept t (t.appendInternal operation author b taken eventId).2 := by
  obtain ⟨-, e, heq⟩ | ⟨-, discarded, t₁, hd, heq⟩ :=
    Timeline.appendInternal_cases h operation author b taken eventId
  · rw [heq]
    exact .of_eq rfl
  · have hbranches : ((t₁.takeSequence taken).2.insertEvent (Timeline.newEvent eventId
        (t₁.takeSequence taken).1 operation author b)).branches = t₁.branches := by
      cases taken <;> rfl
    rw [heq]
    obtain ⟨-, hnone⟩ | ⟨head, cut, plan, branch, -, -, -, -, hsome⟩ :=
      Timeline.discardRedoTail_cases h b
    · obtain ⟨-, rfl⟩ := Prod.mk.inj (hd.symm.trans hnone)
      exact .of_eq hbranches
    · obtain ⟨-, rfl⟩ := Prod.mk.inj (hd.symm.trans hsome)
      exact .applyTruncatePlan hbranches

theorem ForksKept.createBranch (name : String) (parent : BranchId)
    (forkPoint : Option EventIndex) (author : Author) {branchId : BranchId}
    (hnew : branchId ∉ t.branches) :
    ForksKept t (t.createBranch name parent forkPoint author branchId).2 := by
  obtain ⟨-, heq⟩ | ⟨-, heq⟩ :=
    Timeline.createBranch_cases t name parent forkPoint author branchId
  · exact .of_eq (by rw [heq])
  rw [heq]
  set m := (t.index parent).keep (· ≤ t.forkIndexOf parent forkPoint)
  show ForksKept t (t.withBranch branchId m _)
  refine ⟨fun c r r' hr hr' ↦ ?_, fun c r' hc hr' k hk ↦ ?_⟩
  · have hne : c ≠ branchId := by
      rintro rfl
      exact hnew (OrderedMap.mem_of_getElem? hr)
    simp only [Timeline.withBranch, OrderedMap.lookup_insert, if_neg hne] at hr'
    rw [Option.some_inj.mp (hr'.symm.trans hr)]
  · simp only [Timeline.withBranch, OrderedMap.lookup_insert] at hr'
    split at hr'
    · next hbranch =>
      obtain rfl := Option.some_inj.mp hr'
      rw [Timeline.index_withBranch, if_pos hbranch, OrderedMap.mem_keep] at hk
      exact of_decide_eq_true hk.2
    · exact absurd (OrderedMap.mem_of_getElem? hr') hc

theorem ForksKept.updateSessionPosition (t : Timeline) (session : SessionId) (b : BranchId)
    (i : EventIndex) : ForksKept t (t.updateSessionPosition session b i).2 := by
  obtain ⟨e, heq⟩ | ⟨-, -, heq⟩ := Timeline.updateSessionPosition_cases t session b i
  · exact .of_eq (by rw [heq])
  · exact .of_eq (by rw [heq])

/-- **Every operation keeps the fork points.** -/
theorem ForksKept.step [UuidParser] (h : s.timeline.WellFormed s.run.reserved)
    (henabled : s.run.enabled op) : ForksKept s.timeline (s.run.step op).timeline := by
  cases op with
  | reserveSequenceNumber => exact .of_eq rfl
  | addOperation operation author b eventId => exact .appendInternal h ..
  | addOperationReserved operation author b seq eventId => exact .appendInternal h ..
  | createBranch name parent forkPoint author branchId => exact .createBranch _ _ _ _ henabled
  | mergeBranches source target strategy now =>
    obtain ⟨e, heq⟩ | ⟨conflicts, -, heq⟩ | ⟨entries, -, -, heq⟩ :=
      Timeline.mergeBranches_cases h source target strategy now
    · exact .of_eq (by rw [TimelineRun.step, heq])
    · exact .of_eq (by rw [TimelineRun.step, heq])
    · rw [TimelineRun.step, heq]
      show ForksKept s.timeline
        ((s.timeline.withEntries target entries).setState source (.merged target now))
      have hbranches : (s.timeline.withEntries target entries).branches = s.timeline.branches := rfl
      exact .setState hbranches source _
  | truncateBranch b cut force =>
    rw [TimelineRun.step, Timeline.truncateBranch]
    split
    · exact .of_eq rfl
    · split
      · exact .of_eq rfl
      · exact .applyTruncatePlan rfl
  | abandonBranch b reason force =>
    obtain ⟨e, heq⟩ | ⟨-, heq⟩ := Timeline.abandonBranch_cases s.timeline b reason force
    · exact .of_eq (by rw [TimelineRun.step, heq])
    · rw [TimelineRun.step, heq]
      exact .setState rfl b _
  | updateSessionPosition session b i => exact .updateSessionPosition ..
  | setAppliedHead b count =>
    obtain ⟨e, heq⟩ | ⟨-, -, heq⟩ | ⟨-, -, heq⟩ :=
      Timeline.setAppliedHead_cases s.timeline b count <;>
    exact .of_eq (by rw [TimelineRun.step, heq])
  | undo session =>
    obtain heq | ⟨b, i, heq⟩ := Timeline.undo_cases s.timeline session
    · exact .of_eq (by rw [TimelineRun.step, heq])
    · rw [TimelineRun.step, heq]
      exact .updateSessionPosition ..
  | redo session =>
    obtain heq | ⟨b, i, heq⟩ := Timeline.redo_cases s.timeline session
    · exact .of_eq (by rw [TimelineRun.step, heq])
    · rw [TimelineRun.step, heq]
      exact .updateSessionPosition ..

end ForksKept

section Inherited

variable [UuidParser] {s : ForkRun}

theorem ForkRun.reachable_run (h : forkSystem.Reachable s) : timelineSystem.Reachable s.run := by
  induction h with
  | init => exact .init
  | step _ henabled _ ih => exact ih.step henabled trivial

theorem ForkRun.wellFormed (h : forkSystem.Reachable s) :
    s.timeline.WellFormed s.run.reserved := reachable_wellFormed (reachable_run h)

theorem ForkRun.inherited_le (h : forkSystem.Reachable s) :
    ∀ (c : BranchId) (r : Branch), s.timeline.branches[c]? = some r →
      ∀ k ∈ s.inherited c, k ≤ r.forkPoint.eventIndex := by
  refine h.invariant (fun s ↦ ∀ (c : BranchId) (r : Branch), s.timeline.branches[c]? = some r →
    ∀ k ∈ s.inherited c, k ≤ r.forkPoint.eventIndex) ?_ ?_
  · intro c r _ k hk
    exact absurd hk List.not_mem_nil
  · intro s op hreach ih henabled _ c r' hr' k hk
    have hforks := ForksKept.step (wellFormed hreach) henabled
    simp only [forkSystem, ForkRun.step] at hk hr'
    split at hk
    · next hc =>
      obtain ⟨r, hr⟩ := OrderedMap.mem_iff_exists.mp hc
      rw [hforks.kept c r r' hr hr']
      exact ih c r hr k (List.mem_filter.mp hk).1
    · next hc => exact hforks.bounded c r' hc hr' k (Std.ExtTreeMap.mem_keys.mp hk)

end Inherited

namespace ForkRun

/-- A truncate that is carried out, or an append's discard, drops what `b` has from `cut` on. -/
inductive CutsAt [UuidParser] (s : ForkRun) : TimelineOp → BranchId → EventIndex → Prop
  | truncate {b : BranchId} {cut : EventIndex} {force : Bool} {n : ℕ} :
      (s.timeline.truncateBranch b cut force).1 = .ok n →
      CutsAt s (.truncateBranch b cut force) b cut
  | append {operation : Operation} {author : Author} {b : BranchId} {eventId : EventId}
      {discard : RedoTailDiscard} {cut : EventIndex} :
      (s.timeline.appendInternal operation author b none eventId).1 =
        .ok (eventId, some discard) →
      (s.timeline.undoneEntries b).head?.map Prod.fst = some cut →
      CutsAt s (.addOperation operation author b eventId) b cut
  | appendReserved {operation : Operation} {author : Author} {b : BranchId} {seq : EventIndex}
      {eventId : EventId} {discard : RedoTailDiscard} {cut : EventIndex} :
      (s.timeline.appendInternal operation author b (some seq) eventId).1 =
        .ok (eventId, some discard) →
      (s.timeline.undoneEntries b).head?.map Prod.fst = some cut →
      CutsAt s (.addOperationReserved operation author b seq eventId) b cut

/-- Of the active children of `b`, those are abandoned that inherited one of the entries `b` has
lost. -/
def AbandonsInheritors (s : ForkRun) (t' : Timeline) (b : BranchId) : Prop :=
  ∀ (c : BranchId) (r : Branch), s.timeline.branches[c]? = some r → r.parent = some b →
    r.state = .active → ((∃ reason, t'.stateOf c = some (.abandoned reason)) ↔
      ∃ k ∈ s.inherited c, k ∈ s.timeline.index b ∧ k ∉ t'.index b)

/-- Of the active children of `b`, those forked at or after the cut are abandoned. -/
structure AbandonsForkedAfter (s : ForkRun) (t' : Timeline) (b : BranchId) (cut : EventIndex) :
    Prop where
  abandoned_iff : ∀ (c : BranchId) (r : Branch), s.timeline.branches[c]? = some r →
    r.parent = some b → r.state = .active →
    ((∃ reason, t'.stateOf c = some (.abandoned reason)) ↔ cut ≤ r.forkPoint.eventIndex)
  /-- So is every active child that holds, as an inherited entry, one of the entries lost. -/
  inheritors : ∀ (c : BranchId) (r : Branch), s.timeline.branches[c]? = some r →
    r.parent = some b → r.state = .active →
    (∃ k ∈ s.inherited c, k ∈ s.timeline.index b ∧ k ∉ t'.index b) →
    ∃ reason, t'.stateOf c = some (.abandoned reason)
  others : ∀ (c : BranchId) (r : Branch), s.timeline.branches[c]? = some r →
    ¬ (r.parent = some b ∧ r.state = .active ∧ cut ≤ r.forkPoint.eventIndex) →
    t'.branches[c]? = some r

end ForkRun

/-! ## The children a cut abandons -/

section Cut

variable [UuidParser] {s : ForkRun} {op : TimelineOp} {b : BranchId} {cut : EventIndex}

omit [UuidParser] in
theorem Timeline.keys_of_undoneEntries_head {t : Timeline} {head : EventIndex}
    (hhead : t.appliedHead b = some head)
    (hcut : (t.undoneEntries b).head?.map Prod.fst = some cut) :
    (t.index b).keys[head]? = some cut := by
  rw [Timeline.undoneEntries_of_head hhead, List.head?_drop] at hcut
  rw [← Std.ExtTreeMap.map_fst_toList_eq_keys, List.getElem?_map, hcut]

private theorem appendInternal_cut (hwf : s.timeline.WellFormed s.run.reserved)
    {operation : Operation} {author : Author} {taken : Option EventIndex} {eventId : EventId}
    {discard : RedoTailDiscard}
    (happend : (s.timeline.appendInternal operation author b taken eventId).1 =
      .ok (eventId, some discard))
    (hcut : (s.timeline.undoneEntries b).head?.map Prod.fst = some cut) :
    ∃ plan, s.timeline.truncatePlan b cut = .ok plan ∧
      (s.timeline.appendInternal operation author b taken eventId).2.branches =
        (s.timeline.applyTruncatePlan plan cut).branches ∧
      ∀ k ∈ (s.timeline.applyTruncatePlan plan cut).index b,
        k ∈ (s.timeline.appendInternal operation author b taken eventId).2.index b := by
  obtain ⟨-, e, heq⟩ | ⟨hactive, discarded, t₁, hd, heq⟩ :=
    Timeline.appendInternal_cases hwf operation author b taken eventId
  · rw [heq] at happend
    cases happend
  rw [heq] at happend ⊢
  obtain rfl : discarded = some discard := (Prod.mk.inj (Except.ok.inj happend)).2
  obtain ⟨-, hnone⟩ | ⟨head, cut', plan, branch, hhead, hkeys, hplan, -, hsome⟩ :=
    Timeline.discardRedoTail_cases hwf b
  · rw [hnone] at hd
    cases hd
  obtain rfl : cut = cut' := Option.some_inj.mp
    ((Timeline.keys_of_undoneEntries_head hhead hcut).symm.trans hkeys)
  obtain ⟨-, rfl⟩ := Prod.mk.inj (hd.symm.trans hsome)
  have hb : b ∈ s.timeline.branchEvents := by
    obtain ⟨r, hr, -⟩ := Option.map_eq_some_iff.mp hactive
    exact (hwf.branches_agree b).mp (OrderedMap.mem_of_getElem? hr)
  have hb' : b ∈ ((s.timeline.afterDiscard b plan cut).takeSequence taken).2.branchEvents := by
    have hkept := (@Timeline.mem_branchEvents_afterDiscard s.timeline b plan cut b).mpr hb
    cases taken <;> exact hkept
  refine ⟨plan, hplan, by cases taken <;> rfl, fun k hk ↦ ?_⟩
  show k ∈ Timeline.index _ b
  rw [Timeline.index_insertEvent hb']
  refine (if_pos (show b = (Timeline.newEvent eventId _ operation author b).branchId from rfl)) ▸ ?_
  refine Std.ExtTreeMap.mem_insert.mpr (Or.inr ?_)
  cases taken <;> exact hk

theorem ForkRun.CutsAt.exists_plan (hwf : s.timeline.WellFormed s.run.reserved)
    (hcut : s.CutsAt op b cut) :
    ∃ plan, s.timeline.truncatePlan b cut = .ok plan ∧
      (s.run.step op).timeline.branches = (s.timeline.applyTruncatePlan plan cut).branches ∧
      ∀ k ∈ (s.timeline.applyTruncatePlan plan cut).index b,
        k ∈ (s.run.step op).timeline.index b := by
  cases hcut with
  | truncate hok =>
    rename_i force n
    simp only [TimelineRun.step, Timeline.truncateBranch] at hok ⊢
    split at hok
    · cases hok
    · next hprotected =>
      rw [if_neg hprotected]
      split at hok
      · cases hok
      · next plan hplan =>
        rw [hplan]
        exact ⟨plan, rfl, rfl, fun _ hk ↦ hk⟩
  | append hok hhead => exact appendInternal_cut hwf hok hhead
  | appendReserved hok hhead => exact appendInternal_cut hwf hok hhead

/-- **A cut abandons the active children forked at or after it.** Those that inherited a lost entry
are among them. -/
theorem abandonsForkedAfter_of_cut (h : forkSystem.Reachable s) (hcut : s.CutsAt op b cut) :
    s.AbandonsForkedAfter (s.run.step op).timeline b cut := by
  have hwf := ForkRun.wellFormed h
  obtain ⟨plan, hplan, hbranches, hindex⟩ := hcut.exists_plan hwf
  obtain ⟨-, -, -, -, hcasc, -⟩ := Timeline.truncatePlan_spec hplan
  have hrecord (c : BranchId) : (s.run.step op).timeline.branches[c]? =
      (s.timeline.applyTruncatePlan plan cut).branches[c]? := by rw [hbranches]
  have habandoned : ∀ (c : BranchId) (r : Branch), s.timeline.branches[c]? = some r →
      r.parent = some b → r.state = .active →
      ((∃ reason, (s.run.step op).timeline.stateOf c = some (.abandoned reason)) ↔
        cut ≤ r.forkPoint.eventIndex) := by
    intro c r hr hparent hactive
    rw [Timeline.stateOf, hrecord, Timeline.applyTruncatePlan_branches, hcasc]
    constructor
    · rintro ⟨reason, hstate⟩
      by_contra hle
      have hnot : c ∉ s.timeline.cascadedChildren b cut := by
        rw [Timeline.mem_cascadedChildren]
        rintro ⟨r₀, hr₀, -, hcutle, -⟩
        obtain rfl := Option.some_inj.mp (hr₀.symm.trans hr)
        exact hle hcutle
      rw [if_neg hnot, hr, Option.map_some, hactive] at hstate
      cases hstate
    · intro hle
      rw [if_pos (Timeline.mem_cascadedChildren.mpr ⟨r, hr, hparent, hle, hactive⟩), hr]
      exact ⟨_, rfl⟩
  refine ⟨habandoned, fun c r hr hparent hactive hloses ↦ ?_, fun c r hr hnot ↦ ?_⟩
  · obtain ⟨k, hk, hkb, hlost⟩ := hloses
    have hle := ForkRun.inherited_le h c r hr k hk
    -- A sequence below the cut is not lost.
    refine (habandoned c r hr hparent hactive).mpr (le_trans ?_ hle)
    by_contra hlt
    refine hlost (hindex k ?_)
    obtain ⟨e, he⟩ := OrderedMap.mem_iff_exists.mp hkb
    refine @OrderedMap.mem_of_getElem? _ _ _ _ _ k e ?_
    rw [Timeline.getElem?_index_applyTruncatePlan, if_neg, he]
    exact fun hrem ↦ hlt ((Timeline.mem_removedKeys hplan).mp hrem.2).2
  · have hc : c ∉ plan.cascaded := by
      rw [hcasc, Timeline.mem_cascadedChildren]
      rintro ⟨r₀, hr₀, hparent, hle, hactive⟩
      obtain rfl := Option.some_inj.mp (hr₀.symm.trans hr)
      exact hnot ⟨hparent, hactive, hle⟩
    rw [hrecord, Timeline.applyTruncatePlan_branches, if_neg hc, hr]

end Cut

def exampleForks (ops : List TimelineOp) : ForkRun :=
  (@forkSystem noUuids).run ⟨⟨.new, []⟩, fun _ ↦ []⟩ ops

/-- Two entries on the main branch, and a fork at the last. -/
def forkedRun : ForkRun := exampleForks
  [.addOperation exampleOp .system .main (exampleEvent 1),
    .addOperation exampleOp .system .main (exampleEvent 2),
    .createBranch "side" .main none .system (exampleBranch 1)]

/-- A fork at the last of two entries is abandoned by a cut there. -/
theorem abandonsForkedAfter_example :
    forkedRun.AbandonsForkedAfter
      (@TimelineRun.step noUuids forkedRun.run (.truncateBranch .main 1 true)).timeline .main 1 :=
  let P := noUuids
  @abandonsForkedAfter_of_cut P _ (.truncateBranch .main 1 true) .main 1
    (GuardedSystem.ReachableUnder.run .init (by decide)) (@ForkRun.CutsAt.truncate P _ _ _ _ 1 rfl)

def emptyForkRun : ForkRun := exampleForks
  [.createBranch "side" .main none .system (exampleBranch 1),
    .addOperation exampleOp .system .main (exampleEvent 1)]

/-- **A fork of the empty main branch is abandoned when main's first entry is cut**: it is recorded
at that entry's number, and inherits nothing. -/
theorem not_abandonsInheritors : ∃ (P : UuidParser) (s : ForkRun),
    (@forkSystem P).Reachable s ∧ @ForkRun.CutsAt P s (.truncateBranch .main 0 true) .main 0 ∧
      ¬ s.AbandonsInheritors (@TimelineRun.step P s.run (.truncateBranch .main 0 true)).timeline
        .main := by
  let P := noUuids
  refine ⟨P, emptyForkRun, .run .init (by decide), @ForkRun.CutsAt.truncate P _ _ _ _ 1 rfl,
    fun h ↦ ?_⟩
  obtain ⟨k, hk, -⟩ := (h (exampleBranch 1) _ rfl rfl rfl).mp ⟨_, rfl⟩
  have hnone : emptyForkRun.inherited (exampleBranch 1) = [] := by decide
  rw [hnone] at hk
  exact List.not_mem_nil hk

end RosheraCad
