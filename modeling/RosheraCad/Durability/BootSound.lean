import RosheraCad.Durability.Boot
import RosheraCad.Library.KeyedFold

/-!
# What boot restores

The passes of a boot work on one branch at a time: an index holds the entries of its history whose
event is restorable and not refused, and a head applies those within the persisted one.
-/

namespace RosheraCad

/-! ## The earliest break -/

theorem exists_earliest {breaks : List (Option Boundary)} {b : Boundary} (hb : some b ∈ breaks) :
    ∃ bound, earliest breaks = some bound ∧ bound.sequence ≤ b.sequence := by
  have hmem : b ∈ breaks.filterMap id := List.mem_filterMap.mpr ⟨some b, hb, rfl⟩
  cases hbound : earliest breaks with
  | none =>
    rw [earliest, List.argmin_eq_none] at hbound
    rw [hbound] at hmem
    cases hmem
  | some bound => exact ⟨bound, rfl, List.le_of_mem_argmin hmem hbound⟩

namespace LoadedDocument

/-- What reading the rows and records establishes. -/
structure Sound (d : LoadedDocument) (table : EventTable) : Prop where
  rows_read : d.rows = table.loadAllTimelineEvents
  index_empty : ∀ b, d.timeline.index b = ∅
  events_empty : d.timeline.events = ∅
  heads_empty : d.timeline.appliedHeads = ∅
  histories_planned : ∀ b, b ∈ d.reconciled.histories ↔ b ∈ d.reconciled.plans
  plans_exist : ∀ b ∈ d.reconciled.plans,
    b ∈ d.timeline.branches ∧ b ∈ d.timeline.branchEvents
  live_planned : BranchId.main ∈ d.reconciled.plans
  events_read : ∀ (k : EventIndex) (ev : TimelineEvent), d.scan.bySeq[k]? = some ev →
    ∃ row ∈ table.rows, row.data = some ev ∧ row.sequence = k
  events_planned : ∀ (k : EventIndex) (ev : TimelineEvent), d.scan.bySeq[k]? = some ev →
    ev.branchId ∈ d.reconciled.plans
  events_numbered : ∀ (k : EventIndex) (ev : TimelineEvent), d.scan.bySeq[k]? = some ev →
    ev.sequenceNumber = k
  events_distinct : ∀ (k l : EventIndex) (ev ev' : TimelineEvent), d.scan.bySeq[k]? = some ev →
    d.scan.bySeq[l]? = some ev' → ev.id = ev'.id → k = l
  duplicates_read : ∀ k, k ∈ d.scan.duplicates ↔ 1 < (d.rows.map EventRow.sequence).count k

theorem loadDocument_sound (table : EventTable) (records : List BranchRecord) :
    (loadDocument table records).Sound table := by
  have hsound := sound_restoreBranches records
  have hplans (b : BranchId) : b ∈ (loadDocument table records).reconciled.plans ↔
      b ∈ (restoreBranches records).plans := mem_reconcile_plans
  refine
    { rows_read := rfl
      index_empty := hsound.index_empty
      events_empty := hsound.events_empty
      heads_empty := hsound.heads_empty
      histories_planned := fun b ↦ ?_
      plans_exist := fun b hb ↦ hsound.plans_exist b ((hplans b).mp hb)
      live_planned := (hplans _).mpr hsound.live_planned
      events_read := fun k ev hev ↦ ?_
      events_planned := fun k ev hev ↦ ?_
      events_numbered := fun k ev hev ↦ sequence_of_bySeq hev
      events_distinct := fun k l ev ev' hev hev' hid ↦ bySeq_of_id hev hev' hid
      duplicates_read := fun k ↦ mem_duplicates }
  · rw [hplans]
    exact mem_reconcile_histories.trans mem_branchHistories
  · obtain ⟨row, hrow, hdata, -, hseq⟩ := row_of_bySeq hev
    exact ⟨row, EventTable.mem_loadAllTimelineEvents.mp hrow, hdata, hseq⟩
  · obtain ⟨-, -, -, hplan, -⟩ := row_of_bySeq hev
    exact (hplans _).mpr hplan

/-! ## What lies before the boundary -/

section Boundary

variable {d : LoadedDocument} {checks : ReplayChecks} {k l : EventIndex}

theorem refusedByLive_iff : d.refusedByLive checks k ↔
    ∃ bound, d.boundary checks = some bound ∧ bound.sequence ≤ k := by
  rw [refusedByLive, Option.any_eq_true]
  simp only [decide_eq_true_eq]

theorem refusedByLive_mono (hkl : k ≤ l) (hk : d.refusedByLive checks k) :
    d.refusedByLive checks l := by
  obtain ⟨bound, hbound, hle⟩ := refusedByLive_iff.mp hk
  exact refusedByLive_iff.mpr ⟨bound, hbound, hle.trans hkl⟩

private theorem refused_of_break {b : Option Boundary} {seq : EventIndex}
    (hb : b ∈ [d.duplicateBreak, checks.firstBreak d.liveEvents, d.holeBreak,
      checks.subsetReplayBoundary d.liveEvents d.firstForeign (d.producerOutside checks)])
    (hseq : b.map Boundary.sequence = some seq) (hk : seq ≤ k) : d.refusedByLive checks k := by
  obtain ⟨br, rfl, rfl⟩ := Option.map_eq_some_iff.mp hseq
  obtain ⟨bound, hbound, hle⟩ := exists_earliest hb
  exact refusedByLive_iff.mpr ⟨bound, hbound, hle.trans hk⟩

theorem mem_bySeq_of_not_refused (hk : k ∈ d.liveHistory) (hserved : ¬ d.refusedByLive checks k) :
    k ∈ d.scan.bySeq := by
  by_contra hhole
  obtain ⟨seq, hfind, hle⟩ :
      ∃ seq, d.liveHistory.toList.find? (· ∉ d.scan.bySeq) = some seq ∧ seq ≤ k :=
    SortedPrefix.exists_find?_le (OrderedSet.pairwise_lt_toList _)
      (Std.ExtTreeSet.mem_toList.mpr hk) (decide_eq_true hhole)
  have hbreak : d.holeBreak.map Boundary.sequence = some seq := by
    rw [holeBreak, hfind]
    rfl
  exact hserved (refused_of_break (by simp) hbreak hle)

/-- **Before the boundary no sequence of the live history is held by two rows.** -/
theorem not_mem_duplicates_of_not_refused (hk : k ∈ d.liveHistory)
    (hserved : ¬ d.refusedByLive checks k) : k ∉ d.scan.duplicates := by
  intro hduplicate
  obtain ⟨seq, hfind, hle⟩ :
      ∃ seq, d.liveHistory.toList.find? (· ∈ d.scan.duplicates) = some seq ∧ seq ≤ k :=
    SortedPrefix.exists_find?_le (OrderedSet.pairwise_lt_toList _)
      (Std.ExtTreeSet.mem_toList.mpr hk) (decide_eq_true hduplicate)
  have hbreak : d.duplicateBreak.map Boundary.sequence = some seq := by
    rw [duplicateBreak, hfind]
    rfl
  exact hserved (refused_of_break List.mem_cons_self hbreak hle)

end Boundary

/-! ## The events put back -/

section Restored

variable {d : LoadedDocument} {table : EventTable} {checks : ReplayChecks} {k : EventIndex}
  {ev : TimelineEvent}

theorem held_iff : d.held k ↔ ∃ b ∈ d.reconciled.histories, k ∈ d.history b := by
  simp only [held, List.any_eq_true, Prod.exists, OrderedMap.mem_toList, decide_eq_true_eq,
    OrderedMap.mem_iff_exists, history, OrderedMap.setAt]
  constructor
  · rintro ⟨b, history, hb, hk⟩
    exact ⟨b, ⟨history, hb⟩, by rwa [hb]⟩
  · rintro ⟨b, ⟨history, hb⟩, hk⟩
    rw [hb] at hk
    exact ⟨b, history, hb, hk⟩

theorem restores_iff : d.restores checks ev ↔
    ¬ (ev.branchId = .main ∧ d.refusedByLive checks ev.sequenceNumber) ∧
      d.held ev.sequenceNumber := by
  rw [restores, Bool.and_eq_true, Bool.not_eq_true', Bool.eq_false_iff, ne_eq, Bool.and_eq_true,
    beq_iff_eq]

def RestoredAt (d : LoadedDocument) (checks : ReplayChecks) (k : EventIndex)
    (ev : TimelineEvent) : Prop :=
  d.scan.bySeq[k]? = some ev ∧ d.restores checks ev

theorem RestoredAt.eq {ev' : TimelineEvent} (hk : d.RestoredAt checks k ev)
    (hk' : d.RestoredAt checks k ev') : ev = ev' :=
  Option.some_inj.mp (hk.1.symm.trans hk'.1)

theorem mem_restored (h : d.Sound table) :
    ev ∈ d.restored checks ↔ d.RestoredAt checks ev.sequenceNumber ev := by
  simp only [restored, List.mem_filter, List.mem_map, Prod.exists, OrderedMap.mem_toList,
    exists_eq_right, RestoredAt]
  refine and_congr_left fun _ ↦ ⟨?_, fun hev ↦ ⟨_, hev⟩⟩
  rintro ⟨k, hk⟩
  rwa [h.events_numbered k ev hk]

theorem exists_restored_iff (h : d.Sound table) {P : TimelineEvent → Prop} :
    (∃ ev ∈ d.restored checks, P ev ∧ ev.sequenceNumber = k) ↔
      ∃ ev, d.RestoredAt checks k ev ∧ P ev := by
  constructor
  · rintro ⟨ev, hev, hp, rfl⟩
    exact ⟨ev, (mem_restored h).mp hev, hp⟩
  · rintro ⟨ev, hev, hp⟩
    have hseq : ev.sequenceNumber = k := h.events_numbered k ev hev.1
    exact ⟨ev, (mem_restored h).mpr (hseq ▸ hev), hp, hseq⟩

theorem getElem?_restoredIds (h : d.Sound table) {e : EventId} {origin : BranchId} :
    (d.restoredIds checks)[k]? = some (e, origin) ↔
      ∃ ev, d.RestoredAt checks k ev ∧ ev.id = e ∧ ev.branchId = origin := by
  have hmem (l : EventIndex) (p : EventId × BranchId) :
      (l, p) ∈ ((d.restored checks).map fun e ↦ (e.sequenceNumber, (e.id, e.branchId))) ↔
        ∃ ev, d.RestoredAt checks l ev ∧ (ev.id, ev.branchId) = p := by
    rw [List.mem_map, ← exists_restored_iff h]
    refine exists_congr fun ev ↦ and_congr_right fun _ ↦ ?_
    rw [Prod.mk.injEq, and_comm]
  rw [restoredIds, OrderedMap.getElem?_insertEntries_iff, hmem]
  · simp [and_comm]
  · intro l p q hp hq
    obtain ⟨ev, hev, rfl⟩ := (hmem l p).mp hp
    obtain ⟨ev', hev', rfl⟩ := (hmem l q).mp hq
    rw [hev.eq hev']

structure EventsBack (d : LoadedDocument) (checks : ReplayChecks) (t : Timeline) : Prop where
  events : ∀ (e : EventId) (ev : TimelineEvent), t.events[e]? = some ev ↔
    d.RestoredAt checks ev.sequenceNumber ev ∧ ev.id = e
  branches : ∀ b ∈ d.reconciled.plans, b ∈ t.branches
  branchEvents : ∀ b ∈ d.reconciled.plans, b ∈ t.branchEvents
  counter : ∀ row ∈ d.rows, row.sequence < t.eventCounter

theorem rehydrated_spec (h : d.Sound table) : d.EventsBack checks (d.rehydrated checks) ∧
    (d.rehydrated checks).appliedHeads = ∅ ∧
    ∀ (b : BranchId) (k : EventIndex) (e : EventId), ((d.rehydrated checks).index b)[k]? = some e ↔
      ∃ ev, d.RestoredAt checks k ev ∧ ev.branchId = b ∧ ev.id = e := by
  have hplanned : ∀ ev ∈ d.restored checks, ev.branchId ∈ d.timeline.branchEvents := by
    intro ev hev
    exact (h.plans_exist _ (h.events_planned _ ev ((mem_restored h).mp hev).1)).2
  obtain ⟨t, hrehydrate, ht⟩ := Timeline.rehydrateEvents_spec hplanned
  obtain ⟨n, hn, hrows⟩ : ∃ n, d.rehydrated checks = { t with eventCounter := n } ∧
      ∀ row ∈ d.rows, row.sequence < n := by
    rw [rehydrated, hrehydrate]
    cases hmax : (d.rows.map EventRow.sequence).max? with
    | none =>
      refine ⟨_, rfl, fun row hrow ↦ ?_⟩
      rw [List.max?_eq_none_iff, List.map_eq_nil_iff] at hmax
      rw [hmax] at hrow
      cases hrow
    | some maxStored =>
      refine ⟨_, rfl, fun row hrow ↦ lt_max_of_lt_right (Nat.lt_succ_of_le ?_)⟩
      exact (List.max?_eq_some_iff.mp hmax).2 _ (List.mem_map.mpr ⟨row, hrow, rfl⟩)
  have hindex (b : BranchId) : (d.rehydrated checks).index b = t.index b := by
    rw [hn]
    rfl
  rw [hn]
  refine ⟨⟨fun e ev ↦ ?_, fun b hb ↦ ?_, fun b hb ↦ ?_, hrows⟩, ?_, fun b k e ↦ ?_⟩
  · have hmem (e : EventId) (ev : TimelineEvent) :
        (e, ev) ∈ (d.restored checks).map (fun ev ↦ (ev.id, ev)) ↔
          d.RestoredAt checks ev.sequenceNumber ev ∧ ev.id = e := by
      rw [List.mem_map, ← mem_restored h]
      constructor
      · rintro ⟨ev', hev', heq⟩
        obtain ⟨rfl, rfl⟩ := Prod.mk.inj heq
        exact ⟨hev', rfl⟩
      · rintro ⟨hev, rfl⟩
        exact ⟨ev, hev, rfl⟩
    simp only [ht.events, h.events_empty]
    rw [OrderedMap.getElem?_insertEntries_iff, hmem]
    · simp
    · intro e v w hv hw
      obtain ⟨hv', hid⟩ := (hmem e v).mp hv
      obtain ⟨hw', hid'⟩ := (hmem e w).mp hw
      -- Two restored events with one id are the same row's.
      have hseq := h.events_distinct _ _ v w hv'.1 hw'.1 (hid.trans hid'.symm)
      exact hv'.eq (hseq ▸ hw')
  · exact ht.branches ▸ (h.plans_exist b hb).1
  · exact (ht.mem_branchEvents b).mpr (h.plans_exist b hb).2
  · exact ht.appliedHeads.trans h.heads_empty
  · have hmem (k : EventIndex) (e : EventId) :
        (k, e) ∈ ((d.restored checks).filter fun ev ↦ ev.branchId = b).map
          (fun ev ↦ (ev.sequenceNumber, ev.id)) ↔
          ∃ ev, d.RestoredAt checks k ev ∧ ev.branchId = b ∧ ev.id = e := by
      rw [List.mem_map, ← exists_restored_iff h]
      simp only [List.mem_filter, decide_eq_true_eq, Prod.mk.injEq, and_assoc]
      exact exists_congr fun ev ↦ and_congr_right fun _ ↦ and_congr_right fun _ ↦ and_comm
    have hempty : t.index b = OrderedMap.insertEntries ∅ _ := h.index_empty b ▸ ht.index b
    rw [← hn, hindex, hempty, OrderedMap.getElem?_insertEntries_iff, hmem]
    · simp
    · intro l v w hv hw
      obtain ⟨ev, hev, -, rfl⟩ := (hmem l v).mp hv
      obtain ⟨ev', hev', -, rfl⟩ := (hmem l w).mp hw
      rw [hev.eq hev']

end Restored

/-! ## The passes -/

section Passes

variable {d : LoadedDocument} {table : EventTable} {checks : ReplayChecks} {k : EventIndex}
  {r : Restoring} {b : BranchId} {e : BranchId × SequenceSet}

theorem entryToFile_eq_some (h : d.Sound table) {l : EventIndex} {e : EventId} :
    d.entryToFile checks b k = some (l, e) ↔ l = k ∧ ¬ (b = .main ∧ d.refusedByLive checks k) ∧
      ∃ ev, d.RestoredAt checks k ev ∧ ev.branchId ≠ b ∧ ev.id = e := by
  rw [entryToFile, Option.ite_none_left_eq_some]
  cases hid : (d.restoredIds checks)[k]? with
  | none =>
    refine iff_of_false (by simp) ?_
    rintro ⟨-, -, ev, hev, -, -⟩
    have hsome := (getElem?_restoredIds h).mpr ⟨ev, hev, rfl, rfl⟩
    rw [hid] at hsome
    cases hsome
  | some p =>
    obtain ⟨id, origin⟩ := p
    obtain ⟨ev, hev, rfl, rfl⟩ := (getElem?_restoredIds h).mp hid
    simp only [Option.ite_none_right_eq_some, Option.some.injEq, Prod.mk.injEq]
    constructor
    · rintro ⟨hserved, hne, rfl, rfl⟩
      exact ⟨rfl, hserved, ev, hev, hne, rfl⟩
    · rintro ⟨rfl, hserved, ev', hev', hne, rfl⟩
      obtain rfl := hev.eq hev'
      exact ⟨hserved, hne, rfl, rfl⟩

theorem mem_entriesToFile (h : d.Sound table) {history : SequenceSet}
    {e : EventId} : (k, e) ∈ history.toList.filterMap (d.entryToFile checks b) ↔
      k ∈ history ∧ ¬ (b = .main ∧ d.refusedByLive checks k) ∧
        ∃ ev, d.RestoredAt checks k ev ∧ ev.branchId ≠ b ∧ ev.id = e := by
  simp only [List.mem_filterMap, entryToFile_eq_some h, Std.ExtTreeSet.mem_toList]
  constructor
  · rintro ⟨l, hl, rfl, hfiled⟩
    exact ⟨hl, hfiled⟩
  · rintro ⟨hk, hfiled⟩
    exact ⟨k, hk, rfl, hfiled⟩

theorem mem_unfiled (h : d.Sound table) {history : SequenceSet} :
    k ∈ d.unfiled checks b history ↔
      k ∉ history ∧ ∃ ev, d.RestoredAt checks k ev ∧ ev.branchId = b := by
  simp only [unfiled, List.mem_map, List.mem_filter, Prod.exists, OrderedMap.mem_toList,
    decide_eq_true_eq, exists_and_right, exists_eq_right, getElem?_restoredIds h]
  constructor
  · rintro ⟨e, origin, ⟨ev, hev, rfl, rfl⟩, horigin, hk⟩
    exact ⟨hk, ev, hev, horigin⟩
  · rintro ⟨hk, ev, hev, rfl⟩
    exact ⟨ev.id, ev.branchId, ⟨ev, hev, rfl, rfl⟩, rfl, hk⟩

theorem fileEntries_eq (h : d.Sound table) (hr : d.EventsBack checks r.timeline)
    (he : e.1 ∈ d.reconciled.plans) :
    r.fileEntries d checks e =
      ⟨r.timeline.withEntries e.1 (e.2.toList.filterMap (d.entryToFile checks e.1)),
        r.faults ++ e.2.toList.filterMap (d.unfiledFault checks e.1)⟩ := by
  have hstored : ∀ entry ∈ e.2.toList.filterMap (d.entryToFile checks e.1), ∃ ev,
      r.timeline.events[entry.2]? = some ev ∧ ev.sequenceNumber = entry.1 := by
    rintro ⟨k, id⟩ hentry
    obtain ⟨-, -, ev, hev, -, rfl⟩ := (mem_entriesToFile h).mp hentry
    have hseq : ev.sequenceNumber = k := h.events_numbered k ev hev.1
    exact ⟨ev, (hr.events _ ev).mpr ⟨hseq ▸ hev, rfl⟩, hseq⟩
  rw [Restoring.fileEntries, Restoring.attempt]
  simp only [Timeline.rehydrateBranchEntries_eq (hr.branches _ he) (hr.branchEvents _ he) hstored]

theorem unfileEntries_spec (hr : d.EventsBack checks r.timeline) (he : e.1 ∈ d.reconciled.plans) :
    d.EventsBack checks (r.unfileEntries d checks e).timeline ∧
      (r.unfileEntries d checks e).timeline.appliedHeads = r.timeline.appliedHeads ∧
      ∀ b, (r.unfileEntries d checks e).timeline.index b =
        if b = e.1 then (r.timeline.index b).eraseKeys (d.unfiled checks e.1 e.2)
        else r.timeline.index b := by
  rw [Restoring.unfileEntries]
  split
  · next hnil =>
    refine ⟨hr, rfl, fun b ↦ ?_⟩
    rw [hnil, OrderedMap.eraseKeys_nil, ite_self]
  · next unfiled hne =>
    have hb := hr.branchEvents _ he
    rw [Restoring.attempt]
    simp only [Timeline.removeBranchEntries_eq hb]
    refine ⟨⟨hr.events, hr.branches, fun b hb' ↦ ?_, hr.counter⟩, rfl, ?_⟩
    · exact Timeline.mem_branchEvents_withoutEntries.mpr (hr.branchEvents b hb')
    · exact Timeline.index_withoutEntries hb _

def countWithin (head : Option EventIndex) (m : BranchIndex) : Option EventIndex :=
  let count := m.keys.countP (withinAppliedHead (some head))
  if count = m.size then none else some count

theorem restoreHead_spec (hr : d.EventsBack checks r.timeline) {e : BranchId × BranchPlan}
    (he : e.1 ∈ d.reconciled.plans) :
    d.EventsBack checks (r.restoreHead e).timeline ∧
      (∀ b, (r.restoreHead e).timeline.index b = r.timeline.index b) ∧
      ∀ b, (r.restoreHead e).timeline.appliedHeads[b]? =
        if b = e.1 then e.2.appliedHead.elim r.timeline.appliedHeads[b]? fun head ↦
          countWithin head (r.timeline.index b)
        else r.timeline.appliedHeads[b]? := by
  rw [Restoring.restoreHead]
  cases hhead : e.2.appliedHead with
  | none => exact ⟨hr, fun _ ↦ rfl, fun b ↦ (ite_self _).symm⟩
  | some head =>
    obtain ⟨m, hm⟩ := OrderedMap.mem_iff_exists.mp (hr.branchEvents _ he)
    have hindex : r.timeline.index e.1 = m := Timeline.index_eq_of_getElem? hm
    have hle : m.keys.countP (withinAppliedHead (some head)) ≤ m.size := by
      rw [← Std.ExtTreeMap.length_keys]
      exact List.countP_le_length
    simp only [Restoring.attempt, Timeline.setAppliedHead, hm, hindex, if_neg (Nat.not_lt.mpr hle),
      Option.elim_some]
    by_cases hcount : m.keys.countP (withinAppliedHead (some head)) = m.size
    · simp only [hcount, if_true]
      refine ⟨⟨hr.events, hr.branches, hr.branchEvents, hr.counter⟩, fun _ ↦ rfl, fun b ↦ ?_⟩
      rw [OrderedMap.lookup_erase]
      refine ite_congr rfl (fun hb ↦ ?_) fun _ ↦ rfl
      rw [hb, hindex, countWithin, if_pos hcount]
    · simp only [hcount, if_false]
      refine ⟨⟨hr.events, hr.branches, hr.branchEvents, hr.counter⟩, fun _ ↦ rfl, fun b ↦ ?_⟩
      rw [OrderedMap.lookup_insert]
      refine ite_congr rfl (fun hb ↦ ?_) fun _ ↦ rfl
      rw [hb, hindex, countWithin, if_neg hcount]

structure BranchBack (d : LoadedDocument) (checks : ReplayChecks) (t : Timeline) (b : BranchId)
    (plan : BranchPlan) : Prop where
  index (k : EventIndex) (e : EventId) : (t.index b)[k]? = some e ↔ k ∈ d.history b ∧
    ¬ (b = .main ∧ d.refusedByLive checks k) ∧ ∃ ev, d.RestoredAt checks k ev ∧ ev.id = e
  head : t.appliedHeads[b]? = plan.appliedHead.bind fun head ↦ countWithin head (t.index b)

private theorem nodup_branches {V : Type} (m : OrderedMap BranchId V) :
    (m.toList.map Prod.fst).Nodup := by
  rw [Std.ExtTreeMap.map_fst_toList_eq_keys]
  exact Std.ExtTreeMap.nodup_keys

private theorem planned_of_history (h : d.Sound table)
    (he : e ∈ d.reconciled.histories.toList) : e.1 ∈ d.reconciled.plans := by
  rw [← h.histories_planned]
  exact OrderedMap.mem_of_getElem? (OrderedMap.mem_toList.mp he)

theorem fileEntries_ownKeyOnly (h : d.Sound table) :
    KeyedFold.OwnKeyOnly (fun r e ↦ Restoring.fileEntries r d checks e)
      (fun r ↦ d.EventsBack checks r.timeline ∧ r.timeline.appliedHeads = ∅)
      (fun b r ↦ r.timeline.index b)
      (fun b history m ↦ m.insertEntries (history.toList.filterMap (d.entryToFile checks b)))
      d.reconciled.histories.toList where
  keeps r hr e he := by
    rw [fileEntries_eq h hr.1 (planned_of_history h he)]
    refine ⟨⟨hr.1.events, hr.1.branches, fun b hb ↦ ?_, hr.1.counter⟩, hr.2⟩
    exact Timeline.mem_branchEvents_withEntries.mpr (hr.1.branchEvents b hb)
  view_step r hr e he b := by
    have hplanned := planned_of_history h he
    rw [fileEntries_eq h hr.1 hplanned,
      Timeline.index_withEntries (hr.1.branchEvents _ hplanned)]
    refine ite_congr rfl (fun hb ↦ ?_) fun _ ↦ rfl
    rw [hb]

theorem unfileEntries_ownKeyOnly (h : d.Sound table) :
    KeyedFold.OwnKeyOnly (fun r e ↦ Restoring.unfileEntries r d checks e)
      (fun r ↦ d.EventsBack checks r.timeline ∧ r.timeline.appliedHeads = ∅)
      (fun b r ↦ r.timeline.index b)
      (fun b history m ↦ m.eraseKeys (d.unfiled checks b history))
      d.reconciled.histories.toList where
  keeps r hr e he := by
    obtain ⟨hback, hheads, -⟩ := unfileEntries_spec hr.1 (planned_of_history h he)
    exact ⟨hback, hheads.trans hr.2⟩
  view_step r hr e he b := by
    obtain ⟨-, -, hindex⟩ := unfileEntries_spec hr.1 (planned_of_history h he)
    rw [hindex]
    refine ite_congr rfl (fun hb ↦ ?_) fun _ ↦ rfl
    rw [hb]

theorem restoreHead_ownKeyOnly :
    KeyedFold.OwnKeyOnly Restoring.restoreHead (fun r ↦ d.EventsBack checks r.timeline)
      (fun b r ↦ (r.timeline.index b, r.timeline.appliedHeads[b]?))
      (fun _ plan v ↦ (v.1, plan.appliedHead.elim v.2 fun head ↦ countWithin head v.1))
      d.reconciled.plans.toList where
  keeps r hr e he :=
    (restoreHead_spec hr (OrderedMap.mem_of_getElem? (OrderedMap.mem_toList.mp he))).1
  view_step r hr e he b := by
    obtain ⟨-, hindex, hheads⟩ :=
      restoreHead_spec hr (OrderedMap.mem_of_getElem? (OrderedMap.mem_toList.mp he))
    rw [hindex, hheads]
    by_cases hb : b = e.1
    · rw [if_pos hb, if_pos hb]
    · rw [if_neg hb, if_neg hb]

private theorem filed_index (h : d.Sound table) {m : BranchIndex}
    (hm : ∀ k e, m[k]? = some e ↔ ∃ ev, d.RestoredAt checks k ev ∧ ev.branchId = b ∧ ev.id = e)
    (k : EventIndex) (e : EventId) :
    ((m.insertEntries ((d.history b).toList.filterMap (d.entryToFile checks b))).eraseKeys
      (d.unfiled checks b (d.history b)))[k]? = some e ↔ k ∈ d.history b ∧
      ¬ (b = .main ∧ d.refusedByLive checks k) ∧ ∃ ev, d.RestoredAt checks k ev ∧ ev.id = e := by
  have hagree : ∀ l v w,
      (l, v) ∈ (d.history b).toList.filterMap (d.entryToFile checks b) →
      (l, w) ∈ (d.history b).toList.filterMap (d.entryToFile checks b) → v = w := by
    intro l v w hv hw
    obtain ⟨-, -, ev, hev, -, rfl⟩ := (mem_entriesToFile h).mp hv
    obtain ⟨-, -, ev', hev', -, rfl⟩ := (mem_entriesToFile h).mp hw
    rw [hev.eq hev']
  rw [OrderedMap.getElem?_eraseKeys, Option.ite_none_left_eq_some, mem_unfiled h,
    OrderedMap.getElem?_insertEntries_iff hagree, hm]
  simp only [mem_entriesToFile h]
  constructor
  · rintro ⟨hkept, ⟨hk, hserved, ev, hev, -, rfl⟩ | ⟨-, ev, hev, hown, rfl⟩⟩
    · exact ⟨hk, hserved, ev, hev, rfl⟩
    · have hk : k ∈ d.history b := by
        by_contra hk
        exact hkept ⟨hk, ev, hev, hown⟩
      refine ⟨hk, ?_, ev, hev, rfl⟩
      rw [← hown, ← h.events_numbered k ev hev.1]
      exact (restores_iff.mp hev.2).1
  · rintro ⟨hk, hserved, ev, hev, rfl⟩
    refine ⟨fun hout ↦ hout.1 hk, ?_⟩
    by_cases hown : ev.branchId = b
    · refine Or.inr ⟨?_, ev, hev, hown, rfl⟩
      rintro w ⟨-, -, ev', hev', hne, -⟩
      exact hne (hev.eq hev' ▸ hown)
    · exact Or.inl ⟨hk, hserved, ev, hev, hown, rfl⟩

theorem restoration_spec (h : d.Sound table) :
    d.EventsBack checks (d.restoration checks).timeline ∧
      ∀ (b : BranchId) (plan : BranchPlan), d.reconciled.plans[b]? = some plan →
        d.BranchBack checks (d.restoration checks).timeline b plan := by
  obtain ⟨hback, hheads, hindex⟩ := @rehydrated_spec _ _ checks h
  rw [restoration]
  set r₀ : Restoring := ⟨d.rehydrated checks, d.faults ++ d.duplicateFaults⟩
  set r₁ := d.reconciled.histories.toList.foldl (fun r e ↦ Restoring.fileEntries r d checks e) r₀
  set r₂ := d.reconciled.histories.toList.foldl (fun r e ↦ Restoring.unfileEntries r d checks e) r₁
  have h₁ : d.EventsBack checks r₁.timeline ∧ r₁.timeline.appliedHeads = ∅ :=
    (fileEntries_ownKeyOnly h).inv_foldl ⟨hback, hheads⟩
  have h₂ : d.EventsBack checks r₂.timeline ∧ r₂.timeline.appliedHeads = ∅ :=
    (unfileEntries_ownKeyOnly h).inv_foldl h₁
  refine ⟨restoreHead_ownKeyOnly.inv_foldl h₂.1, fun b plan hplan ↦ ?_⟩
  have hview := restoreHead_ownKeyOnly.view_foldl_of_mem h₂.1 (nodup_branches _)
    (OrderedMap.mem_toList.mpr hplan)
  obtain ⟨hindex', hhead⟩ := Prod.mk.inj hview
  have hmem : (b, d.history b) ∈ d.reconciled.histories.toList := by
    obtain ⟨members, hmembers⟩ := OrderedMap.mem_iff_exists.mp
      ((h.histories_planned b).mpr (OrderedMap.mem_of_getElem? hplan))
    have heq : d.history b = members := by
      rw [history, OrderedMap.setAt, hmembers, Option.getD_some]
    exact OrderedMap.mem_toList.mpr (heq ▸ hmembers)
  have hfiled : r₁.timeline.index b = _ :=
    (fileEntries_ownKeyOnly h).view_foldl_of_mem ⟨hback, hheads⟩ (nodup_branches _) hmem
  have hkept : r₂.timeline.index b = _ :=
    (unfileEntries_ownKeyOnly h).view_foldl_of_mem h₁ (nodup_branches _) hmem
  refine ⟨fun k e ↦ ?_, ?_⟩
  · rw [hindex', hkept, hfiled]
    exact filed_index h (hindex b) k e
  · rw [hhead, hindex', h₂.2]
    cases plan.appliedHead with
    | none => simp
    | some head => rfl

theorem withinAppliedHead_mono {head : Option (Option EventIndex)} {l : EventIndex} (hkl : k ≤ l)
    (hl : withinAppliedHead head l) : withinAppliedHead head k := by
  rcases head with _ | _ | last
  · rfl
  · exact hl
  · exact decide_eq_true (hkl.trans (of_decide_eq_true hl))

/-- **A branch has applied exactly the restored entries within its head.** -/
theorem BranchBack.appliedEntries {t : Timeline} {plan : BranchPlan}
    (h : d.BranchBack checks t b plan) : t.appliedEntries b =
      (t.index b).toList.filter fun e ↦ withinAppliedHead plan.appliedHead e.1 := by
  rw [Timeline.appliedEntries, Timeline.appliedHead, h.head]
  cases plan.appliedHead with
  | none =>
    have hall : (t.index b).toList.filter (fun e ↦ withinAppliedHead none e.1) =
        (t.index b).toList := List.filter_eq_self.mpr fun _ _ ↦ rfl
    rw [hall, Option.bind_none, Option.getD_none, ← Std.ExtTreeMap.length_toList, List.take_length]
  | some head =>
    have hcount : (t.index b).keys.countP (withinAppliedHead (some head)) =
        ((t.index b).toList.filter fun e ↦ withinAppliedHead (some head) e.1).length := by
      rw [← Std.ExtTreeMap.map_fst_toList_eq_keys, List.countP_map, ← List.countP_eq_length_filter]
      rfl
    have htake := SortedPrefix.take_length_filter
      (OrderedMap.pairwise_lt_toList (t.index b))
      (p := fun e ↦ withinAppliedHead (some head) e.1) fun e e' hlt ↦
        withinAppliedHead_mono (le_of_lt hlt)
    rw [← hcount] at htake
    rw [Option.bind_some, countWithin]
    by_cases hall : (t.index b).keys.countP (withinAppliedHead (some head)) = (t.index b).size
    · rw [if_pos hall, Option.getD_none, ← hall, htake]
    · rw [if_neg hall, Option.getD_some, htake]

end Passes

/-! ## What is served and reported -/

section Served

variable {d : LoadedDocument} {table : EventTable} {checks : ReplayChecks} {k : EventIndex}

section

variable (h : d.Sound table)

include h

theorem mem_liveEvents {ev : TimelineEvent} :
    ev ∈ d.liveEvents ↔ ev.sequenceNumber ∈ d.liveHistory ∧
      d.scan.bySeq[ev.sequenceNumber]? = some ev := by
  simp only [liveEvents, List.mem_filterMap, Std.ExtTreeSet.mem_toList]
  constructor
  · rintro ⟨k, hk, hev⟩
    obtain rfl : ev.sequenceNumber = k := h.events_numbered k ev hev
    exact ⟨hk, hev⟩
  · rintro ⟨hk, hev⟩
    exact ⟨_, hk, hev⟩

theorem mem_served {ev : TimelineEvent} :
    ev ∈ d.served checks ↔ (ev.sequenceNumber ∈ d.liveHistory ∧
      d.scan.bySeq[ev.sequenceNumber]? = some ev) ∧
      ¬ d.refusedByLive checks ev.sequenceNumber ∧
      withinAppliedHead d.liveHead ev.sequenceNumber := by
  rw [served, List.mem_filter, List.mem_filter, mem_liveEvents h, Bool.not_eq_true',
    Bool.not_eq_true, and_assoc]

theorem liveEvents_sequences :
    d.liveEvents.map TimelineEvent.sequenceNumber =
      d.liveHistory.toList.filter (· ∈ d.scan.bySeq) := by
  rw [liveEvents]
  induction d.liveHistory.toList with
  | nil => rfl
  | cons k l ih =>
    cases hk : d.scan.bySeq[k]? with
    | none =>
      have hnot := OrderedMap.not_mem_iff.mpr hk
      rw [List.filterMap_cons_none hk, ih, List.filter_cons_of_neg (by simpa using hnot)]
    | some ev =>
      have hmem := OrderedMap.mem_of_getElem? hk
      rw [List.filterMap_cons_some hk, List.map_cons, ih, h.events_numbered k ev hk,
        List.filter_cons_of_pos (by simpa using hmem)]

theorem served_sequences :
    (d.served checks).map TimelineEvent.sequenceNumber = d.liveHistory.toList.filter fun k ↦
      !d.refusedByLive checks k && withinAppliedHead d.liveHead k := by
  have hfilter (p : EventIndex → Bool) (l : List TimelineEvent) :
      (l.filter fun e ↦ p e.sequenceNumber).map TimelineEvent.sequenceNumber =
        (l.map TimelineEvent.sequenceNumber).filter p := List.filter_map.symm
  rw [served, hfilter (withinAppliedHead d.liveHead), hfilter fun k ↦ !d.refusedByLive checks k,
    liveEvents_sequences h, List.filter_filter, List.filter_filter]
  refine List.filter_congr fun k hk ↦ ?_
  -- A sequence that is not refused is restorable, so the first filter drops nothing more.
  by_cases hrefused : d.refusedByLive checks k
  · simp [hrefused]
  · have hmem := mem_bySeq_of_not_refused (Std.ExtTreeSet.mem_toList.mp hk) hrefused
    simp [hrefused, hmem]

theorem served_prefix :
    (d.served checks).map TimelineEvent.sequenceNumber <+: d.liveHistory.toList := by
  rw [served_sequences h, ← SortedPrefix.take_length_filter
    (OrderedSet.pairwise_lt_toList d.liveHistory) fun k l hkl hl ↦ ?_]
  · exact List.take_prefix _ _
  · simp only [Bool.and_eq_true, Bool.not_eq_true', ← Bool.not_eq_true] at hl ⊢
    exact ⟨fun hk ↦ hl.1 (refusedByLive_mono hkl.le hk), withinAppliedHead_mono hkl.le hl.2⟩

theorem live_appliedEntries :
    (d.restoration checks).timeline.appliedEntries .main =
      (d.served checks).map fun ev ↦ (ev.sequenceNumber, ev.id) := by
  obtain ⟨plan, hplan⟩ := OrderedMap.mem_iff_exists.mp h.live_planned
  have hback := (@restoration_spec _ _ checks h).2 _ plan hplan
  have hhead : d.liveHead = plan.appliedHead := by
    rw [liveHead, hplan, Option.bind_some]
  have hindex : ((d.restoration checks).timeline.index .main).toList =
      (d.liveEvents.filter fun e ↦ !d.refusedByLive checks e.sequenceNumber).map
        fun ev ↦ (ev.sequenceNumber, ev.id) := by
    refine OrderedMap.toList_eq_of_pairwise ?_ fun k e ↦ ?_
    · have hascending : (d.liveEvents.map TimelineEvent.sequenceNumber).Pairwise (· < ·) := by
        rw [liveEvents_sequences h]
        exact (OrderedSet.pairwise_lt_toList _).sublist List.filter_sublist
      exact List.pairwise_map.mpr ((List.pairwise_map.mp hascending).sublist List.filter_sublist)
    · rw [hback.index]
      simp only [List.mem_map, List.mem_filter, mem_liveEvents h, Bool.not_eq_true',
        Prod.mk.injEq, true_and, Bool.not_eq_true]
      constructor
      · rintro ⟨hk, hserved, ev, hev, rfl⟩
        obtain rfl : ev.sequenceNumber = k := h.events_numbered k ev hev.1
        exact ⟨ev, ⟨⟨hk, hev.1⟩, hserved⟩, rfl, rfl⟩
      · rintro ⟨ev, ⟨⟨hk, hev⟩, hserved⟩, rfl, rfl⟩
        refine ⟨hk, hserved, ev, ⟨hev, restores_iff.mpr ⟨fun hrefused ↦ ?_, ?_⟩⟩, rfl⟩
        · rw [hserved] at hrefused
          cases hrefused.2
        · exact held_iff.mpr ⟨.main, (h.histories_planned _).mpr h.live_planned, hk⟩
  rw [hback.appliedEntries, hindex, served, List.filter_map, hhead]
  rfl

end

end Served

end LoadedDocument

end RosheraCad
