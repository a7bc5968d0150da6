import RosheraCad.Durability.Run

/-!
# The history round trip

Each durable operation keeps the store in step with the indexes. A merge is the one with a
condition: boot subtracts the target's discarded sequences from what it inserts.
-/

namespace RosheraCad

open Timeline

variable {source target : BranchId} {child : BranchId}

section Steps

variable {t : Timeline} {reserved : List EventIndex} {store store' : DurableStore}
  {ev : TimelineEvent} {c : BranchId} {entries : EntrySequence} {r : Branch}

theorem Rewrites.of_eq {t' : Timeline} (hstore : store'.branches = store.branches)
    (ht : t'.branches = t.branches) : Rewrites t t' store store' fun _ ↦ False where
  rewritten _ h := h.elim
  kept _ _ := ⟨by rw [hstore], by rw [ht]⟩
  same_branches b := by rw [ht]
  same_parents b r' hr' := ⟨r', ht ▸ hr', rfl⟩

theorem Timeline.Recorded.congr {t' : Timeline}
    (hdata : ∀ b, store'.dataOf b = store.dataOf b) (hevents : t'.events = t.events)
    (b : BranchId) (k : EventIndex) : t'.Recorded store' b k ↔ t.Recorded store b k := by
  simp only [Timeline.Recorded, hdata, hevents]

/-- An operation that touches neither branches, events nor indexes needs no write. -/
theorem StoreMatches.frame {t' : Timeline} {reserved' : List EventIndex}
    (h : StoreMatches t reserved store) (hbranches : t'.branches = t.branches)
    (hevents : t'.events = t.events) (hindexes : t'.branchEvents = t.branchEvents)
    (hcounter : t.eventCounter ≤ t'.eventCounter)
    (hreserved : ∀ n ∈ reserved', n ∈ reserved ∨ t.eventCounter ≤ n) :
    StoreMatches t' reserved' store where
  toRowsMatch := ⟨fun row hrow ↦ hevents ▸ h.rows_stored row hrow,
    fun e ev hev ↦ h.events_written e ev (hevents ▸ hev)⟩
  toRecordsMatch := h.toRecordsMatch.rewrite (.of_eq rfl hbranches)
  discarded_spent b k hk := by
    obtain ⟨hlt, hnot⟩ := h.discarded_spent b k hk
    refine ⟨hlt.trans_le hcounter, fun hmem ↦ ?_⟩
    rcases hreserved k hmem with hold | hge
    · exact hnot hold
    · exact absurd hlt (not_lt.mpr hge)
  histories b hb k := by
    have hindex : t'.index b = t.index b := by rw [Timeline.index, hindexes, Timeline.index]
    rw [hindex, Timeline.Recorded.congr (fun _ ↦ rfl) hevents]
    exact h.histories b (hbranches ▸ hb) k

/-! ## Appending -/

private theorem mem_index_insertEvent (hb : ev.branchId ∈ t.branchEvents)
    (b : BranchId) (k : EventIndex) : k ∈ (t.insertEvent ev).index b ↔
      (b = ev.branchId ∧ k = ev.sequenceNumber) ∨ k ∈ t.index b := by
  rw [OrderedMap.mem_iff_exists, OrderedMap.mem_iff_exists]
  simp only [Timeline.getElem?_index_insertEvent hb]
  by_cases hnew : b = ev.branchId ∧ k = ev.sequenceNumber <;> simp [hnew]

private theorem exists_event_insertEvent (hid : ev.id ∉ t.events) (b : BranchId) (k : EventIndex) :
    (∃ (e : EventId) (ev' : TimelineEvent), (t.insertEvent ev).events[e]? = some ev' ∧
      ev'.branchId = b ∧ ev'.sequenceNumber = k) ↔
    (b = ev.branchId ∧ k = ev.sequenceNumber) ∨ ∃ (e : EventId) (ev' : TimelineEvent),
      t.events[e]? = some ev' ∧ ev'.branchId = b ∧ ev'.sequenceNumber = k := by
  constructor
  · rintro ⟨e, ev', hev, hbranch, hseq⟩
    obtain ⟨-, rfl⟩ | hev := Timeline.eq_or_of_insertEvent hev
    · exact Or.inl ⟨hbranch.symm, hseq.symm⟩
    · exact Or.inr ⟨e, ev', hev, hbranch, hseq⟩
  · rintro (⟨rfl, rfl⟩ | ⟨e, ev', hev, hbranch, hseq⟩)
    · exact ⟨ev.id, ev, by rw [Timeline.insertEvent_events, if_pos rfl], rfl, rfl⟩
    · exact ⟨e, ev', Timeline.events_insertEvent_of_stored hid hev, hbranch, hseq⟩

theorem StoreMatches.insertEvent (h : StoreMatches t reserved store)
    (hb : ev.branchId ∈ t.branchEvents) (hid : ev.id ∉ t.events)
    (hnew : ∀ b, ev.sequenceNumber ∉ (store.dataOf b).restoredDiscarded)
    (hrows : store'.events.rows = store.events.rows ++ [.toEventData ev])
    (hbranches : store'.branches = store.branches) :
    StoreMatches (t.insertEvent ev) reserved store' := by
  have hdata (b : BranchId) : store'.dataOf b = store.dataOf b :=
    DurableStore.dataOf_congr (by rw [hbranches])
  refine
    { rows_stored := fun row hrow ↦ ?_
      events_written := fun e ev' hev ↦ ?_
      toRecordsMatch := h.toRecordsMatch.rewrite (.of_eq hbranches rfl)
      discarded_spent := fun b k hk ↦ h.discarded_spent b k (hdata b ▸ hk)
      histories := fun b hmem k ↦ ?_ }
  · rw [hrows, List.mem_append, List.mem_singleton] at hrow
    rcases hrow with hrow | rfl
    · obtain ⟨ev', hev', heq⟩ := h.rows_stored row hrow
      exact ⟨ev', Timeline.events_insertEvent_of_stored hid hev', heq⟩
    · exact ⟨ev, by rw [Timeline.insertEvent_events, if_pos rfl], rfl⟩
  · rw [hrows, List.mem_append, List.mem_singleton]
    obtain ⟨-, rfl⟩ | hev := Timeline.eq_or_of_insertEvent hev
    · exact Or.inr rfl
    · exact Or.inl (h.events_written e ev' hev)
  · have hold := h.histories b hmem k
    rw [mem_index_insertEvent hb, hold]
    simp only [Timeline.Recorded, hdata, exists_event_insertEvent hid]
    -- A new number was never discarded.
    have hfresh : b = ev.branchId ∧ k = ev.sequenceNumber →
        k ∉ (store.dataOf b).restoredDiscarded := by
      rintro ⟨-, rfl⟩
      exact hnew b
    constructor
    · rintro (hadd | ⟨hinherited | hown' | hmerged, hnot⟩)
      · exact ⟨Or.inr (Or.inl (Or.inl hadd)), hfresh hadd⟩
      · exact ⟨Or.inl hinherited, hnot⟩
      · exact ⟨Or.inr (Or.inl (Or.inr hown')), hnot⟩
      · exact ⟨Or.inr (Or.inr hmerged), hnot⟩
    · rintro ⟨hinherited | (hadd | hown') | hmerged, hnot⟩
      · exact Or.inr ⟨Or.inl hinherited, hnot⟩
      · exact Or.inl hadd
      · exact Or.inr ⟨Or.inr (Or.inl hown'), hnot⟩
      · exact Or.inr ⟨Or.inr (Or.inr hmerged), hnot⟩

/-! ## Discarding -/

section Discard

variable {b : BranchId} {cut : EventIndex} {plan : TruncatePlan} {branch : Branch}

private theorem mem_discarded_rows (hwf : t.WellFormed reserved)
    (hp : t.truncatePlan b cut = .ok plan)
    (hbranch : (t.applyTruncatePlan plan cut).branches[b]? = some branch)
    {row : BranchRow} :
    (c, row) ∈ ((t.discardReport plan cut branch).branch
        :: (t.discardReport plan cut branch).cascaded).map (fun r ↦
          (r.id, store.discardedRow (t.discardReport plan cut branch).removedSequences r)) ↔
      plan.Scrubs c ∧ ∃ r, (t.applyTruncatePlan plan cut).branches[c]? = some r ∧
        store.discardedRow (t.discardReport plan cut branch).removedSequences r = row := by
  obtain ⟨-, -, hplan, -, -, -⟩ := truncatePlan_spec hp
  have hids := (applyTruncatePlan_wellFormed hp hwf).branch_ids
  simp only [List.mem_map, Prod.mk.injEq]
  constructor
  · rintro ⟨r, hr, rfl, hrow⟩
    rcases List.mem_cons.mp hr with rfl | hr
    · have hid : r.id = b := hids b r hbranch
      rw [hid]
      exact ⟨Or.inl hplan.symm, _, hbranch, hrow⟩
    · obtain ⟨child, hchild, hr⟩ := List.mem_filterMap.mp hr
      rw [hids child r hr]
      exact ⟨Or.inr hchild, r, hr, hrow⟩
  · rintro ⟨hscrub, r, hr, hrow⟩
    refine ⟨r, ?_, hids c r hr, hrow⟩
    rcases hscrub with rfl | hchild
    · rw [hplan] at hr
      rw [Option.some_inj.mp (hr.symm.trans hbranch)]
      exact List.mem_cons_self
    · exact List.mem_cons_of_mem _ (List.mem_filterMap.mpr ⟨c, hchild, hr⟩)

theorem branches_discarded (hwf : t.WellFormed reserved) (hp : t.truncatePlan b cut = .ok plan)
    (hbranch : (t.applyTruncatePlan plan cut).branches[b]? = some branch)
    (hstore : store'.branches = store.branches.insertEntries
      (((t.discardReport plan cut branch).branch
        :: (t.discardReport plan cut branch).cascaded).map fun r ↦
          (r.id, store.discardedRow (t.discardReport plan cut branch).removedSequences r)))
    (c : BranchId) :
    (plan.Scrubs c → ∃ r, (t.applyTruncatePlan plan cut).branches[c]? = some r ∧
      store'.branches[c]? =
        some (store.discardedRow (t.discardReport plan cut branch).removedSequences r)) ∧
    (¬ plan.Scrubs c → store'.branches[c]? = store.branches[c]?) := by
  obtain ⟨-, -, hplan, -, hcasc, -⟩ := truncatePlan_spec hp
  rw [hstore]
  constructor
  · intro hscrub
    obtain ⟨r, hr⟩ : ∃ r, (t.applyTruncatePlan plan cut).branches[c]? = some r := by
      rcases hscrub with rfl | hchild
      · exact ⟨branch, hplan ▸ hbranch⟩
      · obtain ⟨r₀, hr₀, -⟩ := mem_cascadedChildren.mp (hcasc ▸ hchild)
        exact OrderedMap.mem_iff_exists.mp
          (mem_branches_applyTruncatePlan.mpr (OrderedMap.mem_of_getElem? hr₀))
    refine ⟨r, hr, OrderedMap.getElem?_insertEntries_of_mem (fun row hrow ↦ ?_)
      ((mem_discarded_rows hwf hp hbranch).mpr ⟨hscrub, r, hr, rfl⟩) _⟩
    obtain ⟨-, r', hr', rfl⟩ := (mem_discarded_rows hwf hp hbranch).mp hrow
    rw [Option.some_inj.mp (hr'.symm.trans hr)]
  · intro hscrub
    refine OrderedMap.getElem?_insertEntries_of_not_mem (fun row hrow ↦ ?_) _
    exact hscrub ((mem_discarded_rows hwf hp hbranch).mp hrow).1

private theorem data_discardedRow (removed : List EventIndex) (r : Branch) :
    (store.discardedRow removed r).data.inherited = (store.dataOf r.id).inherited ∧
      (store.discardedRow removed r).data.state = .value r.state ∧
      ∀ k, k ∈ (store.discardedRow removed r).data.restoredDiscarded ↔
        k ∈ (store.dataOf r.id).restoredDiscarded ∨ k ∈ removed := by
  refine ⟨rfl, rfl, fun k ↦ ?_⟩
  simp only [BranchData.restoredDiscarded, DurableStore.discardedRow, DurableStore.branchRow,
    Stored.value?, Option.getD_some, OrderedSet.mem_ofList, Std.ExtTreeSet.mem_toList,
    OrderedSet.mem_insertMany]
  rfl

private theorem mem_purgedSequences (hwf : t.WellFormed reserved)
    (hp : t.truncatePlan b cut = .ok plan) {e : EventId}
    (hev : t.events[e]? = some ev) :
    ev.sequenceNumber ∈ (t.discardReport plan cut branch).purgedSequences ↔ e ∈ plan.purged := by
  obtain ⟨m, hm, -, hremoved, -, hpurged⟩ := truncatePlan_spec hp
  have hentry {k : EventIndex} {e : EventId} (hk : (k, e) ∈ plan.removed) :
      (t.index b)[k]? = some e := by
    rw [index_eq_of_getElem? hm]
    exact ((hremoved k e).mp hk).1
  simp only [discardReport, List.mem_insertionSort, List.mem_map, List.mem_filter,
    decide_eq_true_eq, Prod.exists, exists_and_right, exists_eq_right]
  constructor
  · rintro ⟨e', hk, he'⟩
    obtain ⟨ev', hev', hseq⟩ := hwf.entries_resolve b _ e' (hentry hk)
    rwa [hwf.sequences_unique e e' ev ev' hev hev' hseq.symm]
  · intro he
    obtain ⟨⟨k, hk⟩, -⟩ := (hpurged e).mp he
    obtain ⟨ev', hev', hseq⟩ := hwf.entries_resolve b k e (hentry hk)
    obtain rfl := Option.some_inj.mp (hev.symm.trans hev')
    exact ⟨e, hseq ▸ hk, he⟩

/-- A discard was written: the rows of the purged events are deleted, and those of the truncated
branch and of the abandoned children rewritten. -/
structure DiscardWrite (t : Timeline) (reserved : List EventIndex) (store store' : DurableStore)
    (b : BranchId) (cut : EventIndex) (plan : TruncatePlan) (branch : Branch) : Prop where
  wellFormed : t.WellFormed reserved
  planned : t.truncatePlan b cut = .ok plan
  active : t.stateOf b = some .active
  live : (t.applyTruncatePlan plan cut).branches[b]? = some branch
  rows : store'.events.rows =
    (store.events.deleteAt (t.discardReport plan cut branch).purgedSequences).rows
  branches : store'.branches = store.branches.insertEntries
    (((t.discardReport plan cut branch).branch
      :: (t.discardReport plan cut branch).cascaded).map fun r ↦
        (r.id, store.discardedRow (t.discardReport plan cut branch).removedSequences r))

namespace DiscardWrite

variable (h : DiscardWrite t reserved store store' b cut plan branch)

omit h in
theorem events_afterDiscard (e : EventId) :
    (t.afterDiscard b plan cut).events[e]? = if e ∈ plan.purged then none else t.events[e]? :=
  @applyTruncatePlan_events t plan cut e

omit h in
theorem mem_index_afterDiscard (c : BranchId) (k : EventIndex) :
    k ∈ (t.afterDiscard b plan cut).index c ↔
      k ∈ t.index c ∧ ¬ (plan.Scrubs c ∧ k ∈ plan.removedKeys) := by
  have hlookup : ((t.afterDiscard b plan cut).index c)[k]? = _ :=
    @getElem?_index_applyTruncatePlan t k plan cut c
  rw [OrderedMap.mem_iff_exists, OrderedMap.mem_iff_exists, hlookup]
  by_cases hscrub : plan.Scrubs c ∧ k ∈ plan.removedKeys <;> simp [hscrub]

include h

theorem scrubbed_active (hc : plan.Scrubs c) : t.stateOf c = some .active := by
  obtain ⟨-, -, hplan, -, hcasc, -⟩ := truncatePlan_spec h.planned
  rcases hc with rfl | hchild
  · exact hplan ▸ h.active
  · obtain ⟨r₀, hr₀, -, -, hstate⟩ := mem_cascadedChildren.mp (hcasc ▸ hchild)
    rw [stateOf, hr₀, Option.map_some, hstate]

theorem row (hc : plan.Scrubs c) :
    ∃ r, (t.afterDiscard b plan cut).branches[c]? = some r ∧ r.id = c ∧
      (∀ into now, r.state ≠ .merged into now) ∧ store'.branches[c]? =
        some (store.discardedRow (t.discardReport plan cut branch).removedSequences r) := by
  obtain ⟨r, hr, hrow⟩ :=
    (branches_discarded h.wellFormed h.planned h.live h.branches c).1 hc
  have hid := (applyTruncatePlan_wellFormed h.planned h.wellFormed).branch_ids c r hr
  refine ⟨r, hr, hid, fun into now hmerged ↦ ?_, hrow⟩
  obtain ⟨r₀, hr₀, -, -, -, hstate | ⟨-, hstate⟩⟩ := branches_of_applyTruncatePlan hr
  · have hactive := h.scrubbed_active hc
    rw [stateOf, hr₀, Option.map_some, ← hstate, hmerged] at hactive
    cases hactive
  · rw [hmerged] at hstate
    cases hstate

theorem kept (hc : ¬ plan.Scrubs c) : store'.branches[c]? = store.branches[c]? ∧
    (t.afterDiscard b plan cut).branches[c]? = t.branches[c]? := by
  refine ⟨(branches_discarded h.wellFormed h.planned h.live h.branches c).2 hc, ?_⟩
  have hafter : (t.afterDiscard b plan cut).branches[c]? =
      (t.applyTruncatePlan plan cut).branches[c]? := rfl
  rw [hafter, applyTruncatePlan_branches, if_neg fun hchild ↦ hc (Or.inr hchild)]

theorem records (hm : RecordsMatch t store) :
    RecordsMatch (t.afterDiscard b plan cut) store' := by
  refine hm.rewrite (@Rewrites.mk t _ store store' plan.Scrubs ?_ (fun c hc ↦ h.kept hc) ?_ ?_)
  · intro c hc
    obtain ⟨r, hr, hid, -, hrow⟩ := h.row hc
    exact ⟨r, _, hr, hrow, rfl, hid ▸ (data_discardedRow _ r).1⟩
  · exact fun c ↦ mem_branches_applyTruncatePlan
  · intro c r' hr'
    obtain ⟨r, hr, -, hparent, -⟩ := branches_of_applyTruncatePlan hr'
    exact ⟨r, hr, hparent⟩

theorem inherited (c : BranchId) : (store'.dataOf c).inherited = (store.dataOf c).inherited := by
  by_cases hc : plan.Scrubs c
  · obtain ⟨r, -, hid, -, hrow⟩ := h.row hc
    rw [DurableStore.dataOf_of_row hrow, (data_discardedRow _ r).1, hid]
  · rw [DurableStore.dataOf_congr (h.kept hc).1]

theorem merge (hm : RecordsMatch t store) (c : BranchId) :
    (store'.dataOf c).restoredMerge = (store.dataOf c).restoredMerge := by
  by_cases hc : plan.Scrubs c
  · rw [(h.records hm).restoredMerge_eq_none, hm.restoredMerge_eq_none]
    · intro r into now hr hmerged
      have hactive := h.scrubbed_active hc
      rw [stateOf, hr, Option.map_some, hmerged] at hactive
      cases hactive
    · intro r into now hr
      obtain ⟨r', hr', -, hnot, -⟩ := h.row hc
      rw [Option.some_inj.mp (hr.symm.trans hr')]
      exact hnot into now
  · rw [DurableStore.dataOf_congr (h.kept hc).1]

theorem discarded (c : BranchId) (k : EventIndex) : k ∈ (store'.dataOf c).restoredDiscarded ↔
    k ∈ (store.dataOf c).restoredDiscarded ∨ plan.Scrubs c ∧ k ∈ plan.removedKeys := by
  by_cases hc : plan.Scrubs c
  · obtain ⟨r, -, hid, -, hrow⟩ := h.row hc
    rw [DurableStore.dataOf_of_row hrow, (data_discardedRow _ r).2.2, hid]
    simp [hc, discardReport]
  · rw [DurableStore.dataOf_congr (h.kept hc).1]
    simp [hc]

theorem rowsMatch (hm : RowsMatch t store) : RowsMatch (t.afterDiscard b plan cut) store' where
  rows_stored row hrow := by
    rw [h.rows] at hrow
    obtain ⟨hold, hkeep⟩ := List.mem_filter.mp hrow
    obtain ⟨ev, hev, rfl⟩ := hm.rows_stored row hold
    refine ⟨ev, ?_, rfl⟩
    rw [events_afterDiscard, if_neg fun hpurge ↦ ?_, hev]
    refine of_decide_eq_true hkeep ⟨ev.sequenceNumber, ?_, rfl⟩
    exact (mem_purgedSequences h.wellFormed h.planned hev).mpr hpurge
  events_written e ev hev := by
    rw [events_afterDiscard] at hev
    split at hev
    · exact nomatch hev
    · next hpurge =>
      rw [h.rows]
      refine List.mem_filter.mpr ⟨hm.events_written e ev hev, decide_eq_true ?_⟩
      rintro ⟨seq, hseq, heq⟩
      obtain rfl : ev.sequenceNumber = seq := Int.ofNat.inj heq
      exact hpurge ((mem_purgedSequences h.wellFormed h.planned hev).mp hseq)

theorem not_purged {k : EventIndex} {e : EventId} (hc : c ∈ t.branches) (hstood : k ∈ t.index c)
    (hkeep : ¬ (plan.Scrubs c ∧ k ∈ plan.removedKeys)) (hev : t.events[e]? = some ev)
    (hseq : ev.sequenceNumber = k) : e ∉ plan.purged := by
  intro hpurge
  obtain ⟨m, hm, -, -, -, hpurged⟩ := truncatePlan_spec h.planned
  obtain ⟨-, hall⟩ := (hpurged e).mp hpurge
  obtain ⟨e', he'⟩ := OrderedMap.mem_iff_exists.mp hstood
  obtain ⟨ev', hev', hseq'⟩ := h.wellFormed.entries_resolve c k e' he'
  obtain rfl : e = e' :=
    h.wellFormed.sequences_unique e e' ev ev' hev hev' (hseq.trans hseq'.symm)
  -- Its entry stands in the index of `c`, so `c` lost it by the same plan.
  obtain ⟨m', hm'⟩ := h.wellFormed.exists_index hc
  rw [index_eq_of_getElem? hm'] at he'
  exact hkeep (hall c m' k hm' he')

end DiscardWrite

/-- **A discard and its write**: the removed sequences leave the indexes and are recorded as
discarded. -/
theorem StoreMatches.afterDiscard (h : StoreMatches t reserved store)
    (hwrite : DiscardWrite t reserved store store' b cut plan branch) :
    StoreMatches (t.afterDiscard b plan cut) reserved store' where
  toRowsMatch := hwrite.rowsMatch h.toRowsMatch
  toRecordsMatch := hwrite.records h.toRecordsMatch
  discarded_spent c k hk := by
    rcases (hwrite.discarded c k).mp hk with hold | ⟨-, hremove⟩
    · exact h.discarded_spent c k hold
    · have hwf := hwrite.wellFormed
      have hindexed := ((mem_removedKeys hwrite.planned).mp hremove).1
      exact ⟨hwf.index_lt_counter hindexed, fun hres ↦ hwf.reserved_not_indexed hres b hindexed⟩
  histories c hc k := by
    have hmem : c ∈ t.branches := mem_branches_applyTruncatePlan.mp hc
    have hold := h.histories c hmem k
    rw [DiscardWrite.mem_index_afterDiscard, hold]
    simp only [Recorded, hwrite.inherited, hwrite.merge h.toRecordsMatch, hwrite.discarded, not_or,
      and_assoc]
    -- Only the branch's own events differ, and those that leave the store left its index.
    constructor
    · rintro ⟨hsource, hnot, hkeep⟩
      refine ⟨hsource.imp_right (Or.imp_left ?_), hnot, hkeep⟩
      rintro ⟨e, ev, hev, hbranch, hseq⟩
      have hpurge := hwrite.not_purged hmem (hold.mpr ⟨hsource, hnot⟩) hkeep hev hseq
      refine ⟨e, ev, ?_, hbranch, hseq⟩
      rw [DiscardWrite.events_afterDiscard, if_neg hpurge, hev]
    · rintro ⟨hsource, hnot, hkeep⟩
      refine ⟨hsource.imp_right (Or.imp_left ?_), hnot, hkeep⟩
      rintro ⟨e, ev, hev, hbranch, hseq⟩
      rw [DiscardWrite.events_afterDiscard] at hev
      split at hev
      · exact nomatch hev
      · exact ⟨e, ev, hev, hbranch, hseq⟩

end Discard

/-! ## Forking -/

private theorem no_merge_into_new (hwf : t.WellFormed reserved) (h : RecordsMatch t store)
    (hchild : child ∉ t.branches) (c : BranchId) (seqs : List EventIndex) :
    (store.dataOf c).restoredMerge ≠ some (child, seqs) := by
  intro hmerge
  obtain ⟨now, hstate⟩ := DurableStore.restoredState_of_restoredMerge hmerge
  by_cases hc : c ∈ store.branches
  · obtain ⟨r, hr⟩ := OrderedMap.mem_iff_exists.mp (h.rows_known c hc)
    exact hchild (hwf.merge_targets_exist c r child now hr
      ((h.states_written c r hc hr).symm.trans hstate))
  · rw [DurableStore.dataOf_of_not_mem hc] at hstate
    cases hstate

section Fork

variable {child parent b : BranchId} {m : BranchIndex} {r : Branch} {forkAt : ℤ} {name : String}

private abbrev forkStore (t : Timeline) (store : DurableStore) (child parent : BranchId)
    (m : BranchIndex) (r : Branch) (forkAt : ℤ) (name : String) : DurableStore :=
  store.persistBranch (t.withBranch child m r) child (some parent) forkAt name r.createdBy

private theorem branches_forkStore (hb : b ≠ child) :
    (forkStore t store child parent m r forkAt name).branches[b]? = store.branches[b]? := by
  rw [forkStore, DurableStore.persistBranch, DurableStore.saveBranch_branches, if_neg hb]

private theorem dataOf_forkStore (hb : b ≠ child) :
    (forkStore t store child parent m r forkAt name).dataOf b = store.dataOf b :=
  DurableStore.dataOf_congr (branches_forkStore hb)

/-- The child's row lists the index it starts with, and nothing else but who created it. -/
private theorem dataOf_forkStore_child :
    (forkStore t store child parent m r forkAt name).dataOf child =
      { BranchData.empty with createdBy := .value r.createdBy, inherited := .value m.keys } := by
  have hindexed : (t.withBranch child m r).branchEvents[child]? = some m := by
    simp only [withBranch, OrderedMap.lookup_insert, if_true]
  have hrow : (forkStore t store child parent m r forkAt name).branches[child]? =
      some ⟨some parent, forkAt, name,
        { BranchData.empty with createdBy := .value r.createdBy, inherited := .value m.keys }⟩ := by
    rw [forkStore, DurableStore.persistBranch, DurableStore.saveBranch_branches, if_pos rfl,
      hindexed]
  exact DurableStore.dataOf_of_row hrow

private theorem restoredMerge_forkStore (h : RecordsMatch t store) (hchild : child ∉ t.branches)
    (c : BranchId) : ((forkStore t store child parent m r forkAt name).dataOf c).restoredMerge =
      (store.dataOf c).restoredMerge := by
  by_cases hc : c = child
  · have hnot : child ∉ store.branches := fun hmem ↦ hchild (h.rows_known child hmem)
    rw [hc, dataOf_forkStore_child, DurableStore.dataOf_of_not_mem hnot]
    rfl
  · rw [dataOf_forkStore hc]

private theorem not_mem_restoredDiscarded_forkStore (k : EventIndex) :
    k ∉ ((forkStore t store child parent m r forkAt name).dataOf child).restoredDiscarded := by
  rw [dataOf_forkStore_child]
  simp [BranchData.restoredDiscarded, BranchData.empty, Stored.value?]

private theorem lookup_withBranch (hb : b ≠ child) :
    (t.withBranch child m r).branches[b]? = t.branches[b]? := by
  simp only [withBranch, OrderedMap.lookup_insert, if_neg hb]

private theorem recordsMatch_fork (hwf : t.WellFormed reserved) (h : RecordsMatch t store)
    (hchild : child ∉ t.branches) (hstate : r.state = .active) :
    RecordsMatch (t.withBranch child m r) (forkStore t store child parent m r forkAt name) := by
  have hold {b : BranchId} (hb : b ∈ (t.withBranch child m r).branches) (hc : b ≠ child) :
      b ∈ t.branches := (mem_branches_withBranch.mp hb).resolve_left hc
  have hrows {b : BranchId} (hc : b ≠ child)
      (hb : b ∈ (forkStore t store child parent m r forkAt name).branches) :
      b ∈ store.branches := by
    rwa [OrderedMap.mem_iff_exists, branches_forkStore hc, ← OrderedMap.mem_iff_exists] at hb
  have hmain : BranchId.main ≠ child := by
    rintro rfl
    exact hchild hwf.main_present
  refine
    { rows_known := fun b hb ↦ ?_
      forks_written := fun b hb hne ↦ ?_
      states_written := fun b r' hb hr' ↦ ?_
      main_root := ⟨fun r' hr' ↦ h.main_root.1 r' (lookup_withBranch hmain ▸ hr'),
        fun row hrow ↦ h.main_root.2 row (branches_forkStore hmain ▸ hrow)⟩ }
  · by_cases hc : b = child
    · exact mem_branches_withBranch.mpr (Or.inl hc)
    · exact mem_branches_withBranch.mpr (Or.inr (h.rows_known b (hrows hc hb)))
  · by_cases hc : b = child
    · rw [hc, dataOf_forkStore_child]
      rfl
    · rw [dataOf_forkStore hc]
      exact h.forks_written b (hold hb hc) hne
  · by_cases hc : b = child
    · subst hc
      have hlive : (t.withBranch b m r).branches[b]? = some r := by
        simp only [withBranch, OrderedMap.lookup_insert, if_true]
      obtain rfl : r = r' := Option.some_inj.mp (hlive.symm.trans hr')
      rw [dataOf_forkStore_child, hstate]
      rfl
    · rw [dataOf_forkStore hc]
      exact h.states_written b r' (hrows hc hb) (lookup_withBranch hc ▸ hr')

private theorem mem_index_child_iff (hwf : t.WellFormed reserved) (h : RecordsMatch t store)
    (hchild : child ∉ t.branches) (k : EventIndex) :
    k ∈ (t.withBranch child m r).index child ↔ (t.withBranch child m r).Recorded
      (forkStore t store child parent m r forkAt name) child k := by
  have hown : ¬ ∃ (e : EventId) (ev : TimelineEvent),
      t.events[e]? = some ev ∧ ev.branchId = child ∧ ev.sequenceNumber = k := by
    rintro ⟨e, ev, hev, rfl, -⟩
    exact hchild (hwf.origins_exist e ev hev)
  have hinto : ¬ ∃ (c : BranchId) (seqs : List EventIndex),
      (store.dataOf c).restoredMerge = some (child, seqs) ∧ k ∈ seqs := by
    rintro ⟨c, seqs, hc, -⟩
    exact no_merge_into_new hwf h hchild c seqs hc
  have hkeys : ((forkStore t store child parent m r forkAt name).dataOf child).inherited.value?.getD
      [] = m.keys := by
    rw [dataOf_forkStore_child]
    rfl
  rw [index_withBranch, if_pos rfl, Recorded, hkeys, Std.ExtTreeMap.mem_keys]
  simp only [restoredMerge_forkStore h hchild, not_mem_restoredDiscarded_forkStore,
    not_false_eq_true, and_true]
  exact ⟨Or.inl, fun hk ↦ hk.resolve_right fun hk ↦ hk.elim hown hinto⟩

/-- **A fork and its write**: the child's row lists the index it starts with. -/
theorem StoreMatches.fork (hwf : t.WellFormed reserved) (h : StoreMatches t reserved store)
    {child parent : BranchId} {m : BranchIndex} (hchild : child ∉ t.branches)
    (hstate : r.state = .active) (fork : ℤ) (name : String) :
    StoreMatches (t.withBranch child m r) reserved
      (store.persistBranch (t.withBranch child m r) child (some parent) fork name r.createdBy) where
  rows_stored := h.rows_stored
  events_written := h.events_written
  toRecordsMatch := recordsMatch_fork hwf h.toRecordsMatch hchild hstate
  discarded_spent b k hk := by
    by_cases hc : b = child
    · subst hc
      exact absurd hk (not_mem_restoredDiscarded_forkStore k)
    · rw [dataOf_forkStore hc] at hk
      exact h.discarded_spent b k hk
  histories b hb k := by
    by_cases hc : b = child
    · subst hc
      exact mem_index_child_iff hwf h.toRecordsMatch hchild k
    · have hindex : (t.withBranch child m r).index b = t.index b := by
        rw [index_withBranch, if_neg hc]
      rw [hindex, Recorded, dataOf_forkStore hc]
      simp only [restoredMerge_forkStore h.toRecordsMatch hchild]
      exact h.histories b ((mem_branches_withBranch.mp hb).resolve_left hc) k

end Fork

/-! ## Transitions and head moves -/

def DurableStore.rewriteRow (store : DurableStore) (r : Branch) (edit : BranchData → BranchData) :
    BranchRow :=
  branchRow r (edit (rebuiltData r (store.dataOf? r.id)))

/-- The row of `b` was rewritten from its live record `r`, and nothing else. -/
structure RowRewrite (t t' : Timeline) (store store' : DurableStore) (b : BranchId) (r : Branch)
    (edit : BranchData → BranchData) : Prop where
  live : t'.branches[b]? = some r
  own_id : r.id = b
  written : store'.branches = store.branches.insert b (store.rewriteRow r edit)
  same_rows : store'.events = store.events
  /-- The edit leaves what the fork gave, the state and the discarded sequences alone. -/
  edit_keeps : ∀ data, (edit data).inherited = data.inherited ∧ (edit data).state = data.state ∧
    (edit data).discarded = data.discarded
  others : ∀ c, c ≠ b → t'.branches[c]? = t.branches[c]?
  before : ∃ r₀, t.branches[b]? = some r₀ ∧ r.parent = r₀.parent

namespace RowRewrite

variable {t' : Timeline} {b : BranchId} {r : Branch} {edit : BranchData → BranchData}

section

variable (h : RowRewrite t t' store store' b r edit)

include h

theorem row :
    store'.branches[b]? = some (store.rewriteRow r edit) := by
  rw [h.written, OrderedMap.lookup_insert, if_pos rfl]

theorem dataOf_self : store'.dataOf b =
    edit { store.dataOf b with createdBy := .value r.createdBy, state := .value r.state } := by
  rw [DurableStore.dataOf_of_row h.row, ← h.own_id]
  rfl

theorem kept (hc : c ≠ b) :
    store'.branches[c]? = store.branches[c]? := by
  rw [h.written, OrderedMap.lookup_insert, if_neg hc]

theorem mem_branches (c : BranchId) :
    c ∈ t'.branches ↔ c ∈ t.branches := by
  by_cases hc : c = b
  · obtain ⟨r₀, hr₀, -⟩ := h.before
    rw [hc]
    exact iff_of_true (OrderedMap.mem_of_getElem? h.live) (OrderedMap.mem_of_getElem? hr₀)
  · rw [OrderedMap.mem_iff_exists, h.others c hc, OrderedMap.mem_iff_exists]

/-- What the fork gave a branch and what it discarded stay on record. -/
theorem data (c : BranchId) :
    (store'.dataOf c).inherited = (store.dataOf c).inherited ∧
      (store'.dataOf c).restoredDiscarded = (store.dataOf c).restoredDiscarded := by
  by_cases hc : c = b
  · rw [hc, h.dataOf_self, BranchData.restoredDiscarded, (h.edit_keeps _).1, (h.edit_keeps _).2.2]
    exact ⟨rfl, rfl⟩
  · rw [DurableStore.dataOf_congr (h.kept hc)]
    exact ⟨rfl, rfl⟩

theorem records (hm : RecordsMatch t store) :
    RecordsMatch t' store' := by
  refine hm.rewrite (@Rewrites.mk t t' store store' (· = b) ?_
    (fun c hc ↦ ⟨h.kept hc, h.others c hc⟩) h.mem_branches ?_)
  · rintro c rfl
    refine ⟨r, _, h.live, h.row, (h.edit_keeps _).2.1, (h.edit_keeps _).1.trans ?_⟩
    rw [← h.own_id]
    rfl
  · intro c r' hr'
    by_cases hc : c = b
    · subst hc
      obtain ⟨r₀, hr₀, hparent⟩ := h.before
      rw [Option.some_inj.mp (hr'.symm.trans h.live)]
      exact ⟨r₀, hr₀, hparent⟩
    · exact ⟨r', h.others c hc ▸ hr', rfl⟩

end

end RowRewrite

/-- **A rewritten row keeps the store in step** when no index and no merge changes. -/
theorem StoreMatches.rewriteRow {t' : Timeline} {b : BranchId}
    {edit : BranchData → BranchData} (h : StoreMatches t reserved store)
    (hr : RowRewrite t t' store store' b r edit)
    (hmerge : (store'.dataOf b).restoredMerge = (store.dataOf b).restoredMerge)
    (hevents : t'.events = t.events) (hindexes : t'.branchEvents = t.branchEvents)
    (hcounter : t'.eventCounter = t.eventCounter) : StoreMatches t' reserved store' where
  rows_stored row hrow := hevents ▸ h.rows_stored row (hr.same_rows ▸ hrow)
  events_written e ev hev := hr.same_rows ▸ h.events_written e ev (hevents ▸ hev)
  toRecordsMatch := hr.records h.toRecordsMatch
  discarded_spent c k hk := by
    rw [hcounter]
    exact h.discarded_spent c k ((hr.data c).2 ▸ hk)
  histories c hc k := by
    have hmerge' (c' : BranchId) :
        (store'.dataOf c').restoredMerge = (store.dataOf c').restoredMerge := by
      by_cases hc' : c' = b
      · rw [hc', hmerge]
      · rw [DurableStore.dataOf_congr (hr.kept hc')]
    have hindex : t'.index c = t.index c := by rw [Timeline.index, hindexes, Timeline.index]
    rw [hindex, h.histories c ((hr.mem_branches c).mp hc) k, Recorded, Recorded, hevents,
      (hr.data c).1, (hr.data c).2]
    simp only [hmerge']

theorem rowRewrite_setState (hwf : t.WellFormed reserved) {b : BranchId} {r₀ : Branch}
    (hr₀ : t.branches[b]? = some r₀) (state : BranchState) {t' : Timeline}
    (ht' : t'.branches = (t.setState b state).branches) (store : DurableStore)
    (edit : BranchData → BranchData)
    (hedit : ∀ data, (edit data).inherited = data.inherited ∧ (edit data).state = data.state ∧
      (edit data).discarded = data.discarded) :
    RowRewrite t t' store
      (store.saveBranch b (store.rewriteRow { r₀ with state } edit)) b { r₀ with state } edit where
  live := by rw [ht', setState_branches, if_pos rfl, hr₀, Option.map_some]
  own_id := hwf.branch_ids b r₀ hr₀
  written := rfl
  same_rows := rfl
  edit_keeps := hedit
  others c hc := by rw [ht', setState_branches, if_neg hc]
  before := ⟨r₀, hr₀, rfl⟩

def transitionEdit (mergedSequences : Option (List EventIndex)) (data : BranchData) : BranchData :=
  match mergedSequences with
  | none => data
  | some merged => { data with merged := .value merged }

theorem persistBranchTransition_eq {t' : Timeline} {b : BranchId}
    {merged : Option (List EventIndex)} (hr : t'.branches[b]? = some r) (hid : r.id = b)
    (hwrite : store.persistBranchTransition t' b merged = .ok store') :
    store' = store.saveBranch b (store.rewriteRow r (transitionEdit merged)) := by
  rw [DurableStore.persistBranchTransition, hr] at hwrite
  cases hwrite
  rw [DurableStore.rewriteRow, hid]
  cases merged <;> rfl

def headEdit (head : Option DurableHead) (data : BranchData) : BranchData :=
  { data with appliedHead := head.map fun head ↦ ⟨.value head.lastApplied, some head.tailEnd⟩ }

theorem persistAppliedHead_eq {t' : Timeline} {b : BranchId}
    {head : Option DurableHead} (hr : t'.branches[b]? = some r) (hid : r.id = b)
    (hwrite : store.persistAppliedHead t' b head = .ok store') :
    store' = store.saveBranch b (store.rewriteRow r (headEdit head)) := by
  rw [DurableStore.persistAppliedHead, hr] at hwrite
  cases hwrite
  rw [DurableStore.rewriteRow, hid]
  rfl

section

variable (hwf : t.WellFormed reserved)

include hwf

theorem exists_rowRewrite_head {t' : Timeline} {b : BranchId}
    {head : Option DurableHead} (hb : b ∈ t.branches) (hbranches : t'.branches = t.branches)
    (hwrite : store.persistAppliedHead t' b head = .ok store') :
    ∃ r, RowRewrite t t' store store' b r (headEdit head) := by
  obtain ⟨r, hr⟩ := OrderedMap.mem_iff_exists.mp hb
  have hid : r.id = b := hwf.branch_ids b r hr
  rw [persistAppliedHead_eq (hbranches ▸ hr) hid hwrite]
  exact ⟨r, hbranches ▸ hr, hid, rfl, rfl, fun _ ↦ ⟨rfl, rfl, rfl⟩, fun c _ ↦ by rw [hbranches],
    r, hr, rfl⟩

theorem exists_rowRewrite_merge {now : Timestamp} (hm : t.Mergeable source target)
    {inserted : List EventIndex}
    (hwrite : store.persistBranchTransition
      ((t.withEntries target entries).setState source (.merged target now)) source
      (some inserted) = .ok store') :
    ∃ r₀, t.branches[source]? = some r₀ ∧ r₀.state = .active ∧
      RowRewrite t ((t.withEntries target entries).setState source (.merged target now)) store
        store' source { r₀ with state := .merged target now } (transitionEdit (some inserted)) := by
  obtain ⟨r₀, hr₀, hstate₀⟩ := Option.map_eq_some_iff.mp hm.2.1
  have hr := @rowRewrite_setState _ _ hwf _ _ hr₀ (.merged target now)
    ((t.withEntries target entries).setState source (.merged target now)) rfl store
    (transitionEdit (some inserted)) fun _ ↦ ⟨rfl, rfl, rfl⟩
  rw [persistBranchTransition_eq hr.live hr.own_id hwrite]
  exact ⟨r₀, hr₀, hstate₀, hr⟩

theorem StoreMatches.abandon (h : StoreMatches t reserved store)
    {b : BranchId} {reason : String} (hactive : t.stateOf b = some .active)
    (hwrite : store.persistBranchTransition (t.setState b (.abandoned reason)) b none =
      .ok store') : StoreMatches (t.setState b (.abandoned reason)) reserved store' := by
  obtain ⟨r₀, hr₀, hstate₀⟩ := Option.map_eq_some_iff.mp hactive
  have hr := rowRewrite_setState hwf hr₀ (.abandoned reason) rfl store (transitionEdit none)
    fun _ ↦ ⟨rfl, rfl, rfl⟩
  rw [persistBranchTransition_eq hr.live hr.own_id hwrite]
  refine h.rewriteRow hr ?_ rfl rfl rfl
  rw [(hr.records h.toRecordsMatch).restoredMerge_eq_none,
    h.toRecordsMatch.restoredMerge_eq_none]
  · intro r into now hr' hmerged
    rw [Option.some_inj.mp (hr'.symm.trans hr₀), hstate₀] at hmerged
    cases hmerged
  · intro r into now hr' hmerged
    rw [Option.some_inj.mp (hr'.symm.trans hr.live)] at hmerged
    cases hmerged

/-- **A head move and its write.** -/
theorem StoreMatches.head (h : StoreMatches t reserved store)
    {t' : Timeline} {b : BranchId} {head : Option DurableHead} (hb : b ∈ t.branches)
    (hbranches : t'.branches = t.branches) (hevents : t'.events = t.events)
    (hindexes : t'.branchEvents = t.branchEvents) (hcounter : t'.eventCounter = t.eventCounter)
    (hwrite : store.persistAppliedHead t' b head = .ok store') :
    StoreMatches t' reserved store' := by
  obtain ⟨r, hrow⟩ := exists_rowRewrite_head hwf hb hbranches hwrite
  refine h.rewriteRow hrow ?_ hevents hindexes hcounter
  rw [hrow.dataOf_self]
  by_cases hmem : b ∈ store.branches
  · have hstate := h.states_written b r hmem (hbranches ▸ hrow.live)
    rw [BranchData.restoredMerge, BranchData.restoredMerge, hstate]
    rfl
  · rw [DurableStore.dataOf_of_not_mem hmem, BranchData.restoredMerge]
    simp only [BranchData.restoredState, BranchData.empty, Stored.value?]
    split <;> rfl

end

private theorem mem_insertedSequences (hwf : t.WellFormed reserved)
    (state : BranchState) (hcopies : t.Copies source target entries)
    (htarget : target ∈ t.branchEvents) (k : EventIndex) :
    k ∈ t.insertedSequences ((t.withEntries target entries).setState source state) target ↔
      k ∈ t.index source ∧ k ∉ t.index target := by
  rw [insertedSequences, List.mem_filter, Std.ExtTreeMap.mem_keys, decide_eq_true_eq]
  have hindex : k ∈ ((t.withEntries target entries).setState source state).index target ↔
      k ∈ t.index target ∨ target = target ∧ k ∈ t.index source :=
    mem_index_withEntries hwf hcopies htarget
  rw [hindex]
  constructor
  · rintro ⟨hold | ⟨-, hsource⟩, hnew⟩
    · exact absurd hold hnew
    · exact ⟨hsource, hnew⟩
  · rintro ⟨hsource, hnew⟩
    exact ⟨Or.inr ⟨rfl, hsource⟩, hnew⟩

private theorem exists_restoredMerge {store store' : DurableStore}
    {inserted : List EventIndex} (hold : (store.dataOf source).restoredMerge = none)
    (hnew : (store'.dataOf source).restoredMerge = some (target, inserted))
    (hkept : ∀ c, c ≠ source → store'.dataOf c = store.dataOf c) (c : BranchId) (k : EventIndex) :
    (∃ (c' : BranchId) (seqs : List EventIndex),
      (store'.dataOf c').restoredMerge = some (c, seqs) ∧ k ∈ seqs) ↔
    (∃ (c' : BranchId) (seqs : List EventIndex),
      (store.dataOf c').restoredMerge = some (c, seqs) ∧ k ∈ seqs) ∨
      c = target ∧ k ∈ inserted := by
  constructor
  · rintro ⟨c', seqs, hc', hk⟩
    by_cases hsource : c' = source
    · rw [hsource, hnew, Option.some_inj, Prod.mk.injEq] at hc'
      exact Or.inr ⟨hc'.1.symm, hc'.2 ▸ hk⟩
    · rw [hkept c' hsource] at hc'
      exact Or.inl ⟨c', seqs, hc', hk⟩
  · rintro (⟨c', seqs, hc', hk⟩ | ⟨rfl, hk⟩)
    · have hsource : c' ≠ source := by
        rintro rfl
        rw [hold] at hc'
        cases hc'
      exact ⟨c', seqs, by rw [hkept c' hsource, hc'], hk⟩
    · exact ⟨source, inserted, hnew, hk⟩

theorem StoreMatches.merge (hwf : t.WellFormed reserved) (h : StoreMatches t reserved store)
    {now : Timestamp}
    (hm : t.Mergeable source target) (hcopies : t.Copies source target entries)
    (hclean : ∀ k ∈ t.index source, k ∉ (store.dataOf target).restoredDiscarded)
    (hwrite : store.persistBranchTransition
      ((t.withEntries target entries).setState source (.merged target now)) source
      (some (t.insertedSequences
        ((t.withEntries target entries).setState source (.merged target now)) target)) =
      .ok store') :
    StoreMatches ((t.withEntries target entries).setState source (.merged target now)) reserved
      store' := by
  obtain ⟨r₀, hr₀, hstate₀, hr⟩ := exists_rowRewrite_merge hwf hm hwrite
  set t' := (t.withEntries target entries).setState source (.merged target now) with ht'
  have htarget : target ∈ t.branchEvents :=
    (hwf.branches_agree _).mp (mem_branches_of_stateOf hm.2.2)
  have hindex (c : BranchId) (k : EventIndex) :
      k ∈ t'.index c ↔ k ∈ t.index c ∨ c = target ∧ k ∈ t.index source :=
    mem_index_withEntries hwf hcopies htarget
  have hinserted := mem_insertedSequences hwf (.merged target now) hcopies htarget
  -- The source was still active, so its row told of no merge.
  have hmergeOld : (store.dataOf source).restoredMerge = none := by
    refine h.toRecordsMatch.restoredMerge_eq_none fun r into now hr' hmerged ↦ ?_
    rw [Option.some_inj.mp (hr'.symm.trans hr₀), hstate₀] at hmerged
    cases hmerged
  have hmergeNew : (store'.dataOf source).restoredMerge =
      some (target, t.insertedSequences t' target) := by
    rw [hr.dataOf_self]
    rfl
  have hmerge := exists_restoredMerge hmergeOld hmergeNew
    fun c hc ↦ DurableStore.dataOf_congr (hr.kept hc)
  refine
    { rows_stored := fun row hrow ↦ h.rows_stored row (hr.same_rows ▸ hrow)
      events_written := fun e ev hev ↦ hr.same_rows.symm ▸ h.events_written e ev hev
      toRecordsMatch := hr.records h.toRecordsMatch
      discarded_spent := fun c k hk ↦ h.discarded_spent c k ((hr.data c).2 ▸ hk)
      histories := fun c hc k ↦ ?_ }
  have hold := h.histories c ((hr.mem_branches c).mp hc) k
  rw [hindex, Recorded, (hr.data c).1, (hr.data c).2, hmerge]
  constructor
  · intro hk
    -- What stood before the merge is accounted for as it was; the rest the merge inserted.
    by_cases hstood : k ∈ t.index c
    · obtain ⟨hinherited | hown | hmerged, hnot⟩ := hold.mp hstood
      · exact ⟨Or.inl hinherited, hnot⟩
      · exact ⟨Or.inr (Or.inl hown), hnot⟩
      · exact ⟨Or.inr (Or.inr (Or.inl hmerged)), hnot⟩
    · obtain ⟨rfl, hsource⟩ := hk.resolve_left hstood
      exact ⟨Or.inr (Or.inr (Or.inr ⟨rfl, (hinserted k).mpr ⟨hsource, hstood⟩⟩)),
        hclean k hsource⟩
  · rintro ⟨hinherited | hown | hmerged | ⟨rfl, hnew⟩, hnot⟩
    · exact Or.inl (hold.mpr ⟨Or.inl hinherited, hnot⟩)
    · exact Or.inl (hold.mpr ⟨Or.inr (Or.inl hown), hnot⟩)
    · exact Or.inl (hold.mpr ⟨Or.inr (Or.inr hmerged), hnot⟩)
    · exact Or.inr ⟨rfl, ((hinserted k).mp hnew).1⟩

end Steps

/-! ## Runs -/

/-- No sequence of a successful merge's source is among the target's discarded ones. -/
def DurableRun.BringsBackNothing (s : DurableRun) : TimelineOp → Prop
  | .mergeBranches source target strategy now =>
    mergeSucceeded (s.run.timeline.mergeBranches source target strategy now) →
      ∀ k ∈ s.run.timeline.index source, k ∉ (s.store.dataOf target).restoredDiscarded
  | _ => True

section Runs

variable [UuidParser] {s : DurableRun} {store' : DurableStore}

omit [UuidParser] in
theorem remaining_none (reserved : List EventIndex) : remaining none reserved = reserved :=
  List.filter_eq_self.mpr fun _ _ ↦ rfl

theorem DurableRun.append_storeMatches (hwf : s.run.timeline.WellFormed s.run.reserved)
    (h : StoreMatches s.run.timeline s.run.reserved s.store) (operation : Operation)
    (author : Author) (b : BranchId) {taken : Option EventIndex} {eventId : EventId}
    (htaken : ∀ n, taken = some n → n ∈ s.run.reserved) (hid : eventId ∉ s.run.timeline.events)
    (hwrite : s.writeAppend (s.run.timeline.appendInternal operation author b taken eventId) =
      .ok store') :
    StoreMatches (s.run.timeline.appendInternal operation author b taken eventId).2
      (remaining taken s.run.reserved) store' := by
  obtain ⟨-, e, heq⟩ | ⟨hactive, discarded, t₁, hd, heq⟩ :=
    appendInternal_cases hwf operation author b taken eventId
  · rw [heq] at hwrite ⊢
    cases hwrite
    exact h.frame rfl rfl rfl le_rfl fun n hn ↦ Or.inl (List.mem_filter.mp hn).1
  rw [heq] at hwrite ⊢
  set ev := newEvent eventId (t₁.takeSequence taken).1 operation author b
  have hfiled : ((t₁.takeSequence taken).2.insertEvent ev).events[eventId]? = some ev := by
    rw [insertEvent_events]
    exact if_pos rfl
  simp only [DurableRun.writeAppend, hfiled] at hwrite
  obtain ⟨hevents, hcounter, hkept⟩ := discardRedoTail_frame hwf b
  rw [hd] at hevents hcounter hkept
  -- the store between the truncation and the new row
  obtain ⟨store₁, hstore₁, hrows, hbranches⟩ : ∃ store₁, StoreMatches t₁ s.run.reserved store₁ ∧
      store'.events.rows = store₁.events.rows ++ [.toEventData ev] ∧
      store'.branches = store₁.branches := by
    obtain ⟨-, heq'⟩ | ⟨head, cut, plan, branch, -, -, hp, hbranch, heq'⟩ :=
      discardRedoTail_cases hwf b
    · obtain ⟨hdiscard, rfl⟩ := Prod.mk.inj (hd.symm.trans heq')
      cases hdiscard
      obtain ⟨hrows, hbranches⟩ := DurableStore.persist_eq hwrite
      exact ⟨s.store, h, hrows, hbranches⟩
    · obtain ⟨hdiscard, rfl⟩ := Prod.mk.inj (hd.symm.trans heq')
      cases hdiscard
      obtain ⟨hrows, hbranches⟩ := DurableStore.persistDiscarding_eq hwrite
      refine ⟨⟨s.store.events.deleteAt _, store'.branches⟩, ?_, hrows, rfl⟩
      exact h.afterDiscard ⟨hwf, hp, hactive, hbranch, rfl, hbranches⟩
  have htaken' : (∀ b', ev.sequenceNumber ∉ (store₁.dataOf b').restoredDiscarded) ∧
      (t₁.takeSequence taken).2.branches = t₁.branches ∧
      (t₁.takeSequence taken).2.events = t₁.events ∧
      (t₁.takeSequence taken).2.branchEvents = t₁.branchEvents ∧
      t₁.eventCounter ≤ (t₁.takeSequence taken).2.eventCounter := by
    cases taken with
    | none =>
      refine ⟨fun b' hmem ↦ ?_, rfl, rfl, rfl, Nat.le_succ _⟩
      exact lt_irrefl _ (hstore₁.discarded_spent b' _ hmem).1
    | some n =>
      refine ⟨fun b' hmem ↦ ?_, rfl, rfl, rfl, le_rfl⟩
      exact (hstore₁.discarded_spent b' _ hmem).2 (htaken n rfl)
  obtain ⟨hnew, hbranches₂, hevents₂, hindexes₂, hcounter₂⟩ := htaken'
  have hstore₂ := hstore₁.frame hbranches₂ hevents₂ hindexes₂ hcounter₂
    (fun n hn ↦ Or.inl (List.mem_filter.mp hn).1 : ∀ n ∈ remaining taken s.run.reserved, _)
  refine hstore₂.insertEvent ?_ ?_ hnew hrows hbranches
  · have hb : b ∈ t₁.branches := hkept.mem (mem_branches_of_stateOf hactive)
    have hwf₁ := discardRedoTail_wellFormed b hwf
    rw [hd] at hwf₁
    rw [hindexes₂]
    exact (hwf₁.branches_agree b).mp hb
  · rw [hevents₂]
    intro hmem
    obtain ⟨ev', hev'⟩ := OrderedMap.mem_iff_exists.mp hmem
    exact hid (OrderedMap.mem_of_getElem? (hevents _ _ hev'))

omit [UuidParser] in
theorem DurableRun.fork_cases {name : String} {parent : BranchId} {forkPoint : Option EventIndex}
    {author : Author}
    (hwrite : s.writeFork name parent
      (s.run.timeline.createBranch name parent forkPoint author child) = .ok store') :
    ((s.run.timeline.createBranch name parent forkPoint author child).2 = s.run.timeline ∧
        store' = s.store) ∨
      ∃ (m : BranchIndex) (r : Branch), r.state = .active ∧
        (s.run.timeline.createBranch name parent forkPoint author child).2 =
          s.run.timeline.withBranch child m r ∧
        store' = s.store.persistBranch (s.run.timeline.withBranch child m r) child (some parent)
          r.forkPoint.eventIndex name r.createdBy := by
  obtain ⟨-, heq⟩ | ⟨-, heq⟩ :=
    createBranch_cases s.run.timeline name parent forkPoint author child
  · rw [heq] at hwrite ⊢
    cases hwrite
    exact Or.inl ⟨rfl, rfl⟩
  · set r : Branch := ⟨child, name, ⟨parent, s.run.timeline.forkIndexOf parent forkPoint⟩,
      some parent, .active, author, false⟩ with hr
    set m : BranchIndex :=
      (s.run.timeline.index parent).keep (· ≤ s.run.timeline.forkIndexOf parent forkPoint)
    have hlive : (s.run.timeline.withBranch child m r).branches[child]? = some r := by
      simp only [withBranch, OrderedMap.lookup_insert, if_true]
    have hwrite' : s.writeFork name parent (.ok child, s.run.timeline.withBranch child m r) =
        .ok store' := heq ▸ hwrite
    simp only [DurableRun.writeFork, hlive] at hwrite'
    cases hwrite'
    rw [heq]
    exact Or.inr ⟨m, r, rfl, rfl, rfl⟩

omit [UuidParser] in
private theorem fork_storeMatches (hwf : s.run.timeline.WellFormed s.run.reserved)
    (h : StoreMatches s.run.timeline s.run.reserved s.store) {name : String} {parent : BranchId}
    {forkPoint : Option EventIndex} {author : Author}
    (hchild : child ∉ s.run.timeline.branches)
    (hwrite : s.writeFork name parent
      (s.run.timeline.createBranch name parent forkPoint author child) = .ok store') :
    StoreMatches (s.run.timeline.createBranch name parent forkPoint author child).2 s.run.reserved
      store' := by
  obtain ⟨htimeline, rfl⟩ | ⟨m, r, hactive, htimeline, rfl⟩ := DurableRun.fork_cases hwrite
  · rw [htimeline]
    exact h
  · rw [htimeline]
    exact h.fork hwf hchild hactive r.forkPoint.eventIndex name

omit [UuidParser] in
private theorem merge_storeMatches (hwf : s.run.timeline.WellFormed s.run.reserved)
    (h : StoreMatches s.run.timeline s.run.reserved s.store)
    {strategy : MergeStrategy} {now : Timestamp}
    (hclean : mergeSucceeded (s.run.timeline.mergeBranches source target strategy now) →
      ∀ k ∈ s.run.timeline.index source, k ∉ (s.store.dataOf target).restoredDiscarded)
    (hwrite : s.writeMerge source target
      (s.run.timeline.mergeBranches source target strategy now) = .ok store') :
    StoreMatches (s.run.timeline.mergeBranches source target strategy now).2 s.run.reserved
      store' := by
  obtain ⟨e, heq⟩ | ⟨conflicts, -, heq⟩ | ⟨entries, hm, hcopies, heq⟩ :=
    mergeBranches_cases hwf source target strategy now
  · rw [heq] at hwrite ⊢
    cases hwrite
    exact h
  · rw [heq] at hwrite ⊢
    cases hwrite
    exact h
  · rw [heq] at hwrite hclean ⊢
    exact h.merge hwf hm hcopies (hclean rfl) hwrite

omit [UuidParser] in
private theorem abandon_storeMatches (hwf : s.run.timeline.WellFormed s.run.reserved)
    (h : StoreMatches s.run.timeline s.run.reserved s.store) {b : BranchId} {reason : String}
    {force : Bool}
    (hwrite : s.writeAbandon b (s.run.timeline.abandonBranch b reason force) = .ok store') :
    StoreMatches (s.run.timeline.abandonBranch b reason force).2 s.run.reserved store' := by
  obtain ⟨e, heq⟩ | ⟨hactive, heq⟩ := abandonBranch_cases s.run.timeline b reason force
  · rw [heq] at hwrite ⊢
    cases hwrite
    exact h
  · rw [heq] at hwrite ⊢
    exact h.abandon hwf hactive hwrite

omit [UuidParser] in
private theorem head_storeMatches (hwf : s.run.timeline.WellFormed s.run.reserved)
    (h : StoreMatches s.run.timeline s.run.reserved s.store) {b : BranchId} {count : EventIndex}
    (hwrite : s.writeHead b (s.run.timeline.setAppliedHead b count) = .ok store') :
    StoreMatches (s.run.timeline.setAppliedHead b count).2 s.run.reserved store' := by
  have hmoved {t' : Timeline} (hb : b ∈ s.run.timeline.branchEvents)
      (hbranches : t'.branches = s.run.timeline.branches)
      (hevents : t'.events = s.run.timeline.events)
      (hindexes : t'.branchEvents = s.run.timeline.branchEvents)
      (hcounter : t'.eventCounter = s.run.timeline.eventCounter)
      (hwrite : s.writeHead b (.ok (), t') = .ok store') :
      StoreMatches t' s.run.reserved store' := by
    rw [DurableRun.writeHead] at hwrite
    cases hhead : t'.durableHead b with
    | error e =>
      rw [hhead] at hwrite
      cases hwrite
      exact h.frame hbranches hevents hindexes hcounter.ge fun n hn ↦ Or.inl hn
    | ok head =>
      rw [hhead] at hwrite
      exact h.head hwf ((hwf.branches_agree b).mpr hb) hbranches hevents hindexes hcounter hwrite
  obtain ⟨e, heq⟩ | ⟨hb, -, heq⟩ | ⟨hb, -, heq⟩ := setAppliedHead_cases s.run.timeline b count
  · rw [heq] at hwrite ⊢
    cases hwrite
    exact h
  · rw [heq] at hwrite ⊢
    exact hmoved hb rfl rfl rfl rfl hwrite
  · rw [heq] at hwrite ⊢
    exact hmoved hb rfl rfl rfl rfl hwrite

omit [UuidParser] in
private theorem session_storeMatches {t t' : Timeline} {reserved : List EventIndex}
    {store : DurableStore} (h : StoreMatches t reserved store) {session : SessionId}
    (hmove : t' = t ∨ ∃ b i, t' = (t.updateSessionPosition session b i).2) :
    StoreMatches t' reserved store := by
  rcases hmove with rfl | ⟨b, i, rfl⟩
  · exact h
  · obtain ⟨e, heq⟩ | ⟨-, -, heq⟩ := updateSessionPosition_cases t session b i
    · rw [heq]
      exact h
    · rw [heq]
      exact h.frame rfl rfl rfl le_rfl fun n hn ↦ Or.inl hn

theorem DurableRun.exists_write {op : TimelineOp} (he : s.enabled op) :
    ∃ store', s.durableWrite op = .ok store' ∧ (s.step op).store = store' := by
  rcases hwrite : s.durableWrite op with e | store'
  · have hok := he.2.2
    rw [hwrite] at hok
    cases hok
  · exact ⟨store', rfl, by rw [DurableRun.step, hwrite]; rfl⟩

theorem DurableRun.step_storeMatches (hwf : s.run.timeline.WellFormed s.run.reserved)
    (h : StoreMatches s.run.timeline s.run.reserved s.store) {op : TimelineOp}
    (he : s.enabled op) (hg : s.BringsBackNothing op) :
    StoreMatches (s.step op).run.timeline (s.step op).run.reserved (s.step op).store := by
  obtain ⟨store', hwrite, hstep⟩ := DurableRun.exists_write he
  obtain ⟨hrun, hdurable, -⟩ := he
  rw [hstep]
  cases op with
  | reserveSequenceNumber =>
    cases hwrite
    refine h.frame rfl rfl rfl (Nat.le_succ _) fun n hn ↦ ?_
    rcases List.mem_cons.mp hn with rfl | hn
    · exact Or.inr le_rfl
    · exact Or.inl hn
  | addOperation operation author b eventId =>
    have hnone : ∀ n, (none : Option EventIndex) = some n → n ∈ s.run.reserved := nofun
    have happend := DurableRun.append_storeMatches hwf h operation author b hnone hrun hwrite
    rwa [remaining_none] at happend
  | addOperationReserved operation author b seq eventId =>
    refine DurableRun.append_storeMatches hwf h operation author b (fun n hn ↦ ?_) hrun.2 hwrite
    cases hn
    exact hrun.1
  | createBranch name parent forkPoint author branchId =>
    exact fork_storeMatches hwf h hrun hwrite
  | mergeBranches source target strategy now => exact merge_storeMatches hwf h hg hwrite
  | truncateBranch b cut force => exact hdurable.elim
  | abandonBranch b reason force => exact abandon_storeMatches hwf h hwrite
  | updateSessionPosition session b i =>
    cases hwrite
    exact session_storeMatches h (Or.inr ⟨b, i, rfl⟩)
  | setAppliedHead b count => exact head_storeMatches hwf h hwrite
  | undo session =>
    cases hwrite
    exact session_storeMatches h (undo_cases s.run.timeline session)
  | redo session =>
    cases hwrite
    exact session_storeMatches h (redo_cases s.run.timeline session)

/-- **A run that brings back nothing discarded keeps the store in step.** -/
theorem storeMatches_of_reachable {G : DurableRun → TimelineOp → Prop}
    (hG : ∀ s op, G s op → s.BringsBackNothing op) (h : durableSystem.ReachableUnder G s) :
    StoreMatches s.run.timeline s.run.reserved s.store :=
  h.invariant (fun s ↦ StoreMatches s.run.timeline s.run.reserved s.store) new_storeMatches
    fun _ _ hr hs he hg ↦
      DurableRun.step_storeMatches (durable_reachable_wellFormed hr) hs he (hG _ _ hg)

end Runs

/-! ## Rebuilding the histories -/

section Rebuilt

variable {t : Timeline} {reserved : List EventIndex} {store : DurableStore}

/-- The plan boot reads for a branch is its data blob, with or without a row. -/
theorem plan_of_store {b : BranchId} {plan : BranchPlan}
    (h : (restoreBranches store.loadBranches).plans[b]? = some plan) :
    plan.inherited = (store.dataOf b).inherited.value? ∧
      plan.merged = (store.dataOf b).restoredMerge ∧
      plan.appliedHead = (store.dataOf b).restoredHead ∧
      plan.tailEnd = (store.dataOf b).restoredTailEnd ∧
      plan.discarded = (store.dataOf b).restoredDiscarded := by
  rw [plans_loadBranches] at h
  cases hrow : store.branches[b]? with
  | none =>
    rw [hrow] at h
    obtain ⟨-, rfl⟩ := Option.ite_none_right_eq_some.mp h |>.imp_right Option.some_inj.mp
    rw [DurableStore.dataOf_of_not_mem (OrderedMap.not_mem_iff.mpr hrow)]
    exact ⟨rfl, rfl, rfl, rfl, rfl⟩
  | some row =>
    rw [hrow] at h
    obtain rfl := Option.some_inj.mp h
    rw [DurableStore.dataOf_of_row hrow]
    exact ⟨rfl, rfl, rfl, rfl, rfl⟩

theorem mem_plans_iff (hwf : t.WellFormed reserved) (h : StoreMatches t reserved store)
    (b : BranchId) : b ∈ (restoreBranches store.loadBranches).plans ↔ b ∈ t.branches := by
  rw [OrderedMap.mem_iff_exists, plans_loadBranches]
  cases hrow : store.branches[b]? with
  | some row => exact iff_of_true ⟨_, rfl⟩ (h.rows_known b (OrderedMap.mem_of_getElem? hrow))
  | none =>
    by_cases hb : b = .main
    · rw [hb]
      exact iff_of_true ⟨_, rfl⟩ hwf.main_present
    · simp only [hb, if_false]
      refine iff_of_false (fun ⟨_, hnone⟩ ↦ by cases hnone) fun hmem ↦ ?_
      have hsome := h.forks_written b hmem hb
      rw [DurableStore.dataOf_of_not_mem (OrderedMap.not_mem_iff.mpr hrow)] at hsome
      cases hsome

theorem plans_flat (hrows : ∀ (b : BranchId) (row : BranchRow), store.branches[b]? = some row →
      row.data.inherited.value?.isSome ∨ row.parentBranchId = none) (b : BranchId)
    (plan : BranchPlan) (hplan : (restoreBranches store.loadBranches).plans[b]? = some plan) :
    plan.Flat := by
  rw [plans_loadBranches] at hplan
  cases hrow : store.branches[b]? with
  | none =>
    rw [hrow] at hplan
    obtain ⟨-, rfl⟩ := Option.ite_none_right_eq_some.mp hplan |>.imp_right Option.some_inj.mp
    exact Or.inr rfl
  | some row =>
    rw [hrow] at hplan
    obtain rfl := Option.some_inj.mp hplan
    exact hrows b row hrow

theorem StoreMatches.rows_flat (h : StoreMatches t reserved store) (b : BranchId)
    (row : BranchRow) (hrow : store.branches[b]? = some row) :
    row.data.inherited.value?.isSome ∨ row.parentBranchId = none := by
  by_cases hb : b = .main
  · subst hb
    exact Or.inr (h.main_root.2 row hrow)
  · have hsome := h.forks_written b (h.rows_known b (OrderedMap.mem_of_getElem? hrow)) hb
    rw [DurableStore.dataOf_of_row hrow] at hsome
    exact Or.inl hsome

/-- **The history boot rebuilds for a branch holds what the rows record.** -/
theorem mem_recordedHistories (hwf : t.WellFormed reserved) (h : StoreMatches t reserved store)
    {b : BranchId} (hb : b ∈ t.branches) :
    ∃ history, (recordedHistories store.events store.loadBranches)[b]? = some history ∧
      ∀ k, k ∈ history ↔ t.Recorded store b k := by
  set plans := (restoreBranches store.loadBranches).plans with hplans
  have hmem : b ∈ plans := (mem_plans_iff hwf h b).mpr hb
  obtain ⟨plan, hplan⟩ := OrderedMap.mem_iff_exists.mp hmem
  obtain ⟨hinherited, -, -, -, hdiscarded⟩ := plan_of_store hplan
  refine ⟨_, branchHistories_of_flat (plans_flat h.rows_flat) hmem, fun k ↦ ?_⟩
  have hown : k ∈ (scanRows plans store.events.loadAllTimelineEvents).own.setAt b ↔
      ∃ (e : EventId) (ev : TimelineEvent),
        t.events[e]? = some ev ∧ ev.branchId = b ∧ ev.sequenceNumber = k := by
    rw [mem_setAt_own, and_iff_right hmem]
    constructor
    · rintro ⟨row, hrow, rfl, rfl⟩
      obtain ⟨ev, hev, rfl⟩ := h.rows_stored row (EventTable.mem_loadAllTimelineEvents.mp hrow)
      exact ⟨ev.id, ev, hev, rfl, (@EventRow.sequence_of_data (.toEventData ev) ev rfl).symm⟩
    · rintro ⟨e, ev, hev, rfl, rfl⟩
      exact ⟨_, EventTable.mem_loadAllTimelineEvents.mpr (h.events_written e ev hev), rfl,
        @EventRow.sequence_of_data (.toEventData ev) ev rfl⟩
  have hmerged : k ∈ (mergedIn plans).setAt b ↔ ∃ (c : BranchId) (seqs : List EventIndex),
      (store.dataOf c).restoredMerge = some (b, seqs) ∧ k ∈ seqs := by
    rw [mem_setAt_mergedIn]
    constructor
    · rintro ⟨c, plan', seqs, hplan', hmerge, hk⟩
      exact ⟨c, seqs, (plan_of_store hplan').2.1 ▸ hmerge, hk⟩
    · rintro ⟨c, seqs, hmerge, hk⟩
      by_cases hc : c ∈ store.branches
      · obtain ⟨plan', hplan'⟩ := OrderedMap.mem_iff_exists.mp
          ((mem_plans_iff hwf h c).mpr (h.rows_known c hc))
        exact ⟨c, plan', seqs, hplan', (plan_of_store hplan').2.1.trans hmerge, hk⟩
      · rw [DurableStore.dataOf_of_not_mem hc] at hmerge
        cases hmerge
  rw [mem_flatHistory hplan, hown, hmerged, hinherited, hdiscarded, Recorded]

end Rebuilt

/-- The histories boot rebuilds from the rows are the indexes in memory, branch by branch. -/
structure HistoriesRebuilt (t : Timeline) (store : DurableStore) : Prop where
  same_branches : ∀ b, b ∈ recordedHistories store.events store.loadBranches ↔ b ∈ t.branches
  same_sequences : ∀ (b : BranchId) (history : SequenceSet),
    (recordedHistories store.events store.loadBranches)[b]? = some history →
    history.toList = (t.index b).keys

theorem historiesRebuilt_of_matches {t : Timeline} {reserved : List EventIndex}
    {store : DurableStore} (hwf : t.WellFormed reserved) (h : StoreMatches t reserved store) :
    HistoriesRebuilt t store := by
  have hbranches (b : BranchId) :
      b ∈ recordedHistories store.events store.loadBranches ↔ b ∈ t.branches := by
    rw [recordedHistories, mem_branchHistories, mem_plans_iff hwf h]
  refine ⟨hbranches, fun b history hhistory ↦ ?_⟩
  have hb : b ∈ t.branches := (hbranches b).mp (OrderedMap.mem_of_getElem? hhistory)
  obtain ⟨history', hhistory', hmem⟩ := mem_recordedHistories hwf h hb
  obtain rfl := Option.some_inj.mp (hhistory.symm.trans hhistory')
  refine SortedPrefix.eq_of_mem_iff (OrderedSet.pairwise_lt_toList _)
    (OrderedMap.pairwise_lt_keys _) fun k ↦ ?_
  rw [Std.ExtTreeSet.mem_toList, Std.ExtTreeMap.mem_keys, hmem, h.histories b hb]

/-- **The history round trip**: after a run that brings back nothing discarded, boot rebuilds every
branch's history. -/
theorem histories_rebuilt_of_run [UuidParser] {s : DurableRun}
    (h : durableSystem.ReachableUnder DurableRun.BringsBackNothing s) :
    HistoriesRebuilt s.run.timeline s.store :=
  historiesRebuilt_of_matches (durable_reachable_wellFormed h)
    (storeMatches_of_reachable (fun _ _ hg ↦ hg) h)

instance [UuidParser] (s : DurableRun) : ∀ op, Decidable (s.BringsBackNothing op)
  | .mergeBranches source target strategy now =>
    decidable_of_iff (mergeSucceeded (s.run.timeline.mergeBranches source target strategy now) →
      ∀ k ∈ (s.run.timeline.index source).keys, k ∉ (s.store.dataOf target).restoredDiscarded) <| by
      simp only [Std.ExtTreeMap.mem_keys, DurableRun.BringsBackNothing]
  | .reserveSequenceNumber | .addOperation .. | .addOperationReserved .. | .createBranch ..
  | .truncateBranch .. | .abandonBranch .. | .updateSessionPosition .. | .setAppliedHead ..
  | .undo _ | .redo _ => isTrue trivial

/-- The state an example run with a store ends in. -/
def exampleDurableRun (ops : List TimelineOp) : DurableRun :=
  (@durableSystem noUuids).run ⟨⟨.new, []⟩, .empty⟩ ops

/-- A discard on main, and a merge of a branch that never held what was discarded. -/
theorem histories_rebuilt_of_example :
    HistoriesRebuilt
      (exampleDurableRun
        [.addOperation exampleOp .system .main (exampleEvent 1),
          .createBranch "side" .main none .system (exampleBranch 1),
          .addOperation exampleOp .system .main (exampleEvent 2),
          .setAppliedHead .main 1,
          .addOperation exampleOp .system .main (exampleEvent 3),
          .addOperation exampleOp .system (exampleBranch 1) (exampleEvent 4),
          .mergeBranches (exampleBranch 1) .main (.threeWay .manual) ⟨0⟩]).run.timeline
      (exampleDurableRun
        [.addOperation exampleOp .system .main (exampleEvent 1),
          .createBranch "side" .main none .system (exampleBranch 1),
          .addOperation exampleOp .system .main (exampleEvent 2),
          .setAppliedHead .main 1,
          .addOperation exampleOp .system .main (exampleEvent 3),
          .addOperation exampleOp .system (exampleBranch 1) (exampleEvent 4),
          .mergeBranches (exampleBranch 1) .main (.threeWay .manual) ⟨0⟩]).store :=
  letI := noUuids
  histories_rebuilt_of_run (.run .init (by decide))

/-- Main discards an event that a branch of a merged child still holds; the branch is merged
back. -/
def broughtBackRun : DurableRun := exampleDurableRun
  [.addOperation exampleOp .system .main (exampleEvent 1),
    .createBranch "side" .main none .system (exampleBranch 1),
    .addOperation exampleOp .system (exampleBranch 1) (exampleEvent 2),
    .mergeBranches (exampleBranch 1) .main .fastForward ⟨0⟩,
    .createBranch "other" (exampleBranch 1) none .system (exampleBranch 2),
    .setAppliedHead .main 1,
    .addOperation exampleOp .system .main (exampleEvent 3),
    .mergeBranches (exampleBranch 2) .main (.threeWay .manual) ⟨1⟩]

/-- The event a merge brings back is in the index, and gone from the history boot rebuilds. -/
theorem brought_back_not_rebuilt : (@durableSystem noUuids).Reachable broughtBackRun ∧
    (broughtBackRun.run.timeline.index .main).keys = [0, 1, 2] ∧
    ¬ HistoriesRebuilt broughtBackRun.run.timeline broughtBackRun.store := by
  refine ⟨@GuardedSystem.ReachableUnder.run _ _ (@durableSystem noUuids) _ _ .init _ (by decide),
    by decide, fun h ↦ ?_⟩
  set plans := (restoreBranches broughtBackRun.store.loadBranches).plans with hplans
  have hrows : ∀ e ∈ broughtBackRun.store.branches.toList,
      e.2.data.inherited.value?.isSome ∨ e.2.parentBranchId = none := by decide
  have hflat (b : BranchId) (row : BranchRow)
      (hrow : broughtBackRun.store.branches[b]? = some row) :
      row.data.inherited.value?.isSome ∨ row.parentBranchId = none :=
    hrows (b, row) (OrderedMap.mem_toList.mpr hrow)
  have hhistory : (recordedHistories broughtBackRun.store.events
      broughtBackRun.store.loadBranches)[BranchId.main]? = some (flatHistory plans
        (scanRows plans broughtBackRun.store.events.loadAllTimelineEvents).own .main) :=
    branchHistories_of_flat (plans_flat hflat) (by decide)
  have hlost := h.same_sequences _ _ hhistory
  exact absurd hlost (by decide)

end RosheraCad
