import RosheraCad.Durability.BootSound

/-!
# Boot serves no wrong prefix

What boot serves of the live branch is an ascending prefix of its history. Every entry of a recorded
history is restored, or refused with the live branch's tail, or named by a fault. A document without
event rows boots blank without looking at its branch records.
-/

namespace RosheraCad

/-! ## The faults of a restoration -/

namespace Restoring

variable {r : Restoring} {d : LoadedDocument} {checks : ReplayChecks}

theorem faults_attempt (b : BranchId) (message : String) (op : Timeline → Outcome Unit) :
    r.faults ⊆ (r.attempt b message op).faults := by
  rw [attempt]
  split
  · exact List.Subset.refl _
  · exact List.subset_append_left _ _

theorem faults_fileEntries (e : BranchId × SequenceSet) :
    r.faults ++ e.2.toList.filterMap (d.unfiledFault checks e.1) ⊆
      (r.fileEntries d checks e).faults := by
  rw [fileEntries]
  exact faults_attempt (r := ⟨_, _⟩) _ _ _

theorem faults_unfileEntries (e : BranchId × SequenceSet) :
    r.faults ⊆ (r.unfileEntries d checks e).faults := by
  rw [unfileEntries]
  split
  · exact List.Subset.refl _
  · exact faults_attempt _ _ _

theorem faults_restoreHead (e : BranchId × BranchPlan) :
    r.faults ⊆ (r.restoreHead e).faults := by
  rw [restoreHead]
  split
  · exact List.Subset.refl _
  · exact faults_attempt _ _ _

end Restoring

namespace LoadedDocument

variable {d : LoadedDocument} {checks : ReplayChecks}

/-- A fault found before the passes, or by the pass that files entries, is reported. -/
theorem mem_faults_restoration {fault : BranchFault}
    (h : fault ∈ d.faults ∨ ∃ e ∈ d.reconciled.histories.toList, ∃ k ∈ e.2,
      d.unfiledFault checks e.1 k = some fault) : fault ∈ (d.restoration checks).faults := by
  refine KeyedFold.mem_foldl_of_mem _ (fun _ e ↦ Restoring.faults_restoreHead e) (Or.inl ?_)
  refine KeyedFold.mem_foldl_of_mem _ (fun _ e ↦ Restoring.faults_unfileEntries e) (Or.inl ?_)
  have hkeeps (r : Restoring) (e : BranchId × SequenceSet) :
      r.faults ⊆ (r.fileEntries d checks e).faults :=
    fun _ hf ↦ Restoring.faults_fileEntries e (List.mem_append_left _ hf)
  refine KeyedFold.mem_foldl_of_mem _ hkeeps ?_
  rcases h with h | ⟨e, he, k, hk, hfault⟩
  · exact Or.inl (List.mem_append_left _ h)
  · refine Or.inr ⟨e, he, fun r ↦ Restoring.faults_fileEntries e (List.mem_append_right _ ?_)⟩
    exact List.mem_filterMap.mpr ⟨k, Std.ExtTreeSet.mem_toList.mpr hk, hfault⟩

theorem entry_accounted {table : EventTable} (h : d.Sound table) {b : BranchId} {k : EventIndex}
    (hk : k ∈ d.history b) :
    (∃ ev, ((d.restoration checks).timeline.index b)[k]? = some ev.id ∧
      d.RestoredAt checks k ev) ∨
      (b = .main ∧ d.refusedByLive checks k) ∨
      ∃ fault ∈ (d.restoration checks).faults, fault.branchId = b.toText ∧ fault.Names k := by
  have hb : b ∈ d.reconciled.histories := by
    by_contra hb
    rw [history, OrderedMap.setAt, OrderedMap.not_mem_iff.mp hb, Option.getD_none] at hk
    exact Std.ExtTreeSet.not_mem_empty hk
  obtain ⟨members, hmembers⟩ := OrderedMap.mem_iff_exists.mp hb
  have hhistory : d.history b = members := by
    rw [history, OrderedMap.setAt, hmembers, Option.getD_some]
  obtain ⟨plan, hplan⟩ := OrderedMap.mem_iff_exists.mp ((h.histories_planned b).mp hb)
  by_cases hrefused : b = .main ∧ d.refusedByLive checks k
  · exact Or.inr (Or.inl hrefused)
  by_cases hev : ∃ ev, d.RestoredAt checks k ev
  · obtain ⟨ev, hev⟩ := hev
    refine Or.inl ⟨ev, ?_, hev⟩
    exact (((restoration_spec h).2 b plan hplan).index k ev.id).mpr ⟨hk, hrefused, ev, hev, rfl⟩
  · refine Or.inr (Or.inr ?_)
    have hids : (d.restoredIds checks)[k]? = none := by
      refine Option.eq_none_iff_forall_ne_some.mpr fun p hp ↦ ?_
      obtain ⟨id, origin⟩ := p
      obtain ⟨ev, hev', -⟩ := (getElem?_restoredIds h).mp hp
      exact hev ⟨ev, hev'⟩
    -- What the live branch serves is restored, so the branch is another.
    have hside : b ≠ .main := by
      rintro rfl
      have hserved : ¬ d.refusedByLive checks k := fun hr ↦ hrefused ⟨rfl, hr⟩
      obtain ⟨ev, hbySeq⟩ := OrderedMap.mem_iff_exists.mp (mem_bySeq_of_not_refused hk hserved)
      have hseq : ev.sequenceNumber = k := h.events_numbered k ev hbySeq
      refine hev ⟨ev, hbySeq, restores_iff.mpr ⟨fun hr ↦ hserved (hseq ▸ hr.2), ?_⟩⟩
      exact hseq ▸ held_iff.mpr ⟨.main, hb, hk⟩
    obtain ⟨fault, hfault, hbranch, hnames⟩ : ∃ fault, d.unfiledFault checks b k = some fault ∧
        fault.branchId = b.toText ∧ fault.Names k := by
      rw [unfiledFault, if_neg hrefused, hids]
      simp only [if_neg hside]
      split
      · exact ⟨_, rfl, rfl, Or.inl rfl⟩
      · exact ⟨_, rfl, rfl, Or.inl rfl⟩
    refine ⟨fault, mem_faults_restoration (Or.inr ⟨(b, members), ?_, k, ?_, hfault⟩), hbranch,
      hnames⟩
    · exact OrderedMap.mem_toList.mpr hmembers
    · exact hhistory ▸ hk

end LoadedDocument

/-! ## The boot of a document with rows -/

section Boot

variable {checks : ReplayChecks} {table : EventTable} {records : List BranchRecord}

theorem bootReplay_of_rows (hrows : table.rows ≠ []) :
    (bootReplay checks table records).timeline =
        ((loadDocument table records).restoration checks).timeline ∧
      (bootReplay checks table records).served = (loadDocument table records).served checks ∧
      (bootReplay checks table records).status.boundary =
        (loadDocument table records).boundary checks ∧
      ∀ fault, fault ∈ (bootReplay checks table records).status.branchFaults ↔
        fault ∈ ((loadDocument table records).restoration checks).faults := by
  have hne : (loadDocument table records).rows ≠ [] := by
    intro hnil
    obtain ⟨row, hrow⟩ := List.exists_mem_of_ne_nil _ hrows
    have hmem : row ∈ (loadDocument table records).rows :=
      EventTable.mem_loadAllTimelineEvents.mpr hrow
    rw [hnil] at hmem
    cases hmem
  rw [bootReplay]
  split
  · next hnil => exact absurd hnil hne
  · cases hbound : (loadDocument table records).boundary checks with
    | none => exact ⟨rfl, rfl, rfl, fun fault ↦ List.mem_insertionSort _⟩
    | some bound => exact ⟨rfl, rfl, rfl, fun fault ↦ List.mem_insertionSort _⟩

theorem bootReplay_of_no_rows (hrows : table.rows = []) : bootReplay checks table records =
    ⟨.empty, (loadDocument table records).timeline, [], records⟩ := by
  have hnil : (loadDocument table records).rows = [] := by
    refine List.eq_nil_iff_forall_not_mem.mpr fun row hrow ↦ ?_
    have hmem := EventTable.mem_loadAllTimelineEvents.mp hrow
    rw [hrows] at hmem
    cases hmem
  rw [bootReplay, hnil]

theorem recordedHistories_of_no_rows (hrows : table.rows = [])
    (hnamed : ∀ b k, ¬ Named (restoreBranches records).plans b k) (b : BranchId) :
    (recordedHistories table records).setAt b = ∅ := by
  refine history_eq_empty (fun c ↦ ?_) hnamed b
  refine Std.ExtTreeSet.eq_empty_iff_forall_not_mem.mpr fun k hk ↦ ?_
  obtain ⟨-, row, hrow, -⟩ := mem_setAt_own.mp hk
  have hmem := EventTable.mem_loadAllTimelineEvents.mp hrow
  rw [hrows] at hmem
  cases hmem

theorem row_unique {k : EventIndex} (hk : k ∉ (loadDocument table records).scan.duplicates)
    {row row' : EventRow} (hrow : row ∈ table.rows) (hrow' : row' ∈ table.rows)
    (hseq : row.sequence = k) (hseq' : row'.sequence = k) : row = row' := by
  have hcount := mt ((LoadedDocument.loadDocument_sound table records).duplicates_read k).mpr hk
  rw [List.count_eq_countP, List.countP_map, List.countP_eq_length_filter, not_lt] at hcount
  have hmem {row : EventRow} (hrow : row ∈ table.rows) (hseq : row.sequence = k) :
      row ∈ (loadDocument table records).rows.filter ((· == k) ∘ EventRow.sequence) :=
    List.mem_filter.mpr ⟨EventTable.mem_loadAllTimelineEvents.mpr hrow, beq_iff_eq.mpr hseq⟩
  have h := hmem hrow hseq
  have h' := hmem hrow' hseq'
  obtain ⟨one, hone⟩ := List.length_eq_one_iff.mp
    (le_antisymm hcount (List.length_pos_of_mem h))
  rw [hone, List.mem_singleton] at h h'
  rw [h, h']

def DurabilityStatus.serves (status : DurabilityStatus) (k : EventIndex) : Bool :=
  status.boundary.all fun bound ↦ k < bound.sequence

/-- The entry of `b` at `k` is restored: it names a stored event of a row at that sequence. -/
def Boot.Restores (boot : Boot) (table : EventTable) (b : BranchId) (k : EventIndex) : Prop :=
  ∃ ev, (boot.timeline.index b)[k]? = some ev.id ∧ boot.timeline.events[ev.id]? = some ev ∧
    ∃ row ∈ table.rows, row.data = some ev ∧ row.sequence = k

/-- What a boot of these rows and records owes. -/
structure ServesHistory (checks : ReplayChecks) (table : EventTable)
    (records : List BranchRecord) : Prop where
  served_prefix : (bootReplay checks table records).served.map TimelineEvent.sequenceNumber <+:
    (loadDocument table records).liveHistory.toList
  served_ascending :
    ((bootReplay checks table records).served.map TimelineEvent.sequenceNumber).Pairwise (· < ·)
  served_cut : (bootReplay checks table records).served.map TimelineEvent.sequenceNumber =
    (loadDocument table records).liveHistory.toList.filter fun k ↦
      (bootReplay checks table records).status.serves k &&
        withinAppliedHead (loadDocument table records).liveHead k
  served_rows : ∀ ev ∈ (bootReplay checks table records).served,
    ∃ row ∈ table.rows, row.data = some ev ∧
      ∀ row' ∈ table.rows, row'.sequence = ev.sequenceNumber → row' = row
  served_applied : (bootReplay checks table records).timeline.appliedEntries .main =
    (bootReplay checks table records).served.map fun ev ↦ (ev.sequenceNumber, ev.id)
  live_recorded :
    ((loadDocument table records).liveHistory = (recordedHistories table records).setAt .main ∧
      (loadDocument table records).liveHead =
        (restoreBranches records).plans[BranchId.main]?.bind BranchPlan.appliedHead) ∨
    ∃ fault ∈ (bootReplay checks table records).status.branchFaults,
      fault.branchId = BranchId.main.toText ∧ fault.kind = .redoTailDiscardRecovered
  entries_accounted : ∀ (b : BranchId) (k : EventIndex),
    k ∈ (recordedHistories table records).setAt b →
      (bootReplay checks table records).Restores table b k ∨
      ¬ (bootReplay checks table records).status.serves k ∨
      ∃ fault ∈ (bootReplay checks table records).status.branchFaults,
        fault.branchId = b.toText ∧ fault.Names k
  counter_past : ∀ row ∈ table.rows,
    row.sequence < (bootReplay checks table records).timeline.eventCounter

theorem recorded_of_fresh {b : BranchId} {plan : BranchPlan}
    (hplan : (restoreBranches records).plans[b]? = some plan)
    (hfresh : plan.staleTail ((recordedHistories table records).setAt b) = none) :
    (loadDocument table records).history b = (recordedHistories table records).setAt b ∧
      (loadDocument table records).reconciled.plans[b]? = some plan := by
  have hb : b ∈ recordedHistories table records :=
    mem_branchHistories.mpr (OrderedMap.mem_of_getElem? hplan)
  constructor
  · exact (reconcile_histories hplan hb).trans (BranchPlan.reconciledHistory_of_fresh hfresh)
  · refine (reconcile_plans b).trans ?_
    rw [hplan]
    exact congrArg some (BranchPlan.reconciled_of_fresh hfresh)

theorem exists_fault_of_stale {b : BranchId} {plan : BranchPlan} {tail : List EventIndex}
    (hplan : (restoreBranches records).plans[b]? = some plan)
    (hstale : plan.staleTail ((recordedHistories table records).setAt b) = some tail) :
    ∃ fault ∈ (loadDocument table records).faults,
      fault.branchId = b.toText ∧ fault.kind = .redoTailDiscardRecovered := by
  refine ⟨staleHeadFault b tail, List.mem_append_right _ ?_, rfl, rfl⟩
  refine List.mem_map.mpr ⟨(b, tail), OrderedMap.mem_toList.mpr ?_, rfl⟩
  refine (reconcile_corrections b).trans ?_
  rw [hplan]
  exact hstale

theorem serves_of_rows (hrows : table.rows ≠ []) (k : EventIndex) :
    (bootReplay checks table records).status.serves k =
      !(loadDocument table records).refusedByLive checks k := by
  obtain ⟨-, -, hbound, -⟩ := @bootReplay_of_rows checks table records hrows
  rw [DurabilityStatus.serves, hbound, LoadedDocument.refusedByLive]
  cases (loadDocument table records).boundary checks with
  | none => rfl
  | some bound =>
    by_cases hk : k < bound.sequence
    · simp [hk, Nat.not_le.mpr hk]
    · simp [hk, Nat.not_lt.mp hk]

theorem entry_accounted_of_rows (hrows : table.rows ≠ []) {b : BranchId} {k : EventIndex}
    (hk : k ∈ (recordedHistories table records).setAt b) :
    (bootReplay checks table records).Restores table b k ∨
      ¬ (bootReplay checks table records).status.serves k ∨
      ∃ fault ∈ (bootReplay checks table records).status.branchFaults,
        fault.branchId = b.toText ∧ fault.Names k := by
  have h := LoadedDocument.loadDocument_sound table records
  obtain ⟨htimeline, -, -, hfaults⟩ :=
    @bootReplay_of_rows checks table records hrows
  have hb : b ∈ recordedHistories table records := by
    by_contra hb
    rw [OrderedMap.setAt, OrderedMap.not_mem_iff.mp hb, Option.getD_none] at hk
    exact Std.ExtTreeSet.not_mem_empty hk
  obtain ⟨plan, hplan⟩ := OrderedMap.mem_iff_exists.mp (mem_branchHistories.mp hb)
  by_cases hkept : k ∈ (loadDocument table records).history b
  · rcases @LoadedDocument.entry_accounted _ checks _ h _ _ hkept with
      ⟨ev, hindex, hev⟩ | ⟨-, hrefused⟩ | ⟨fault, hfault, hbranch, hnames⟩
    · left
      obtain ⟨row, hrow, hdata, hseq⟩ := h.events_read k ev hev.1
      have hstored := ((@LoadedDocument.restoration_spec _ _ checks h).1.events ev.id ev).mpr
        ⟨h.events_numbered k ev hev.1 ▸ hev, rfl⟩
      rw [Boot.Restores, htimeline]
      exact ⟨ev, hindex, hstored, row, hrow, hdata, hseq⟩
    · refine Or.inr (Or.inl ?_)
      rw [serves_of_rows hrows, hrefused]
      exact Bool.false_ne_true
    · exact Or.inr (Or.inr ⟨fault, (hfaults fault).mpr hfault, hbranch, hnames⟩)
  · -- Only a stale head's correction drops an entry, and it names what it drops.
    obtain ⟨fault, hfault, hbranch, -, hnames⟩ := exists_fault_of_dropped hplan hb hk hkept
    refine Or.inr (Or.inr ⟨fault, (hfaults fault).mpr ?_, hbranch, hnames⟩)
    exact LoadedDocument.mem_faults_restoration (Or.inl (List.mem_append_right _ hfault))

theorem servesHistory_of_rows (hrows : table.rows ≠ []) : ServesHistory checks table records := by
  have h := LoadedDocument.loadDocument_sound table records
  obtain ⟨htimeline, hserved, -, hfaults⟩ :=
    @bootReplay_of_rows checks table records hrows
  obtain ⟨hback, -⟩ := @LoadedDocument.restoration_spec _ _ checks h
  have hcut : (bootReplay checks table records).served.map TimelineEvent.sequenceNumber = _ :=
    hserved ▸ LoadedDocument.served_sequences h
  refine
    { served_prefix := hserved ▸ LoadedDocument.served_prefix h
      served_ascending := ?_
      served_cut := ?_
      served_rows := fun ev hev ↦ ?_
      served_applied := ?_
      live_recorded := ?_
      entries_accounted := fun b k hk ↦ ?_
      counter_past := fun row hrow ↦ ?_ }
  · rw [hcut]
    exact (OrderedSet.pairwise_lt_toList _).sublist List.filter_sublist
  · simp only [serves_of_rows hrows]
    exact hcut
  · rw [hserved] at hev
    obtain ⟨⟨hk, hbySeq⟩, hserved', -⟩ := (LoadedDocument.mem_served h).mp hev
    obtain ⟨row, hrow, hdata, hseq⟩ := h.events_read _ ev hbySeq
    refine ⟨row, hrow, hdata, fun row' hrow' hseq' ↦ ?_⟩
    exact row_unique (LoadedDocument.not_mem_duplicates_of_not_refused hk hserved') hrow' hrow
      hseq' hseq
  · rw [htimeline, hserved]
    exact LoadedDocument.live_appliedEntries h
  · obtain ⟨plan, hplan⟩ := OrderedMap.mem_iff_exists.mp (mem_reconcile_plans.mp h.live_planned)
    cases hstale : plan.staleTail ((recordedHistories table records).setAt .main) with
    | none =>
      obtain ⟨hhistory, hplan'⟩ := recorded_of_fresh hplan hstale
      refine Or.inl ⟨hhistory, ?_⟩
      rw [LoadedDocument.liveHead, hplan', hplan]
    | some tail =>
      obtain ⟨fault, hfault, hb, hk⟩ := exists_fault_of_stale hplan hstale
      refine Or.inr ⟨fault, (hfaults fault).mpr ?_, hb, hk⟩
      exact LoadedDocument.mem_faults_restoration (Or.inl hfault)
  · exact entry_accounted_of_rows hrows hk
  · rw [htimeline]
    exact hback.counter row (EventTable.mem_loadAllTimelineEvents.mpr hrow)

theorem not_accounted_of_no_rows (hrows : table.rows = []) (b : BranchId) (k : EventIndex) :
    ¬ ((bootReplay checks table records).Restores table b k ∨
      ¬ (bootReplay checks table records).status.serves k ∨
      ∃ fault ∈ (bootReplay checks table records).status.branchFaults,
        fault.branchId = b.toText ∧ fault.Names k) := by
  rw [bootReplay_of_no_rows hrows]
  rintro (⟨-, -, -, row, hrow, -⟩ | hserves | ⟨fault, hfault, -⟩)
  · rw [hrows] at hrow
    cases hrow
  · exact hserves rfl
  · cases hfault

/-- A boot without rows owes nothing when the records name nothing. -/
theorem servesHistory_of_no_names (hrows : table.rows = [])
    (hnamed : ∀ b k, ¬ Named (restoreBranches records).plans b k) :
    ServesHistory checks table records := by
  have h := LoadedDocument.loadDocument_sound table records
  have hempty (b : BranchId) : (recordedHistories table records).setAt b = ∅ :=
    recordedHistories_of_no_rows hrows hnamed b
  obtain ⟨plan, hplan⟩ := OrderedMap.mem_iff_exists.mp (mem_reconcile_plans.mp h.live_planned)
  have hfresh : plan.staleTail ((recordedHistories table records).setAt .main) = none := by
    rw [hempty]
    exact BranchPlan.staleTail_eq_none fun _ _ _ k hk ↦ absurd hk Std.ExtTreeSet.not_mem_empty
  obtain ⟨hhistory, hplan'⟩ := recorded_of_fresh hplan hfresh
  have hlive : (loadDocument table records).liveHistory = ∅ := hhistory.trans (hempty _)
  have hboot := @bootReplay_of_no_rows checks table records hrows
  have hnil : (bootReplay checks table records).served = [] := by rw [hboot]
  refine
    { served_prefix := by simp [hnil]
      served_ascending := by simp [hnil]
      served_cut := by simp [hnil, hlive]
      served_rows := fun ev hev ↦ by simp [hnil] at hev
      served_applied := ?_
      live_recorded := Or.inl ⟨hhistory, ?_⟩
      entries_accounted := fun b k hk ↦ ?_
      counter_past := fun row hrow ↦ by simp [hrows] at hrow }
  · rw [hboot, Timeline.appliedEntries, h.index_empty]
    exact List.take_nil
  · rw [LoadedDocument.liveHead, hplan', hplan]
  · rw [hempty] at hk
    exact absurd hk Std.ExtTreeSet.not_mem_empty

end Boot

/-- A kernel with no complaint about any event. -/
def acceptingChecks : ReplayChecks := ⟨fun _ ↦ none, fun _ ↦ [], fun _ ↦ [], fun _ ↦ []⟩

/-- The record of a branch forked from the main branch after its first event. -/
def forkedRecord : BranchRecord where
  branchId := .uuid ⟨1⟩
  parentBranchId := some .main
  forkSequence := 0
  name := "side"
  data := { BranchData.empty with
    createdBy := .value .system
    inherited := .value [0]
    state := .value .active }

end RosheraCad
