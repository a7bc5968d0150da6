import RosheraCad.Durability.RoundTrip
import RosheraCad.Durability.ServesHistory
import RosheraCad.Timeline.RedoTail

/-!
# Heads across a restart

An applied head is a count in memory and a sequence in the store. The two agree as long as the
entries the count names are those up to the stored sequence, and none stands above the stored tail
end. A merge moves neither, and inserts entries under old numbers.
-/

namespace RosheraCad

open Timeline

/-! ## A stored head -/

/-- The applied head of a branch is stored: the last sequence it counts, and a tail end no entry
exceeds. -/
inductive HeadStored (m : BranchIndex) : Option EventIndex → Option StoredHead → Prop
  | whole : HeadStored m none none
  | cut {count tailEnd : EventIndex} {last : Option EventIndex} :
      (m.keys.filter (withinAppliedHead (some last))).length = count →
      (∀ l, last = some l → l ∈ m) → (∀ k ∈ m, k ≤ tailEnd) →
      HeadStored m (some count) (some ⟨.value last, some tailEnd⟩)

variable {stored : Option StoredHead}

theorem HeadStored.applied {m : BranchIndex} {head : Option EventIndex}
    (h : HeadStored m head stored) : m.toList.take (head.getD m.size) =
      m.toList.filter fun e ↦
        withinAppliedHead (stored.bind fun stored ↦ stored.lastApplied.value?) e.1 := by
  cases h with
  | whole =>
    have hall : m.toList.filter (fun e ↦ withinAppliedHead none e.1) = m.toList :=
      List.filter_eq_self.mpr fun _ _ ↦ rfl
    rw [Option.getD_none, Option.bind_none, hall, ← Std.ExtTreeMap.length_toList, List.take_length]
  | @cut count tailEnd last hcount hlast hend =>
    have hlength : (m.keys.filter (withinAppliedHead (some last))).length =
        (m.toList.filter fun e ↦ withinAppliedHead (some last) e.1).length := by
      rw [← Std.ExtTreeMap.map_fst_toList_eq_keys, List.filter_map, List.length_map]
      rfl
    rw [Option.getD_some, ← hcount, hlength]
    exact SortedPrefix.take_length_filter (OrderedMap.pairwise_lt_toList m) fun e e' hlt ↦
      LoadedDocument.withinAppliedHead_mono (le_of_lt hlt)

/-- **A stored head survives entries inserted between what is applied and the end of the tail.** -/
theorem HeadStored.grow {m m' : BranchIndex} {head : Option EventIndex}
    (h : HeadStored m head stored) (hsub : ∀ k ∈ m, k ∈ m')
    (hnew : head.isSome → ∀ k ∈ m', k ∉ m →
      (∀ e ∈ m.toList.take (head.getD m.size), e.1 < k) ∧ ∃ l ∈ m, k < l) :
    HeadStored m' head stored := by
  have happlied := h.applied
  cases h with
  | whole => exact .whole
  | @cut count tailEnd last hcount hlast hend =>
    have hfilter : m'.keys.filter (withinAppliedHead (some last)) =
        m.keys.filter (withinAppliedHead (some last)) := by
      refine SortedPrefix.eq_of_mem_iff
        ((OrderedMap.pairwise_lt_keys m').sublist List.filter_sublist)
        ((OrderedMap.pairwise_lt_keys m).sublist List.filter_sublist) fun k ↦ ?_
      rw [List.mem_filter, List.mem_filter, Std.ExtTreeMap.mem_keys, Std.ExtTreeMap.mem_keys]
      refine and_congr_left fun hwithin ↦ ⟨fun hk ↦ ?_, hsub k⟩
      by_contra hkm
      obtain ⟨habove, -⟩ := hnew rfl k hk hkm
      -- an inserted entry is above the stored last one, which is applied
      cases last with
      | none => exact Bool.false_ne_true hwithin
      | some l =>
        obtain ⟨e, he⟩ := OrderedMap.mem_iff_exists.mp (hlast l rfl)
        have hle : (l, e) ∈ m.toList.take ((some count).getD m.size) := by
          rw [happlied]
          exact List.mem_filter.mpr ⟨OrderedMap.mem_toList.mpr he, decide_eq_true le_rfl⟩
        exact absurd (of_decide_eq_true hwithin) (Nat.not_le.mpr (habove _ hle))
    refine .cut (hfilter ▸ hcount) (fun l hl ↦ hsub l (hlast l hl)) fun k hk ↦ ?_
    by_cases hkm : k ∈ m
    · exact hend k hkm
    · obtain ⟨-, l, hl, hlt⟩ := hnew rfl k hk hkm
      exact hlt.le.trans (hend l hl)

theorem HeadStored.fresh {m : BranchIndex} {head : Option EventIndex}
    (h : HeadStored m head stored) {written : StoredHead} {tailEnd : EventIndex}
    (hwritten : stored = some written) (hend : written.tailEnd = some tailEnd) :
    ∀ k ∈ m, k ≤ tailEnd := by
  cases h with
  | whole => cases hwritten
  | cut hcount hlast hle =>
    obtain rfl := Option.some_inj.mp hwritten
    obtain rfl := Option.some_inj.mp hend
    exact hle

/-! ## The invariant -/

/-- The head of an active `b` is stored, and no entry stands above a stored tail end. -/
structure HeadMatches (t : Timeline) (store : DurableStore) (b : BranchId) : Prop where
  stored : t.stateOf b = some .active →
    HeadStored (t.index b) (t.appliedHead b) (store.dataOf b).appliedHead
  fresh : ∀ (head : StoredHead) (tailEnd : EventIndex), (store.dataOf b).appliedHead = some head →
    head.tailEnd = some tailEnd → ∀ k ∈ t.index b, k ≤ tailEnd

namespace HeadMatches

variable {t t' : Timeline} {store store' : DurableStore} {b : BranchId}

theorem of_stored (h : HeadStored (t.index b) (t.appliedHead b) (store.dataOf b).appliedHead) :
    HeadMatches t store b :=
  ⟨fun _ ↦ h, fun _ _ hhead hend ↦ h.fresh hhead hend⟩

theorem cleared (hhead : t.stateOf b = some .active → t.appliedHead b = none)
    (hstored : (store.dataOf b).appliedHead = none) : HeadMatches t store b := by
  refine ⟨fun hactive ↦ ?_, fun head tailEnd hsome ↦ ?_⟩
  · rw [hhead hactive, hstored]
    exact .whole
  · rw [hstored] at hsome
    cases hsome

theorem keep (h : HeadMatches t store b)
    (hstate : t'.stateOf b = some .active → t.stateOf b = some .active)
    (hindex : t'.index b = t.index b) (hhead : t'.appliedHead b = t.appliedHead b)
    (hstored : (store'.dataOf b).appliedHead = (store.dataOf b).appliedHead) :
    HeadMatches t' store' b := by
  refine ⟨fun hactive ↦ ?_, ?_⟩
  · rw [hindex, hhead, hstored]
    exact h.stored (hstate hactive)
  · rw [hindex, hstored]
    exact h.fresh

theorem stored_eq_none (h : HeadMatches t store b) (hactive : t.stateOf b = some .active)
    (hhead : t.appliedHead b = none) : (store.dataOf b).appliedHead = none := by
  have hstored := h.stored hactive
  rw [hhead] at hstored
  generalize (store.dataOf b).appliedHead = stored at hstored
  cases hstored with
  | whole => rfl

end HeadMatches

def HeadsMatch (t : Timeline) (store : DurableStore) : Prop := ∀ b, HeadMatches t store b

theorem new_headsMatch : HeadsMatch .new .empty := fun b ↦ by
  refine .cleared (fun _ ↦ ?_) ?_
  · simp [appliedHead, Timeline.new]
  · rw [DurableStore.dataOf_of_not_mem (by simp [DurableStore.empty])]
    rfl

/-! ## The operations -/

section Steps

variable {t : Timeline} {reserved : List EventIndex} {store store' : DurableStore} {b : BranchId}

/-- An operation that touches neither branches, indexes nor heads keeps the heads matched. -/
theorem HeadsMatch.frame {t' : Timeline} (h : HeadsMatch t store)
    (hbranches : t'.branches = t.branches) (hindexes : t'.branchEvents = t.branchEvents)
    (hheads : t'.appliedHeads = t.appliedHeads) : HeadsMatch t' store := fun b ↦ by
  refine (h b).keep (fun hactive ↦ ?_) ?_ ?_ rfl
  · rwa [stateOf, hbranches] at hactive
  · rw [Timeline.index, hindexes, Timeline.index]
  · rw [appliedHead, hheads, appliedHead]

theorem HeadsMatch.insertEvent {ev : TimelineEvent} (h : HeadsMatch t store)
    (hb : ev.branchId ∈ t.branchEvents) (hhead : t.appliedHead ev.branchId = none)
    (hstored : (store.dataOf ev.branchId).appliedHead = none)
    (hbranches : store'.branches = store.branches) : HeadsMatch (t.insertEvent ev) store' := by
  intro c
  have hdata : store'.dataOf c = store.dataOf c := DurableStore.dataOf_congr (by rw [hbranches])
  by_cases hc : c = ev.branchId
  · subst hc
    exact .cleared (fun _ ↦ hhead) (hdata ▸ hstored)
  · refine (h c).keep id ?_ rfl (by rw [hdata])
    rw [index_insertEvent hb, if_neg hc]

theorem HeadsMatch.afterDiscard {cut : EventIndex} {plan : TruncatePlan}
    {branch : Branch} (hwf : t.WellFormed reserved) (h : HeadsMatch t store)
    (hp : t.truncatePlan b cut = .ok plan)
    (hbranch : (t.applyTruncatePlan plan cut).branches[b]? = some branch)
    (hstore : store'.branches = store.branches.insertEntries
      (((t.discardReport plan cut branch).branch
        :: (t.discardReport plan cut branch).cascaded).map fun r ↦
          (r.id, store.discardedRow (t.discardReport plan cut branch).removedSequences r))) :
    HeadsMatch (t.afterDiscard b plan cut) store' ∧
      (t.afterDiscard b plan cut).appliedHead b = none ∧
      (store'.dataOf b).appliedHead = none := by
  obtain ⟨-, -, hplan, -, hcasc, -⟩ := truncatePlan_spec hp
  have hmemory : (t.afterDiscard b plan cut).appliedHead b = none := by
    rw [appliedHead, Timeline.afterDiscard, OrderedMap.lookup_erase, if_pos rfl]
  have hstored (c : BranchId) (hc : plan.Scrubs c) : (store'.dataOf c).appliedHead = none := by
    obtain ⟨r, -, hrow⟩ := (branches_discarded hwf hp hbranch hstore c).1 hc
    rw [DurableStore.dataOf_of_row hrow]
    rfl
  refine ⟨fun c ↦ ?_, hmemory, hstored b (Or.inl hplan.symm)⟩
  by_cases hcb : c = b
  · subst hcb
    exact .cleared (fun _ ↦ hmemory) (hstored c (Or.inl hplan.symm))
  have hstate : (t.afterDiscard b plan cut).branches[c]? =
      (t.applyTruncatePlan plan cut).branches[c]? := rfl
  rw [applyTruncatePlan_branches] at hstate
  by_cases hc : c ∈ plan.cascaded
  · -- the discard abandoned the child, which is why its head need not be kept
    refine .cleared (fun hactive ↦ ?_) (hstored c (Or.inr hc))
    obtain ⟨r₀, hr₀, -⟩ := mem_cascadedChildren.mp (hcasc ▸ hc)
    rw [stateOf, hstate, if_pos hc, hr₀, Option.map_some, Option.map_some] at hactive
    cases hactive
  · obtain ⟨hindexes, hhead, -⟩ := afterDiscard_frame hp hcb hc
    have hscrub : ¬ plan.Scrubs c := fun hs ↦ hs.elim (fun hs ↦ hcb (hs.trans hplan)) hc
    refine (h c).keep (fun hactive ↦ ?_) ?_ hhead ?_
    · rwa [stateOf, hstate, if_neg hc] at hactive
    · rw [Timeline.index, hindexes, Timeline.index]
    · rw [DurableStore.dataOf_congr ((branches_discarded hwf hp hbranch hstore c).2 hscrub)]

theorem HeadsMatch.fork (hwf : t.WellFormed reserved) (h : HeadsMatch t store)
    {child parent : BranchId} {m : BranchIndex} {r : Branch} (hchild : child ∉ t.branches)
    (fork : ℤ) (name : String) : HeadsMatch (t.withBranch child m r)
      (store.persistBranch (t.withBranch child m r) child (some parent) fork name r.createdBy) := by
  intro c
  by_cases hc : c = child
  · subst hc
    refine .cleared (fun _ ↦ ?_) ?_
    · refine Option.eq_none_iff_forall_ne_some.mpr fun head hhead ↦ ?_
      have hshort : head < (t.index c).size := hwf.heads_short c head hhead
      have hnone := OrderedMap.not_mem_iff.mp fun hmem ↦ hchild ((hwf.branches_agree c).mpr hmem)
      rw [Timeline.index, hnone] at hshort
      exact absurd hshort (Nat.not_lt_zero head)
    · rw [DurableStore.dataOf, DurableStore.dataOf?, DurableStore.persistBranch,
        DurableStore.saveBranch_branches, if_pos rfl]
      cases (t.withBranch c m r).branchEvents[c]? <;> rfl
  · refine (h c).keep (fun hactive ↦ ?_) ?_ rfl ?_
    · rwa [stateOf, withBranch, OrderedMap.lookup_insert, if_neg hc] at hactive
    · rw [index_withBranch, if_neg hc]
    · rw [DurableStore.dataOf, DurableStore.dataOf?, DurableStore.persistBranch,
        DurableStore.saveBranch_branches, if_neg hc]
      rfl

private theorem appliedHead_transition {t' : Timeline} {r : Branch}
    {merged : Option (List EventIndex)}
    (hr : RowRewrite t t' store store' b r (transitionEdit merged)) (c : BranchId) :
    (store'.dataOf c).appliedHead = (store.dataOf c).appliedHead := by
  by_cases hc : c = b
  · rw [hc, hr.dataOf_self]
    cases merged <;> rfl
  · rw [DurableStore.dataOf_congr (hr.kept hc)]

theorem HeadsMatch.abandon (hwf : t.WellFormed reserved) (h : HeadsMatch t store)
    {reason : String} (hactive : t.stateOf b = some .active)
    (hwrite : store.persistBranchTransition (t.setState b (.abandoned reason)) b none =
      .ok store') : HeadsMatch (t.setState b (.abandoned reason)) store' := by
  obtain ⟨r₀, hr₀, -⟩ := Option.map_eq_some_iff.mp hactive
  have hr := rowRewrite_setState hwf hr₀ (.abandoned reason) rfl store (transitionEdit none)
    fun _ ↦ ⟨rfl, rfl, rfl⟩
  rw [persistBranchTransition_eq hr.live hr.own_id hwrite]
  intro c
  refine (h c).keep (fun hafter ↦ ?_) rfl rfl (appliedHead_transition hr c)
  by_cases hc : c = b
  · rw [hc, hactive]
  · rwa [stateOf, hr.others c hc] at hafter

/-- **A merge** keeps the target's head when what is inserted lies between what it applies and the
end of its tail. -/
theorem HeadsMatch.merge (hwf : t.WellFormed reserved) (h : HeadsMatch t store)
    {source target : BranchId} {entries : EntrySequence} {now : Timestamp}
    (hm : t.Mergeable source target) (hcopies : t.Copies source target entries)
    (hinside : (t.appliedHead target).isSome → ∀ k ∈ t.index source, k ∉ t.index target →
      (∀ e ∈ t.appliedEntries target, e.1 < k) ∧ ∃ l ∈ t.index target, k < l)
    (hwrite : store.persistBranchTransition
      ((t.withEntries target entries).setState source (.merged target now)) source
      (some (t.insertedSequences
        ((t.withEntries target entries).setState source (.merged target now)) target)) =
      .ok store') :
    HeadsMatch ((t.withEntries target entries).setState source (.merged target now)) store' := by
  obtain ⟨r₀, -, -, hr⟩ := exists_rowRewrite_merge hwf hm hwrite
  set t' := (t.withEntries target entries).setState source (.merged target now) with ht'
  have htarget : target ∈ t.branchEvents :=
    (hwf.branches_agree _).mp (mem_branches_of_stateOf hm.2.2)
  have hindex (c : BranchId) (k : EventIndex) :
      k ∈ t'.index c ↔ k ∈ t.index c ∨ c = target ∧ k ∈ t.index source :=
    mem_index_withEntries hwf hcopies htarget
  intro c
  by_cases hc : c = target
  · subst hc
    refine .of_stored ?_
    rw [appliedHead_transition hr c]
    refine ((h c).stored hm.2.2).grow (fun k hk ↦ (hindex c k).mpr (Or.inl hk)) ?_
    intro hsome k hk hnew
    obtain hold | ⟨-, hsource⟩ := (hindex c k).mp hk
    · exact absurd hold hnew
    · exact hinside hsome k hsource hnew
  · refine (h c).keep (fun hafter ↦ ?_) ?_ rfl (appliedHead_transition hr c)
    · by_cases hs : c = source
      · rw [hs, hm.2.1]
      · rwa [stateOf, hr.others c hs] at hafter
    · have hother : t'.branchEvents[c]? = t.branchEvents[c]? := by
        have hmap : t'.branchEvents = (t.withEntries target entries).branchEvents := rfl
        rw [hmap, withEntries, OrderedMap.getElem?_modifyKeys, if_neg (by simpa using hc)]
      rw [Timeline.index, hother, Timeline.index]

theorem headStored_of_set {count : EventIndex} (hb : b ∈ t.branchEvents)
    (hhead : t.appliedHead b = some count) (hcount : count < (t.index b).size) :
    ∃ head, t.durableHead b = .ok (some head) ∧
      HeadStored (t.index b) (some count) (some ⟨.value head.lastApplied, some head.tailEnd⟩) := by
  obtain ⟨m, hm⟩ := OrderedMap.mem_iff_exists.mp hb
  rw [index_eq_of_getElem? hm] at hcount ⊢
  have hend : ∀ k ∈ m, k ≤ m.keys.max?.getD 0 := by
    intro k hk
    have hkeys := Std.ExtTreeMap.mem_keys.mpr hk
    cases hmax : m.keys.max? with
    | none => exact absurd hkeys (List.max?_eq_none_iff.mp hmax ▸ List.not_mem_nil)
    | some top => exact (List.max?_le_iff hmax).mp le_rfl k hkeys
  have htail : t.getBranchHead b = .ok (m.keys.max?.getD 0) := by rw [getBranchHead, hm]
  cases count with
  | zero =>
    refine ⟨⟨none, m.keys.max?.getD 0⟩, ?_, .cut ?_ (fun l hl ↦ ?_) hend⟩
    · simp only [durableHead, hhead, appliedHeadSequence, branchEventKeysSorted, hm, htail]
    · rw [List.length_eq_zero_iff, List.filter_eq_nil_iff]
      exact fun k _ ↦ Bool.false_ne_true
    · cases hl
  | succ last =>
    have hlt : last < m.keys.length := by
      rw [Std.ExtTreeMap.length_keys]
      exact Nat.lt_of_succ_lt hcount
    have hlast : m.keys[last]? = some m.keys[last] := List.getElem?_eq_getElem hlt
    refine ⟨⟨some m.keys[last], m.keys.max?.getD 0⟩, ?_, .cut ?_ ?_ hend⟩
    · simp only [durableHead, hhead, appliedHeadSequence, branchEventKeysSorted, hm, hlast, htail]
    · have htake := SortedPrefix.take_succ_eq_filter_le (OrderedMap.pairwise_lt_keys m) hlast
      have hfilter : m.keys.filter (withinAppliedHead (some (some m.keys[last]))) =
          m.keys.filter (· ≤ m.keys[last]) := rfl
      rw [hfilter, ← htake, List.length_take]
      exact Nat.min_eq_left hlt
    · rintro l hl
      rw [← Option.some_inj.mp hl, ← Std.ExtTreeMap.mem_keys]
      exact List.getElem_mem hlt

/-- **A head move**: the head is stored as it stands in memory. -/
theorem HeadsMatch.head (hwf : t.WellFormed reserved) (h : HeadsMatch t store) {t' : Timeline}
    {head : Option DurableHead} (hb : b ∈ t.branches)
    (hbranches : t'.branches = t.branches) (hindexes : t'.branchEvents = t.branchEvents)
    (hothers : ∀ c, c ≠ b → t'.appliedHead c = t.appliedHead c)
    (hhead : HeadStored (t'.index b) (t'.appliedHead b)
      (head.map fun head ↦ ⟨.value head.lastApplied, some head.tailEnd⟩))
    (hwrite : store.persistAppliedHead t' b head = .ok store') : HeadsMatch t' store' := by
  obtain ⟨r, hrow⟩ := exists_rowRewrite_head hwf hb hbranches hwrite
  intro c
  by_cases hc : c = b
  · subst hc
    refine .of_stored ?_
    rw [hrow.dataOf_self]
    exact hhead
  · refine (h c).keep (fun hactive ↦ ?_) ?_ (hothers c hc) ?_
    · rwa [stateOf, hbranches] at hactive
    · rw [Timeline.index, hindexes, Timeline.index]
    · rw [DurableStore.dataOf_congr (hrow.kept hc)]

end Steps

/-! ## Runs -/

/-- What a merge inserts into a branch with a redo tail lies above what is applied and below the
tail's end. -/
def DurableRun.InsertsInsideTail (s : DurableRun) : TimelineOp → Prop
  | .mergeBranches source target strategy now =>
    mergeSucceeded (s.run.timeline.mergeBranches source target strategy now) →
      (s.run.timeline.appliedHead target).isSome →
        ∀ k ∈ (s.run.timeline.index source).keys, k ∉ (s.run.timeline.index target).keys →
          (∀ e ∈ s.run.timeline.appliedEntries target, e.1 < k) ∧
            ∃ l ∈ (s.run.timeline.index target).keys, k < l
  | _ => True

/-- The operation brings back nothing discarded, and shifts no head. -/
def DurableRun.KeepsHeads (s : DurableRun) (op : TimelineOp) : Prop :=
  s.BringsBackNothing op ∧ s.InsertsInsideTail op

section Runs

variable [UuidParser] {s : DurableRun} {store' : DurableStore}

theorem DurableRun.append_headsMatch (hwf : s.run.timeline.WellFormed s.run.reserved)
    (h : HeadsMatch s.run.timeline s.store) (operation : Operation) (author : Author)
    (b : BranchId) (taken : Option EventIndex) (eventId : EventId)
    (hwrite : s.writeAppend (s.run.timeline.appendInternal operation author b taken eventId) =
      .ok store') :
    HeadsMatch (s.run.timeline.appendInternal operation author b taken eventId).2 store' := by
  obtain ⟨-, e, heq⟩ | ⟨hactive, discarded, t₁, hd, heq⟩ :=
    appendInternal_cases hwf operation author b taken eventId
  · rw [heq] at hwrite ⊢
    cases hwrite
    exact h
  rw [heq] at hwrite ⊢
  set ev := newEvent eventId (t₁.takeSequence taken).1 operation author b
  have hfiled : ((t₁.takeSequence taken).2.insertEvent ev).events[eventId]? = some ev := by
    rw [insertEvent_events]
    exact if_pos rfl
  simp only [DurableRun.writeAppend, hfiled] at hwrite
  -- with or without a redo tail, the branch has no head once its tail is gone
  obtain ⟨store₁, h₁, hhead, hstored, hbranches⟩ : ∃ store₁, HeadsMatch t₁ store₁ ∧
      t₁.appliedHead b = none ∧ (store₁.dataOf b).appliedHead = none ∧
      store'.branches = store₁.branches := by
    obtain ⟨hnone, heq'⟩ | ⟨head, cut, plan, branch, -, -, hp, hbranch, heq'⟩ :=
      discardRedoTail_cases hwf b
    · obtain ⟨hdiscard, rfl⟩ := Prod.mk.inj (hd.symm.trans heq')
      cases hdiscard
      obtain ⟨-, hbranches⟩ := DurableStore.persist_eq hwrite
      exact ⟨s.store, h, hnone, (h b).stored_eq_none hactive hnone, hbranches⟩
    · obtain ⟨hdiscard, rfl⟩ := Prod.mk.inj (hd.symm.trans heq')
      cases hdiscard
      obtain ⟨-, hbranches⟩ := DurableStore.persistDiscarding_eq hwrite
      obtain ⟨hafter, hhead, hstored⟩ := HeadsMatch.afterDiscard hwf h hp hbranch hbranches
      exact ⟨store', hafter, hhead, hstored, rfl⟩
  have htaken : (t₁.takeSequence taken).2.branches = t₁.branches ∧
      (t₁.takeSequence taken).2.branchEvents = t₁.branchEvents ∧
      (t₁.takeSequence taken).2.appliedHeads = t₁.appliedHeads := by
    cases taken <;> exact ⟨rfl, rfl, rfl⟩
  obtain ⟨hbranches₂, hindexes₂, hheads₂⟩ := htaken
  refine (h₁.frame hbranches₂ hindexes₂ hheads₂).insertEvent ?_ ?_ hstored hbranches
  · have hkept := (discardRedoTail_frame hwf b).2.2
    have hwf₁ := discardRedoTail_wellFormed b hwf
    rw [hd] at hkept hwf₁
    rw [hindexes₂]
    exact (hwf₁.branches_agree b).mp (hkept.mem (mem_branches_of_stateOf hactive))
  · exact (congrArg (·[b]?) hheads₂).trans hhead

omit [UuidParser] in
private theorem fork_headsMatch (hwf : s.run.timeline.WellFormed s.run.reserved)
    (h : HeadsMatch s.run.timeline s.store) {name : String} {parent : BranchId}
    {forkPoint : Option EventIndex} {author : Author} {child : BranchId}
    (hchild : child ∉ s.run.timeline.branches)
    (hwrite : s.writeFork name parent
      (s.run.timeline.createBranch name parent forkPoint author child) = .ok store') :
    HeadsMatch (s.run.timeline.createBranch name parent forkPoint author child).2 store' := by
  obtain ⟨htimeline, rfl⟩ | ⟨m, r, -, htimeline, rfl⟩ := DurableRun.fork_cases hwrite
  · rw [htimeline]
    exact h
  · rw [htimeline]
    exact h.fork hwf hchild r.forkPoint.eventIndex name

omit [UuidParser] in
private theorem merge_headsMatch (hwf : s.run.timeline.WellFormed s.run.reserved)
    (h : HeadsMatch s.run.timeline s.store) {source target : BranchId} {strategy : MergeStrategy}
    {now : Timestamp} (hinside : s.InsertsInsideTail (.mergeBranches source target strategy now))
    (hwrite : s.writeMerge source target
      (s.run.timeline.mergeBranches source target strategy now) = .ok store') :
    HeadsMatch (s.run.timeline.mergeBranches source target strategy now).2 store' := by
  obtain ⟨e, heq⟩ | ⟨conflicts, -, heq⟩ | ⟨entries, hm, hcopies, heq⟩ :=
    mergeBranches_cases hwf source target strategy now
  · rw [heq] at hwrite ⊢
    cases hwrite
    exact h
  · rw [heq] at hwrite ⊢
    cases hwrite
    exact h
  · simp only [DurableRun.InsertsInsideTail, Std.ExtTreeMap.mem_keys] at hinside
    rw [heq] at hwrite hinside ⊢
    exact h.merge hwf hm hcopies (hinside rfl) hwrite

omit [UuidParser] in
private theorem abandon_headsMatch (hwf : s.run.timeline.WellFormed s.run.reserved)
    (h : HeadsMatch s.run.timeline s.store) {b : BranchId} {reason : String} {force : Bool}
    (hwrite : s.writeAbandon b (s.run.timeline.abandonBranch b reason force) = .ok store') :
    HeadsMatch (s.run.timeline.abandonBranch b reason force).2 store' := by
  obtain ⟨e, heq⟩ | ⟨hactive, heq⟩ := abandonBranch_cases s.run.timeline b reason force
  · rw [heq] at hwrite ⊢
    cases hwrite
    exact h
  · rw [heq] at hwrite ⊢
    exact h.abandon hwf hactive hwrite

omit [UuidParser] in
private theorem head_headsMatch (hwf : s.run.timeline.WellFormed s.run.reserved)
    (h : HeadsMatch s.run.timeline s.store) {b : BranchId} {count : EventIndex}
    (hwrite : s.writeHead b (s.run.timeline.setAppliedHead b count) = .ok store') :
    HeadsMatch (s.run.timeline.setAppliedHead b count).2 store' := by
  obtain ⟨e, heq⟩ | ⟨hb, -, heq⟩ | ⟨hb, hlt, heq⟩ := setAppliedHead_cases s.run.timeline b count
  · rw [heq] at hwrite ⊢
    cases hwrite
    exact h
  · rw [heq] at hwrite ⊢
    have hhead : ({ s.run.timeline with
        appliedHeads := s.run.timeline.appliedHeads.erase b } : Timeline).appliedHead b = none := by
      rw [appliedHead, OrderedMap.lookup_erase, if_pos rfl]
    simp only [DurableRun.writeHead, durableHead, hhead] at hwrite
    refine h.head hwf ((hwf.branches_agree b).mpr hb) rfl rfl (fun c hc ↦ ?_) ?_ hwrite
    · rw [appliedHead, OrderedMap.lookup_erase, if_neg hc, appliedHead]
    · rw [hhead]
      exact .whole
  · rw [heq] at hwrite ⊢
    set t' : Timeline := { s.run.timeline with
      appliedHeads := s.run.timeline.appliedHeads.insert b count } with ht'
    have hhead : t'.appliedHead b = some count := by
      rw [appliedHead, OrderedMap.lookup_insert, if_pos rfl]
    obtain ⟨head, hdurable, hstored⟩ := @headStored_of_set t' b count hb hhead hlt
    simp only [DurableRun.writeHead, hdurable] at hwrite
    refine h.head hwf ((hwf.branches_agree b).mpr hb) rfl rfl (fun c hc ↦ ?_) ?_ hwrite
    · rw [appliedHead, OrderedMap.lookup_insert, if_neg hc, appliedHead]
    · rw [hhead]
      exact hstored

omit [UuidParser] in
private theorem session_headsMatch {t t' : Timeline} {store : DurableStore}
    (h : HeadsMatch t store) {session : SessionId}
    (hmove : t' = t ∨ ∃ b i, t' = (t.updateSessionPosition session b i).2) :
    HeadsMatch t' store := by
  rcases hmove with rfl | ⟨b, i, rfl⟩
  · exact h
  · obtain ⟨e, heq⟩ | ⟨-, -, heq⟩ := updateSessionPosition_cases t session b i
    · rw [heq]
      exact h
    · rw [heq]
      exact h.frame rfl rfl rfl

theorem DurableRun.step_headsMatch (hwf : s.run.timeline.WellFormed s.run.reserved)
    (h : HeadsMatch s.run.timeline s.store) {op : TimelineOp} (he : s.enabled op)
    (hinside : s.InsertsInsideTail op) : HeadsMatch (s.step op).run.timeline (s.step op).store := by
  obtain ⟨store', hwrite, hstep⟩ := DurableRun.exists_write he
  obtain ⟨hrun, hdurable, -⟩ := he
  rw [hstep]
  cases op with
  | reserveSequenceNumber =>
    cases hwrite
    exact h.frame rfl rfl rfl
  | addOperation operation author b eventId =>
    exact DurableRun.append_headsMatch hwf h operation author b none eventId hwrite
  | addOperationReserved operation author b seq eventId =>
    exact DurableRun.append_headsMatch hwf h operation author b (some seq) eventId hwrite
  | createBranch name parent forkPoint author branchId =>
    exact fork_headsMatch hwf h hrun hwrite
  | mergeBranches source target strategy now => exact merge_headsMatch hwf h hinside hwrite
  | truncateBranch b cut force => exact hdurable.elim
  | abandonBranch b reason force => exact abandon_headsMatch hwf h hwrite
  | updateSessionPosition session b i =>
    cases hwrite
    exact session_headsMatch h (Or.inr ⟨b, i, rfl⟩)
  | setAppliedHead b count => exact head_headsMatch hwf h hwrite
  | undo session =>
    cases hwrite
    exact session_headsMatch h (undo_cases s.run.timeline session)
  | redo session =>
    cases hwrite
    exact session_headsMatch h (redo_cases s.run.timeline session)

theorem headsMatch_of_reachable {G : DurableRun → TimelineOp → Prop}
    (hG : ∀ s op, G s op → s.InsertsInsideTail op) (h : durableSystem.ReachableUnder G s) :
    HeadsMatch s.run.timeline s.store :=
  h.invariant (fun s ↦ HeadsMatch s.run.timeline s.store) new_headsMatch
    fun _ _ hr hs he hg ↦
      DurableRun.step_headsMatch (durable_reachable_wellFormed hr) hs he (hG _ _ hg)

end Runs

/-! ## What a boot restores -/

/-- An entry of `b` at or past the boundary, which the live branch holds or recorded. -/
def Timeline.refusedAtBoot (t : Timeline) (d : LoadedDocument) (checks : ReplayChecks)
    (b : BranchId) (e : EventIndex × EventId) : Bool :=
  d.refusedByLive checks e.1 &&
    (decide (b = .main) || t.events[e.2]?.any fun ev ↦ ev.branchId = .main)

/-- The applied heads survive a restart. -/
structure HeadsSurvive (checks : ReplayChecks) (t : Timeline) (store : DurableStore) : Prop where
  no_correction : ∀ b, b ∉ (loadDocument store.events store.loadBranches).reconciled.corrections
  applied_history : ∀ b, t.stateOf b = some .active → ∃ plan,
    (loadDocument store.events store.loadBranches).reconciled.plans[b]? = some plan ∧
    ((loadDocument store.events store.loadBranches).history b).toList.filter
        (withinAppliedHead plan.appliedHead) = (t.appliedEntries b).map Prod.fst
  applied_restored : ∀ b, t.stateOf b = some .active →
    (bootReplay checks store.events store.loadBranches).timeline.appliedEntries b =
      (t.appliedEntries b).filter fun e ↦
        !t.refusedAtBoot (loadDocument store.events store.loadBranches) checks b e

section Survive

variable {t : Timeline} {reserved : List EventIndex} {store : DurableStore}

theorem bySeq_iff_stored (hwf : t.WellFormed reserved) (h : StoreMatches t reserved store)
    {k : EventIndex} {ev : TimelineEvent} :
    (loadDocument store.events store.loadBranches).scan.bySeq[k]? = some ev ↔
      t.events[ev.id]? = some ev ∧ ev.sequenceNumber = k := by
  have hstored {l : EventIndex} {ev' : TimelineEvent}
      (hev' : (loadDocument store.events store.loadBranches).scan.bySeq[l]? = some ev') :
      t.events[ev'.id]? = some ev' ∧ ev'.sequenceNumber = l := by
    obtain ⟨row, hrow, hdata, -, -⟩ := row_of_bySeq hev'
    obtain ⟨ev'', hev'', rfl⟩ := h.rows_stored row (EventTable.mem_loadAllTimelineEvents.mp hrow)
    obtain rfl : ev'' = ev' := Option.some_inj.mp hdata
    exact ⟨hev'', sequence_of_bySeq hev'⟩
  refine ⟨hstored, fun ⟨hev, hseq⟩ ↦ ?_⟩
  have hplan := (mem_plans_iff hwf h ev.branchId).mpr (hwf.origins_exist _ ev hev)
  have hmem := mem_bySeq_of_row (EventTable.mem_loadAllTimelineEvents.mpr
    (h.events_written _ ev hev)) rfl hplan
  rw [@EventRow.sequence_of_data (.toEventData ev) ev rfl, hseq] at hmem
  obtain ⟨ev', hev'⟩ := OrderedMap.mem_iff_exists.mp hmem
  obtain ⟨hstored', hseq'⟩ := hstored hev'
  have hid : ev'.id = ev.id :=
    hwf.sequences_unique _ _ ev' ev hstored' hev (hseq'.trans hseq.symm)
  rw [hid, hev] at hstored'
  exact Option.some_inj.mp hstored' ▸ hev'

theorem index_restoration (hwf : t.WellFormed reserved) (h : StoreMatches t reserved store)
    (checks : ReplayChecks) {b : BranchId} {plan : BranchPlan}
    (hplan : (loadDocument store.events store.loadBranches).reconciled.plans[b]? = some plan)
    (hhistory : ∀ k, k ∈ (loadDocument store.events store.loadBranches).history b ↔
      k ∈ t.index b) :
    (((loadDocument store.events store.loadBranches).restoration checks).timeline.index b).toList =
      (t.index b).toList.filter fun e ↦
        !t.refusedAtBoot (loadDocument store.events store.loadBranches) checks b e := by
  set d := loadDocument store.events store.loadBranches with hd
  have hsound : d.Sound store.events := LoadedDocument.loadDocument_sound _ _
  have hback := (@LoadedDocument.restoration_spec _ _ checks hsound).2 b plan hplan
  refine OrderedMap.toList_eq_of_pairwise
    ((OrderedMap.pairwise_lt_toList _).sublist List.filter_sublist) fun k e ↦ ?_
  rw [hback.index, hhistory, List.mem_filter, OrderedMap.mem_toList, Bool.not_eq_true',
    Bool.eq_false_iff, ne_eq]
  have hrefused {ev : TimelineEvent} (hev : t.events[e]? = some ev) :
      t.refusedAtBoot d checks b (k, e) ↔
        d.refusedByLive checks k ∧ (b = .main ∨ ev.branchId = .main) := by
    simp only [Timeline.refusedAtBoot, hev, Option.any_some, Bool.and_eq_true, Bool.or_eq_true,
      decide_eq_true_eq]
  constructor
  · rintro ⟨hk, hlive, ev, ⟨hbySeq, hrestores⟩, rfl⟩
    obtain ⟨hev, hseq⟩ := (bySeq_iff_stored hwf h).mp hbySeq
    obtain ⟨e', he'⟩ := OrderedMap.mem_iff_exists.mp hk
    obtain ⟨ev', hev', hseq'⟩ := hwf.entries_resolve b k e' he'
    obtain rfl : e' = ev.id := hwf.sequences_unique _ _ ev' ev hev' hev (hseq'.trans hseq.symm)
    refine ⟨he', fun hboth ↦ ?_⟩
    -- Refused on the live branch, or refused as the live branch's own.
    obtain ⟨hpast, hmain | hmain⟩ := (hrefused hev).mp hboth
    · exact hlive ⟨hmain, hpast⟩
    · exact (LoadedDocument.restores_iff.mp hrestores).1 ⟨hmain, hseq.symm ▸ hpast⟩
  · rintro ⟨he, hnot⟩
    obtain ⟨ev, hev, hseq⟩ := hwf.entries_resolve b k e he
    obtain rfl : ev.id = e := hwf.event_ids e ev hev
    rw [hrefused hev] at hnot
    have hk : k ∈ t.index b := OrderedMap.mem_of_getElem? he
    refine ⟨hk, fun hlive ↦ hnot ⟨hlive.2, Or.inl hlive.1⟩, ev,
      ⟨(bySeq_iff_stored hwf h).mpr ⟨hev, hseq⟩, ?_⟩, rfl⟩
    refine LoadedDocument.restores_iff.mpr ⟨fun hmain ↦ ?_, LoadedDocument.held_iff.mpr ⟨b, ?_, ?_⟩⟩
    · exact hnot ⟨hseq ▸ hmain.2, Or.inr hmain.1⟩
    · exact (hsound.histories_planned b).mpr (OrderedMap.mem_of_getElem? hplan)
    · rw [hseq, hhistory]
      exact hk

theorem headsSurvive_of_matches (hwf : t.WellFormed reserved) (h : StoreMatches t reserved store)
    (hheads : HeadsMatch t store) (checks : ReplayChecks) : HeadsSurvive checks t store := by
  set d := loadDocument store.events store.loadBranches with hd
  have hsound : d.Sound store.events := LoadedDocument.loadDocument_sound _ _
  -- no head is stale, so every plan and every history stays as recorded
  have hfresh {b : BranchId} {plan : BranchPlan}
      (hplan : (restoreBranches store.loadBranches).plans[b]? = some plan) :
      plan.staleTail ((recordedHistories store.events store.loadBranches).setAt b) = none := by
    obtain ⟨-, -, hhead, htail, -⟩ := plan_of_store hplan
    refine BranchPlan.staleTail_eq_none fun tailEnd hend hsome k hk ↦ ?_
    rw [htail, BranchData.restoredTailEnd] at hend
    obtain ⟨head, hstored, hend⟩ := Option.bind_eq_some_iff.mp hend
    refine (hheads b).fresh head tailEnd hstored hend k ?_
    have hb : b ∈ t.branches := (mem_plans_iff hwf h b).mp (OrderedMap.mem_of_getElem? hplan)
    obtain ⟨history, hhistory, hmem⟩ := mem_recordedHistories hwf h hb
    rw [OrderedMap.setAt, hhistory, Option.getD_some, hmem] at hk
    exact (h.histories b hb k).mpr hk
  have hkept {b : BranchId} (hb : b ∈ t.branches) : ∃ plan, d.reconciled.plans[b]? = some plan ∧
      plan.appliedHead = (store.dataOf b).restoredHead ∧
      ∀ k, k ∈ d.history b ↔ k ∈ t.index b := by
    obtain ⟨plan, hplan⟩ := OrderedMap.mem_iff_exists.mp ((mem_plans_iff hwf h b).mpr hb)
    obtain ⟨hhistory, hreconciled⟩ := recorded_of_fresh hplan (hfresh hplan)
    obtain ⟨-, -, hhead, -⟩ := plan_of_store hplan
    refine ⟨plan, hreconciled, hhead, fun k ↦ ?_⟩
    obtain ⟨history, hhistory', hmem⟩ := mem_recordedHistories hwf h hb
    rw [hhistory, OrderedMap.setAt, hhistory', Option.getD_some, hmem]
    exact (h.histories b hb k).symm
  have happlied {b : BranchId} (hactive : t.stateOf b = some .active) :
      t.appliedEntries b = (t.index b).toList.filter fun e ↦
        withinAppliedHead (store.dataOf b).restoredHead e.1 :=
    ((hheads b).stored hactive).applied
  refine ⟨fun b ↦ ?_, fun b hactive ↦ ?_, fun b hactive ↦ ?_⟩
  · rw [OrderedMap.not_mem_iff]
    refine (reconcile_corrections b).trans ?_
    cases hplan : (restoreBranches store.loadBranches).plans[b]? with
    | none => rfl
    | some plan => exact hfresh hplan
  · obtain ⟨plan, hplan, hhead, hmem⟩ := hkept (mem_branches_of_stateOf hactive)
    refine ⟨plan, hplan, ?_⟩
    have hkeys : (d.history b).toList = (t.index b).keys :=
      SortedPrefix.eq_of_mem_iff (OrderedSet.pairwise_lt_toList _) (OrderedMap.pairwise_lt_keys _)
        fun k ↦ by rw [Std.ExtTreeSet.mem_toList, Std.ExtTreeMap.mem_keys, hmem]
    rw [hkeys, happlied hactive, hhead, ← Std.ExtTreeMap.map_fst_toList_eq_keys, List.filter_map]
    rfl
  · obtain ⟨plan, hplan, hhead, hmem⟩ := hkept (mem_branches_of_stateOf hactive)
    by_cases hrows : store.events.rows = []
    · -- a document without rows has no entry to restore
      have hempty : t.appliedEntries b = [] := by
        refine List.eq_nil_iff_forall_not_mem.mpr ?_
        rintro ⟨k, e⟩ hke
        obtain ⟨ev, hev, -⟩ := hwf.entries_resolve b k e
          (OrderedMap.mem_toList.mp (List.mem_of_mem_take hke))
        have hrow := h.events_written e ev hev
        rw [hrows] at hrow
        cases hrow
      rw [bootReplay_of_no_rows hrows, hempty, List.filter_nil, appliedEntries,
        hsound.index_empty]
      exact List.take_nil
    · rw [(bootReplay_of_rows hrows).1]
      have hback := (@LoadedDocument.restoration_spec _ _ checks hsound).2 b plan hplan
      rw [hback.appliedEntries, index_restoration hwf h checks hplan hmem, hhead,
        happlied hactive, List.filter_filter, List.filter_filter]
      exact List.filter_congr fun e _ ↦ Bool.and_comm _ _

end Survive

/-- **The heads survive** a run that shifts no head and brings back nothing discarded. -/
theorem heads_survive_of_run [UuidParser] {s : DurableRun}
    (h : durableSystem.ReachableUnder DurableRun.KeepsHeads s) (checks : ReplayChecks) :
    HeadsSurvive checks s.run.timeline s.store :=
  headsSurvive_of_matches (durable_reachable_wellFormed h)
    (storeMatches_of_reachable (fun _ _ hg ↦ hg.1) h)
    (headsMatch_of_reachable (fun _ _ hg ↦ hg.2) h) checks

instance [UuidParser] (s : DurableRun) : ∀ op, Decidable (s.InsertsInsideTail op)
  | .mergeBranches source target strategy now =>
    inferInstanceAs (Decidable (mergeSucceeded
      (s.run.timeline.mergeBranches source target strategy now) →
        (s.run.timeline.appliedHead target).isSome →
          ∀ k ∈ (s.run.timeline.index source).keys, k ∉ (s.run.timeline.index target).keys →
            (∀ e ∈ s.run.timeline.appliedEntries target, e.1 < k) ∧
              ∃ l ∈ (s.run.timeline.index target).keys, k < l))
  | .reserveSequenceNumber | .addOperation .. | .addOperationReserved .. | .createBranch ..
  | .truncateBranch .. | .abandonBranch .. | .updateSessionPosition .. | .setAppliedHead ..
  | .undo _ | .redo _ => isTrue trivial

instance [UuidParser] (s : DurableRun) (op : TimelineOp) : Decidable (s.KeepsHeads op) :=
  inferInstanceAs (Decidable (_ ∧ _))

/-- Main has its last two events undone while a branch forked before the last is merged into it. -/
theorem heads_survive_of_example : HeadsSurvive acceptingChecks
    (exampleDurableRun
      [.addOperation exampleOp .system .main (exampleEvent 1),
        .addOperation exampleOp .system .main (exampleEvent 2),
        .createBranch "side" .main none .system (exampleBranch 1),
        .addOperation exampleOp .system (exampleBranch 1) (exampleEvent 3),
        .addOperation exampleOp .system .main (exampleEvent 4),
        .setAppliedHead .main 1,
        .mergeBranches (exampleBranch 1) .main (.threeWay .manual) ⟨0⟩]).run.timeline
    (exampleDurableRun
      [.addOperation exampleOp .system .main (exampleEvent 1),
        .addOperation exampleOp .system .main (exampleEvent 2),
        .createBranch "side" .main none .system (exampleBranch 1),
        .addOperation exampleOp .system (exampleBranch 1) (exampleEvent 3),
        .addOperation exampleOp .system .main (exampleEvent 4),
        .setAppliedHead .main 1,
        .mergeBranches (exampleBranch 1) .main (.threeWay .manual) ⟨0⟩]).store :=
  letI := noUuids
  heads_survive_of_run (.run .init (by decide)) acceptingChecks

/-- Main has an event undone while a branch with a later event is merged into it. -/
def mergedAboveTailRun : DurableRun := exampleDurableRun
  [.addOperation exampleOp .system .main (exampleEvent 1),
    .addOperation exampleOp .system .main (exampleEvent 2),
    .createBranch "side" .main (some 0) .system (exampleBranch 1),
    .addOperation exampleOp .system (exampleBranch 1) (exampleEvent 3),
    .setAppliedHead .main 1,
    .mergeBranches (exampleBranch 1) .main (.threeWay .manual) ⟨0⟩]

private theorem mergedAboveTailRun_history :
    (recordedHistories mergedAboveTailRun.store.events
      mergedAboveTailRun.store.loadBranches)[BranchId.main]? =
    some (flatHistory (restoreBranches mergedAboveTailRun.store.loadBranches).plans
      (scanRows (restoreBranches mergedAboveTailRun.store.loadBranches).plans
        mergedAboveTailRun.store.events.loadAllTimelineEvents).own .main) := by
  have hrows : ∀ e ∈ mergedAboveTailRun.store.branches.toList,
      e.2.data.inherited.value?.isSome ∨ e.2.parentBranchId = none := by decide
  have hflat (b : BranchId) (row : BranchRow)
      (hrow : mergedAboveTailRun.store.branches[b]? = some row) :
      row.data.inherited.value?.isSome ∨ row.parentBranchId = none :=
    hrows (b, row) (OrderedMap.mem_toList.mpr hrow)
  exact branchHistories_of_flat (plans_flat hflat) (by decide)

/-- One event of main is applied; boot takes the merged event for an append after the undo, and
drops the undone one. -/
theorem merge_above_tail_resets_head : (@durableSystem noUuids).Reachable mergedAboveTailRun ∧
    mergedAboveTailRun.run.timeline.stateOf .main = some .active ∧
    (mergedAboveTailRun.run.timeline.appliedEntries .main).map Prod.fst = [0] ∧
    (∀ plan, (loadDocument mergedAboveTailRun.store.events
        mergedAboveTailRun.store.loadBranches).reconciled.plans[BranchId.main]? = some plan →
      ((loadDocument mergedAboveTailRun.store.events
        mergedAboveTailRun.store.loadBranches).history .main).toList.filter
          (withinAppliedHead plan.appliedHead) = [0, 2]) ∧
    ∀ checks, ¬ HeadsSurvive checks mergedAboveTailRun.run.timeline mergedAboveTailRun.store := by
  have happlied : (mergedAboveTailRun.run.timeline.appliedEntries .main).map Prod.fst = [0] := by
    decide
  have hactive : mergedAboveTailRun.run.timeline.stateOf .main = some .active := by decide
  set plans := (restoreBranches mergedAboveTailRun.store.loadBranches).plans with hplans
  set own := (scanRows plans mergedAboveTailRun.store.events.loadAllTimelineEvents).own with hown
  have hcut : (plans[BranchId.main]?.map fun plan ↦
      ((plan.reconciledHistory (flatHistory plans own .main)).toList.filter
        (withinAppliedHead (plan.reconciled (flatHistory plans own .main)).appliedHead))) =
      some [0, 2] := by decide
  have hboot : ∀ plan, (loadDocument mergedAboveTailRun.store.events
      mergedAboveTailRun.store.loadBranches).reconciled.plans[BranchId.main]? = some plan →
      ((loadDocument mergedAboveTailRun.store.events
        mergedAboveTailRun.store.loadBranches).history .main).toList.filter
          (withinAppliedHead plan.appliedHead) = [0, 2] := by
    intro plan hplan
    obtain ⟨plan₀, hplan₀, hcut⟩ := Option.map_eq_some_iff.mp hcut
    have hhistory := mergedAboveTailRun_history
    have hset : (recordedHistories mergedAboveTailRun.store.events
        mergedAboveTailRun.store.loadBranches).setAt .main = flatHistory plans own .main := by
      rw [OrderedMap.setAt, hhistory, Option.getD_some]
    have hkept := reconcile_histories hplan₀ (OrderedMap.mem_of_getElem? hhistory)
    -- The plan boot arrives at is the one evaluated above, reconciled.
    have hreconciled := (reconcile_plans BranchId.main).symm.trans hplan
    rw [hplan₀, Option.map_some, Option.some_inj] at hreconciled
    rw [← hcut, ← hreconciled]
    have hsame : (loadDocument mergedAboveTailRun.store.events
        mergedAboveTailRun.store.loadBranches).history .main =
        plan₀.reconciledHistory (flatHistory plans own .main) := hset ▸ hkept
    rw [hsame]
    exact congrArg (fun h ↦ (plan₀.reconciledHistory (flatHistory plans own .main)).toList.filter
      (withinAppliedHead (plan₀.reconciled h).appliedHead)) hset
  refine ⟨@GuardedSystem.ReachableUnder.run _ _ (@durableSystem noUuids) _ _ .init _ (by decide),
    hactive, happlied, hboot, fun checks h ↦ ?_⟩
  obtain ⟨plan, hplan, heq⟩ := h.applied_history .main hactive
  rw [hboot plan hplan, happlied] at heq
  exact absurd heq (by decide)

end RosheraCad
