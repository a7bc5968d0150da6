import RosheraCad.Timeline.Reachable

/-!
# The redo tail along append, fork and merge

An append discards the redo tail; a fork copies the parent's index up to its largest key, whatever
part of it is applied; a merge files the source's entries anywhere in the target's order and leaves
the count alone.
-/

namespace RosheraCad

namespace Timeline

/-! ## The discard, map by map -/

section Discard

variable {t : Timeline} {b : BranchId} {head cut : EventIndex} {plan : TruncatePlan}
  {reserved : List EventIndex}

theorem appliedEntries_of_head (hhead : t.appliedHead b = some head) :
    t.appliedEntries b = (t.index b).toList.take head := by
  rw [appliedEntries, hhead, Option.getD_some]

theorem undoneEntries_of_head (hhead : t.appliedHead b = some head) :
    t.undoneEntries b = (t.index b).toList.drop head := by
  rw [undoneEntries, hhead, Option.getD_some]

theorem appliedEntries_of_no_head (hhead : t.appliedHead b = none) :
    t.appliedEntries b = (t.index b).toList := by
  rw [appliedEntries, hhead, Option.getD_none, ← Std.ExtTreeMap.length_toList, List.take_length]

section

variable (hp : t.truncatePlan b cut = .ok plan)

include hp

theorem index_afterDiscard_self (hcut : (t.index b).keys[head]? = some cut) :
    (t.afterDiscard b plan cut).index b = (t.index b).first head := by
  obtain ⟨-, -, hbranch, -, -, -⟩ := truncatePlan_spec hp
  have hscrub : plan.Scrubs b := Or.inl hbranch.symm
  have hindex : (t.afterDiscard b plan cut).index b = (t.applyTruncatePlan plan cut).index b := rfl
  rw [hindex, OrderedMap.first_eq_keep_lt hcut]
  refine OrderedMap.ext_lookup fun k ↦ ?_
  rw [getElem?_index_applyTruncatePlan, OrderedMap.getElem?_keep]
  simp only [hscrub, true_and, mem_removedKeys hp, decide_eq_true_eq]
  by_cases hk : k ∈ t.index b
  · rcases lt_or_ge k cut with hlt | hge
    · rw [if_pos hlt, if_neg fun hmem ↦ absurd hlt (not_lt.mpr hmem.2)]
    · rw [if_pos ⟨hk, hge⟩, if_neg (not_lt.mpr hge)]
  · rw [if_neg fun hmem ↦ hk hmem.1, OrderedMap.not_mem_iff.mp hk, ite_self]

theorem not_cascaded_of_stateOf {c : BranchId}
    (hstate : (t.afterDiscard b plan cut).stateOf c = t.stateOf c) : c ∉ plan.cascaded := by
  intro hc
  obtain ⟨-, -, -, -, hcasc, -⟩ := truncatePlan_spec hp
  obtain ⟨r, hr, -, -, hactive⟩ := mem_cascadedChildren.mp (hcasc ▸ hc)
  have hafter : (t.afterDiscard b plan cut).branches[c]? =
      (t.applyTruncatePlan plan cut).branches[c]? := rfl
  rw [stateOf, stateOf, hafter, applyTruncatePlan_branches, if_pos hc, hr, Option.map_some,
    Option.map_some, Option.map_some, hactive] at hstate
  cases hstate

theorem afterDiscard_frame {c : BranchId} (hne : c ≠ b) (hc : c ∉ plan.cascaded) :
    (t.afterDiscard b plan cut).branchEvents[c]? = t.branchEvents[c]? ∧
      (t.afterDiscard b plan cut).appliedHead c = t.appliedHead c ∧
      ∀ (k : EventIndex) (e : EventId), (t.index c)[k]? = some e →
        (t.afterDiscard b plan cut).events[e]? = t.events[e]? := by
  obtain ⟨-, -, hbranch, -, -, -⟩ := truncatePlan_spec hp
  have hscrub : ¬ plan.Scrubs c := fun h ↦ h.elim (fun h ↦ hne (h.trans hbranch)) hc
  refine ⟨?_, ?_, fun k e hk ↦ ?_⟩
  · have hmap : (t.afterDiscard b plan cut).branchEvents =
        (t.applyTruncatePlan plan cut).branchEvents := rfl
    rw [hmap, applyTruncatePlan_branchEvents, if_neg hscrub]
  · rw [appliedHead, afterDiscard, OrderedMap.lookup_erase, if_neg hne,
      applyTruncatePlan_appliedHeads]
    simp only [hscrub, false_and, not_false_eq_true, decide_true]
    cases h : t.appliedHeads[c]? with
    | none => exact h.symm
    | some head => exact h.symm
  · refine @applyTruncatePlan_event_of_indexed t k e c plan b cut hp ?_
    rw [getElem?_index_applyTruncatePlan, if_neg fun h ↦ hscrub h.1, hk]

end

end Discard

/-! ## An append past an applied head -/

/-- What an append of `eventId` at sequence `seq` leaves, when `b` had `head` entries applied. -/
structure AppendedAtHead (t t' : Timeline) (b : BranchId) (head seq : EventIndex)
    (eventId : EventId) : Prop where
  history : t'.index b = ((t.index b).first head).insert seq eventId
  new_entry_last : (∀ p ∈ (t.index b).toList.take head, p.1 < seq) →
    (t'.index b).toList = (t.index b).toList.take head ++ [(seq, eventId)]
  head_cleared : t'.appliedHead b = none
  /-- A branch the discard did not abandon keeps its index, its head and its events. -/
  others_kept : ∀ c, c ≠ b → t'.stateOf c = t.stateOf c →
    t'.branchEvents[c]? = t.branchEvents[c]? ∧ t'.appliedHead c = t.appliedHead c ∧
      ∀ (k : EventIndex) (e : EventId), (t.index c)[k]? = some e → t'.events[e]? = t.events[e]?
  referenced_kept : ∀ (c : BranchId) (k : EventIndex) (e : EventId), (t'.index c)[k]? = some e →
    e ≠ eventId → ∃ ev, t.events[e]? = some ev ∧ t'.events[e]? = some ev

section Append

variable [UuidParser] {t : Timeline} {b : BranchId} {head : EventIndex} {operation : Operation}
  {author : Author} {taken : Option EventIndex} {eventId : EventId} {reserved : List EventIndex}

omit [UuidParser] in
private theorem takeSequence_eq (t : Timeline) (taken : Option EventIndex) :
    (t.takeSequence taken).1 = taken.getD t.eventCounter ∧
      ∃ counter, (t.takeSequence taken).2 = { t with eventCounter := counter } := by
  cases taken with
  | none => exact ⟨rfl, _, rfl⟩
  | some seq => exact ⟨rfl, t.eventCounter, rfl⟩

omit [UuidParser] in
private theorem appendedAtHead_insertEvent {t₂ : Timeline} {cut : EventIndex} {plan : TruncatePlan}
    {ev : TimelineEvent} {reserved' : List EventIndex} (h : t.WellFormed reserved)
    (hbe : b ∈ t.branchEvents) (hp : t.truncatePlan b cut = .ok plan)
    (hcut : (t.index b).keys[head]? = some cut)
    (ht₂ : ∃ counter, t₂ = { t.afterDiscard b plan cut with eventCounter := counter })
    (hbranch : ev.branchId = b) (hid : ev.id ∉ t.events)
    (hwf : (t₂.insertEvent ev).WellFormed reserved') :
    AppendedAtHead t (t₂.insertEvent ev) b head ev.sequenceNumber ev.id := by
  obtain ⟨counter, rfl⟩ := ht₂
  set t₂ : Timeline := { t.afterDiscard b plan cut with eventCounter := counter }
  have hmem : ev.branchId ∈ t₂.branchEvents := by
    rw [hbranch]
    exact @mem_branchEvents_afterDiscard t b plan cut b |>.mpr hbe
  have hindex (c : BranchId) : t₂.index c = (t.afterDiscard b plan cut).index c := rfl
  have hne {e : EventId} (he : e ∈ t.events) : e ≠ ev.id := by
    rintro rfl
    exact hid he
  have hhistory : (t₂.insertEvent ev).index b =
      ((t.index b).first head).insert ev.sequenceNumber ev.id := by
    rw [index_insertEvent hmem, if_pos hbranch.symm, hindex, index_afterDiscard_self hp hcut]
  refine ⟨hhistory, fun hlt ↦ ?_, ?_, fun c hcb hstate ↦ ?_, fun c k e hk he ↦ ?_⟩
  · rw [hhistory, OrderedMap.toList_insert_of_lt fun k hk ↦ ?_, OrderedMap.toList_first]
    obtain ⟨e, he⟩ := OrderedMap.mem_iff_exists.mp hk
    exact hlt (k, e) ((OrderedMap.getElem?_first _ _ _ _).mp he)
  · have hheads : (t₂.insertEvent ev).appliedHead b = (t.afterDiscard b plan cut).appliedHead b :=
      rfl
    rw [hheads, appliedHead, afterDiscard, OrderedMap.lookup_erase, if_pos rfl]
  · have hc : c ∉ plan.cascaded := not_cascaded_of_stateOf hp hstate
    obtain ⟨hevents, hheads, hkept⟩ := afterDiscard_frame hp hcb hc
    refine ⟨?_, hheads, fun k e hk ↦ ?_⟩
    · rw [insertEvent_branchEvents, if_neg (hbranch ▸ hcb)]
      exact hevents
    · obtain ⟨ev', hev', -⟩ := h.entries_resolve c k e hk
      rw [insertEvent_events, if_neg (hne (OrderedMap.mem_of_getElem? hev'))]
      exact hkept k e hk
  · -- An entry that is not the new one's names an event that was stored before.
    obtain ⟨ev', hev', -⟩ := hwf.entries_resolve c k e hk
    refine ⟨ev', ?_, hev'⟩
    rw [insertEvent_events, if_neg he] at hev'
    exact @events_of_applyTruncatePlan t e plan cut ev' hev'

/-- **An append discards the redo tail and nothing else.** -/
theorem appendInternal_at_head (h : t.WellFormed reserved) (hactive : t.stateOf b = some .active)
    (hhead : t.appliedHead b = some head) (operation : Operation) (author : Author)
    (htaken : ∀ n, taken = some n → n ∈ reserved) (hid : eventId ∉ t.events) :
    ∃ discard t', t.appendInternal operation author b taken eventId =
        (.ok (eventId, some discard), t') ∧
      AppendedAtHead t t' b head (taken.getD t.eventCounter) eventId := by
  have hwf : (t.appendInternal operation author b taken eventId).2.WellFormed
      (remaining taken reserved) := appendInternal_wellFormed h htaken hid
  obtain ⟨hnot, -⟩ | ⟨-, discarded, t₁, hd, happend⟩ :=
    appendInternal_cases h operation author b taken eventId
  · exact absurd hactive hnot
  obtain ⟨hnone, -⟩ | ⟨head', cut, plan, branch, hhead', hcut, hp, -, heq⟩ :=
    discardRedoTail_cases h b
  · rw [appliedHead, hnone] at hhead
    cases hhead
  obtain rfl : head' = head := Option.some_inj.mp (hhead'.symm.trans hhead)
  obtain ⟨rfl, rfl⟩ := Prod.mk.inj (hd.symm.trans heq) |>.imp_left Except.ok.inj
  obtain ⟨hseq, counter, hcounter⟩ := takeSequence_eq (t.afterDiscard b plan cut) taken
  rw [hseq] at happend
  rw [happend] at hwf ⊢
  refine ⟨_, _, rfl, ?_⟩
  exact appendedAtHead_insertEvent h ((h.branches_agree b).mp (mem_branches_of_stateOf hactive)) hp
    hcut ⟨counter, hcounter⟩ rfl hid hwf

/-- An append on a branch without a redo tail adds its entry and changes no other branch. -/
theorem appendInternal_no_head (h : t.WellFormed reserved) (hactive : t.stateOf b = some .active)
    (hhead : t.appliedHead b = none) (operation : Operation) (author : Author)
    (taken : Option EventIndex) (eventId : EventId) :
    ∃ t', t.appendInternal operation author b taken eventId = (.ok (eventId, none), t') ∧
      t'.branches = t.branches ∧
      ∀ c, t'.index c =
        if c = b then (t.index c).insert (taken.getD t.eventCounter) eventId else t.index c := by
  have hbe : b ∈ t.branchEvents := (h.branches_agree b).mp (mem_branches_of_stateOf hactive)
  obtain ⟨hnot, -⟩ | ⟨-, discarded, t₁, hd, happend⟩ :=
    appendInternal_cases h operation author b taken eventId
  · exact absurd hactive hnot
  obtain ⟨-, heq⟩ | ⟨head, cut, plan, branch, hhead', -⟩ := discardRedoTail_cases h b
  · obtain ⟨rfl, rfl⟩ := Prod.mk.inj (hd.symm.trans heq) |>.imp_left Except.ok.inj
    obtain ⟨hseq, counter, hcounter⟩ := takeSequence_eq t₁ taken
    rw [hseq, hcounter] at happend
    refine ⟨_, happend, rfl, fun c ↦ ?_⟩
    exact @index_insertEvent _ (newEvent eventId (taken.getD t₁.eventCounter) operation author b)
      hbe c
  · rw [appliedHead, hhead'] at hhead
    cases hhead

omit [UuidParser] in
theorem taken_not_indexed (h : t.WellFormed reserved)
    (htaken : ∀ n, taken = some n → n ∈ reserved) (c : BranchId) :
    taken.getD t.eventCounter ∉ t.index c := by
  cases taken with
  | none => exact fun hmem ↦ lt_irrefl _ (h.index_lt_counter hmem)
  | some seq => exact h.reserved_not_indexed (htaken seq rfl) c

theorem appliedEntries_subset_append (h : t.WellFormed reserved)
    (htaken : ∀ n, taken = some n → n ∈ reserved) (hid : eventId ∉ t.events) :
    ∀ p ∈ t.appliedEntries b,
      p ∈ ((t.appendInternal operation author b taken eventId).2.index b).toList := by
  rintro ⟨k, e⟩ hke
  have hindexed : (t.index b)[k]? = some e :=
    OrderedMap.mem_toList.mp (List.mem_of_mem_take hke)
  have hne : k ≠ taken.getD t.eventCounter := by
    rintro rfl
    exact taken_not_indexed h htaken b (OrderedMap.mem_of_getElem? hindexed)
  rw [OrderedMap.mem_toList]
  by_cases hactive : t.stateOf b = some .active
  · cases hhead : t.appliedHead b with
    | none =>
      obtain ⟨t', heq, -, hindex⟩ :=
        appendInternal_no_head h hactive hhead operation author taken eventId
      rw [heq, hindex, if_pos rfl, OrderedMap.lookup_insert, if_neg hne, hindexed]
    | some head =>
      obtain ⟨discard, t', heq, hat⟩ :=
        appendInternal_at_head h hactive hhead operation author htaken hid
      rw [appliedEntries_of_head hhead] at hke
      rw [heq, hat.history, OrderedMap.lookup_insert, if_neg hne, OrderedMap.getElem?_first]
      exact hke
  · obtain ⟨-, err, heq⟩ | ⟨hactive', -⟩ := appendInternal_cases h operation author b taken eventId
    · rw [heq, hindexed]
    · exact absurd hactive' hactive

end Append

/-! ## A fork at the parent's head -/

/-- The child starts with what the parent holds applied, and keeps it through the parent's next
append. -/
structure ForksAppliedEntries [UuidParser] (t t' : Timeline) (reserved : List EventIndex)
    (parent child : BranchId) : Prop where
  starts_applied : (t'.index child).toList = t.appliedEntries parent
  /-- The parent's next append neither abandons the child nor shortens its index. -/
  survives_append : ∀ (operation : Operation) (author : Author) (taken : Option EventIndex)
    (eventId : EventId), (∀ n, taken = some n → n ∈ reserved) → eventId ∉ t'.events →
    (t'.appendInternal operation author parent taken eventId).2.stateOf child = t'.stateOf child ∧
      (t'.appendInternal operation author parent taken eventId).2.index child = t'.index child

section Fork

variable [UuidParser] {t : Timeline} {parent child : BranchId} {reserved : List EventIndex}

omit [UuidParser] in
theorem index_le_forkIndexOf_none {k : EventIndex} (hk : k ∈ t.index parent) :
    k ≤ t.forkIndexOf parent none := by
  obtain ⟨e, he⟩ := OrderedMap.mem_iff_exists.mp hk
  cases hm : t.branchEvents[parent]? with
  | none => simp [index, hm] at he
  | some m =>
    rw [index_eq_of_getElem? hm] at hk
    simp only [forkIndexOf, getBranchHead, hm, Option.getD_none, Except.toOption, Option.getD_some]
    cases hmax : m.keys.max? with
    | none =>
      rw [List.max?_eq_none_iff] at hmax
      simp [← Std.ExtTreeMap.mem_keys, hmax] at hk
    | some top =>
      exact (List.max?_le_iff hmax).mp le_rfl k (Std.ExtTreeMap.mem_keys.mpr hk)

omit [UuidParser] in
/-- Without an explicit fork point the child starts with the parent's whole index. -/
theorem createBranch_none_index (hparent : parent ∈ t.branches) (name : String) (author : Author) :
    (t.createBranch name parent none author child).2 = t.withBranch child (t.index parent)
      ⟨child, name, ⟨parent, t.forkIndexOf parent none⟩, some parent, .active, author, false⟩ := by
  obtain ⟨hnot, -⟩ | ⟨-, heq⟩ := createBranch_cases t name parent none author child
  · exact absurd hparent hnot
  · rw [heq, OrderedMap.keep_eq_self fun k hk ↦ decide_eq_true (index_le_forkIndexOf_none hk)]
    rfl

/-- **A default fork starts with the applied entries exactly when there is no redo tail.** -/
theorem forksAppliedEntries_iff (h : t.WellFormed reserved) (hparent : parent ∈ t.branches)
    (hchild : child ∉ t.branches) (name : String) (author : Author) :
    ForksAppliedEntries t (t.createBranch name parent none author child).2 reserved parent child ↔
      t.appliedHead parent = none := by
  have hwf := createBranch_wellFormed h name parent none author hchild
  rw [createBranch_none_index hparent] at hwf ⊢
  have hne : child ≠ parent := by
    rintro rfl
    exact hchild hparent
  constructor
  · rintro ⟨hstart, -⟩
    cases hhead : t.appliedHead parent with
    | none => rfl
    | some head =>
      have hshort : head < (t.index parent).size := h.heads_short parent head hhead
      rw [index_withBranch, if_pos rfl, appliedEntries_of_head hhead] at hstart
      have hlen := congrArg List.length hstart
      rw [List.length_take, Std.ExtTreeMap.length_toList, Nat.min_eq_left hshort.le] at hlen
      exact absurd hlen hshort.ne'
  · intro hhead
    refine ⟨?_, fun operation author taken eventId htaken hid ↦ ?_⟩
    · rw [index_withBranch, if_pos rfl, appliedEntries_of_no_head hhead]
    · obtain ⟨-, err, heq⟩ | ⟨hactive, -⟩ :=
        appendInternal_cases hwf operation author parent taken eventId
      · rw [heq]
        exact ⟨rfl, rfl⟩
      · obtain ⟨t', heq, hbranches, hindex⟩ :=
          appendInternal_no_head hwf hactive hhead operation author taken eventId
        rw [heq, hindex, if_neg hne, stateOf, hbranches]
        exact ⟨rfl, rfl⟩

end Fork

/-- What was applied and what was brought in are applied, what was undone is not, also after an
append. -/
structure KeepsAppliedEntries [UuidParser] (t t' : Timeline) (reserved : List EventIndex)
    (target : BranchId) : Prop where
  applied_kept : ∀ p ∈ t.appliedEntries target, p ∈ t'.appliedEntries target
  brought_in_applied : ∀ p ∈ (t'.index target).toList, p ∉ (t.index target).toList →
    p ∈ t'.appliedEntries target
  survives_append : ∀ (operation : Operation) (author : Author) (taken : Option EventIndex)
    (eventId : EventId), (∀ n, taken = some n → n ∈ reserved) → eventId ∉ t'.events →
    ∀ p ∈ (t'.index target).toList, p ∈ t.appliedEntries target ∨ p ∉ (t.index target).toList →
      p ∈ ((t'.appendInternal operation author target taken eventId).2.index target).toList
  undone_stay_undone : ∀ p ∈ t.undoneEntries target, p ∉ t'.appliedEntries target

section Merge

variable [UuidParser] {t : Timeline} {source target : BranchId} {strategy : MergeStrategy}
  {now : Timestamp} {head : EventIndex} {reserved : List EventIndex}

omit [UuidParser] in
/-- A count makes no room: where it still names every entry it named before, it names no other. -/
theorem applied_of_kept (h : t.WellFormed reserved) {t' : Timeline}
    (hhead : t.appliedHead target = some head) (hhead' : t'.appliedHead target = some head)
    (hkept : ∀ p ∈ t.appliedEntries target, p ∈ t'.appliedEntries target)
    {p : EventIndex × EventId} (hp : p ∈ t'.appliedEntries target) :
    p ∈ t.appliedEntries target := by
  by_contra hnew
  have hshort : head < (t.index target).size := h.heads_short target head hhead
  rw [appliedEntries_of_head hhead] at hkept hnew
  rw [appliedEntries_of_head hhead'] at hkept hp
  have hnodup : (p :: (t.index target).toList.take head).Nodup :=
    List.nodup_cons.mpr ⟨hnew, (t.index target).nodup_toList.sublist (List.take_sublist _ _)⟩
  have hsub : p :: (t.index target).toList.take head ⊆ (t'.index target).toList.take head := by
    rintro q hq
    rcases List.mem_cons.mp hq with rfl | hq
    · exact hp
    · exact hkept q hq
  have hle := (List.subperm_of_subset hnodup hsub).length_le
  rw [List.length_cons, List.length_take, Std.ExtTreeMap.length_toList,
    Nat.min_eq_left hshort.le] at hle
  exact absurd (hle.trans (List.length_take_le _ _)) (Nat.not_succ_le_self head)

theorem keepsAppliedEntries_iff (h : t.WellFormed reserved)
    (hhead : t.appliedHead target = some head)
    (hs : mergeSucceeded (t.mergeBranches source target strategy now)) :
    KeepsAppliedEntries t (t.mergeBranches source target strategy now).2 reserved target ↔
      ∀ k ∈ t.index source, k ∈ t.index target := by
  set t' := (t.mergeBranches source target strategy now).2 with ht'
  have hhead' : t'.appliedHead target = some head :=
    (appliedHead_mergeBranches h target).trans hhead
  constructor
  · rintro ⟨hkept, hbrought, -, -⟩ k hk
    by_contra hnew
    obtain ⟨e, he⟩ := OrderedMap.mem_iff_exists.mp hk
    have hmerged : (k, e) ∈ (t'.index target).toList :=
      OrderedMap.mem_toList.mpr ((getElem?_index_mergeBranches h hs target k e).mpr
        (Or.inr ⟨rfl, he⟩))
    have hold : (k, e) ∉ (t.index target).toList := fun hin ↦
      hnew (OrderedMap.mem_of_getElem? (OrderedMap.mem_toList.mp hin))
    have happlied := applied_of_kept h hhead hhead' hkept (hbrought _ hmerged hold)
    exact hold (List.mem_of_mem_take happlied)
  · intro hsub
    have hindex : t'.index target = t.index target := index_mergeBranches_of_subset h hs hsub
    have happlied : t'.appliedEntries target = t.appliedEntries target := by
      rw [appliedEntries_of_head hhead', appliedEntries_of_head hhead, hindex]
    have hwf : t'.WellFormed reserved := mergeBranches_wellFormed h source target strategy now
    refine ⟨fun p hp ↦ happlied ▸ hp, fun p hp hnew ↦ absurd (hindex ▸ hp) hnew,
      fun operation author taken eventId htaken hid p hp hor ↦ ?_, fun p hp ↦ ?_⟩
    · have hold : p ∈ t'.appliedEntries target :=
        happlied ▸ hor.resolve_right fun hnew ↦ hnew (hindex ▸ hp)
      exact appliedEntries_subset_append hwf htaken hid p hold
    · rw [happlied, appliedEntries_of_head hhead]
      rw [undoneEntries_of_head hhead] at hp
      exact fun htake ↦ List.disjoint_take_drop (t.index target).nodup_toList le_rfl htake hp

end Merge

end Timeline

/-! ## On reachable timelines -/

section Reachable

variable {s : TimelineRun} {b source target parent child : BranchId} {head : EventIndex}

/-- **An append past an applied head** files the new event beside the applied entries, clears the
head, and changes no branch but the ones the discard abandons. -/
theorem append_discards_redo_tail [UuidParser] (h : timelineSystem.Reachable s)
    (hactive : s.timeline.stateOf b = some .active) (hhead : s.timeline.appliedHead b = some head)
    (operation : Operation) (author : Author) (taken : Option EventIndex)
    (htaken : ∀ n, taken = some n → n ∈ s.reserved) (eventId : EventId)
    (hid : eventId ∉ s.timeline.events) :
    ∃ discard t', s.timeline.appendInternal operation author b taken eventId =
        (.ok (eventId, some discard), t') ∧
      Timeline.AppendedAtHead s.timeline t' b head (taken.getD s.timeline.eventCounter) eventId ∧
      (taken = none → (t'.index b).toList =
        (s.timeline.index b).toList.take head ++ [(s.timeline.eventCounter, eventId)]) := by
  have hwf := reachable_wellFormed h
  obtain ⟨discard, t', heq, hat⟩ :=
    Timeline.appendInternal_at_head hwf hactive hhead operation author htaken hid
  refine ⟨discard, t', heq, hat, fun hnone ↦ ?_⟩
  subst hnone
  refine hat.new_entry_last fun p hp ↦ ?_
  have hentry : (s.timeline.index b)[p.1]? = some p.2 :=
    OrderedMap.mem_toList.mp (List.mem_of_mem_take hp)
  exact hwf.index_lt_counter (OrderedMap.mem_of_getElem? hentry)

/-- A main branch with two entries, the second undone. -/
def undoneRun : TimelineRun := exampleRun
  [.addOperation exampleOp .system .main (exampleEvent 1),
    .addOperation exampleOp .system .main (exampleEvent 2),
    .setAppliedHead .main 1]

theorem undoneRun_reachable : (@timelineSystem noUuids).Reachable undoneRun :=
  letI := noUuids
  .run .init (by decide)

theorem append_discards_redo_tail_example :
    ∃ discard t', @Timeline.appendInternal undoneRun.timeline noUuids exampleOp .system .main none
        (exampleEvent 3) = (.ok (exampleEvent 3, some discard), t') ∧
      Timeline.AppendedAtHead undoneRun.timeline t' .main 1 2 (exampleEvent 3) ∧
      ((none : Option EventIndex) = none → (t'.index .main).toList =
        (undoneRun.timeline.index .main).toList.take 1 ++ [(2, exampleEvent 3)]) :=
  letI := noUuids
  append_discards_redo_tail undoneRun_reachable (by decide) (by decide) exampleOp .system none
    nofun (exampleEvent 3) (by decide)

/-- A main branch whose first entry took its number after an earlier reservation. -/
def reservedBelowRun : TimelineRun := exampleRun
  [.reserveSequenceNumber,
    .addOperation exampleOp .system .main (exampleEvent 1),
    .addOperation exampleOp .system .main (exampleEvent 2),
    .setAppliedHead .main 1]

/-- An append at a number reserved before the applied entries is filed before them. -/
theorem reserved_append_not_last :
    (@timelineSystem noUuids).Reachable reservedBelowRun ∧ 0 ∈ reservedBelowRun.reserved ∧
      reservedBelowRun.timeline.appliedHead .main = some 1 ∧
      ((@Timeline.appendInternal reservedBelowRun.timeline noUuids exampleOp .system .main (some 0)
        (exampleEvent 3)).2.index .main).toList ≠
          (reservedBelowRun.timeline.index .main).toList.take 1 ++ [(0, exampleEvent 3)] :=
  letI := noUuids
  ⟨.run .init (by decide), by decide, by decide, by decide⟩

/-- **A default fork starts with what its parent holds applied, and outlives the parent's next
append, exactly when the parent has no redo tail.** -/
theorem fork_starts_applied_iff [UuidParser] (h : timelineSystem.Reachable s)
    (hparent : parent ∈ s.timeline.branches) (hchild : child ∉ s.timeline.branches)
    (name : String) (author : Author) :
    Timeline.ForksAppliedEntries s.timeline
        (s.timeline.createBranch name parent none author child).2 s.reserved parent child ↔
      s.timeline.appliedHead parent = none :=
  Timeline.forksAppliedEntries_iff (reachable_wellFormed h) hparent hchild name author

theorem fork_starts_applied_iff_example :
    @Timeline.ForksAppliedEntries noUuids undoneRun.timeline
        (undoneRun.timeline.createBranch "side" .main none .system (exampleBranch 1)).2 [] .main
        (exampleBranch 1) ↔ undoneRun.timeline.appliedHead .main = none :=
  letI := noUuids
  fork_starts_applied_iff undoneRun_reachable (by decide) (by decide) "side" .system

/-- A fork after an undo carries the undone entry, and the parent's next append abandons it. -/
theorem fork_after_undo_not_applied :
    (@timelineSystem noUuids).Reachable undoneRun ∧
      ¬ @Timeline.ForksAppliedEntries noUuids undoneRun.timeline
        (undoneRun.timeline.createBranch "side" .main none .system (exampleBranch 1)).2 [] .main
        (exampleBranch 1) ∧
      (@Timeline.appendInternal
        (undoneRun.timeline.createBranch "side" .main none .system (exampleBranch 1)).2 noUuids
        exampleOp .system .main none (exampleEvent 3)).2.stateOf (exampleBranch 1) ≠
          some .active :=
  letI := noUuids
  ⟨undoneRun_reachable, fun h ↦ absurd h.starts_applied (by decide), by decide⟩

/-- **A merge into a branch with a redo tail keeps the applied entries, and puts what it brings in
among them, exactly when it brings nothing in.** -/
theorem merge_keeps_applied_iff [UuidParser] (h : timelineSystem.Reachable s)
    (hhead : s.timeline.appliedHead target = some head) (strategy : MergeStrategy)
    (now : Timestamp)
    (hs : Timeline.mergeSucceeded (s.timeline.mergeBranches source target strategy now)) :
    Timeline.KeepsAppliedEntries s.timeline
        (s.timeline.mergeBranches source target strategy now).2 s.reserved target ↔
      ∀ k ∈ s.timeline.index source, k ∈ s.timeline.index target :=
  Timeline.keepsAppliedEntries_iff (reachable_wellFormed h) hhead hs

/-- A branch forked from main's first entry, one more event on each; main's second is undone. -/
def divergedUndoneRun : TimelineRun := exampleRun
  [.addOperation exampleOp .system .main (exampleEvent 1),
    .createBranch "side" .main none .system (exampleBranch 1),
    .addOperation exampleOp .system .main (exampleEvent 2),
    .addOperation exampleOp .system (exampleBranch 1) (exampleEvent 3),
    .setAppliedHead .main 1]

theorem divergedUndoneRun_reachable : (@timelineSystem noUuids).Reachable divergedUndoneRun :=
  letI := noUuids
  .run .init (by decide)

theorem merge_keeps_applied_iff_example :
    @Timeline.KeepsAppliedEntries noUuids divergedUndoneRun.timeline
        (divergedUndoneRun.timeline.mergeBranches (exampleBranch 1) .main (.threeWay .manual)
          ⟨0⟩).2 [] .main ↔
      ∀ k ∈ divergedUndoneRun.timeline.index (exampleBranch 1),
        k ∈ divergedUndoneRun.timeline.index .main :=
  letI := noUuids
  merge_keeps_applied_iff divergedUndoneRun_reachable
    (by decide : divergedUndoneRun.timeline.appliedHead .main = some 1) (.threeWay .manual) ⟨0⟩
    (by decide)

/-- The event a merge brings in above an applied head is not applied, and the next append drops
it. -/
theorem merge_above_head_not_applied :
    (@timelineSystem noUuids).Reachable divergedUndoneRun ∧
      divergedUndoneRun.timeline.appliedHead .main = some 1 ∧
      Timeline.mergeSucceeded (divergedUndoneRun.timeline.mergeBranches (exampleBranch 1) .main
        (.threeWay .manual) ⟨0⟩) ∧
      ¬ @Timeline.KeepsAppliedEntries noUuids divergedUndoneRun.timeline
        (divergedUndoneRun.timeline.mergeBranches (exampleBranch 1) .main (.threeWay .manual)
          ⟨0⟩).2 [] .main :=
  letI := noUuids
  ⟨divergedUndoneRun_reachable, by decide, by decide, fun h ↦
    absurd (h.brought_in_applied (2, exampleEvent 3) (by decide) (by decide)) (by decide)⟩

end Reachable

end RosheraCad
