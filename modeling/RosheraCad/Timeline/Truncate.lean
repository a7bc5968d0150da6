import RosheraCad.Timeline.Invariant

/-!
# Truncation

A truncate drops every entry of a branch at or after a cut; so does every active child forked from
it there, which is then abandoned; an event no index references then leaves the event store. The
redo-tail discard of an append applies the same plan.
-/

namespace RosheraCad

structure TruncatePlan where
  branch : BranchId
  removed : List (EventIndex × EventId)
  cascaded : List BranchId
  purged : List EventId

namespace TruncatePlan

variable (plan : TruncatePlan)

def removedKeys : List EventIndex := plan.removed.map Prod.fst

/-- Whether `b` loses the removed keys: the truncated branch and its cascaded children do. -/
abbrev Scrubs (b : BranchId) : Prop := b = plan.branch ∨ b ∈ plan.cascaded

end TruncatePlan

namespace Timeline

variable (t : Timeline) {k : EventIndex} {e : EventId} {c : BranchId}

/-! ## The plan -/

def postTruncateIndex (plan : TruncatePlan) (b : BranchId) : List (EventIndex × EventId) :=
  match t.branchEvents[b]? with
  | none => []
  | some m => m.toList.filter fun e ↦ ¬ (plan.Scrubs b ∧ e.1 ∈ plan.removedKeys)

def cascadedChildren (b : BranchId) (cut : EventIndex) : List BranchId :=
  (t.branches.toList.filter fun e ↦
    e.2.parent = some b ∧ cut ≤ e.2.forkPoint.eventIndex ∧ e.2.state.isActive).map Prod.fst

def stillReferenced (plan : TruncatePlan) : List EventId :=
  t.branchEvents.keys.flatMap fun b ↦ (t.postTruncateIndex plan b).map Prod.snd

def truncatePlan (b : BranchId) (cut : EventIndex) : Except TimelineError TruncatePlan :=
  match t.branchEvents[b]? with
  | none => .error (.branchNotFound b)
  | some m =>
    let plan : TruncatePlan :=
      ⟨b, m.toList.filter fun e ↦ cut ≤ e.1, t.cascadedChildren b cut, []⟩
    .ok { plan with
      purged := (plan.removed.map Prod.snd).filter fun id ↦ id ∉ t.stillReferenced plan }

/-! ## Applying it -/

def cascadeReason (b : BranchId) (cut : EventIndex) : String :=
  "parent branch " ++ b.toText ++ " was truncated at sequence " ++ toString cut

def scrubIndexes (plan : TruncatePlan) : OrderedMap BranchId BranchIndex :=
  t.branchEvents.modifyKeys (plan.branch :: plan.cascaded) fun m ↦ m.eraseKeys plan.removedKeys

def scrubbedLen (plan : TruncatePlan) (b : BranchId) : ℕ := ((t.scrubIndexes plan)[b]?.getD ∅).size

def clampPosition (plan : TruncatePlan) (pos : SessionPosition) : SessionPosition :=
  if pos.branchId = plan.branch ∧ t.scrubbedLen plan plan.branch < pos.eventIndex then
    { pos with eventIndex := t.scrubbedLen plan plan.branch }
  else if pos.branchId ∈ plan.cascaded ∧ t.scrubbedLen plan pos.branchId < pos.eventIndex then
    { pos with eventIndex := t.scrubbedLen plan pos.branchId }
  else pos

def outrunHeads (plan : TruncatePlan) : List BranchId :=
  (plan.branch :: plan.cascaded).filter fun b ↦
    t.appliedHeads[b]?.any fun head ↦ t.scrubbedLen plan b ≤ head

def applyTruncatePlan (plan : TruncatePlan) (cut : EventIndex) : Timeline :=
  { t with
    branchEvents := t.scrubIndexes plan
    events := t.events.eraseKeys plan.purged
    entityEvents := if plan.purged = [] then t.entityEvents
      else t.entityEvents.map fun _ ids ↦ ids.filter fun id ↦ id ∉ plan.purged
    branches := t.branches.modifyKeys plan.cascaded fun b ↦
      { b with state := .abandoned (cascadeReason plan.branch cut) }
    sessionPositions := t.sessionPositions.map fun _ pos ↦ t.clampPosition plan pos
    appliedHeads := t.appliedHeads.eraseKeys (t.outrunHeads plan) }

/-- A protected branch takes `force`. The result is the number of entries the branch lost. -/
def truncateBranch (b : BranchId) (cut : EventIndex) (force : Bool) : Outcome ℕ :=
  if (t.branches[b]?.any fun branch ↦ branch.isProtected && !force) then
    (.error (.invalidOperation
      [.text ("branch " ++ b.toText ++ " is protected; truncate requires force=true")]), t)
  else
    match t.truncatePlan b cut with
    | .error e => (.error e, t)
    | .ok plan => (.ok plan.removed.length, t.applyTruncatePlan plan cut)

/-! ## What the plan contains -/

section Plan

variable {t} {b : BranchId} {cut : EventIndex} {plan : TruncatePlan}

theorem mem_cascadedChildren :
    c ∈ t.cascadedChildren b cut ↔ ∃ r, t.branches[c]? = some r ∧ r.parent = some b ∧
      cut ≤ r.forkPoint.eventIndex ∧ r.state = .active := by
  simp only [cascadedChildren, List.mem_map, List.mem_filter, Prod.exists, exists_and_right,
    exists_eq_right, OrderedMap.mem_toList, BranchState.isActive_iff, decide_eq_true_eq]

theorem mem_stillReferenced :
    e ∈ t.stillReferenced plan ↔ ∃ c m k, t.branchEvents[c]? = some m ∧ m[k]? = some e ∧
      ¬ (plan.Scrubs c ∧ k ∈ plan.removedKeys) := by
  simp only [stillReferenced, List.mem_flatMap, List.mem_map, Prod.exists, exists_eq_right]
  constructor
  · rintro ⟨c, hc, k, hk⟩
    obtain ⟨m, hm⟩ := OrderedMap.mem_iff_exists.mp (Std.ExtTreeMap.mem_keys.mp hc)
    rw [postTruncateIndex, hm] at hk
    obtain ⟨hin, hnot⟩ := List.mem_filter.mp hk
    exact ⟨c, m, k, hm, OrderedMap.mem_toList.mp hin, of_decide_eq_true hnot⟩
  · rintro ⟨c, m, k, hm, hk, hnot⟩
    refine ⟨c, Std.ExtTreeMap.mem_keys.mpr (OrderedMap.mem_of_getElem? hm), k, ?_⟩
    rw [postTruncateIndex, hm]
    exact List.mem_filter.mpr ⟨OrderedMap.mem_toList.mpr hk, decide_eq_true hnot⟩

/-- **Everything a plan says**: the keys it removes, the children it abandons and the events it
purges, each by the rule of the source. -/
theorem truncatePlan_spec (h : t.truncatePlan b cut = .ok plan) :
    ∃ m, t.branchEvents[b]? = some m ∧ plan.branch = b ∧
      (∀ k e, (k, e) ∈ plan.removed ↔ m[k]? = some e ∧ cut ≤ k) ∧
      plan.cascaded = t.cascadedChildren b cut ∧
      ∀ e, e ∈ plan.purged ↔ (∃ k, (k, e) ∈ plan.removed) ∧
        ∀ c m' k, t.branchEvents[c]? = some m' → m'[k]? = some e →
          plan.Scrubs c ∧ k ∈ plan.removedKeys := by
  rw [truncatePlan] at h
  split at h
  · cases h
  · next m hm =>
    cases h
    refine ⟨m, hm, rfl, fun k e ↦ ?_, rfl, fun e ↦ ?_⟩
    · rw [List.mem_filter, OrderedMap.mem_toList, decide_eq_true_eq]
    · rw [List.mem_filter, decide_eq_true_eq, mem_stillReferenced]
      refine and_congr (by simp only [List.mem_map, Prod.exists, exists_eq_right]) ?_
      push Not
      rfl

theorem mem_removedKeys (h : t.truncatePlan b cut = .ok plan) :
    k ∈ plan.removedKeys ↔ k ∈ t.index b ∧ cut ≤ k := by
  obtain ⟨m, hm, -, hrem, -, -⟩ := truncatePlan_spec h
  rw [index_eq_of_getElem? hm, OrderedMap.mem_iff_exists, TruncatePlan.removedKeys]
  simp only [List.mem_map, Prod.exists, exists_and_right, exists_eq_right, hrem]

end Plan

/-! ## What applying a plan does to each map -/

section Apply

variable {t} {plan : TruncatePlan} {cut : EventIndex} {b : BranchId}

theorem applyTruncatePlan_branchEvents (b : BranchId) :
    (t.applyTruncatePlan plan cut).branchEvents[b]? =
      if plan.Scrubs b then t.branchEvents[b]?.map fun m ↦ m.eraseKeys plan.removedKeys
      else t.branchEvents[b]? := by
  simp only [applyTruncatePlan, scrubIndexes, OrderedMap.getElem?_modifyKeys, List.mem_cons]

theorem applyTruncatePlan_events (e : EventId) :
    (t.applyTruncatePlan plan cut).events[e]? =
      if e ∈ plan.purged then none else t.events[e]? := by
  simp only [applyTruncatePlan, OrderedMap.getElem?_eraseKeys]

theorem applyTruncatePlan_branches (b : BranchId) :
    (t.applyTruncatePlan plan cut).branches[b]? =
      if b ∈ plan.cascaded then
        t.branches[b]?.map fun r ↦ { r with state := .abandoned (cascadeReason plan.branch cut) }
      else t.branches[b]? := by
  simp only [applyTruncatePlan, OrderedMap.getElem?_modifyKeys]

theorem index_applyTruncatePlan (b : BranchId) :
    (t.applyTruncatePlan plan cut).index b =
      if plan.Scrubs b then (t.index b).eraseKeys plan.removedKeys else t.index b := by
  rw [index, applyTruncatePlan_branchEvents]
  split
  · cases h : t.branchEvents[b]? with
    | none =>
      rw [index, h]
      exact (OrderedMap.eraseKeys_eq_self fun _ _ ↦ Std.ExtTreeMap.not_mem_empty).symm
    | some m => rw [index, h]; rfl
  · rfl

private theorem scrubbedLen_eq (b : BranchId) :
    t.scrubbedLen plan b = ((t.applyTruncatePlan plan cut).index b).size := rfl

theorem applyTruncatePlan_sessionPositions (s : SessionId) :
    (t.applyTruncatePlan plan cut).sessionPositions[s]? =
      t.sessionPositions[s]?.map fun pos ↦
        if plan.Scrubs pos.branchId then
          ⟨pos.branchId,
            min pos.eventIndex ((t.applyTruncatePlan plan cut).index pos.branchId).size⟩
        else pos := by
  have hclamp (pos : SessionPosition) : t.clampPosition plan pos =
      if plan.Scrubs pos.branchId then
        ⟨pos.branchId, min pos.eventIndex (t.scrubbedLen plan pos.branchId)⟩
      else pos := by
    obtain ⟨b, i⟩ := pos
    simp only [clampPosition, TruncatePlan.Scrubs]
    by_cases hb : b = plan.branch
    · subst hb
      rcases le_or_gt i (t.scrubbedLen plan plan.branch) with hi | hi
      · simp [hi, Nat.not_lt.mpr hi]
      · simp [hi, hi.le]
    · rcases le_or_gt i (t.scrubbedLen plan b) with hi | hi
      · simp [hb, hi, Nat.not_lt.mpr hi]
      · simp [hb, hi, hi.le]
  have hmap : (t.applyTruncatePlan plan cut).sessionPositions =
      t.sessionPositions.map fun _ pos ↦ t.clampPosition plan pos := rfl
  rw [hmap, Std.ExtTreeMap.getElem?_map]
  exact congrArg (t.sessionPositions[s]?.map ·) (funext hclamp)

theorem applyTruncatePlan_appliedHeads (b : BranchId) :
    (t.applyTruncatePlan plan cut).appliedHeads[b]? =
      t.appliedHeads[b]?.filter fun head ↦
        ¬ (plan.Scrubs b ∧ ((t.applyTruncatePlan plan cut).index b).size ≤ head) := by
  rw [← scrubbedLen_eq]
  have herase : (t.applyTruncatePlan plan cut).appliedHeads =
      t.appliedHeads.eraseKeys (t.outrunHeads plan) := rfl
  have hmem : b ∈ t.outrunHeads plan ↔
      plan.Scrubs b ∧ t.appliedHeads[b]?.any fun head ↦ t.scrubbedLen plan b ≤ head := by
    rw [outrunHeads, List.mem_filter, List.mem_cons]
  rw [herase, OrderedMap.getElem?_eraseKeys]
  simp only [hmem]
  cases h : t.appliedHeads[b]? with
  | none => simp
  | some head => simp only [Option.filter_some, Option.any_some, decide_eq_true_eq, ite_not]

theorem mem_branchEvents_applyTruncatePlan :
    b ∈ (t.applyTruncatePlan plan cut).branchEvents ↔ b ∈ t.branchEvents := by
  rw [OrderedMap.mem_iff_exists, OrderedMap.mem_iff_exists, applyTruncatePlan_branchEvents]
  split <;> simp

theorem mem_branches_applyTruncatePlan :
    b ∈ (t.applyTruncatePlan plan cut).branches ↔ b ∈ t.branches := by
  rw [OrderedMap.mem_iff_exists, OrderedMap.mem_iff_exists, applyTruncatePlan_branches]
  split <;> simp

theorem getElem?_index_applyTruncatePlan :
    ((t.applyTruncatePlan plan cut).index b)[k]? =
      if plan.Scrubs b ∧ k ∈ plan.removedKeys then none else (t.index b)[k]? := by
  rw [index_applyTruncatePlan]
  by_cases hb : plan.Scrubs b
  · simp only [hb, if_true, true_and, OrderedMap.getElem?_eraseKeys]
  · simp only [hb, if_false, false_and]

theorem events_of_applyTruncatePlan {ev : TimelineEvent}
    (h : (t.applyTruncatePlan plan cut).events[e]? = some ev) : t.events[e]? = some ev := by
  rw [applyTruncatePlan_events] at h
  split at h
  · cases h
  · exact h

theorem branches_of_applyTruncatePlan {r : Branch}
    (h : (t.applyTruncatePlan plan cut).branches[b]? = some r) :
    ∃ r₀, t.branches[b]? = some r₀ ∧ r.id = r₀.id ∧ r.parent = r₀.parent ∧
      r.forkPoint = r₀.forkPoint ∧ (r.state = r₀.state ∨
        b ∈ plan.cascaded ∧ r.state = .abandoned (cascadeReason plan.branch cut)) := by
  rw [applyTruncatePlan_branches] at h
  split at h
  · next hb =>
    obtain ⟨r₀, hr₀, rfl⟩ := Option.map_eq_some_iff.mp h
    exact ⟨r₀, hr₀, rfl, rfl, rfl, Or.inr ⟨hb, rfl⟩⟩
  · exact ⟨r, h, rfl, rfl, rfl, Or.inl rfl⟩

end Apply

/-! ## A truncate keeps the invariant -/

section Preserved

variable {t} {plan : TruncatePlan} {b : BranchId} {cut : EventIndex} {reserved : List EventIndex}

section

variable (h : t.truncatePlan b cut = .ok plan)

include h

theorem recordsKept_applyTruncatePlan :
    t.RecordsKept (t.applyTruncatePlan plan cut) := by
  intro c r hr
  obtain ⟨-, -, -, -, hcasc, -⟩ := truncatePlan_spec h
  rw [applyTruncatePlan_branches]
  by_cases hc : c ∈ plan.cascaded
  · obtain ⟨r₀, hr₀, -, -, hactive⟩ := mem_cascadedChildren.mp (hcasc ▸ hc)
    have hrr : r = r₀ := Option.some_inj.mp (hr.symm.trans hr₀)
    rw [if_pos hc, hr, Option.map_some]
    refine ⟨_, rfl, rfl, rfl, rfl, fun into now hmerged ↦ ?_⟩
    rw [hrr, hactive] at hmerged
    cases hmerged
  · rw [if_neg hc]
    exact ⟨r, hr, rfl, rfl, rfl, fun _ _ h ↦ h⟩

theorem not_purged_of_indexed
    (hk : ((t.applyTruncatePlan plan cut).index c)[k]? = some e) : e ∉ plan.purged := by
  intro he
  obtain ⟨-, -, -, -, -, hpurged⟩ := truncatePlan_spec h
  rw [getElem?_index_applyTruncatePlan] at hk
  split at hk
  · cases hk
  · next hkept =>
    cases hm : t.branchEvents[c]? with
    | none => simp [index, hm] at hk
    | some m =>
      rw [index_eq_of_getElem? hm] at hk
      exact hkept (((hpurged e).mp he).2 c m k hm hk)

theorem applyTruncatePlan_event_of_indexed
    (hk : ((t.applyTruncatePlan plan cut).index c)[k]? = some e) :
    (t.applyTruncatePlan plan cut).events[e]? = t.events[e]? := by
  rw [applyTruncatePlan_events, if_neg (not_purged_of_indexed h hk)]

end

theorem getElem?_index_of_applyTruncatePlan
    (hk : ((t.applyTruncatePlan plan cut).index c)[k]? = some e) : (t.index c)[k]? = some e := by
  rw [getElem?_index_applyTruncatePlan] at hk
  split at hk
  · cases hk
  · exact hk

theorem applyTruncatePlan_wellFormed (hp : t.truncatePlan b cut = .ok plan)
    (h : t.WellFormed reserved) : (t.applyTruncatePlan plan cut).WellFormed reserved where
  branches_agree c := by
    rw [mem_branches_applyTruncatePlan, mem_branchEvents_applyTruncatePlan]
    exact h.branches_agree c
  entries_resolve c k e hk := by
    rw [applyTruncatePlan_event_of_indexed hp hk]
    exact h.entries_resolve c k e (getElem?_index_of_applyTruncatePlan hk)
  origins_incorporated c k e ev hk hev :=
    (h.origins_incorporated c k e ev (getElem?_index_of_applyTruncatePlan hk)
      (events_of_applyTruncatePlan hev)).mono (recordsKept_applyTruncatePlan hp)
  parents_exist c r hr hid := by
    obtain ⟨r₀, hr₀, hid₀, hpar, -⟩ := branches_of_applyTruncatePlan hr
    obtain ⟨p, hp₀, hmem⟩ := h.parents_exist c r₀ hr₀ (hid₀ ▸ hid)
    exact ⟨p, hpar.trans hp₀, mem_branches_applyTruncatePlan.mpr hmem⟩
  forks_match_parents c r p hr hid hpar := by
    obtain ⟨r₀, hr₀, hid₀, hpar₀, hfork, -⟩ := branches_of_applyTruncatePlan hr
    rw [hfork]
    exact h.forks_match_parents c r₀ p hr₀ (hid₀ ▸ hid) (hpar₀ ▸ hpar)
  sequences_unique e e' ev ev' hev hev' :=
    h.sequences_unique e e' ev ev' (events_of_applyTruncatePlan hev)
      (events_of_applyTruncatePlan hev')
  sessions_in_range s pos hpos := by
    rw [applyTruncatePlan_sessionPositions] at hpos
    obtain ⟨pos₀, hpos₀, rfl⟩ := Option.map_eq_some_iff.mp hpos
    -- A session on a scrubbed branch is moved back to the end of its index.
    obtain ⟨hmem, hlen⟩ := h.sessions_in_range s pos₀ hpos₀
    rw [mem_branchEvents_applyTruncatePlan]
    split
    · exact ⟨hmem, min_le_right _ _⟩
    · next hnot =>
      rw [index_applyTruncatePlan, if_neg hnot]
      exact ⟨hmem, hlen⟩
  branch_ids c r hr := by
    obtain ⟨r₀, hr₀, hid₀, -⟩ := branches_of_applyTruncatePlan hr
    exact hid₀.trans (h.branch_ids c r₀ hr₀)
  event_ids e ev hev := h.event_ids e ev (events_of_applyTruncatePlan hev)
  sequences_spent e ev hev := h.sequences_spent e ev (events_of_applyTruncatePlan hev)
  main_present := mem_branches_applyTruncatePlan.mpr h.main_present
  merge_targets_exist c r into now hr hmerged := by
    obtain ⟨r₀, hr₀, -, -, -, hstate | ⟨-, hstate⟩⟩ := branches_of_applyTruncatePlan hr
    · exact mem_branches_applyTruncatePlan.mpr
        (h.merge_targets_exist c r₀ into now hr₀ (hstate ▸ hmerged))
    · rw [hstate] at hmerged
      cases hmerged
  origins_exist e ev hev :=
    mem_branches_applyTruncatePlan.mpr (h.origins_exist e ev (events_of_applyTruncatePlan hev))
  heads_short c head hhead := by
    rw [applyTruncatePlan_appliedHeads] at hhead
    obtain ⟨hhead, hkeep⟩ := Option.filter_eq_some_iff.mp hhead
    have hold := h.heads_short c head hhead
    rw [decide_eq_true_eq, not_and, not_le] at hkeep
    by_cases hc : plan.Scrubs c
    · exact hkeep hc
    · rw [index_applyTruncatePlan, if_neg hc]
      exact hold
  reserved_spent := h.reserved_spent
  reserved_unused s hs e ev hev := h.reserved_unused s hs e ev (events_of_applyTruncatePlan hev)

theorem truncateBranch_wellFormed (b : BranchId) (cut : EventIndex) (force : Bool)
    (h : t.WellFormed reserved) : (t.truncateBranch b cut force).2.WellFormed reserved := by
  rw [truncateBranch]
  split
  · exact h
  · split
    · exact h
    · next plan hp => exact applyTruncatePlan_wellFormed hp h

end Preserved

end Timeline

end RosheraCad
