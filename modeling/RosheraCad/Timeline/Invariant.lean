import RosheraCad.Timeline.State

/-!
# The timeline's invariants

`CrossMapInvariants` is what `Timeline::validate` checks: seven relations between the maps.
`WellFormed` adds what the induction over a run needs beside them. An event may stand in the index
of a branch that did not record it, behind a chain of fork and merge edges.
-/

namespace RosheraCad

namespace Timeline

/-! ## Incorporation -/

inductive IncorporatesStep (t : Timeline) : BranchId → BranchId → Prop
  | parent {b p : BranchId} {r : Branch} : t.branches[b]? = some r → r.parent = some p →
      IncorporatesStep t b p
  | merged {b c : BranchId} {r : Branch} {now : Timestamp} : t.branches[c]? = some r →
      r.state = .merged b now → IncorporatesStep t b r.id

def Incorporates (t : Timeline) : BranchId → BranchId → Prop :=
  Relation.ReflTransGen t.IncorporatesStep

/-- Every branch record stays, with its identity and its parent; a merged branch stays merged. -/
def RecordsKept (t t' : Timeline) : Prop :=
  ∀ (b : BranchId) (r : Branch), t.branches[b]? = some r → ∃ r', t'.branches[b]? = some r' ∧
    r'.id = r.id ∧ r'.parent = r.parent ∧ r'.forkPoint = r.forkPoint ∧
    ∀ into now, r.state = .merged into now → r'.state = .merged into now

theorem RecordsKept.of_eq {t t' : Timeline} (h : t'.branches = t.branches) : t.RecordsKept t' :=
  fun _ r hr ↦ ⟨r, h ▸ hr, rfl, rfl, rfl, fun _ _ h ↦ h⟩

variable {b : BranchId}

theorem RecordsKept.mem {t t' : Timeline} (h : t.RecordsKept t')
    (hb : b ∈ t.branches) : b ∈ t'.branches := by
  obtain ⟨r, hr⟩ := OrderedMap.mem_iff_exists.mp hb
  obtain ⟨r', hr', -⟩ := h b r hr
  exact OrderedMap.mem_of_getElem? hr'

theorem Incorporates.mono {t t' : Timeline} (h : t.RecordsKept t') {b c : BranchId}
    (hbc : t.Incorporates b c) : t'.Incorporates b c := by
  refine Relation.ReflTransGen.mono (fun x y hxy ↦ ?_) b c hbc
  cases hxy with
  | parent hr hp =>
    obtain ⟨r', hr', -, hparent, -⟩ := h _ _ hr
    exact .parent hr' (hparent.trans hp)
  | merged hr hs =>
    obtain ⟨r', hr', hid, -, -, hmerged⟩ := h _ _ hr
    exact hid ▸ .merged hr' (hmerged _ _ hs)

/-! ## The invariants -/

/-- The cross-map relations documented on `Timeline::validate`. -/
structure CrossMapInvariants (t : Timeline) : Prop where
  branches_agree : ∀ b : BranchId, b ∈ t.branches ↔ b ∈ t.branchEvents
  entries_resolve : ∀ (b : BranchId) (k : EventIndex) (e : EventId), (t.index b)[k]? = some e →
    ∃ ev, t.events[e]? = some ev ∧ ev.sequenceNumber = k
  origins_incorporated : ∀ (b : BranchId) (k : EventIndex) (e : EventId) (ev : TimelineEvent),
    (t.index b)[k]? = some e → t.events[e]? = some ev → t.Incorporates b ev.branchId
  parents_exist : ∀ (b : BranchId) (r : Branch), t.branches[b]? = some r → r.id ≠ BranchId.main →
    ∃ p, r.parent = some p ∧ p ∈ t.branches
  forks_match_parents : ∀ (b : BranchId) (r : Branch) (p : BranchId), t.branches[b]? = some r →
    r.id ≠ BranchId.main → r.parent = some p → r.forkPoint.branchId = p
  sequences_unique : ∀ (e e' : EventId) (ev ev' : TimelineEvent), t.events[e]? = some ev →
    t.events[e']? = some ev' → ev.sequenceNumber = ev'.sequenceNumber → e = e'
  sessions_in_range : ∀ (s : SessionId) (pos : SessionPosition), t.sessionPositions[s]? = some pos →
    pos.branchId ∈ t.branchEvents ∧ pos.eventIndex ≤ (t.index pos.branchId).size

/-- The cross-map relations, and what keeps them. `reserved` lists the numbers not yet used. -/
structure WellFormed (t : Timeline) (reserved : List EventIndex) : Prop
    extends CrossMapInvariants t where
  branch_ids : ∀ (b : BranchId) (r : Branch), t.branches[b]? = some r → r.id = b
  event_ids : ∀ (e : EventId) (ev : TimelineEvent), t.events[e]? = some ev → ev.id = e
  sequences_spent : ∀ (e : EventId) (ev : TimelineEvent), t.events[e]? = some ev →
    ev.sequenceNumber < t.eventCounter
  main_present : BranchId.main ∈ t.branches
  merge_targets_exist : ∀ (b : BranchId) (r : Branch) (into : BranchId) (now : Timestamp),
    t.branches[b]? = some r → r.state = .merged into now → into ∈ t.branches
  origins_exist : ∀ (e : EventId) (ev : TimelineEvent), t.events[e]? = some ev →
    ev.branchId ∈ t.branches
  heads_short : ∀ (b : BranchId) (h : EventIndex), t.appliedHeads[b]? = some h →
    h < (t.index b).size
  reserved_spent : ∀ s ∈ reserved, s < t.eventCounter
  reserved_unused : ∀ s ∈ reserved, ∀ (e : EventId) (ev : TimelineEvent),
    t.events[e]? = some ev → ev.sequenceNumber ≠ s

namespace WellFormed

variable {t : Timeline} {reserved : List EventIndex}

theorem mono {reserved' : List EventIndex} (h : t.WellFormed reserved)
    (hsub : ∀ s ∈ reserved', s ∈ reserved) : t.WellFormed reserved' :=
  { h with
    reserved_spent := fun s hs ↦ h.reserved_spent s (hsub s hs)
    reserved_unused := fun s hs ↦ h.reserved_unused s (hsub s hs) }

section

variable (h : t.WellFormed reserved)

include h

/-- The invariant survives a change of the applied heads, when each stops short of its history. -/
theorem withHeads (heads : OrderedMap BranchId EventIndex)
    (hheads : ∀ (b : BranchId) (head : EventIndex), heads[b]? = some head →
      head < (t.index b).size) :
    ({ t with appliedHeads := heads } : Timeline).WellFormed reserved :=
  { h with
    origins_incorporated := fun b k e ev hk hev ↦ by
      refine Incorporates.mono ?_ (h.origins_incorporated b k e ev hk hev)
      exact .of_eq rfl
    heads_short := hheads }

theorem withSessions (sessions : OrderedMap SessionId SessionPosition)
    (hsessions : ∀ (s : SessionId) (pos : SessionPosition), sessions[s]? = some pos →
      pos.branchId ∈ t.branchEvents ∧ pos.eventIndex ≤ (t.index pos.branchId).size) :
    ({ t with sessionPositions := sessions } : Timeline).WellFormed reserved :=
  { h with
    origins_incorporated := fun b k e ev hk hev ↦ by
      refine Incorporates.mono ?_ (h.origins_incorporated b k e ev hk hev)
      exact .of_eq rfl
    sessions_in_range := hsessions }

theorem exists_index (hb : b ∈ t.branches) :
    ∃ m, t.branchEvents[b]? = some m :=
  OrderedMap.mem_iff_exists.mp ((h.branches_agree b).mp hb)

theorem exists_branch {m : BranchIndex}
    (hm : t.branchEvents[b]? = some m) : ∃ r, t.branches[b]? = some r :=
  OrderedMap.mem_iff_exists.mp ((h.branches_agree b).mpr (OrderedMap.mem_of_getElem? hm))

/-- **Indexes agree**: two branches holding one sequence number hold one event there. -/
theorem entries_agree {b c : BranchId} {k : EventIndex}
    {e e' : EventId} (hb : (t.index b)[k]? = some e) (hc : (t.index c)[k]? = some e') : e = e' := by
  obtain ⟨ev, hev, rfl⟩ := h.entries_resolve _ _ _ hb
  obtain ⟨ev', hev', hseq⟩ := h.entries_resolve _ _ _ hc
  exact h.sequences_unique e e' ev ev' hev hev' hseq.symm

theorem key_unique {b c : BranchId} {k l : EventIndex} {e : EventId}
    (hb : (t.index b)[k]? = some e) (hc : (t.index c)[l]? = some e) : k = l := by
  obtain ⟨ev, hev, rfl⟩ := h.entries_resolve _ _ _ hb
  obtain ⟨ev', hev', rfl⟩ := h.entries_resolve _ _ _ hc
  rw [Option.some_inj.mp (hev.symm.trans hev')]

theorem reserved_not_indexed {s : EventIndex} (hs : s ∈ reserved)
    (b : BranchId) : s ∉ t.index b := by
  intro hmem
  obtain ⟨e, he⟩ := OrderedMap.mem_iff_exists.mp hmem
  obtain ⟨ev, hev, hseq⟩ := h.entries_resolve _ _ _ he
  exact h.reserved_unused s hs e ev hev hseq

theorem index_lt_counter {k : EventIndex} (hk : k ∈ t.index b) : k < t.eventCounter := by
  obtain ⟨e, he⟩ := OrderedMap.mem_iff_exists.mp hk
  obtain ⟨ev, hev, rfl⟩ := h.entries_resolve _ _ _ he
  exact h.sequences_spent e ev hev

end

end WellFormed

private theorem index_new (b : BranchId) : new.index b = ∅ := by
  simp only [index, new, Std.ExtTreeMap.getElem?_insert]
  split <;> simp

theorem new_wellFormed : new.WellFormed [] where
  branches_agree b := by simp [new]
  entries_resolve b k e hk := by simp [index_new] at hk
  origins_incorporated b k e ev _ hev := by simp [new] at hev
  parents_exist b r hr hid := by
    simp only [new, Std.ExtTreeMap.getElem?_insert] at hr
    split at hr
    · cases hr
      exact absurd rfl hid
    · simp at hr
  forks_match_parents b r p hr hid := by
    simp only [new, Std.ExtTreeMap.getElem?_insert] at hr
    split at hr
    · cases hr
      exact absurd rfl hid
    · simp at hr
  sequences_unique e e' ev ev' hev := by simp [new] at hev
  sessions_in_range s pos hpos := by simp [new] at hpos
  branch_ids b r hr := by
    simp only [new, Std.ExtTreeMap.getElem?_insert] at hr
    split at hr
    · next hb =>
      cases hr
      exact Std.LawfulEqOrd.eq_of_compare hb
    · simp at hr
  event_ids e ev hev := by simp [new] at hev
  sequences_spent e ev hev := by simp [new] at hev
  main_present := by simp [new]
  merge_targets_exist b r into now hr hs := by
    simp only [new, Std.ExtTreeMap.getElem?_insert] at hr
    split at hr
    · cases hr
      simp [mainBranch] at hs
    · simp at hr
  origins_exist e ev hev := by simp [new] at hev
  heads_short b h hh := by simp [new] at hh
  reserved_spent s hs := by simp at hs
  reserved_unused s hs := by simp at hs

end Timeline

end RosheraCad
