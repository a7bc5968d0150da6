import RosheraCad.Timeline.Append

/-!
# Branches and sessions

Creating a branch copies the parent's entries up to the fork point; abandoning one changes its
state and nothing else. A session is a pointer: undo and redo move its count by one over the
branch's entries in ascending order and record no event.
-/

namespace RosheraCad

namespace Timeline

variable (t : Timeline) {b : BranchId}

/-! ## Changing a branch's state -/

def setState (b : BranchId) (state : BranchState) : Timeline :=
  { t with branches := t.branches.modifyKeys [b] fun r ↦ { r with state } }

def abandonBranch (b : BranchId) (reason : String) (force : Bool) : Outcome Unit :=
  match t.branches[b]? with
  | none => (.error (.branchNotFound b), t)
  | some branch =>
    if branch.isProtected && !force then
      (.error (.invalidOperation
        [.text ("branch " ++ b.toText ++ " is protected; abandon requires force=true")]), t)
    else
      match branch.state with
      | .active => (.ok (), t.setState b (.abandoned reason))
      | state => (.error (.invalidOperation [.text ("branch " ++ b.toText
          ++ " is not active (state="), .debugState state, .text "); cannot abandon"]), t)

def forkedIndex (parent : BranchId) (forkIndex : EventIndex) : BranchIndex :=
  match t.branchEvents[parent]? with
  | none => ∅
  | some m => m.keep (· ≤ forkIndex)

def forkIndexOf (parent : BranchId) (forkPoint : Option EventIndex) : EventIndex :=
  forkPoint.getD ((t.getBranchHead parent).toOption.getD 0)

/-- Create a new branch. `branchId` is the identifier the call draws. -/
def createBranch (name : String) (parent : BranchId) (forkPoint : Option EventIndex)
    (author : Author) (branchId : BranchId) : Outcome BranchId :=
  if parent ∉ t.branches then (.error (.branchNotFound parent), t)
  else
    let forkIndex := t.forkIndexOf parent forkPoint
    let branch : Branch :=
      { id := branchId
        name
        forkPoint := ⟨parent, forkIndex⟩
        parent := some parent
        state := .active
        createdBy := author
        isProtected := false }
    (.ok branchId,
      { t with
        branchEvents := t.branchEvents.insert branchId (t.forkedIndex parent forkIndex)
        branches := t.branches.insert branchId branch })

def updateSessionPosition (session : SessionId) (b : BranchId) (eventIndex : EventIndex) :
    Outcome Unit :=
  match t.branchEvents[b]? with
  | none => (.error (.branchNotFound b), t)
  | some m =>
    if m.size < eventIndex then
      (.error (.invalidOperation [.text ("event_index " ++ toString eventIndex
        ++ " exceeds branch length " ++ toString m.size ++ " on " ++ b.toText)]), t)
    else (.ok (), { t with sessionPositions := t.sessionPositions.insert session ⟨b, eventIndex⟩ })

/-- Undo the last operation for a session: the pointer moves back by one. -/
def undo (session : SessionId) : Outcome EventId :=
  match t.sessionPositions[session]? with
  | none => (.error .sessionNotFound, t)
  | some position =>
    match position.eventIndex with
    | 0 => (.error .noMoreUndo, t)
    | kth + 1 =>
      match t.branchSequence position.branchId with
      | .error e => (.error e, t)
      | .ok entries =>
        match entries[kth]? with
        | none => (.error (.internal ("session position event_index="
            ++ toString position.eventIndex ++ " exceeds branch length "
            ++ toString entries.length ++ " on " ++ position.branchId.toText)), t)
        | some entry =>
          match t.updateSessionPosition session position.branchId kth with
          | (.error e, t') => (.error e, t')
          | (.ok (), t') => (.ok entry.2, t')

/-- Redo the last undone operation for a session: the pointer moves forward by one. -/
def redo (session : SessionId) : Outcome EventId :=
  match t.sessionPositions[session]? with
  | none => (.error .sessionNotFound, t)
  | some position =>
    match t.branchSequence position.branchId with
    | .error e => (.error e, t)
    | .ok entries =>
      match entries[position.eventIndex]? with
      | none => (.error .noMoreRedo, t)
      | some entry =>
        match t.updateSessionPosition session position.branchId (position.eventIndex + 1) with
        | (.error e, t') => (.error e, t')
        | (.ok (), t') => (.ok entry.2, t')

/-! ## What they change -/

section Spec

variable {t} {reserved : List EventIndex}

theorem setState_branches (b c : BranchId) (s : BranchState) :
    (t.setState b s).branches[c]? =
      if c = b then t.branches[c]?.map fun r ↦ { r with state := s } else t.branches[c]? := by
  simp only [setState, OrderedMap.getElem?_modifyKeys, List.mem_singleton]

theorem mem_branches_setState {b c : BranchId} {s : BranchState} :
    c ∈ (t.setState b s).branches ↔ c ∈ t.branches := by
  simp only [setState, OrderedMap.mem_modifyKeys]

theorem branches_of_setState {b c : BranchId} {s : BranchState} {r : Branch}
    (h : (t.setState b s).branches[c]? = some r) :
    ∃ r₀, t.branches[c]? = some r₀ ∧ r.id = r₀.id ∧ r.parent = r₀.parent ∧
      r.forkPoint = r₀.forkPoint ∧ r.state = if c = b then s else r₀.state := by
  rw [setState_branches] at h
  split at h
  · next hc =>
    obtain ⟨r₀, hr₀, rfl⟩ := Option.map_eq_some_iff.mp h
    exact ⟨r₀, hr₀, rfl, rfl, rfl, (if_pos hc).symm⟩
  · next hc => exact ⟨r, h, rfl, rfl, rfl, (if_neg hc).symm⟩

theorem recordsKept_setState (hactive : t.stateOf b = some .active)
    (s : BranchState) : t.RecordsKept (t.setState b s) := by
  intro c r hr
  rw [setState_branches]
  by_cases hc : c = b
  · rw [if_pos hc, hr, Option.map_some]
    refine ⟨_, rfl, rfl, rfl, rfl, fun into now hmerged ↦ ?_⟩
    rw [stateOf, ← hc, hr, Option.map_some, hmerged] at hactive
    cases hactive
  · rw [if_neg hc]
    exact ⟨r, hr, rfl, rfl, rfl, fun _ _ h ↦ h⟩

theorem setState_wellFormed {s : BranchState} (h : t.WellFormed reserved)
    (hactive : t.stateOf b = some .active)
    (htarget : ∀ into now, s = .merged into now → into ∈ t.branches) :
    (t.setState b s).WellFormed reserved :=
  { h with
    branches_agree := fun c ↦ mem_branches_setState.trans (h.branches_agree c)
    origins_incorporated := fun c k e ev hk hev ↦
      (h.origins_incorporated c k e ev hk hev).mono (recordsKept_setState hactive s)
    parents_exist := fun c r hr hid ↦ by
      obtain ⟨r₀, hr₀, hid₀, hpar, -⟩ := branches_of_setState hr
      obtain ⟨p, hp, hmem⟩ := h.parents_exist c r₀ hr₀ (hid₀ ▸ hid)
      exact ⟨p, hpar.trans hp, mem_branches_setState.mpr hmem⟩
    forks_match_parents := fun c r p hr hid hp ↦ by
      obtain ⟨r₀, hr₀, hid₀, hpar, hfork, -⟩ := branches_of_setState hr
      rw [hfork]
      exact h.forks_match_parents c r₀ p hr₀ (hid₀ ▸ hid) (hpar ▸ hp)
    branch_ids := fun c r hr ↦ by
      obtain ⟨r₀, hr₀, hid₀, -⟩ := branches_of_setState hr
      exact hid₀.trans (h.branch_ids c r₀ hr₀)
    main_present := mem_branches_setState.mpr h.main_present
    merge_targets_exist := fun c r into now hr hmerged ↦ by
      obtain ⟨r₀, hr₀, -, -, -, hstate⟩ := branches_of_setState hr
      rw [mem_branches_setState]
      by_cases hc : c = b
      · rw [if_pos hc] at hstate
        exact htarget into now (hstate ▸ hmerged)
      · rw [if_neg hc] at hstate
        exact h.merge_targets_exist c r₀ into now hr₀ (hstate ▸ hmerged)
    origins_exist := fun e ev hev ↦ mem_branches_setState.mpr (h.origins_exist e ev hev) }

theorem abandonBranch_cases (t : Timeline) (b : BranchId) (reason : String) (force : Bool) :
    (∃ e, t.abandonBranch b reason force = (.error e, t)) ∨
      (t.stateOf b = some .active ∧
        t.abandonBranch b reason force = (.ok (), t.setState b (.abandoned reason))) := by
  rw [abandonBranch, stateOf]
  cases hr : t.branches[b]? with
  | none => exact Or.inl ⟨_, rfl⟩
  | some r =>
    by_cases hp : r.isProtected && !force
    · exact Or.inl ⟨_, if_pos hp⟩
    · cases hs : r.state with
      | active => exact Or.inr ⟨congrArg some hs, by simp only [hp, hs]; rfl⟩
      | merged | abandoned | completed =>
        exact Or.inl ⟨_, by simp only [hp, hs]; rfl⟩

theorem abandonBranch_wellFormed (b : BranchId) (reason : String) (force : Bool)
    (h : t.WellFormed reserved) : (t.abandonBranch b reason force).2.WellFormed reserved := by
  obtain ⟨e, heq⟩ | ⟨hactive, heq⟩ := abandonBranch_cases t b reason force
  · rw [heq]
    exact h
  · rw [heq]
    exact setState_wellFormed h hactive nofun

theorem forkedIndex_eq (parent : BranchId) (forkIndex : EventIndex) :
    t.forkedIndex parent forkIndex = (t.index parent).keep (· ≤ forkIndex) := by
  rw [forkedIndex, index]
  cases t.branchEvents[parent]? with
  | none => exact (OrderedMap.keep_eq_self fun _ hk ↦ absurd hk Std.ExtTreeMap.not_mem_empty).symm
  | some m => rfl

theorem createBranch_cases (t : Timeline) (name : String) (parent : BranchId)
    (forkPoint : Option EventIndex) (author : Author) (branchId : BranchId) :
    (parent ∉ t.branches ∧
        t.createBranch name parent forkPoint author branchId =
          (.error (.branchNotFound parent), t)) ∨
      (parent ∈ t.branches ∧ t.createBranch name parent forkPoint author branchId = (.ok branchId,
        { t with
          branchEvents := t.branchEvents.insert branchId
            ((t.index parent).keep (· ≤ t.forkIndexOf parent forkPoint))
          branches := t.branches.insert branchId
            ⟨branchId, name, ⟨parent, t.forkIndexOf parent forkPoint⟩, some parent, .active, author,
              false⟩ })) := by
  by_cases hp : parent ∈ t.branches
  · exact Or.inr ⟨hp, by simp only [createBranch, hp, forkedIndex_eq, not_true_eq_false, if_false]⟩
  · exact Or.inl ⟨hp, by simp only [createBranch, hp, not_false_eq_true, if_true]⟩

end Spec

section Created

variable {t} {reserved : List EventIndex} {branchId parent : BranchId} {m : BranchIndex}
  {r : Branch}

def withBranch (t : Timeline) (branchId : BranchId) (m : BranchIndex) (r : Branch) : Timeline :=
  { t with
    branchEvents := t.branchEvents.insert branchId m
    branches := t.branches.insert branchId r }

theorem index_withBranch (b : BranchId) :
    (t.withBranch branchId m r).index b = if b = branchId then m else t.index b := by
  simp only [index, withBranch, OrderedMap.lookup_insert]
  split <;> rfl

theorem mem_branches_withBranch :
    b ∈ (t.withBranch branchId m r).branches ↔ b = branchId ∨ b ∈ t.branches := by
  rw [OrderedMap.mem_iff_exists, OrderedMap.mem_iff_exists]
  simp only [withBranch, OrderedMap.lookup_insert]
  by_cases hb : b = branchId <;> simp [hb]

theorem mem_branchEvents_withBranch :
    b ∈ (t.withBranch branchId m r).branchEvents ↔ b = branchId ∨ b ∈ t.branchEvents := by
  rw [OrderedMap.mem_iff_exists, OrderedMap.mem_iff_exists]
  simp only [withBranch, OrderedMap.lookup_insert]
  by_cases hb : b = branchId <;> simp [hb]

theorem recordsKept_withBranch (hnew : branchId ∉ t.branches) :
    t.RecordsKept (t.withBranch branchId m r) := by
  intro c s hs
  have hne : c ≠ branchId := by
    rintro rfl
    exact hnew (OrderedMap.mem_of_getElem? hs)
  refine ⟨s, ?_, rfl, rfl, rfl, fun _ _ h ↦ h⟩
  simp only [withBranch, OrderedMap.lookup_insert, if_neg hne, hs]

theorem index_eq_empty (h : t.WellFormed reserved) (hb : b ∉ t.branches) :
    t.index b = ∅ := by
  rw [h.branches_agree, OrderedMap.not_mem_iff] at hb
  rw [index, hb, Option.getD_none]

theorem withBranch_wellFormed (h : t.WellFormed reserved) (hnew : branchId ∉ t.branches)
    (hparent : parent ∈ t.branches)
    (hm : ∀ (k : EventIndex) (e : EventId), m[k]? = some e → (t.index parent)[k]? = some e)
    (hr : r.id = branchId ∧ r.parent = some parent ∧ r.forkPoint.branchId = parent ∧
      r.state = .active) : (t.withBranch branchId m r).WellFormed reserved := by
  obtain ⟨hrid, hrparent, hrfork, hrstate⟩ := hr
  have hkept : t.RecordsKept (t.withBranch branchId m r) := recordsKept_withBranch hnew
  have hbranches {b : BranchId} {s : Branch}
      (hs : (t.withBranch branchId m r).branches[b]? = some s) :
      (b = branchId ∧ s = r) ∨ t.branches[b]? = some s := by
    simp only [withBranch, OrderedMap.lookup_insert] at hs
    split at hs
    · next hb => exact Or.inl ⟨hb, (Option.some_inj.mp hs).symm⟩
    · exact Or.inr hs
  -- An entry of the new branch is one of its parent.
  have hentry {b : BranchId} {k : EventIndex} {e : EventId}
      (hk : ((t.withBranch branchId m r).index b)[k]? = some e) :
      (t.index (if b = branchId then parent else b))[k]? = some e := by
    rw [index_withBranch] at hk
    split at hk
    · next hb => rw [if_pos hb]; exact hm k e hk
    · next hb => rw [if_neg hb]; exact hk
  have hedge : (t.withBranch branchId m r).Incorporates branchId parent := by
    refine .single (.parent ?_ hrparent)
    simp only [withBranch, OrderedMap.lookup_insert, if_true]
  refine
    { branches_agree := fun b ↦ ?_
      entries_resolve := fun b k e hk ↦ h.entries_resolve _ k e (hentry hk)
      origins_incorporated := fun b k e ev hk hev ↦ ?_
      parents_exist := fun b s hs hid ↦ ?_
      forks_match_parents := fun b s p hs hid hp ↦ ?_
      sequences_unique := h.sequences_unique
      sessions_in_range := fun s pos hpos ↦ ?_
      branch_ids := fun b s hs ↦ ?_
      event_ids := h.event_ids
      sequences_spent := h.sequences_spent
      main_present := mem_branches_withBranch.mpr (Or.inr h.main_present)
      merge_targets_exist := fun b s into now hs hmerged ↦ ?_
      origins_exist := fun e ev hev ↦
        mem_branches_withBranch.mpr (Or.inr (h.origins_exist e ev hev))
      heads_short := fun b head hhead ↦ ?_
      reserved_spent := h.reserved_spent
      reserved_unused := h.reserved_unused }
  · rw [mem_branches_withBranch, mem_branchEvents_withBranch, h.branches_agree]
  · -- What the parent incorporates, the new branch does through its parent.
    have hold := (h.origins_incorporated _ k e ev (hentry hk) hev).mono hkept
    split at hold
    · next hb => exact hb ▸ hedge.trans hold
    · exact hold
  · obtain ⟨rfl, rfl⟩ | hs := hbranches hs
    · exact ⟨parent, hrparent, mem_branches_withBranch.mpr (Or.inr hparent)⟩
    · obtain ⟨p, hp, hmem⟩ := h.parents_exist b s hs hid
      exact ⟨p, hp, mem_branches_withBranch.mpr (Or.inr hmem)⟩
  · obtain ⟨rfl, rfl⟩ | hs := hbranches hs
    · rw [hrfork]
      exact Option.some_inj.mp (hrparent.symm.trans hp)
    · exact h.forks_match_parents b s p hs hid hp
  · obtain ⟨hmem, hlen⟩ := h.sessions_in_range s pos hpos
    -- No session stands on a branch that was not there.
    have hne : pos.branchId ≠ branchId := by
      intro heq
      exact hnew (heq ▸ (h.branches_agree _).mpr hmem)
    rw [mem_branchEvents_withBranch, index_withBranch, if_neg hne]
    exact ⟨Or.inr hmem, hlen⟩
  · obtain ⟨rfl, rfl⟩ | hs := hbranches hs
    · exact hrid
    · exact h.branch_ids b s hs
  · obtain ⟨rfl, rfl⟩ | hs := hbranches hs
    · rw [hrstate] at hmerged
      cases hmerged
    · exact mem_branches_withBranch.mpr (Or.inr (h.merge_targets_exist b s into now hs hmerged))
  · have hlt := h.heads_short b head hhead
    rw [index_withBranch]
    split
    · next hb =>
      -- A branch that was not there has no applied head.
      rw [hb, index_eq_empty h hnew] at hlt
      simp at hlt
    · exact hlt

theorem createBranch_wellFormed (h : t.WellFormed reserved) (name : String) (parent : BranchId)
    (forkPoint : Option EventIndex) (author : Author) (hnew : branchId ∉ t.branches) :
    (t.createBranch name parent forkPoint author branchId).2.WellFormed reserved := by
  obtain ⟨-, heq⟩ | ⟨hparent, heq⟩ := createBranch_cases t name parent forkPoint author branchId
  · rw [heq]
    exact h
  · rw [heq]
    refine withBranch_wellFormed h hnew hparent (fun k e hk ↦ ?_) ⟨rfl, rfl, rfl, rfl⟩
    rw [OrderedMap.getElem?_keep] at hk
    split at hk
    · exact hk
    · cases hk

end Created

/-! ## Pointer moves keep the invariant -/

section Pointers

variable {t} {reserved : List EventIndex}

theorem updateSessionPosition_cases (t : Timeline) (session : SessionId) (b : BranchId)
    (i : EventIndex) :
    (∃ e, t.updateSessionPosition session b i = (.error e, t)) ∨
      (b ∈ t.branchEvents ∧ i ≤ (t.index b).size ∧ t.updateSessionPosition session b i =
        (.ok (), { t with sessionPositions := t.sessionPositions.insert session ⟨b, i⟩ })) := by
  rw [updateSessionPosition]
  cases hm : t.branchEvents[b]? with
  | none => exact Or.inl ⟨_, rfl⟩
  | some m =>
    by_cases hi : m.size < i
    · exact Or.inl ⟨_, if_pos hi⟩
    · refine Or.inr ⟨OrderedMap.mem_of_getElem? hm, ?_, if_neg hi⟩
      rw [index_eq_of_getElem? hm]
      exact not_lt.mp hi

theorem updateSessionPosition_wellFormed (h : t.WellFormed reserved) (session : SessionId)
    (b : BranchId) (i : EventIndex) :
    (t.updateSessionPosition session b i).2.WellFormed reserved := by
  obtain ⟨e, heq⟩ | ⟨hb, hi, heq⟩ := updateSessionPosition_cases t session b i
  · rw [heq]
    exact h
  · rw [heq]
    refine h.withSessions _ fun s pos hpos ↦ ?_
    rw [OrderedMap.lookup_insert] at hpos
    split at hpos
    · cases hpos
      exact ⟨hb, hi⟩
    · exact h.sessions_in_range s pos hpos

/-- Undo and redo move a pointer and change nothing else. -/
theorem undo_cases (t : Timeline) (session : SessionId) :
    (t.undo session).2 = t ∨
      ∃ b i, (t.undo session).2 = (t.updateSessionPosition session b i).2 := by
  rw [undo]
  repeat' split
  all_goals first
    | exact Or.inl rfl
    | next heq => exact Or.inr ⟨_, _, (congrArg Prod.snd heq).symm⟩

theorem redo_cases (t : Timeline) (session : SessionId) :
    (t.redo session).2 = t ∨
      ∃ b i, (t.redo session).2 = (t.updateSessionPosition session b i).2 := by
  rw [redo]
  repeat' split
  all_goals first
    | exact Or.inl rfl
    | next heq => exact Or.inr ⟨_, _, (congrArg Prod.snd heq).symm⟩

theorem undo_wellFormed (h : t.WellFormed reserved) (session : SessionId) :
    (t.undo session).2.WellFormed reserved := by
  obtain heq | ⟨b, i, heq⟩ := undo_cases t session
  · rw [heq]
    exact h
  · rw [heq]
    exact updateSessionPosition_wellFormed h session b i

theorem redo_wellFormed (h : t.WellFormed reserved) (session : SessionId) :
    (t.redo session).2.WellFormed reserved := by
  obtain heq | ⟨b, i, heq⟩ := redo_cases t session
  · rw [heq]
    exact h
  · rw [heq]
    exact updateSessionPosition_wellFormed h session b i

theorem setAppliedHead_cases (t : Timeline) (b : BranchId) (count : EventIndex) :
    (∃ e, t.setAppliedHead b count = (.error e, t)) ∨
      (b ∈ t.branchEvents ∧ count = (t.index b).size ∧ t.setAppliedHead b count =
        (.ok (), { t with appliedHeads := t.appliedHeads.erase b })) ∨
      (b ∈ t.branchEvents ∧ count < (t.index b).size ∧ t.setAppliedHead b count =
        (.ok (), { t with appliedHeads := t.appliedHeads.insert b count })) := by
  rw [setAppliedHead]
  cases hm : t.branchEvents[b]? with
  | none => exact Or.inl ⟨_, rfl⟩
  | some m =>
    have hb := OrderedMap.mem_of_getElem? hm
    rw [index_eq_of_getElem? hm]
    rcases lt_trichotomy m.size count with hlt | heq | hlt
    · exact Or.inl ⟨_, if_pos hlt⟩
    · refine Or.inr (Or.inl ⟨hb, heq.symm, ?_⟩)
      simp only [heq, lt_irrefl, if_false, if_true]
    · refine Or.inr (Or.inr ⟨hb, hlt, ?_⟩)
      simp only [hlt.not_gt, hlt.ne, if_false]

theorem setAppliedHead_wellFormed (h : t.WellFormed reserved) (b : BranchId) (count : EventIndex) :
    (t.setAppliedHead b count).2.WellFormed reserved := by
  obtain ⟨e, heq⟩ | ⟨hb, -, heq⟩ | ⟨hb, hlt, heq⟩ := setAppliedHead_cases t b count
  · rw [heq]
    exact h
  · rw [heq]
    refine h.withHeads _ fun c head hhead ↦ ?_
    rw [OrderedMap.lookup_erase] at hhead
    split at hhead
    · cases hhead
    · exact h.heads_short c head hhead
  · rw [heq]
    refine h.withHeads _ fun c head hhead ↦ ?_
    rw [OrderedMap.lookup_insert] at hhead
    split at hhead
    · next hc =>
      cases hhead
      exact hc ▸ hlt
    · exact h.heads_short c head hhead

end Pointers

end Timeline

end RosheraCad
