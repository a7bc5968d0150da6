import RosheraCad.CanonicalRef
import RosheraCad.Durability.Histories
import RosheraCad.Timeline.RevertMerge

/-!
# Session positions and applied heads

A session's position and a branch's applied head are counts into a history: a position may reach its
end, a head must stop short of it. Whatever shortens a history has to bring them back. Four
operations do not: taking entries out of an index, reverting a merge, removing a branch, and a
replay to an index.
-/

namespace RosheraCad

namespace Timeline

variable (t : Timeline)

/-! ## The remaining operations -/

/-- Put back an applied head: it covers the entries at or below the recorded sequence. -/
def restoreAppliedHeadState (b : BranchId) (state : Option (Option EventIndex)) : Outcome Unit :=
  match t.branchEventKeysSorted b with
  | .error e => (.error e, t)
  | .ok keys =>
    match state with
    | none => (.ok (), { t with appliedHeads := t.appliedHeads.erase b })
    | some none => t.setAppliedHead b 0
    | some (some seq) => t.setAppliedHead b (keys.filter (· ≤ seq)).length

def removeBranch (b : BranchId) : Bool × Timeline :=
  if t.branches[b]?.any Branch.isProtected ∨ b = .main then (false, t)
  else (b ∈ t.branches,
    { t with branches := t.branches.erase b, branchEvents := t.branchEvents.erase b })

def createBranchSimple (name : String) (branchId : BranchId) : Outcome BranchId :=
  t.createBranch name .main none .system branchId

def sessionBranch (session : Uuid) : BranchId :=
  (t.sessionPositions[session.toText]?.map SessionPosition.branchId).getD .main

variable [UuidParser]

def recordOperation (session : SessionId) (operation : Operation) (author : Author)
    (eventId : EventId) : Outcome (EventId × Option RedoTailDiscard) :=
  match t.sessionPositions[session]? with
  | none => (.error .sessionNotFound, t)
  | some position => t.appendInternal operation author position.branchId none eventId

/-- Move the session to an index. The branch is looked up under the session's UUID. -/
def replayToIndex (session : SessionId) (index : EventIndex) : Outcome Unit :=
  match UuidParser.parseStr session with
  | none => (.error (.invalidOperation [.text "Invalid session ID"]), t)
  | some uuid =>
    if t.sessionBranch uuid ∉ t.branchEvents then
      (.error (.branchNotFound (t.sessionBranch uuid)), t)
    else (.ok (), { t with
      sessionPositions := t.sessionPositions.insert session ⟨t.sessionBranch uuid, index⟩ })

end Timeline

/-! ## Every operation -/

/-- The operations of a timeline's runs, and the helpers of boot, rollback and replay. -/
inductive TimelineCall
  | live (op : TimelineOp)
  | recordOperation (session : SessionId) (operation : Operation) (author : Author)
      (eventId : EventId)
  | createBranchSimple (name : String) (branchId : BranchId)
  | restoreAppliedHeadState (b : BranchId) (state : Option (Option EventIndex))
  | rehydrateBranch (id : BranchId) (name : String) (parent : Option BranchId)
      (forkEventIndex : EventIndex) (createdBy : Option Author)
  | rehydrateEvents (events : List TimelineEvent)
  | ensureNextSequenceAtLeast (next : EventIndex)
  | rehydrateBranchEntries (b : BranchId) (entries : EntrySequence)
  | restoreBranchState (b : BranchId) (state : BranchState)
  | removeBranchEntries (b : BranchId) (sequences : List EventIndex)
  | revertMerge (source target : BranchId) (inserted : List EventIndex)
  | removeBranch (b : BranchId)
  | replayToIndex (session : SessionId) (index : EventIndex)

namespace TimelineCall

/-- The branch identifier a call draws is not in use. -/
def Enabled (t : Timeline) : TimelineCall → Prop
  | .live (.createBranch _ _ _ _ branchId) | .createBranchSimple _ branchId =>
    branchId ∉ t.branchEvents
  | _ => True

variable [UuidParser]

/-- The outcome of a call, whether it succeeds or not. -/
def step (s : TimelineRun) : TimelineCall → TimelineRun
  | .live op => s.step op
  | .recordOperation session operation author eventId =>
    { s with timeline := (s.timeline.recordOperation session operation author eventId).2 }
  | .createBranchSimple name branchId =>
    { s with timeline := (s.timeline.createBranchSimple name branchId).2 }
  | .restoreAppliedHeadState b state =>
    { s with timeline := (s.timeline.restoreAppliedHeadState b state).2 }
  | .rehydrateBranch id name parent forkEventIndex createdBy =>
    { s with timeline := s.timeline.rehydrateBranch id name parent forkEventIndex createdBy }
  | .rehydrateEvents events => { s with timeline := (s.timeline.rehydrateEvents events).2 }
  | .ensureNextSequenceAtLeast next =>
    { s with timeline := s.timeline.ensureNextSequenceAtLeast next }
  | .rehydrateBranchEntries b entries =>
    { s with timeline := (s.timeline.rehydrateBranchEntries b entries).2 }
  | .restoreBranchState b state =>
    { s with timeline := (s.timeline.restoreBranchState b state).2 }
  | .removeBranchEntries b sequences =>
    { s with timeline := (s.timeline.removeBranchEntries b sequences).2 }
  | .revertMerge source target inserted =>
    { s with timeline := (s.timeline.revertMerge source target inserted).2 }
  | .removeBranch b => { s with timeline := (s.timeline.removeBranch b).2 }
  | .replayToIndex session index =>
    { s with timeline := (s.timeline.replayToIndex session index).2 }

end TimelineCall

def timelineCalls [UuidParser] : GuardedSystem TimelineRun TimelineCall where
  init := ⟨.new, []⟩
  enabled s := TimelineCall.Enabled s.timeline
  step := TimelineCall.step

namespace Timeline

/-! ## Cursors -/

/-- A session stands on a branch and at most at its end, an applied head stops short of the end. -/
structure CursorsInRange (t : Timeline) : Prop where
  sessions : ∀ (s : SessionId) (pos : SessionPosition), t.sessionPositions[s]? = some pos →
    pos.branchId ∈ t.branchEvents ∧ pos.eventIndex ≤ (t.index pos.branchId).size
  heads : ∀ (b : BranchId) (h : EventIndex), t.appliedHeads[b]? = some h → h < (t.index b).size

structure CursorsWithin (t : Timeline) (b : BranchId) (n : ℕ) : Prop where
  sessions : ∀ (s : SessionId) (pos : SessionPosition), t.sessionPositions[s]? = some pos →
    pos.branchId = b → pos.eventIndex ≤ n
  head : ∀ h, t.appliedHeads[b]? = some h → h < n

def keptCount (t : Timeline) (b : BranchId) (sequences : List EventIndex) : ℕ :=
  ((t.index b).keys.filter (· ∉ sequences)).length

end Timeline

/-- **When a call keeps the cursors in range.** Only four calls ask for anything. -/
def TimelineCall.KeepsCursors [UuidParser] (t : Timeline) : TimelineCall → Prop
  | .removeBranchEntries b sequences =>
    b ∈ t.branchEvents → t.CursorsWithin b (t.keptCount b sequences)
  | .revertMerge source target inserted =>
    (∃ now, t.stateOf source = some (.merged target now)) → target ∈ t.branchEvents →
      t.CursorsWithin target (t.keptCount target inserted)
  | .removeBranch b =>
    ¬ t.branches[b]?.any Branch.isProtected → b ≠ .main →
      (∀ (s : SessionId) (pos : SessionPosition), t.sessionPositions[s]? = some pos →
        pos.branchId ≠ b) ∧ t.appliedHeads[b]? = none
  | .replayToIndex session index =>
    ∀ uuid, UuidParser.parseStr session = some uuid → t.sessionBranch uuid ∈ t.branchEvents →
      index ≤ (t.index (t.sessionBranch uuid)).size
  | _ => True

namespace Timeline

/-! ## Histories that grow -/

section Grow

variable {t t' : Timeline}

section

variable (h : t.CursorsInRange)

include h

theorem CursorsInRange.of_grows (hsessions : t'.sessionPositions = t.sessionPositions)
    (hheads : t'.appliedHeads = t.appliedHeads) (hmem : ∀ b ∈ t.branchEvents, b ∈ t'.branchEvents)
    (hsize : ∀ b, (t.index b).size ≤ (t'.index b).size) : t'.CursorsInRange where
  sessions s pos hpos := by
    obtain ⟨hb, hle⟩ := h.sessions s pos (hsessions ▸ hpos)
    exact ⟨hmem _ hb, hle.trans (hsize _)⟩
  heads b head hhead := (h.heads b head (hheads ▸ hhead)).trans_le (hsize b)

theorem CursorsInRange.of_eq (hsessions : t'.sessionPositions = t.sessionPositions)
    (hheads : t'.appliedHeads = t.appliedHeads) (hindex : t'.branchEvents = t.branchEvents) :
    t'.CursorsInRange := by
  refine h.of_grows hsessions hheads (fun b hb ↦ hindex ▸ hb) fun b ↦ ?_
  rw [index, index, hindex]

theorem CursorsInRange.setState (b : BranchId) (s : BranchState) :
    (t.setState b s).CursorsInRange :=
  h.of_eq rfl rfl rfl

theorem CursorsInRange.withEntries (b : BranchId)
    (entries : EntrySequence) : (t.withEntries b entries).CursorsInRange := by
  refine h.of_grows rfl rfl (fun c hc ↦ mem_branchEvents_withEntries.mpr hc) fun c ↦ ?_
  by_cases hb : b ∈ t.branchEvents
  · rw [index_withEntries hb]
    split
    · exact OrderedMap.size_le_of_subset fun k hk ↦ OrderedMap.mem_insertEntries.mpr (.inr hk)
    · exact le_rfl
  · have hsame : (t.withEntries b entries).index c = t.index c := by
      rw [index, index]
      simp only [Timeline.withEntries, OrderedMap.getElem?_modifyKeys, List.mem_singleton]
      by_cases hc : c = b
      · rw [if_pos hc, hc, OrderedMap.not_mem_iff.mp hb, Option.map_none]
      · rw [if_neg hc]
    exact hsame ▸ le_rfl

theorem CursorsInRange.insertEvent {ev : TimelineEvent}
    (hb : ev.branchId ∈ t.branchEvents) : (t.insertEvent ev).CursorsInRange :=
  h.of_grows rfl rfl (fun _ hc ↦ mem_branchEvents_insertEvent.mpr hc)
    (size_index_le_insertEvent hb)

theorem CursorsInRange.withBranch {branchId : BranchId}
    (hnew : branchId ∉ t.branchEvents) (m : BranchIndex) (r : Branch) :
    (t.withBranch branchId m r).CursorsInRange := by
  refine h.of_grows rfl rfl (fun b hb ↦ mem_branchEvents_withBranch.mpr (.inr hb)) fun b ↦ ?_
  rw [index_withBranch]
  split
  · next hb =>
    rw [hb, index, OrderedMap.not_mem_iff.mp hnew]
    exact Nat.zero_le _
  · exact le_rfl

theorem CursorsInRange.eraseHead (b : BranchId) :
    ({ t with appliedHeads := t.appliedHeads.erase b } : Timeline).CursorsInRange where
  sessions := h.sessions
  heads c head hhead := by
    rw [OrderedMap.lookup_erase] at hhead
    split at hhead
    · cases hhead
    · exact h.heads c head hhead

end

end Grow

/-! ## Calls that keep every cursor in range -/

section Keep

variable {t : Timeline}

theorem CursorsInRange.applyTruncatePlan (h : t.CursorsInRange) (plan : TruncatePlan)
    (cut : EventIndex) : (t.applyTruncatePlan plan cut).CursorsInRange where
  sessions s pos hpos := by
    rw [applyTruncatePlan_sessionPositions] at hpos
    obtain ⟨pos₀, hpos₀, rfl⟩ := Option.map_eq_some_iff.mp hpos
    obtain ⟨hmem, hlen⟩ := h.sessions s pos₀ hpos₀
    rw [mem_branchEvents_applyTruncatePlan]
    split
    · exact ⟨hmem, min_le_right _ _⟩
    · next hnot =>
      rw [index_applyTruncatePlan, if_neg hnot]
      exact ⟨hmem, hlen⟩
  heads c head hhead := by
    rw [applyTruncatePlan_appliedHeads] at hhead
    obtain ⟨hhead, hkeep⟩ := Option.filter_eq_some_iff.mp hhead
    rw [decide_eq_true_eq, not_and, not_le] at hkeep
    by_cases hc : plan.Scrubs c
    · exact hkeep hc
    · rw [index_applyTruncatePlan, if_neg hc]
      exact h.heads c head hhead

theorem CursorsInRange.discardRedoTail (h : t.CursorsInRange) (b : BranchId) :
    (t.discardRedoTail b).2.CursorsInRange := by
  rw [Timeline.discardRedoTail]
  rcases t.appliedHead b with - | count
  · exact h
  rcases t.branchEventKeysSorted b with e | keys
  · exact h
  dsimp only
  rcases keys[count]? with - | cut
  · exact h.eraseHead b
  dsimp only
  rcases t.truncatePlan b cut with e | plan
  · exact h
  have hcleared := (h.applyTruncatePlan plan cut).eraseHead b
  dsimp only
  split
  · exact hcleared
  · exact hcleared

theorem CursorsInRange.appendInternal [UuidParser] (h : t.CursorsInRange) (operation : Operation)
    (author : Author) (b : BranchId) (taken : Option EventIndex) (eventId : EventId) :
    (t.appendInternal operation author b taken eventId).2.CursorsInRange := by
  rw [Timeline.appendInternal]
  rcases t.branches[b]? with - | branch
  · exact h
  dsimp only
  rcases appendRefusal b branch.state with - | e
  · dsimp only
    by_cases hb : b ∉ t.branchEvents
    · rw [if_pos hb]
      exact h
    · rw [if_neg hb]
      have hdiscard := h.discardRedoTail b
      generalize t.discardRedoTail b = outcome at hdiscard ⊢
      obtain ⟨e | discarded, t'⟩ := outcome
      · exact hdiscard
      · -- a number drawn from the counter or reserved before moves no cursor
        have htaken : (t'.takeSequence taken).2.CursorsInRange := by
          cases taken with
          | none => exact CursorsInRange.of_eq hdiscard rfl rfl rfl
          | some seq => exact hdiscard
        dsimp only
        by_cases hb' : b ∉ (t'.takeSequence taken).2.branchEvents
        · rw [if_pos hb']
          exact htaken
        · rw [if_neg hb']
          exact htaken.insertEvent (not_not.mp hb')
  · exact h

theorem CursorsInRange.createBranch (h : t.CursorsInRange) (name : String) (parent : BranchId)
    (forkPoint : Option EventIndex) (author : Author) {branchId : BranchId}
    (hnew : branchId ∉ t.branchEvents) :
    (t.createBranch name parent forkPoint author branchId).2.CursorsInRange := by
  obtain ⟨-, heq⟩ | ⟨-, heq⟩ := createBranch_cases t name parent forkPoint author branchId
  · rw [heq]
    exact h
  · rw [heq]
    exact h.withBranch hnew _ _

theorem mergeSequences_outcome (t : Timeline) (source target : BranchId)
    (strategy : MergeStrategy) (now : Timestamp) (sourceSeq targetSeq : EntrySequence) :
    (t.mergeSequences source target strategy now sourceSeq targetSeq).2 = t ∨ ∃ entries,
      (t.mergeSequences source target strategy now sourceSeq targetSeq).2 =
        (t.withEntries target entries).setState source (.merged target now) := by
  rw [mergeSequences]
  split
  · exact .inr ⟨[], by rw [withEntries_nil]⟩
  split
  · dsimp only
    split
    · exact .inl rfl
    · exact .inr ⟨_, rfl⟩
  split
  · exact .inl rfl
  · dsimp only
    split
    · exact .inl rfl
    split
    · exact .inl rfl
    · exact .inr ⟨_, rfl⟩

section

variable (h : t.CursorsInRange)

include h

theorem CursorsInRange.mergeBranches (source target : BranchId)
    (strategy : MergeStrategy) (now : Timestamp) :
    (t.mergeBranches source target strategy now).2.CursorsInRange := by
  rw [Timeline.mergeBranches]
  repeat' split
  all_goals try exact h
  obtain heq | ⟨entries, heq⟩ := mergeSequences_outcome t source target strategy now _ _
  · rw [heq]
    exact h
  · rw [heq]
    exact (h.withEntries target entries).setState source _

theorem CursorsInRange.updateSessionPosition (session : SessionId)
    (b : BranchId) (i : EventIndex) : (t.updateSessionPosition session b i).2.CursorsInRange := by
  obtain ⟨e, heq⟩ | ⟨hb, hi, heq⟩ := updateSessionPosition_cases t session b i
  · rw [heq]
    exact h
  · rw [heq]
    refine ⟨fun s pos hpos ↦ ?_, h.heads⟩
    rw [OrderedMap.lookup_insert] at hpos
    split at hpos
    · cases hpos
      exact ⟨hb, hi⟩
    · exact h.sessions s pos hpos

theorem CursorsInRange.setAppliedHead (b : BranchId) (count : EventIndex) :
    (t.setAppliedHead b count).2.CursorsInRange := by
  obtain ⟨e, heq⟩ | ⟨-, -, heq⟩ | ⟨-, hlt, heq⟩ := setAppliedHead_cases t b count
  · rw [heq]
    exact h
  · rw [heq]
    exact h.eraseHead b
  · rw [heq]
    refine ⟨h.sessions, fun c head hhead ↦ ?_⟩
    rw [OrderedMap.lookup_insert] at hhead
    split at hhead
    · next hc =>
      cases hhead
      exact hc ▸ hlt
    · exact h.heads c head hhead

theorem CursorsInRange.truncateBranch (b : BranchId) (cut : EventIndex)
    (force : Bool) : (t.truncateBranch b cut force).2.CursorsInRange := by
  rw [Timeline.truncateBranch]
  split
  · exact h
  · split
    · exact h
    · exact h.applyTruncatePlan _ cut

theorem CursorsInRange.abandonBranch (b : BranchId) (reason : String)
    (force : Bool) : (t.abandonBranch b reason force).2.CursorsInRange := by
  obtain ⟨e, heq⟩ | ⟨-, heq⟩ := abandonBranch_cases t b reason force
  · rw [heq]
    exact h
  · rw [heq]
    exact h.setState b _

theorem CursorsInRange.undo (session : SessionId) :
    (t.undo session).2.CursorsInRange := by
  obtain heq | ⟨b, i, heq⟩ := undo_cases t session
  · rw [heq]
    exact h
  · rw [heq]
    exact h.updateSessionPosition session b i

theorem CursorsInRange.redo (session : SessionId) :
    (t.redo session).2.CursorsInRange := by
  obtain heq | ⟨b, i, heq⟩ := redo_cases t session
  · rw [heq]
    exact h
  · rw [heq]
    exact h.updateSessionPosition session b i

theorem CursorsInRange.restoreAppliedHeadState (b : BranchId) (state : Option (Option EventIndex)) :
    (t.restoreAppliedHeadState b state).2.CursorsInRange := by
  rw [Timeline.restoreAppliedHeadState]
  rcases t.branchEventKeysSorted b with e | keys
  · exact h
  · rcases state with - | - | seq
    · exact h.eraseHead b
    · exact h.setAppliedHead b 0
    · exact h.setAppliedHead b _

theorem CursorsInRange.rehydrateBranch (id : BranchId) (name : String)
    (parent : Option BranchId) (forkEventIndex : EventIndex) (createdBy : Option Author) :
    (t.rehydrateBranch id name parent forkEventIndex createdBy).CursorsInRange := by
  rw [Timeline.rehydrateBranch]
  split
  · exact h
  · have hlookup : ∀ b : BranchId, (t.branchEvents.insertIfNew id ∅)[b]? =
        if b = id ∧ id ∉ t.branchEvents then some ∅ else t.branchEvents[b]? := by
      intro b
      simp only [Std.ExtTreeMap.getElem?_insertIfNew, Std.LawfulEqOrd.compare_eq_iff_eq,
        eq_comm (a := b)]
    refine h.of_grows rfl rfl (fun b hb ↦ ?_) fun b ↦ ?_
    · exact Std.ExtTreeMap.mem_insertIfNew.mpr (.inr hb)
    · rw [index, index, hlookup]
      split
      · next hnew =>
        rw [hnew.1, OrderedMap.not_mem_iff.mp hnew.2]
        exact le_rfl
      · exact le_rfl

theorem CursorsInRange.rehydrateEvents (events : List TimelineEvent) :
    (t.rehydrateEvents events).2.CursorsInRange := by
  rw [Timeline.rehydrateEvents]
  generalize t.eventCounter = nextSeq
  induction events generalizing t nextSeq with
  | nil => exact h.of_eq rfl rfl rfl
  | cons ev events ih =>
    rw [rehydrateFrom]
    by_cases hb : ev.branchId ∉ t.branchEvents
    · rw [if_pos hb]
      exact h
    · rw [if_neg hb]
      exact ih (h.insertEvent (not_not.mp hb)) _

theorem CursorsInRange.rehydrateBranchEntries (b : BranchId)
    (entries : EntrySequence) : (t.rehydrateBranchEntries b entries).2.CursorsInRange := by
  rw [Timeline.rehydrateBranchEntries]
  split
  · exact h
  split
  · exact h
  split
  · exact h
  · exact h.withEntries b entries

theorem CursorsInRange.restoreBranchState (b : BranchId)
    (state : BranchState) : (t.restoreBranchState b state).2.CursorsInRange := by
  rw [Timeline.restoreBranchState]
  split
  · exact h
  · exact h.setState b state

end

theorem CursorsInRange.liveStep [UuidParser] {s : TimelineRun} (h : s.timeline.CursorsInRange)
    {op : TimelineOp} (he : TimelineCall.Enabled s.timeline (.live op)) :
    (s.step op).timeline.CursorsInRange := by
  cases op with
  | reserveSequenceNumber => exact h.of_eq rfl rfl rfl
  | addOperation operation author b eventId =>
    exact h.appendInternal operation author b none eventId
  | addOperationReserved operation author b seq eventId =>
    exact h.appendInternal operation author b (some seq) eventId
  | createBranch name parent forkPoint author branchId =>
    exact h.createBranch name parent forkPoint author he
  | mergeBranches source target strategy now => exact h.mergeBranches source target strategy now
  | truncateBranch b cut force => exact h.truncateBranch b cut force
  | abandonBranch b reason force => exact h.abandonBranch b reason force
  | updateSessionPosition session b i => exact h.updateSessionPosition session b i
  | setAppliedHead b count => exact h.setAppliedHead b count
  | undo session => exact h.undo session
  | redo session => exact h.redo session

end Keep

/-! ## Calls that may leave a cursor behind -/

section Leave

variable {t : Timeline}

theorem size_eraseKeys (m : BranchIndex) (sequences : List EventIndex) :
    (m.eraseKeys sequences).size = (m.keys.filter (· ∉ sequences)).length := by
  rw [← Std.ExtTreeMap.length_keys]
  refine List.Perm.length_eq ((List.perm_ext_iff_of_nodup Std.ExtTreeMap.nodup_keys
    (Std.ExtTreeMap.nodup_keys.filter _)).mpr fun k ↦ ?_)
  rw [List.mem_filter, Std.ExtTreeMap.mem_keys, Std.ExtTreeMap.mem_keys, decide_eq_true_eq,
    OrderedMap.mem_iff_exists, OrderedMap.mem_iff_exists, OrderedMap.getElem?_eraseKeys]
  by_cases hk : k ∈ sequences
  · simp [hk]
  · simp [hk]

theorem CursorsInRange.withoutEntries_iff (h : t.CursorsInRange) {b : BranchId}
    (hb : b ∈ t.branchEvents) (sequences : List EventIndex) :
    (t.withoutEntries b sequences).CursorsInRange ↔
      t.CursorsWithin b (t.keptCount b sequences) := by
  have hsize : ((t.withoutEntries b sequences).index b).size = t.keptCount b sequences := by
    rw [index_withoutEntries hb, if_pos rfl, size_eraseKeys, keptCount]
  constructor
  · intro h'
    refine ⟨fun s pos hpos hbranch ↦ ?_, fun head hhead ↦ ?_⟩
    · have hle := (h'.sessions s pos hpos).2
      rwa [hbranch, hsize] at hle
    · rw [← hsize]
      exact h'.heads b head hhead
  · intro hwithin
    refine ⟨fun s pos hpos ↦ ?_, fun c head hhead ↦ ?_⟩
    · obtain ⟨hmem, hle⟩ := h.sessions s pos hpos
      refine ⟨mem_branchEvents_withoutEntries.mpr hmem, ?_⟩
      -- an index that is not shortened keeps its bound
      by_cases hbranch : pos.branchId = b
      · rw [hbranch, hsize]
        exact hwithin.sessions s pos hpos hbranch
      · rw [index_withoutEntries hb, if_neg hbranch]
        exact hle
    · by_cases hc : c = b
      · rw [hc, hsize]
        exact hwithin.head head (hc ▸ hhead)
      · rw [index_withoutEntries hb, if_neg hc]
        exact h.heads c head hhead

theorem CursorsInRange.removeBranchEntries_iff (h : t.CursorsInRange) (b : BranchId)
    (sequences : List EventIndex) : (t.removeBranchEntries b sequences).2.CursorsInRange ↔
      (b ∈ t.branchEvents → t.CursorsWithin b (t.keptCount b sequences)) := by
  rw [removeBranchEntries]
  by_cases hb : b ∉ t.branchEvents
  · rw [if_pos hb]
    exact iff_of_true h fun hmem ↦ absurd hmem hb
  · rw [if_neg hb]
    have hb := not_not.mp hb
    exact (h.withoutEntries_iff hb sequences).trans ⟨fun hwithin _ ↦ hwithin, fun hall ↦ hall hb⟩

theorem cursorsInRange_setState_iff {b : BranchId} {state : BranchState} :
    (t.setState b state).CursorsInRange ↔ t.CursorsInRange :=
  ⟨fun h ↦ h.of_eq rfl rfl rfl, fun h ↦ h.setState b state⟩

theorem CursorsInRange.revertMerge_iff (h : t.CursorsInRange) (source target : BranchId)
    (inserted : List EventIndex) : (t.revertMerge source target inserted).2.CursorsInRange ↔
      ((∃ now, t.stateOf source = some (.merged target now)) → target ∈ t.branchEvents →
        t.CursorsWithin target (t.keptCount target inserted)) := by
  by_cases hmerged : ∃ now, t.stateOf source = some (.merged target now)
  · obtain ⟨now, hs⟩ := hmerged
    by_cases htarget : target ∈ t.branchEvents
    · rw [revertMerge_of_merged hs htarget, cursorsInRange_setState_iff,
        h.withoutEntries_iff htarget]
      exact ⟨fun hwithin _ _ ↦ hwithin, fun hall ↦ hall ⟨now, hs⟩ htarget⟩
    · obtain ⟨r, hr, hstate⟩ := Option.map_eq_some_iff.mp hs
      have hsame : (t.revertMerge source target inserted).2 = t := by
        simp only [revertMerge, hr, hstate, if_true, htarget, not_false_eq_true]
      rw [hsame]
      exact iff_of_true h fun _ hmem ↦ absurd hmem htarget
  · have hsame : (t.revertMerge source target inserted).2 = t := by
      rw [revertMerge]
      rcases hr : t.branches[source]? with - | branch
      · rfl
      · dsimp only
        rcases hstate : branch.state with - | ⟨into, now⟩ | - | -
        · rfl
        · by_cases hinto : into = target
          · subst hinto
            exact absurd ⟨now, by rw [stateOf, hr, Option.map_some, hstate]⟩ hmerged
          · exact congrArg Prod.snd (if_neg hinto)
        · rfl
        · rfl
    rw [hsame]
    exact iff_of_true h fun hex ↦ absurd hex hmerged

theorem CursorsInRange.removeBranch_iff (h : t.CursorsInRange) (b : BranchId) :
    (t.removeBranch b).2.CursorsInRange ↔
      (¬ t.branches[b]?.any Branch.isProtected → b ≠ .main →
        (∀ (s : SessionId) (pos : SessionPosition), t.sessionPositions[s]? = some pos →
          pos.branchId ≠ b) ∧ t.appliedHeads[b]? = none) := by
  rw [removeBranch]
  by_cases hkept : t.branches[b]?.any Branch.isProtected ∨ b = .main
  · rw [if_pos hkept]
    exact iff_of_true h fun hprotected hmain ↦ absurd (hkept.resolve_left hprotected) hmain
  rw [if_neg hkept]
  obtain ⟨hprotected, hmain⟩ := not_or.mp hkept
  -- the index goes with the record, the cursors stay
  have hlookup : ∀ c : BranchId, (t.branchEvents.erase b)[c]? =
      if c = b then none else t.branchEvents[c]? := fun c ↦ OrderedMap.lookup_erase _ b c
  have hindex : ∀ c, c ≠ b → ({ t with
      branches := t.branches.erase b, branchEvents := t.branchEvents.erase b } :
        Timeline).index c = t.index c := by
    intro c hc
    rw [index, index, hlookup, if_neg hc]
  constructor
  · intro h' _ _
    refine ⟨fun s pos hpos hbranch ↦ ?_, ?_⟩
    · have hgone : b ∉ t.branchEvents.erase b :=
        OrderedMap.not_mem_iff.mpr ((hlookup b).trans (if_pos rfl))
      exact hgone (hbranch ▸ (h'.sessions s pos hpos).1)
    · rcases hhead : t.appliedHeads[b]? with - | head
      · rfl
      · have hlt := h'.heads b head hhead
        rw [index, hlookup, if_pos rfl] at hlt
        exact absurd hlt (Nat.not_lt_zero head)
  · intro hall
    obtain ⟨hsessions, hhead⟩ := hall hprotected hmain
    refine ⟨fun s pos hpos ↦ ?_, fun c head hc ↦ ?_⟩
    · obtain ⟨hmem, hle⟩ := h.sessions s pos hpos
      have hne := hsessions s pos hpos
      refine ⟨?_, (hindex _ hne).symm ▸ hle⟩
      obtain ⟨m, hm⟩ := OrderedMap.mem_iff_exists.mp hmem
      exact OrderedMap.mem_of_getElem? ((hlookup _).trans ((if_neg hne).trans hm))
    · have hne : c ≠ b := by
        rintro rfl
        rw [show t.appliedHeads[c]? = some head from hc] at hhead
        contradiction
      exact (hindex c hne).symm ▸ h.heads c head hc

theorem CursorsInRange.replayToIndex_iff [UuidParser] (h : t.CursorsInRange) (session : SessionId)
    (index : EventIndex) : (t.replayToIndex session index).2.CursorsInRange ↔
      ∀ uuid, UuidParser.parseStr session = some uuid → t.sessionBranch uuid ∈ t.branchEvents →
        index ≤ (t.index (t.sessionBranch uuid)).size := by
  rw [replayToIndex]
  rcases UuidParser.parseStr session with - | uuid
  · exact iff_of_true h nofun
  dsimp only
  by_cases hb : t.sessionBranch uuid ∉ t.branchEvents
  · rw [if_pos hb]
    refine iff_of_true h fun uuid' huuid hmem ↦ ?_
    obtain rfl := Option.some.inj huuid
    exact absurd hmem hb
  rw [if_neg hb]
  have hb := not_not.mp hb
  constructor
  · intro h' uuid' huuid _
    obtain rfl := Option.some.inj huuid
    refine (h'.sessions session ⟨t.sessionBranch uuid, index⟩ ?_).2
    rw [OrderedMap.lookup_insert, if_pos rfl]
  · intro hle
    refine ⟨fun s pos hpos ↦ ?_, h.heads⟩
    rw [OrderedMap.lookup_insert] at hpos
    split at hpos
    · cases hpos
      exact ⟨hb, hle uuid rfl hb⟩
    · exact h.sessions s pos hpos

end Leave

end Timeline

/-! ## Calls and runs -/

section Calls

variable [UuidParser] {s : TimelineRun}

theorem TimelineCall.step_cursors_iff (h : s.timeline.CursorsInRange) {call : TimelineCall}
    (he : call.Enabled s.timeline) :
    (call.step s).timeline.CursorsInRange ↔ call.KeepsCursors s.timeline := by
  cases call with
  | live op => exact iff_of_true (h.liveStep he) trivial
  | recordOperation session operation author eventId =>
    refine iff_of_true ?_ trivial
    change (s.timeline.recordOperation session operation author eventId).2.CursorsInRange
    rw [Timeline.recordOperation]
    split
    · exact h
    · exact h.appendInternal operation author _ none eventId
  | createBranchSimple name branchId =>
    exact iff_of_true (h.createBranch name .main none .system he) trivial
  | restoreAppliedHeadState b state => exact iff_of_true (h.restoreAppliedHeadState b state) trivial
  | rehydrateBranch id name parent forkEventIndex createdBy =>
    exact iff_of_true (h.rehydrateBranch id name parent forkEventIndex createdBy) trivial
  | rehydrateEvents events => exact iff_of_true (h.rehydrateEvents events) trivial
  | ensureNextSequenceAtLeast next => exact iff_of_true (h.of_eq rfl rfl rfl) trivial
  | rehydrateBranchEntries b entries =>
    exact iff_of_true (h.rehydrateBranchEntries b entries) trivial
  | restoreBranchState b state => exact iff_of_true (h.restoreBranchState b state) trivial
  | removeBranchEntries b sequences => exact h.removeBranchEntries_iff b sequences
  | revertMerge source target inserted => exact h.revertMerge_iff source target inserted
  | removeBranch b => exact h.removeBranch_iff b
  | replayToIndex session index => exact h.replayToIndex_iff session index

omit [UuidParser] in
theorem Timeline.new_cursorsInRange : Timeline.new.CursorsInRange := by
  refine ⟨fun s pos hpos ↦ ?_, fun b head hhead ↦ ?_⟩
  · exact absurd (OrderedMap.mem_of_getElem? hpos) Std.ExtTreeMap.not_mem_empty
  · exact absurd (OrderedMap.mem_of_getElem? hhead) Std.ExtTreeMap.not_mem_empty

/-- **Cursors of a timeline**: a call leaves them in range just when its condition holds, so they
are in range all along a run whose calls meet it. -/
theorem cursorsInRange_of_calls :
    (∀ (s : TimelineRun) (call : TimelineCall), s.timeline.CursorsInRange →
      call.Enabled s.timeline →
      ((call.step s).timeline.CursorsInRange ↔ call.KeepsCursors s.timeline)) ∧
    ∀ s, timelineCalls.ReachableUnder (fun s call ↦ call.KeepsCursors s.timeline) s →
      s.timeline.CursorsInRange := by
  refine ⟨fun s call h he ↦ TimelineCall.step_cursors_iff h he, fun s hs ↦ ?_⟩
  exact hs.invariant (fun s ↦ s.timeline.CursorsInRange) Timeline.new_cursorsInRange
    fun s call _ h he hkeeps ↦ (TimelineCall.step_cursors_iff h he).mpr hkeeps

end Calls

/-- Taking back a fork no session stands on keeps the cursors in range. -/
theorem cursorsInRange_of_calls_sideBranch :
    letI := noUuids
    (TimelineCall.step (exampleRun sideBranchOps)
      (.removeBranch (exampleBranch 1))).timeline.CursorsInRange := by
  let _ := noUuids
  have hwell := reachable_wellFormed (s := exampleRun sideBranchOps)
    (GuardedSystem.ReachableUnder.run .init (by decide))
  have hsessions : (exampleRun sideBranchOps).timeline.sessionPositions = ∅ := rfl
  refine (cursorsInRange_of_calls.1 (exampleRun sideBranchOps) (.removeBranch (exampleBranch 1))
    ⟨hwell.sessions_in_range, hwell.heads_short⟩ trivial).mpr fun _ _ ↦ ⟨fun s pos hpos ↦ ?_, rfl⟩
  rw [hsessions] at hpos
  exact absurd (OrderedMap.mem_of_getElem? hpos) Std.ExtTreeMap.not_mem_empty

/-- Replaying a new timeline to index one leaves the session beyond the end. -/
theorem not_cursorsInRange_of_calls :
    letI := KernelRef.hyphenatedUuids
    ¬ ∀ (s : TimelineRun) (call : TimelineCall), s.timeline.CursorsInRange →
      call.Enabled s.timeline → (call.step s).timeline.CursorsInRange := by
  let _ : UuidParser := KernelRef.hyphenatedUuids
  intro hall
  have hafter := hall ⟨.new, []⟩ (.replayToIndex Uuid.nil.toText 1) Timeline.new_cursorsInRange
    trivial
  have hle := (Timeline.new_cursorsInRange.replayToIndex_iff Uuid.nil.toText 1).mp hafter Uuid.nil
    (KernelRef.hyphenatedUuids_toText Uuid.nil) (by decide)
  exact absurd hle (by decide)

end RosheraCad
