import RosheraCad.Timeline.Merge

/-!
# Rehydration

Boot puts a stored history back: the events verbatim, each under the branch that recorded it, then
the entries a branch holds without having recorded them, then without the entries its own history
has dropped.
-/

namespace RosheraCad

namespace Timeline

variable (t : Timeline)

/-! ## The operations -/

def ensureNextSequenceAtLeast (next : EventIndex) : Timeline :=
  { t with eventCounter := max t.eventCounter next }

/-- Reinsert events, the first one without a branch ending the walk, and count past each. -/
def rehydrateFrom (t : Timeline) (nextSeq : EventIndex) : List TimelineEvent → Outcome Unit
  | [] => (.ok (), t.ensureNextSequenceAtLeast nextSeq)
  | event :: events =>
    if event.branchId ∉ t.branchEvents then (.error (.branchNotFound event.branchId), t)
    else
      (t.insertEvent event).rehydrateFrom (max nextSeq (event.sequenceNumber + 1)) events

/-- Reinsert persisted events verbatim, preserving their ids and sequence numbers. -/
def rehydrateEvents (events : List TimelineEvent) : Outcome Unit :=
  t.rehydrateFrom t.eventCounter events

def misfiled (b : BranchId) (entry : EventIndex × EventId) : Option TimelineError :=
  match t.events[entry.2]? with
  | none => some (.eventNotFound entry.2)
  | some event =>
    if event.sequenceNumber = entry.1 then none
    else some (.internal ("event " ++ entry.2.toText ++ " is recorded at sequence "
      ++ toString event.sequenceNumber ++ ", not " ++ toString entry.1
      ++ "; refusing to file it in branch " ++ b.toText ++ " under the wrong position"))

def rehydrateBranchEntries (b : BranchId) (entries : EntrySequence) : Outcome Unit :=
  if b ∉ t.branches then (.error (.branchNotFound b), t)
  else
    match entries.findSome? (t.misfiled b) with
    | some e => (.error e, t)
    | none =>
      if b ∉ t.branchEvents then (.error (.branchNotFound b), t)
      else (.ok (), t.withEntries b entries)

def withoutEntries (b : BranchId) (sequences : List EventIndex) : Timeline :=
  { t with branchEvents := t.branchEvents.modifyKeys [b] fun m ↦ m.eraseKeys sequences }

def removeBranchEntries (b : BranchId) (sequences : List EventIndex) : Outcome Unit :=
  if b ∉ t.branchEvents then (.error (.branchNotFound b), t)
  else (.ok (), t.withoutEntries b sequences)

/-! ## What they restore -/

section Spec

variable {t} {b : BranchId}

structure Rehydrated (t t' : Timeline) (events : List TimelineEvent) : Prop where
  index (b : BranchId) : t'.index b = (t.index b).insertEntries
    ((events.filter fun ev ↦ ev.branchId = b).map fun ev ↦ (ev.sequenceNumber, ev.id))
  events : t'.events = t.events.insertEntries (events.map fun ev ↦ (ev.id, ev))
  branches : t'.branches = t.branches
  appliedHeads : t'.appliedHeads = t.appliedHeads
  mem_branchEvents (b : BranchId) : b ∈ t'.branchEvents ↔ b ∈ t.branchEvents

theorem Rehydrated.cons {t' : Timeline} {ev : TimelineEvent} {events : List TimelineEvent}
    (hev : ev.branchId ∈ t.branchEvents) (h : Rehydrated (t.insertEvent ev) t' events) :
    Rehydrated t t' (ev :: events) where
  index b := by
    rw [h.index, index_insertEvent hev, List.filter_cons]
    by_cases hb : b = ev.branchId
    · rw [if_pos hb, if_pos (decide_eq_true hb.symm)]
      rfl
    · have hb' : ¬ decide (ev.branchId = b) = true := fun heq ↦ hb (of_decide_eq_true heq).symm
      rw [if_neg hb, if_neg hb']
  events := h.events
  branches := h.branches
  appliedHeads := h.appliedHeads
  mem_branchEvents b := (h.mem_branchEvents b).trans mem_branchEvents_insertEvent

theorem rehydrateEvents_spec {events : List TimelineEvent}
    (hevents : ∀ ev ∈ events, ev.branchId ∈ t.branchEvents) :
    ∃ t', t.rehydrateEvents events = (.ok (), t') ∧ Rehydrated t t' events := by
  rw [rehydrateEvents]
  generalize t.eventCounter = nextSeq
  induction events generalizing t nextSeq with
  | nil =>
    refine ⟨_, rfl, fun b ↦ ?_, rfl, rfl, rfl, fun b ↦ Iff.rfl⟩
    rfl
  | cons ev events ih =>
    have hev : ev.branchId ∈ t.branchEvents := hevents ev List.mem_cons_self
    have htail : ∀ ev' ∈ events, ev'.branchId ∈ (t.insertEvent ev).branchEvents := by
      intro ev' hev'
      exact mem_branchEvents_insertEvent.mpr (hevents ev' (List.mem_cons_of_mem _ hev'))
    obtain ⟨t', heq, hspec⟩ := ih htail (max nextSeq (ev.sequenceNumber + 1))
    refine ⟨t', ?_, hspec.cons hev⟩
    rw [rehydrateFrom, if_neg (not_not_intro hev), heq]

theorem rehydrateBranchEntries_eq {entries : EntrySequence} (hb : b ∈ t.branches)
    (hb' : b ∈ t.branchEvents) (hentries : ∀ entry ∈ entries, ∃ ev,
      t.events[entry.2]? = some ev ∧ ev.sequenceNumber = entry.1) :
    t.rehydrateBranchEntries b entries = (.ok (), t.withEntries b entries) := by
  have hnone : entries.findSome? (t.misfiled b) = none := by
    refine List.findSome?_eq_none_iff.mpr fun entry hentry ↦ ?_
    obtain ⟨ev, hev, hseq⟩ := hentries entry hentry
    rw [misfiled, hev]
    exact if_pos hseq
  rw [rehydrateBranchEntries, if_neg (not_not_intro hb), hnone]
  exact if_neg (not_not_intro hb')

theorem removeBranchEntries_eq (hb : b ∈ t.branchEvents) (sequences : List EventIndex) :
    t.removeBranchEntries b sequences = (.ok (), t.withoutEntries b sequences) :=
  if_neg (not_not_intro hb)

theorem index_withoutEntries (hb : b ∈ t.branchEvents) (sequences : List EventIndex)
    (c : BranchId) : (t.withoutEntries b sequences).index c =
      if c = b then (t.index c).eraseKeys sequences else t.index c := by
  obtain ⟨m, hm⟩ := OrderedMap.mem_iff_exists.mp hb
  simp only [index, withoutEntries, OrderedMap.getElem?_modifyKeys, List.mem_singleton]
  by_cases hc : c = b
  · simp only [hc, hm, if_true, Option.map_some, Option.getD_some]
  · simp only [hc, if_false]

theorem mem_branchEvents_withoutEntries {sequences : List EventIndex} {c : BranchId} :
    c ∈ (t.withoutEntries b sequences).branchEvents ↔ c ∈ t.branchEvents := by
  simp only [withoutEntries, OrderedMap.mem_modifyKeys]

end Spec

end Timeline

end RosheraCad
