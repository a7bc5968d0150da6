import RosheraCad.Timeline.Truncate

/-!
# Applied heads and the append path

An undo leaves a branch with an applied head: the count of its history the document holds applied.
The entries past it are the redo tail, which a new operation discards for good. An append takes a
fresh sequence number, or one reserved earlier.
-/

namespace RosheraCad

structure RedoTailDiscard where
  branch : Branch
  removedSequences : List EventIndex
  purgedSequences : List EventIndex
  cascaded : List Branch

namespace Timeline

/-! ## Applied heads -/

section Head

variable (t : Timeline) (b : BranchId)

def appliedHead : Option EventIndex := t.appliedHeads[b]?

def appliedCount : Except TimelineError EventIndex :=
  match t.branchEvents[b]? with
  | none => .error (.branchNotFound b)
  | some m => .ok ((t.appliedHead b).elim m.size fun head ↦ min head m.size)

/-- Set the applied head of `b`. The length of the history clears the redo tail. -/
def setAppliedHead (count : EventIndex) : Outcome Unit :=
  match t.branchEvents[b]? with
  | none => (.error (.branchNotFound b), t)
  | some m =>
    if m.size < count then
      (.error (.invalidOperation [.text ("applied head " ++ toString count
        ++ " exceeds branch length " ++ toString m.size ++ " on " ++ b.toText)]), t)
    else if count = m.size then
      (.ok (), { t with appliedHeads := t.appliedHeads.erase b })
    else
      (.ok (), { t with appliedHeads := t.appliedHeads.insert b count })

def appliedHeadSequence (count : EventIndex) : Except TimelineError (Option EventIndex) :=
  match t.branchEventKeysSorted b with
  | .error e => .error e
  | .ok keys =>
    match count with
    | 0 => .ok none
    | last + 1 =>
      match keys[last]? with
      | some key => .ok (some key)
      | none => .error (.invalidOperation [.text ("applied head " ++ toString count
          ++ " exceeds branch length " ++ toString keys.length ++ " on " ++ b.toText)])

/-- The entries of `b`'s history the document holds applied, ascending. -/
def appliedEntries : List (EventIndex × EventId) :=
  (t.index b).toList.take ((t.appliedHead b).getD (t.index b).size)

def undoneEntries : List (EventIndex × EventId) :=
  (t.index b).toList.drop ((t.appliedHead b).getD (t.index b).size)

def discardRedoTail : Outcome (Option RedoTailDiscard) :=
  match t.appliedHead b with
  | none => (.ok none, t)
  | some count =>
    match t.branchEventKeysSorted b with
    | .error e => (.error e, t)
    | .ok keys =>
      match keys[count]? with
      | none => (.ok none, { t with appliedHeads := t.appliedHeads.erase b })
      | some cut =>
        match t.truncatePlan b cut with
        | .error e => (.error e, t)
        | .ok plan =>
          let truncated := t.applyTruncatePlan plan cut
          let t' := { truncated with appliedHeads := truncated.appliedHeads.erase b }
          match t'.branches[b]? with
          | none => (.error (.branchNotFound b), t')
          | some branch => (.ok (some {
              branch
              removedSequences := plan.removedKeys.insertionSort (· ≤ ·)
              purgedSequences :=
                ((plan.removed.filter fun e ↦ e.2 ∈ plan.purged).map Prod.fst).insertionSort (· ≤ ·)
              cascaded := plan.cascaded.filterMap fun child ↦ t'.branches[child]? }), t')

end Head

/-! ## Lineage of an operation -/

def requiredByFields : Operation → List (EntityId × EntityType)
  | .createPrimitive .. | .createSketch .. => []
  | .extrude sketchId .. | .revolve sketchId .. => [(sketchId, .sketch)]
  | .loft profiles _ => profiles.map (·, .sketch)
  | .sweep profile path => [(profile, .sketch), (path, .curve)]
  | .booleanUnion operands | .booleanIntersection operands => operands.map (·, .solid)
  | .booleanDifference target tools => (target, .solid) :: tools.map (·, .solid)
  | .fillet edges .. | .chamfer edges .. => edges.map (·, .edge)
  | .pattern features _ => features.map (·, .solid)
  | .transform entities _ | .delete entities => entities.map (·, .solid)
  | .modify entity _ => [(entity, .solid)]
  | .createCheckpoint .. | .batch .. | .boolean .. | .generic .. => []

def lineageChannels [UuidParser] : Operation → OperationInputs × OperationOutputs
  | .generic _ parameters =>
    match KernelRef.projectEnvelope parameters with
    | .ok channels => channels
    | .error _ => (.default, .default)
  | op =>
    (⟨(requiredByFields op).map fun (id, kind) ↦ ⟨id, kind, .mustExist⟩, [], .null⟩, .default)

def mentionedEntities (inputs : OperationInputs) (outputs : OperationOutputs) : List EntityId :=
  (inputs.requiredEntities.map EntityReference.id
    ++ inputs.optionalEntities.map EntityReference.id
    ++ outputs.created.map CreatedEntity.id ++ outputs.modified ++ outputs.deleted).eraseDups

def indexEventEntities (entityEvents : OrderedMap EntityId (List EventId)) (id : EventId)
    (inputs : OperationInputs) (outputs : OperationOutputs) : OrderedMap EntityId (List EventId) :=
  (mentionedEntities inputs outputs).foldl (fun m entity ↦
    let ids := m[entity]?.getD []
    m.insert entity (if id ∈ ids then ids else ids ++ [id])) entityEvents

/-! ## The append -/

variable (t : Timeline)

def appendRefusal (b : BranchId) : BranchState → Option TimelineError
  | .active => none
  | .merged into _ => some (.invalidOperation [.text ("branch " ++ b.toText
      ++ " is merged into " ++ into.toText ++ "; cannot append events")])
  | .abandoned reason => some (.invalidOperation [.text ("branch " ++ b.toText
      ++ " is abandoned (" ++ reason ++ "); cannot append events")])
  | .completed score => some (.invalidOperation [.text ("branch " ++ b.toText
      ++ " is completed (score="), .debugScore score, .text "); cannot append events"])

def reserveSequenceNumber : EventIndex × Timeline :=
  (t.eventCounter, { t with eventCounter := t.eventCounter + 1 })

def insertEvent (event : TimelineEvent) : Timeline :=
  { t with
    events := t.events.insert event.id event
    branchEvents := t.branchEvents.modifyKeys [event.branchId] fun m ↦
      m.insert event.sequenceNumber event.id
    entityEvents := indexEventEntities t.entityEvents event.id event.inputs event.outputs }

def takeSequence (reserved : Option EventIndex) : EventIndex × Timeline :=
  match reserved with
  | some seq => (seq, t)
  | none => t.reserveSequenceNumber

def newEvent [UuidParser] (eventId : EventId) (seq : EventIndex) (operation : Operation)
    (author : Author) (b : BranchId) : TimelineEvent where
  id := eventId
  sequenceNumber := seq
  author
  operation
  inputs := (lineageChannels operation).1
  outputs := (lineageChannels operation).2
  branchId := b

/-- Validate, discard the redo tail, then insert. `eventId` is the identifier the append draws. -/
def appendInternal [UuidParser] (operation : Operation) (author : Author) (b : BranchId)
    (reserved : Option EventIndex) (eventId : EventId) :
    Outcome (EventId × Option RedoTailDiscard) :=
  match t.branches[b]? with
  | none => (.error (.branchNotFound b), t)
  | some branch =>
    match appendRefusal b branch.state with
    | some e => (.error e, t)
    | none =>
      if b ∉ t.branchEvents then (.error (.branchNotFound b), t)
      else
        match t.discardRedoTail b with
        | (.error e, t') => (.error e, t')
        | (.ok discarded, t') =>
          let (seq, t'') := t'.takeSequence reserved
          if b ∉ t''.branchEvents then (.error (.branchNotFound b), t'')
          else
            (.ok (eventId, discarded),
              t''.insertEvent (newEvent eventId seq operation author b))

/-! ## What a discard does -/

section Discard

variable {t} {b : BranchId} {reserved : List EventIndex}

def afterDiscard (t : Timeline) (b : BranchId) (plan : TruncatePlan) (cut : EventIndex) :
    Timeline :=
  { t.applyTruncatePlan plan cut with
    appliedHeads := (t.applyTruncatePlan plan cut).appliedHeads.erase b }

def discardReport (t : Timeline) (plan : TruncatePlan) (cut : EventIndex) (branch : Branch) :
    RedoTailDiscard where
  branch
  removedSequences := plan.removedKeys.insertionSort (· ≤ ·)
  purgedSequences :=
    ((plan.removed.filter fun e ↦ e.2 ∈ plan.purged).map Prod.fst).insertionSort (· ≤ ·)
  cascaded := plan.cascaded.filterMap fun child ↦ (t.applyTruncatePlan plan cut).branches[child]?

/-- **Everything a discard does**: nothing without a head; else it cuts at the tail's first entry
and clears the head. -/
theorem discardRedoTail_cases (h : t.WellFormed reserved) (b : BranchId) :
    (t.appliedHeads[b]? = none ∧ t.discardRedoTail b = (.ok none, t)) ∨
      ∃ head cut plan branch, t.appliedHeads[b]? = some head ∧
        (t.index b).keys[head]? = some cut ∧ t.truncatePlan b cut = .ok plan ∧
        (t.applyTruncatePlan plan cut).branches[b]? = some branch ∧
        t.discardRedoTail b =
          (.ok (some (t.discardReport plan cut branch)), t.afterDiscard b plan cut) := by
  rw [discardRedoTail, appliedHead]
  cases hh : t.appliedHeads[b]? with
  | none => exact Or.inl ⟨rfl, rfl⟩
  | some head =>
    have hlt := h.heads_short b head hh
    obtain ⟨m, hm⟩ : ∃ m, t.branchEvents[b]? = some m := by
      cases hm : t.branchEvents[b]? with
      | none => simp [index, hm] at hlt
      | some m => exact ⟨m, rfl⟩
    rw [index_eq_of_getElem? hm, ← Std.ExtTreeMap.length_keys] at hlt
    have hcut : m.keys[head]? = some m.keys[head] := List.getElem?_eq_getElem hlt
    obtain ⟨plan, hplan⟩ : ∃ plan, t.truncatePlan b m.keys[head] = .ok plan := by
      rw [truncatePlan, hm]
      exact ⟨_, rfl⟩
    obtain ⟨branch, hbranch⟩ := OrderedMap.mem_iff_exists.mp
      ((@mem_branches_applyTruncatePlan t plan m.keys[head] b).mpr
        (OrderedMap.mem_iff_exists.mpr (h.exists_branch hm)))
    refine Or.inr ⟨head, m.keys[head], plan, branch, rfl, ?_, hplan, hbranch, ?_⟩
    · rw [index_eq_of_getElem? hm, hcut]
    · simp only [branchEventKeysSorted, hm, hcut, hplan, hbranch]
      rfl

theorem afterDiscard_wellFormed {plan : TruncatePlan} {cut : EventIndex}
    (hp : t.truncatePlan b cut = .ok plan) (h : t.WellFormed reserved) :
    (t.afterDiscard b plan cut).WellFormed reserved := by
  have happly := applyTruncatePlan_wellFormed hp h
  refine happly.withHeads _ fun c head hhead ↦ ?_
  rw [OrderedMap.lookup_erase] at hhead
  split at hhead
  · cases hhead
  · exact happly.heads_short c head hhead

theorem mem_branchEvents_afterDiscard {plan : TruncatePlan} {cut : EventIndex} {c : BranchId} :
    c ∈ (t.afterDiscard b plan cut).branchEvents ↔ c ∈ t.branchEvents :=
  @mem_branchEvents_applyTruncatePlan t plan cut c

theorem discardRedoTail_frame (h : t.WellFormed reserved) (b : BranchId) :
    (∀ (e : EventId) (ev : TimelineEvent), (t.discardRedoTail b).2.events[e]? = some ev →
      t.events[e]? = some ev) ∧
    (t.discardRedoTail b).2.eventCounter = t.eventCounter ∧
    t.RecordsKept (t.discardRedoTail b).2 := by
  obtain ⟨-, heq⟩ | ⟨head, cut, plan, branch, -, -, hp, -, heq⟩ := discardRedoTail_cases h b
  · rw [heq]
    exact ⟨fun _ _ hev ↦ hev, rfl, .of_eq rfl⟩
  · rw [heq]
    refine ⟨fun e ev hev ↦ ?_, rfl, recordsKept_applyTruncatePlan hp⟩
    exact @events_of_applyTruncatePlan t e plan cut ev hev

theorem discardRedoTail_wellFormed (b : BranchId) (h : t.WellFormed reserved) :
    (t.discardRedoTail b).2.WellFormed reserved := by
  obtain ⟨-, heq⟩ | ⟨head, cut, plan, branch, -, -, hp, -, heq⟩ := discardRedoTail_cases h b
  · rw [heq]
    exact h
  · rw [heq]
    exact afterDiscard_wellFormed hp h

end Discard

/-! ## What filing an event does -/

section Insert

variable {t} {ev : TimelineEvent} {reserved : List EventIndex}

theorem insertEvent_branchEvents (b : BranchId) :
    (t.insertEvent ev).branchEvents[b]? =
      if b = ev.branchId then
        t.branchEvents[b]?.map fun m ↦ m.insert ev.sequenceNumber ev.id
      else t.branchEvents[b]? := by
  simp only [insertEvent, OrderedMap.getElem?_modifyKeys, List.mem_singleton]

theorem index_insertEvent (hb : ev.branchId ∈ t.branchEvents) (b : BranchId) :
    (t.insertEvent ev).index b =
      if b = ev.branchId then (t.index b).insert ev.sequenceNumber ev.id else t.index b := by
  obtain ⟨m, hm⟩ := OrderedMap.mem_iff_exists.mp hb
  rw [index, insertEvent_branchEvents]
  split
  · next hbe =>
    rw [hbe, hm, index_eq_of_getElem? hm]
    rfl
  · rfl

theorem getElem?_index_insertEvent (hb : ev.branchId ∈ t.branchEvents) (b : BranchId)
    (k : EventIndex) :
    ((t.insertEvent ev).index b)[k]? =
      if b = ev.branchId ∧ k = ev.sequenceNumber then some ev.id else (t.index b)[k]? := by
  rw [index_insertEvent hb]
  by_cases hbe : b = ev.branchId
  · simp only [hbe, if_true, true_and, OrderedMap.lookup_insert]
  · simp only [hbe, if_false, false_and]

theorem insertEvent_events (e : EventId) :
    (t.insertEvent ev).events[e]? = if e = ev.id then some ev else t.events[e]? := by
  simp only [insertEvent, OrderedMap.lookup_insert]

theorem events_insertEvent_of_stored (hid : ev.id ∉ t.events) {e : EventId} {ev' : TimelineEvent}
    (hev : t.events[e]? = some ev') : (t.insertEvent ev).events[e]? = some ev' := by
  have hne : e ≠ ev.id := by
    rintro rfl
    exact hid (OrderedMap.mem_of_getElem? hev)
  rw [insertEvent_events, if_neg hne, hev]

theorem eq_or_of_insertEvent {e : EventId} {ev' : TimelineEvent}
    (hev : (t.insertEvent ev).events[e]? = some ev') :
    e = ev.id ∧ ev = ev' ∨ t.events[e]? = some ev' := by
  rw [insertEvent_events] at hev
  split at hev
  · next he => exact Or.inl ⟨he, Option.some_inj.mp hev⟩
  · exact Or.inr hev

theorem mem_branchEvents_insertEvent {b : BranchId} :
    b ∈ (t.insertEvent ev).branchEvents ↔ b ∈ t.branchEvents := by
  simp only [insertEvent, OrderedMap.mem_modifyKeys]

theorem size_index_le_insertEvent (hb : ev.branchId ∈ t.branchEvents) (b : BranchId) :
    (t.index b).size ≤ ((t.insertEvent ev).index b).size := by
  rw [index_insertEvent hb]
  split
  · exact Std.ExtTreeMap.size_le_size_insert
  · exact le_rfl

theorem insertEvent_wellFormed (h : t.WellFormed reserved) (hb : ev.branchId ∈ t.branches)
    (hid : ev.id ∉ t.events) (hspent : ev.sequenceNumber < t.eventCounter)
    (hunused : ∀ (e : EventId) (ev' : TimelineEvent), t.events[e]? = some ev' →
      ev'.sequenceNumber ≠ ev.sequenceNumber)
    (hres : ev.sequenceNumber ∉ reserved) : (t.insertEvent ev).WellFormed reserved := by
  have hbe : ev.branchId ∈ t.branchEvents := (h.branches_agree _).mp hb
  have hkept : t.RecordsKept (t.insertEvent ev) := .of_eq rfl
  refine
    { branches_agree := fun b ↦ (h.branches_agree b).trans mem_branchEvents_insertEvent.symm
      entries_resolve := fun b k e hk ↦ ?_
      origins_incorporated := fun b k e ev' hk hev ↦ ?_
      parents_exist := h.parents_exist
      forks_match_parents := h.forks_match_parents
      sequences_unique := fun e e' ev₁ ev₂ hev₁ hev₂ hseq ↦ ?_
      sessions_in_range := fun s pos hpos ↦ ?_
      branch_ids := h.branch_ids
      event_ids := fun e ev' hev ↦ ?_
      sequences_spent := fun e ev' hev ↦ ?_
      main_present := h.main_present
      merge_targets_exist := h.merge_targets_exist
      origins_exist := fun e ev' hev ↦ ?_
      heads_short := fun b head hhead ↦
        (h.heads_short b head hhead).trans_le (size_index_le_insertEvent hbe b)
      reserved_spent := h.reserved_spent
      reserved_unused := fun s hs e ev' hev ↦ ?_ }
  · rw [getElem?_index_insertEvent hbe] at hk
    split at hk
    · next hnew =>
      cases hk
      exact ⟨ev, by rw [insertEvent_events, if_pos rfl], hnew.2.symm⟩
    · obtain ⟨ev', hev, hseq⟩ := h.entries_resolve b k e hk
      exact ⟨ev', events_insertEvent_of_stored hid hev, hseq⟩
  · rw [getElem?_index_insertEvent hbe] at hk
    split at hk
    · next hnew =>
      cases hk
      rw [insertEvent_events, if_pos rfl] at hev
      cases hev
      exact hnew.1 ▸ .refl
    · obtain ⟨ev₀, hev₀, -⟩ := h.entries_resolve b k e hk
      rw [events_insertEvent_of_stored hid hev₀] at hev
      exact (h.origins_incorporated b k e ev' hk (hev₀.trans hev)).mono hkept
  · -- Either event may be the new one, whose number no stored event has.
    obtain ⟨he, rfl⟩ | hev₁ := eq_or_of_insertEvent hev₁ <;>
      obtain ⟨he', rfl⟩ | hev₂ := eq_or_of_insertEvent hev₂
    · exact he.trans he'.symm
    · exact absurd hseq.symm (hunused e' ev₂ hev₂)
    · exact absurd hseq (hunused e ev₁ hev₁)
    · exact h.sequences_unique e e' ev₁ ev₂ hev₁ hev₂ hseq
  · obtain ⟨hmem, hlen⟩ := h.sessions_in_range s pos hpos
    exact ⟨mem_branchEvents_insertEvent.mpr hmem, hlen.trans (size_index_le_insertEvent hbe _)⟩
  · obtain ⟨he, rfl⟩ | hev := eq_or_of_insertEvent hev
    · exact he.symm
    · exact h.event_ids e ev' hev
  · obtain ⟨-, rfl⟩ | hev := eq_or_of_insertEvent hev
    · exact hspent
    · exact h.sequences_spent e ev' hev
  · obtain ⟨-, rfl⟩ | hev := eq_or_of_insertEvent hev
    · exact hb
    · exact h.origins_exist e ev' hev
  · obtain ⟨-, rfl⟩ | hev := eq_or_of_insertEvent hev
    · rintro rfl
      exact hres hs
    · exact h.reserved_unused s hs e ev' hev

end Insert

/-! ## What an append does -/

theorem reserveSequenceNumber_wellFormed {t : Timeline} {reserved : List EventIndex}
    (h : t.WellFormed reserved) :
    t.reserveSequenceNumber.2.WellFormed (t.eventCounter :: reserved) :=
  { h with
    origins_incorporated := fun b k e ev hk hev ↦ by
      refine Incorporates.mono ?_ (h.origins_incorporated b k e ev hk hev)
      exact .of_eq rfl
    sequences_spent := fun e ev hev ↦ Nat.lt_succ_of_lt (h.sequences_spent e ev hev)
    reserved_spent := by
      intro s hs
      rcases List.mem_cons.mp hs with rfl | hs
      · exact Nat.lt_succ_self _
      · exact Nat.lt_succ_of_lt (h.reserved_spent s hs)
    reserved_unused := by
      intro s hs e ev hev
      rcases List.mem_cons.mp hs with rfl | hs
      · exact (h.sequences_spent e ev hev).ne
      · exact h.reserved_unused s hs e ev hev }

section Append

variable {t} [UuidParser] {b : BranchId} {operation : Operation} {author : Author}
  {taken : Option EventIndex} {eventId : EventId} {reserved : List EventIndex}

/-- **Everything an append does.** It changes nothing unless the branch is active; otherwise it
discards the redo tail, takes its sequence number and files the event. -/
theorem appendInternal_cases (h : t.WellFormed reserved) (operation : Operation) (author : Author)
    (b : BranchId) (taken : Option EventIndex) (eventId : EventId) :
    (t.stateOf b ≠ some .active ∧
        ∃ e, t.appendInternal operation author b taken eventId = (.error e, t)) ∨
      (t.stateOf b = some .active ∧ ∃ discarded t', t.discardRedoTail b = (.ok discarded, t') ∧
        t.appendInternal operation author b taken eventId = (.ok (eventId, discarded),
          (t'.takeSequence taken).2.insertEvent
            (newEvent eventId (t'.takeSequence taken).1 operation author b))) := by
  rw [appendInternal, stateOf]
  cases hr : t.branches[b]? with
  | none => exact Or.inl ⟨by simp, _, rfl⟩
  | some r =>
    cases hs : r.state with
    | merged into now => exact Or.inl ⟨by simp [hs], _, by simp only [hs, appendRefusal]; rfl⟩
    | abandoned reason => exact Or.inl ⟨by simp [hs], _, by simp only [hs, appendRefusal]; rfl⟩
    | completed score => exact Or.inl ⟨by simp [hs], _, by simp only [hs, appendRefusal]; rfl⟩
    | active =>
      have hb : b ∈ t.branchEvents := (h.branches_agree b).mp (OrderedMap.mem_of_getElem? hr)
      refine Or.inr ⟨by simp [hs], ?_⟩
      obtain ⟨discarded, t', hd, hb'⟩ : ∃ discarded t', t.discardRedoTail b = (.ok discarded, t') ∧
          b ∈ t'.branchEvents := by
        obtain ⟨-, heq⟩ | ⟨head, cut, plan, branch, -, -, -, -, heq⟩ := discardRedoTail_cases h b
        · exact ⟨_, _, heq, hb⟩
        · exact ⟨_, _, heq, mem_branchEvents_afterDiscard.mpr hb⟩
      have hb'' : b ∈ (t'.takeSequence taken).2.branchEvents := by cases taken <;> exact hb'
      refine ⟨discarded, t', hd, ?_⟩
      simp only [hs, appendRefusal, hb, hb'', hd, not_true_eq_false, if_false]

/-- The reserved numbers still held after an append that took `taken`. -/
def remaining (taken : Option EventIndex) (reserved : List EventIndex) : List EventIndex :=
  reserved.filter fun s ↦ taken ≠ some s

omit [UuidParser] in
private theorem takeSequence_none_wellFormed (h : t.WellFormed reserved) :
    (t.takeSequence none).2.WellFormed reserved ∧ (t.takeSequence none).1 ∉ reserved :=
  ⟨(reserveSequenceNumber_wellFormed h).mono fun _ hs ↦ List.mem_cons_of_mem _ hs,
    fun hmem ↦ lt_irrefl _ (h.reserved_spent _ hmem)⟩

/-- **An append keeps the invariant**, when its id is new and a reserved number was held until then.
-/
theorem appendInternal_wellFormed (h : t.WellFormed reserved)
    (htaken : ∀ s, taken = some s → s ∈ reserved) (hid : eventId ∉ t.events) :
    (t.appendInternal operation author b taken eventId).2.WellFormed
      (remaining taken reserved) := by
  have hsub : ∀ s ∈ remaining taken reserved, s ∈ reserved := fun s hs ↦ (List.mem_filter.mp hs).1
  obtain ⟨-, e, heq⟩ | ⟨hactive, discarded, t', hd, heq⟩ :=
    appendInternal_cases h operation author b taken eventId
  · rw [heq]
    exact h.mono hsub
  · rw [heq]
    have h' : t'.WellFormed reserved := by
      have := discardRedoTail_wellFormed b h
      rwa [hd] at this
    obtain ⟨hevents, hcounter, hkept⟩ := discardRedoTail_frame h b
    rw [hd] at hevents hcounter hkept
    have hid' : eventId ∉ t'.events := by
      intro hmem
      obtain ⟨ev, hev⟩ := OrderedMap.mem_iff_exists.mp hmem
      exact hid (OrderedMap.mem_of_getElem? (hevents _ _ hev))
    have hb : b ∈ t'.branches := by
      obtain ⟨r, hr, -⟩ := Option.map_eq_some_iff.mp hactive
      exact hkept.mem (OrderedMap.mem_of_getElem? hr)
    cases taken with
    | none =>
      obtain ⟨h'', hnot⟩ := takeSequence_none_wellFormed h'
      refine WellFormed.mono (insertEvent_wellFormed h'' ?_ hid' ?_ ?_ hnot) hsub
      · exact hb
      · exact Nat.lt_succ_self _
      · exact fun e ev hev ↦ (h'.sequences_spent e ev hev).ne
    | some s =>
      have hs := htaken s rfl
      refine insertEvent_wellFormed (h'.mono hsub) hb hid' (h'.reserved_spent s hs)
        (h'.reserved_unused s hs) ?_
      simp [remaining, newEvent, takeSequence]

end Append

end Timeline

end RosheraCad
