import RosheraCad.Session.DeltaEffect

/-!
# Applying deltas at once

A batch keeps the last change of each object, the last metadata map, and everybody who joined and
everybody who left. A receiver skips the deltas that its counter has passed, but takes a batch as a
whole.
-/

namespace RosheraCad

namespace Delta

variable {P : Payloads}

def applyBatch (deltas : List (SessionDelta P)) :
    EStateM SessionError (DeltaTracker × SessionState P) Unit :=
  match batchDeltas deltas with
  | some delta => applyDelta delta
  | none => pure ()

/-- Whatever state the deltas lead to in order, their batch leads to it too. -/
def PreservesMeaning (deltas : List (SessionDelta P)) (tracker : DeltaTracker)
    (state : SessionState P) : Prop :=
  ∀ tracker' state', deltas.forM applyDelta (tracker, state) = .ok () (tracker', state') →
    ∀ other : DeltaTracker, other.sequence = tracker.sequence →
      ∃ other', applyBatch deltas (other, state) = .ok () (other', state') ∧
        other'.sequence = tracker'.sequence

/-! ## When one delta says what several say -/

namespace ObjectDelta

variable (d : ObjectDelta P)

/-- Applied to an object, the delta changes nothing. -/
def Idle (o : Option (CADObject P)) : Prop :=
  match d.placed with
  | some p => p = o
  | none => ∀ obj, o = some obj →
    d.decodes ∧ ∀ f value, d.written f = some value → value = obj.get f

def writes (f : Field) : Option (f.Value P) :=
  match d.placed with
  | some p => p.map (·.get f)
  | none => d.written f

def places : Option Bool := d.placed.map Option.isSome

end ObjectDelta

/-- Earlier deltas of an object make no difference to a last one that changes it in place. -/
structure Undisturbed (earlier : List (ObjectDelta P)) (d : ObjectDelta P)
    (o : Option (CADObject P)) : Prop where
  there : (lastWrite ObjectDelta.places earlier).getD o.isSome = o.isSome
  fields : ∀ obj, o = some obj → ∀ f value, d.written f = none →
    lastWrite (·.writes f) earlier = some value → value = obj.get f

structure ObjectAtOnce (o : Option (CADObject P)) (old new : List (ObjectDelta P)) : Prop where
  old : new = [] → ∀ d, old.getLast? = some d → d.Idle o
  new : ∀ earlier d, new = earlier ++ [d] → d.placed = none → Undisturbed earlier d o

def firstOf (ids : List String) : List UserInfo → List UserInfo
  | [] => []
  | u :: us => if u.id ∈ ids then firstOf ids us else u :: firstOf (u.id :: ids) us

def present (users : List UserInfo) (left : List String) (joined : List UserInfo) :
    List UserInfo :=
  without users left ++ firstOf ((without users left).map UserInfo.id) joined

structure AtOnce (state : SessionState P) (old new : List (SessionDelta P)) : Prop where
  objects : ∀ id : ObjectId, ObjectAtOnce state.objects[id]?
    (ofObject id (old.flatMap SessionDelta.objectDeltas))
    (ofObject id (new.flatMap SessionDelta.objectDeltas))
  history : old.flatMap SessionDelta.entries = []
  historyIndex : lastWrite SessionDelta.index new = none →
    ∀ index, lastWrite SessionDelta.index old = some index → index = state.historyIndex
  metadata : ∀ key : String,
    (lastWrite (fun delta ↦ delta.metadataChanges.bind (metadataWrite key)) new).getD
        state.metadata[key]? =
      ((lastWrite SessionDelta.metadataChanges (old ++ new)).bind (metadataWrite key)).getD
        state.metadata[key]?
  activeUsers : present state.activeUsers (new.flatMap SessionDelta.left) (stillJoined new) =
    present state.activeUsers ((old ++ new).flatMap SessionDelta.left)
      ((old ++ new).flatMap SessionDelta.joined)
  settings : lastWrite SessionDelta.settingsChanges new = none →
    ∀ value, lastWrite SessionDelta.settingsChanges old = some value →
      P.settings.fromValue value = some state.settings

/-- There is at most one delta, the tracker has passed all, or at once they say what the new ones
say. -/
def Mergeable (deltas : List (SessionDelta P)) (tracker : DeltaTracker) (state : SessionState P) :
    Prop :=
  deltas.length ≤ 1 ∨ (∀ delta ∈ deltas, delta.sequence ≤ tracker.sequence) ∨
    AtOnce state (deltas.filter (·.sequence ≤ tracker.sequence))
      (deltas.filter (tracker.sequence < ·.sequence))

/-! ## One object -/

section Object

variable {d : ObjectDelta P} {o : Option (CADObject P)} {ds : List (ObjectDelta P)}

theorem ObjectDelta.decodes_of_placed {p : Option (CADObject P)} (h : d.placed = some p) :
    d.decodes := by
  obtain ⟨id, deltaType, changes, object, transform⟩ := d
  rcases deltaType with _ | _ | _ | _
  · rfl
  · cases h
  · rfl
  · cases h

theorem ObjectDelta.after_some (hplaced : d.placed = none) (obj : CADObject P) :
    d.after (some obj) = some (.ofFields fun f ↦ (d.written f).getD (obj.get f)) := by
  rw [after, hplaced]
  rfl

theorem ObjectDelta.isSome_after (o : Option (CADObject P)) :
    (d.after o).isSome = d.places.getD o.isSome := by
  rw [after, places]
  rcases d.placed with _ | p
  · rw [Option.getD_none, Option.isSome_map]
    rfl
  · rfl

theorem ObjectDelta.idle_iff : d.Idle o ↔ (o.isSome → d.decodes) ∧ d.after o = o := by
  rw [Idle]
  rcases hplaced : d.placed with _ | p
  · rcases o with _ | obj
    · refine iff_of_true (fun obj h ↦ ?_) ⟨fun h ↦ ?_, ?_⟩
      · cases h
      · cases h
      · rw [after, hplaced]
        rfl
    · rw [d.after_some hplaced, Option.some_inj]
      constructor
      · intro h
        obtain ⟨hdecodes, hfields⟩ := h obj rfl
        refine ⟨fun _ ↦ hdecodes, CADObject.ext_get fun f ↦ ?_⟩
        rw [CADObject.get_ofFields]
        rcases hvalue : d.written f with _ | value
        · rfl
        · exact hfields f value hvalue
      · rintro ⟨hdecodes, heq⟩ _ ⟨⟩
        refine ⟨hdecodes rfl, fun f value hvalue ↦ ?_⟩
        have hfield := congrArg (·.get f) heq
        rwa [CADObject.get_ofFields, hvalue, Option.getD_some] at hfield
  · rw [after, hplaced, Option.getD_some, and_iff_right fun _ ↦ decodes_of_placed hplaced]

theorem isSome_afterAll (ds : List (ObjectDelta P)) (o : Option (CADObject P)) :
    (afterAll ds o).isSome = (lastWrite ObjectDelta.places ds).getD o.isSome :=
  foldl_eq_lastWrite Option.isSome ObjectDelta.places (fun o d ↦ d.isSome_after o) ds o

theorem afterAll_concat (ds : List (ObjectDelta P)) (d : ObjectDelta P)
    (o : Option (CADObject P)) : afterAll (ds ++ [d]) o = d.after (afterAll ds o) := by
  rw [afterAll, List.foldl_append, List.foldl_cons, List.foldl_nil]
  rfl

/-- **A field of an object that is still there** holds what was last written to it. -/
theorem get_afterAll {obj obj' : CADObject P} (h : afterAll ds (some obj) = some obj') (f : Field) :
    obj'.get f = (lastWrite (·.writes f) ds).getD (obj.get f) := by
  -- From the end: what a delta finds is what the ones before it have left.
  induction ds using List.reverseRecOn generalizing obj' with
  | nil =>
    cases h
    rfl
  | append_singleton ds d ih =>
    rw [afterAll_concat] at h
    rw [lastWrite_concat]
    rcases hplaced : d.placed with _ | p
    · rcases hbefore : afterAll ds (some obj) with _ | obj₁
      · rw [hbefore, ObjectDelta.after, hplaced] at h
        cases h
      · rw [hbefore, d.after_some hplaced] at h
        obtain rfl := Option.some_inj.mp h
        rw [CADObject.get_ofFields, ih hbefore, ObjectDelta.writes, hplaced]
        cases d.written f <;> rfl
    · rw [ObjectDelta.after, hplaced, Option.getD_some] at h
      rw [ObjectDelta.writes, hplaced, h]
      rfl

theorem undisturbed_iff {earlier : List (ObjectDelta P)} (hplaced : d.placed = none) :
    d.after o = d.after (afterAll earlier o) ↔ Undisturbed earlier d o := by
  have hthere := isSome_afterAll earlier o
  constructor
  · intro h
    have hsame : (afterAll earlier o).isSome = o.isSome := by
      have hsome := congrArg Option.isSome h
      rw [d.isSome_after, d.isSome_after, ObjectDelta.places, hplaced] at hsome
      exact hsome.symm
    refine ⟨hthere.symm.trans hsame, ?_⟩
    rintro obj rfl f value hwritten hvalue
    obtain ⟨obj', hobj'⟩ := Option.isSome_iff_exists.mp hsame
    rw [hobj', d.after_some hplaced, d.after_some hplaced, Option.some_inj] at h
    have hfield := congrArg (·.get f) h
    rw [CADObject.get_ofFields, CADObject.get_ofFields, hwritten, Option.getD_none,
      Option.getD_none, get_afterAll hobj', hvalue] at hfield
    exact hfield.symm
  · intro h
    rcases o with _ | obj
    · rw [h.there, Option.isSome_none, Option.isSome_eq_false_iff, Option.isNone_iff_eq_none]
        at hthere
      rw [hthere]
    · rw [h.there] at hthere
      obtain ⟨obj', hobj'⟩ := Option.isSome_iff_exists.mp hthere
      rw [hobj', d.after_some hplaced, d.after_some hplaced]
      refine congrArg some (CADObject.ext_get fun f ↦ ?_)
      rw [CADObject.get_ofFields, CADObject.get_ofFields]
      rcases hwritten : d.written f with _ | value
      · rw [Option.getD_none, Option.getD_none, get_afterAll hobj']
        rcases hvalue : lastWrite (fun e : ObjectDelta P ↦ e.writes f) earlier with _ | value
        · rfl
        · exact (h.fields obj rfl f value hwritten hvalue).symm
      · rfl

/-- **The last delta of an object leaves what the new ones leave** just when it says the same. -/
theorem objectAtOnce_iff {old new : List (ObjectDelta P)}
    (hdecodes : ∀ earlier d, new = earlier ++ [d] → (afterAll earlier o).isSome → d.decodes) :
    ((∀ d, (old ++ new).getLast? = some d → o.isSome → d.decodes) ∧
        afterAll new o = afterAll (old ++ new).getLast?.toList o) ↔ ObjectAtOnce o old new := by
  rcases List.eq_nil_or_concat' new with rfl | ⟨earlier, d, rfl⟩
  · rw [List.append_nil]
    have hnone (h : ∀ d, old.getLast? = some d → d.Idle o) : ObjectAtOnce o old [] := by
      refine ⟨fun _ ↦ h, fun earlier d heq ↦ ?_⟩
      exact absurd heq.symm (List.append_ne_nil_of_right_ne_nil _ (List.cons_ne_nil _ _))
    rcases hlast : old.getLast? with _ | d
    · refine iff_of_true ⟨fun d h ↦ ?_, rfl⟩ (hnone fun d h ↦ ?_)
      · cases h
      · rw [hlast] at h
        cases h
    · constructor
      · rintro ⟨hok, hsame⟩
        refine hnone fun d' hd' ↦ ?_
        obtain rfl := Option.some_inj.mp (hlast.symm.trans hd')
        exact ObjectDelta.idle_iff.mpr ⟨hok d rfl, hsame.symm⟩
      · intro h
        obtain ⟨hok, hsame⟩ := ObjectDelta.idle_iff.mp (h.old rfl d hlast)
        refine ⟨?_, hsame.symm⟩
        rintro _ ⟨⟩
        exact hok
  · rw [← List.append_assoc, List.getLast?_concat, afterAll_concat]
    change _ ∧ d.after (afterAll earlier o) = d.after o ↔ _
    have hnew (h : d.placed = none → Undisturbed earlier d o) :
        ObjectAtOnce o old (earlier ++ [d]) := by
      refine ⟨fun heq ↦ ?_, fun earlier' d' heq ↦ ?_⟩
      · exact absurd heq (List.append_ne_nil_of_right_ne_nil _ (List.cons_ne_nil _ _))
      · obtain ⟨rfl, hd⟩ := List.append_inj' heq rfl
        rw [← List.head_eq_of_cons_eq hd]
        exact h
    constructor
    · rintro ⟨-, hsame⟩
      exact hnew fun hplaced ↦ (undisturbed_iff hplaced).mp hsame.symm
    · intro h
      rcases hplaced : d.placed with _ | p
      · have hundisturbed := h.new earlier d rfl hplaced
        refine ⟨?_, ((undisturbed_iff hplaced).mpr hundisturbed).symm⟩
        rintro _ ⟨⟩ hsome
        refine hdecodes earlier d rfl ?_
        rw [isSome_afterAll, hundisturbed.there, hsome]
      · refine ⟨?_, ?_⟩
        · rintro _ ⟨⟩ -
          exact ObjectDelta.decodes_of_placed hplaced
        · rw [ObjectDelta.after, ObjectDelta.after, hplaced]
          rfl

end Object

/-! ## The batch -/

section Batch

variable {deltas : List (SessionDelta P)}

private def batchMap (deltas : List (SessionDelta P)) : OrderedMap ObjectId (ObjectDelta P) :=
  OrderedMap.insertEntries ∅
    (deltas.flatMap fun delta ↦ delta.objectDeltas.map fun d ↦ (d.id, d))

private theorem getElem?_batchMap (id : ObjectId) : (batchMap deltas)[id]? =
    (ofObject id (deltas.flatMap SessionDelta.objectDeltas)).getLast? := by
  rw [batchMap, OrderedMap.getElem?_insertEntries_eq_lastWrite, Std.ExtTreeMap.getElem?_empty,
    Option.or_none, ofObject, ← List.filterMap_eq_filter, List.getLast?_filterMap,
    lastWrite_flatMap]
  refine Eq.trans (congrArg (lastWrite · deltas) (funext fun delta ↦ ?_))
    (lastWrite_flatMap _ SessionDelta.objectDeltas deltas).symm
  rw [lastWrite, ← List.map_reverse, List.findSome?_map]
  refine congrArg (List.findSome? · _) (funext fun d ↦ ?_)
  by_cases h : d.id = id <;> simp [Option.guard, h]

private theorem id_of_mem_batchMap {e : ObjectId × ObjectDelta P}
    (h : e ∈ (batchMap deltas).toList) : e.2.id = e.1 := by
  have hlookup := OrderedMap.mem_toList.mp h
  rw [getElem?_batchMap] at hlookup
  exact of_decide_eq_true (List.mem_filter.mp (List.mem_of_getLast? hlookup)).2

theorem nodup_batchObjectDeltas : ((batchObjectDeltas deltas).map ObjectDelta.id).Nodup := by
  have hkeys : (batchObjectDeltas deltas).map ObjectDelta.id = (batchMap deltas).keys := by
    rw [← Std.ExtTreeMap.map_fst_toList_eq_keys, batchObjectDeltas, List.map_map]
    exact List.map_congr_left fun e he ↦ id_of_mem_batchMap he
  rw [hkeys]
  exact Std.ExtTreeMap.nodup_keys

theorem ofObject_batchObjectDeltas (id : ObjectId) : ofObject id (batchObjectDeltas deltas) =
    (ofObject id (deltas.flatMap SessionDelta.objectDeltas)).getLast?.toList := by
  have hmem (d : ObjectDelta P) : d ∈ ofObject id (batchObjectDeltas deltas) ↔
      d ∈ (batchMap deltas)[id]?.toList := by
    rw [ofObject, List.mem_filter, Option.mem_toList]
    constructor
    · rintro ⟨hd, hid⟩
      obtain ⟨e, he, rfl⟩ := List.mem_map.mp hd
      rw [← of_decide_eq_true hid, id_of_mem_batchMap he]
      exact OrderedMap.mem_toList.mp he
    · intro hlookup
      have he := OrderedMap.mem_toList.mpr hlookup
      exact ⟨List.mem_map.mpr ⟨_, he, rfl⟩, decide_eq_true (id_of_mem_batchMap he)⟩
  have hperm : (ofObject id (batchObjectDeltas deltas)).Perm (batchMap deltas)[id]?.toList := by
    refine (List.perm_ext_iff_of_nodup ?_ ?_).mpr hmem
    · exact (List.Nodup.of_map _ nodup_batchObjectDeltas).filter _
    · cases (batchMap deltas)[id]?
      · exact List.nodup_nil
      · exact List.nodup_singleton _
  rw [← getElem?_batchMap]
  rcases hlookup : (batchMap deltas)[id]? with _ | d
  · rw [hlookup] at hperm
    exact hperm.eq_nil
  · rw [hlookup] at hperm
    exact List.perm_singleton.mp hperm

structure IsBatch (delta : SessionDelta P) (deltas : List (SessionDelta P)) : Prop where
  objectDeltas : delta.objectDeltas = batchObjectDeltas deltas
  entries : delta.entries = deltas.flatMap SessionDelta.entries
  index : delta.index = lastWrite SessionDelta.index deltas
  metadataChanges : delta.metadataChanges = lastWrite SessionDelta.metadataChanges deltas
  joined : delta.joined = deltas.flatMap SessionDelta.joined
  left : delta.left = deltas.flatMap SessionDelta.left
  settingsChanges : delta.settingsChanges = lastWrite SessionDelta.settingsChanges deltas

private theorem flatMap_filterMap {α β γ : Type} (f : α → Option β) (g : β → List γ) (l : List α) :
    (l.filterMap f).flatMap g = l.flatMap fun a ↦ (f a).elim [] g := by
  induction l with
  | nil => rfl
  | cons a l ih =>
    rw [List.filterMap_cons, List.flatMap_cons, ← ih]
    cases f a <;> rfl

theorem batchTimelineDeltas_entries :
    (batchTimelineDeltas deltas).elim [] TimelineDelta.newEntries =
      deltas.flatMap SessionDelta.entries := by
  have hentries := flatMap_filterMap SessionDelta.timelineDelta TimelineDelta.newEntries deltas
  rw [batchTimelineDeltas]
  split
  next h =>
    rw [Bool.and_eq_true, Bool.and_eq_true, List.isEmpty_iff, hentries] at h
    exact h.1.1.symm
  next => exact hentries

theorem batchTimelineDeltas_index : (batchTimelineDeltas deltas).bind TimelineDelta.indexChange =
    lastWrite SessionDelta.index deltas := by
  have hindex := lastWrite_filterMap TimelineDelta.indexChange SessionDelta.timelineDelta deltas
  rw [batchTimelineDeltas]
  split
  next h =>
    rw [Bool.and_eq_true, Bool.and_eq_true, Option.isNone_iff_eq_none] at h
    exact h.1.2.symm.trans hindex
  next => exact hindex

theorem batchUserChanges_joined : (batchUserChanges deltas).elim [] UserChanges.joined =
    deltas.flatMap SessionDelta.joined := by
  have hjoined := flatMap_filterMap SessionDelta.userChanges UserChanges.joined deltas
  rw [batchUserChanges]
  split
  next h =>
    rw [Bool.and_eq_true, Bool.and_eq_true, List.isEmpty_iff, hjoined] at h
    exact h.1.1.symm
  next => exact hjoined

theorem batchUserChanges_left : (batchUserChanges deltas).elim [] UserChanges.left =
    deltas.flatMap SessionDelta.left := by
  have hleft := flatMap_filterMap SessionDelta.userChanges UserChanges.left deltas
  rw [batchUserChanges]
  split
  next h =>
    rw [Bool.and_eq_true, Bool.and_eq_true, List.isEmpty_iff, List.isEmpty_iff, hleft] at h
    exact h.1.2.symm
  next => exact hleft

theorem exists_batchDeltas (last : SessionDelta P) {before : List (SessionDelta P)}
    (hbefore : before ≠ []) :
    ∃ delta, batchDeltas (before ++ [last]) = some delta ∧ IsBatch delta (before ++ [last]) ∧
      delta.sequence = last.sequence ∧ delta.timestamp = last.timestamp := by
  obtain ⟨first, rest, rfl⟩ := List.exists_cons_of_ne_nil hbefore
  obtain ⟨second, tail, htail⟩ :=
    List.exists_cons_of_ne_nil (List.append_ne_nil_of_right_ne_nil rest (List.cons_ne_nil last []))
  have hlast : (second :: tail).getLast (List.cons_ne_nil _ _) = last := by
    rw [List.getLast_congr _ (List.append_ne_nil_of_right_ne_nil rest (List.cons_ne_nil last []))
      htail.symm, List.getLast_append_singleton]
  rw [List.cons_append, htail]
  refine ⟨_, rfl, ⟨rfl, batchTimelineDeltas_entries, batchTimelineDeltas_index, rfl,
    batchUserChanges_joined, batchUserChanges_left, rfl⟩, ?_, ?_⟩
  · change ((second :: tail).getLast _).sequence = _
    rw [hlast]
  · change ((second :: tail).getLast _).timestamp = _
    rw [hlast]

end Batch

theorem firstOf_congr {ids ids' : List String} (h : ∀ id, id ∈ ids ↔ id ∈ ids')
    (users : List UserInfo) : firstOf ids users = firstOf ids' users := by
  induction users generalizing ids ids' with
  | nil => rfl
  | cons u users ih =>
    have hcons (id : String) : id ∈ u.id :: ids ↔ id ∈ u.id :: ids' := by
      rw [List.mem_cons, List.mem_cons, h]
    rw [firstOf, firstOf, ih h, ih hcons]
    exact if_congr (h u.id) rfl rfl

theorem foldl_join_eq_firstOf (users joined : List UserInfo) :
    joined.foldl join users = users ++ firstOf (users.map UserInfo.id) joined := by
  induction joined generalizing users with
  | nil => exact (List.append_nil users).symm
  | cons u joined ih =>
    have hany : users.any (·.id = u.id) = true ↔ u.id ∈ users.map UserInfo.id := by
      rw [List.any_eq_true, List.mem_map]
      exact exists_congr fun v ↦ and_congr_right fun _ ↦ decide_eq_true_iff
    rw [List.foldl_cons, ih, join, firstOf]
    by_cases h : u.id ∈ users.map UserInfo.id
    · rw [if_pos (hany.mpr h), if_pos h]
    · rw [if_neg (mt hany.mp h), if_neg h, List.append_assoc, List.singleton_append]
      refine congrArg (users ++ u :: ·) (firstOf_congr (fun id ↦ ?_) joined)
      rw [List.map_append, List.map_singleton, List.mem_append, List.mem_singleton, List.mem_cons,
        or_comm]

section Parts

variable {deltas : List (SessionDelta P)} {tracker tracker' other : DeltaTracker}
  {state state' : SessionState P}

theorem filter_append_filter (h : deltas.Pairwise (·.sequence < ·.sequence)) (n : ℕ) :
    deltas.filter (·.sequence ≤ n) ++ deltas.filter (n < ·.sequence) = deltas := by
  induction deltas with
  | nil => rfl
  | cons delta deltas ih =>
    rw [List.pairwise_cons] at h
    rw [List.filter_cons, List.filter_cons]
    by_cases hle : delta.sequence ≤ n
    · rw [if_pos (decide_eq_true hle), if_neg (by simpa using hle), List.cons_append, ih h.2]
    · -- Everything after a new delta is new.
      have hnew (d : SessionDelta P) (hd : d ∈ deltas) : n < d.sequence :=
        (Nat.lt_of_not_le hle).trans (h.1 d hd)
      have hold : deltas.filter (·.sequence ≤ n) = [] :=
        List.filter_eq_nil_iff.mpr fun d hd ↦ by simpa using hnew d hd
      have hall : deltas.filter (n < ·.sequence) = deltas :=
        List.filter_eq_self.mpr fun d hd ↦ decide_eq_true (hnew d hd)
      rw [if_neg (by simpa using hle), if_pos (by simpa using hle), hold, hall, List.nil_append]

theorem applyDelta_congr {delta : SessionDelta P} (hother : other.sequence = tracker.sequence)
    (h : applyDelta delta (tracker, state) = .ok () (tracker', state')) :
    ∃ other', applyDelta delta (other, state) = .ok () (other', state') ∧
      other'.sequence = tracker'.sequence := by
  simp only [applyDelta, hother] at h ⊢
  split at h
  next hle =>
    cases h
    rw [if_pos hle]
    exact ⟨other, rfl, hother⟩
  next hlt =>
    rw [if_neg hlt]
    rcases hparts : applyParts delta state with ⟨_, t⟩ | ⟨e, t⟩
    · rw [hparts] at h
      cases h
      exact ⟨{ other with sequence := delta.sequence }, rfl, rfl⟩
    · rw [hparts] at h
      cases h

/-- **Deltas with increasing numbers** are skipped up to the counter and applied from there on. -/
theorem forM_applyDelta_ok (hincreasing : deltas.Pairwise (·.sequence < ·.sequence))
    (h : deltas.forM applyDelta (tracker, state) = .ok () (tracker', state')) :
    (deltas.filter (tracker.sequence < ·.sequence)).forM applyParts state = .ok () state' ∧
      tracker'.sequence = (lastWrite (fun delta ↦ some delta.sequence)
        (deltas.filter (tracker.sequence < ·.sequence))).getD tracker.sequence := by
  induction deltas generalizing tracker state with
  | nil =>
    cases h
    exact ⟨rfl, rfl⟩
  | cons delta deltas ih =>
    obtain ⟨⟨tracker₁, state₁⟩, hfirst, hrest⟩ := EStateM.forM_cons_eq_ok.mp h
    rw [List.pairwise_cons] at hincreasing
    obtain ⟨hparts, hsequence⟩ := ih hincreasing.2 hrest
    rw [List.filter_cons]
    simp only [applyDelta] at hfirst
    split at hfirst
    next hle =>
      cases hfirst
      rw [if_neg (by simpa using hle)]
      exact ⟨hparts, hsequence⟩
    next hlt =>
      rcases happly : applyParts delta state with ⟨_, t⟩ | ⟨e, t⟩
      · rw [happly] at hfirst
        cases hfirst
        have hlt := Nat.lt_of_not_le hlt
        have hsame : deltas.filter (delta.sequence < ·.sequence) =
            deltas.filter (tracker.sequence < ·.sequence) := by
          refine List.filter_congr fun d hd ↦ ?_
          rw [decide_eq_true (hincreasing.1 d hd), decide_eq_true (hlt.trans (hincreasing.1 d hd))]
        rw [hsame] at hparts hsequence
        rw [if_pos (decide_eq_true hlt)]
        refine ⟨EStateM.forM_cons_eq_ok.mpr ⟨_, happly, hparts⟩, ?_⟩
        rw [hsequence, lastWrite_cons]
        cases lastWrite (fun delta : SessionDelta P ↦ some delta.sequence)
          (deltas.filter (tracker.sequence < ·.sequence)) <;> rfl
      · rw [happly] at hfirst
        cases hfirst

end Parts

/-! ## The condition -/

section Condition

variable {delta : SessionDelta P} {deltas old new : List (SessionDelta P)}
  {tracker tracker' : DeltaTracker} {state state' : SessionState P}

theorem forM_batchObjectDeltas_iff {objects objects' : OrderedMap ObjectId (CADObject P)}
    (hnew : (new.flatMap SessionDelta.objectDeltas).forM applyObjectDelta objects =
      .ok () objects') :
    (batchObjectDeltas (old ++ new)).forM applyObjectDelta objects = .ok () objects' ↔
      ∀ id : ObjectId, ObjectAtOnce objects[id]?
        (ofObject id (old.flatMap SessionDelta.objectDeltas))
        (ofObject id (new.flatMap SessionDelta.objectDeltas)) := by
  have hlast (id : ObjectId) : ofObject id (batchObjectDeltas (old ++ new)) =
      (ofObject id (old.flatMap SessionDelta.objectDeltas) ++
        ofObject id (new.flatMap SessionDelta.objectDeltas)).getLast?.toList := by
    rw [ofObject_batchObjectDeltas, List.flatMap_append, ofObject, List.filter_append]
    rfl
  -- The last new delta of an object decodes if the object is there when its turn comes.
  have hdecodes (id : ObjectId) (earlier : List (ObjectDelta P)) (d : ObjectDelta P)
      (hsplit : ofObject id (new.flatMap SessionDelta.objectDeltas) = earlier ++ [d])
      (hthere : (afterAll earlier objects[id]?).isSome) : d.decodes := by
    obtain ⟨before, rest, hlist, rfl, hrest⟩ := List.filter_eq_append_iff.mp hsplit
    obtain ⟨skipped, after, rfl, hskipped, hid, -⟩ := List.filter_eq_cons_iff.mp hrest
    obtain rfl := of_decide_eq_true hid
    rw [hlist, ← List.append_assoc] at hnew
    refine decodes_of_forM_ok hnew ?_
    rw [ofObject, List.filter_append, List.filter_eq_nil_iff.mpr hskipped, List.append_nil]
    exact hthere
  have hmem (d : ObjectDelta P) : d ∈ batchObjectDeltas (old ++ new) ↔
      (ofObject d.id (old.flatMap SessionDelta.objectDeltas) ++
        ofObject d.id (new.flatMap SessionDelta.objectDeltas)).getLast? = some d := by
    rw [← Option.mem_toList, ← hlast, ofObject, List.mem_filter, decide_eq_true rfl,
      and_iff_left rfl]
  have hnodup : ((batchObjectDeltas (old ++ new)).map ObjectDelta.id).Nodup :=
    nodup_batchObjectDeltas
  constructor
  · intro h id
    refine (objectAtOnce_iff (hdecodes id)).mp ⟨fun d hd hthere ↦ ?_, ?_⟩
    · have hid : d.id = id := by
        have hd' : d ∈ ofObject id (batchObjectDeltas (old ++ new)) := by
          rw [hlast, hd]
          exact List.mem_singleton_self d
        exact of_decide_eq_true (List.mem_filter.mp hd').2
      subst hid
      exact decodes_of_forM_nodup hnodup h ((hmem d).mpr hd)
        (Std.ExtTreeMap.isSome_getElem?_iff_mem.mp hthere)
    · rw [← hlast, ← forM_applyObjectDelta_ok hnew, forM_applyObjectDelta_ok h]
  · intro h
    obtain ⟨objects₁, hrun⟩ := exists_forM_applyObjectDelta hnodup fun d hd hthere ↦
      ((objectAtOnce_iff (hdecodes d.id)).mpr (h d.id)).1 d ((hmem d).mp hd)
        (Std.ExtTreeMap.isSome_getElem?_iff_mem.mpr hthere)
    have hsame : objects₁ = objects' := by
      refine OrderedMap.ext_lookup fun id ↦ ?_
      rw [forM_applyObjectDelta_ok hrun, hlast, forM_applyObjectDelta_ok hnew]
      exact ((objectAtOnce_iff (hdecodes id)).mpr (h id)).2.symm
    rw [hrun, hsame]

theorem getD_lastWrite_append_iff {α β : Type} {written : α → Option β} {l l' : List α} {b : β} :
    (lastWrite written l').getD b = (lastWrite written (l ++ l')).getD b ↔
      (lastWrite written l' = none → ∀ c, lastWrite written l = some c → c = b) := by
  rw [lastWrite_append]
  rcases lastWrite written l' with _ | c
  · rw [Option.none_or, Option.getD_none, imp_iff_right rfl]
    rcases lastWrite written l with _ | c
    · exact iff_of_true rfl fun c h ↦ by cases h
    · constructor
      · rintro rfl _ ⟨⟩
        rfl
      · intro h
        exact (h c rfl).symm
  · exact iff_of_true rfl fun h ↦ by cases h

theorem settings_batch_iff (hnew : Applied new state state') :
    ((∀ value, lastWrite SessionDelta.settingsChanges (old ++ new) = some value →
        (P.settings.fromValue value).isSome) ∧
      state'.settings = ((lastWrite SessionDelta.settingsChanges (old ++ new)).bind
        P.settings.fromValue).getD state.settings) ↔
      (lastWrite SessionDelta.settingsChanges new = none →
        ∀ value, lastWrite SessionDelta.settingsChanges old = some value →
          P.settings.fromValue value = some state.settings) := by
  have hsettings := hnew.settings
  rw [lastWrite_append]
  rcases hlast : lastWrite SessionDelta.settingsChanges new with _ | value
  · rw [hlast, Option.bind_none, Option.getD_none] at hsettings
    rw [Option.none_or, imp_iff_right rfl, hsettings]
    rcases lastWrite SessionDelta.settingsChanges old with _ | value
    · refine iff_of_true ⟨fun value h ↦ ?_, rfl⟩ fun value h ↦ ?_
      · cases h
      · cases h
    · constructor
      · rintro ⟨hdecodes, hsame⟩ _ ⟨⟩
        obtain ⟨a, ha⟩ := Option.isSome_iff_exists.mp (hdecodes value rfl)
        rw [Option.bind_some, ha, Option.getD_some] at hsame
        rw [ha, hsame]
      · intro h
        rw [Option.bind_some, h value rfl]
        refine ⟨?_, rfl⟩
        rintro _ ⟨⟩
        rw [h value rfl]
        rfl
  · rw [hlast] at hsettings
    rw [Option.some_or]
    refine iff_of_true ⟨?_, hsettings⟩ fun h ↦ ?_
    · rintro _ ⟨⟩
      obtain ⟨d, hd, hvalue⟩ := exists_mem_of_lastWrite hlast
      exact hnew.settingsDecode d hd value hvalue
    · cases h

/-- **A batch leads where the new deltas lead** just when it says what they say. -/
theorem applied_batch_iff (hbatch : IsBatch delta (old ++ new)) (hnew : Applied new state state')
    (htime : lastWrite (fun delta ↦ some delta.timestamp) new = some delta.timestamp) :
    Applied [delta] state state' ↔ AtOnce state old new := by
  have hindex : state'.historyIndex =
        (lastWrite SessionDelta.index (old ++ new)).getD state.historyIndex ↔ _ :=
    hnew.historyIndex ▸ getD_lastWrite_append_iff
  have husers : state'.activeUsers =
        ((old ++ new).flatMap SessionDelta.joined).foldl join
          (without state.activeUsers ((old ++ new).flatMap SessionDelta.left)) ↔
      present state.activeUsers (new.flatMap SessionDelta.left) (stillJoined new) =
        present state.activeUsers ((old ++ new).flatMap SessionDelta.left)
          ((old ++ new).flatMap SessionDelta.joined) := by
    rw [hnew.activeUsers, foldl_join_eq_firstOf, foldl_join_eq_firstOf]
    exact Iff.rfl
  constructor
  · intro h
    refine ⟨?_, ?_, ?_, fun key ↦ ?_, ?_, ?_⟩
    · refine (forM_batchObjectDeltas_iff hnew.objects).mp ?_
      rw [← hbatch.objectDeltas, ← List.flatMap_singleton SessionDelta.objectDeltas delta]
      exact h.objects
    · have hhistory := h.history
      rw [hnew.history, List.flatMap_singleton, hbatch.entries, List.flatMap_append,
        List.append_cancel_left_eq, List.self_eq_append_left] at hhistory
      exact hhistory
    · have hindexes := h.historyIndex
      rw [lastWrite_singleton, hbatch.index] at hindexes
      exact hindex.mp hindexes
    · have hmetadata := h.metadata key
      rw [hnew.metadata, lastWrite_singleton, hbatch.metadataChanges] at hmetadata
      exact hmetadata
    · have husers' := h.activeUsers
      rw [stillJoined, stillJoined, List.flatMap_nil, without_nil, List.append_nil,
        List.flatMap_singleton, hbatch.joined, hbatch.left] at husers'
      exact husers.mp husers'
    · refine (settings_batch_iff hnew).mp ⟨fun value hvalue ↦ ?_, ?_⟩
      · exact h.settingsDecode delta List.mem_cons_self value (hbatch.settingsChanges.trans hvalue)
      · rw [← hbatch.settingsChanges, h.settings, lastWrite_singleton]
  · intro h
    obtain ⟨hdecodes, hsettings⟩ := (settings_batch_iff hnew).mpr h.settings
    refine ⟨?_, ?_, ?_, fun key ↦ ?_, ?_, fun d hd value hvalue ↦ ?_, ?_, ?_⟩
    · rw [List.flatMap_singleton, hbatch.objectDeltas]
      exact (forM_batchObjectDeltas_iff hnew.objects).mpr h.objects
    · rw [hnew.history, List.flatMap_singleton, hbatch.entries, List.flatMap_append, h.history,
        List.nil_append]
    · rw [lastWrite_singleton, hbatch.index]
      exact hindex.mpr h.historyIndex
    · rw [hnew.metadata, lastWrite_singleton, hbatch.metadataChanges]
      exact h.metadata key
    · rw [stillJoined, stillJoined, List.flatMap_nil, without_nil, List.append_nil,
        List.flatMap_singleton, hbatch.joined, hbatch.left]
      exact husers.mpr h.activeUsers
    · rw [List.mem_singleton.mp hd, hbatch.settingsChanges] at hvalue
      exact hdecodes value hvalue
    · rw [lastWrite_singleton, hbatch.settingsChanges]
      exact hsettings
    · rw [hnew.modifiedAt, htime, lastWrite_singleton]

/-- **Applying the batch of a list of deltas leads where the deltas lead** just when they can be
merged. -/
theorem preservesMeaning_iff (hincreasing : deltas.Pairwise (·.sequence < ·.sequence))
    (hrun : deltas.forM applyDelta (tracker, state) = .ok () (tracker', state')) :
    PreservesMeaning deltas tracker state ↔ Mergeable deltas tracker state := by
  obtain ⟨hparts, hsequence⟩ := forM_applyDelta_ok hincreasing hrun
  have hpreserves : PreservesMeaning deltas tracker state ↔
      ∀ other : DeltaTracker, other.sequence = tracker.sequence →
        ∃ other', applyBatch deltas (other, state) = .ok () (other', state') ∧
          other'.sequence = tracker'.sequence := by
    refine ⟨fun h ↦ h _ _ hrun, fun h tracker₁ state₁ hrun₁ ↦ ?_⟩
    rw [hrun, EStateM.Result.ok.injEq, Prod.mk.injEq] at hrun₁
    rw [← hrun₁.2.1, ← hrun₁.2.2]
    exact h
  rw [hpreserves]
  rcases List.eq_nil_or_concat' deltas with rfl | ⟨before, last, rfl⟩
  · cases hrun
    exact iff_of_true (fun other hother ↦ ⟨other, rfl, hother⟩) (Or.inl (Nat.zero_le 1))
  by_cases hbefore : before = []
  · subst hbefore
    obtain ⟨_, hfirst, hrest⟩ := EStateM.forM_cons_eq_ok.mp hrun
    obtain rfl := EStateM.forM_nil_eq_ok.mp hrest
    exact iff_of_true (fun other hother ↦ applyDelta_congr hother hfirst) (Or.inl le_rfl)
  obtain ⟨delta, hsome, hbatch, hnumber, htime⟩ := exists_batchDeltas last hbefore
  have happly (other : DeltaTracker) : applyBatch (before ++ [last]) (other, state) =
      applyDelta delta (other, state) := by
    rw [applyBatch, hsome]
  have hlong : ¬ (before ++ [last]).length ≤ 1 := by
    rw [List.length_append, List.length_singleton, Nat.not_le]
    exact Nat.succ_lt_succ (List.length_pos_of_ne_nil hbefore)
  have hmax (d : SessionDelta P) (hd : d ∈ before) : d.sequence < last.sequence :=
    (List.pairwise_append.mp hincreasing).2.2 d hd last (List.mem_singleton_self last)
  by_cases hpassed : last.sequence ≤ tracker.sequence
  · -- The tracker has passed all of them, and passes the batch.
    have hall (d : SessionDelta P) (hd : d ∈ before ++ [last]) : d.sequence ≤ tracker.sequence := by
      rcases List.mem_append.mp hd with hd | hd
      · exact (hmax d hd).le.trans hpassed
      · rwa [List.mem_singleton.mp hd]
    have hnone : (before ++ [last]).filter (tracker.sequence < ·.sequence) = [] :=
      List.filter_eq_nil_iff.mpr fun d hd ↦ by simpa using hall d hd
    rw [hnone] at hparts hsequence
    obtain rfl := EStateM.forM_nil_eq_ok.mp hparts
    refine iff_of_true (fun other hother ↦ ⟨other, ?_, hother.trans hsequence.symm⟩)
      (Or.inr (Or.inl hall))
    rw [happly, applyDelta]
    exact if_pos (hnumber.trans_le (hpassed.trans hother.ge))
  · have hpassed := Nat.lt_of_not_le hpassed
    have hnew : (before ++ [last]).filter (tracker.sequence < ·.sequence) =
        before.filter (tracker.sequence < ·.sequence) ++ [last] := by
      rw [List.filter_append, List.filter_singleton, decide_eq_true hpassed]
      rfl
    have hnotall : ¬ ∀ d ∈ before ++ [last], d.sequence ≤ tracker.sequence := fun hall ↦
      (hall last (List.mem_append_right _ (List.mem_singleton_self last))).not_gt hpassed
    rw [Mergeable, or_iff_right hlong, or_iff_right hnotall]
    have hparted := filter_append_filter hincreasing tracker.sequence
    rw [← hparted] at hbatch
    rw [← applied_batch_iff hbatch (applied_of_forM hparts), ← applyParts_eq_ok]
    · constructor
      · intro h
        obtain ⟨other', hother', -⟩ := h tracker rfl
        rw [happly] at hother'
        simp only [applyDelta] at hother'
        rw [if_neg (Nat.not_le.mpr (hnumber ▸ hpassed))] at hother'
        rcases hdelta : applyParts delta state with ⟨_, t⟩ | ⟨e, t⟩
        · rw [hdelta] at hother'
          cases hother'
          rfl
        · rw [hdelta] at hother'
          cases hother'
      · intro h other hother
        refine ⟨{ other with sequence := delta.sequence }, ?_, ?_⟩
        · rw [happly]
          exact applyDelta_of_lt (hother ▸ hnumber ▸ hpassed) h
        · rw [hsequence, hnew, lastWrite_concat]
          exact hnumber
    · rw [hnew, lastWrite_concat, htime]
      rfl

end Condition

/-! ## Examples -/

def plainCodec : Codec ℕ :=
  ⟨fun n ↦ .number (.posInt n), Json.asU64?, Json.asU64?_posInt⟩

/-- Sessions whose objects have numbers for everything. -/
abbrev plain : Payloads := ⟨ℕ, ℕ, ℕ, ℕ, ℕ, ℕ, ℕ, plainCodec, plainCodec, plainCodec⟩

/-- A session without content. -/
def vacant : SessionState plain := ⟨∅, [], 0, 0, [], 0, ∅⟩

def ann : UserInfo := ⟨"ann", "Ann", (0, 0, 0, 1), 0, .editor, none, []⟩

def userDelta (sequence : ℕ) (joined : List UserInfo) (left : List String) :
    SessionDelta plain :=
  ⟨0, sequence, 0, [], none, none, some ⟨joined, left, ∅⟩, none⟩

def settingsDelta (sequence settings : ℕ) : SessionDelta plain :=
  ⟨0, sequence, 0, [], none, none, none, some (.number (.posInt settings))⟩

/-- Somebody joins, and then the settings change. -/
theorem preservesMeaning_joined :
    PreservesMeaning [userDelta 1 [ann] [], settingsDelta 2 7] (.new 0) vacant := by
  have hrun : [userDelta 1 [ann] [], settingsDelta 2 7].forM applyDelta (.new 0, vacant) =
      .ok () ({ DeltaTracker.new 0 with sequence := 2 },
        { vacant with activeUsers := [ann], settings := 7 }) := rfl
  refine (preservesMeaning_iff (by decide) hrun).mpr (Or.inr (Or.inr ?_))
  refine ⟨fun id ↦ ⟨fun _ d hd ↦ ?_, fun earlier d hd ↦ ?_⟩, rfl, fun _ index h ↦ ?_, fun key ↦ rfl,
    rfl, fun h ↦ ?_⟩
  · cases hd
  · exact absurd hd.symm (List.append_ne_nil_of_right_ne_nil _ (List.cons_ne_nil _ _))
  · cases h
  · cases h

/-- **Who joins and leaves again is there after the batch.** -/
theorem not_preservesMeaning_left :
    ¬ ∀ (P : Payloads) (deltas : List (SessionDelta P)) (tracker : DeltaTracker)
      (state : SessionState P), deltas.Pairwise (·.sequence < ·.sequence) →
        PreservesMeaning deltas tracker state := by
  intro h
  have hrun : [userDelta 1 [ann] [], userDelta 2 [] ["ann"]].forM applyDelta (.new 0, vacant) =
      .ok () ({ DeltaTracker.new 0 with sequence := 2 }, vacant) := rfl
  obtain ⟨other', hbatch, -⟩ := h plain _ (.new 0) vacant (by decide) _ _ hrun (.new 0) rfl
  have hjoined : (EStateM.Result.ok () ({ DeltaTracker.new 0 with sequence := 2 },
      { vacant with activeUsers := [ann] }) : EStateM.Result SessionError _ Unit) =
      .ok () (other', vacant) := hbatch
  rw [EStateM.Result.ok.injEq, Prod.mk.injEq] at hjoined
  have husers : [ann] = [] := congrArg SessionState.activeUsers hjoined.2.2
  exact List.cons_ne_nil _ _ husers

end Delta

end RosheraCad
