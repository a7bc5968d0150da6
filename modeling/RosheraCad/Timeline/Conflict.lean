import RosheraCad.Timeline.State

/-!
# Merge conflicts

A divergent merge sorts what each side did since the common prefix by subject: the last event that
deleted it, the last that touched it and the last that required it. A subject with a role on both
sides is then classified.
-/

namespace RosheraCad

inductive ConflictSubject
  | entity (id : EntityId)
  | kernelRef (reference : String)
  deriving DecidableEq

def ConflictSubject.toText : ConflictSubject → String
  | entity id => "entity:" ++ id.toText
  | kernelRef reference => reference

/-- How two sides' changes to a subject collide. -/
inductive ConflictType
  | concurrentModification
  | deleteModify
  | operationConflict
  | dependencyConflict
  | topologicalConflict
  deriving DecidableEq

/-- A merge conflict with its witnesses. Detection never resolves one, so no resolution is kept. -/
structure MergeConflict where
  subject : ConflictSubject
  conflictType : ConflictType
  sourceEvent : TimelineEvent
  targetEvent : TimelineEvent

structure AffectedSubjects where
  deleted : List ConflictSubject
  touched : List ConflictSubject
  /-- Subjects this operation reads but does not create, mutate or delete. -/
  required : List ConflictSubject

def parseRefArray (parameters : Json) (key : String) : List String :=
  (((parameters.get? key).bind Json.asArray?).map fun items ↦
    items.filterMap Json.asStr?).getD []

private def entities (ids : List EntityId) : List ConflictSubject := ids.map .entity

mutual

def getAffectedSubjects : Operation → AffectedSubjects
  | .createPrimitive .. | .createSketch .. | .createCheckpoint .. => ⟨[], [], []⟩
  | .extrude sketchId .. | .revolve sketchId .. => ⟨[], [], [.entity sketchId]⟩
  | .loft profiles _ => ⟨[], [], entities profiles⟩
  | .sweep profile path => ⟨[], [], [.entity profile, .entity path]⟩
  | .booleanUnion operands | .booleanIntersection operands => ⟨[], entities operands, []⟩
  | .booleanDifference target tools => ⟨[], .entity target :: entities tools, []⟩
  | .boolean _ operandA operandB => ⟨[], [.entity operandA, .entity operandB], []⟩
  | .fillet edges .. | .chamfer edges .. => ⟨[], entities edges, []⟩
  | .pattern features _ => ⟨[], entities features, []⟩
  | .transform ids _ => ⟨[], entities ids, []⟩
  | .delete ids => ⟨entities ids, [], []⟩
  | .modify entity _ => ⟨[], [.entity entity], []⟩
  | .batch operations _ => getAffectedSubjectsOfAll operations
  | .generic _ parameters =>
    ⟨[], (parseRefArray parameters "outputs").map .kernelRef,
      (parseRefArray parameters "inputs").map .kernelRef⟩

def getAffectedSubjectsOfAll : List Operation → AffectedSubjects
  | [] => ⟨[], [], []⟩
  | op :: ops =>
    let sub := getAffectedSubjects op
    let rest := getAffectedSubjectsOfAll ops
    ⟨sub.deleted ++ rest.deleted, sub.touched ++ rest.touched, sub.required ++ rest.required⟩

end

def operationsIdentical (a b : Operation) : Bool := a.toValue = b.toValue

/-! ## Roles on one side -/

structure SubjectRole where
  deletedBy : Option TimelineEvent
  touchedBy : Option TimelineEvent
  requiredBy : Option TimelineEvent

def SubjectRole.default : SubjectRole := ⟨none, none, none⟩

abbrev SubjectIndex := List (ConflictSubject × SubjectRole)

def SubjectIndex.update (index : SubjectIndex) (s : ConflictSubject)
    (f : SubjectRole → SubjectRole) : SubjectIndex :=
  if s ∈ index.map Prod.fst then index.map fun e ↦ if e.1 = s then (e.1, f e.2) else e
  else index ++ [(s, f .default)]

def indexEvent (index : SubjectIndex) (event : TimelineEvent) : SubjectIndex :=
  let subjects := getAffectedSubjects event.operation
  let index := subjects.deleted.foldl (fun index s ↦
    index.update s fun role ↦ { role with deletedBy := some event }) index
  let index := subjects.touched.foldl (fun index s ↦
    index.update s fun role ↦ { role with touchedBy := some event }) index
  subjects.required.foldl (fun index s ↦
    index.update s fun role ↦ { role with requiredBy := some event }) index

/-- Build the last-write-wins index of one side's events, which come in ascending order. -/
def indexSubjectsByRole (events : List TimelineEvent) : SubjectIndex :=
  events.foldl indexEvent []

/-! ## Classification -/

def classifySubjectConflict (source target : SubjectRole) :
    Option (ConflictType × TimelineEvent × TimelineEvent) :=
  -- Two reads never conflict.
  if source.deletedBy.isNone ∧ source.touchedBy.isNone ∧ target.deletedBy.isNone ∧
      target.touchedBy.isNone then none
  -- Both deleted it and neither touched it: the same outcome either way.
  else if source.deletedBy.isSome ∧ target.deletedBy.isSome ∧ source.touchedBy.isNone ∧
      target.touchedBy.isNone then none
  else
    match source.deletedBy, target.touchedBy, target.requiredBy with
    | some sd, some tt, _ => some (.deleteModify, sd, tt)
    | some sd, none, some tr => some (.dependencyConflict, sd, tr)
    | _, _, _ =>
      match target.deletedBy, source.touchedBy, source.requiredBy with
      | some td, some st, _ => some (.deleteModify, st, td)
      | some td, none, some sr => some (.dependencyConflict, sr, td)
      | _, _, _ =>
        match source.touchedBy, target.touchedBy with
        | some st, some tt =>
          if operationsIdentical st.operation tt.operation then none
          else some (.concurrentModification, st, tt)
        | _, _ => none

def conflictsOf (source target : SubjectIndex) : List MergeConflict :=
  source.filterMap fun (subject, sRole) ↦
    (target.lookup subject).bind fun tRole ↦
      (classifySubjectConflict sRole tRole).map fun (conflictType, sourceEvent, targetEvent) ↦
        ⟨subject, conflictType, sourceEvent, targetEvent⟩

/-- The single conflict-classification lane, sorted by displayed subject. -/
def classifyDivergenceConflicts (sourceOnly targetOnly : List TimelineEvent) :
    List MergeConflict :=
  (conflictsOf (indexSubjectsByRole sourceOnly) (indexSubjectsByRole targetOnly)).insertionSort
    fun a b ↦ a.subject.toText ≤ b.subject.toText

/-! ## What the index holds

The role a subject ends with on one side is read off the side's events directly: the last event
listing it under each role. -/

def lastListing (role : AffectedSubjects → List ConflictSubject) (s : ConflictSubject)
    (events : List TimelineEvent) : Option TimelineEvent :=
  events.findRev? fun ev ↦ s ∈ role (getAffectedSubjects ev.operation)

def roleOf (events : List TimelineEvent) (s : ConflictSubject) : SubjectRole where
  deletedBy := lastListing AffectedSubjects.deleted s events
  touchedBy := lastListing AffectedSubjects.touched s events
  requiredBy := lastListing AffectedSubjects.required s events

private def roleAt (index : SubjectIndex) (s : ConflictSubject) : SubjectRole :=
  (index.lookup s).getD .default

private theorem lookup_map_update (index : SubjectIndex) (s s' : ConflictSubject)
    (f : SubjectRole → SubjectRole) :
    (index.map fun e ↦ if e.1 = s' then (e.1, f e.2) else e).lookup s =
      (index.lookup s).map fun role ↦ if s = s' then f role else role := by
  induction index with
  | nil => rfl
  | cons e index ih =>
    obtain ⟨a, role⟩ := e
    by_cases hs : s = a
    · subst hs
      by_cases hs' : s = s' <;> simp [hs']
    · have hne : (s == a) = false := beq_false_of_ne hs
      by_cases ha : a = s'
      · subst ha
        simp [List.lookup_cons, hne, ih]
      · simp [List.lookup_cons, hne, ha, ih]

variable {index : SubjectIndex} {s : ConflictSubject} {role : SubjectRole}

private theorem lookup_eq_none_of_not_mem (h : s ∉ index.map Prod.fst) : index.lookup s = none :=
  List.lookup_eq_none_iff.mpr fun e he ↦ by
    rw [bne_iff_ne]
    rintro rfl
    exact h (List.mem_map_of_mem he)

private theorem roleAt_update (index : SubjectIndex) (s s' : ConflictSubject)
    (f : SubjectRole → SubjectRole) :
    roleAt (index.update s' f) s = if s = s' then f (roleAt index s) else roleAt index s := by
  rw [SubjectIndex.update]
  split
  · next hmem =>
    rw [roleAt, lookup_map_update, roleAt]
    cases hl : index.lookup s with
    | none =>
      have hne : s ≠ s' := by
        rintro rfl
        obtain ⟨e, he, rfl⟩ := List.mem_map.mp hmem
        simpa using List.lookup_eq_none_iff.mp hl e he
      rw [if_neg hne]
      rfl
    | some role => rfl
  · next hnot =>
    rw [roleAt, List.lookup_append, roleAt]
    by_cases hs : s = s'
    · subst hs
      simp [lookup_eq_none_of_not_mem hnot]
    · simp [hs, List.lookup_cons, beq_false_of_ne hs]

private theorem roleAt_foldl_update (f : SubjectRole → SubjectRole) (hf : ∀ r, f (f r) = f r)
    (subjects : List ConflictSubject) (index : SubjectIndex) (s : ConflictSubject) :
    roleAt (subjects.foldl (fun index s ↦ index.update s f) index) s =
      if s ∈ subjects then f (roleAt index s) else roleAt index s := by
  induction subjects generalizing index with
  | nil => simp
  | cons a subjects ih =>
    rw [List.foldl_cons, ih, roleAt_update]
    by_cases ha : s = a
    · by_cases hs : s ∈ subjects <;> simp [ha, hf]
    · by_cases hs : s ∈ subjects <;> simp [ha, hs]

private theorem roleAt_indexEvent (index : SubjectIndex) (ev : TimelineEvent)
    (s : ConflictSubject) :
    roleAt (indexEvent index ev) s =
      { deletedBy := if s ∈ (getAffectedSubjects ev.operation).deleted then some ev
          else (roleAt index s).deletedBy
        touchedBy := if s ∈ (getAffectedSubjects ev.operation).touched then some ev
          else (roleAt index s).touchedBy
        requiredBy := if s ∈ (getAffectedSubjects ev.operation).required then some ev
          else (roleAt index s).requiredBy } := by
  rw [indexEvent,
    roleAt_foldl_update (fun role ↦ { role with requiredBy := some ev }) fun _ ↦ rfl,
    roleAt_foldl_update (fun role ↦ { role with touchedBy := some ev }) fun _ ↦ rfl,
    roleAt_foldl_update (fun role ↦ { role with deletedBy := some ev }) fun _ ↦ rfl]
  split <;> split <;> split <;> rfl

private theorem roleAt_indexSubjectsByRole (events : List TimelineEvent) (s : ConflictSubject) :
    roleAt (indexSubjectsByRole events) s = roleOf events s := by
  induction events using List.reverseRecOn with
  | nil => rfl
  | append_singleton events ev ih =>
    rw [indexSubjectsByRole, List.foldl_append, List.foldl_cons, List.foldl_nil,
      roleAt_indexEvent]
    rw [indexSubjectsByRole] at ih
    rw [ih]
    simp only [roleOf, lastListing, List.findRev?_eq_find?_reverse, List.reverse_append,
      List.reverse_singleton, List.singleton_append, List.find?_cons]
    congr 1 <;> split <;> simp_all

private theorem nodup_update (h : (index.map Prod.fst).Nodup)
    (s : ConflictSubject) (f : SubjectRole → SubjectRole) :
    ((index.update s f).map Prod.fst).Nodup := by
  rw [SubjectIndex.update]
  split
  · have hfst : (index.map fun e ↦ if e.1 = s then (e.1, f e.2) else e).map Prod.fst =
        index.map Prod.fst := by
      rw [List.map_map]
      exact List.map_congr_left fun e _ ↦ by by_cases he : e.1 = s <;> simp [he]
    rw [hfst]
    exact h
  · next hnot =>
    rw [List.map_append, List.nodup_append]
    refine ⟨h, List.nodup_singleton _, ?_⟩
    rintro a ha b hb rfl
    obtain rfl : a = s := by simpa using hb
    exact hnot ha

private theorem nodup_foldl_update (f : SubjectRole → SubjectRole) (subjects : List ConflictSubject)
    (h : (index.map Prod.fst).Nodup) :
    ((subjects.foldl (fun index s ↦ index.update s f) index).map Prod.fst).Nodup := by
  induction subjects generalizing index with
  | nil => exact h
  | cons a subjects ih => exact ih (nodup_update h a f)

private theorem nodup_indexSubjectsByRole (events : List TimelineEvent) :
    ((indexSubjectsByRole events).map Prod.fst).Nodup := by
  have hfold : ∀ (events : List TimelineEvent) (index : SubjectIndex),
      (index.map Prod.fst).Nodup → ((events.foldl indexEvent index).map Prod.fst).Nodup := by
    intro events
    induction events with
    | nil => exact fun _ h ↦ h
    | cons ev events ih =>
      intro index h
      exact ih _ (nodup_foldl_update _ _ (nodup_foldl_update _ _ (nodup_foldl_update _ _ h)))
  exact hfold events [] List.nodup_nil

private theorem lookup_indexSubjectsByRole {events : List TimelineEvent}
    (h : (indexSubjectsByRole events).lookup s = some role) :
    role = roleOf events s := by
  rw [← roleAt_indexSubjectsByRole, roleAt, h, Option.getD_some]

/-! ## What classification reports -/

@[simp] private theorem classifySubjectConflict_default_left (role : SubjectRole) :
    classifySubjectConflict .default role = none := by
  obtain ⟨d, t, r⟩ := role
  cases d <;> cases t <;> cases r <;> rfl

@[simp] private theorem classifySubjectConflict_default_right (role : SubjectRole) :
    classifySubjectConflict role .default = none := by
  obtain ⟨d, t, r⟩ := role
  cases d <;> cases t <;> cases r <;> rfl

private theorem lookup_of_mem (hn : (index.map Prod.fst).Nodup) (h : (s, role) ∈ index) :
    index.lookup s = some role := by
  induction index with
  | nil => simp at h
  | cons e index ih =>
    rw [List.map_cons, List.nodup_cons] at hn
    rcases List.mem_cons.mp h with rfl | h
    · exact List.lookup_cons_self
    · have hne : s ≠ e.1 := by
        rintro rfl
        exact hn.1 (List.mem_map.mpr ⟨_, h, rfl⟩)
      rw [List.lookup_cons, beq_false_of_ne hne]
      exact ih hn.2 h

private theorem mem_of_lookup (h : index.lookup s = some role) : (s, role) ∈ index := by
  obtain ⟨l₁, l₂, rfl, -⟩ := List.lookup_eq_some_iff.mp h
  simp

/-- **A conflict is reported exactly when the roles collide.** The witnesses are the events the
classification picks. -/
theorem mem_classifyDivergenceConflicts {sourceOnly targetOnly : List TimelineEvent}
    {c : MergeConflict} :
    c ∈ classifyDivergenceConflicts sourceOnly targetOnly ↔
      classifySubjectConflict (roleOf sourceOnly c.subject) (roleOf targetOnly c.subject) =
        some (c.conflictType, c.sourceEvent, c.targetEvent) := by
  rw [classifyDivergenceConflicts, List.mem_insertionSort, conflictsOf, List.mem_filterMap]
  constructor
  · rintro ⟨⟨s, sRole⟩, hmem, hc⟩
    obtain ⟨tRole, ht, hc⟩ := Option.bind_eq_some_iff.mp hc
    obtain ⟨⟨ty, se, te⟩, hcl, rfl⟩ := Option.map_eq_some_iff.mp hc
    rw [← lookup_indexSubjectsByRole (lookup_of_mem (nodup_indexSubjectsByRole _) hmem),
      ← lookup_indexSubjectsByRole ht, hcl]
  · intro hcl
    cases hs : (indexSubjectsByRole sourceOnly).lookup c.subject with
    | none =>
      rw [← roleAt_indexSubjectsByRole sourceOnly, roleAt, hs, Option.getD_none,
        classifySubjectConflict_default_left] at hcl
      cases hcl
    | some sRole =>
      cases ht : (indexSubjectsByRole targetOnly).lookup c.subject with
      | none =>
        rw [← roleAt_indexSubjectsByRole targetOnly, roleAt, ht, Option.getD_none,
          classifySubjectConflict_default_right] at hcl
        cases hcl
      | some tRole =>
        refine ⟨(c.subject, sRole), mem_of_lookup hs, ?_⟩
        rw [← lookup_indexSubjectsByRole hs, ← lookup_indexSubjectsByRole ht] at hcl
        simp only [ht, Option.bind_some, hcl, Option.map_some]

theorem exists_conflict_iff {sourceOnly targetOnly : List TimelineEvent} :
    (∃ c ∈ classifyDivergenceConflicts sourceOnly targetOnly, c.subject = s) ↔
      (classifySubjectConflict (roleOf sourceOnly s) (roleOf targetOnly s)).isSome := by
  constructor
  · rintro ⟨c, hc, rfl⟩
    rw [mem_classifyDivergenceConflicts.mp hc]
    rfl
  · intro h
    obtain ⟨⟨ty, se, te⟩, hcl⟩ := Option.isSome_iff_exists.mp h
    exact ⟨⟨s, ty, se, te⟩, mem_classifyDivergenceConflicts.mpr hcl, rfl⟩

end RosheraCad
