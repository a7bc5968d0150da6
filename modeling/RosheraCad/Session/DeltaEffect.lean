import RosheraCad.Library.LastWrite
import RosheraCad.Session.CatchUp

/-!
# What deltas leave behind

Applying deltas one after the other is a run of writes: every field of an object, every entry of the
metadata, the history index and the settings hold afterwards what was written to them last.
-/

namespace RosheraCad

namespace Delta

variable {P : Payloads}

/-! ## The fields of an object -/

/-- The fields of an object: the ones a change can set, and all the others together. -/
inductive Field
  | name
  | visible
  | locked
  | transform
  | material
  | metadata
  | others
  deriving DecidableEq

structure OtherFields (P : Payloads) where
  id : ObjectId
  mesh : P.Mesh
  analyticalGeometry : Option P.AnalyticalGeometry
  cachedMeshes : OrderedMap String P.CachedMesh
  parent : Option ObjectId
  children : List ObjectId
  createdAt : ℕ
  modifiedAt : ℕ

abbrev Field.Value (P : Payloads) : Field → Type
  | .name => String
  | .visible | .locked => Bool
  | .transform => P.Transform3D
  | .material => P.MaterialProperties
  | .metadata => OrderedMap String Json
  | .others => OtherFields P

/-- What a field of an object holds. -/
def CADObject.get (obj : CADObject P) : (f : Field) → f.Value P
  | .name => obj.name
  | .visible => obj.visible
  | .locked => obj.locked
  | .transform => obj.transform
  | .material => obj.material
  | .metadata => obj.metadata
  | .others =>
    ⟨obj.id, obj.mesh, obj.analyticalGeometry, obj.cachedMeshes, obj.parent, obj.children,
      obj.createdAt, obj.modifiedAt⟩

def CADObject.ofFields (value : (f : Field) → f.Value P) : CADObject P where
  id := (value .others).id
  name := value .name
  mesh := (value .others).mesh
  analyticalGeometry := (value .others).analyticalGeometry
  cachedMeshes := (value .others).cachedMeshes
  transform := value .transform
  material := value .material
  visible := value .visible
  locked := value .locked
  parent := (value .others).parent
  children := (value .others).children
  metadata := value .metadata
  createdAt := (value .others).createdAt
  modifiedAt := (value .others).modifiedAt

@[simp] theorem CADObject.get_ofFields (value : (f : Field) → f.Value P) (f : Field) :
    (ofFields value).get f = value f := by
  cases f <;> rfl

theorem CADObject.ext_get {a b : CADObject P} (h : ∀ f, a.get f = b.get f) : a = b := by
  change ofFields a.get = ofFields b.get
  rw [funext h]

/-! ## Changes of an object -/

def changeWrites (P : Payloads) (f : Field) (e : String × Json) : Option (f.Value P) :=
  match f, e with
  | .name, ("name", .string name) => some name
  | .visible, ("visible", .bool visible) => some visible
  | .locked, ("locked", .bool locked) => some locked
  | .transform, ("transform", value) => P.transform.fromValue value
  | .material, ("material", value) => P.material.fromValue value
  | .metadata, ("metadata", value) => metadataCodec.fromValue value
  | _, _ => none

def changesWrite (P : Payloads) (f : Field) : Json → Option (f.Value P)
  | .object entries => lastWrite (changeWrites P f) entries
  | _ => none

def transformWrites (P : Payloads) (value : Json) : (f : Field) → Option (f.Value P)
  | .transform => P.transform.fromValue value
  | _ => none

namespace ObjectDelta

variable (d : ObjectDelta P)

/-- The object that is there after the delta whatever was there before, if the delta decides. -/
def placed : Option (Option (CADObject P)) :=
  match d.deltaType with
  | .added => d.object.map some
  | .removed => some none
  | .modified | .transformed => none

def written (f : Field) : Option (f.Value P) :=
  match d.deltaType with
  | .modified => d.changes.bind (changesWrite P f)
  | .transformed => d.transform.bind (transformWrites P · f)
  | .added | .removed => none

def after (o : Option (CADObject P)) : Option (CADObject P) :=
  d.placed.getD (o.map fun obj ↦ .ofFields fun f ↦ (d.written f).getD (obj.get f))

end ObjectDelta

theorem decode_eq_ok {σ α : Type} {codec : Codec α} {value : Json} {a : α} {s s' : σ} :
    decode codec value s = .ok a s' ↔ codec.fromValue value = some a ∧ s = s' := by
  rw [decode]
  rcases codec.fromValue value with _ | b
  · exact iff_of_false (fun h ↦ by cases h) fun h ↦ by cases h.1
  · change EStateM.Result.ok b s = .ok a s' ↔ _
    rw [EStateM.Result.ok.injEq, Option.some_inj]

section Changes

variable {e : String × Json} {obj obj' : CADObject P}

theorem decode_modify_eq_ok {α : Type} {codec : Codec α} {value : Json}
    {set : α → CADObject P → CADObject P}
    (h : (do let a ← decode codec value; modify (set a) : EStateM SessionError (CADObject P) Unit)
      obj = .ok () obj') : ∃ a, codec.fromValue value = some a ∧ obj' = set a obj := by
  obtain ⟨a, _, hdecode, hset⟩ := EStateM.bind_eq_ok_iff.mp h
  obtain ⟨hvalue, rfl⟩ := decode_eq_ok.mp hdecode
  cases hset
  exact ⟨a, hvalue, rfl⟩

theorem applyObjectChange_ok (h : applyObjectChange e obj = .ok () obj') :
    changeDecodes P e ∧ ∀ f, obj'.get f = (changeWrites P f e).getD (obj.get f) := by
  unfold applyObjectChange at h
  split at h
  · cases h
    exact ⟨rfl, fun f ↦ by cases f <;> rfl⟩
  · cases h
    exact ⟨rfl, fun f ↦ by cases f <;> rfl⟩
  · cases h
    exact ⟨rfl, fun f ↦ by cases f <;> rfl⟩
  · obtain ⟨a, ha, rfl⟩ := decode_modify_eq_ok h
    refine ⟨by simp [changeDecodes, ha], fun f ↦ ?_⟩
    cases f <;> simp [changeWrites, CADObject.get, ha]
  · obtain ⟨a, ha, rfl⟩ := decode_modify_eq_ok h
    refine ⟨by simp [changeDecodes, ha], fun f ↦ ?_⟩
    cases f <;> simp [changeWrites, CADObject.get, ha]
  · obtain ⟨a, ha, rfl⟩ := decode_modify_eq_ok h
    refine ⟨by simp [changeDecodes, ha], fun f ↦ ?_⟩
    cases f <;> simp [changeWrites, CADObject.get, ha]
  · cases h
    refine ⟨?_, fun f ↦ ?_⟩
    · unfold changeDecodes
      split <;> simp_all
    · have hnone : changeWrites P f e = none := by
        unfold changeWrites
        split <;> simp_all
      rw [hnone, Option.getD_none]

theorem applyObjectChanges_ok {changes : Json} (h : applyObjectChanges changes obj = .ok () obj') :
    (∀ entries, changes = .object entries → ∀ e ∈ entries, changeDecodes P e) ∧
      ∀ f, obj'.get f = (changesWrite P f changes).getD (obj.get f) := by
  unfold applyObjectChanges at h
  split at h
  next entries =>
    refine ⟨?_, fun f ↦ forM_eq_lastWrite (fun obj : CADObject P ↦ obj.get f)
      (changeWrites P f) (fun e s s' hs ↦ (applyObjectChange_ok hs).2 f) h⟩
    rintro _ ⟨⟩
    induction entries generalizing obj with
    | nil =>
      intro e he
      cases he
    | cons e entries ih =>
      obtain ⟨t, hact, hrest⟩ := EStateM.forM_cons_eq_ok.mp h
      intro e' he'
      rcases List.mem_cons.mp he' with rfl | he'
      · exact (applyObjectChange_ok hact).1
      · exact ih hrest e' he'
  next hother =>
    cases h
    refine ⟨fun entries heq ↦ absurd heq (hother entries), fun f ↦ ?_⟩
    unfold changesWrite
    split
    · exact absurd rfl (hother _)
    · rfl

end Changes

/-! ## Object deltas -/

section Objects

variable {d : ObjectDelta P} {objects objects' : OrderedMap ObjectId (CADObject P)}
  {ds : List (ObjectDelta P)}

theorem onObject_ok {id : ObjectId} {act : EStateM SessionError (CADObject P) Unit}
    (h : onObject id act objects = .ok () objects') :
    (objects[id]? = none ∧ objects' = objects) ∨
      ∃ obj obj', objects[id]? = some obj ∧ act obj = .ok () obj' ∧
        objects' = objects.insert id obj' := by
  rw [onObject] at h
  rcases hobj : objects[id]? with _ | obj
  · rw [hobj] at h
    cases h
    exact Or.inl ⟨rfl, rfl⟩
  · simp only [hobj] at h
    rcases hact : act obj with ⟨_, obj'⟩ | ⟨e, obj'⟩
    · rw [hact] at h
      cases h
      exact Or.inr ⟨obj, obj', rfl, hact, rfl⟩
    · rw [hact] at h
      cases h

theorem ObjectDelta.after_of_writes_nothing (hplaced : d.placed = none)
    (hwritten : ∀ f, d.written f = none) (o : Option (CADObject P)) : d.after o = o := by
  rw [after, hplaced, Option.getD_none]
  rcases o with _ | obj
  · rfl
  · refine congrArg some (CADObject.ext_get fun f ↦ ?_)
    rw [CADObject.get_ofFields, hwritten, Option.getD_none]

theorem onObject_ok_after {act : EStateM SessionError (CADObject P) Unit}
    (hplaced : d.placed = none) (hact : ∀ obj obj', act obj = .ok () obj' →
      d.decodes ∧ ∀ f, obj'.get f = (d.written f).getD (obj.get f))
    (h : onObject d.id act objects = .ok () objects') :
    (d.id ∈ objects → d.decodes) ∧
      ∀ k : ObjectId, objects'[k]? = if k = d.id then d.after objects[d.id]? else objects[k]? := by
  rcases onObject_ok h with ⟨hnone, rfl⟩ | ⟨obj, obj', hobj, hok, rfl⟩
  · refine ⟨fun hmem ↦ absurd hnone ?_, fun k ↦ ?_⟩
    · obtain ⟨obj, hobj⟩ := OrderedMap.mem_iff_exists.mp hmem
      rw [hobj]
      exact Option.some_ne_none obj
    · split
      next hk => rw [hk, hnone, ObjectDelta.after, hplaced, Option.getD_none, Option.map_none]
      next => rfl
  · obtain ⟨hdecodes, hfields⟩ := hact obj obj' hok
    refine ⟨fun _ ↦ hdecodes, fun k ↦ ?_⟩
    rw [OrderedMap.lookup_insert, hobj, ObjectDelta.after, hplaced, Option.getD_none,
      Option.map_some]
    refine if_congr Iff.rfl (congrArg some (CADObject.ext_get fun f ↦ ?_)) rfl
    rw [hfields, CADObject.get_ofFields]

theorem applyObjectDelta_ok_after (h : applyObjectDelta d objects = .ok () objects') :
    (d.id ∈ objects → d.decodes) ∧
      ∀ k : ObjectId, objects'[k]? = if k = d.id then d.after objects[d.id]? else objects[k]? := by
  have hidle (hplaced : d.placed = none) (hwritten : ∀ f, d.written f = none) (k : ObjectId) :
      objects[k]? = if k = d.id then d.after objects[d.id]? else objects[k]? := by
    split
    next hk => rw [hk, ObjectDelta.after_of_writes_nothing hplaced hwritten]
    next => rfl
  obtain ⟨id, deltaType, changes, object, transform⟩ := d
  rcases deltaType with _ | _ | _ | _
  · rcases object with _ | object
    · cases h
      exact ⟨fun _ ↦ rfl, hidle rfl fun _ ↦ rfl⟩
    · cases h
      exact ⟨fun _ ↦ rfl, fun k ↦ OrderedMap.lookup_insert ..⟩
  · rcases changes with _ | changes
    · cases h
      exact ⟨fun _ ↦ rfl, hidle rfl fun _ ↦ rfl⟩
    · refine onObject_ok_after rfl (fun obj obj' hok ↦ ?_) h
      obtain ⟨hdecodes, hfields⟩ := applyObjectChanges_ok hok
      refine ⟨?_, hfields⟩
      rcases changes with _ | _ | _ | _ | _ | entries
      case object => exact List.all_eq_true.mpr (hdecodes entries rfl)
      all_goals rfl
  · cases h
    exact ⟨fun _ ↦ rfl, fun k ↦ OrderedMap.lookup_erase ..⟩
  · rcases transform with _ | value
    · cases h
      exact ⟨fun _ ↦ rfl, hidle rfl fun _ ↦ rfl⟩
    · refine onObject_ok_after rfl (fun obj obj' hok ↦ ?_) h
      obtain ⟨a, ha, rfl⟩ := decode_modify_eq_ok hok
      refine ⟨by simp [ObjectDelta.decodes, ha], fun f ↦ ?_⟩
      cases f <;> simp [ObjectDelta.written, transformWrites, CADObject.get, ha]

def afterAll (ds : List (ObjectDelta P)) (o : Option (CADObject P)) : Option (CADObject P) :=
  ds.foldl (fun o d ↦ d.after o) o

def ofObject (id : ObjectId) (ds : List (ObjectDelta P)) : List (ObjectDelta P) :=
  ds.filter (·.id = id)

theorem forM_applyObjectDelta_ok
    (h : ds.forM applyObjectDelta objects = .ok () objects') (k : ObjectId) :
    objects'[k]? = afterAll (ofObject k ds) objects[k]? := by
  induction ds generalizing objects with
  | nil =>
    cases h
    rfl
  | cons d ds ih =>
    obtain ⟨t, hact, hrest⟩ := EStateM.forM_cons_eq_ok.mp h
    rw [ih hrest, (applyObjectDelta_ok_after hact).2, ofObject, ofObject, List.filter_cons]
    by_cases hk : d.id = k
    · rw [if_pos (decide_eq_true hk), if_pos hk.symm, hk]
      rfl
    · rw [if_neg (Ne.symm hk), if_neg (by simpa using hk)]

theorem decodes_of_forM_ok {before after : List (ObjectDelta P)}
    (h : (before ++ d :: after).forM applyObjectDelta objects = .ok () objects')
    (hthere : (afterAll (ofObject d.id before) objects[d.id]?).isSome) : d.decodes := by
  obtain ⟨t, hbefore, hrest⟩ := EStateM.forM_append_eq_ok.mp h
  obtain ⟨u, hact, -⟩ := EStateM.forM_cons_eq_ok.mp hrest
  refine (applyObjectDelta_ok_after hact).1 ?_
  rw [← forM_applyObjectDelta_ok hbefore, Std.ExtTreeMap.isSome_getElem?_iff_mem] at hthere
  exact hthere

theorem decodes_of_forM_nodup (hnodup : (ds.map ObjectDelta.id).Nodup)
    (h : ds.forM applyObjectDelta objects = .ok () objects') (hd : d ∈ ds) (hmem : d.id ∈ objects) :
    d.decodes := by
  obtain ⟨before, after, rfl⟩ := List.append_of_mem hd
  refine decodes_of_forM_ok h ?_
  have hnone : ofObject d.id before = [] := by
    rw [List.map_append, List.nodup_append'] at hnodup
    refine List.filter_eq_nil_iff.mpr fun e he hid ↦ hnodup.2.2 (List.mem_map_of_mem he) ?_
    rw [of_decide_eq_true hid, List.map_cons]
    exact List.mem_cons_self
  rw [hnone]
  exact Std.ExtTreeMap.isSome_getElem?_iff_mem.mpr hmem

theorem exists_applyObjectDelta_of_not_mem (h : d.id ∉ objects) :
    ∃ objects', applyObjectDelta d objects = .ok () objects' := by
  have hnone := OrderedMap.not_mem_iff.mp h
  obtain ⟨id, deltaType, changes, object, transform⟩ := d
  rcases deltaType with _ | _ | _ | _
  · rcases object with _ | object <;> exact ⟨_, rfl⟩
  · rcases changes with _ | changes
    · exact ⟨_, rfl⟩
    · exact ⟨objects, by simp only [applyObjectDelta, onObject, hnone]⟩
  · exact ⟨_, rfl⟩
  · rcases transform with _ | value
    · exact ⟨_, rfl⟩
    · exact ⟨objects, by simp only [applyObjectDelta, onObject, hnone]⟩

theorem exists_forM_applyObjectDelta
    (hnodup : (ds.map ObjectDelta.id).Nodup) (h : ∀ d ∈ ds, d.id ∈ objects → d.decodes) :
    ∃ objects', ds.forM applyObjectDelta objects = .ok () objects' := by
  induction ds generalizing objects with
  | nil => exact ⟨objects, rfl⟩
  | cons d ds ih =>
    rw [List.map_cons, List.nodup_cons] at hnodup
    have hact : ∃ t, applyObjectDelta d objects = .ok () t := by
      by_cases hmem : d.id ∈ objects
      · exact exists_applyObjectDelta (h d List.mem_cons_self hmem) objects
      · exact exists_applyObjectDelta_of_not_mem hmem
    obtain ⟨t, hact⟩ := hact
    have hother (d' : ObjectDelta P) (hd' : d' ∈ ds) (hmem : d'.id ∈ t) : d'.decodes := by
      have hne : d'.id ≠ d.id := fun heq ↦ hnodup.1 (List.mem_map.mpr ⟨d', hd', heq⟩)
      refine h d' (List.mem_cons_of_mem _ hd') ?_
      rw [OrderedMap.mem_iff_exists] at hmem ⊢
      rwa [(applyObjectDelta_ok_after hact).2, if_neg hne] at hmem
    obtain ⟨objects', hrest⟩ := ih hnodup.2 hother
    exact ⟨objects', EStateM.forM_cons_eq_ok.mpr ⟨t, hact, hrest⟩⟩

end Objects

/-! ## Users -/

def without (users : List UserInfo) (ids : List String) : List UserInfo :=
  users.filter fun u ↦ !ids.contains u.id

@[simp] theorem without_nil (users : List UserInfo) : without users [] = users :=
  List.filter_eq_self.mpr fun _ _ ↦ rfl

theorem without_append (users : List UserInfo) (ids ids' : List String) :
    without users (ids ++ ids') = without (without users ids) ids' := by
  rw [without, without, without, List.filter_filter]
  refine List.filter_congr fun u _ ↦ ?_
  rw [List.contains_eq_any_beq, List.any_append, Bool.not_or, Bool.and_comm]
  simp only [List.contains_eq_any_beq]

theorem join_eq_self_or (users : List UserInfo) (user : UserInfo) :
    join users user = users ∨ join users user = users ++ [user] := by
  rw [join]
  split
  · exact Or.inl rfl
  · exact Or.inr rfl

theorem without_join (users : List UserInfo) (user : UserInfo) (ids : List String) :
    without (join users user) ids =
      (without [user] ids).foldl join (without users ids) := by
  by_cases hleft : ids.contains user.id
  · have hgone : without [user] ids = [] := by
      rw [without, List.filter_singleton, hleft]
      rfl
    rw [hgone, List.foldl_nil]
    rcases join_eq_self_or users user with h | h
    · rw [h]
    · rw [h, without, List.filter_append]
      exact (congrArg _ hgone).trans (List.append_nil _)
  · have hstays : without [user] ids = [user] := by
      rw [without, List.filter_singleton, eq_false_of_ne_true hleft]
      rfl
    rw [hstays, List.foldl_cons, List.foldl_nil, join, join]
    have hsame : (without users ids).any (·.id = user.id) = users.any (·.id = user.id) := by
      rw [Bool.eq_iff_iff, List.any_eq_true, List.any_eq_true]
      constructor
      · rintro ⟨u, hu, hid⟩
        exact ⟨u, List.mem_of_mem_filter hu, hid⟩
      · rintro ⟨u, hu, hid⟩
        refine ⟨u, List.mem_filter.mpr ⟨hu, ?_⟩, hid⟩
        rw [of_decide_eq_true hid, eq_false_of_ne_true hleft]
        rfl
    rw [hsame]
    split
    · rfl
    · exact List.filter_append ..|>.trans (congrArg _ hstays)

theorem without_foldl_join (users joined : List UserInfo) (ids : List String) :
    without (joined.foldl join users) ids =
      (without joined ids).foldl join (without users ids) := by
  induction joined generalizing users with
  | nil => rfl
  | cons user joined ih =>
    rw [List.foldl_cons, ih, without_join, ← List.foldl_append]
    refine congrArg (List.foldl join _) ?_
    rw [without, without, ← List.filter_append]
    rfl

/-! ## A list of deltas -/

namespace SessionDelta

variable (delta : SessionDelta P)

def entries : List (HistoryEntry P) := delta.timelineDelta.elim [] TimelineDelta.newEntries

/-- The history index a delta sets. -/
def index : Option ℕ := delta.timelineDelta.bind TimelineDelta.indexChange

def joined : List UserInfo := delta.userChanges.elim [] UserChanges.joined

def left : List String := delta.userChanges.elim [] UserChanges.left

end SessionDelta

def metadataWrite (key : String) (changes : OrderedMap String Json) : Option (Option Json) :=
  changes[key]?.map fun
    | .null => none
    | value => some value

def stillJoined : List (SessionDelta P) → List UserInfo
  | [] => []
  | delta :: deltas =>
    without delta.joined (deltas.flatMap SessionDelta.left) ++ stillJoined deltas

structure Applied (deltas : List (SessionDelta P)) (s s' : SessionState P) : Prop where
  objects : (deltas.flatMap SessionDelta.objectDeltas).forM applyObjectDelta s.objects =
    .ok () s'.objects
  history : s'.history = s.history ++ deltas.flatMap SessionDelta.entries
  historyIndex : s'.historyIndex = (lastWrite SessionDelta.index deltas).getD s.historyIndex
  metadata : ∀ key : String, s'.metadata[key]? =
    (lastWrite (fun delta ↦ delta.metadataChanges.bind (metadataWrite key)) deltas).getD
      s.metadata[key]?
  activeUsers : s'.activeUsers = (stillJoined deltas).foldl join
    (without s.activeUsers (deltas.flatMap SessionDelta.left))
  settingsDecode : ∀ delta ∈ deltas, ∀ value, delta.settingsChanges = some value →
    (P.settings.fromValue value).isSome
  settings : s'.settings =
    ((lastWrite SessionDelta.settingsChanges deltas).bind P.settings.fromValue).getD s.settings
  modifiedAt : s'.modifiedAt =
    (lastWrite (fun delta ↦ some delta.timestamp) deltas).getD s.modifiedAt

section Applied

variable {delta : SessionDelta P} {deltas : List (SessionDelta P)} {s t s' : SessionState P}

theorem Applied.nil (s : SessionState P) : Applied [] s s where
  objects := rfl
  history := (List.append_nil _).symm
  historyIndex := rfl
  metadata _ := rfl
  activeUsers := (without_nil _).symm
  settingsDecode _ hmem := absurd hmem List.not_mem_nil
  settings := rfl
  modifiedAt := rfl

/-- What was written first stays where nothing is written later. -/
private theorem getD_or {α : Type} (a b : Option α) (c : α) :
    a.getD (b.getD c) = (a.or b).getD c := by
  cases a <;> rfl

theorem Applied.cons (h : Applied [delta] s t) (hrest : Applied deltas t s') :
    Applied (delta :: deltas) s s' where
  objects := by
    rw [List.flatMap_cons]
    refine EStateM.forM_append_eq_ok.mpr ⟨t.objects, ?_, hrest.objects⟩
    have hobjects := h.objects
    rwa [List.flatMap_singleton] at hobjects
  history := by
    rw [hrest.history, h.history, List.flatMap_singleton, List.append_assoc, List.flatMap_cons]
  historyIndex := by
    rw [hrest.historyIndex, h.historyIndex, lastWrite_singleton, getD_or, lastWrite_cons]
  metadata key := by
    rw [hrest.metadata, h.metadata, lastWrite_singleton, getD_or, lastWrite_cons]
  activeUsers := by
    -- Who joined first is there still, if nobody later says that they left.
    rw [hrest.activeUsers, h.activeUsers, without_foldl_join, ← List.foldl_append, ← without_append]
    simp only [stillJoined, List.flatMap_cons, List.flatMap_nil, List.append_nil, without_nil]
  settingsDecode d hd value hvalue := by
    rcases List.mem_cons.mp hd with rfl | hd
    · exact h.settingsDecode d List.mem_cons_self value hvalue
    · exact hrest.settingsDecode d hd value hvalue
  settings := by
    rw [hrest.settings, h.settings, lastWrite_singleton, lastWrite_cons]
    rcases hlast : lastWrite SessionDelta.settingsChanges deltas with _ | value
    · rfl
    · obtain ⟨d, hd, hvalue⟩ := exists_mem_of_lastWrite hlast
      obtain ⟨a, ha⟩ := Option.isSome_iff_exists.mp (hrest.settingsDecode d hd value hvalue)
      rw [Option.some_or, Option.bind_some, ha]
      rfl
  modifiedAt := by
    rw [hrest.modifiedAt, h.modifiedAt, lastWrite_singleton, getD_or, lastWrite_cons]

theorem applyMetadataChange_lookup (metadata : OrderedMap String Json) (e : String × Json)
    (key : String) : (applyMetadataChange metadata e)[key]? =
      ((if e.1 = key then some e.2 else none).map fun
        | .null => none
        | value => some value).getD metadata[key]? := by
  by_cases hkey : e.1 = key
  · rw [if_pos hkey, Option.map_some, Option.getD_some, applyMetadataChange]
    by_cases hnull : e.2 = .null
    · rw [hnull]
      exact (OrderedMap.lookup_erase ..).trans (if_pos hkey.symm)
    · cases he : e.2 with
      | null => exact absurd he hnull
      | bool | number | string | array | object =>
        exact (OrderedMap.lookup_insert ..).trans (if_pos hkey.symm)
  · rw [if_neg hkey, Option.map_none, Option.getD_none, applyMetadataChange]
    split
    · rw [OrderedMap.lookup_erase, if_neg (Ne.symm hkey)]
    · rw [OrderedMap.lookup_insert, if_neg (Ne.symm hkey)]

theorem applyMetadataChanges_lookup (changes : Option (OrderedMap String Json)) (key : String) :
    (applyMetadataChanges changes s).metadata[key]? =
      (changes.bind (metadataWrite key)).getD s.metadata[key]? := by
  rcases changes with _ | changes
  · rfl
  · have hfold := foldl_eq_lastWrite (fun metadata : OrderedMap String Json ↦ metadata[key]?) _
      (fun metadata e ↦ applyMetadataChange_lookup metadata e key) changes.toList s.metadata
    rw [lastWrite_map, OrderedMap.lastWrite_toList] at hfold
    exact hfold

theorem Applied.unique (h : Applied deltas s t) (h' : Applied deltas s s') : t = s' := by
  have hobjects : t.objects = s'.objects := by
    have hrun := h.objects.symm.trans h'.objects
    rw [EStateM.Result.ok.injEq] at hrun
    exact hrun.2
  have hmetadata : t.metadata = s'.metadata :=
    OrderedMap.ext_lookup fun key ↦ (h.metadata key).trans (h'.metadata key).symm
  have hhistory := h.history.trans h'.history.symm
  have hindex := h.historyIndex.trans h'.historyIndex.symm
  have husers := h.activeUsers.trans h'.activeUsers.symm
  have hsettings := h.settings.trans h'.settings.symm
  have hmodified := h.modifiedAt.trans h'.modifiedAt.symm
  obtain ⟨objects, history, historyIndex, modifiedAt, activeUsers, settings, metadata⟩ := t
  subst hobjects hmetadata hhistory hindex husers hsettings hmodified
  rfl

theorem exists_applyParts_of {objects : OrderedMap ObjectId (CADObject P)}
    (hobjects : delta.objectDeltas.forM applyObjectDelta s.objects = .ok () objects)
    (hsettings : ∀ value, delta.settingsChanges = some value →
      (P.settings.fromValue value).isSome) : ∃ s', applyParts delta s = .ok () s' := by
  have hdecodes (t : SessionState P) :
      ∃ t', applySettingsChanges delta.settingsChanges t = .ok () t' := by
    rcases hvalue : delta.settingsChanges with _ | value
    · exact ⟨t, rfl⟩
    · obtain ⟨a, ha⟩ := exists_decode P.settings (hsettings value hvalue) t
      exact ⟨_, EStateM.bind_eq_of_ok ha⟩
  obtain ⟨t', ht⟩ := hdecodes (applyUserChanges delta.userChanges
    (applyMetadataChanges delta.metadataChanges
      (applyTimelineDelta delta.timelineDelta { s with objects })))
  exact ⟨_, (EStateM.bind_eq_of_ok (onObjects_ok hobjects)).trans (EStateM.bind_eq_of_ok ht)⟩

theorem applyTimelineDelta_eq (s : SessionState P) : applyTimelineDelta delta.timelineDelta s =
    { s with
      history := s.history ++ delta.entries
      historyIndex := delta.index.getD s.historyIndex } := by
  rw [SessionDelta.entries, SessionDelta.index]
  rcases delta.timelineDelta with _ | d
  · rw [Option.elim_none, List.append_nil]
    rfl
  · rfl

theorem applyMetadataChanges_eq (changes : Option (OrderedMap String Json)) (s : SessionState P) :
    applyMetadataChanges changes s =
      { s with metadata := (applyMetadataChanges changes s).metadata } := by
  cases changes <;> rfl

theorem applyUserChanges_eq (s : SessionState P) : applyUserChanges delta.userChanges s =
    { s with activeUsers := delta.joined.foldl join (without s.activeUsers delta.left) } := by
  rw [SessionDelta.joined, SessionDelta.left]
  rcases delta.userChanges with _ | d
  · rw [Option.elim_none, without_nil]
    rfl
  · rfl

theorem applySettingsChanges_ok {changes : Option Json}
    (h : applySettingsChanges changes s = .ok () s') :
    (∀ value, changes = some value → (P.settings.fromValue value).isSome) ∧
      s' = { s with settings := (changes.bind P.settings.fromValue).getD s.settings } := by
  rcases changes with _ | value
  · cases h
    refine ⟨fun _ h ↦ ?_, rfl⟩
    cases h
  · obtain ⟨a, _, hdecode, hset⟩ := EStateM.bind_eq_ok_iff.mp h
    obtain ⟨hvalue, rfl⟩ := decode_eq_ok.mp hdecode
    cases hset
    refine ⟨?_, ?_⟩
    · rintro _ ⟨⟩
      rw [hvalue]
      rfl
    · rw [Option.bind_some, hvalue]
      rfl

theorem onObjects_eq_ok {act : EStateM SessionError (OrderedMap ObjectId (CADObject P)) Unit}
    (h : onObjects act s = .ok () s') :
    ∃ objects, act s.objects = .ok () objects ∧ s' = { s with objects } := by
  rw [onObjects] at h
  rcases hact : act s.objects with ⟨_, objects⟩ | ⟨e, objects⟩
  · rw [hact] at h
    cases h
    exact ⟨objects, rfl, rfl⟩
  · rw [hact] at h
    cases h

theorem applied_of_applyParts (h : applyParts delta s = .ok () s') : Applied [delta] s s' := by
  obtain ⟨_, _, hrun, h⟩ := EStateM.bind_eq_ok_iff.mp h
  obtain ⟨objects, hobjects, rfl⟩ := onObjects_eq_ok hrun
  have hrest : (do
      applySettingsChanges delta.settingsChanges
      modify fun state ↦ { state with modifiedAt := delta.timestamp } :
        EStateM SessionError (SessionState P) Unit)
      (applyUserChanges delta.userChanges (applyMetadataChanges delta.metadataChanges
        (applyTimelineDelta delta.timelineDelta { s with objects }))) = .ok () s' := h
  obtain ⟨_, t, hsettings, hmodified⟩ := EStateM.bind_eq_ok_iff.mp hrest
  obtain ⟨hdecode, rfl⟩ := applySettingsChanges_ok hsettings
  cases hmodified
  rw [applyUserChanges_eq, applyMetadataChanges_eq, applyTimelineDelta_eq]
  refine ⟨?_, ?_, ?_, fun key ↦ ?_, ?_, fun d hd ↦ ?_, ?_, rfl⟩
  · rw [List.flatMap_singleton]
    exact hobjects
  · rw [List.flatMap_singleton]
  · rw [lastWrite_singleton]
  · rw [lastWrite_singleton]
    exact applyMetadataChanges_lookup ..
  · rw [stillJoined, stillJoined, List.flatMap_nil, without_nil, List.append_nil,
      List.flatMap_singleton]
  · rw [List.mem_singleton.mp hd]
    exact hdecode
  · rw [lastWrite_singleton]

theorem applyParts_eq_ok : applyParts delta s = .ok () s' ↔ Applied [delta] s s' := by
  refine ⟨applied_of_applyParts, fun h ↦ ?_⟩
  have hobjects := h.objects
  rw [List.flatMap_singleton] at hobjects
  obtain ⟨t, ht⟩ := exists_applyParts_of hobjects (h.settingsDecode delta List.mem_cons_self)
  rw [h.unique (applied_of_applyParts ht), ht]

theorem applied_of_forM (h : deltas.forM applyParts s = .ok () s') : Applied deltas s s' := by
  induction deltas generalizing s with
  | nil =>
    cases h
    exact Applied.nil _
  | cons delta deltas ih =>
    obtain ⟨t, hfirst, hrest⟩ := EStateM.forM_cons_eq_ok.mp h
    exact (applied_of_applyParts hfirst).cons (ih hrest)

end Applied

end Delta

end RosheraCad
