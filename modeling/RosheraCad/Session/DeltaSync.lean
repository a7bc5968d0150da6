import Mathlib.Data.List.Dedup
import RosheraCad.Library.KeyedFold
import RosheraCad.Session.Delta

/-!
# A receiver follows the states it is sent

The receiver follows exactly as long as every change is one that deltas convey: they leave out the
fields of an object nobody compares, the entries a history loses, null values of the metadata, and
users that change in place.
-/

namespace RosheraCad

namespace Delta

variable {P : Payloads} (hash : Hashes)

/-! ## What deltas convey -/

structure SameContent (r s : SessionState P) : Prop where
  objects : r.objects = s.objects
  history : r.history = s.history
  historyIndex : r.historyIndex = s.historyIndex
  activeUsers : r.activeUsers = s.activeUsers
  settings : r.settings = s.settings
  metadata : r.metadata = s.metadata

def carry (old new : CADObject P) : CADObject P :=
  { old with
    name := new.name
    visible := new.visible
    locked := new.locked
    transform := new.transform
    material := new.material
    metadata := new.metadata }

/-- The change is of compared fields only, and not of the metadata alone. -/
structure ObjectConveyed (old new : CADObject P) : Prop where
  others : carry old new = new
  noticed : old.metadata ≠ new.metadata → old.hashed ≠ new.hashed

/-- A change of a session that a delta conveys. -/
structure Conveyed (old new : SessionState P) : Prop where
  objects : ∀ (id : ObjectId) (a b : CADObject P), old.objects[id]? = some a →
    new.objects[id]? = some b → ObjectConveyed a b
  history : old.history <+: new.history
  metadata : ∀ key : String, new.metadata[key]? = some .null → old.metadata[key]? = some .null
  users : ∃ joined, new.activeUsers =
      old.activeUsers.filter (·.id ∈ new.activeUsers.map UserInfo.id) ++ joined ∧
    (joined.map UserInfo.id).Nodup ∧ ∀ u ∈ joined, u.id ∉ old.activeUsers.map UserInfo.id

/-- What is compared by its hash is equal when the hashes are. -/
structure NoCollision (old new : SessionState P) : Prop where
  objects : ∀ (id : ObjectId) (a b : CADObject P), old.objects[id]? = some a →
    new.objects[id]? = some b → hashObject hash a = hashObject hash b → a.hashed = b.hashed
  metadata : ∀ (key : String) (v w : Json), old.metadata[key]? = some v →
    new.metadata[key]? = some w → hash.hashValue v = hash.hashValue w → v = w

structure Cached (tracker : DeltaTracker) (state : SessionState P) : Prop where
  objects : ∀ (id : ObjectId) (h : BitVec 64) (a : CADObject P),
    tracker.objectHashes[id]? = some h → state.objects[id]? = some a → h = hashObject hash a
  metadata : ∀ (key : String) (h : BitVec 64) (v : Json),
    tracker.metadataHashes[key]? = some h → state.metadata[key]? = some v → h = hash.hashValue v

variable {hash} {cached : Option (BitVec 64)}

/-! ## Changes of an object -/

section Objects

variable {old new obj : CADObject P} {id : ObjectId}

theorem decode_toValue {σ α : Type} (codec : Codec α) (a : α) (s : σ) :
    decode codec (codec.toValue a) s = .ok a s := by
  rw [decode, codec.fromValue_toValue]
  rfl

theorem forM_append_ok {σ ε α : Type} {act : α → EStateM ε σ Unit} {l l' : List α} {s t : σ}
    (h : l.forM act s = .ok () t) : (l ++ l').forM act s = l'.forM act t := by
  rw [List.forM_eq_forM, List.forM_append]
  exact EStateM.bind_eq_of_ok h

theorem forM_field {c : Prop} [Decidable c] (entry : String × Json) (obj' : CADObject P)
    (hsame : ¬ c → obj' = obj) (hact : applyObjectChange entry obj = .ok () obj') :
    (if c then [entry] else []).forM applyObjectChange obj = .ok () obj' := by
  by_cases h : c
  · rw [if_pos h]
    exact EStateM.bind_eq_of_ok hact
  · rw [if_neg h, hsame h]
    rfl

theorem applyObjectChanges_compute :
    applyObjectChanges (computeObjectChanges old new) old = .ok () (carry old new) := by
  rw [computeObjectChanges, applyObjectChanges, objectChanges]
  have hlocked := forM_field (c := old.locked ≠ new.locked) ("locked", .bool new.locked)
    { old with locked := new.locked } (fun h ↦ by rw [← not_not.mp h]) rfl
  have hmaterial := (forM_append_ok hlocked).trans
    (forM_field (c := P.material.toValue old.material ≠ P.material.toValue new.material)
      ("material", P.material.toValue new.material)
      { old with locked := new.locked, material := new.material }
      (fun h ↦ by rw [← P.material.toValue_injective (not_not.mp h)])
      (EStateM.bind_eq_of_ok (decode_toValue P.material new.material _)))
  have hmetadata := (forM_append_ok hmaterial).trans
    (forM_field (c := old.metadata ≠ new.metadata)
      ("metadata", metadataCodec.toValue new.metadata)
      { old with locked := new.locked, material := new.material, metadata := new.metadata }
      (fun h ↦ by rw [← not_not.mp h])
      (EStateM.bind_eq_of_ok (decode_toValue metadataCodec new.metadata _)))
  have hname := (forM_append_ok hmetadata).trans
    (forM_field (c := old.name ≠ new.name) ("name", .string new.name)
      { old with
        locked := new.locked, material := new.material, metadata := new.metadata
        name := new.name }
      (fun h ↦ by rw [← not_not.mp h]) rfl)
  have htransform := (forM_append_ok hname).trans
    (forM_field (c := P.transform.toValue old.transform ≠ P.transform.toValue new.transform)
      ("transform", P.transform.toValue new.transform)
      { old with
        locked := new.locked, material := new.material, metadata := new.metadata
        name := new.name, transform := new.transform }
      (fun h ↦ by rw [← P.transform.toValue_injective (not_not.mp h)])
      (EStateM.bind_eq_of_ok (decode_toValue P.transform new.transform _)))
  exact (forM_append_ok htransform).trans
    (forM_field (c := old.visible ≠ new.visible) ("visible", .bool new.visible) (carry old new)
      (fun h ↦ by rw [carry, ← not_not.mp h]) rfl)

theorem eq_of_isTransformOnly (h : isTransformOnly (computeObjectChanges old new) = true) :
    extractTransform (computeObjectChanges old new) = some (P.transform.toValue new.transform) ∧
      { old with transform := new.transform } = carry old new := by
  simp only [computeObjectChanges, isTransformOnly, Bool.and_eq_true, beq_iff_eq] at h
  obtain ⟨⟨key, value⟩, hentries⟩ := List.length_eq_one_iff.mp h.1
  have hkey : key = "transform" := by
    by_contra hne
    rw [hentries, List.lookup_cons, beq_false_of_ne (Ne.symm hne)] at h
    simp at h
  subst hkey
  -- Whatever else differed would be listed under another name.
  have hunlisted (name : String) (hname : name ≠ "transform") (v : Json) :
      (name, v) ∉ objectChanges old new := by
    rw [hentries, List.mem_singleton, Prod.mk.injEq]
    exact fun heq ↦ hname heq.1
  have hlocked : old.locked = new.locked := by
    by_contra hne
    exact hunlisted "locked" (by decide) (.bool new.locked) (by simp [objectChanges, hne])
  have hmaterial : old.material = new.material := by
    by_contra hne
    have hvalue : ¬ P.material.toValue old.material = P.material.toValue new.material :=
      fun heq ↦ hne (P.material.toValue_injective heq)
    exact hunlisted "material" (by decide) (P.material.toValue new.material)
      (by simp [objectChanges, hvalue])
  have hmetadata : old.metadata = new.metadata := by
    by_contra hne
    exact hunlisted "metadata" (by decide) (metadataCodec.toValue new.metadata)
      (by simp [objectChanges, hne])
  have hname : old.name = new.name := by
    by_contra hne
    exact hunlisted "name" (by decide) (.string new.name) (by simp [objectChanges, hne])
  have hvisible : old.visible = new.visible := by
    by_contra hne
    exact hunlisted "visible" (by decide) (.bool new.visible) (by simp [objectChanges, hne])
  refine ⟨?_, by simp [carry, hlocked, hmaterial, hmetadata, hname, hvisible]⟩
  have hdiffers : P.transform.toValue old.transform ≠ P.transform.toValue new.transform := by
    intro heq
    simp [objectChanges, hlocked, hmaterial, hmetadata, hname, hvisible, heq] at hentries
  rw [extractTransform, computeObjectChanges, Json.get?_object, objectChanges]
  simp [hlocked, hmaterial, hmetadata, hname, hvisible, hdiffers]

theorem applyObjectDelta_ok {oldObject : Option (CADObject P)}
    {d : ObjectDelta P} (h : objectDelta hash cached oldObject id new = some d)
    (objects : OrderedMap ObjectId (CADObject P)) (hold : objects[id]? = oldObject) :
    ∃ objects', applyObjectDelta d objects = .ok () objects' ∧ d.id = id ∧
      ∀ k : ObjectId, objects'[k]? =
        if k = id then some (oldObject.elim new fun obj ↦ carry obj new) else objects[k]? := by
  rcases oldObject with _ | old
  · obtain rfl := Option.some_inj.mp h
    refine ⟨objects.insert id new, rfl, rfl, fun k ↦ ?_⟩
    rw [OrderedMap.lookup_insert]
    rfl
  · simp only [objectDelta] at h
    split at h
    · refine ⟨objects.insert id (carry old new), ?_⟩
      split at h
      · next htransform =>
        obtain ⟨hextract, hcarry⟩ := eq_of_isTransformOnly htransform
        obtain rfl := Option.some_inj.mp h
        refine ⟨?_, rfl, fun k ↦ OrderedMap.lookup_insert ..⟩
        have happly : applyTransform (P.transform.toValue new.transform) old =
            .ok () (carry old new) :=
          (EStateM.bind_eq_of_ok (decode_toValue P.transform new.transform _)).trans
            (congrArg _ hcarry)
        simp only [applyObjectDelta, hextract, onObject, hold, happly]
      · obtain rfl := Option.some_inj.mp h
        refine ⟨?_, rfl, fun k ↦ OrderedMap.lookup_insert ..⟩
        simp only [applyObjectDelta, onObject, hold, applyObjectChanges_compute]
    · contradiction

end Objects

/-! ## All objects -/

section AllObjects

variable {old new : OrderedMap ObjectId (CADObject P)} {hashes : OrderedMap ObjectId (BitVec 64)}
  {d : ObjectDelta P}

def conveyedObject (hash : Hashes) (old new : OrderedMap ObjectId (CADObject P)) (id : ObjectId) :
    Option (CADObject P) :=
  new[id]?.map fun b ↦ old[id]?.elim b fun a ↦
    if hashObject hash a = hashObject hash b then a else carry a b

theorem objectDelta_id {oldObject : Option (CADObject P)}
    {id : ObjectId} {obj : CADObject P} (h : objectDelta hash cached oldObject id obj = some d) :
    d.id = id := by
  rcases oldObject with _ | a
  · rw [← Option.some_inj.mp h]
  · simp only [objectDelta] at h
    split at h
    · split at h <;> rw [← Option.some_inj.mp h]
    · contradiction

theorem objectDelta_eq_none_iff {a b : CADObject P} {id : ObjectId} :
    objectDelta hash cached (some a) id b = none ↔
      cached.getD (hashObject hash a) = hashObject hash b := by
  by_cases h : cached.getD (hashObject hash a) = hashObject hash b
  · simp [objectDelta, h]
  · refine iff_of_false ?_ h
    simp only [objectDelta, ne_eq, h, not_false_eq_true, if_true]
    split <;> exact nofun

theorem mem_computeObjectDeltas : d ∈ (computeObjectDeltas hash hashes old new).1 ↔
    (∃ b, new[d.id]? = some b ∧ objectDelta hash hashes[d.id]? old[d.id]? d.id b = some d) ∨
      (d.id ∈ old ∧ d.id ∉ new ∧ d = ⟨d.id, .removed, none, none, none⟩) := by
  simp only [computeObjectDeltas, List.mem_append, List.mem_filterMap, List.mem_map,
    List.mem_filter, Std.ExtTreeMap.mem_keys, decide_eq_true_eq, Prod.exists]
  refine or_congr ⟨?_, ?_⟩ ⟨?_, ?_⟩
  · rintro ⟨id, b, hb, hd⟩
    obtain rfl := objectDelta_id hd
    exact ⟨b, OrderedMap.mem_toList.mp hb, hd⟩
  · rintro ⟨b, hb, hd⟩
    exact ⟨d.id, b, OrderedMap.mem_toList.mpr hb, hd⟩
  · rintro ⟨id, ⟨hold, hnew⟩, rfl⟩
    exact ⟨hold, hnew, rfl⟩
  · rintro ⟨hold, hnew, hd⟩
    exact ⟨d.id, ⟨hold, hnew⟩, hd.symm⟩

theorem nodup_computeObjectDeltas :
    ((computeObjectDeltas hash hashes old new).1.map ObjectDelta.id).Nodup := by
  rw [computeObjectDeltas, List.map_append, List.map_map, List.nodup_append']
  have hsub : ((new.toList.filterMap fun e ↦
      objectDelta hash hashes[e.1]? old[e.1]? e.1 e.2).map ObjectDelta.id).Sublist new.keys := by
    rw [← Std.ExtTreeMap.map_fst_toList_eq_keys]
    induction new.toList with
    | nil => exact List.Sublist.refl _
    | cons e l ih =>
      rw [List.filterMap_cons]
      rcases hd : objectDelta hash hashes[e.1]? old[e.1]? e.1 e.2 with _ | d
      · exact ih.cons _
      · rw [List.map_cons, List.map_cons, objectDelta_id hd]
        exact ih.cons_cons _
  refine ⟨hsub.nodup Std.ExtTreeMap.nodup_keys, ?_, fun id hid hremoved ↦ ?_⟩
  · rw [show ObjectDelta.id ∘ (fun id ↦ (⟨id, .removed, none, none, none⟩ : ObjectDelta P)) =
      id from rfl, List.map_id]
    exact Std.ExtTreeMap.nodup_keys.filter _
  · obtain ⟨id', hid', rfl⟩ := List.mem_map.mp hremoved
    have hnew := (List.mem_filter.mp hid').2
    exact of_decide_eq_true hnew (Std.ExtTreeMap.mem_keys.mp (hsub.subset hid))

theorem forM_computeObjectDeltas (new : OrderedMap ObjectId (CADObject P))
    (hcached : ∀ (id : ObjectId) (h : BitVec 64) (a : CADObject P),
      hashes[id]? = some h → old[id]? = some a → h = hashObject hash a) :
    ∃ objects', (computeObjectDeltas hash hashes old new).1.forM applyObjectDelta old =
        .ok () objects' ∧
      ∀ id : ObjectId, objects'[id]? = conveyedObject hash old new id := by
  have hcompared (id : ObjectId) (a : CADObject P) (ha : old[id]? = some a) :
      hashes[id]?.getD (hashObject hash a) = hashObject hash a := by
    rcases h : hashes[id]? with _ | h'
    · rfl
    · exact hcached id h' a h ha
  obtain ⟨objects', hrun, hown, hother⟩ := KeyedFold.exists_forM ObjectDelta.id
    (fun (id : ObjectId) (objects : OrderedMap ObjectId (CADObject P)) ↦ objects[id]?)
    (fun d ↦ old[d.id]?) (fun d ↦ conveyedObject hash old new d.id) applyObjectDelta
    (l := (computeObjectDeltas hash hashes old new).1) (fun d hd objects hview ↦ by
      rcases mem_computeObjectDeltas.mp hd with ⟨b, hb, hdelta⟩ | ⟨-, hnew, hremoved⟩
      · obtain ⟨objects', hrun, -, hlookup⟩ := applyObjectDelta_ok hdelta objects hview
        refine ⟨objects', hrun, fun k ↦ (hlookup k).trans (if_congr Iff.rfl ?_ rfl)⟩
        rw [conveyedObject, hb, Option.map_some]
        rcases ha : old[d.id]? with _ | a
        · rfl
        · have hne : hashObject hash a ≠ hashObject hash b := by
            intro heq
            rw [ha, objectDelta_eq_none_iff.mpr ((hcompared _ a ha).trans heq)] at hdelta
            contradiction
          rw [Option.elim_some, Option.elim_some, if_neg hne]
      · rw [hremoved]
        refine ⟨objects.erase d.id, rfl, fun k ↦ ?_⟩
        rw [OrderedMap.lookup_erase, conveyedObject, OrderedMap.not_mem_iff.mp hnew]
        rfl) nodup_computeObjectDeltas old fun _ _ ↦ rfl
  refine ⟨objects', hrun, fun id ↦ ?_⟩
  by_cases hlisted : id ∈ (computeObjectDeltas hash hashes old new).1.map ObjectDelta.id
  · obtain ⟨d, hd, rfl⟩ := List.mem_map.mp hlisted
    exact hown d hd
  rw [hother id hlisted, conveyedObject]
  have hunlisted (d : ObjectDelta P) (hid : d.id = id) :
      d ∉ (computeObjectDeltas hash hashes old new).1 :=
    fun hd ↦ hlisted (List.mem_map.mpr ⟨d, hd, hid⟩)
  rcases hb : new[id]? with _ | b
  · -- An object that is gone would be listed as removed.
    by_contra hold
    have hmem : id ∈ old := by
      by_contra hmem
      exact hold (OrderedMap.not_mem_iff.mp hmem)
    exact hunlisted ⟨id, .removed, none, none, none⟩ rfl (mem_computeObjectDeltas.mpr
      (Or.inr ⟨hmem, OrderedMap.not_mem_iff.mpr hb, rfl⟩))
  · rcases hdelta : objectDelta hash hashes[id]? old[id]? id b with _ | d
    · rcases ha : old[id]? with _ | a
      · rw [ha] at hdelta
        contradiction
      · rw [ha] at hdelta
        have heq := (hcompared id a ha).symm.trans (objectDelta_eq_none_iff.mp hdelta)
        rw [Option.map_some, Option.elim_some, if_pos heq]
    · obtain rfl := objectDelta_id hdelta
      exact absurd (mem_computeObjectDeltas.mpr (Or.inl ⟨b, hb, hdelta⟩)) (hunlisted d rfl)

theorem conveyedObject_eq_iff (hno : ∀ (id : ObjectId) (a b : CADObject P), old[id]? = some a →
      new[id]? = some b → hashObject hash a = hashObject hash b → a.hashed = b.hashed) :
    (∀ id, conveyedObject hash old new id = new[id]?) ↔
      ∀ (id : ObjectId) (a b : CADObject P), old[id]? = some a → new[id]? = some b →
        ObjectConveyed a b := by
  have hpair (id : ObjectId) (a b : CADObject P) (ha : old[id]? = some a)
      (hb : new[id]? = some b) :
      conveyedObject hash old new id = new[id]? ↔ ObjectConveyed a b := by
    rw [conveyedObject, ha, hb, Option.map_some, Option.elim_some, Option.some_inj]
    by_cases h : hashObject hash a = hashObject hash b
    · rw [if_pos h]
      constructor
      · rintro rfl
        exact ⟨rfl, fun hne ↦ absurd rfl hne⟩
      · rintro ⟨hothers, hnoticed⟩
        have hhashed := hno id a b ha hb h
        have hmetadata : a.metadata = b.metadata := by
          by_contra hne
          exact hnoticed hne hhashed
        simp only [CADObject.hashed, HashedFields.mk.injEq] at hhashed
        obtain ⟨-, hname, hvisible, hlocked, htransform, hmaterial⟩ := hhashed
        rw [← hothers, carry, ← hname, ← hvisible, ← hlocked, ← hmetadata,
          ← P.transform.toValue_injective htransform, ← P.material.toValue_injective hmaterial]
    · rw [if_neg h]
      refine ⟨fun hcarry ↦ ⟨hcarry, fun _ hhashed ↦ h ?_⟩, ObjectConveyed.others⟩
      rw [hashObject, hashObject, hhashed]
  constructor
  · intro h id a b ha hb
    exact (hpair id a b ha hb).mp (h id)
  · intro h id
    rcases hb : new[id]? with _ | b
    · rw [conveyedObject, hb, Option.map_none]
    · rcases ha : old[id]? with _ | a
      · rw [conveyedObject, ha, hb, Option.map_some, Option.elim_none]
      · rw [← hb]
        exact (hpair id a b ha hb).mpr (h id a b ha hb)

end AllObjects

/-! ## Metadata -/

section Metadata

variable {old new : OrderedMap String Json} {hashes : OrderedMap String (BitVec 64)}

def conveyedEntry (old new : OrderedMap String Json) (key : String) : Option Json :=
  if new[key]? = some .null ∧ old[key]? ≠ some .null then none else new[key]?

def changeAt (old new : OrderedMap String Json) (key : String) : Option Json :=
  if old[key]? = new[key]? then none else some (new[key]?.getD .null)

def metadataChanges (hash : Hashes) (hashes : OrderedMap String (BitVec 64))
    (old new : OrderedMap String Json) : OrderedMap String Json :=
  (OrderedMap.insertEntries ∅ (new.toList.filter fun e ↦
    match old[e.1]? with
    | some oldValue => hashes[e.1]?.getD (hash.hashValue oldValue) ≠ hash.hashValue e.2
    | none => true)).insertEntries ((old.keys.filter (· ∉ new)).map (·, .null))

theorem lookup_metadataChanges (hcached : ∀ (key : String) (h : BitVec 64) (v : Json),
      hashes[key]? = some h → old[key]? = some v → h = hash.hashValue v)
    (hno : ∀ (key : String) (v w : Json), old[key]? = some v → new[key]? = some w →
      hash.hashValue v = hash.hashValue w → v = w) (key : String) :
    (metadataChanges hash hashes old new)[key]? = changeAt old new key := by
  have hremoved (v : Json) : (key, v) ∈ (old.keys.filter (· ∉ new)).map (·, Json.null) ↔
      (key ∈ old ∧ key ∉ new) ∧ v = .null := by
    simp only [List.mem_map, List.mem_filter, Std.ExtTreeMap.mem_keys, decide_eq_true_eq,
      Prod.mk.injEq]
    constructor
    · rintro ⟨k, hk, rfl, rfl⟩
      exact ⟨hk, rfl⟩
    · rintro ⟨hk, rfl⟩
      exact ⟨key, hk, rfl, rfl⟩
  rw [metadataChanges, changeAt]
  rcases hw : new[key]? with _ | w
  · rcases hv : old[key]? with _ | v
    · rw [if_pos rfl, OrderedMap.getElem?_insertEntries_of_not_mem fun v hmem ↦
          OrderedMap.not_mem_iff.mpr hv ((hremoved v).mp hmem).1.1,
        OrderedMap.getElem?_insertEntries_of_not_mem fun v hmem ↦ ?_]
      · exact Std.ExtTreeMap.getElem?_empty
      · have hnew := OrderedMap.mem_toList.mp (List.mem_filter.mp hmem).1
        rw [hw] at hnew
        contradiction
    · rw [if_neg nofun]
      refine OrderedMap.getElem?_insertEntries_of_mem (fun u hu ↦ ((hremoved u).mp hu).2) ?_ _
      exact (hremoved _).mpr
        ⟨⟨OrderedMap.mem_of_getElem? hv, OrderedMap.not_mem_iff.mpr hw⟩, rfl⟩
  · have hkept (v : Json) : (key, v) ∉ (old.keys.filter (· ∉ new)).map (·, Json.null) :=
      fun hmem ↦ ((hremoved v).mp hmem).1.2 (OrderedMap.mem_of_getElem? hw)
    rw [OrderedMap.getElem?_insertEntries_of_not_mem hkept, Option.getD_some]
    -- The hash that is compared is that of the old value.
    have hcompared (v : Json) (hv : old[key]? = some v) :
        hashes[key]?.getD (hash.hashValue v) = hash.hashValue v := by
      rcases h : hashes[key]? with _ | h'
      · rfl
      · exact hcached key h' v h hv
    have hchanged (u : Json) : (key, u) ∈ new.toList.filter (fun e ↦
        match old[e.1]? with
        | some oldValue =>
          decide (hashes[e.1]?.getD (hash.hashValue oldValue) ≠ hash.hashValue e.2)
        | none => true) ↔ u = w ∧ old[key]? ≠ some w := by
      rw [List.mem_filter, OrderedMap.mem_toList, hw, Option.some_inj]
      rcases hv : old[key]? with _ | v
      · simp [eq_comm]
      · simp only [hcompared v hv, decide_eq_true_eq, ne_eq, Option.some_inj]
        constructor
        · rintro ⟨rfl, hne⟩
          exact ⟨rfl, fun heq ↦ hne (heq ▸ rfl)⟩
        · rintro ⟨rfl, hne⟩
          exact ⟨rfl, fun heq ↦ hne (hno key v u hv hw heq)⟩
    by_cases hsame : old[key]? = some w
    · rw [if_pos hsame, OrderedMap.getElem?_insertEntries_of_not_mem fun u hu ↦
        ((hchanged u).mp hu).2 hsame]
      exact Std.ExtTreeMap.getElem?_empty
    · rw [if_neg hsame]
      exact OrderedMap.getElem?_insertEntries_of_mem (fun u hu ↦ ((hchanged u).mp hu).1)
        ((hchanged w).mpr ⟨rfl, hsame⟩) _

/-- **The receiver's metadata follows, but for entries that become null.** -/
theorem applyMetadataChanges_compute (new : OrderedMap String Json)
    (hcached : ∀ (key : String) (h : BitVec 64) (v : Json),
      hashes[key]? = some h → old[key]? = some v → h = hash.hashValue v)
    (hno : ∀ (key : String) (v w : Json), old[key]? = some v → new[key]? = some w →
      hash.hashValue v = hash.hashValue w → v = w)
    (state : SessionState P) (hstate : state.metadata = old) :
    ∃ metadata, applyMetadataChanges (computeMetadataChanges hash hashes old new).1 state =
        { state with metadata } ∧
      ∀ key : String, metadata[key]? = conveyedEntry old new key := by
  let changes := metadataChanges hash hashes old new
  have hlookup := lookup_metadataChanges hcached hno
  refine ⟨changes.toList.foldl applyMetadataChange old, ?_, fun key ↦ ?_⟩
  · change applyMetadataChanges (if changes.isEmpty then none else some changes) state = _
    split
    · next hempty =>
      rw [Std.ExtTreeMap.toList_eq_nil_iff.mpr (Std.ExtTreeMap.isEmpty_iff.mp hempty),
        List.foldl_nil, ← hstate]
      rfl
    · rw [applyMetadataChanges, hstate]
  · have hown : KeyedFold.OwnKeyOnly applyMetadataChange (fun _ ↦ True)
        (fun (k : String) (m : OrderedMap String Json) ↦ m[k]?)
        (fun _ v _ ↦ if v = .null then none else some v) changes.toList := by
      refine ⟨fun _ _ _ _ ↦ trivial, fun m _ e _ k ↦ ?_⟩
      obtain ⟨key, value⟩ := e
      rcases value with _ | _ | _ | _ | _ | _
      case null => exact OrderedMap.lookup_erase ..
      all_goals exact (OrderedMap.lookup_insert ..).trans (by simp)
    have hnodup : (changes.toList.map Prod.fst).Nodup := by
      rw [Std.ExtTreeMap.map_fst_toList_eq_keys]
      exact Std.ExtTreeMap.nodup_keys
    rcases hchange : changes[key]? with _ | v
    · have hunlisted : key ∉ changes.toList.map Prod.fst := by
        rw [Std.ExtTreeMap.map_fst_toList_eq_keys, Std.ExtTreeMap.mem_keys,
          OrderedMap.not_mem_iff, hchange]
      rw [hlookup, changeAt, ite_eq_left_iff] at hchange
      have hsame : old[key]? = new[key]? := by
        by_contra hne
        exact absurd (hchange hne) nofun
      rw [hown.view_foldl_of_not_mem trivial hunlisted, conveyedEntry, hsame,
        if_neg fun h ↦ h.2 h.1]
    · rw [hown.view_foldl_of_mem trivial hnodup (OrderedMap.mem_toList.mpr hchange)]
      rw [hlookup, changeAt] at hchange
      split at hchange
      · contradiction
      · next hne =>
        rw [← Option.some_inj.mp hchange, conveyedEntry]
        rcases hw : new[key]? with _ | w
        · rfl
        · rw [hw] at hne
          by_cases hnull : w = .null
          · subst hnull
            rw [Option.getD_some, if_pos rfl, if_pos ⟨rfl, hne⟩]
          · rw [Option.getD_some, if_neg hnull, if_neg fun h ↦ hnull (Option.some_inj.mp h.1)]

theorem conveyedEntry_eq_iff : (∀ key, conveyedEntry old new key = new[key]?) ↔
    ∀ key : String, new[key]? = some .null → old[key]? = some .null := by
  refine forall_congr' fun key ↦ ?_
  rw [conveyedEntry]
  by_cases h : new[key]? = some .null ∧ old[key]? ≠ some .null
  · rw [if_pos h, h.1]
    exact iff_of_false nofun fun hold ↦ h.2 (hold rfl)
  · rw [if_neg h]
    refine iff_of_true rfl fun hnew ↦ ?_
    by_contra hold
    exact h ⟨hnew, hold⟩

end Metadata

/-! ## History and users -/

section Lists

variable {old new : SessionState P}

/-- The history of the receiver grows by what is beyond the old length, and the index follows. -/
theorem applyTimelineDelta_compute (old new state : SessionState P)
    (hhistory : state.history = old.history)
    (hindex : state.historyIndex = old.historyIndex) :
    applyTimelineDelta (computeTimelineDelta old new) state =
      { state with
        history := old.history ++ new.history.drop old.history.length
        historyIndex := new.historyIndex } := by
  rw [computeTimelineDelta]
  split
  · next h =>
    rw [applyTimelineDelta, List.drop_eq_nil_iff.mpr h.1.ge, List.append_nil, ← hhistory, ← h.2,
      ← hindex]
  · rw [applyTimelineDelta, hhistory, hindex]
    congr 1
    · by_cases hlt : old.history.length < new.history.length
      · rw [if_pos hlt]
      · rw [if_neg hlt, List.drop_eq_nil_iff.mpr (not_lt.mp hlt)]
    · by_cases heq : old.historyIndex = new.historyIndex
      · rw [if_neg (not_not.mpr heq), Option.getD_none, heq]
      · rw [if_pos heq, Option.getD_some]

/-- **Just a history that grows at its end is the sender's afterwards.** -/
theorem append_drop_eq_iff {α : Type} {l l' : List α} :
    l ++ l'.drop l.length = l' ↔ l <+: l' := by
  constructor
  · intro h
    exact ⟨_, h⟩
  · rintro ⟨t, rfl⟩
    rw [List.drop_left]

variable {users joined : List UserInfo}

theorem foldl_join_eq_append (hnodup : (joined.map UserInfo.id).Nodup)
    (hnew : ∀ u ∈ joined, u.id ∉ users.map UserInfo.id) :
    joined.foldl join users = users ++ joined := by
  induction joined generalizing users with
  | nil => rw [List.append_nil, List.foldl_nil]
  | cons u joined ih =>
    rw [List.map_cons, List.nodup_cons] at hnodup
    have habsent : users.any (·.id = u.id) = false := by
      rw [List.any_eq_false]
      intro v hv heq
      refine hnew u List.mem_cons_self ?_
      rw [← of_decide_eq_true heq]
      exact List.mem_map_of_mem hv
    rw [List.foldl_cons, join, habsent, if_neg Bool.false_ne_true, ih hnodup.2,
      List.append_assoc, List.singleton_append]
    intro v hv hin
    rw [List.map_append, List.mem_append, List.map_singleton, List.mem_singleton] at hin
    rcases hin with hin | heq
    · exact hnew v (List.mem_cons_of_mem _ hv) hin
    · exact hnodup.1 (heq ▸ List.mem_map_of_mem hv)

theorem exists_foldl_join (users joined : List UserInfo) :
    ∃ added, joined.foldl join users = users ++ added ∧ (added.map UserInfo.id).Nodup ∧
      ∀ u ∈ added, u ∈ joined ∧ u.id ∉ users.map UserInfo.id := by
  induction joined generalizing users with
  | nil => exact ⟨[], (List.append_nil _).symm, List.nodup_nil, fun u hu ↦ by contradiction⟩
  | cons u joined ih =>
    rw [List.foldl_cons, join]
    split
    · obtain ⟨added, heq, hnodup, hadded⟩ := ih users
      exact ⟨added, heq, hnodup, fun v hv ↦ ⟨List.mem_cons_of_mem _ (hadded v hv).1,
        (hadded v hv).2⟩⟩
    · next habsent =>
      obtain ⟨added, heq, hnodup, hadded⟩ := ih (users ++ [u])
      have hu : u.id ∉ users.map UserInfo.id := by
        intro hin
        obtain ⟨v, hv, hid⟩ := List.mem_map.mp hin
        exact habsent (List.any_eq_true.mpr ⟨v, hv, decide_eq_true hid⟩)
      refine ⟨u :: added, by rw [heq, List.append_assoc, List.singleton_append], ?_, ?_⟩
      · rw [List.map_cons, List.nodup_cons]
        refine ⟨fun hin ↦ ?_, hnodup⟩
        obtain ⟨v, hv, hid⟩ := List.mem_map.mp hin
        exact (hadded v hv).2 (by simp [hid])
      · intro v hv
        rcases List.mem_cons.mp hv with rfl | hv
        · exact ⟨List.mem_cons_self, hu⟩
        · refine ⟨List.mem_cons_of_mem _ (hadded v hv).1, fun hin ↦ (hadded v hv).2 ?_⟩
          rw [List.map_append]
          exact List.mem_append_left _ hin

def conveyedUsers (oldUsers newUsers : List UserInfo) : List UserInfo :=
  (newUsers.filter (·.id ∉ oldUsers.map UserInfo.id)).foldl join
    (oldUsers.filter (·.id ∈ newUsers.map UserInfo.id))

theorem applyUserChanges_compute {oldUsers : List UserInfo} (newUsers : List UserInfo)
    (state : SessionState P)
    (hstate : state.activeUsers = oldUsers) :
    applyUserChanges (computeUserChanges oldUsers newUsers) state =
      { state with activeUsers := conveyedUsers oldUsers newUsers } := by
  have hleft (u : UserInfo) (hu : u ∈ oldUsers) :
      (!((oldUsers.map UserInfo.id).dedup.filter (· ∉ newUsers.map UserInfo.id)).contains u.id) =
        decide (u.id ∈ newUsers.map UserInfo.id) := by
    have hid : u.id ∈ oldUsers.map UserInfo.id := List.mem_map_of_mem hu
    rw [Bool.eq_iff_iff, Bool.not_eq_true', ← Bool.not_eq_true, List.contains_iff_mem,
      List.mem_filter, List.mem_dedup, decide_eq_true_eq, decide_eq_true_eq]
    exact ⟨fun h ↦ not_not.mp fun hnew ↦ h ⟨hid, hnew⟩, fun hnew h ↦ h.2 hnew⟩
  rw [computeUserChanges]
  split
  · next hnone =>
    rw [Bool.and_eq_true, List.isEmpty_iff, List.isEmpty_iff] at hnone
    have hstay : oldUsers.filter (·.id ∈ newUsers.map UserInfo.id) = oldUsers := by
      refine List.filter_eq_self.mpr fun u hu ↦ ?_
      rw [← hleft u hu, hnone.2]
      rfl
    rw [conveyedUsers, hnone.1, hstay, ← hstate]
    rfl
  · rw [applyUserChanges, conveyedUsers, hstate, List.filter_congr hleft]

theorem conveyedUsers_eq_iff {oldUsers newUsers : List UserInfo} :
    conveyedUsers oldUsers newUsers = newUsers ↔
      ∃ joined, newUsers = oldUsers.filter (·.id ∈ newUsers.map UserInfo.id) ++ joined ∧
        (joined.map UserInfo.id).Nodup ∧ ∀ u ∈ joined, u.id ∉ oldUsers.map UserInfo.id := by
  constructor
  · intro h
    obtain ⟨added, heq, hnodup, hadded⟩ := exists_foldl_join
      (oldUsers.filter (·.id ∈ newUsers.map UserInfo.id))
      (newUsers.filter (·.id ∉ oldUsers.map UserInfo.id))
    refine ⟨added, h.symm.trans heq, hnodup, fun u hu ↦ ?_⟩
    exact of_decide_eq_true (List.mem_filter.mp (hadded u hu).1).2
  · rintro ⟨joined, heq, hnodup, hnew⟩
    -- The users that stay have old ids, so the newcomers are just those that joined.
    have hjoined : newUsers.filter (·.id ∉ oldUsers.map UserInfo.id) = joined := by
      conv_lhs => rw [heq]
      rw [List.filter_append, List.filter_eq_nil_iff.mpr, List.nil_append, List.filter_eq_self.mpr]
      · exact fun u hu ↦ decide_eq_true (hnew u hu)
      · intro u hu hout
        exact of_decide_eq_true hout (List.mem_map_of_mem (List.mem_filter.mp hu).1)
    rw [conveyedUsers, hjoined, foldl_join_eq_append hnodup, ← heq]
    intro u hu hin
    obtain ⟨v, hv, hid⟩ := List.mem_map.mp hin
    exact hnew u hu (hid ▸ List.mem_map_of_mem (List.mem_filter.mp hv).1)

end Lists

/-! ## One delta -/

section OneDelta

variable {old new r : SessionState P} {tracker : DeltaTracker} {now : ℕ}

theorem bind_modify {σ ε β : Type} (f : σ → σ) (g : EStateM ε σ β) (s : σ) :
    ((modify f : EStateM ε σ PUnit) >>= fun _ ↦ g) s = g (f s) := rfl

@[simp] theorem computeDelta_timelineDelta :
    (computeDelta hash tracker now old new).1.timelineDelta = computeTimelineDelta old new := rfl

@[simp] theorem computeDelta_metadataChanges :
    (computeDelta hash tracker now old new).1.metadataChanges =
      (computeMetadataChanges hash tracker.metadataHashes old.metadata new.metadata).1 := rfl

@[simp] theorem computeDelta_userChanges :
    (computeDelta hash tracker now old new).1.userChanges =
      computeUserChanges old.activeUsers new.activeUsers := rfl

@[simp] theorem computeDelta_settingsChanges :
    (computeDelta hash tracker now old new).1.settingsChanges =
      if P.settings.toValue old.settings ≠ P.settings.toValue new.settings then
        some (P.settings.toValue new.settings)
      else none := rfl

theorem applySettingsChanges_compute (state : SessionState P)
    (hstate : state.settings = old.settings) :
    applySettingsChanges (computeDelta hash tracker now old new).1.settingsChanges state =
      .ok () { state with settings := new.settings } := by
  rw [computeDelta_settingsChanges]
  by_cases h : P.settings.toValue old.settings = P.settings.toValue new.settings
  · rw [if_neg (not_not.mpr h), ← P.settings.toValue_injective h, ← hstate]
    rfl
  · rw [if_pos h]
    exact EStateM.bind_eq_of_ok (decode_toValue P.settings new.settings state)

/-- **Applying one delta.** A receiver that is where the sender was is where the sender is now just
when the change is one that deltas convey. -/
theorem applyDelta_compute (now : ℕ) (hcached : Cached hash tracker old)
    (hno : NoCollision hash old new) (hr : SameContent r old) {receiver : DeltaTracker}
    (hsequence : receiver.sequence ≤ tracker.sequence) :
    ∃ r', applyDelta (computeDelta hash tracker now old new).1 (receiver, r) =
        .ok () ({ receiver with sequence := tracker.sequence + 1 }, r') ∧
      (SameContent r' new ↔ Conveyed old new) := by
  obtain ⟨objects', hobjects, hlookup⟩ :=
    forM_computeObjectDeltas new.objects hcached.objects
  obtain ⟨metadata', hmetadata, hentries⟩ := applyMetadataChanges_compute new.metadata
    hcached.metadata hno.metadata
    { r with
      objects := objects'
      history := old.history ++ new.history.drop old.history.length
      historyIndex := new.historyIndex } hr.metadata
  let r' : SessionState P :=
    ⟨objects', old.history ++ new.history.drop old.history.length, new.historyIndex, now,
      conveyedUsers old.activeUsers new.activeUsers, new.settings, metadata'⟩
  have hrun : applyParts (computeDelta hash tracker now old new).1 r = .ok () r' := by
    have honObjects : onObjects ((computeDelta hash tracker now old new).1.objectDeltas.forM
        applyObjectDelta) r = .ok () { r with objects := objects' } := by
      refine onObjects_ok ?_
      rw [hr.objects]
      exact hobjects
    rw [applyParts]
    refine (EStateM.bind_eq_of_ok honObjects).trans ?_
    rw [bind_modify, bind_modify, bind_modify]
    have htimeline := applyTimelineDelta_compute old new
      { r with objects := objects' } hr.history hr.historyIndex
    have husers := applyUserChanges_compute new.activeUsers
      { r with
        objects := objects'
        history := old.history ++ new.history.drop old.history.length
        historyIndex := new.historyIndex
        metadata := metadata' } hr.activeUsers
    rw [computeDelta_timelineDelta, htimeline, computeDelta_metadataChanges, hmetadata,
      computeDelta_userChanges, husers]
    refine (EStateM.bind_eq_of_ok (applySettingsChanges_compute _ ?_)).trans ?_
    · exact hr.settings
    · rfl
  refine ⟨r', applyDelta_of_lt (Nat.lt_succ_of_le hsequence) hrun, ?_⟩
  · -- Timeline and settings always follow; the other parts do where the delta conveys the change.
    have hobjectsIff : objects' = new.objects ↔ ∀ (id : ObjectId) (a b : CADObject P),
        old.objects[id]? = some a → new.objects[id]? = some b → ObjectConveyed a b := by
      rw [← conveyedObject_eq_iff hno.objects]
      refine ⟨fun h id ↦ by rw [← hlookup, h], fun h ↦ OrderedMap.ext_lookup fun id ↦ ?_⟩
      rw [hlookup, h]
    have hmetadataIff : metadata' = new.metadata ↔ ∀ key : String,
        new.metadata[key]? = some .null → old.metadata[key]? = some .null := by
      rw [← conveyedEntry_eq_iff]
      refine ⟨fun h key ↦ by rw [← hentries, h], fun h ↦ OrderedMap.ext_lookup fun key ↦ ?_⟩
      rw [hentries, h]
    constructor
    · intro h
      exact ⟨hobjectsIff.mp h.objects, append_drop_eq_iff.mp h.history,
        hmetadataIff.mp h.metadata, conveyedUsers_eq_iff.mp h.activeUsers⟩
    · intro h
      exact ⟨hobjectsIff.mpr h.objects, append_drop_eq_iff.mpr h.history, rfl,
        conveyedUsers_eq_iff.mpr h.users, rfl, hmetadataIff.mpr h.metadata⟩

theorem Cached.compute : Cached hash (computeDelta hash tracker now old new).2 new := by
  have hkept {K V : Type} [Ord K] [Std.TransOrd K] [Std.LawfulEqOrd K] [DecidableEq K]
      (hashes : OrderedMap K (BitVec 64)) (m m' : OrderedMap K V) (f : V → BitVec 64) (k : K)
      (v : V) (hv : m'[k]? = some v) :
      ((hashes.insertEntries (m'.toList.map fun e ↦ (e.1, f e.2))).eraseKeys
        (m.keys.filter (· ∉ m')))[k]? = some (f v) := by
    have hmem : k ∉ m.keys.filter (· ∉ m') := by
      rw [List.mem_filter, decide_eq_true_eq]
      exact fun h ↦ h.2 (OrderedMap.mem_of_getElem? hv)
    rw [OrderedMap.getElem?_eraseKeys, if_neg hmem]
    refine OrderedMap.getElem?_insertEntries_of_mem (fun w hw ↦ ?_) ?_ _
    · obtain ⟨e, he, heq⟩ := List.mem_map.mp hw
      obtain ⟨rfl, rfl⟩ := Prod.mk.inj heq
      rw [Option.some_inj.mp ((OrderedMap.mem_toList.mp he).symm.trans hv)]
    · exact List.mem_map.mpr ⟨(k, v), OrderedMap.mem_toList.mpr hv, rfl⟩
  constructor
  · intro id h a hh ha
    exact Option.some_inj.mp (hh.symm.trans (hkept _ _ _ _ id a ha))
  · intro key h v hh hv
    exact Option.some_inj.mp (hh.symm.trans (hkept _ _ _ _ key v hv))

end OneDelta

/-! ## A sequence of states -/

section Sequence

variable (hash) (sessionId receiverId : Uuid) (times : ℕ → ℕ) (states : ℕ → SessionState P)

def senderAt : ℕ → DeltaTracker
  | 0 => .new sessionId
  | i + 1 => (computeDelta hash (senderAt i) (times i) (states i) (states (i + 1))).2

def deltaAt (i : ℕ) : SessionDelta P :=
  (computeDelta hash (senderAt hash sessionId times states i) (times i) (states i)
    (states (i + 1))).1

def receiverAt : ℕ → DeltaTracker × SessionState P
  | 0 => (.new receiverId, states 0)
  | i + 1 =>
    match applyDelta (deltaAt hash sessionId times states i) (receiverAt i) with
    | .ok _ s => s
    | .error _ s => s

/-- After each of the first deltas the receiver is where the sender is. -/
def InSync (n : ℕ) : Prop :=
  ∀ i < n, SameContent (receiverAt hash sessionId receiverId times states (i + 1)).2
    (states (i + 1))

variable {hash sessionId receiverId times states}

theorem cached_senderAt (sessionId : Uuid) (i : ℕ) :
    Cached hash (senderAt hash sessionId times states i) (states i) := by
  rcases i with _ | i
  · exact ⟨fun id h a hh _ ↦ absurd (hh.symm.trans Std.ExtTreeMap.getElem?_empty) nofun,
      fun key h v hh _ ↦ absurd (hh.symm.trans Std.ExtTreeMap.getElem?_empty) nofun⟩
  · exact Cached.compute

theorem sequence_senderAt (i : ℕ) : (senderAt hash sessionId times states i).sequence = i := by
  induction i with
  | zero => rfl
  | succ i ih => exact congrArg (· + 1) ih

theorem receiverAt_succ {i : ℕ} (hno : NoCollision hash (states i) (states (i + 1)))
    (hsequence : (receiverAt hash sessionId receiverId times states i).1.sequence = i)
    (hr : SameContent (receiverAt hash sessionId receiverId times states i).2 (states i)) :
    (receiverAt hash sessionId receiverId times states (i + 1)).1.sequence = i + 1 ∧
      (SameContent (receiverAt hash sessionId receiverId times states (i + 1)).2 (states (i + 1)) ↔
        Conveyed (states i) (states (i + 1))) := by
  obtain ⟨r', hrun, hiff⟩ := applyDelta_compute (times i)
    (cached_senderAt sessionId i) hno hr (hsequence.trans (sequence_senderAt i).symm).le
  have hnext : receiverAt hash sessionId receiverId times states (i + 1) =
      ({ (receiverAt hash sessionId receiverId times states i).1 with
        sequence := (senderAt hash sessionId times states i).sequence + 1 }, r') := by
    rw [receiverAt, deltaAt, hrun]
  rw [hnext]
  exact ⟨congrArg (· + 1) (sequence_senderAt i), hiff⟩

theorem receiverAt_follows {n : ℕ} (hno : ∀ i < n, NoCollision hash (states i) (states (i + 1)))
    (h : ∀ i < n, SameContent (receiverAt hash sessionId receiverId times states (i + 1)).2
      (states (i + 1)) ∨ Conveyed (states i) (states (i + 1))) {i : ℕ} (hi : i ≤ n) :
    (receiverAt hash sessionId receiverId times states i).1.sequence = i ∧
      SameContent (receiverAt hash sessionId receiverId times states i).2 (states i) := by
  induction i with
  | zero => exact ⟨rfl, rfl, rfl, rfl, rfl, rfl, rfl⟩
  | succ i ih =>
    obtain ⟨hsequence, hr⟩ := ih (Nat.le_of_succ_le hi)
    obtain ⟨hnext, hiff⟩ := receiverAt_succ (hno i hi) hsequence hr
    rcases h i hi with hsame | hconveyed
    · exact ⟨hnext, hsame⟩
    · exact ⟨hnext, hiff.mpr hconveyed⟩

/-- **A receiver follows exactly as long as every change is conveyed.** -/
theorem inSync_iff {n : ℕ} (hno : ∀ i < n, NoCollision hash (states i) (states (i + 1))) :
    InSync hash sessionId receiverId times states n ↔
      ∀ i < n, Conveyed (states i) (states (i + 1)) := by
  constructor
  · intro h i hi
    obtain ⟨hsequence, hr⟩ := receiverAt_follows hno (fun j hj ↦ Or.inl (h j hj)) hi.le
    exact (receiverAt_succ (hno i hi) hsequence hr).2.mp (h i hi)
  · intro h i hi
    exact (receiverAt_follows hno (fun j hj ↦ Or.inr (h j hj)) hi).2

end Sequence

/-! ## Examples -/

private def numberCodec : Codec ℕ := ⟨fun n ↦ .number (.posInt n), Json.asU64?, Json.asU64?_posInt⟩

private abbrev numbers : Payloads :=
  ⟨ℕ, ℕ, ℕ, ℕ, ℕ, ℕ, ℕ, numberCodec, numberCodec, numberCodec⟩

/-- Hashes that tell names of different lengths apart. -/
private def byLength : Hashes := ⟨fun f ↦ BitVec.ofNat 64 f.name.length, fun _ ↦ 0⟩

private def box (name : String) (metadata : OrderedMap String Json) : CADObject numbers :=
  ⟨1, name, 0, none, ∅, 0, 0, true, false, none, [], metadata, 0, 0⟩

private def withBox (name : String) (metadata : OrderedMap String Json) : SessionState numbers :=
  ⟨OrderedMap.insertEntries ∅ [(1, box name metadata)], [], 0, 0, [], 0, ∅⟩

private theorem withBox_one (name : String) (metadata : OrderedMap String Json) :
    (withBox name metadata).objects[(1 : ObjectId)]? = some (box name metadata) := by
  refine OrderedMap.getElem?_insertEntries_of_mem (fun w hw ↦ ?_) (List.mem_singleton.mpr rfl) _
  exact (Prod.mk.inj (List.mem_singleton.mp hw)).2

private theorem lookup_withBox {name : String} {metadata : OrderedMap String Json} {id : ObjectId}
    {obj : CADObject numbers} (h : (withBox name metadata).objects[id]? = some obj) :
    obj = box name metadata := by
  rcases OrderedMap.mem_or_of_getElem?_insertEntries h with hmem | hempty
  · exact (Prod.mk.inj (List.mem_singleton.mp hmem)).2
  · exact absurd (hempty.symm.trans Std.ExtTreeMap.getElem?_empty) nofun

private def renamed : ℕ → SessionState numbers
  | 0 => withBox "Box" ∅
  | _ => withBox "Cover" ∅

private def labelled : ℕ → SessionState numbers
  | 0 => withBox "Box" ∅
  | _ => withBox "Box" (OrderedMap.insertEntries ∅ [("part_number", .string "A-1")])

/-- A new name arrives. -/
theorem inSync_renamed : InSync byLength 0 1 id renamed 1 := by
  refine (inSync_iff fun i hi ↦ ?_).mpr fun i hi ↦ ?_
  all_goals obtain rfl := Nat.lt_one_iff.mp hi
  · refine ⟨fun id a b ha hb h ↦ ?_, fun _ _ _ _ hw ↦ ?_⟩
    · rw [lookup_withBox ha, lookup_withBox hb] at h
      exact absurd h (by decide)
    · exact absurd (hw.symm.trans Std.ExtTreeMap.getElem?_empty) nofun
  · refine ⟨fun id a b ha hb ↦ ?_, List.prefix_rfl, fun _ hnull ↦ hnull, [], rfl, List.nodup_nil,
      fun u hu ↦ absurd hu List.not_mem_nil⟩
    rw [lookup_withBox ha, lookup_withBox hb]
    exact ⟨rfl, fun hne ↦ absurd rfl hne⟩

/-- **A part number does not arrive**: the metadata of an object are not hashed. -/
theorem not_inSync_labelled :
    ¬ ∀ (P : Payloads) (hash : Hashes) (sessionId receiverId : Uuid) (times : ℕ → ℕ)
      (states : ℕ → SessionState P) (n : ℕ),
      (∀ i < n, NoCollision hash (states i) (states (i + 1))) →
      InSync hash sessionId receiverId times states n := by
  intro h
  have hno : NoCollision byLength (labelled 0) (labelled 1) := by
    refine ⟨fun id a b ha hb _ ↦ ?_, fun _ _ _ _ hw ↦ ?_⟩
    · rw [lookup_withBox ha, lookup_withBox hb]
      rfl
    · exact absurd (hw.symm.trans Std.ExtTreeMap.getElem?_empty) nofun
  have hsame := h numbers byLength 0 1 id labelled 1
    (fun i hi ↦ by obtain rfl := Nat.lt_one_iff.mp hi; exact hno) 0 Nat.one_pos
  have hconveyed := (receiverAt_succ hno rfl ⟨rfl, rfl, rfl, rfl, rfl, rfl⟩).2.mp hsame
  refine (hconveyed.objects 1 _ _ (withBox_one ..) (withBox_one ..)).noticed (fun heq ↦ ?_) rfl
  have hlookup := congrArg (fun m : OrderedMap String Json ↦ m["part_number"]?) heq
  simp [box, OrderedMap.insertEntries] at hlookup

end Delta

end RosheraCad
