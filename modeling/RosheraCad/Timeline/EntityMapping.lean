import RosheraCad.Library.Digits
import RosheraCad.Library.Run
import RosheraCad.Replay.Dispatch

/-!
# The mapping between entities and geometry

Timeline entities and the kernel's geometry are mapped to each other by two maps. Registering writes
one entry in each direction and drops nothing, and removing an entity takes the geometry's entry
away whoever it is by then.
-/

namespace RosheraCad

def GeometryId.mappingKey : GeometryId → String
  | .solid id => "solid_" ++ toString id.toNat
  | .face id => "face_" ++ toString id.toNat
  | .edge id => "edge_" ++ toString id.toNat
  | .vertex id => "vertex_" ++ toString id.toNat

theorem GeometryId.mappingKey_inj {g g' : GeometryId} : g.mappingKey = g'.mappingKey ↔ g = g' := by
  refine ⟨fun h ↦ ?_, congrArg _⟩
  -- The kinds have different first letters.
  have hlist := congrArg String.toList h
  rcases g with id | id | id | id <;> rcases g' with id' | id' | id' | id' <;>
    simp only [mappingKey, String.toList_append] at hlist <;> simp at hlist
  all_goals exact congrArg _ (BitVec.eq_of_toNat_eq (Digits.toDigits_inj.mp hlist))

structure EntityMapping where
  entityToGeometry : OrderedMap EntityId GeometryId
  geometryToEntity : OrderedMap String EntityId
  entityParentSolid : OrderedMap EntityId LiveId

namespace EntityMapping

def new : EntityMapping := ⟨∅, ∅, ∅⟩

def register (s : EntityMapping) (entityId : EntityId) (geomId : GeometryId) : EntityMapping :=
  { s with
    entityToGeometry := s.entityToGeometry.insert entityId geomId
    geometryToEntity := s.geometryToEntity.insert geomId.mappingKey entityId }

def registerOwned (s : EntityMapping) (entityId : EntityId) (geomId : GeometryId)
    (parentSolid : LiveId) : EntityMapping :=
  { s.register entityId geomId with
    entityParentSolid := s.entityParentSolid.insert entityId parentSolid }

def registerSolid (s : EntityMapping) (entityId : EntityId) (solidId : LiveId) : EntityMapping :=
  s.register entityId (.solid solidId)

def registerFace (s : EntityMapping) (entityId : EntityId) (faceId parentSolid : LiveId) :
    EntityMapping :=
  s.registerOwned entityId (.face faceId) parentSolid

def registerEdge (s : EntityMapping) (entityId : EntityId) (edgeId parentSolid : LiveId) :
    EntityMapping :=
  s.registerOwned entityId (.edge edgeId) parentSolid

def registerVertex (s : EntityMapping) (entityId : EntityId) (vertexId parentSolid : LiveId) :
    EntityMapping :=
  s.registerOwned entityId (.vertex vertexId) parentSolid

def getGeometryId (s : EntityMapping) (entityId : EntityId) : Option GeometryId :=
  s.entityToGeometry[entityId]?

def getEntityId (s : EntityMapping) (geometryId : GeometryId) : Option EntityId :=
  s.geometryToEntity[geometryId.mappingKey]?

def getParentSolid (s : EntityMapping) (entityId : EntityId) : Option LiveId :=
  s.entityParentSolid[entityId]?

def remove (s : EntityMapping) (entityId : EntityId) : EntityMapping :=
  let unmapped := match s.entityToGeometry[entityId]? with
    | some geomId =>
      { s with
        entityToGeometry := s.entityToGeometry.erase entityId
        geometryToEntity := s.geometryToEntity.erase geomId.mappingKey }
    | none => s
  { unmapped with entityParentSolid := s.entityParentSolid.erase entityId }

variable {s : EntityMapping} {e e' : EntityId} {g g' : GeometryId}

@[simp] theorem getGeometryId_register :
    (s.register e g).getGeometryId e' = if e' = e then some g else s.getGeometryId e' :=
  OrderedMap.lookup_insert ..

@[simp] theorem getEntityId_register :
    (s.register e g).getEntityId g' = if g' = g then some e else s.getEntityId g' := by
  have hlookup : (s.register e g).getEntityId g' =
      if g'.mappingKey = g.mappingKey then some e else s.getEntityId g' :=
    OrderedMap.lookup_insert ..
  rw [hlookup]
  exact if_congr GeometryId.mappingKey_inj rfl rfl

theorem getGeometryId_remove :
    (s.remove e).getGeometryId e' = if e' = e then none else s.getGeometryId e' := by
  rw [remove]
  rcases hget : s.entityToGeometry[e]? with - | g
  · by_cases he : e' = e
    · rw [if_pos he, he]
      exact hget
    · rw [if_neg he]
      rfl
  · exact OrderedMap.lookup_erase ..

theorem getEntityId_remove : (s.remove e).getEntityId g' =
    if s.getGeometryId e = some g' then none else s.getEntityId g' := by
  rw [remove, getGeometryId]
  rcases hget : s.entityToGeometry[e]? with - | g
  · rw [if_neg (Option.some_ne_none g').symm]
    rfl
  · have hlookup : (s.geometryToEntity.erase g.mappingKey)[g'.mappingKey]? =
        if g'.mappingKey = g.mappingKey then none else s.getEntityId g' :=
      OrderedMap.lookup_erase ..
    refine hlookup.trans (if_congr ?_ rfl rfl)
    rw [GeometryId.mappingKey_inj, Option.some_inj, eq_comm]

/-! ## Calls -/

/-- The calls that change the mapping. -/
inductive Op
  | registerSolid (entityId : EntityId) (solidId : LiveId)
  | registerFace (entityId : EntityId) (faceId parentSolid : LiveId)
  | registerEdge (entityId : EntityId) (edgeId parentSolid : LiveId)
  | registerVertex (entityId : EntityId) (vertexId parentSolid : LiveId)
  | remove (entityId : EntityId)

def step (s : EntityMapping) : Op → EntityMapping
  | .registerSolid entityId solidId => s.registerSolid entityId solidId
  | .registerFace entityId faceId parentSolid => s.registerFace entityId faceId parentSolid
  | .registerEdge entityId edgeId parentSolid => s.registerEdge entityId edgeId parentSolid
  | .registerVertex entityId vertexId parentSolid => s.registerVertex entityId vertexId parentSolid
  | .remove entityId => s.remove entityId

def Op.binds : Op → Option (EntityId × GeometryId)
  | .registerSolid entityId solidId => some (entityId, .solid solidId)
  | .registerFace entityId faceId _ => some (entityId, .face faceId)
  | .registerEdge entityId edgeId _ => some (entityId, .edge edgeId)
  | .registerVertex entityId vertexId _ => some (entityId, .vertex vertexId)
  | .remove _ => none

theorem step_cases (s : EntityMapping) (op : Op) :
    (∃ e g, op.binds = some (e, g) ∧
      (s.step op).entityToGeometry = (s.register e g).entityToGeometry ∧
      (s.step op).geometryToEntity = (s.register e g).geometryToEntity ∧
      ∀ e' ≠ e, (s.step op).getParentSolid e' = s.getParentSolid e') ∨
    ∃ e, op = .remove e := by
  have howned (e : EntityId) (parent : LiveId) : ∀ e' ≠ e,
      (s.entityParentSolid.insert e parent)[e']? = s.getParentSolid e' := fun e' hne ↦
    (OrderedMap.lookup_insert ..).trans (if_neg hne)
  cases op with
  | registerSolid e id => exact Or.inl ⟨e, .solid id, rfl, rfl, rfl, fun _ _ ↦ rfl⟩
  | registerFace e id parent => exact Or.inl ⟨e, .face id, rfl, rfl, rfl, howned e parent⟩
  | registerEdge e id parent => exact Or.inl ⟨e, .edge id, rfl, rfl, rfl, howned e parent⟩
  | registerVertex e id parent => exact Or.inl ⟨e, .vertex id, rfl, rfl, rfl, howned e parent⟩
  | remove e => exact Or.inr ⟨e, rfl⟩

def system : GuardedSystem EntityMapping Op := ⟨new, fun _ _ ↦ True, step⟩

/-! ## Agreement -/

/-- **The mapping is consistent**: the two directions agree, and who has an owner is registered. -/
structure Consistent (s : EntityMapping) : Prop where
  agree : ∀ e g, s.getEntityId g = some e ↔ s.getGeometryId e = some g
  owned : ∀ e, (s.getParentSolid e).isSome → (s.getGeometryId e).isSome

structure Free (s : EntityMapping) (e : EntityId) (g : GeometryId) : Prop where
  entity : ∀ g', s.getGeometryId e = some g' → g' = g
  geometry : ∀ e', s.getEntityId g = some e' → e' = e

/-- The call registers no side that is mapped elsewhere. -/
def Clean (s : EntityMapping) (op : Op) : Prop := ∀ e g, op.binds = some (e, g) → s.Free e g

theorem Consistent.agree_register_iff (h : s.Consistent) (e : EntityId) (g : GeometryId) :
    (∀ e' g', (s.register e g).getEntityId g' = some e' ↔
      (s.register e g).getGeometryId e' = some g') ↔ s.Free e g := by
  simp only [getEntityId_register, getGeometryId_register]
  constructor
  · intro hagree
    refine ⟨fun g' hg' ↦ ?_, fun e' he' ↦ ?_⟩
    · by_contra hne
      have hstale := (hagree e g').mp (by rw [if_neg hne, h.agree, hg'])
      rw [if_pos rfl] at hstale
      exact hne (Option.some_inj.mp hstale).symm
    · by_contra hne
      have hstale := (hagree e' g).mpr (by rw [if_neg hne, ← h.agree, he'])
      rw [if_pos rfl] at hstale
      exact hne (Option.some_inj.mp hstale).symm
  · intro hfree e' g'
    by_cases hg : g' = g <;> by_cases he : e' = e
    · simp [hg, he]
    · rw [if_pos hg, if_neg he, hg, ← h.agree]
      exact iff_of_false (fun hsome ↦ he (Option.some_inj.mp hsome).symm)
        fun hsome ↦ he (hfree.geometry e' hsome)
    · rw [if_neg hg, if_pos he, he, h.agree]
      exact iff_of_false (fun hsome ↦ hg (hfree.entity g' hsome))
        fun hsome ↦ hg (Option.some_inj.mp hsome).symm
    · rw [if_neg hg, if_neg he, h.agree]

theorem Consistent.remove (h : s.Consistent) (e : EntityId) : (s.remove e).Consistent where
  agree e' g := by
    rw [getEntityId_remove, getGeometryId_remove]
    by_cases he : e' = e
    · rw [if_pos he, he]
      refine iff_of_false (fun hsome ↦ ?_) (Option.some_ne_none g).symm
      split at hsome
      next => exact Option.some_ne_none e hsome.symm
      next hne => exact hne ((h.agree e g).mp hsome)
    · rw [if_neg he]
      split
      next hg =>
        refine iff_of_false (Option.some_ne_none e').symm fun hsome ↦ he ?_
        exact Option.some_inj.mp (((h.agree e' g).mpr hsome).symm.trans ((h.agree e g).mpr hg))
      next => exact h.agree e' g
  owned e' hsome := by
    have hlookup : (s.remove e).getParentSolid e' = if e' = e then none else s.getParentSolid e' :=
      OrderedMap.lookup_erase ..
    rw [hlookup] at hsome
    rw [getGeometryId_remove]
    split at hsome
    next => cases hsome
    next hne =>
      rw [if_neg hne]
      exact h.owned e' hsome

theorem Consistent.step_iff (h : s.Consistent) (op : Op) :
    (s.step op).Consistent ↔ s.Clean op := by
  rcases step_cases s op with ⟨e, g, hbinds, hforward, hback, howned⟩ | ⟨e, rfl⟩
  · have hgeometry (e' : EntityId) :
        (s.step op).getGeometryId e' = (s.register e g).getGeometryId e' := by
      rw [getGeometryId, hforward, getGeometryId]
    have hentity (g' : GeometryId) :
        (s.step op).getEntityId g' = (s.register e g).getEntityId g' := by
      rw [getEntityId, hback, getEntityId]
    have hclean : s.Clean op ↔ s.Free e g := by
      refine ⟨fun hclean ↦ hclean e g hbinds, fun hfree e' g' hbinds' ↦ ?_⟩
      obtain ⟨rfl, rfl⟩ := Prod.mk.inj (Option.some_inj.mp (hbinds.symm.trans hbinds'))
      exact hfree
    rw [hclean, ← h.agree_register_iff e g]
    constructor
    · intro hstep e' g'
      rw [← hgeometry, ← hentity]
      exact hstep.agree e' g'
    · refine fun hagree ↦ ⟨fun e' g' ↦ ?_, fun e' hsome ↦ ?_⟩
      · rw [hgeometry, hentity]
        exact hagree e' g'
      · rw [hgeometry, getGeometryId_register]
        split
        next => rfl
        next hne =>
          rw [howned e' hne] at hsome
          exact h.owned e' hsome
  · exact iff_of_true (h.remove e) fun e' g' hbinds ↦ absurd hbinds (Option.some_ne_none _).symm

theorem consistent_new : new.Consistent where
  agree _ _ := iff_of_false (Option.some_ne_none _).symm (Option.some_ne_none _).symm
  owned _ hsome := absurd hsome Bool.false_ne_true

/-- **The mapping is consistent all along a run** just when no call registers a side that is mapped
to another. -/
theorem consistent_iff_allClean (ops : List Op) :
    (∀ before, before <+: ops → (system.run new before).Consistent) ↔
      system.Admits Clean new ops :=
  GuardedSystem.good_run_iff (fun _ _ ↦ trivial) (fun _ h ↦ h)
    (fun _ op h ↦ (h.step_iff op).mpr) (fun _ op h hclean ↦ mt (h.step_iff op).mp hclean)
    consistent_new ops

/-- **A partner that was left still points back**, and removing it unmaps what another entity has
taken over. -/
theorem not_consistent_rebound :
    (∃ s, s = system.run new [.registerSolid ⟨0⟩ 1, .registerSolid ⟨0⟩ 2] ∧
      s.getEntityId (.solid 1) = some ⟨0⟩ ∧ s.getGeometryId ⟨0⟩ = some (.solid 2)) ∧
    (∃ s, s = system.run new [.registerSolid ⟨0⟩ 1, .registerSolid ⟨1⟩ 1, .remove ⟨0⟩] ∧
      s.getGeometryId ⟨1⟩ = some (.solid 1) ∧ s.getEntityId (.solid 1) = none) ∧
    ¬ ∀ ops, (system.run new ops).Consistent := by
  have hleft : (system.run new [.registerSolid ⟨0⟩ 1, .registerSolid ⟨0⟩ 2]).getEntityId
      (.solid 1) = some ⟨0⟩ := by decide
  refine ⟨⟨_, rfl, hleft, by decide⟩, ⟨_, rfl, by decide, by decide⟩, fun h ↦ ?_⟩
  exact absurd (((h _).agree _ _).mp hleft) (by decide)

end EntityMapping

end RosheraCad
