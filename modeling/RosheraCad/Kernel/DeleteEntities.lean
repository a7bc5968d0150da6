import RosheraCad.Kernel.DeleteExact

/-!
# Deleting entities

The entities a target names are deleted, with `cascade` also what they own, one level down. With
`delete_orphans` what nothing refers to then is deleted in a single pass, with `heal_gaps` in
further passes. The call is a cut followed by rounds of a sweep.
-/

namespace RosheraCad

namespace Delete

variable {D : ModelData}

/-- Filter for selective deletion. The source reads the entity types and nothing else. -/
structure DeleteFilter where
  entityTypes : Option (List EntityType)

inductive DeleteTarget
  | solid (id : ℕ)
  | shell (id : ℕ)
  | face (id : ℕ)
  | loop (id : ℕ)
  | edge (id : ℕ)
  | vertex (id : ℕ)
  | multiple (targets : List DeleteTarget)
  | byFilter (filter : DeleteFilter)

structure DeleteOptions where
  validateBefore : Bool := true
  cascade : Bool := true
  deleteOrphans : Bool := true
  healGaps : Bool := false
  validateTopology : Bool := true

structure DeleteResult where
  deletedPrimary : List Entity
  deletedCascade : List Entity
  deletedOrphans : List Entity
  healedEntities : List Entity
  totalDeleted : ℕ

/-! ## What is to be deleted -/

section Collect

variable {Curve Surface : Type} (m : BRepModel Curve Surface)

def entitiesOfType : EntityType → List Entity
  | .solid => m.solids.iter.map fun e ↦ (.solid, e.1)
  | .shell => m.shells.iter.map fun e ↦ (.shell, e.1)
  | .face => m.faces.iter.map fun e ↦ (.face, e.1)
  | .loop => m.loops.iter.map fun e ↦ (.loop, e.1)
  | .edge => m.edges.iter.map fun e ↦ (.edge, e.1)
  | .vertex => m.vertices.iter.map fun e ↦ (.vertex, e.1)

def applyDeleteFilter (filter : DeleteFilter) : List Entity :=
  match filter.entityTypes with
  | some types => types.foldl (fun result t ↦ result ∪ entitiesOfType m t) []
  | none => []

mutual

def collectEntitiesToDelete : DeleteTarget → List Entity
  | .solid id => [(.solid, id)]
  | .shell id => [(.shell, id)]
  | .face id => [(.face, id)]
  | .loop id => [(.loop, id)]
  | .edge id => [(.edge, id)]
  | .vertex id => [(.vertex, id)]
  | .multiple targets => collectAll targets
  | .byFilter filter => applyDeleteFilter m filter

def collectAll : List DeleteTarget → List Entity
  | [] => []
  | target :: targets => collectEntitiesToDelete target ∪ collectAll targets

end

def owned : Entity → List Entity
  | (.solid, id) =>
    match m.solids.get id with
    | some solid => solid.shells.map (.shell, ·)
    | none => []
  | (.shell, id) =>
    match m.shells.get id with
    | some shell => shell.faces.map (.face, ·)
    | none => []
  | (.face, id) =>
    match m.faces.get id with
    | some face => face.loops.map (.loop, ·)
    | none => []
  | _ => []

def cascadeLoop : List Entity → List Entity → List Entity
  | [], cascade => cascade
  | e :: queue, cascade => cascadeLoop queue (cascade ∪ owned m e)

def findCascadeTargets (initial : List Entity) : List Entity := cascadeLoop m initial []

end Collect

/-! ## Validation -/

def dangling (kind : String) (id : ℕ) (refKind : String) : OperationError :=
  .topologyError s!"{kind} {id} references missing {refKind}"

section Validate

variable {Curve Surface : Type} (m : BRepModel Curve Surface)

def firstMissing (refs : List (Bool × String)) : Option String :=
  (refs.find? fun ref ↦ !ref.1).map Prod.snd

def checkStore {α : Type} (kind : String) (s : IdStore α) (refs : α → List (Bool × String)) :
    Except OperationError Unit :=
  match s.iter.findSome? fun e ↦ (firstMissing (refs e.2)).map (dangling kind e.1) with
  | some e => .error e
  | none => .ok ()

def validateModelAfterDeletion : Except OperationError Unit := do
  checkStore "Edge" m.edges fun edge ↦
    [((m.vertices.get edge.startVertex).isSome, "start vertex"),
      ((m.vertices.get edge.endVertex).isSome, "end vertex"),
      ((m.curves.get edge.curveId).isSome, "curve")]
  checkStore "Loop" m.loops fun l ↦ l.edges.map fun id ↦ ((m.edges.get id).isSome, "edge")
  checkStore "Face" m.faces fun face ↦
    ((m.loops.get face.outerLoop).isSome, "outer loop") ::
      face.innerLoops.map (fun id ↦ ((m.loops.get id).isSome, "inner loop")) ++
        [((m.surfaces.get face.surfaceId).isSome, "surface")]
  checkStore "Shell" m.shells fun shell ↦
    shell.faces.map fun id ↦ ((m.faces.get id).isSome, "face")
  checkStore "Solid" m.solids fun solid ↦
    ((m.shells.get solid.outerShell).isSome, "outer shell") ::
      solid.innerShells.map (fun id ↦ ((m.shells.get id).isSome, "inner shell")) ++
        solid.peerShells.map fun id ↦ ((m.shells.get id).isSome, "peer shell")

end Validate

/-! ## The deletion -/

def healPasses : ℕ → KernelModel D × List Entity → KernelModel D × List Entity
  | 0, acc => acc
  | passes + 1, (m, healed) =>
    let orphans := findOrphanedEntities m.toBRepModel
    if orphans.isEmpty then (m, healed)
    else healPasses passes (orphans.foldl deleteEntity m, healed ++ orphans)

def healDeletionGaps (m : KernelModel D) : KernelModel D × List Entity := healPasses 6 (m, [])

def removeEntities (m : KernelModel D) (target : DeleteTarget) (options : DeleteOptions) :
    KernelModel D × DeleteResult :=
  let primary := collectEntitiesToDelete m.toBRepModel target
  let cascaded := if options.cascade then
    (findCascadeTargets m.toBRepModel primary).filter fun e ↦ !primary.contains e else []
  let cut := (primary ++ cascaded).foldl deleteEntity m
  let orphans := if options.deleteOrphans then findOrphanedEntities cut.toBRepModel else []
  let swept := orphans.foldl deleteEntity cut
  let healed := if options.healGaps then healDeletionGaps swept else (swept, [])
  (healed.1,
    { deletedPrimary := primary
      deletedCascade := cascaded
      deletedOrphans := orphans
      healedEntities := healed.2
      totalDeleted := primary.length + cascaded.length + orphans.length })

def deleteEntitiesBody (target : DeleteTarget) (options : DeleteOptions) :
    KernelOp D OperationError DeleteResult :=
  fun w ↦
    let removed := removeEntities w.model target options
    let left : World D := { w with model := removed.1 }
    if options.validateTopology then
      match validateModelAfterDeletion removed.1.toBRepModel with
      | .error e => (.error e, left)
      | .ok () => (.ok removed.2, left)
    else (.ok removed.2, left)

def validateCanApply (_ : KernelModel D) : Except OperationError Unit := .ok ()

def deleteEntities (target : DeleteTarget) (options : DeleteOptions) :
    KernelOp D OperationError DeleteResult :=
  fun w ↦
    match if options.validateBefore then validateCanApply w.model else .ok () with
    | .error e => (.error e, w)
    | .ok () => withRollback (deleteEntitiesBody target options) w

variable {D : ModelData} {m m' : KernelModel D}

/-! ## Validation -/

section Validate

variable {Curve Surface : Type} {m : BRepModel Curve Surface}

theorem firstMissing_eq_none_iff {refs : List (Bool × String)} :
    firstMissing refs = none ↔ ∀ ref ∈ refs, ref.1 = true := by
  simp [firstMissing]

theorem checkStore_eq_ok_iff {α : Type} {kind : String} {s : IdStore α}
    {refs : α → List (Bool × String)} :
    checkStore kind s refs = .ok () ↔ ∀ id a, s.get id = some a → ∀ ref ∈ refs a, ref.1 = true := by
  have hnone : (s.iter.findSome? fun e ↦ (firstMissing (refs e.2)).map (dangling kind e.1)) = none ↔
      ∀ id a, s.get id = some a → ∀ ref ∈ refs a, ref.1 = true := by
    rw [List.findSome?_eq_none_iff]
    simp only [Option.map_eq_none_iff, firstMissing_eq_none_iff, Prod.forall, IdStore.mem_iter]
  rw [← hnone, checkStore]
  generalize (s.iter.findSome? fun e ↦ (firstMissing (refs e.2)).map (dangling kind e.1)) = first
  rcases first with - | e
  · exact iff_of_true rfl rfl
  · exact iff_of_false nofun nofun

theorem bind_eq_ok_iff {ε : Type} {a b : Except ε Unit} :
    (a >>= fun _ ↦ b) = .ok () ↔ a = .ok () ∧ b = .ok () := by
  rcases a with e | u
  · exact iff_of_false nofun fun h ↦ nomatch h.1
  · exact (and_iff_right rfl).symm

theorem live_iff_isSome {α : Type} {s : IdStore α} {id : ℕ} : s.Live id ↔ (s.get id).isSome := by
  rw [IdStore.live_iff, Option.isSome_iff_exists]

theorem refsIntact_iff : m.RefsIntact ↔
    (∀ id edge, m.edges.get id = some edge → (∀ v ∈ edge.vertices, m.Has (.vertex, v)) ∧
      m.curves.Live edge.curveId) ∧
    (∀ id l, m.loops.get id = some l → ∀ e ∈ l.edges, m.Has (.edge, e)) ∧
    (∀ id face, m.faces.get id = some face → (∀ l ∈ face.loops, m.Has (.loop, l)) ∧
      m.surfaces.Live face.surfaceId) ∧
    (∀ id shell, m.shells.get id = some shell → ∀ f ∈ shell.faces, m.Has (.face, f)) ∧
    ∀ id solid, m.solids.get id = some solid → ∀ s ∈ solid.shells, m.Has (.shell, s) := by
  constructor
  · intro hm
    have hrefs {x : Entity} {r : EntityRecord} (hr : m.entity x = some r) {y : Entity}
        (hy : y ∈ r.refs) : m.Has y := hm.entities x r hr y hy
    refine ⟨fun id edge h ↦ ⟨fun v hv ↦ ?_, hm.curves id edge h⟩, fun id l h e he ↦ ?_,
      fun id face h ↦ ⟨fun l hl ↦ ?_, hm.surfaces id face h⟩, fun id shell h f hf ↦ ?_,
      fun id solid h s hs ↦ ?_⟩
    · exact hrefs (x := (.edge, id)) (r := .edge edge) (by rw [BRepModel.entity, h]; rfl)
        (List.mem_map_of_mem hv)
    · exact hrefs (x := (.loop, id)) (r := .loop l) (by rw [BRepModel.entity, h]; rfl)
        (List.mem_map_of_mem he)
    · exact hrefs (x := (.face, id)) (r := .face face) (by rw [BRepModel.entity, h]; rfl)
        (List.mem_map_of_mem hl)
    · exact hrefs (x := (.shell, id)) (r := .shell shell) (by rw [BRepModel.entity, h]; rfl)
        (List.mem_map_of_mem hf)
    · exact hrefs (x := (.solid, id)) (r := .solid solid) (by rw [BRepModel.entity, h]; rfl)
        (List.mem_map_of_mem hs)
  · rintro ⟨hedges, hloops, hfaces, hshells, hsolids⟩
    refine ⟨?_, fun id edge h ↦ (hedges id edge h).2, fun id face h ↦ (hfaces id face h).2⟩
    rintro ⟨t, id⟩ r hr y hy
    rcases t with _ | _ | _ | _ | _ | _
    all_goals
      obtain ⟨a, ha, rfl⟩ := Option.map_eq_some_iff.mp hr
    case vertex => exact absurd hy List.not_mem_nil
    all_goals
      obtain ⟨i, hi, rfl⟩ := List.mem_map.mp hy
    · exact hsolids id a ha i hi
    · exact hshells id a ha i hi
    · exact (hfaces id a ha).1 i hi
    · exact hloops id a ha i hi
    · exact (hedges id a ha).1 i hi

theorem validateModelAfterDeletion_eq_ok_iff :
    validateModelAfterDeletion m = .ok () ↔ m.RefsIntact := by
  rw [refsIntact_iff]
  simp only [validateModelAfterDeletion, bind_eq_ok_iff, checkStore_eq_ok_iff]
  refine and_congr ?_ (and_congr ?_ (and_congr ?_ (and_congr ?_ ?_)))
  all_goals
    refine forall_congr' fun id ↦ forall_congr' fun a ↦ imp_congr_right fun _ ↦ ?_
    simp [BRepModel.Has, BRepModel.entity, live_iff_isSome, Option.isSome_iff_exists,
      Edge.vertices, Face.loops, Solid.shells, and_assoc, or_imp, forall_and]

end Validate

/-! ## What is cut out -/

section Cut

variable {Curve Surface : Type} (m : BRepModel Curve Surface) (target : DeleteTarget)

def InCut (x : Entity) : Prop :=
  x ∈ collectEntitiesToDelete m target ∨ ∃ y ∈ collectEntitiesToDelete m target, x ∈ owned m y

def OwnedByTarget (x : Entity) : Prop :=
  ∃ y ∈ collectEntitiesToDelete m target, Relation.TransGen (fun y z ↦ z ∈ owned m y) y x

def OthersReach : Entity → Prop :=
  Left m {x | x ∈ collectEntitiesToDelete m target ∧ x.1 = .solid}

variable {m target} {x y : Entity}

theorem refsOf_of_owned (h : y ∈ owned m x) : y ∈ refsOf m x := by
  obtain ⟨t, id⟩ := x
  rcases t with _ | _ | _ | _ | _ | _
  case solid =>
    rcases hget : m.solids.get id with - | solid
    · simp [owned, hget] at h
    · simp only [owned, hget] at h
      exact ⟨.solid solid, by rw [BRepModel.entity, hget]; rfl, h⟩
  case shell =>
    rcases hget : m.shells.get id with - | shell
    · simp [owned, hget] at h
    · simp only [owned, hget] at h
      exact ⟨.shell shell, by rw [BRepModel.entity, hget]; rfl, h⟩
  case face =>
    rcases hget : m.faces.get id with - | face
    · simp [owned, hget] at h
    · simp only [owned, hget] at h
      exact ⟨.face face, by rw [BRepModel.entity, hget]; rfl, h⟩
  all_goals exact absurd h List.not_mem_nil

theorem mem_cascadeLoop {queue cascade : List Entity} :
    x ∈ cascadeLoop m queue cascade ↔ x ∈ cascade ∨ ∃ y ∈ queue, x ∈ owned m y := by
  induction queue generalizing cascade with
  | nil => simp [cascadeLoop]
  | cons e queue ih =>
    rw [cascadeLoop, ih, List.mem_union_iff, or_assoc, List.exists_mem_cons_iff]

theorem mem_findCascadeTargets {initial : List Entity} :
    x ∈ findCascadeTargets m initial ↔ ∃ y ∈ initial, x ∈ owned m y := by
  rw [findCascadeTargets, mem_cascadeLoop, or_iff_right List.not_mem_nil]

end Cut

/-! ## The passes -/

section Passes

theorem toBRepModel_foldl {f g : KernelModel D → Entity → KernelModel D}
    (hf : ∀ m e, (f m e).toBRepModel = m.toBRepModel.deleteEntity e)
    (hg : ∀ m e, (g m e).toBRepModel = m.toBRepModel.deleteEntity e) (es : List Entity)
    (h : m.toBRepModel = m'.toBRepModel) :
    (es.foldl f m).toBRepModel = (es.foldl g m').toBRepModel := by
  induction es generalizing m m' with
  | nil => exact h
  | cons e es ih => exact ih (by rw [hf, hg, h])

theorem toBRepModel_healPasses (n : ℕ)
    (h : m.toBRepModel = m'.toBRepModel) (healed swept : List Entity) :
    (healPasses n (m, healed)).1.toBRepModel = (prunePasses n (m', swept)).1.toBRepModel := by
  induction n generalizing m m' healed swept with
  | zero => exact h
  | succ n ih =>
    rw [healPasses, prunePasses, h]
    split
    · exact h
    · refine ih ?_ _ _
      exact toBRepModel_foldl (fun _ _ ↦ rfl) toBRepModel_prunePass_step _ h

def rounds (options : DeleteOptions) : ℕ := if options.healGaps then 7 else 1

variable {m : KernelModel D} {target : DeleteTarget} {options : DeleteOptions}

theorem mem_toDelete {Curve Surface : Type} {m : BRepModel Curve Surface} {x : Entity} :
    (x ∈ collectEntitiesToDelete m target ++
        (findCascadeTargets m (collectEntitiesToDelete m target)).filter fun e ↦
          !(collectEntitiesToDelete m target).contains e) ↔ InCut m target x := by
  rw [List.mem_append, List.mem_filter, mem_findCascadeTargets, InCut]
  by_cases hx : x ∈ collectEntitiesToDelete m target
  · simp [hx]
  · simp [hx]

theorem exists_removeEntities (m : KernelModel D) (target : DeleteTarget)
    (hcascade : options.cascade = true) (horphans : options.deleteOrphans = true) :
    ∃ removed, Removes m (removeEntities m target options).1 removed ∧
      present (removeEntities m target options).1.toBRepModel =
        (Sweep.round (refsOf m.toBRepModel) solids)^[rounds options]
          (present m.toBRepModel \ {x | InCut m.toBRepModel target x}) := by
  simp only [removeEntities, hcascade, horphans, if_true]
  generalize hlist : collectEntitiesToDelete m.toBRepModel target ++ _ = toDelete
  have hcut := Removes.foldl_deleteEntity m toDelete
  have hcutPresent : present (toDelete.foldl deleteEntity m).toBRepModel =
      present m.toBRepModel \ {x | InCut m.toBRepModel target x} := by
    ext x
    have hmem : x ∈ toDelete ↔ InCut m.toBRepModel target x := hlist ▸ mem_toDelete
    refine hcut.has_iff.trans (and_congr_right fun ⟨r, hr⟩ ↦ not_congr ?_)
    rw [List.mem_filter, hr, hmem]
    exact and_iff_left rfl
  generalize toDelete.foldl deleteEntity m = cut at hcut hcutPresent ⊢
  have hpass : Removes cut
      ((findOrphanedEntities cut.toBRepModel).foldl deleteEntity cut)
      (findOrphanedEntities cut.toBRepModel) :=
    Removes.foldl (fun _ _ ↦ rfl) fun e he ↦ (mem_findOrphanedEntities.mp he).1
  have hround : present ((findOrphanedEntities cut.toBRepModel).foldl deleteEntity
      cut).toBRepModel = Sweep.round (refsOf m.toBRepModel) solids (present cut.toBRepModel) := by
    rw [round_present fun x r ↦ hcut.entity_of_entity]
    exact Set.ext fun x ↦ hpass.has_iff
  have hboth := hcut.trans hpass
  generalize (findOrphanedEntities cut.toBRepModel).foldl deleteEntity cut = swept at hround hboth ⊢
  rw [rounds, ← hcutPresent]
  rcases options.healGaps with _ | _
  · exact ⟨_, hboth, hround⟩
  · obtain ⟨new, -, -, hnew, hpresent⟩ := exists_prunePasses 6 swept [] fun x r ↦
      hboth.entity_of_entity (x := x) (r := r)
    have heal := toBRepModel_healPasses 6 (rfl : swept.toBRepModel = swept.toBRepModel) [] []
    refine ⟨_, hboth.trans (hnew.of_toBRepModel_eq heal), ?_⟩
    change present (healPasses 6 (swept, [])).1.toBRepModel = _
    rw [heal, hpresent, hround, ← Function.iterate_succ_apply]
    rfl

end Passes

/-! ## The whole deletion -/

/-- **What a deletion of entities owes its caller.** -/
structure DeletesWhole (target : DeleteTarget) (options : DeleteOptions) (w : World D) : Prop where
  /-- What a successful call leaves is intact, without orphans, and holds nothing a named entity
  owns. -/
  deleted : ∀ out w', deleteEntities target options w = (.ok out, w') →
    w'.model.RefsIntact ∧ findOrphanedEntities w'.model.toBRepModel = [] ∧
      ∀ x, OwnedByTarget w.model.toBRepModel target x → ¬ w'.model.Has x
  /-- A call that fails finds a reference dangling that does not lead to a named entity. -/
  refused : ∀ e w', deleteEntities target options w = (.error e, w') →
    ∃ x y, (removeEntities w.model target options).1.Has x ∧ y ∈ refsOf w.model.toBRepModel x ∧
      ¬ (removeEntities w.model target options).1.Has y ∧
        y ∉ collectEntitiesToDelete w.model.toBRepModel target

/-- With `heal_gaps` what the solids left reach through what is not cut out, else what is not cut
out and a solid or referred to. -/
def Stays {Curve Surface : Type} (m : BRepModel Curve Surface) (target : DeleteTarget)
    (healGaps : Bool) (x : Entity) : Prop :=
  if healGaps then Left m {x | InCut m target x} x
  else m.Has x ∧ ¬ InCut m target x ∧
    (x.1 = .solid ∨ ∃ z, m.Has z ∧ ¬ InCut m target z ∧ x ∈ refsOf m z)

/-- No other solid reaches a target or what it owns, and everything that stays is reached by other
solids. -/
structure StandAlone {Curve Surface : Type} (m : BRepModel Curve Surface) (target : DeleteTarget)
    (healGaps : Bool) : Prop where
  unshared : ∀ x, x ∈ collectEntitiesToDelete m target ∨ OwnedByTarget m target x →
    ¬ OthersReach m target x
  reached : ∀ x, Stays m target healGaps x → OthersReach m target x

/-- Something that stays refers to an entity that a target owns and that is no target itself. -/
def SharesOwned {Curve Surface : Type} (m : BRepModel Curve Surface) (target : DeleteTarget)
    (healGaps : Bool) : Prop :=
  ∃ x y, Stays m target healGaps x ∧ y ∈ refsOf m x ∧ InCut m target y ∧
    y ∉ collectEntitiesToDelete m target

section Whole

variable {w : World D} {target : DeleteTarget} {options : DeleteOptions}

theorem deleteEntities_eq (target : DeleteTarget) (options : DeleteOptions) (w : World D) :
    deleteEntities target options w = withRollback (deleteEntitiesBody target options) w := by
  rw [deleteEntities]
  cases options.validateBefore <;> rfl

theorem findOrphanedEntities_eq_nil_iff {removed : List Entity} (hremoves : Removes m m' removed) :
    findOrphanedEntities m'.toBRepModel = [] ↔
      Sweep.Settled (refsOf m.toBRepModel) solids (present m'.toBRepModel) := by
  rw [Sweep.Settled, round_present fun x r ↦ hremoves.entity_of_entity]
  constructor
  · intro h
    rw [h]
    simp [present]
  · intro h
    rw [List.eq_nil_iff_forall_not_mem]
    intro x hx
    have hthere := (mem_findOrphanedEntities.mp hx).1
    exact (h.superset hthere).2 hx

theorem mem_iterate_iff_stays {Curve Surface : Type} {m : BRepModel Curve Surface} {x : Entity} :
    x ∈ (Sweep.round (refsOf m) solids)^[rounds options] (present m \ {x | InCut m target x}) ↔
      Stays m target options.healGaps x := by
  rw [rounds, Stays]
  rcases options.healGaps with _ | _
  · simp only [Bool.false_eq_true, if_false, Function.iterate_one]
    simp only [Sweep.round, solids, present, Set.mem_sdiff, Set.mem_ofPred_eq, and_assoc]
  · simp only [if_true]
    exact Sweep.mem_iterate_iff (fun e : Entity ↦ e.1.index) (fun _ _ ↦ index_of_mem_refsOf)
      (fun _ ↦ index_eq_zero_iff.mp) fun y _ ↦ y.1.index_le.trans (by omega)

/-- A call succeeds unless it validates and finds the references of what is left dangling. -/
theorem deleteEntities_cases (target : DeleteTarget) (options : DeleteOptions) (w : World D) :
    (∃ out w', deleteEntities target options w = (.ok out, w') ∧
        w'.model = (removeEntities w.model target options).1 ∧
        (options.validateTopology = true →
          (removeEntities w.model target options).1.RefsIntact)) ∨
      ∃ e w', deleteEntities target options w = (.error e, w') ∧
        options.validateTopology = true ∧
        ¬ (removeEntities w.model target options).1.RefsIntact := by
  have hbegin : w.beginPendingRecord.model = w.model := w.model_callRecorder _
  rw [deleteEntities_eq]
  rcases hvalidate : options.validateTopology with _ | _
  · have hbody : deleteEntitiesBody target options w.beginPendingRecord =
        (.ok (removeEntities w.model target options).2,
          { w.beginPendingRecord with model := (removeEntities w.model target options).1 }) := by
      simp [deleteEntitiesBody, hvalidate, hbegin]
    obtain ⟨w', hdelete, hmodel⟩ := withRollback_of_ok hbody
    exact Or.inl ⟨_, w', hdelete, hmodel, nofun⟩
  · rcases hresult : validateModelAfterDeletion
        (removeEntities w.model target options).1.toBRepModel with e | u
    · have hbody : deleteEntitiesBody target options w.beginPendingRecord = (.error e,
          { w.beginPendingRecord with model := (removeEntities w.model target options).1 }) := by
        simp [deleteEntitiesBody, hvalidate, hbegin, hresult]
      refine Or.inr ⟨e, _, by rw [withRollback, hbody], rfl, fun h ↦ ?_⟩
      rw [validateModelAfterDeletion_eq_ok_iff.mpr h] at hresult
      cases hresult
    · have hbody : deleteEntitiesBody target options w.beginPendingRecord =
          (.ok (removeEntities w.model target options).2,
            { w.beginPendingRecord with model := (removeEntities w.model target options).1 }) := by
        simp [deleteEntitiesBody, hvalidate, hbegin, hresult]
      obtain ⟨w', hdelete, hmodel⟩ := withRollback_of_ok hbody
      exact Or.inl ⟨_, w', hdelete, hmodel,
        fun _ ↦ validateModelAfterDeletion_eq_ok_iff.mp hresult⟩

section Conditions

variable {Curve Surface : Type} {m : BRepModel Curve Surface}

theorem closed_present (hm : m.RefsIntact) : Sweep.Closed (refsOf m) (present m) :=
  fun x _ y ⟨r, hr, hy⟩ ↦ hm.entities x r hr y hy

theorem othersReach_iff {x : Entity} : OthersReach m target x ↔
    Sweep.Reached (refsOf m) solids (present m \ ({x | InCut m target x} ∩ solids)) x := by
  have hsame : {x | m.Has x ∧ x ∉ {x | x ∈ collectEntitiesToDelete m target ∧ x.1 = .solid}} =
      present m \ ({x | InCut m target x} ∩ solids) := by
    ext y
    refine and_congr_right fun _ ↦ not_congr (and_congr_left fun hy ↦ ?_)
    refine (or_iff_left ?_).symm
    rintro ⟨z, -, hz⟩
    have hindex := index_of_mem_refsOf (refsOf_of_owned hz)
    rw [index_eq_zero_iff.mpr hy] at hindex
    exact absurd hindex.symm (Nat.succ_ne_zero _)
  rw [OthersReach, Left, hsame]

theorem standAlone_iff (hm : m.RefsIntact) :
    StandAlone m target options.healGaps ↔
      (Sweep.Closed (refsOf m) ((Sweep.round (refsOf m) solids)^[rounds options]
          (present m \ {x | InCut m target x})) ∧
        Sweep.Settled (refsOf m) solids ((Sweep.round (refsOf m) solids)^[rounds options]
          (present m \ {x | InCut m target x}))) ∧
        ∀ x, OwnedByTarget m target x → ¬ Stays m target options.healGaps x := by
  rw [Sweep.closed_and_settled_iff (fun e : Entity ↦ e.1.index)
    (fun _ _ ↦ index_of_mem_refsOf) (fun _ ↦ index_eq_zero_iff) (closed_present hm)]
  simp only [← othersReach_iff, mem_iterate_iff_stays]
  constructor
  · rintro ⟨hunshared, hreached⟩
    refine ⟨⟨fun y hy ↦ hunshared y (hy.imp_right ?_), hreached⟩,
      fun x hx hstays ↦ hunshared x (Or.inr hx) (hreached x hstays)⟩
    rintro ⟨z, hz, hyz⟩
    exact ⟨z, hz, .single hyz⟩
  · rintro ⟨⟨hcut, hleft⟩, hgone⟩
    refine ⟨fun x hx hreach ↦ ?_, hleft⟩
    rcases hx with hx | hx
    · exact hcut x (Or.inl hx) hreach
    · -- What other solids reach stays, as nothing of it was cut out.
      refine hgone x hx (mem_iterate_iff_stays.mp ?_)
      refine Sweep.Reached.mem_iterate_of_uncut (fun y hy h ↦ ?_) (othersReach_iff.mp hreach)
      exact hcut y hy (othersReach_iff.mpr h)

theorem sharesOwned_iff (hm : m.RefsIntact) :
    SharesOwned m target options.healGaps ↔
      ∃ x y, Stays m target options.healGaps x ∧ y ∈ refsOf m x ∧
        ¬ Stays m target options.healGaps y ∧ y ∉ collectEntitiesToDelete m target := by
  refine exists_congr fun x ↦ exists_congr fun y ↦ and_congr_right fun hx ↦
    and_congr_right fun hxy ↦ and_congr_left fun _ ↦ ?_
  rw [← mem_iterate_iff_stays] at hx ⊢
  constructor
  · exact fun hy hstays ↦ (Sweep.iterate_round_subset _ hstays).2 hy
  · intro hgone
    by_contra hy
    have hthere := closed_present hm x (Sweep.iterate_round_subset _ hx).1 hxy
    exact hgone (Sweep.mem_iterate_of_ref hx hxy ⟨hthere, hy⟩)

end Conditions

/-- **Deleting entities does the whole job** just when the targets stand alone, or something that
stays shares what they own and it is refused. -/
theorem deletesWhole_iff (hm : w.model.RefsIntact) (hcascade : options.cascade = true)
    (horphans : options.deleteOrphans = true) :
    DeletesWhole target options w ↔
      StandAlone w.model.toBRepModel target options.healGaps ∨
        options.validateTopology = true ∧
          SharesOwned w.model.toBRepModel target options.healGaps := by
  obtain ⟨removed, hremoves, hpresent⟩ :=
    exists_removeEntities w.model target hcascade horphans
  have hclosed := intact_iff_closed hm hremoves
  have hsettled := findOrphanedEntities_eq_nil_iff hremoves
  have hhas : ∀ x, (removeEntities w.model target options).1.Has x ↔
      Stays w.model.toBRepModel target options.healGaps x := by
    intro x
    rw [← mem_iterate_iff_stays, ← hpresent]
    rfl
  rw [hpresent] at hclosed hsettled
  rw [standAlone_iff hm, sharesOwned_iff hm, ← hclosed, ← hsettled]
  simp only [← hhas]
  constructor
  · intro h
    rcases deleteEntities_cases target options w with
      ⟨out, w', heq, hmodel, -⟩ | ⟨e, w', heq, hvalidate, -⟩
    · obtain ⟨hintact, hnone, hgone⟩ := h.deleted out w' heq
      rw [hmodel] at hintact hnone hgone
      exact Or.inl ⟨⟨hintact, hnone⟩, hgone⟩
    · exact Or.inr ⟨hvalidate, h.refused e w' heq⟩
  · intro h
    rcases deleteEntities_cases target options w with
      ⟨out, w', heq, hmodel, hvalid⟩ | ⟨e, w', heq, -, hdangles⟩
    · refine ⟨fun out' w'' heq' ↦ ?_, fun e w'' heq' ↦ ?_⟩
      · obtain ⟨-, rfl⟩ := Prod.mk.inj (heq.symm.trans heq')
        rw [hmodel]
        rcases h with ⟨⟨hintact, hnone⟩, hgone⟩ | ⟨hvalidate, x, y, hx, hxy, hy, -⟩
        · exact ⟨hintact, hnone, hgone⟩
        · exact absurd (hclosed.mp (hvalid hvalidate) x (hpresent ▸ hx) hxy) (hpresent ▸ hy)
      · cases (Prod.mk.inj (heq.symm.trans heq')).1
    · refine ⟨fun out w'' heq' ↦ ?_, fun e' w'' heq' ↦ ?_⟩
      · cases (Prod.mk.inj (heq.symm.trans heq')).1
      · rcases h with ⟨⟨hintact, -⟩, -⟩ | ⟨-, hshares⟩
        · exact absurd hintact hdangles
        · exact hshares

end Whole

/-! ## An example -/

def oneSolid : World exampleData :=
  { exampleWorld with model := { exampleWorld.model with
    toBRepModel := BRepModel.oneFace [true] [0] [] } }

private theorem intact_oneSolid : oneSolid.model.RefsIntact :=
  BRepModel.intact_oneFace (by simp) (by simp)

private theorem not_left_oneSolid {cut : Set Entity} (hcut : (.solid, 0) ∈ cut) (x : Entity) :
    ¬ Left oneSolid.model.toBRepModel cut x := by
  intro h
  induction h with
  | @root y hy hroot =>
    obtain ⟨t, id⟩ := y
    obtain rfl : t = .solid := hroot
    obtain ⟨r, hr⟩ := hy.1
    obtain ⟨solid, hsolid, -⟩ := Option.map_eq_some_iff.mp hr
    obtain ⟨rfl, -⟩ := IdStore.get_single.mp hsolid
    exact hy.2 hcut
  | ref _ _ _ ih => exact ih

theorem deletesWhole_iff_healed :
    DeletesWhole (.solid 0) { healGaps := true } oneSolid := by
  have hnamed : (.solid, 0) ∈ collectEntitiesToDelete oneSolid.model.toBRepModel (.solid 0) :=
    List.mem_singleton_self _
  refine (deletesWhole_iff intact_oneSolid rfl rfl).mpr (Or.inl ⟨fun x _ ↦ ?_, fun x hx ↦ ?_⟩)
  · have hcut : (.solid, 0) ∈ {x : Entity |
        x ∈ collectEntitiesToDelete oneSolid.model.toBRepModel (.solid 0) ∧ x.1 = .solid} :=
      ⟨hnamed, rfl⟩
    exact not_left_oneSolid hcut x
  · exact absurd hx (not_left_oneSolid (Or.inl hnamed) x)

/-- **A deleted solid leaves its loop behind, and a face that its shell lists is refused.** -/
theorem not_deletesWhole_solid :
    (deleteEntities (.solid 0) {} oneSolid).2.model.Has (.loop, 0) ∧
      (deleteEntities (.face 0) {} oneSolid).1 =
        .error (.topologyError "Shell 0 references missing face") ∧
      ¬ ∀ (target : DeleteTarget) (options : DeleteOptions) (w : World exampleData),
        w.model.RefsIntact → findOrphanedEntities w.model.toBRepModel = [] →
          options.cascade = true → options.deleteOrphans = true →
            DeletesWhole target options w := by
  have hloop : (deleteEntities (.solid 0) {} oneSolid).2.model.Has (.loop, 0) := ⟨_, rfl⟩
  refine ⟨hloop, rfl, fun h ↦ ?_⟩
  have hwhole := h (.solid 0) {} oneSolid intact_oneSolid rfl rfl rfl
  have hok : ∃ out, (deleteEntities (.solid 0) {} oneSolid).1 = .ok out := ⟨_, rfl⟩
  obtain ⟨out, hout⟩ := hok
  have hnone := (hwhole.deleted out _ (Prod.ext hout rfl)).2.1
  exact absurd hnone (by decide)

end Delete

end RosheraCad
