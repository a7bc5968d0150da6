import RosheraCad.Kernel.DeleteEntities

/-!
# Deleting an edge

With `cascade` the loops through the edge are removed and reported, and their faces are reported;
without it the edge is taken out of each loop, at the first place the loop lists it. With
`delete_orphans` the ends of the edge that no other edge uses are removed after it.
-/

namespace RosheraCad

def Loop.removeEdge (l : Loop) (index : ℕ) : Loop :=
  { l with edges := l.edges.eraseIdx index, orientations := l.orientations.eraseIdx index }

namespace Delete

variable {D : ModelData}

def affectedLoops (m : KernelModel D) (edgeId : ℕ) : List ℕ :=
  (m.loops.iter.filter fun e ↦ e.2.edges.contains edgeId).map Prod.fst

def affectedFaces (m : KernelModel D) (loopId : ℕ) : List ℕ :=
  (m.faces.iter.filter fun e ↦
    e.2.outerLoop == loopId || e.2.innerLoops.contains loopId).map Prod.fst

def dropEdge (edgeId : ℕ) (l : Loop) : Loop :=
  match l.edges.idxOf? edgeId with
  | some index => l.removeEdge index
  | none => l

def handleLoop (edgeId : ℕ) (cascade : Bool) (acc : KernelModel D × List Entity) (loopId : ℕ) :
    KernelModel D × List Entity :=
  if cascade then
    let m := deleteEntity acc.1 (.loop, loopId)
    (m, acc.2 ++ (.loop, loopId) :: (affectedFaces m loopId).map (.face, ·))
  else
    ({ acc.1 with loops := acc.1.loops.modify loopId (dropEdge edgeId) }, acc.2)

def removeOrphan (acc : KernelModel D × List Entity) (vertex : ℕ) : KernelModel D × List Entity :=
  if isVertexUsed acc.1.toBRepModel vertex then acc
  else (deleteEntity acc.1 (.vertex, vertex), acc.2 ++ [(.vertex, vertex)])

def deleteEdgeBody (edgeId : ℕ) (options : DeleteOptions) :
    KernelOp D OperationError DeleteResult :=
  fun w ↦
    let primary := [(.edge, edgeId)]
    let handled := (affectedLoops w.model edgeId).foldl (handleLoop edgeId options.cascade)
      (w.model, [])
    if options.deleteOrphans then
      match handled.1.edges.get edgeId with
      | none =>
        (.error (.invalidInput "edge_id" "existing edge" (toString edgeId)),
          { w with model := handled.1 })
      | some edge =>
        let orphans := edge.vertices.foldl removeOrphan (deleteEntity handled.1 (.edge, edgeId), [])
        (.ok
          { deletedPrimary := primary
            deletedCascade := handled.2
            deletedOrphans := orphans.2
            healedEntities := []
            totalDeleted := primary.length + handled.2.length + orphans.2.length },
          { w with model := orphans.1 })
    else
      (.ok
        { deletedPrimary := primary
          deletedCascade := handled.2
          deletedOrphans := []
          healedEntities := []
          totalDeleted := primary.length + handled.2.length },
        { w with model := deleteEntity handled.1 (.edge, edgeId) })

def deleteEdge (edgeId : ℕ) (options : DeleteOptions) : KernelOp D OperationError DeleteResult :=
  fun w ↦
    match if options.validateBefore then validateCanApply w.model else .ok () with
    | .error e => (.error e, w)
    | .ok () => withRollback (deleteEdgeBody edgeId options) w

theorem deleteEdge_eq (edgeId : ℕ) (options : DeleteOptions) (w : World D) :
    deleteEdge edgeId options w = withRollback (deleteEdgeBody edgeId options) w := by
  rw [deleteEdge]
  cases options.validateBefore <;> rfl

/-! ## What is removed and what is reported -/

section Steps

variable {m : KernelModel D} {edgeId : ℕ} {edge : Edge} {options : DeleteOptions}

theorem mem_affectedLoops {l : ℕ} :
    l ∈ affectedLoops m edgeId ↔ ∃ loop, m.loops.get l = some loop ∧ edgeId ∈ loop.edges := by
  simp only [affectedLoops, List.mem_map, List.mem_filter, List.contains_iff_mem]
  constructor
  · rintro ⟨⟨i, loop⟩, ⟨hmem, hedge⟩, rfl⟩
    exact ⟨loop, IdStore.mem_iter.mp hmem, hedge⟩
  · rintro ⟨loop, hloop, hedge⟩
    exact ⟨(l, loop), ⟨IdStore.mem_iter.mpr hloop, hedge⟩, rfl⟩

theorem nodup_affectedLoops : (affectedLoops m edgeId).Nodup :=
  m.loops.nodup_iter.sublist (List.filter_sublist.map _)

theorem mem_affectedFaces {loopId f : ℕ} :
    f ∈ affectedFaces m loopId ↔ ∃ face, m.faces.get f = some face ∧ loopId ∈ face.loops := by
  simp only [affectedFaces, List.mem_map, List.mem_filter, Bool.or_eq_true, beq_iff_eq,
    List.contains_iff_mem]
  constructor
  · rintro ⟨⟨i, face⟩, ⟨hmem, hloop⟩, rfl⟩
    exact ⟨face, IdStore.mem_iter.mp hmem, List.mem_cons.mpr (hloop.imp_left Eq.symm)⟩
  · rintro ⟨face, hface, hloop⟩
    exact ⟨(f, face), ⟨IdStore.mem_iter.mpr hface, (List.mem_cons.mp hloop).imp_left Eq.symm⟩, rfl⟩

theorem foldl_handleLoop_cascade (edgeId : ℕ) (ids : List ℕ) (m : KernelModel D)
    (es : List Entity) :
    ids.foldl (handleLoop edgeId true) (m, es) =
      ((ids.map (EntityType.loop, ·)).foldl deleteEntity m,
        es ++ ids.flatMap fun l ↦ (.loop, l) :: (affectedFaces m l).map (.face, ·)) := by
  induction ids generalizing m es with
  | nil => simp
  | cons l ids ih =>
    have hfaces : ∀ l', affectedFaces (deleteEntity m (.loop, l)) l' = affectedFaces m l' :=
      fun _ ↦ rfl
    rw [List.foldl_cons, handleLoop, if_pos rfl, ih]
    simp only [hfaces, List.flatMap_cons, List.map_cons, List.foldl_cons, List.append_assoc]

theorem foldl_handleLoop_drop (edgeId : ℕ) (ids : List ℕ) (m : KernelModel D)
    (es : List Entity) :
    ids.foldl (handleLoop edgeId false) (m, es) =
      ({ m with loops := ids.foldl (fun s id ↦ s.modify id (dropEdge edgeId)) m.loops }, es) := by
  induction ids generalizing m with
  | nil => rfl
  | cons l ids ih =>
    rw [List.foldl_cons, handleLoop, if_neg Bool.false_ne_true, ih]
    rfl

theorem foldl_removeOrphan (vertices : List ℕ) (m : KernelModel D) (es : List Entity) :
    vertices.foldl removeOrphan (m, es) =
      (((vertices.filter (!isVertexUsed m.toBRepModel ·)).map (EntityType.vertex, ·)).foldl
          deleteEntity m,
        es ++ (vertices.filter (!isVertexUsed m.toBRepModel ·)).map (.vertex, ·)) := by
  induction vertices generalizing m es with
  | nil => simp
  | cons v vertices ih =>
    have hused : ∀ v', isVertexUsed (deleteEntity m (.vertex, v)).toBRepModel v' =
        isVertexUsed m.toBRepModel v' := fun _ ↦ rfl
    rw [List.foldl_cons, removeOrphan]
    rcases hv : isVertexUsed m.toBRepModel v with _ | _
    · simp [ih, hused, hv]
    · simp [ih, hv]

def orphanedVertices (m : KernelModel D) (edgeId : ℕ) (edge : Edge) (options : DeleteOptions) :
    List ℕ :=
  if options.deleteOrphans then
    edge.vertices.filter (!isVertexUsed (deleteEntity m (.edge, edgeId)).toBRepModel ·)
  else []

def removedLoops (m : KernelModel D) (edgeId : ℕ) (options : DeleteOptions) : List ℕ :=
  if options.cascade then affectedLoops m edgeId else []

def removedEntities (m : KernelModel D) (edgeId : ℕ) (edge : Edge) (options : DeleteOptions) :
    List Entity :=
  (removedLoops m edgeId options).map (.loop, ·) ++
    (.edge, edgeId) :: (orphanedVertices m edgeId edge options).map (.vertex, ·)

def listedFaces (m : KernelModel D) (edgeId : ℕ) (options : DeleteOptions) : List Entity :=
  (removedLoops m edgeId options).flatMap fun l ↦ (affectedFaces m l).map (.face, ·)

structure Handled (m m' : KernelModel D) (edgeId : ℕ) (options : DeleteOptions) : Prop where
  edges : m'.edges = m.edges
  entity : ∀ x, x.1 ≠ .loop ∨ options.cascade = true → m'.toBRepModel.entity x =
    if x ∈ (removedLoops m edgeId options).map (.loop, ·) then none else m.toBRepModel.entity x
  loop : options.cascade = false →
    ∀ l, m'.loops.get l = (m.loops.get l).map (dropEdge edgeId)

theorem edges_foldl_deleteEntity (ids : List ℕ) (m : KernelModel D) :
    ((ids.map (EntityType.loop, ·)).foldl deleteEntity m).edges = m.edges := by
  induction ids generalizing m with
  | nil => rfl
  | cons l ids ih =>
    rw [List.map_cons, List.foldl_cons, ih]
    rfl

theorem dropEdge_of_not_mem {l : Loop} (h : edgeId ∉ l.edges) : dropEdge edgeId l = l := by
  rw [dropEdge, List.idxOf?_eq_none_iff.mpr h]

theorem edges_dropEdge (l : Loop) : (dropEdge edgeId l).edges = l.edges.erase edgeId := by
  rw [dropEdge, List.erase_eq_eraseIdx]
  cases l.edges.idxOf? edgeId <;> rfl

theorem exists_handled (m : KernelModel D) (edgeId : ℕ) (options : DeleteOptions) :
    ∃ m' es, (affectedLoops m edgeId).foldl (handleLoop edgeId options.cascade) (m, []) =
        (m', es) ∧ Handled m m' edgeId options ∧
      es.Perm ((removedLoops m edgeId options).map (.loop, ·) ++ listedFaces m edgeId options) := by
  rcases hcascade : options.cascade with _ | _
  · refine ⟨_, _, foldl_handleLoop_drop .., ⟨rfl, fun x hx ↦ ?_, fun _ l ↦ ?_⟩, ?_⟩
    · obtain hx : x.1 ≠ .loop := hx.resolve_right (by simp [hcascade])
      obtain ⟨t, id⟩ := x
      rcases t with _ | _ | _ | _ | _ | _
      case loop => contradiction
      all_goals simp [removedLoops, hcascade, BRepModel.entity]
    · rw [IdStore.get_foldl_modify nodup_affectedLoops]
      by_cases hl : l ∈ affectedLoops m edgeId
      · rw [if_pos hl]
      · rw [if_neg hl]
        rcases hget : m.loops.get l with - | loop
        · rfl
        · -- A loop that is not affected does not list the edge.
          have hnot : edgeId ∉ loop.edges :=
            fun hmem ↦ hl (mem_affectedLoops.mpr ⟨loop, hget, hmem⟩)
          rw [Option.map_some, dropEdge_of_not_mem hnot]
    · simp [removedLoops, listedFaces, hcascade]
  · refine ⟨_, _, foldl_handleLoop_cascade .., ⟨edges_foldl_deleteEntity _ _, fun x _ ↦ ?_, ?_⟩, ?_⟩
    · rw [removedLoops, hcascade, if_pos rfl]
      exact (Removes.entity_foldl (fun _ _ ↦ rfl) _ m).1 x
    · simp [hcascade]
    · rw [listedFaces, removedLoops, hcascade, if_pos rfl, List.nil_append]
      exact (List.map_append_flatMap_perm _ _ _).symm

structure DeletesEdge (m m' : KernelModel D) (edgeId : ℕ) (edge : Edge) (options : DeleteOptions)
    (reported : List Entity) : Prop where
  entity : ∀ x, x.1 ≠ .loop ∨ options.cascade = true → m'.toBRepModel.entity x =
    if x ∈ removedEntities m edgeId edge options then none else m.toBRepModel.entity x
  loop : options.cascade = false →
    ∀ l, m'.loops.get l = (m.loops.get l).map (dropEdge edgeId)
  reported : reported.Perm (removedEntities m edgeId edge options ++ listedFaces m edgeId options)

def DeleteResult.reported (out : DeleteResult) : List Entity :=
  out.deletedPrimary ++ out.deletedCascade ++ out.deletedOrphans

theorem DeletesEdge.of_handled {m m₁ : KernelModel D} {es vertices : List Entity}
    (h : Handled m m₁ edgeId options)
    (hes : es.Perm
      ((removedLoops m edgeId options).map (.loop, ·) ++ listedFaces m edgeId options))
    (hvertices : vertices = (orphanedVertices m edgeId edge options).map (.vertex, ·)) :
    DeletesEdge m (((EntityType.edge, edgeId) :: vertices).foldl deleteEntity m₁) edgeId edge
      options ((.edge, edgeId) :: es ++ vertices) where
  entity x hx := by
    rw [(Removes.entity_foldl (fun _ _ ↦ rfl) _ m₁).1 x, h.entity x hx, removedEntities,
      ← hvertices]
    simp only [List.mem_append]
    by_cases hgone : x ∈ (EntityType.edge, edgeId) :: vertices
    · simp only [hgone, or_true, if_true]
    · simp only [hgone, or_false, if_false]
  loop hcascade l := by
    rw [← h.loop hcascade l]
    have hentity := (Removes.entity_foldl (f := deleteEntity) (fun _ _ ↦ rfl)
      ((EntityType.edge, edgeId) :: vertices) m₁).1 (.loop, l)
    rw [if_neg (by simp [hvertices])] at hentity
    exact Option.map_injective (fun _ _ ↦ EntityRecord.loop.inj) hentity
  reported := by
    rw [removedEntities, ← hvertices, List.cons_append]
    refine (List.perm_append_comm.cons _).trans ?_
    rw [← List.cons_append]
    refine (hes.append_left _).trans ?_
    rw [← List.append_assoc]
    exact List.perm_append_comm.append_right _

theorem exists_deleteEdge {w : World D} (hedge : w.model.edges.get edgeId = some edge)
    (options : DeleteOptions) :
    ∃ out w', deleteEdge edgeId options w = (.ok out, w') ∧
      DeletesEdge w.model w'.model edgeId edge options out.reported := by
  have hbegin : w.beginPendingRecord.model = w.model := w.model_callRecorder _
  obtain ⟨m₁, es, hloops, hhandled, hes⟩ := exists_handled w.model edgeId options
  have hget : m₁.edges.get edgeId = some edge := by rw [hhandled.edges, hedge]
  have hused : ∀ v, isVertexUsed (deleteEntity m₁ (.edge, edgeId)).toBRepModel v =
      isVertexUsed (deleteEntity w.model (.edge, edgeId)).toBRepModel v := by
    intro v
    simp only [isVertexUsed, deleteEntity, BRepModel.deleteEntity, hhandled.edges]
  rw [deleteEdge_eq]
  rcases horphans : options.deleteOrphans with _ | _
  · have hbody : deleteEdgeBody edgeId options w.beginPendingRecord =
        (.ok ⟨[(.edge, edgeId)], es, [], [], 1 + es.length⟩,
          { w.beginPendingRecord with model := deleteEntity m₁ (.edge, edgeId) }) := by
      simp [deleteEdgeBody, hbegin, hloops, horphans]
    obtain ⟨w', hdelete, hmodel⟩ := withRollback_of_ok hbody
    refine ⟨_, w', hdelete, ?_⟩
    have hnone : ([] : List Entity) =
        (orphanedVertices w.model edgeId edge options).map (.vertex, ·) := by
      simp [orphanedVertices, horphans]
    rw [hmodel]
    exact .of_handled hhandled hes hnone
  · have hbody : ∃ total, deleteEdgeBody edgeId options w.beginPendingRecord =
        (.ok ⟨[(.edge, edgeId)], es,
            (orphanedVertices w.model edgeId edge options).map (.vertex, ·), [], total⟩,
          { w.beginPendingRecord with model :=
            ((.edge, edgeId) :: (orphanedVertices w.model edgeId edge options).map
              (EntityType.vertex, ·)).foldl deleteEntity m₁ }) := by
      simp [deleteEdgeBody, hbegin, hloops, horphans, hget, foldl_removeOrphan, hused,
        orphanedVertices]
    obtain ⟨total, hbody⟩ := hbody
    obtain ⟨w', hdelete, hmodel⟩ := withRollback_of_ok hbody
    refine ⟨_, w', hdelete, ?_⟩
    rw [hmodel]
    exact .of_handled hhandled hes rfl

end Steps

/-! ## Exactness -/

/-- What a deletion reports is what it removed, and nothing left refers to any of it. -/
structure ReportsRemoved (m m' : KernelModel D) (reported : List Entity) : Prop where
  mem_iff : ∀ x, x ∈ reported ↔ m.Has x ∧ ¬ m'.Has x
  nodup : reported.Nodup
  kept : ∀ x r, m'.toBRepModel.entity x = some r → x.1 = .loop ∨ x.1 = .face ∨ x.1 = .shell →
    ∀ y ∈ r.refs, m.Has y → m'.Has y

/-- When a deletion of an edge is exact: the options meet no face, no seam and no free ring. -/
structure DeletesCleanly (m : KernelModel D) (edgeId : ℕ) (edge : Edge) (options : DeleteOptions) :
    Prop where
  noFace : options.cascade = true → ∀ l loop, m.loops.get l = some loop → edgeId ∈ loop.edges →
    isLoopUsed m.toBRepModel l = false
  noSeam : options.cascade = false → ∀ l loop, m.loops.get l = some loop →
    loop.edges.count edgeId ≤ 1
  noRing : options.deleteOrphans = true → edge.startVertex = edge.endVertex →
    ∃ id other, id ≠ edgeId ∧ m.edges.get id = some other ∧ edge.startVertex ∈ other.vertices

section Exact

variable {m m' : KernelModel D} {edgeId : ℕ} {edge : Edge} {options : DeleteOptions}
  {reported : List Entity}

theorem isVertexUsed_deleteEdge_iff {v : ℕ} :
    isVertexUsed (deleteEntity m (.edge, edgeId)).toBRepModel v = true ↔
      ∃ id other, id ≠ edgeId ∧ m.edges.get id = some other ∧ v ∈ other.vertices := by
  rw [isVertexUsed, isListed_iff]
  refine exists_congr fun id ↦ exists_congr fun other ↦ ?_
  simp only [deleteEntity, BRepModel.deleteEntity, IdStore.get_remove]
  by_cases hid : id = edgeId
  · simp [hid]
  · simp [hid]

theorem mem_removedEntities {x : Entity} :
    x ∈ removedEntities m edgeId edge options ↔
      (x.1 = .loop ∧ x.2 ∈ removedLoops m edgeId options) ∨ x = (.edge, edgeId) ∨
        (x.1 = .vertex ∧ x.2 ∈ orphanedVertices m edgeId edge options) := by
  obtain ⟨t, id⟩ := x
  simp only [removedEntities, List.mem_append, List.mem_map, List.mem_cons, Prod.mk.injEq]
  constructor
  · rintro (⟨l, hl, rfl, rfl⟩ | h | ⟨v, hv, rfl, rfl⟩)
    · exact Or.inl ⟨rfl, hl⟩
    · exact Or.inr (Or.inl h)
    · exact Or.inr (Or.inr ⟨rfl, hv⟩)
  · rintro (⟨rfl, hl⟩ | h | ⟨rfl, hv⟩)
    · exact Or.inl ⟨id, hl, rfl, rfl⟩
    · exact Or.inr (Or.inl h)
    · exact Or.inr (Or.inr ⟨id, hv, rfl, rfl⟩)

theorem has_of_mem_removedEntities (hm : m.RefsIntact) (hedge : m.edges.get edgeId = some edge)
    {x : Entity} (hx : x ∈ removedEntities m edgeId edge options) : m.Has x := by
  have hthere : m.toBRepModel.entity (.edge, edgeId) = some (.edge edge) := by
    rw [BRepModel.entity, hedge]
    rfl
  obtain ⟨t, id⟩ := x
  rcases mem_removedEntities.mp hx with ⟨htype, hl⟩ | hx | ⟨htype, hv⟩
  · obtain rfl : t = .loop := htype
    have hl : id ∈ affectedLoops m edgeId := by
      rw [removedLoops] at hl
      split at hl
      · exact hl
      · exact absurd hl List.not_mem_nil
    obtain ⟨loop, hloop, -⟩ := mem_affectedLoops.mp hl
    exact ⟨.loop loop, by rw [BRepModel.entity, hloop]; rfl⟩
  · rw [hx]
    exact ⟨_, hthere⟩
  · obtain rfl : t = .vertex := htype
    rw [orphanedVertices] at hv
    split at hv
    · exact hm.entities _ _ hthere _ (List.mem_map_of_mem (List.mem_of_mem_filter hv))
    · exact absurd hv List.not_mem_nil

theorem DeletesEdge.has_iff (h : DeletesEdge m m' edgeId edge options reported) (x : Entity) :
    m'.Has x ↔ m.Has x ∧ x ∉ removedEntities m edgeId edge options := by
  by_cases hx : x.1 ≠ .loop ∨ options.cascade = true
  · rw [BRepModel.Has, h.entity x hx]
    by_cases hgone : x ∈ removedEntities m edgeId edge options
    · simp [hgone]
    · simp [hgone, BRepModel.Has]
  · obtain ⟨hloop, hcascade⟩ := not_or.mp hx
    obtain ⟨t, l⟩ := x
    obtain rfl : t = .loop := not_not.mp hloop
    have hkept : (EntityType.loop, l) ∉ removedEntities m edgeId edge options := by
      simp [mem_removedEntities, removedLoops, hcascade]
    rw [BRepModel.Has, BRepModel.entity, h.loop (by simpa using hcascade)]
    simp only [hkept, not_false_eq_true, and_true, BRepModel.Has, BRepModel.entity,
      Option.map_eq_some_iff]
    constructor
    · rintro ⟨r, loop', ⟨loop, hloop, -⟩, -⟩
      exact ⟨.loop loop, loop, hloop, rfl⟩
    · rintro ⟨r, loop, hloop, -⟩
      exact ⟨.loop _, _, ⟨loop, hloop, rfl⟩, rfl⟩

theorem noFace_of_reports (h : DeletesEdge m m' edgeId edge options reported)
    (hreports : ReportsRemoved m m' reported) (hcascade : options.cascade = true) {l : ℕ}
    {loop : Loop} (hloop : m.loops.get l = some loop) (hmem : edgeId ∈ loop.edges) :
    isLoopUsed m.toBRepModel l = false := by
  rw [Bool.eq_false_iff]
  intro hused
  obtain ⟨f, face, hface, hl⟩ := isListed_iff.mp hused
  -- The face is in the report, and nothing removed it.
  have hlisted : (EntityType.face, f) ∈ listedFaces m edgeId options := by
    rw [listedFaces, removedLoops, if_pos hcascade]
    exact List.mem_flatMap.mpr ⟨l, mem_affectedLoops.mpr ⟨loop, hloop, hmem⟩,
      List.mem_map_of_mem (mem_affectedFaces.mpr ⟨face, hface, hl⟩)⟩
  have hgone := (hreports.mem_iff _).mp (h.reported.mem_iff.mpr (List.mem_append_right _ hlisted))
  refine hgone.2 ((h.has_iff _).mpr ⟨hgone.1, fun hremoved ↦ ?_⟩)
  simp [mem_removedEntities] at hremoved

theorem noSeam_of_reports (hedge : m.edges.get edgeId = some edge)
    (h : DeletesEdge m m' edgeId edge options reported) (hreports : ReportsRemoved m m' reported)
    (hcascade : options.cascade = false) {l : ℕ} {loop : Loop}
    (hloop : m.loops.get l = some loop) : loop.edges.count edgeId ≤ 1 := by
  by_contra hcount
  -- A second place of the edge is left in the loop.
  have hmem : edgeId ∈ (dropEdge edgeId loop).edges := by
    rw [edges_dropEdge, ← List.count_pos_iff, List.count_erase_self]
    omega
  have hleft : m'.toBRepModel.entity (.loop, l) = some (.loop (dropEdge edgeId loop)) := by
    rw [BRepModel.entity, h.loop hcascade, hloop]
    rfl
  have hhas : m.Has (.edge, edgeId) := ⟨.edge edge, by rw [BRepModel.entity, hedge]; rfl⟩
  have hkept := hreports.kept _ _ hleft (Or.inl rfl) _ (List.mem_map_of_mem hmem) hhas
  exact ((h.has_iff _).mp hkept).2 (mem_removedEntities.mpr (Or.inr (Or.inl rfl)))

theorem noRing_of_reports (h : DeletesEdge m m' edgeId edge options reported)
    (hreports : ReportsRemoved m m' reported) (horphans : options.deleteOrphans = true)
    (hclosed : edge.startVertex = edge.endVertex) :
    ∃ id other, id ≠ edgeId ∧ m.edges.get id = some other ∧ edge.startVertex ∈ other.vertices := by
  rw [← isVertexUsed_deleteEdge_iff]
  by_contra hused
  have hunused := Bool.eq_false_iff.mpr hused
  -- Both tests of the one vertex find it unused.
  have htwice : orphanedVertices m edgeId edge options = [edge.startVertex, edge.startVertex] := by
    rw [orphanedVertices, if_pos horphans, Edge.vertices, ← hclosed]
    simp [hunused]
  have hnodup := h.reported.nodup_iff.mp hreports.nodup
  rw [removedEntities, htwice] at hnodup
  have htail := (List.nodup_append'.mp (List.nodup_append'.mp hnodup).1).2.1.of_cons
  simp at htail

theorem reportsRemoved_of_cleanly (hm : m.RefsIntact) (hedge : m.edges.get edgeId = some edge)
    (h : DeletesEdge m m' edgeId edge options reported)
    (hclean : DeletesCleanly m edgeId edge options) : ReportsRemoved m m' reported := by
  have hfaces : listedFaces m edgeId options = [] := by
    rw [listedFaces, List.flatMap_eq_nil_iff]
    intro l hl
    rw [List.map_eq_nil_iff, List.eq_nil_iff_forall_not_mem]
    intro f hf
    rw [removedLoops] at hl
    split at hl
    case isTrue hcascade =>
      obtain ⟨loop, hloop, hmem⟩ := mem_affectedLoops.mp hl
      have hused := isListed_iff.mpr ⟨f, mem_affectedFaces.mp hf⟩
      have hunused := hclean.noFace hcascade l loop hloop hmem
      rw [isLoopUsed, hused] at hunused
      cases hunused
    case isFalse => exact absurd hl List.not_mem_nil
  have hreported := h.reported
  rw [hfaces, List.append_nil] at hreported
  refine ⟨fun x ↦ ?_, hreported.nodup_iff.mpr ?_, ?_⟩
  · rw [hreported.mem_iff, h.has_iff, not_and, not_not]
    exact ⟨fun hx ↦ ⟨has_of_mem_removedEntities hm hedge hx, fun _ ↦ hx⟩, fun hx ↦ hx.2 hx.1⟩
  · have hvertices : (orphanedVertices m edgeId edge options).Nodup := by
      rw [orphanedVertices]
      split
      case isTrue horphans =>
        by_cases hclosed : edge.startVertex = edge.endVertex
        · have hused := isVertexUsed_deleteEdge_iff.mpr (hclean.noRing horphans hclosed)
          simp [Edge.vertices, ← hclosed, hused]
        · exact (List.nodup_cons.mpr ⟨by simpa using hclosed, List.nodup_singleton _⟩).filter _
      case isFalse => exact List.nodup_nil
    have hloops : (removedLoops m edgeId options).Nodup := by
      rw [removedLoops]
      split
      · exact nodup_affectedLoops
      · exact List.nodup_nil
    rw [removedEntities, List.nodup_append']
    refine ⟨hloops.map (Prod.mk_right_injective _),
      List.nodup_cons.mpr ⟨by simp, hvertices.map (Prod.mk_right_injective _)⟩, ?_⟩
    intro x hx hx'
    obtain ⟨l, -, rfl⟩ := List.mem_map.mp hx
    simp at hx'
  · rintro ⟨t, id⟩ r hr htype y hy hhas
    refine (h.has_iff y).mpr ⟨hhas, fun hgone ↦ ?_⟩
    have hindex := r.index_of_mem_refs hy
    rw [BRepModel.type_of_entity hr] at hindex
    rcases htype with rfl | rfl | rfl
    · -- A loop that is left does not run through the edge.
      obtain ⟨loop, hloop, rfl⟩ := Option.map_eq_some_iff.mp hr
      obtain ⟨e, he, rfl⟩ := List.mem_map.mp hy
      obtain rfl : e = edgeId := by simpa [mem_removedEntities] using hgone
      rcases hcascade : options.cascade with _ | _
      · rw [h.loop hcascade] at hloop
        obtain ⟨loop₀, hloop₀, rfl⟩ := Option.map_eq_some_iff.mp hloop
        rw [edges_dropEdge, ← List.count_pos_iff, List.count_erase_self] at he
        have hcount := hclean.noSeam hcascade id loop₀ hloop₀
        omega
      · have hleft := (h.has_iff (.loop, id)).mp ⟨_, hr⟩
        have hold := h.entity (.loop, id) (Or.inr hcascade)
        rw [if_neg hleft.2, hr] at hold
        obtain ⟨loop', hloop', heq⟩ := Option.map_eq_some_iff.mp hold.symm
        obtain rfl := EntityRecord.loop.inj heq
        refine hleft.2 (mem_removedEntities.mpr (Or.inl ⟨rfl, ?_⟩))
        rw [removedLoops, if_pos hcascade]
        exact mem_affectedLoops.mpr ⟨loop', hloop', he⟩
    · -- A face that is left has no loop through the edge, or the loops are all left.
      have hold := h.entity (.face, id) (Or.inl (by simp))
      rw [if_neg ((h.has_iff (.face, id)).mp ⟨_, hr⟩).2, hr] at hold
      obtain ⟨face, hface, rfl⟩ := Option.map_eq_some_iff.mp hold.symm
      obtain ⟨l, hl, rfl⟩ := List.mem_map.mp hy
      have hlisted : (EntityType.face, id) ∈ listedFaces m edgeId options :=
        List.mem_flatMap.mpr ⟨l, by simpa [mem_removedEntities] using hgone,
          List.mem_map_of_mem (mem_affectedFaces.mpr ⟨face, hface, hl⟩)⟩
      rw [hfaces] at hlisted
      exact absurd hlisted List.not_mem_nil
    · obtain ⟨shell, -, rfl⟩ := Option.map_eq_some_iff.mp hr
      obtain ⟨f, -, rfl⟩ := List.mem_map.mp hy
      simp [mem_removedEntities] at hgone

/-- **Deleting a live edge is exact** just when the options meet no face, no seam and no free
ring. -/
theorem deleteEdge_reportsRemoved_iff (w : World D) (edgeId : ℕ) (edge : Edge)
    (options : DeleteOptions) (hm : w.model.RefsIntact)
    (hedge : w.model.edges.get edgeId = some edge) :
    (∀ out w', deleteEdge edgeId options w = (.ok out, w') →
        ReportsRemoved w.model w'.model out.reported) ↔
      DeletesCleanly w.model edgeId edge options := by
  obtain ⟨out, left, hdelete, hdeletes⟩ := exists_deleteEdge hedge options
  constructor
  · intro h
    have hreports := h out left hdelete
    exact ⟨fun hcascade _ _ hloop hmem ↦ noFace_of_reports hdeletes hreports hcascade hloop hmem,
      fun hcascade _ _ hloop ↦ noSeam_of_reports hedge hdeletes hreports hcascade hloop,
      fun horphans hclosed ↦ noRing_of_reports hdeletes hreports horphans hclosed⟩
  · intro hclean out' w' heq
    obtain ⟨hout, rfl⟩ := Prod.mk.inj (hdelete.symm.trans heq)
    rw [← Except.ok.inj hout]
    exact reportsRemoved_of_cleanly hm hedge hdeletes hclean

end Exact

/-- Taking an edge out of a loop that lists it once is exact. -/
theorem deleteEdge_reportsRemoved_iff_oneSolid : ∃ out w',
    deleteEdge 0 { cascade := false, deleteOrphans := false } oneSolid = (.ok out, w') ∧
      ReportsRemoved oneSolid.model w'.model out.reported := by
  have hedge : oneSolid.model.edges.get 0 = some ⟨0, 0, 0, .forward, (0, 0)⟩ := rfl
  obtain ⟨out, w', hdelete, -⟩ :=
    exists_deleteEdge hedge { cascade := false, deleteOrphans := false }
  have hexact := (deleteEdge_reportsRemoved_iff oneSolid 0 _
    { cascade := false, deleteOrphans := false }
    (BRepModel.intact_oneFace (by simp) (by simp)) hedge).mpr
    { noFace := fun h ↦ by cases h
      noSeam := fun _ l loop hloop ↦ by
        obtain ⟨-, rfl⟩ := IdStore.get_single.mp hloop
        decide
      noRing := fun h ↦ by cases h }
  exact ⟨out, w', hdelete, hexact out w' hdelete⟩

/-- **A face is reported that is still there**, and the vertex of the closed edge twice. -/
theorem not_deleteEdge_reportsRemoved :
    (∃ out w', deleteEdge 0 {} oneSolid = (.ok out, w') ∧
      out.reported = [(.edge, 0), (.loop, 0), (.face, 0), (.vertex, 0), (.vertex, 0)] ∧
      w'.model.Has (.face, 0)) ∧
      ¬ ∀ (w : World exampleData) (edgeId : ℕ) (edge : Edge) (options : DeleteOptions),
        w.model.RefsIntact → w.model.edges.get edgeId = some edge →
          ∀ out w', deleteEdge edgeId options w = (.ok out, w') →
            ReportsRemoved w.model w'.model out.reported := by
  have hout : ∃ out w', deleteEdge 0 {} oneSolid = (.ok out, w') ∧
      out.reported = [(.edge, 0), (.loop, 0), (.face, 0), (.vertex, 0), (.vertex, 0)] ∧
      w'.model.Has (.face, 0) := ⟨_, _, rfl, by decide, _, rfl⟩
  refine ⟨hout, fun h ↦ ?_⟩
  obtain ⟨out, w', hdelete, hlist, -⟩ := hout
  have hreports := h oneSolid 0 ⟨0, 0, 0, .forward, (0, 0)⟩ {}
    (BRepModel.intact_oneFace (by simp) (by simp)) rfl out w' hdelete
  have hnodup := hreports.nodup
  rw [hlist] at hnodup
  exact absurd hnodup (by decide)

end Delete

end RosheraCad
