import RosheraCad.Brep.Snapshot

/-!
# The snapshot round trip

A rebuilt model is compared with the original under a renaming of ids for each kind of entity. The
round trip is one for the models whose references all resolve and whose solids have no peer bodies,
which rebuilding never reads.
-/

namespace RosheraCad

open IdStore CurveCodec SurfaceCodec

variable {Curve Surface CurveData SurfaceData : Type}

/-! ## Isomorphic models -/

def SameVertex (vertex vertex' : Vertex) : Prop :=
  vertex'.position = vertex.position ∧ vertex'.tolerance = vertex.tolerance

structure SameEdge (vertexIds curveIds : ℕ → ℕ) (edge edge' : Edge) : Prop where
  startVertex : edge'.startVertex = vertexIds edge.startVertex
  endVertex : edge'.endVertex = vertexIds edge.endVertex
  curveId : edge'.curveId = curveIds edge.curveId
  orientation : edge'.orientation = edge.orientation

structure SameLoop (edgeIds : ℕ → ℕ) (l l' : Loop) : Prop where
  edges : l'.edges = l.edges.map edgeIds
  orientations : l'.orientations = l.orientations

structure SameFace (surfaceIds loopIds : ℕ → ℕ) (face face' : Face) : Prop where
  surfaceId : face'.surfaceId = surfaceIds face.surfaceId
  outerLoop : face'.outerLoop = loopIds face.outerLoop
  innerLoops : face'.innerLoops = face.innerLoops.map loopIds
  orientation : face'.orientation = face.orientation

def SameShell (faceIds : ℕ → ℕ) (shell shell' : Shell) : Prop :=
  shell'.faces = shell.faces.map faceIds

/-- The same outer shell, void shells and peer bodies. -/
structure SameSolid (shellIds : ℕ → ℕ) (solid solid' : Solid) : Prop where
  outerShell : solid'.outerShell = shellIds solid.outerShell
  innerShells : solid'.innerShells = solid.innerShells.map shellIds
  peerShells : solid'.peerShells = solid.peerShells.map shellIds

structure IdRenaming where
  vertices : ℕ → ℕ
  curves : ℕ → ℕ
  surfaces : ℕ → ℕ
  edges : ℕ → ℕ
  loops : ℕ → ℕ
  faces : ℕ → ℕ
  shells : ℕ → ℕ
  solids : ℕ → ℕ

/-- The renaming takes the first model to the second, with no entity lost, merged or duplicated. -/
structure IdRenaming.Relates (r : IdRenaming) (m m' : BRepModel Curve Surface) : Prop where
  vertices : Renames r.vertices SameVertex m.vertices m'.vertices
  curves : Renames r.curves (fun c c' ↦ c' = c) m.curves m'.curves
  surfaces : Renames r.surfaces (fun s s' ↦ s' = s) m.surfaces m'.surfaces
  edges : Renames r.edges (SameEdge r.vertices r.curves) m.edges m'.edges
  loops : Renames r.loops (SameLoop r.edges) m.loops m'.loops
  faces : Renames r.faces (SameFace r.surfaces r.loops) m.faces m'.faces
  shells : Renames r.shells (SameShell r.faces) m.shells m'.shells
  solids : Renames r.solids (SameSolid r.shells) m.solids m'.solids

/-- The models are the same under a renaming of ids per entity kind. -/
def Isomorphic (m m' : BRepModel Curve Surface) : Prop := ∃ r : IdRenaming, r.Relates m m'

/-- Every reference resolves, and a loop has one orientation flag for each edge. -/
structure BRepModel.Intact (m : BRepModel Curve Surface) : Prop where
  edges : ∀ id edge, m.edges.get id = some edge → m.vertices.Live edge.startVertex ∧
    m.vertices.Live edge.endVertex ∧ m.curves.Live edge.curveId
  loops : ∀ id l, m.loops.get id = some l →
    (∀ edge ∈ l.edges, m.edges.Live edge) ∧ l.orientations.length = l.edges.length
  faces : ∀ id face, m.faces.get id = some face → m.surfaces.Live face.surfaceId ∧
    m.loops.Live face.outerLoop ∧ ∀ l ∈ face.innerLoops, m.loops.Live l
  shells : ∀ id shell, m.shells.get id = some shell → ∀ face ∈ shell.faces, m.faces.Live face
  solids : ∀ id solid, m.solids.get id = some solid → m.shells.Live solid.outerShell ∧
    ∀ shell ∈ solid.innerShells, m.shells.Live shell

def BRepModel.NoPeers (m : BRepModel Curve Surface) : Prop :=
  ∀ id solid, m.solids.get id = some solid → solid.peerShells = []

section

variable [CurveCodec Curve CurveData] [SurfaceCodec Surface SurfaceData]

/-- The curve and surface payloads survive extraction and rebuilding. -/
structure BRepModel.PayloadsSurvive (m : BRepModel Curve Surface) : Prop where
  curves : ∀ id curve, m.curves.get id = some curve →
    buildCurveFromData (extractCurveData curve) = some curve
  surfaces : ∀ id surface, m.surfaces.get id = some surface →
    (extractSurfaceData surface).bind buildSurfaceFromData = some surface

/-! ## Translating references -/

def Numbered (ids : IdMap) (id : ℕ) : Prop := ∃ i, ids[idToUuid id]? = some i

def newId (ids : IdMap) : ℕ → ℕ := numberIn ids idToUuid

omit [CurveCodec Curve CurveData] [SurfaceCodec Surface SurfaceData] in
theorem Numbered.lookup_eq {ids : IdMap} {id : ℕ} (h : Numbered ids id) :
    ids[idToUuid id]? = some (newId ids id) := by
  obtain ⟨i, hi⟩ := h
  rw [newId, numberIn, hi, Option.getD_some]

theorem numbered_iff_live {α β γ : Type} {out : α → γ} {build : γ → Option β} {s : IdStore α}
    (hbuild : ∀ id a, s.get id = some a → ∃ b, build (out a) = some b) {id : ℕ} :
    Numbered (importAll build (listing idToUuid out s)).2 id ↔ s.Live id := by
  rw [Numbered, exists_number_iff idToUuid_injective, live_iff]
  constructor
  · rintro ⟨a, -, ha, -⟩
    exact ⟨a, ha⟩
  · rintro ⟨a, ha⟩
    obtain ⟨b, hb⟩ := hbuild id a ha
    exact ⟨a, b, ha, hb⟩

theorem filterMap_lookup_of_numbered {ids : IdMap} {refs : List ℕ}
    (h : ∀ id ∈ refs, Numbered ids id) :
    (refs.map idToUuid).filterMap (ids[·]?) = refs.map (newId ids) := by
  rw [List.filterMap_map, ← List.filterMap_eq_map]
  exact List.filterMap_congr fun id hid ↦ (h id hid).lookup_eq

theorem length_filterMap_lookup_le (ids : IdMap) (refs : List ℕ) :
    ((refs.map idToUuid).filterMap (ids[·]?)).length ≤ refs.length := by
  refine (List.length_filterMap_le _ _).trans ?_
  rw [List.length_map]

theorem numbered_of_length_filterMap {ids : IdMap} {refs : List ℕ}
    (h : ((refs.map idToUuid).filterMap (ids[·]?)).length = refs.length) :
    ∀ id ∈ refs, Numbered ids id := by
  intro id hid
  have hlength : (refs.map idToUuid).length = refs.length := List.length_map idToUuid
  rw [List.length_filterMap_eq_countP, ← hlength, List.countP_eq_length] at h
  exact Option.isSome_iff_exists.mp (h _ (List.mem_map.mpr ⟨id, hid, rfl⟩))

/-! ## What one entity is rebuilt into -/

theorem buildEdge_edgeData {vertexIds curveIds : IdMap} {edge : Edge}
    (hstart : Numbered vertexIds edge.startVertex) (hend : Numbered vertexIds edge.endVertex)
    (hcurve : Numbered curveIds edge.curveId) :
    ∃ edge', buildEdge vertexIds curveIds (edgeData edge) = some edge' ∧
      SameEdge (newId vertexIds) (newId curveIds) edge edge' := by
  have hbind : (some (idToUuid edge.curveId)).bind (curveIds[·]?) =
      some (newId curveIds edge.curveId) := hcurve.lookup_eq
  simp only [buildEdge, edgeData, hstart.lookup_eq, hend.lookup_eq, hbind]
  refine ⟨_, rfl, rfl, rfl, rfl, ?_⟩
  rcases edge with ⟨_, _, _, _ | _, _⟩ <;> rfl

theorem numbered_of_buildEdge {vertexIds curveIds : IdMap} {edge edge' : Edge}
    (h : buildEdge vertexIds curveIds (edgeData edge) = some edge') :
    Numbered vertexIds edge.startVertex ∧ Numbered vertexIds edge.endVertex ∧
      Numbered curveIds edge.curveId := by
  rw [buildEdge, edgeData] at h
  split at h
  · next hstart hend =>
    split at h
    · next hcurve => exact ⟨⟨_, hstart⟩, ⟨_, hend⟩, _, hcurve⟩
    · cases h
  · cases h

private theorem map_fst_zipIdx_filterMap {α β γ : Type} (f : α → Option β) (g : ℕ → γ)
    (l : List α) : (l.zipIdx.filterMap fun (a, i) ↦ (f a).map fun b ↦ (b, g i)).map Prod.fst =
      l.filterMap f := by
  conv_rhs => rw [← List.zipIdx_map_fst 0 l, List.filterMap_map]
  rw [List.map_filterMap]
  refine List.filterMap_congr fun e _ ↦ ?_
  rw [Option.map_map, Function.comp_apply]
  exact Option.map_id'

private theorem map_snd_zipIdx_filterMap {α β γ : Type} {f : α → Option β} {g : ℕ → γ}
    {l : List α} (h : ∀ a ∈ l, ∃ b, f a = some b) :
    (l.zipIdx.filterMap fun (a, i) ↦ (f a).map fun b ↦ (b, g i)).map Prod.snd =
      (List.range l.length).map g := by
  rw [List.map_filterMap, List.range_eq_range', ← List.zipIdx_map_snd 0 l, List.map_map,
    ← List.filterMap_eq_map]
  refine List.filterMap_congr fun ⟨a, i⟩ he ↦ ?_
  have hmem : a ∈ l := by
    rw [← List.zipIdx_map_fst 0 l]
    exact List.mem_map.mpr ⟨(a, i), he, rfl⟩
  obtain ⟨b, hb⟩ := h a hmem
  simp only [hb, Option.map_some, Function.comp_apply]

theorem edges_of_buildLoop {edgeIds : IdMap} {l l' : Loop}
    (h : buildLoop edgeIds (loopData l) = some l') :
    l'.edges = (l.edges.map idToUuid).filterMap (edgeIds[·]?) ∧
      l'.orientations.length = l'.edges.length := by
  cases h
  refine ⟨map_fst_zipIdx_filterMap (edgeIds[·]?) (fun i ↦ l.orientations.getD i true) _, ?_⟩
  rw [List.length_map, List.length_map]

theorem buildLoop_loopData {edgeIds : IdMap} {l : Loop}
    (hedges : ∀ edge ∈ l.edges, Numbered edgeIds edge)
    (horientations : l.orientations.length = l.edges.length) :
    ∃ l', buildLoop edgeIds (loopData l) = some l' ∧ SameLoop (newId edgeIds) l l' := by
  refine ⟨_, rfl, ?_, ?_⟩
  · exact (map_fst_zipIdx_filterMap (edgeIds[·]?) (fun i ↦ l.orientations.getD i true) _).trans
      (filterMap_lookup_of_numbered hedges)
  · refine (map_snd_zipIdx_filterMap (f := (edgeIds[·]?))
      (g := fun i ↦ l.orientations.getD i true) fun uuid huuid ↦ ?_).trans ?_
    · obtain ⟨edge, hedge, rfl⟩ := List.mem_map.mp huuid
      exact hedges edge hedge
    · refine List.ext_getElem? fun i ↦ ?_
      rw [loopData, List.length_map, ← horientations, List.getElem?_map]
      rcases Nat.lt_or_ge i l.orientations.length with hlt | hge
      · rw [List.getElem?_range hlt, List.getElem?_eq_getElem hlt, Option.map_some,
          List.getD_eq_getElem?_getD, List.getElem?_eq_getElem hlt, Option.getD_some]
      · rw [List.getElem?_eq_none hge, List.getElem?_eq_none, Option.map_none]
        rwa [List.length_range]

theorem buildFace_faceData {surfaceIds loopIds : IdMap} {face : Face}
    (hsurface : Numbered surfaceIds face.surfaceId) (houter : Numbered loopIds face.outerLoop)
    (hinner : ∀ l ∈ face.innerLoops, Numbered loopIds l) :
    ∃ face', buildFace surfaceIds loopIds (faceData face) = some face' ∧
      SameFace (newId surfaceIds) (newId loopIds) face face' := by
  have hsurface : (some (idToUuid face.surfaceId)).bind (surfaceIds[·]?) =
      some (newId surfaceIds face.surfaceId) := hsurface.lookup_eq
  have houter : (some (idToUuid face.outerLoop)).bind (loopIds[·]?) =
      some (newId loopIds face.outerLoop) := houter.lookup_eq
  simp only [buildFace, faceData, hsurface, houter]
  refine ⟨_, rfl, rfl, rfl, filterMap_lookup_of_numbered hinner, ?_⟩
  rcases face with ⟨_, _, _, _ | _⟩ <;> rfl

theorem numbered_of_buildFace {surfaceIds loopIds : IdMap} {face face' : Face}
    (h : buildFace surfaceIds loopIds (faceData face) = some face') :
    Numbered surfaceIds face.surfaceId ∧ Numbered loopIds face.outerLoop ∧
      face'.innerLoops = (face.innerLoops.map idToUuid).filterMap (loopIds[·]?) := by
  rw [buildFace, faceData] at h
  split at h
  · next hsurface =>
    split at h
    · next houter =>
      cases h
      exact ⟨⟨_, hsurface⟩, ⟨_, houter⟩, rfl⟩
    · cases h
  · cases h

theorem buildShell_shellData {faceIds : IdMap} {shell : Shell}
    (hfaces : ∀ face ∈ shell.faces, Numbered faceIds face) :
    ∃ shell', buildShell faceIds (shellData shell) = some shell' ∧
      SameShell (newId faceIds) shell shell' :=
  ⟨_, rfl, filterMap_lookup_of_numbered hfaces⟩

theorem buildSolid_solidData {shellIds : IdMap} {solid : Solid}
    (houter : Numbered shellIds solid.outerShell)
    (hinner : ∀ shell ∈ solid.innerShells, Numbered shellIds shell)
    (hpeers : solid.peerShells = []) :
    ∃ solid', buildSolid shellIds (solidData solid) = some solid' ∧
      SameSolid (newId shellIds) solid solid' := by
  have hnumbered : ∀ shell ∈ solid.outerShell :: solid.innerShells, Numbered shellIds shell :=
    List.forall_mem_cons.mpr ⟨houter, hinner⟩
  have hshells := filterMap_lookup_of_numbered hnumbered
  rw [List.map_cons, List.map_cons] at hshells
  rw [buildSolid, solidData, hshells]
  refine ⟨_, rfl, rfl, rfl, ?_⟩
  rw [hpeers]
  rfl

theorem shells_of_buildSolid {shellIds : IdMap} {solid solid' : Solid}
    (h : buildSolid shellIds (solidData solid) = some solid') :
    solid'.outerShell :: solid'.innerShells =
        ((solid.outerShell :: solid.innerShells).map idToUuid).filterMap (shellIds[·]?) ∧
      solid'.peerShells = [] := by
  rw [buildSolid] at h
  split at h
  · cases h
  · next hshells =>
    cases h
    exact ⟨hshells.symm, rfl⟩

/-! ## The round trip, store by store -/

def copyVertices (m : BRepModel Curve Surface) : IdStore Vertex × IdMap :=
  importAll buildVertex (listing idToUuid vertexData m.vertices)

def copyCurves (m : BRepModel Curve Surface) : IdStore Curve × IdMap :=
  importAll buildCurveFromData (listing idToUuid extractCurveData m.curves)

def copySurfaces (m : BRepModel Curve Surface) : IdStore Surface × IdMap :=
  importAll (·.bind buildSurfaceFromData) (listing idToUuid extractSurfaceData m.surfaces)

def copyEdges (m : BRepModel Curve Surface) : IdStore Edge × IdMap :=
  importAll (buildEdge (copyVertices m).2 (copyCurves m).2) (listing idToUuid edgeData m.edges)

def copyLoops (m : BRepModel Curve Surface) : IdStore Loop × IdMap :=
  importAll (buildLoop (copyEdges m).2) (listing idToUuid loopData m.loops)

def copyFaces (m : BRepModel Curve Surface) : IdStore Face × IdMap :=
  importAll (buildFace (copySurfaces m).2 (copyLoops m).2) (listing idToUuid faceData m.faces)

def copyShells (m : BRepModel Curve Surface) : IdStore Shell × IdMap :=
  importAll (buildShell (copyFaces m).2) (listing idToUuid shellData m.shells)

def copySolids (m : BRepModel Curve Surface) : IdStore Solid × IdMap :=
  importAll (buildSolid (copyShells m).2) (listing idToUuid solidData m.solids)

def copyModel (m : BRepModel Curve Surface) : BRepModel Curve Surface where
  vertices := (copyVertices m).1
  curves := (copyCurves m).1
  surfaces := (copySurfaces m).1
  edges := (copyEdges m).1
  loops := (copyLoops m).1
  faces := (copyFaces m).1
  shells := (copyShells m).1
  solids := (copySolids m).1

theorem toModel_of_fromModel {m : BRepModel Curve Surface}
    {snap : BRepSnapshot CurveData SurfaceData} (h : BRepSnapshot.fromModel m = some snap) :
    snap.toModel = copyModel m := by
  obtain ⟨l, hl, h⟩ := Option.bind_eq_some_iff.mp h
  cases h
  have hsurfaces : importAll buildSurfaceFromData l = copySurfaces m := importAll_mapM hl
  simp only [BRepSnapshot.toModel, hsurfaces]
  rfl

theorem exists_fromModel {m : BRepModel Curve Surface} (h : m.PayloadsSurvive) :
    ∃ snap, BRepSnapshot.fromModel m = some snap := by
  have hmapM : ∀ es : List (ℕ × Surface), (∀ e ∈ es, e ∈ m.surfaces.iter) →
      ∃ l, (es.mapM fun e ↦ (extractSurfaceData e.2).map (idToUuid e.1, ·)) = some l := by
    intro es hes
    induction es with
    | nil => exact ⟨[], rfl⟩
    | cons e es ih =>
      obtain ⟨l, hl⟩ := ih fun e' he' ↦ hes e' (List.mem_cons_of_mem _ he')
      have hsurface := h.surfaces e.1 e.2 (mem_iter.mp (hes e List.mem_cons_self))
      obtain ⟨data, hdata, -⟩ := Option.bind_eq_some_iff.mp hsurface
      refine ⟨(idToUuid e.1, data) :: l, ?_⟩
      rw [List.mapM_cons, hdata, hl]
      rfl
  obtain ⟨l, hl⟩ := hmapM _ fun e he ↦ he
  rw [BRepSnapshot.fromModel, hl]
  exact ⟨_, rfl⟩

/-! ## Models that survive -/

section Survives

variable {m : BRepModel Curve Surface}

theorem renames_copyVertices :
    Renames (newId (copyVertices m).2) SameVertex m.vertices (copyVertices m).1 :=
  renames_copy idToUuid_injective fun _ _ _ ↦ ⟨_, rfl, rfl, rfl⟩

theorem renames_copyCurves (h : m.PayloadsSurvive) :
    Renames (newId (copyCurves m).2) (fun c c' ↦ c' = c) m.curves (copyCurves m).1 :=
  renames_copy idToUuid_injective fun id curve hcurve ↦ ⟨curve, h.curves id curve hcurve, rfl⟩

theorem renames_copySurfaces (h : m.PayloadsSurvive) :
    Renames (newId (copySurfaces m).2) (fun s s' ↦ s' = s) m.surfaces (copySurfaces m).1 :=
  renames_copy idToUuid_injective fun id surface hsurface ↦
    ⟨surface, h.surfaces id surface hsurface, rfl⟩

theorem numbered_vertices {id : ℕ} : Numbered (copyVertices m).2 id ↔ m.vertices.Live id := by
  refine numbered_iff_live fun _ _ _ ↦ ?_
  exact ⟨_, rfl⟩

theorem numbered_curves (h : m.PayloadsSurvive) {id : ℕ} :
    Numbered (copyCurves m).2 id ↔ m.curves.Live id :=
  numbered_iff_live fun id curve hcurve ↦ ⟨curve, h.curves id curve hcurve⟩

theorem numbered_surfaces (h : m.PayloadsSurvive) {id : ℕ} :
    Numbered (copySurfaces m).2 id ↔ m.surfaces.Live id :=
  numbered_iff_live fun id surface hsurface ↦ ⟨surface, h.surfaces id surface hsurface⟩

theorem numbered_loops {id : ℕ} : Numbered (copyLoops m).2 id ↔ m.loops.Live id := by
  refine numbered_iff_live fun _ _ _ ↦ ?_
  exact ⟨_, rfl⟩

theorem numbered_shells {id : ℕ} : Numbered (copyShells m).2 id ↔ m.shells.Live id := by
  refine numbered_iff_live fun _ _ _ ↦ ?_
  exact ⟨_, rfl⟩

section

variable (h : m.PayloadsSurvive)

include h

theorem exists_buildEdge (hm : m.Intact) :
    ∀ id edge, m.edges.get id = some edge →
      ∃ edge', buildEdge (copyVertices m).2 (copyCurves m).2 (edgeData edge) = some edge' ∧
        SameEdge (newId (copyVertices m).2) (newId (copyCurves m).2) edge edge' := by
  intro id edge hedge
  obtain ⟨hstart, hend, hcurve⟩ := hm.edges id edge hedge
  exact buildEdge_edgeData (numbered_vertices.mpr hstart) (numbered_vertices.mpr hend)
    ((numbered_curves h).mpr hcurve)

theorem numbered_edges (hm : m.Intact) {id : ℕ} :
    Numbered (copyEdges m).2 id ↔ m.edges.Live id :=
  numbered_iff_live fun id edge hedge ↦
    (exists_buildEdge h hm id edge hedge).imp fun _ hedge' ↦ hedge'.1

theorem exists_buildFace (hm : m.Intact) :
    ∀ id face, m.faces.get id = some face →
      ∃ face', buildFace (copySurfaces m).2 (copyLoops m).2 (faceData face) = some face' ∧
        SameFace (newId (copySurfaces m).2) (newId (copyLoops m).2) face face' := by
  intro id face hface
  obtain ⟨hsurface, houter, hinner⟩ := hm.faces id face hface
  exact buildFace_faceData ((numbered_surfaces h).mpr hsurface) (numbered_loops.mpr houter)
    fun l hl ↦ numbered_loops.mpr (hinner l hl)

theorem numbered_faces (hm : m.Intact) {id : ℕ} :
    Numbered (copyFaces m).2 id ↔ m.faces.Live id :=
  numbered_iff_live fun id face hface ↦
    (exists_buildFace h hm id face hface).imp fun _ hface' ↦ hface'.1

/-- **An intact model without peer bodies survives**: every store is copied completely. -/
theorem isomorphic_copyModel (hm : m.Intact) (hpeers : m.NoPeers) :
    Isomorphic m (copyModel m) := by
  refine ⟨⟨newId (copyVertices m).2, newId (copyCurves m).2, newId (copySurfaces m).2,
    newId (copyEdges m).2, newId (copyLoops m).2, newId (copyFaces m).2, newId (copyShells m).2,
    newId (copySolids m).2⟩, renames_copyVertices, renames_copyCurves h, renames_copySurfaces h,
    renames_copy idToUuid_injective (exists_buildEdge h hm), ?_,
    renames_copy idToUuid_injective (exists_buildFace h hm), ?_, ?_⟩
  · refine renames_copy idToUuid_injective fun id l hl ↦ ?_
    obtain ⟨hedges, horientations⟩ := hm.loops id l hl
    exact buildLoop_loopData (fun edge hedge ↦ (numbered_edges h hm).mpr (hedges edge hedge))
      horientations
  · refine renames_copy idToUuid_injective fun id shell hshell ↦ ?_
    have hfaces := hm.shells id shell hshell
    exact buildShell_shellData fun face hface ↦ (numbered_faces h hm).mpr (hfaces face hface)
  · refine renames_copy idToUuid_injective fun id solid hsolid ↦ ?_
    obtain ⟨houter, hinner⟩ := hm.solids id solid hsolid
    exact buildSolid_solidData (numbered_shells.mpr houter)
      (fun shell hshell ↦ numbered_shells.mpr (hinner shell hshell)) (hpeers id solid hsolid)

end

end Survives

section Relates

variable {m : BRepModel Curve Surface} {r : IdRenaming}

/-- **A renaming leaves no dangling reference**: nothing was skipped or shortened. -/
theorem intact_of_relates (h : m.PayloadsSurvive) (hr : r.Relates m (copyModel m)) : m.Intact := by
  have hedges : ∀ id edge, m.edges.get id = some edge →
      ∃ edge', buildEdge (copyVertices m).2 (copyCurves m).2 (edgeData edge) = some edge' :=
    fun id edge hedge ↦ built_of_bijOn idToUuid_injective hr.edges.bijOn hedge
  have hfaces : ∀ id face, m.faces.get id = some face →
      ∃ face', buildFace (copySurfaces m).2 (copyLoops m).2 (faceData face) = some face' :=
    fun id face hface ↦ built_of_bijOn idToUuid_injective hr.faces.bijOn hface
  have hedge_iff : ∀ {id}, Numbered (copyEdges m).2 id ↔ m.edges.Live id :=
    numbered_iff_live hedges
  have hface_iff : ∀ {id}, Numbered (copyFaces m).2 id ↔ m.faces.Live id :=
    numbered_iff_live hfaces
  constructor
  · intro id edge hedge
    obtain ⟨edge', hedge'⟩ := hedges id edge hedge
    obtain ⟨hstart, hend, hcurve⟩ := numbered_of_buildEdge hedge'
    exact ⟨numbered_vertices.mp hstart, numbered_vertices.mp hend, (numbered_curves h).mp hcurve⟩
  · intro id l hl
    -- a rebuilt loop has as many edges as the original, and as many flags as edges
    have hlength := hr.loops.length_eq idToUuid_injective (fun l ↦ l.edges.length)
      (fun l ↦ l.edges.length) (fun l l' hl ↦ by rw [hl.edges, List.length_map])
      (fun id l l' _ hl' ↦ by
        rw [(edges_of_buildLoop hl').1]
        exact length_filterMap_lookup_le _ _) hl rfl
    rw [(edges_of_buildLoop rfl).1] at hlength
    refine ⟨fun edge hedge ↦ hedge_iff.mp (numbered_of_length_filterMap hlength edge hedge), ?_⟩
    obtain ⟨l', hl', hsame⟩ := hr.loops.related id l hl
    obtain ⟨id', l'', -, hbuild⟩ := exists_of_get_copy idToUuid_injective hl'
    rw [← hsame.orientations, (edges_of_buildLoop hbuild).2, hsame.edges, List.length_map]
  · intro id face hface
    obtain ⟨face', hface'⟩ := hfaces id face hface
    obtain ⟨hsurface, houter, hinner⟩ := numbered_of_buildFace hface'
    refine ⟨(numbered_surfaces h).mp hsurface, numbered_loops.mp houter, fun l hl ↦ ?_⟩
    have hlength := hr.faces.length_eq idToUuid_injective (fun face ↦ face.innerLoops.length)
      (fun face ↦ face.innerLoops.length)
      (fun face face' hsame ↦ by rw [hsame.innerLoops, List.length_map])
      (fun id face face' _ hface' ↦ by
        rw [(numbered_of_buildFace hface').2.2]
        exact length_filterMap_lookup_le _ _) hface hface'
    rw [hinner] at hlength
    exact numbered_loops.mp (numbered_of_length_filterMap hlength l hl)
  · intro id shell hshell face hface
    have hlength := hr.shells.length_eq idToUuid_injective (fun shell ↦ shell.faces.length)
      (fun shell ↦ shell.faces.length) (fun shell shell' hsame ↦ by rw [hsame, List.length_map])
      (fun id shell shell' _ hshell' ↦ by
        cases hshell'
        exact length_filterMap_lookup_le _ _) hshell rfl
    exact hface_iff.mp (numbered_of_length_filterMap hlength face hface)
  · intro id solid hsolid
    obtain ⟨solid', hsolid'⟩ := built_of_bijOn idToUuid_injective hr.solids.bijOn hsolid
    have hlength := hr.solids.length_eq idToUuid_injective
      (fun solid ↦ (solid.outerShell :: solid.innerShells).length)
      (fun solid ↦ (solid.outerShell :: solid.innerShells).length)
      (fun solid solid' hsame ↦ by
        rw [List.length_cons, List.length_cons, hsame.innerShells, List.length_map])
      (fun id solid solid' _ hsolid' ↦ by
        rw [(shells_of_buildSolid hsolid').1]
        exact length_filterMap_lookup_le _ _) hsolid hsolid'
    rw [(shells_of_buildSolid hsolid').1] at hlength
    have hshells := numbered_of_length_filterMap hlength
    exact ⟨numbered_shells.mp (hshells _ List.mem_cons_self),
      fun shell hshell ↦ numbered_shells.mp (hshells shell (List.mem_cons_of_mem _ hshell))⟩

/-- **Rebuilt solids have no peer bodies**, so neither had the originals. -/
theorem noPeers_of_relates (hr : r.Relates m (copyModel m)) : m.NoPeers := by
  intro id solid hsolid
  obtain ⟨solid', hsolid', hsame⟩ := hr.solids.related id solid hsolid
  obtain ⟨id', solid'', -, hbuild⟩ := exists_of_get_copy idToUuid_injective hsolid'
  have hpeers := hsame.peerShells
  rw [(shells_of_buildSolid hbuild).2] at hpeers
  exact List.map_eq_nil_iff.mp hpeers.symm

end Relates

/-- **The snapshot round trip** is the identity up to a renaming exactly for the models whose
references resolve and whose solids have no peer bodies. -/
theorem snapshot_roundTrip_iff {m : BRepModel Curve Surface} (h : m.PayloadsSurvive) :
    (∃ snap, BRepSnapshot.fromModel m = some snap ∧ Isomorphic m snap.toModel) ↔
      m.Intact ∧ m.NoPeers := by
  constructor
  · rintro ⟨snap, hsnap, r, hr⟩
    rw [toModel_of_fromModel hsnap] at hr
    exact ⟨intact_of_relates h hr, noPeers_of_relates hr⟩
  · rintro ⟨hm, hpeers⟩
    obtain ⟨snap, hsnap⟩ := exists_fromModel h
    refine ⟨snap, hsnap, ?_⟩
    rw [toModel_of_fromModel hsnap]
    exact isomorphic_copyModel h hm hpeers

end

/-! ## Two bodies -/

structure ExampleCircle where
  radius : F64

structure ExampleSphere where
  radius : F64

instance : CurveCodec ExampleCircle F64 := ⟨ExampleCircle.radius, fun r ↦ some ⟨r⟩⟩

instance : SurfaceCodec ExampleSphere F64 :=
  ⟨fun s ↦ some s.radius, fun r ↦ if r = 0 then none else some ⟨r⟩⟩

/-- Two spheres cut along a circle, each a shell of its own, and one solid with the given peers. -/
def twoBodies (peers : List ℕ) : BRepModel ExampleCircle ExampleSphere where
  vertices := (empty.add ⟨(0, 0, 0), 1⟩).2
  curves := (empty.add ⟨2⟩).2
  surfaces := (empty.add ⟨3⟩).2
  edges := (empty.add ⟨0, 0, 0, .forward, (0, 0x3ff0000000000000)⟩).2
  loops := (empty.add ⟨[0], [true], .outer⟩).2
  faces := ((empty.add ⟨0, 0, [], .forward⟩).2.add ⟨0, 0, [], .backward⟩).2
  shells := ((empty.add ⟨[0], .closed⟩).2.add ⟨[1], .closed⟩).2
  solids := (empty.add ⟨0, [], peers, none⟩).2

private theorem get_add_empty {α : Type} {a b : α} {id : ℕ}
    (h : (empty.add a).2.get id = some b) : b = a := by
  rw [get_add] at h
  by_cases hid : id = (empty : IdStore α).nextId
  · rw [if_pos hid, Option.some_inj] at h
    exact h.symm
  · rw [if_neg hid, get_empty] at h
    cases h

private theorem get_add_add_empty {α : Type} {a a' b : α} {id : ℕ}
    (h : ((empty.add a).2.add a').2.get id = some b) : b = a ∨ b = a' := by
  rw [get_add] at h
  by_cases hid : id = (empty.add a).2.nextId
  · rw [if_pos hid, Option.some_inj] at h
    exact .inr h.symm
  · rw [if_neg hid] at h
    exact .inl (get_add_empty h)

theorem payloadsSurvive_twoBodies (peers : List ℕ) : (twoBodies peers).PayloadsSurvive where
  curves id curve h := by
    rw [get_add_empty h]
    rfl
  surfaces id surface h := by
    rw [get_add_empty h]
    rfl

theorem intact_twoBodies (peers : List ℕ) : (twoBodies peers).Intact where
  edges id edge h := by
    rw [get_add_empty h]
    exact ⟨live_iff.mpr ⟨_, rfl⟩, live_iff.mpr ⟨_, rfl⟩, live_iff.mpr ⟨_, rfl⟩⟩
  loops id l h := by
    rw [get_add_empty h]
    exact ⟨List.forall_mem_singleton.mpr (live_iff.mpr ⟨_, rfl⟩), rfl⟩
  faces id face h := by
    rcases get_add_add_empty h with rfl | rfl
    all_goals exact ⟨live_iff.mpr ⟨_, rfl⟩, live_iff.mpr ⟨_, rfl⟩, List.forall_mem_nil _⟩
  shells id shell h := by
    rcases get_add_add_empty h with rfl | rfl
    all_goals exact List.forall_mem_singleton.mpr (live_iff.mpr ⟨_, rfl⟩)
  solids id solid h := by
    rw [get_add_empty h]
    exact ⟨live_iff.mpr ⟨_, rfl⟩, List.forall_mem_nil _⟩

/-- Two bodies of which the solid has one survive the round trip. -/
theorem snapshot_roundTrip_iff_twoBodies :
    ∃ snap, BRepSnapshot.fromModel (twoBodies []) = some snap ∧
      Isomorphic (twoBodies []) snap.toModel := by
  refine (snapshot_roundTrip_iff (payloadsSurvive_twoBodies [])).mpr ⟨intact_twoBodies [], ?_⟩
  intro id solid h
  rw [get_add_empty h]

/-- **A peer body is lost**: every reference resolves, but the rebuilt solid has one body only. -/
theorem not_isomorphic_twoBodies : (twoBodies [1]).PayloadsSurvive ∧ (twoBodies [1]).Intact ∧
    ∃ snap, BRepSnapshot.fromModel (twoBodies [1]) = some snap ∧
      ¬ Isomorphic (twoBodies [1]) snap.toModel := by
  refine ⟨payloadsSurvive_twoBodies [1], intact_twoBodies [1], ?_⟩
  obtain ⟨snap, hsnap⟩ := exists_fromModel (payloadsSurvive_twoBodies [1])
  refine ⟨snap, hsnap, ?_⟩
  rintro ⟨r, hr⟩
  rw [toModel_of_fromModel hsnap] at hr
  have hsolid : (twoBodies [1]).solids.get 0 = some ⟨0, [], [1], none⟩ := by
    rw [twoBodies, get_add]
    rfl
  exact List.cons_ne_nil _ _ (noPeers_of_relates hr 0 _ hsolid)

end RosheraCad
