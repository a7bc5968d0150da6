import RosheraCad.Library.KeyedFold
import RosheraCad.Kernel.Parts

/-!
# What a deep clone is

Each kind is cloned after everything it refers to, so the tables carry the references of each part
onto those of its clone. A shell that is listed twice has two clones.
-/

namespace RosheraCad

namespace DeepClone

open Relocation IdStore

abbrev Naming := Kind → ℕ → ℕ

def CloneContext.naming (context : CloneContext) (newSolid : ℕ) : Naming
  | .solid => fun _ ↦ newSolid
  | .shell => noted context.shellMap
  | .face => noted context.faceMap
  | .surface => noted context.surfaceMap
  | .loop => noted context.loopMap
  | .edge => noted context.edgeMap
  | .curve => noted context.curveMap
  | .vertex => noted context.vertexMap

/-! ## Clones of the records -/

section Records

variable {Curve Surface : Type} (motion : Translation Curve Surface) (offset : Option Vector3)
  (ρ : Naming)

def movedVertex (vertex : Vertex) : Vertex :=
  ⟨offset.elim vertex.position (motion.point · vertex.position), tauWeld⟩

def movedCurve (curve : Curve) : Curve := offset.elim curve (motion.curve · curve)

def movedSurface (surface : Surface) : Surface := offset.elim surface (motion.surface · surface)

def renamedEdge (edge : Edge) : Edge :=
  { edge with
    startVertex := ρ .vertex edge.startVertex
    endVertex := ρ .vertex edge.endVertex
    curveId := ρ .curve edge.curveId }

def renamedLoop (l : Loop) : Loop := { l with edges := l.edges.map (ρ .edge) }

def renamedFace (face : Face) : Face :=
  { face with
    surfaceId := ρ .surface face.surfaceId
    outerLoop := ρ .loop face.outerLoop
    innerLoops := face.innerLoops.map (ρ .loop) }

def renamedShell (shell : Shell) : Shell := { shell with faces := shell.faces.map (ρ .face) }

def renamedSolid (solid : Solid) : Solid :=
  ⟨ρ .shell solid.outerShell, solid.innerShells.map (ρ .shell), solid.peerShells.map (ρ .shell),
    none⟩

end Records

section Steps

variable {map : OrderedMap ℕ ℕ} {missing : String} {id : ℕ} {ids : List ℕ}

theorem lookup_noted (h : IsNoted map id) : lookup map missing id = .ok (noted map id) := by
  rw [lookup, h]

theorem mapM_lookup (h : ∀ id ∈ ids, IsNoted map id) :
    ids.mapM (lookup map missing) = .ok (ids.map (noted map)) := by
  induction ids with
  | nil => rfl
  | cons id ids ih =>
    rw [List.mapM_cons, lookup_noted (h id List.mem_cons_self),
      ih fun i hi ↦ h i (List.mem_cons_of_mem _ hi)]
    rfl

theorem addEdges_eq {edges : List ℕ} {orientations : List Bool} (l : Loop)
    (h : orientations.length = edges.length) :
    addEdges orientations l edges =
      .ok ⟨l.edges ++ edges, l.orientations ++ orientations, l.loopType⟩ := by
  -- The flags are read at the positions after those already added.
  have hfrom : ∀ (edges : List ℕ) (before flags : List Bool) (l : Loop),
      flags.length = edges.length →
      (edges.zipIdx before.length).foldlM (addEdgeAt (before ++ flags)) l =
        .ok ⟨l.edges ++ edges, l.orientations ++ flags, l.loopType⟩ := by
    intro edges
    induction edges with
    | nil =>
      intro before flags l h
      rw [List.length_eq_zero_iff.mp h, List.append_nil, List.append_nil, List.append_nil]
      rfl
    | cons edge edges ih =>
      intro before flags l h
      rcases flags with _ | ⟨flag, flags⟩
      · contradiction
      have hrest := ih (before ++ [flag]) flags (addEdge l edge flag) (Nat.succ_inj.mp h)
      rw [List.append_assoc, List.singleton_append, List.length_append, List.length_singleton]
        at hrest
      have hflag : addEdgeAt (before ++ flag :: flags) l (edge, before.length) =
          .ok (addEdge l edge flag) := by
        simp [addEdgeAt]
      rw [List.zipIdx_cons, List.foldlM_cons, hflag]
      refine hrest.trans ?_
      simp [addEdge]
  exact hfrom edges [] orientations l h

theorem onPart_ok {σ τ ε α : Type} {get : σ → τ} {set : σ → τ → σ} {x : EStateM ε τ α}
    {s s' : σ} {a : α} {t : τ} (h : x (get s) = .ok a t) (hset : set s t = s') :
    onPart get set x s = .ok a s' := by
  simp only [onPart, h, hset]

end Steps

/-! ## The phases -/

section Phases

variable {Curve Surface : Type} {m : BRepModel Curve Surface} {context : CloneContext}
  {ids : List ℕ} (newSolid : ℕ)

theorem exists_cloneVertices (context : CloneContext) (motion : Translation Curve Surface)
    (offset : Option Vector3) (hnodup : ids.Nodup) (hlive : ∀ id ∈ ids, m.vertices.Live id) :
    ∃ s map, cloneVertices motion ids offset (m, context) =
        .ok (ids.map (noted map)) ({ m with vertices := s }, { context with vertexMap := map }) ∧
      Cloned m.vertices s ids (movedVertex motion offset) (noted map) ∧
      ∀ id ∈ ids, IsNoted map id := by
  obtain ⟨s, map, hrun, hcloned, hnoted, -⟩ := exists_cloneEach
    (invalidGeometry "Vertex not found") (fun vertex ↦ .ok (movedVertex motion offset vertex))
    (g := movedVertex motion offset) hnodup
    (fun id hid ↦ by
      obtain ⟨vertex, hget⟩ := live_iff.mp (hlive id hid)
      exact ⟨vertex, hget, rfl⟩) context.vertexMap
  refine ⟨s, map, ?_, hcloned, hnoted⟩
  rcases offset with _ | off <;> exact onPart_ok hrun rfl

theorem exists_cloneCurves (context : CloneContext) (motion : Translation Curve Surface)
    (offset : Option Vector3) (hnodup : ids.Nodup) (hlive : ∀ id ∈ ids, m.curves.Live id) :
    ∃ s map, cloneCurves motion ids offset (m, context) =
        .ok (ids.map (noted map)) ({ m with curves := s }, { context with curveMap := map }) ∧
      Cloned m.curves s ids (movedCurve motion offset) (noted map) ∧
      ∀ id ∈ ids, IsNoted map id := by
  have hclone (missing : CloneFailure) := exists_cloneEach missing
    (fun curve ↦ .ok (movedCurve motion offset curve)) (g := movedCurve motion offset)
    hnodup (fun id hid ↦ (live_iff.mp (hlive id hid)).imp fun _ hget ↦ ⟨hget, rfl⟩)
    context.curveMap
  rcases offset with _ | off
  · obtain ⟨s, map, hrun, hcloned, hnoted, -⟩ := hclone (invalidGeometry "Failed to clone curve")
    exact ⟨s, map, onPart_ok hrun rfl, hcloned, hnoted⟩
  · obtain ⟨s, map, hrun, hcloned, hnoted, -⟩ :=
      hclone (invalidGeometry "Curve not found for deep clone")
    exact ⟨s, map, onPart_ok hrun rfl, hcloned, hnoted⟩

theorem exists_cloneSurfaces (context : CloneContext) (motion : Translation Curve Surface)
    (offset : Option Vector3) (hnodup : ids.Nodup) (hlive : ∀ id ∈ ids, m.surfaces.Live id) :
    ∃ s map, cloneSurfaces motion ids offset (m, context) =
        .ok (ids.map (noted map)) ({ m with surfaces := s }, { context with surfaceMap := map }) ∧
      Cloned m.surfaces s ids (movedSurface motion offset) (noted map) ∧
      ∀ id ∈ ids, IsNoted map id := by
  have hclone (missing : CloneFailure) := exists_cloneEach missing
    (fun surface ↦ .ok (movedSurface motion offset surface)) (g := movedSurface motion offset)
    hnodup (fun id hid ↦ (live_iff.mp (hlive id hid)).imp fun _ hget ↦ ⟨hget, rfl⟩)
    context.surfaceMap
  rcases offset with _ | off
  · obtain ⟨s, map, hrun, hcloned, hnoted, -⟩ :=
      hclone (invalidGeometry "Failed to clone surface")
    exact ⟨s, map, onPart_ok hrun rfl, hcloned, hnoted⟩
  · obtain ⟨s, map, hrun, hcloned, hnoted, -⟩ :=
      hclone (invalidGeometry "Surface not found for deep clone")
    exact ⟨s, map, onPart_ok hrun rfl, hcloned, hnoted⟩

theorem exists_cloneEdges (context : CloneContext) (hnodup : ids.Nodup)
    (hids : ∀ id ∈ ids, ∃ edge, m.edges.get id = some edge ∧
      IsNoted context.vertexMap edge.startVertex ∧ IsNoted context.vertexMap edge.endVertex ∧
      IsNoted context.curveMap edge.curveId) :
    ∃ s map, cloneEdges ids (m, context) =
        .ok (ids.map (noted map)) ({ m with edges := s }, { context with edgeMap := map }) ∧
      Cloned m.edges s ids (renamedEdge (context.naming newSolid)) (noted map) ∧
      ∀ id ∈ ids, IsNoted map id := by
  obtain ⟨s, map, hrun, hcloned, hnoted, -⟩ := exists_cloneEach
    (invalidGeometry "Edge not found") (remapEdge context)
    (g := renamedEdge (context.naming newSolid)) hnodup
    (fun id hid ↦ by
      obtain ⟨edge, hget, hstart, hend, hcurve⟩ := hids id hid
      refine ⟨edge, hget, ?_⟩
      rw [remapEdge, lookup_noted hstart, lookup_noted hend, lookup_noted hcurve]
      rfl) context.edgeMap
  exact ⟨s, map, onPart_ok hrun rfl, hcloned, hnoted⟩

theorem exists_cloneLoops (context : CloneContext) (hnodup : ids.Nodup) (hloops : LoopsOriented m)
    (hids : ∀ id ∈ ids, ∃ l, m.loops.get id = some l ∧
      ∀ edge ∈ l.edges, IsNoted context.edgeMap edge) :
    ∃ s map, cloneLoops ids (m, context) =
        .ok (ids.map (noted map)) ({ m with loops := s }, { context with loopMap := map }) ∧
      Cloned m.loops s ids (renamedLoop (context.naming newSolid)) (noted map) ∧
      ∀ id ∈ ids, IsNoted map id := by
  obtain ⟨s, map, hrun, hcloned, hnoted, -⟩ := exists_cloneEach
    (invalidGeometry "Loop not found") (remapLoop context)
    (g := renamedLoop (context.naming newSolid)) hnodup
    (fun id hid ↦ by
      obtain ⟨l, hget, hedges⟩ := hids id hid
      refine ⟨l, hget, ?_⟩
      have hflags : l.orientations.length = (l.edges.map (noted context.edgeMap)).length := by
        rw [List.length_map, hloops id l hget]
      rw [remapLoop, mapM_lookup hedges]
      exact addEdges_eq _ hflags) context.loopMap
  exact ⟨s, map, onPart_ok hrun rfl, hcloned, hnoted⟩

theorem exists_cloneFaces (context : CloneContext) (hnodup : ids.Nodup)
    (hids : ∀ id ∈ ids, ∃ face, m.faces.get id = some face ∧
      IsNoted context.surfaceMap face.surfaceId ∧ ∀ l ∈ face.loops, IsNoted context.loopMap l) :
    ∃ s map, cloneFaces ids (m, context) =
        .ok (ids.map (noted map)) ({ m with faces := s }, { context with faceMap := map }) ∧
      Cloned m.faces s ids (renamedFace (context.naming newSolid)) (noted map) ∧
      ∀ id ∈ ids, IsNoted map id := by
  obtain ⟨s, map, hrun, hcloned, hnoted, -⟩ := exists_cloneEach
    (invalidGeometry "Face not found") (remapFace context)
    (g := renamedFace (context.naming newSolid)) hnodup
    (fun id hid ↦ by
      obtain ⟨face, hget, hsurface, hloops⟩ := hids id hid
      refine ⟨face, hget, ?_⟩
      rw [remapFace, lookup_noted hsurface, lookup_noted (hloops _ List.mem_cons_self),
        mapM_lookup fun l hl ↦ hloops l (List.mem_cons_of_mem _ hl)]
      rfl) context.faceMap
  exact ⟨s, map, onPart_ok hrun rfl, hcloned, hnoted⟩

theorem exists_cloneShells (context : CloneContext) (hnodup : ids.Nodup)
    (hids : ∀ id ∈ ids, ∃ shell, m.shells.get id = some shell ∧
      ∀ face ∈ shell.faces, IsNoted context.faceMap face) :
    ∃ s map, cloneShells ids (m, context) =
        .ok (ids.map (noted map)) ({ m with shells := s }, { context with shellMap := map }) ∧
      Cloned m.shells s ids (renamedShell (context.naming newSolid)) (noted map) ∧
      ∀ id ∈ ids, IsNoted map id := by
  obtain ⟨s, map, hrun, hcloned, hnoted, -⟩ := exists_cloneEach
    (invalidGeometry "Shell not found") (remapShell context)
    (g := renamedShell (context.naming newSolid)) hnodup
    (fun id hid ↦ by
      obtain ⟨shell, hget, hfaces⟩ := hids id hid
      refine ⟨shell, hget, ?_⟩
      rw [remapShell, mapM_lookup hfaces]
      rfl) context.shellMap
  exact ⟨s, map, onPart_ok hrun rfl, hcloned, hnoted⟩

theorem addSolid_eq {solid : Solid} (ρ : Naming) :
    addSolid solid (solid.shells.map (ρ .shell)) (m, context) =
      .ok m.solids.nextId
        ({ m with solids := (m.solids.add (renamedSolid ρ solid)).2 }, context) := by
  have hattached : (solid.innerShells ++ solid.peerShells).map (ρ .shell) =
      solid.innerShells.map (ρ .shell) ++ solid.peerShells.map (ρ .shell) := List.map_append
  have hinner : (solid.innerShells.map (ρ .shell)).length = solid.innerShells.length :=
    List.length_map _
  have hpeer : (solid.peerShells.map (ρ .shell)).length = solid.peerShells.length :=
    List.length_map _
  rw [Solid.shells, List.map_cons, hattached, addSolid, List.take_left' hinner,
    List.drop_left' hinner, ← hpeer, List.take_length]
  rfl

structure Collected.Closed (m : BRepModel Curve Surface) (solid : Solid) (all : Collected) :
    Prop where
  nodup : all.vertices.Nodup ∧ all.curves.Nodup ∧ all.surfaces.Nodup ∧ all.edges.Nodup ∧
    all.loops.Nodup ∧ all.faces.Nodup
  live : ∀ x, all.Mem x → Live m x
  closed : ∀ x y, all.Mem x → y ∈ partsOf m x → all.Mem y
  shells : ∀ s ∈ solid.shells, ∀ y ∈ partsOf m (.shell, s), all.Mem y

structure ClonedAll (motion : Translation Curve Surface) (offset : Option Vector3)
    (m m' : BRepModel Curve Surface) (solid : Solid) (all : Collected) (ρ : Naming) : Prop where
  vertices : Cloned m.vertices m'.vertices all.vertices (movedVertex motion offset) (ρ .vertex)
  curves : Cloned m.curves m'.curves all.curves (movedCurve motion offset) (ρ .curve)
  surfaces : Cloned m.surfaces m'.surfaces all.surfaces (movedSurface motion offset) (ρ .surface)
  edges : Cloned m.edges m'.edges all.edges (renamedEdge ρ) (ρ .edge)
  loops : Cloned m.loops m'.loops all.loops (renamedLoop ρ) (ρ .loop)
  faces : Cloned m.faces m'.faces all.faces (renamedFace ρ) (ρ .face)
  shells : Cloned m.shells m'.shells solid.shells (renamedShell ρ) (ρ .shell)
  solids : m'.solids = (m.solids.add (renamedSolid ρ solid)).2

/-- **Cloning in dependency order succeeds**, and grows each store by the clones. -/
theorem exists_cloneCollected (motion : Translation Curve Surface) (offset : Option Vector3)
    (hloops : LoopsOriented m) {solid : Solid} {all : Collected} (hall : all.Closed m solid)
    (hshells : solid.shells.Nodup) (hlive : ∀ s ∈ solid.shells, m.shells.Live s) :
    ∃ m' context, cloneCollected motion solid offset all (m, .new) =
        .ok m.solids.nextId (m', context) ∧
      ClonedAll motion offset m m' solid all (context.naming m.solids.nextId) := by
  obtain ⟨hndV, hndC, hndU, hndE, hndL, hndF⟩ := hall.nodup
  -- Vertices, curves and surfaces refer to nothing.
  obtain ⟨v, vmap, hrunV, hV, hnotedV⟩ := exists_cloneVertices (m := m) .new motion offset
    hndV fun id hid ↦ hall.live (.vertex, id) hid
  obtain ⟨c, cmap, hrunC, hC, hnotedC⟩ := exists_cloneCurves (m := { m with vertices := v })
    { CloneContext.new with vertexMap := vmap } motion offset hndC
    fun id hid ↦ hall.live (.curve, id) hid
  obtain ⟨u, umap, hrunU, hU, hnotedU⟩ := exists_cloneSurfaces
    (m := { m with vertices := v, curves := c })
    { CloneContext.new with vertexMap := vmap, curveMap := cmap } motion offset hndU
    fun id hid ↦ hall.live (.surface, id) hid
  -- An edge's ends and curve were listed with it.
  obtain ⟨e, emap, hrunE, hE, hnotedE⟩ := exists_cloneEdges
    (m := { m with vertices := v, curves := c, surfaces := u })
    m.solids.nextId
    { CloneContext.new with vertexMap := vmap, curveMap := cmap, surfaceMap := umap }
    hndE fun id hid ↦ by
      obtain ⟨edge, hget⟩ := live_iff.mp (hall.live (.edge, id) hid)
      have hparts := hall.closed (.edge, id)
      simp only [partsOf, hget, Option.elim_some, Edge.vertices] at hparts
      refine ⟨edge, hget, ?_, ?_, ?_⟩
      · exact hnotedV _ (hparts (.vertex, edge.startVertex) hid (by simp))
      · exact hnotedV _ (hparts (.vertex, edge.endVertex) hid (by simp))
      · exact hnotedC _ (hparts (.curve, edge.curveId) hid (by simp))
  obtain ⟨l, lmap, hrunL, hL, hnotedL⟩ := exists_cloneLoops
    (m := { m with vertices := v, curves := c, surfaces := u, edges := e })
    m.solids.nextId
    { CloneContext.new with
      vertexMap := vmap, curveMap := cmap, surfaceMap := umap, edgeMap := emap }
    hndL hloops fun id hid ↦ by
      obtain ⟨l, hget⟩ := live_iff.mp (hall.live (.loop, id) hid)
      have hparts := hall.closed (.loop, id)
      simp only [partsOf, hget, Option.elim_some] at hparts
      exact ⟨l, hget, fun edge hedge ↦
        hnotedE _ (hparts (.edge, edge) hid (List.mem_map_of_mem hedge))⟩
  obtain ⟨f, fmap, hrunF, hF, hnotedF⟩ := exists_cloneFaces
    (m := { m with vertices := v, curves := c, surfaces := u, edges := e, loops := l })
    m.solids.nextId
    { CloneContext.new with
      vertexMap := vmap, curveMap := cmap, surfaceMap := umap, edgeMap := emap, loopMap := lmap }
    hndF fun id hid ↦ by
      obtain ⟨face, hget⟩ := live_iff.mp (hall.live (.face, id) hid)
      have hparts := hall.closed (.face, id)
      simp only [partsOf, hget, Option.elim_some] at hparts
      refine ⟨face, hget, ?_, fun l hl ↦ ?_⟩
      · exact hnotedU _ (hparts (.surface, face.surfaceId) hid List.mem_cons_self)
      · exact hnotedL _ (hparts (.loop, l) hid
          (List.mem_cons_of_mem _ (List.mem_map_of_mem hl)))
  obtain ⟨h, hmap, hrunH, hH, -⟩ := exists_cloneShells
    (m := { m with
      vertices := v, curves := c, surfaces := u, edges := e, loops := l, faces := f })
    m.solids.nextId
    { CloneContext.new with
      vertexMap := vmap, curveMap := cmap, surfaceMap := umap, edgeMap := emap, loopMap := lmap
      faceMap := fmap }
    hshells fun s hs ↦ by
      obtain ⟨shell, hget⟩ := live_iff.mp (hlive s hs)
      have hparts := hall.shells s hs
      simp only [partsOf, hget, Option.elim_some] at hparts
      exact ⟨shell, hget, fun face hface ↦
        hnotedF _ (hparts (.face, face) (List.mem_map_of_mem hface))⟩
  let context : CloneContext := ⟨vmap, cmap, emap, lmap, umap, fmap, hmap⟩
  refine ⟨⟨v, c, u, e, l, f, h,
    (m.solids.add (renamedSolid (context.naming m.solids.nextId) solid)).2⟩, context, ?_,
    hV, hC, hU, hE, hL, hF, hH, rfl⟩
  rw [cloneCollected]
  refine (EStateM.bind_eq_of_ok hrunV).trans ((EStateM.bind_eq_of_ok hrunC).trans ?_)
  refine (EStateM.bind_eq_of_ok hrunU).trans ((EStateM.bind_eq_of_ok hrunE).trans ?_)
  refine (EStateM.bind_eq_of_ok hrunL).trans ((EStateM.bind_eq_of_ok hrunF).trans ?_)
  refine (EStateM.bind_eq_of_ok hrunH).trans ?_
  exact addSolid_eq (m := ⟨v, c, u, e, l, f, h, m.solids⟩) (context.naming m.solids.nextId)

end Phases

end DeepClone

end RosheraCad
