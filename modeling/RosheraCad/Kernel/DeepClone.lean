import RosheraCad.Kernel.Entities
import RosheraCad.Library.Relocation

/-!
# Deep geometry cloning

One walk collects the parts of a solid of each kind; the lists are sorted and stripped of
duplicates, except the list of shells, whose order carries their roles. Then each kind is cloned in
dependency order, and a table notes which part became which.
-/

namespace RosheraCad

namespace DeepClone

abbrev Vector3 := F64 × F64 × F64

/-- How geometry is translated: a point, a curve and a surface. -/
structure Translation (Curve Surface : Type) where
  point : Vector3 → F64 × F64 × F64 → F64 × F64 × F64
  curve : Vector3 → Curve → Curve
  surface : Vector3 → Surface → Surface

/-- Context for tracking id mappings during deep cloning. -/
structure CloneContext where
  vertexMap : OrderedMap ℕ ℕ
  curveMap : OrderedMap ℕ ℕ
  edgeMap : OrderedMap ℕ ℕ
  loopMap : OrderedMap ℕ ℕ
  surfaceMap : OrderedMap ℕ ℕ
  faceMap : OrderedMap ℕ ℕ
  shellMap : OrderedMap ℕ ℕ

def CloneContext.new : CloneContext := ⟨∅, ∅, ∅, ∅, ∅, ∅, ∅⟩

/-- How a clone fails: with an error, or with a panic at an index out of bounds. -/
inductive CloneFailure
  | error (e : OperationError)
  | indexOutOfBounds
  deriving DecidableEq

def invalidGeometry (message : String) : CloneFailure := .error (.invalidGeometry message)

abbrev CloneM (Curve Surface : Type) :=
  EStateM CloneFailure (BRepModel Curve Surface × CloneContext)

/-- The tolerance a vertex added without one has, `1e-6`. -/
def tauWeld : F64 := 0x3EB0C6F7A0B5ED8D

section Steps

variable {Curve Surface : Type} (motion : Translation Curve Surface)

def onPart {σ τ ε α : Type} (get : σ → τ) (set : σ → τ → σ) (x : EStateM ε τ α) : EStateM ε σ α :=
  fun s ↦
    match x (get s) with
    | .ok a t => .ok a (set s t)
    | .error e t => .error e (set s t)

def lookup (map : OrderedMap ℕ ℕ) (missing : String) (id : ℕ) : Except CloneFailure ℕ :=
  match map[id]? with
  | some new => .ok new
  | none => .error (invalidGeometry missing)

def cloneVertices (ids : List ℕ) (offset : Option Vector3) : CloneM Curve Surface (List ℕ) :=
  onPart (fun st ↦ (st.1.vertices, st.2.vertexMap))
    (fun st t ↦ ({ st.1 with vertices := t.1 }, { st.2 with vertexMap := t.2 }))
    (IdStore.cloneEach (invalidGeometry "Vertex not found")
      (fun vertex ↦ .ok
        ⟨match offset with
          | some off => motion.point off vertex.position
          | none => vertex.position, tauWeld⟩) ids)

def cloneCurves (ids : List ℕ) (offset : Option Vector3) : CloneM Curve Surface (List ℕ) :=
  onPart (fun st ↦ (st.1.curves, st.2.curveMap))
    (fun st t ↦ ({ st.1 with curves := t.1 }, { st.2 with curveMap := t.2 }))
    (match offset with
    | some off => IdStore.cloneEach (invalidGeometry "Curve not found for deep clone")
        (fun curve ↦ .ok (motion.curve off curve)) ids
    | none => IdStore.cloneEach (invalidGeometry "Failed to clone curve") .ok ids)

def cloneSurfaces (ids : List ℕ) (offset : Option Vector3) : CloneM Curve Surface (List ℕ) :=
  onPart (fun st ↦ (st.1.surfaces, st.2.surfaceMap))
    (fun st t ↦ ({ st.1 with surfaces := t.1 }, { st.2 with surfaceMap := t.2 }))
    (match offset with
    | some off => IdStore.cloneEach (invalidGeometry "Surface not found for deep clone")
        (fun surface ↦ .ok (motion.surface off surface)) ids
    | none => IdStore.cloneEach (invalidGeometry "Failed to clone surface") .ok ids)

def remapEdge (context : CloneContext) (edge : Edge) : Except CloneFailure Edge := do
  let newStart ← lookup context.vertexMap "Start vertex not in clone context" edge.startVertex
  let newEnd ← lookup context.vertexMap "End vertex not in clone context" edge.endVertex
  let newCurve ← lookup context.curveMap "Curve not in clone context" edge.curveId
  return ⟨newStart, newEnd, newCurve, edge.orientation, edge.paramRange⟩

def cloneEdges (ids : List ℕ) : CloneM Curve Surface (List ℕ) := fun st ↦
  onPart (fun st ↦ (st.1.edges, st.2.edgeMap))
    (fun st t ↦ ({ st.1 with edges := t.1 }, { st.2 with edgeMap := t.2 }))
    (IdStore.cloneEach (invalidGeometry "Edge not found") (remapEdge st.2) ids) st

def addEdge (l : Loop) (edge : ℕ) (forward : Bool) : Loop :=
  { l with edges := l.edges ++ [edge], orientations := l.orientations ++ [forward] }

def addEdgeAt (orientations : List Bool) (l : Loop) : ℕ × ℕ → Except CloneFailure Loop
  | (edge, i) =>
    match orientations[i]? with
    | some forward => .ok (addEdge l edge forward)
    | none => .error .indexOutOfBounds

def addEdges (orientations : List Bool) (l : Loop) (edges : List ℕ) : Except CloneFailure Loop :=
  edges.zipIdx.foldlM (addEdgeAt orientations) l

def remapLoop (context : CloneContext) (loopData : Loop) : Except CloneFailure Loop := do
  let newEdges ← loopData.edges.mapM (lookup context.edgeMap "Edge not in clone context")
  addEdges loopData.orientations ⟨[], [], loopData.loopType⟩ newEdges

def cloneLoops (ids : List ℕ) : CloneM Curve Surface (List ℕ) := fun st ↦
  onPart (fun st ↦ (st.1.loops, st.2.loopMap))
    (fun st t ↦ ({ st.1 with loops := t.1 }, { st.2 with loopMap := t.2 }))
    (IdStore.cloneEach (invalidGeometry "Loop not found") (remapLoop st.2) ids) st

def remapFace (context : CloneContext) (face : Face) : Except CloneFailure Face := do
  let newSurface ← lookup context.surfaceMap "Surface not in clone context" face.surfaceId
  let newOuterLoop ← lookup context.loopMap "Outer loop not in clone context" face.outerLoop
  let newInnerLoops ← face.innerLoops.mapM
    (lookup context.loopMap "Inner loop not in clone context")
  return ⟨newSurface, newOuterLoop, newInnerLoops, face.orientation⟩

def cloneFaces (ids : List ℕ) : CloneM Curve Surface (List ℕ) := fun st ↦
  onPart (fun st ↦ (st.1.faces, st.2.faceMap))
    (fun st t ↦ ({ st.1 with faces := t.1 }, { st.2 with faceMap := t.2 }))
    (IdStore.cloneEach (invalidGeometry "Face not found") (remapFace st.2) ids) st

def remapShell (context : CloneContext) (shell : Shell) : Except CloneFailure Shell := do
  let newFaces ← shell.faces.mapM (lookup context.faceMap "Face not in clone context")
  return ⟨newFaces, shell.shellType⟩

def cloneShells (ids : List ℕ) : CloneM Curve Surface (List ℕ) := fun st ↦
  onPart (fun st ↦ (st.1.shells, st.2.shellMap))
    (fun st t ↦ ({ st.1 with shells := t.1 }, { st.2 with shellMap := t.2 }))
    (IdStore.cloneEach (invalidGeometry "Shell not found") (remapShell st.2) ids) st

end Steps

/-! ## Collecting -/

/-- All entities to clone, but the shells. -/
structure Collected where
  vertices : List ℕ
  curves : List ℕ
  edges : List ℕ
  loops : List ℕ
  surfaces : List ℕ
  faces : List ℕ

section Collect

variable {Curve Surface : Type} (m : BRepModel Curve Surface)

def collectEdge (all : Collected) (edgeId : ℕ) : Except CloneFailure Collected :=
  match m.edges.get edgeId with
  | none => .error (invalidGeometry "Edge not found")
  | some edge => .ok { all with
      edges := all.edges ++ [edgeId]
      curves := all.curves ++ [edge.curveId]
      vertices := all.vertices ++ [edge.startVertex, edge.endVertex] }

def collectLoop (all : Collected) (loopId : ℕ) : Except CloneFailure Collected :=
  match m.loops.get loopId with
  | none => .error (invalidGeometry "Loop not found")
  | some loopData => loopData.edges.foldlM (collectEdge m) all

def collectFace (all : Collected) (faceId : ℕ) : Except CloneFailure Collected :=
  match m.faces.get faceId with
  | none => .error (invalidGeometry "Face not found")
  | some face => face.loops.foldlM (collectLoop m) { all with
      faces := all.faces ++ [faceId]
      surfaces := all.surfaces ++ [face.surfaceId]
      loops := all.loops ++ face.loops }

def collectShell (all : Collected) (shellId : ℕ) : Except CloneFailure Collected :=
  match m.shells.get shellId with
  | none => .error (invalidGeometry "Shell not found")
  | some shell => shell.faces.foldlM (collectFace m) all

def sortDedup (ids : List ℕ) : List ℕ := (ids.insertionSort (· ≤ ·)).dedup

def Collected.removeDuplicates (all : Collected) : Collected where
  vertices := sortDedup all.vertices
  curves := sortDedup all.curves
  edges := sortDedup all.edges
  loops := sortDedup all.loops
  surfaces := sortDedup all.surfaces
  faces := sortDedup all.faces

end Collect

variable {Curve Surface : Type} (motion : Translation Curve Surface)

def addSolid (solid : Solid) (newShells : List ℕ) : CloneM Curve Surface ℕ := fun st ↦
  let voidCount := solid.innerShells.length
  let peerCount := solid.peerShells.length
  -- The slices are in range: one new id was returned for each shell.
  match newShells with
  | [] => .error .indexOutOfBounds st
  | newOuterShell :: attached =>
    let new := st.1.solids.add
      ⟨newOuterShell, attached.take voidCount, (attached.drop voidCount).take peerCount, none⟩
    .ok new.1 ({ st.1 with solids := new.2 }, st.2)

def cloneCollected (solid : Solid) (vertexOffset : Option Vector3) (all : Collected) :
    CloneM Curve Surface ℕ := do
  let _ ← cloneVertices motion all.vertices vertexOffset
  let _ ← cloneCurves motion all.curves vertexOffset
  let _ ← cloneSurfaces motion all.surfaces vertexOffset
  let _ ← cloneEdges all.edges
  let _ ← cloneLoops all.loops
  let _ ← cloneFaces all.faces
  let newShells ← cloneShells solid.shells
  addSolid solid newShells

def deepCloneSolid (solidId : ℕ) (vertexOffset : Option Vector3) (m : BRepModel Curve Surface) :
    EStateM.Result CloneFailure (BRepModel Curve Surface × CloneContext) ℕ :=
  match m.solids.get solidId with
  | none => .error (invalidGeometry "Solid not found") (m, .new)
  | some solid =>
    match solid.shells.foldlM (collectShell m) ⟨[], [], [], [], [], []⟩ with
    | .error e => .error e (m, .new)
    | .ok all => cloneCollected motion solid vertexOffset all.removeDuplicates (m, .new)

end DeepClone

end RosheraCad
