import RosheraCad.Library.IdStore

/-!
# Snapshots of a B-Rep model

A snapshot lists every entity of a model under a UUID computed from its id; a model is rebuilt by
adding the entities to fresh stores in dependency order. A reference that cannot be translated drops
the entity, or the entry of the list it stands in. Curves and surfaces are payloads.
-/

namespace RosheraCad

/-- A 64-bit float, by its bits. -/
abbrev F64 := BitVec 64

structure Vertex where
  position : F64 × F64 × F64
  tolerance : F64
  deriving DecidableEq

inductive EdgeOrientation
  | forward
  | backward
  deriving DecidableEq

structure Edge where
  startVertex : ℕ
  endVertex : ℕ
  curveId : ℕ
  orientation : EdgeOrientation
  paramRange : F64 × F64
  deriving DecidableEq

inductive LoopType
  | outer
  | inner
  | unknown
  deriving DecidableEq

structure Loop where
  edges : List ℕ
  orientations : List Bool
  loopType : LoopType
  deriving DecidableEq

inductive FaceOrientation
  | forward
  | backward
  deriving DecidableEq

structure Face where
  surfaceId : ℕ
  outerLoop : ℕ
  innerLoops : List ℕ
  orientation : FaceOrientation
  deriving DecidableEq

inductive GeoShellType
  | closed
  | open
  | nonManifold
  deriving DecidableEq

structure Shell where
  faces : List ℕ
  shellType : GeoShellType
  deriving DecidableEq

structure Solid where
  outerShell : ℕ
  innerShells : List ℕ
  peerShells : List ℕ
  name : Option String
  deriving DecidableEq

/-- The entity stores of a B-Rep model. -/
structure BRepModel (Curve Surface : Type) where
  vertices : IdStore Vertex
  curves : IdStore Curve
  surfaces : IdStore Surface
  edges : IdStore Edge
  loops : IdStore Loop
  faces : IdStore Face
  shells : IdStore Shell
  solids : IdStore Solid

/-! ## The snapshot -/

/-- The UUID of a topology id: a fixed prefix before the id. -/
structure SnapshotUuid where
  id : ℕ
  deriving DecidableEq

namespace SnapshotUuid

instance : Ord SnapshotUuid := ⟨compareOn SnapshotUuid.id⟩

instance : Std.TransOrd SnapshotUuid :=
  inferInstanceAs (Std.TransCmp (compareOn SnapshotUuid.id))

instance : Std.LawfulEqOrd SnapshotUuid where
  eq_of_compare {a b} h := by
    cases a
    cases b
    exact congrArg _ (Std.LawfulEqOrd.eq_of_compare h)

end SnapshotUuid

def idToUuid (id : ℕ) : SnapshotUuid := ⟨id⟩

theorem idToUuid_injective : Function.Injective idToUuid :=
  fun _ _ h ↦ congrArg SnapshotUuid.id h

structure VertexData where
  position : F64 × F64 × F64
  tolerance : F64

structure EdgeData where
  startVertex : SnapshotUuid
  endVertex : SnapshotUuid
  curve : Option SnapshotUuid
  orientation : Bool

structure LoopData where
  edges : List SnapshotUuid
  orientations : List Bool
  isOuter : Bool

structure FaceData where
  surface : Option SnapshotUuid
  outerLoop : Option SnapshotUuid
  innerLoops : List SnapshotUuid
  orientation : Bool

inductive ShellType
  | open
  | closed
  | compound

structure ShellData where
  faces : List SnapshotUuid
  isClosed : Bool
  shellType : ShellType

structure SolidData where
  shells : List SnapshotUuid
  featureType : Option String
  peerShells : List SnapshotUuid

/-- Serializable snapshot of a B-Rep model. -/
structure BRepSnapshot (CurveData SurfaceData : Type) where
  vertices : List (SnapshotUuid × VertexData)
  curves : List (SnapshotUuid × CurveData)
  edges : List (SnapshotUuid × EdgeData)
  loops : List (SnapshotUuid × LoopData)
  faces : List (SnapshotUuid × FaceData)
  surfaces : List (SnapshotUuid × SurfaceData)
  shells : List (SnapshotUuid × ShellData)
  solids : List (SnapshotUuid × SolidData)

class CurveCodec (Curve : Type) (CurveData : outParam Type) where
  extractCurveData : Curve → CurveData
  buildCurveFromData : CurveData → Option Curve

class SurfaceCodec (Surface : Type) (SurfaceData : outParam Type) where
  extractSurfaceData : Surface → Option SurfaceData
  buildSurfaceFromData : SurfaceData → Option Surface

open IdStore CurveCodec SurfaceCodec

/-! ## From a model -/

def vertexData (vertex : Vertex) : VertexData := ⟨vertex.position, vertex.tolerance⟩

def edgeData (edge : Edge) : EdgeData :=
  ⟨idToUuid edge.startVertex, idToUuid edge.endVertex, some (idToUuid edge.curveId),
    edge.orientation = .forward⟩

def loopData (l : Loop) : LoopData :=
  ⟨l.edges.map idToUuid, l.orientations, l.loopType = .outer⟩

def faceData (face : Face) : FaceData :=
  ⟨some (idToUuid face.surfaceId), some (idToUuid face.outerLoop), face.innerLoops.map idToUuid,
    face.orientation = .forward⟩

def shellData (shell : Shell) : ShellData :=
  ⟨shell.faces.map idToUuid, shell.shellType = .closed,
    match shell.shellType with
    | .closed => .closed
    | .open => .open
    | _ => .open⟩

def solidData (solid : Solid) : SolidData :=
  ⟨idToUuid solid.outerShell :: solid.innerShells.map idToUuid, solid.name,
    solid.peerShells.map idToUuid⟩

section

variable {Curve Surface CurveData SurfaceData : Type} [CurveCodec Curve CurveData]
  [SurfaceCodec Surface SurfaceData]

def BRepSnapshot.fromModel (model : BRepModel Curve Surface) :
    Option (BRepSnapshot CurveData SurfaceData) := do
  let surfaces ← model.surfaces.iter.mapM fun e ↦
    (extractSurfaceData e.2).map (idToUuid e.1, ·)
  return {
    vertices := listing idToUuid vertexData model.vertices
    curves := listing idToUuid extractCurveData model.curves
    edges := listing idToUuid edgeData model.edges
    loops := listing idToUuid loopData model.loops
    surfaces
    faces := listing idToUuid faceData model.faces
    shells := listing idToUuid shellData model.shells
    solids := listing idToUuid solidData model.solids }

/-! ## To a model -/

abbrev IdMap := OrderedMap SnapshotUuid ℕ

def buildVertex (v : VertexData) : Option Vertex := some ⟨v.position, v.tolerance⟩

def buildEdge (vmap cmap : IdMap) (e : EdgeData) : Option Edge :=
  match vmap[e.startVertex]?, vmap[e.endVertex]? with
  | some start, some stop =>
    match e.curve.bind (cmap[·]?) with
    | some curveId =>
      let orientation := if e.orientation then .forward else .backward
      some ⟨start, stop, curveId, orientation, (0, 0x3ff0000000000000)⟩
    | none => none
  | _, _ => none

def buildLoop (emap : IdMap) (l : LoopData) : Option Loop :=
  let loopType := if l.isOuter then .outer else .inner
  let edges := l.edges.zipIdx.filterMap fun (uuid, i) ↦
    emap[uuid]?.map fun eid ↦ (eid, l.orientations.getD i true)
  some ⟨edges.map Prod.fst, edges.map Prod.snd, loopType⟩

def buildFace (smap lmap : IdMap) (f : FaceData) : Option Face :=
  match f.surface.bind (smap[·]?) with
  | some surfaceId =>
    match f.outerLoop.bind (lmap[·]?) with
    | some outerLoop =>
      let orientation := if f.orientation then .forward else .backward
      some ⟨surfaceId, outerLoop, f.innerLoops.filterMap (lmap[·]?), orientation⟩
    | none => none
  | none => none

def buildShell (fmap : IdMap) (sh : ShellData) : Option Shell :=
  let shellType := match sh.shellType with
    | .closed => GeoShellType.closed
    | .open => .open
    | .compound => .open
  some ⟨sh.faces.filterMap (fmap[·]?), shellType⟩

/-- The solid a snapshot describes: the first shell found is the outer one, the others are voids. -/
def buildSolid (shmap : IdMap) (sd : SolidData) : Option Solid :=
  match sd.shells.filterMap (shmap[·]?) with
  | [] => none
  | outer :: inner => some ⟨outer, inner, [], sd.featureType⟩

/-- Reconstruct a model from a snapshot, in dependency order. -/
def BRepSnapshot.toModel (snapshot : BRepSnapshot CurveData SurfaceData) :
    BRepModel Curve Surface :=
  let (vertices, vmap) := importAll buildVertex snapshot.vertices
  let (curves, cmap) := importAll buildCurveFromData snapshot.curves
  let (surfaces, smap) := importAll buildSurfaceFromData snapshot.surfaces
  let (edges, emap) := importAll (buildEdge vmap cmap) snapshot.edges
  let (loops, lmap) := importAll (buildLoop emap) snapshot.loops
  let (faces, fmap) := importAll (buildFace smap lmap) snapshot.faces
  let (shells, shmap) := importAll (buildShell fmap) snapshot.shells
  let (solids, _) := importAll (buildSolid shmap) snapshot.solids
  { vertices, curves, surfaces, edges, loops, faces, shells, solids }

end

end RosheraCad
