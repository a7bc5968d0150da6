import RosheraCad.Kernel.DeepCloned
import RosheraCad.Library.Transplant
import Mathlib.Data.List.ReduceOption

/-!
# Splicing an imported model

The ids of an imported model collide with those of a session's model. The splice adds all that the
solids refer to again, under new ids; a table for each kind keeps what is shared shared. A record is
built anew from some of its fields: a vertex gets the default tolerance, and a face loses its
parametric domain.
-/

namespace RosheraCad

open DeepClone

/-! ## Models with tolerances and domains -/

structure TolerantEdge extends Edge where
  tolerance : F64
  deriving DecidableEq

/-- `Edge::new`: an edge of the default tolerance. -/
def TolerantEdge.new (edge : Edge) : TolerantEdge := ⟨edge, tauWeld⟩

def TolerantEdge.setTolerance (edge : TolerantEdge) (tolerance : F64) : TolerantEdge :=
  { edge with tolerance }

structure MeasuredFace extends Face where
  uvBounds : (F64 × F64) × F64 × F64
  uvBoundsMeasured : Bool
  deriving DecidableEq

/-- `Face::new`: a face with the unit square as a placeholder. -/
def MeasuredFace.new (face : Face) : MeasuredFace :=
  ⟨face, ((0, 0x3FF0000000000000), (0, 0x3FF0000000000000)), false⟩

def MeasuredFace.measuredUvBounds (face : MeasuredFace) : Option ((F64 × F64) × F64 × F64) :=
  if face.uvBoundsMeasured then some face.uvBounds else none

inductive PartRecord (Curve Surface : Type)
  | solid (solid : Solid)
  | shell (shell : Shell)
  | face (face : MeasuredFace)
  | surface (surface : Surface)
  | loop (l : Loop)
  | edge (edge : TolerantEdge)
  | curve (curve : Curve)
  | vertex (vertex : Vertex)

/-- The entity stores of a model. -/
structure MeasuredModel (Curve Surface : Type) where
  vertices : IdStore Vertex
  curves : IdStore Curve
  surfaces : IdStore Surface
  edges : IdStore TolerantEdge
  loops : IdStore Loop
  faces : IdStore MeasuredFace
  shells : IdStore Shell
  solids : IdStore Solid

variable {Curve Surface : Type}

def PartRecord.kind : PartRecord Curve Surface → Kind
  | solid _ => .solid
  | shell _ => .shell
  | face _ => .face
  | surface _ => .surface
  | loop _ => .loop
  | edge _ => .edge
  | curve _ => .curve
  | vertex _ => .vertex

namespace MeasuredModel

variable (m : MeasuredModel Curve Surface)

/-- The model without the tolerances of its edges and the domains of its faces. -/
def topology : BRepModel Curve Surface where
  vertices := m.vertices
  curves := m.curves
  surfaces := m.surfaces
  edges := m.edges.map TolerantEdge.toEdge
  loops := m.loops
  faces := m.faces.map MeasuredFace.toFace
  shells := m.shells
  solids := m.solids

/-- What the model holds under an id. -/
def record : Kind → ℕ → Option (PartRecord Curve Surface)
  | .solid, id => (m.solids.get id).map .solid
  | .shell, id => (m.shells.get id).map .shell
  | .face, id => (m.faces.get id).map .face
  | .surface, id => (m.surfaces.get id).map .surface
  | .loop, id => (m.loops.get id).map .loop
  | .edge, id => (m.edges.get id).map .edge
  | .curve, id => (m.curves.get id).map .curve
  | .vertex, id => (m.vertices.get id).map .vertex

def nextId : Kind → ℕ
  | .solid => m.solids.nextId
  | .shell => m.shells.nextId
  | .face => m.faces.nextId
  | .surface => m.surfaces.nextId
  | .loop => m.loops.nextId
  | .edge => m.edges.nextId
  | .curve => m.curves.nextId
  | .vertex => m.vertices.nextId

/-- The `add` of the store of a record's kind. -/
def add : PartRecord Curve Surface → ℕ × MeasuredModel Curve Surface
  | .solid solid => ((m.solids.add solid).1, { m with solids := (m.solids.add solid).2 })
  | .shell shell => ((m.shells.add shell).1, { m with shells := (m.shells.add shell).2 })
  | .face face => ((m.faces.add face).1, { m with faces := (m.faces.add face).2 })
  | .surface surface =>
    ((m.surfaces.add surface).1, { m with surfaces := (m.surfaces.add surface).2 })
  | .loop l => ((m.loops.add l).1, { m with loops := (m.loops.add l).2 })
  | .edge edge => ((m.edges.add edge).1, { m with edges := (m.edges.add edge).2 })
  | .curve curve => ((m.curves.add curve).1, { m with curves := (m.curves.add curve).2 })
  | .vertex vertex => ((m.vertices.add vertex).1, { m with vertices := (m.vertices.add vertex).2 })

end MeasuredModel

/-! ## The splice -/

namespace Merge

open Transplant

/-- Per-merge id translation tables. -/
structure Remap where
  vertices : OrderedMap ℕ ℕ
  surfaces : OrderedMap ℕ ℕ
  edges : OrderedMap ℕ ℕ
  loops : OrderedMap ℕ ℕ
  faces : OrderedMap ℕ ℕ
  shells : OrderedMap ℕ ℕ

namespace Remap

def default : Remap := ⟨∅, ∅, ∅, ∅, ∅, ∅⟩

def table (remap : Remap) : Kind → OrderedMap ℕ ℕ
  | .shell => remap.shells
  | .face => remap.faces
  | .surface => remap.surfaces
  | .loop => remap.loops
  | .edge => remap.edges
  | .vertex => remap.vertices
  | .solid | .curve => ∅

def insert (remap : Remap) (k : Kind) (id new : ℕ) : Remap :=
  match k with
  | .shell => { remap with shells := remap.shells.insert id new }
  | .face => { remap with faces := remap.faces.insert id new }
  | .surface => { remap with surfaces := remap.surfaces.insert id new }
  | .loop => { remap with loops := remap.loops.insert id new }
  | .edge => { remap with edges := remap.edges.insert id new }
  | .vertex => { remap with vertices := remap.vertices.insert id new }
  | .solid | .curve => remap

end Remap

structure Splice (Curve Surface : Type) where
  dst : MeasuredModel Curve Surface
  remap : Remap

def Splice.add (st : Splice Curve Surface) (r : PartRecord Curve Surface) :
    ℕ × Splice Curve Surface :=
  ((st.dst.add r).1, { st with dst := (st.dst.add r).2 })

def Splice.note (id : ℕ) (st : Splice Curve Surface) (r : PartRecord Curve Surface) :
    ℕ × Splice Curve Surface :=
  ((st.dst.add r).1, ⟨(st.dst.add r).2, st.remap.insert r.kind id (st.dst.add r).1⟩)

variable (src : MeasuredModel Curve Surface) (st : Splice Curve Surface)

def remapVertex (srcVertex : ℕ) : Option ℕ × Splice Curve Surface :=
  memo st.remap.vertices[srcVertex]?
    (match src.vertices.get srcVertex with
    | none => (none, st)
    | some vertex => (some (.vertex ⟨vertex.position, tauWeld⟩), st))
    (Splice.note srcVertex) st

def remapSurface (srcSurface : ℕ) : Option ℕ × Splice Curve Surface :=
  memo st.remap.surfaces[srcSurface]?
    (match src.surfaces.get srcSurface with
    | none => (none, st)
    | some surface => (some (.surface surface), st))
    (Splice.note srcSurface) st

def remapEdge (srcEdge : ℕ) : Option ℕ × Splice Curve Surface :=
  memo st.remap.edges[srcEdge]?
    (match src.edges.get srcEdge with
    | none => (none, st)
    | some edge =>
      match remapVertex src st edge.startVertex with
      | (none, st) => (none, st)
      | (some sv, st) =>
        match remapVertex src st edge.endVertex with
        | (none, st) => (none, st)
        | (some ev, st) =>
          match src.curves.get edge.curveId with
          | none => (none, st)
          | some curve =>
            let (newCurve, st) := st.add (.curve curve)
            let newEdge := TolerantEdge.new ⟨sv, ev, newCurve, edge.orientation, edge.paramRange⟩
            (some (.edge (newEdge.setTolerance edge.tolerance)), st))
    (Splice.note srcEdge) st

def addRemapped (orientations : List Bool) (newLoop : Loop) : Option ℕ × ℕ → Loop
  | (some ne, idx) => addEdge newLoop ne (orientations[idx]?.getD true)
  | (none, _) => newLoop

def remapLoop (srcLoop : ℕ) : Option ℕ × Splice Curve Surface :=
  memo st.remap.loops[srcLoop]?
    (match src.loops.get srcLoop with
    | none => (none, st)
    | some lp =>
      let (edges, st) := each (remapEdge src) st lp.edges
      (some (.loop (edges.zipIdx.foldl (addRemapped lp.orientations) ⟨[], [], lp.loopType⟩)), st))
    (Splice.note srcLoop) st

def remapFace (srcFace : ℕ) : Option ℕ × Splice Curve Surface :=
  memo st.remap.faces[srcFace]?
    (match src.faces.get srcFace with
    | none => (none, st)
    | some face =>
      match remapSurface src st face.surfaceId with
      | (none, st) => (none, st)
      | (some surface, st) =>
        match remapLoop src st face.outerLoop with
        | (none, st) => (none, st)
        | (some outer, st) =>
          let (inner, st) := each (remapLoop src) st face.innerLoops
          (some (.face (.new ⟨surface, outer, inner.reduceOption, face.orientation⟩)), st))
    (Splice.note srcFace) st

def remapShell (srcShell : ℕ) : Option ℕ × Splice Curve Surface :=
  memo st.remap.shells[srcShell]?
    (match src.shells.get srcShell with
    | none => (none, st)
    | some shell =>
      let (faces, st) := each (remapFace src) st shell.faces
      (some (.shell ⟨faces.reduceOption, shell.shellType⟩), st))
    (Splice.note srcShell) st

def mergeOneSolid (srcSolid : ℕ) : Option ℕ × Splice Curve Surface :=
  match src.solids.get srcSolid with
  | none => (none, st)
  | some solid =>
    match remapShell src st solid.outerShell with
    | (none, st) => (none, st)
    | (some outer, st) =>
      let (voids, st) := each (remapShell src) st solid.innerShells
      let (peers, st) := each (remapShell src) st solid.peerShells
      -- An empty name is no name.
      let name := solid.name.filter (· ≠ "")
      let (new, st) := st.add (.solid ⟨outer, voids.reduceOption, peers.reduceOption, name⟩)
      (some new, st)

def mergeSolidsInto (dst src : MeasuredModel Curve Surface) :
    List ℕ × MeasuredModel Curve Surface :=
  let (out, st) := each (mergeOneSolid src) ⟨dst, .default⟩ (src.solids.iter.map Prod.fst)
  (out.reduceOption, st.dst)

end Merge

end RosheraCad
