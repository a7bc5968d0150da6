import RosheraCad.Kernel.Model

/-!
# Entities of a model

A model seen as one store: an entity is a kind and an id, and what is stored there lists the
entities of the next kind it refers to. Solids refer to shells, shells to faces, faces to loops,
loops to edges and edges to vertices.
-/

namespace RosheraCad

inductive OperationError
  | invalidInput (parameter expected received : String)
  | invalidGeometry (message : String)
  | topologyError (message : String)
  deriving DecidableEq

/-- The shells of a solid: outer, void and peer. -/
def Solid.shells (solid : Solid) : List ℕ :=
  solid.outerShell :: (solid.innerShells ++ solid.peerShells)

def Face.loops (face : Face) : List ℕ := face.outerLoop :: face.innerLoops

def Edge.vertices (edge : Edge) : List ℕ := [edge.startVertex, edge.endVertex]

namespace Delete

inductive EntityType
  | solid
  | shell
  | face
  | loop
  | edge
  | vertex
  deriving DecidableEq

namespace EntityType

/-- The place of an entity type in the declaration. -/
def index : EntityType → ℕ
  | solid => 0
  | shell => 1
  | face => 2
  | loop => 3
  | edge => 4
  | vertex => 5

theorem index_injective : Function.Injective index := by
  intro a b h
  rcases a with _ | _ | _ | _ | _ | _ <;> rcases b with _ | _ | _ | _ | _ | _ <;> first
    | rfl
    | contradiction

theorem index_le (t : EntityType) : t.index ≤ 5 := by
  rcases t with _ | _ | _ | _ | _ | _ <;> decide

end EntityType

abbrev Entity := EntityType × ℕ

inductive EntityRecord
  | solid (solid : Solid)
  | shell (shell : Shell)
  | face (face : Face)
  | loop (loop : Loop)
  | edge (edge : Edge)
  | vertex (vertex : Vertex)
  deriving DecidableEq

def EntityRecord.refs : EntityRecord → List Entity
  | solid s => s.shells.map (.shell, ·)
  | shell s => s.faces.map (.face, ·)
  | face f => f.loops.map (.loop, ·)
  | loop l => l.edges.map (.edge, ·)
  | edge e => e.vertices.map (.vertex, ·)
  | vertex _ => []

def EntityRecord.type : EntityRecord → EntityType
  | solid _ => .solid
  | shell _ => .shell
  | face _ => .face
  | loop _ => .loop
  | edge _ => .edge
  | vertex _ => .vertex

theorem EntityRecord.index_of_mem_refs {r : EntityRecord} {y : Entity} (h : y ∈ r.refs) :
    y.1.index = r.type.index + 1 := by
  rcases r with s | s | f | l | e | v
  all_goals
    first
    | obtain ⟨id, -, rfl⟩ := List.mem_map.mp h
      rfl
    | exact absurd h List.not_mem_nil

end Delete

namespace BRepModel

variable {Curve Surface : Type} (m : BRepModel Curve Surface)

def entity : Delete.Entity → Option Delete.EntityRecord
  | (.solid, id) => (m.solids.get id).map .solid
  | (.shell, id) => (m.shells.get id).map .shell
  | (.face, id) => (m.faces.get id).map .face
  | (.loop, id) => (m.loops.get id).map .loop
  | (.edge, id) => (m.edges.get id).map .edge
  | (.vertex, id) => (m.vertices.get id).map .vertex

def Has (x : Delete.Entity) : Prop := ∃ r, m.entity x = some r

/-- Every reference resolves. -/
structure RefsIntact : Prop where
  entities : ∀ x r, m.entity x = some r → ∀ y ∈ r.refs, m.Has y
  curves : ∀ id edge, m.edges.get id = some edge → m.curves.Live edge.curveId
  surfaces : ∀ id face, m.faces.get id = some face → m.surfaces.Live face.surfaceId

def deleteEntity : Delete.Entity → BRepModel Curve Surface
  | (.solid, id) => { m with solids := m.solids.remove id }
  | (.shell, id) => { m with shells := m.shells.remove id }
  | (.face, id) => { m with faces := m.faces.remove id }
  | (.loop, id) => { m with loops := m.loops.remove id }
  | (.edge, id) => { m with edges := m.edges.remove id }
  | (.vertex, id) => { m with vertices := m.vertices.remove id }

variable {m} {x y : Delete.Entity} {r : Delete.EntityRecord}

theorem type_of_entity (h : m.entity x = some r) : r.type = x.1 := by
  obtain ⟨t, id⟩ := x
  rcases t with _ | _ | _ | _ | _ | _
  all_goals
    obtain ⟨a, -, rfl⟩ := Option.map_eq_some_iff.mp h
    rfl

theorem entity_deleteEntity (m : BRepModel Curve Surface) (x y : Delete.Entity) :
    (m.deleteEntity y).entity x = if x = y then none else m.entity x := by
  obtain ⟨t, id⟩ := x
  obtain ⟨u, id'⟩ := y
  rcases t with _ | _ | _ | _ | _ | _ <;> rcases u with _ | _ | _ | _ | _ | _
  all_goals
    simp only [deleteEntity, entity, IdStore.get_remove, Prod.mk.injEq, reduceCtorEq, false_and,
      true_and, if_false]
  all_goals
    by_cases hid : id = id'
    · simp [hid]
    · simp [hid]

theorem curves_deleteEntity (m : BRepModel Curve Surface) (y : Delete.Entity) :
    (m.deleteEntity y).curves = m.curves := by
  obtain ⟨t, id⟩ := y
  rcases t with _ | _ | _ | _ | _ | _ <;> rfl

theorem surfaces_deleteEntity (m : BRepModel Curve Surface) (y : Delete.Entity) :
    (m.deleteEntity y).surfaces = m.surfaces := by
  obtain ⟨t, id⟩ := y
  rcases t with _ | _ | _ | _ | _ | _ <;> rfl

/-! ## An example -/

/-- A solid with one shell over one face, whose boundary is a closed edge. -/
def oneFace (flags : List Bool) (faces innerShells : List ℕ) : BRepModel Unit Unit where
  vertices := .single ⟨(0, 0, 0), 0⟩
  curves := .single ()
  surfaces := .single ()
  edges := .single ⟨0, 0, 0, .forward, (0, 0)⟩
  loops := .single ⟨[0], flags, .outer⟩
  faces := .single ⟨0, 0, [], .forward⟩
  shells := .single ⟨faces, .closed⟩
  solids := .single ⟨0, innerShells, [], none⟩

theorem intact_oneFace {flags : List Bool} {faces innerShells : List ℕ}
    (hfaces : ∀ id ∈ faces, id = 0) (hshells : ∀ id ∈ innerShells, id = 0) :
    (oneFace flags faces innerShells).RefsIntact := by
  refine ⟨?_, ?_, ?_⟩
  · rintro ⟨t, id⟩ r hr y hy
    rcases t with _ | _ | _ | _ | _ | _
    all_goals
      obtain ⟨a, ha, rfl⟩ := Option.map_eq_some_iff.mp hr
      obtain ⟨rfl, rfl⟩ := IdStore.get_single.mp ha
    · obtain ⟨id, hid, rfl⟩ := List.mem_map.mp hy
      have hzero : id = 0 := by
        simp only [Solid.shells, List.append_nil, List.mem_cons] at hid
        exact hid.elim (fun h ↦ h) (hshells id)
      rw [hzero]
      exact ⟨.shell _, rfl⟩
    · obtain ⟨id, hid, rfl⟩ := List.mem_map.mp hy
      rw [hfaces id hid]
      exact ⟨.face _, rfl⟩
    · obtain rfl := List.mem_singleton.mp hy
      exact ⟨.loop _, rfl⟩
    · obtain rfl := List.mem_singleton.mp hy
      exact ⟨.edge _, rfl⟩
    · obtain ⟨id, hid, rfl⟩ := List.mem_map.mp hy
      have hzero : id = 0 := by simpa [Edge.vertices] using hid
      rw [hzero]
      exact ⟨.vertex _, rfl⟩
    · exact absurd hy List.not_mem_nil
  · intro id edge hedge
    obtain ⟨-, rfl⟩ := IdStore.get_single.mp hedge
    exact IdStore.live_iff.mpr ⟨(), rfl⟩
  · intro id face hface
    obtain ⟨-, rfl⟩ := IdStore.get_single.mp hface
    exact IdStore.live_iff.mpr ⟨(), rfl⟩

end BRepModel

end RosheraCad
