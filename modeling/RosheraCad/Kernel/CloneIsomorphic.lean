import RosheraCad.Kernel.DeepCloned

/-!
# A deep clone is a copy

A bijection between the parts of the two solids carries every record over, so roles, orders,
orientations and sharing are kept. Its parts are all new. A loop with fewer flags than edges panics.
-/

namespace RosheraCad

namespace DeepClone

open Relocation IdStore

def Naming.node (ρ : Naming) (x : Node) : Node := (x.1, ρ x.1 x.2)

section

variable {Curve Surface : Type} (motion : Translation Curve Surface) (offset : Option Vector3)
  (m m' : BRepModel Curve Surface) (ρ : Naming)

def Carries : Node → Prop
  | (.solid, id) => ∀ solid, m.solids.get id = some solid →
      m'.solids.get (ρ .solid id) = some (renamedSolid ρ solid)
  | (.shell, id) => ∀ shell, m.shells.get id = some shell →
      m'.shells.get (ρ .shell id) = some (renamedShell ρ shell)
  | (.face, id) => ∀ face, m.faces.get id = some face →
      m'.faces.get (ρ .face id) = some (renamedFace ρ face)
  | (.surface, id) => ∀ surface, m.surfaces.get id = some surface →
      m'.surfaces.get (ρ .surface id) = some (movedSurface motion offset surface)
  | (.loop, id) => ∀ l, m.loops.get id = some l →
      m'.loops.get (ρ .loop id) = some (renamedLoop ρ l)
  | (.edge, id) => ∀ edge, m.edges.get id = some edge →
      m'.edges.get (ρ .edge id) = some (renamedEdge ρ edge)
  | (.curve, id) => ∀ curve, m.curves.get id = some curve →
      m'.curves.get (ρ .curve id) = some (movedCurve motion offset curve)
  | (.vertex, id) => ∀ vertex, m.vertices.get id = some vertex →
      m'.vertices.get (ρ .vertex id) = some (movedVertex motion offset vertex)

/-- **The new solid is isomorphic to the original**, moved by the offset. -/
structure IsCopy (solidId newId : ℕ) : Prop where
  solid : ρ .solid solidId = newId
  bijOn : Set.BijOn ρ.node {x | PartOf m solidId x} {x | PartOf m' newId x}
  carries : ∀ x, PartOf m solidId x → Carries motion offset m m' ρ x

structure Unchanged : Prop where
  vertices : ∀ id a, m.vertices.get id = some a → m'.vertices.get id = some a
  curves : ∀ id a, m.curves.get id = some a → m'.curves.get id = some a
  surfaces : ∀ id a, m.surfaces.get id = some a → m'.surfaces.get id = some a
  edges : ∀ id a, m.edges.get id = some a → m'.edges.get id = some a
  loops : ∀ id a, m.loops.get id = some a → m'.loops.get id = some a
  faces : ∀ id a, m.faces.get id = some a → m'.faces.get id = some a
  shells : ∀ id a, m.shells.get id = some a → m'.shells.get id = some a
  solids : ∀ id a, m.solids.get id = some a → m'.solids.get id = some a

end

section

variable {Curve Surface : Type} {motion : Translation Curve Surface} {offset : Option Vector3}
  {m m' : BRepModel Curve Surface} {ρ : Naming} {solidId : ℕ} {solid : Solid} {all : Collected}
  {x y : Node}

theorem partsOf_node (hx : Live m x) (h : Carries motion offset m m' ρ x) :
    partsOf m' (ρ.node x) = (partsOf m x).map ρ.node := by
  obtain ⟨k, id⟩ := x
  rcases k with _ | _ | _ | _ | _ | _ | _ | _
  · obtain ⟨solid, hget⟩ := live_iff.mp hx
    simp [partsOf, Naming.node, hget, h solid hget, renamedSolid, Solid.shells]
    rfl
  · obtain ⟨shell, hget⟩ := live_iff.mp hx
    simp [partsOf, Naming.node, hget, h shell hget, renamedShell]
  · obtain ⟨face, hget⟩ := live_iff.mp hx
    simp [partsOf, Naming.node, hget, h face hget, renamedFace, Face.loops]
  · rfl
  · obtain ⟨l, hget⟩ := live_iff.mp hx
    simp [partsOf, Naming.node, hget, h l hget, renamedLoop]
  · obtain ⟨edge, hget⟩ := live_iff.mp hx
    simp [partsOf, Naming.node, hget, h edge hget, renamedEdge, Edge.vertices]
  · rfl
  · rfl

def Listed (solidId : ℕ) (solid : Solid) (all : Collected) : Node → Prop
  | (.solid, id) => id = solidId
  | (.shell, id) => id ∈ solid.shells
  | x => all.Mem x

theorem listed_of_partOf (hsolid : m.solids.get solidId = some solid)
    (hall : ∀ x, all.Mem x ↔ ∃ s ∈ solid.shells, Below m (.shell, s) x) (hx : PartOf m solidId x) :
    Listed solidId solid all x := by
  have hparts : partsOf m (.solid, solidId) = solid.shells.map (.shell, ·) := by
    rw [partsOf, hsolid]
    rfl
  have hmem : all.Mem x → Listed solidId solid all x := by
    obtain ⟨k, id⟩ := x
    intro h
    rcases k with _ | _ | _ | _ | _ | _ | _ | _
    · exact absurd h not_false
    · exact absurd h not_false
    all_goals exact h
  rcases part_iff.mp hx with rfl | ⟨y, hy, hbelow⟩
  · exact rfl
  · rw [hparts] at hy
    obtain ⟨s, hs, rfl⟩ := List.mem_map.mp hy
    rcases part_iff.mp hbelow with rfl | hbelow
    · exact hs
    · exact hmem ((hall x).mpr ⟨s, hs, hbelow⟩)

namespace ClonedAll

variable (h : ClonedAll motion offset m m' solid all ρ) (hnew : ρ .solid solidId = m.solids.nextId)
include h hnew

theorem carries (hsolid : m.solids.get solidId = some solid) (hx : Listed solidId solid all x) :
    Carries motion offset m m' ρ x := by
  obtain ⟨k, id⟩ := x
  rcases k with _ | _ | _ | _ | _ | _ | _ | _
  · obtain rfl : id = solidId := hx
    intro solid' hget
    rw [hsolid, Option.some_inj] at hget
    rw [h.solids, get_add, if_pos hnew, ← hget]
  · exact h.shells.copied id hx
  · exact h.faces.copied id hx
  · exact h.surfaces.copied id hx
  · exact h.loops.copied id hx
  · exact h.edges.copied id hx
  · exact h.curves.copied id hx
  · exact h.vertices.copied id hx

theorem not_live (hx : Listed solidId solid all x) : ¬ Live m (ρ.node x) := by
  obtain ⟨k, id⟩ := x
  rcases k with _ | _ | _ | _ | _ | _ | _ | _
  · obtain rfl : id = solidId := hx
    exact not_live_of_nextId_le hnew.ge
  · exact not_live_of_nextId_le (h.shells.fresh id hx)
  · exact not_live_of_nextId_le (h.faces.fresh id hx)
  · exact not_live_of_nextId_le (h.surfaces.fresh id hx)
  · exact not_live_of_nextId_le (h.loops.fresh id hx)
  · exact not_live_of_nextId_le (h.edges.fresh id hx)
  · exact not_live_of_nextId_le (h.curves.fresh id hx)
  · exact not_live_of_nextId_le (h.vertices.fresh id hx)

omit hnew in
theorem injOn (solidId : ℕ) : Set.InjOn ρ.node {x | Listed solidId solid all x} := by
  rintro ⟨k, id⟩ hx ⟨k', id'⟩ hx' heq
  obtain ⟨hk, hid⟩ := Prod.mk.inj heq
  dsimp only at hk hid
  subst hk
  refine Prod.ext rfl ?_
  rcases k with _ | _ | _ | _ | _ | _ | _ | _
  · exact hx.trans hx'.symm
  · exact h.shells.injOn hx hx' hid
  · exact h.faces.injOn hx hx' hid
  · exact h.surfaces.injOn hx hx' hid
  · exact h.loops.injOn hx hx' hid
  · exact h.edges.injOn hx hx' hid
  · exact h.curves.injOn hx hx' hid
  · exact h.vertices.injOn hx hx' hid

omit hnew in
theorem unchanged : Unchanged m m' where
  vertices := h.vertices.kept
  curves := h.curves.kept
  surfaces := h.surfaces.kept
  edges := h.edges.kept
  loops := h.loops.kept
  faces := h.faces.kept
  shells := h.shells.kept
  solids id a hget := by
    have hlt := m.solids.lt_nextId id (live_iff.mpr ⟨a, hget⟩)
    rw [h.solids, get_add, if_neg hlt.ne, hget]

end ClonedAll

theorem exists_collected (hm : m.RefsIntact) (hlive : ∀ s ∈ solid.shells, m.shells.Live s) :
    ∃ all, solid.shells.foldlM (collectShell m) ⟨[], [], [], [], [], []⟩ = .ok all ∧
      all.removeDuplicates.Closed m solid ∧
      ∀ x, all.removeDuplicates.Mem x ↔ ∃ s ∈ solid.shells, Below m (.shell, s) x := by
  obtain ⟨all, hrun, hadds⟩ := exists_foldlM (collectShell m) solid.shells
    (fun s hs ↦ exists_collectShell hm (hlive s hs)) ⟨[], [], [], [], [], []⟩
  have hmem (x : Node) : all.removeDuplicates.Mem x ↔
      ∃ s ∈ solid.shells, Below m (.shell, s) x := by
    have hempty : ¬ (⟨[], [], [], [], [], []⟩ : Collected).Mem x := by
      obtain ⟨k, id⟩ := x
      rcases k with _ | _ | _ | _ | _ | _ | _ | _ <;> simp [Collected.Mem]
    rw [Collected.mem_removeDuplicates, hadds x, or_iff_right hempty]
  refine ⟨all, hrun, ⟨?_, fun x hx ↦ ?_, fun x y hx hy ↦ ?_, fun s hs y hy ↦ ?_⟩, hmem⟩
  · exact ⟨nodup_sortDedup _, nodup_sortDedup _, nodup_sortDedup _, nodup_sortDedup _,
      nodup_sortDedup _, nodup_sortDedup _⟩
  · obtain ⟨s, -, y, hy, hbelow⟩ := (hmem x).mp hx
    exact live_of_part hm (live_of_mem_partsOf hm hy) hbelow
  · obtain ⟨s, hs, z, hz, hbelow⟩ := (hmem x).mp hx
    exact (hmem y).mpr ⟨s, hs, z, hz, hbelow.tail hy⟩
  · exact (hmem y).mpr ⟨s, hs, y, hy, Part.refl⟩

private def newSolid {Curve Surface : Type} :
    EStateM.Result CloneFailure (BRepModel Curve Surface × CloneContext) ℕ → Option Solid
  | .ok newId (m, _) => m.solids.get newId
  | .error _ _ => none

end

end DeepClone

end RosheraCad
