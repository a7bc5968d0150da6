import RosheraCad.Kernel.DeepClone

/-!
# The parts of a solid

The parts of a solid form a graph over eight kinds of ids. What the walk of a deep clone collects is
exactly what is below the shells, so whatever a collected part refers to is collected too.
-/

namespace RosheraCad

namespace DeepClone

open Relocation

inductive Kind
  | solid
  | shell
  | face
  | surface
  | loop
  | edge
  | curve
  | vertex
  deriving DecidableEq

abbrev Node := Kind × ℕ

section Graph

variable {Curve Surface : Type} (m : BRepModel Curve Surface)

def partsOf : Node → List Node
  | (.solid, id) => (m.solids.get id).elim [] fun solid ↦ solid.shells.map (.shell, ·)
  | (.shell, id) => (m.shells.get id).elim [] fun shell ↦ shell.faces.map (.face, ·)
  | (.face, id) => (m.faces.get id).elim [] fun face ↦
      (.surface, face.surfaceId) :: face.loops.map (.loop, ·)
  | (.loop, id) => (m.loops.get id).elim [] fun l ↦ l.edges.map (.edge, ·)
  | (.edge, id) => (m.edges.get id).elim [] fun edge ↦
      (.curve, edge.curveId) :: edge.vertices.map (.vertex, ·)
  | _ => []

def Live : Node → Prop
  | (.solid, id) => m.solids.Live id
  | (.shell, id) => m.shells.Live id
  | (.face, id) => m.faces.Live id
  | (.surface, id) => m.surfaces.Live id
  | (.loop, id) => m.loops.Live id
  | (.edge, id) => m.edges.Live id
  | (.curve, id) => m.curves.Live id
  | (.vertex, id) => m.vertices.Live id

def PartOf (solidId : ℕ) (x : Node) : Prop := Part (partsOf m) (.solid, solidId) x

def LoopsOriented : Prop :=
  ∀ id l, m.loops.get id = some l → l.orientations.length = l.edges.length

variable {m} {x y : Node}

theorem live_of_has {t : Delete.EntityType} {id : ℕ} (h : m.Has (t, id)) :
    match t with
    | .solid => m.solids.Live id
    | .shell => m.shells.Live id
    | .face => m.faces.Live id
    | .loop => m.loops.Live id
    | .edge => m.edges.Live id
    | .vertex => m.vertices.Live id := by
  obtain ⟨r, hr⟩ := h
  rcases t with _ | _ | _ | _ | _ | _
  all_goals
    obtain ⟨a, ha, -⟩ := Option.map_eq_some_iff.mp hr
    exact IdStore.live_iff.mpr ⟨a, ha⟩

theorem exists_of_mem_elim {α : Type} {o : Option α} {g : α → List Node} (h : y ∈ o.elim [] g) :
    ∃ a, o = some a ∧ y ∈ g a := by
  rcases o with _ | a
  · exact absurd h List.not_mem_nil
  · exact ⟨a, rfl, h⟩

theorem live_of_mem_partsOf (hm : m.RefsIntact) (h : y ∈ partsOf m x) : Live m y := by
  obtain ⟨k, id⟩ := x
  have hrefs {t : Delete.EntityType} {r : Delete.EntityRecord} {e : Delete.Entity}
      (hr : m.entity (t, id) = some r) (he : e ∈ r.refs) : m.Has e :=
    hm.entities (t, id) r hr e he
  rcases k with _ | _ | _ | _ | _ | _ | _ | _
  · obtain ⟨solid, hget, h⟩ := exists_of_mem_elim h
    obtain ⟨s, hs, rfl⟩ := List.mem_map.mp h
    exact live_of_has (hrefs (t := .solid) (r := .solid solid)
      (by rw [BRepModel.entity, hget]; rfl) (List.mem_map_of_mem hs))
  · obtain ⟨shell, hget, h⟩ := exists_of_mem_elim h
    obtain ⟨face, hface, rfl⟩ := List.mem_map.mp h
    exact live_of_has (hrefs (t := .shell) (r := .shell shell)
      (by rw [BRepModel.entity, hget]; rfl) (List.mem_map_of_mem hface))
  · obtain ⟨face, hget, h⟩ := exists_of_mem_elim h
    rcases List.mem_cons.mp h with rfl | h
    · exact hm.surfaces id face hget
    · obtain ⟨l, hl, rfl⟩ := List.mem_map.mp h
      exact live_of_has (hrefs (t := .face) (r := .face face)
        (by rw [BRepModel.entity, hget]; rfl) (List.mem_map_of_mem hl))
  · exact absurd h List.not_mem_nil
  · obtain ⟨l, hget, h⟩ := exists_of_mem_elim h
    obtain ⟨edge, hedge, rfl⟩ := List.mem_map.mp h
    exact live_of_has (hrefs (t := .loop) (r := .loop l)
      (by rw [BRepModel.entity, hget]; rfl) (List.mem_map_of_mem hedge))
  · obtain ⟨edge, hget, h⟩ := exists_of_mem_elim h
    rcases List.mem_cons.mp h with rfl | h
    · exact hm.curves id edge hget
    · obtain ⟨v, hv, rfl⟩ := List.mem_map.mp h
      exact live_of_has (hrefs (t := .edge) (r := .edge edge)
        (by rw [BRepModel.entity, hget]; rfl) (List.mem_map_of_mem hv))
  · exact absurd h List.not_mem_nil
  · exact absurd h List.not_mem_nil

theorem live_of_part (hm : m.RefsIntact) (hx : Live m x) (h : Part (partsOf m) x y) : Live m y := by
  induction h with
  | refl => exact hx
  | tail _ hz _ => exact live_of_mem_partsOf hm hz

end Graph

/-! ## What the walk collects -/

section Collect

variable {Curve Surface : Type} {m : BRepModel Curve Surface}

def Collected.Mem (all : Collected) : Node → Prop
  | (.solid, _) => False
  | (.shell, _) => False
  | (.face, id) => id ∈ all.faces
  | (.surface, id) => id ∈ all.surfaces
  | (.loop, id) => id ∈ all.loops
  | (.edge, id) => id ∈ all.edges
  | (.curve, id) => id ∈ all.curves
  | (.vertex, id) => id ∈ all.vertices

def Adds (all all' : Collected) (P : Node → Prop) : Prop := ∀ x, all'.Mem x ↔ all.Mem x ∨ P x

/-- A step that always adds certain parts adds the parts of all entries of a list. -/
theorem exists_foldlM (step : Collected → ℕ → Except CloneFailure Collected) {P : ℕ → Node → Prop}
    (ids : List ℕ)
    (h : ∀ id ∈ ids, ∀ all, ∃ all', step all id = .ok all' ∧ Adds all all' (P id))
    (all : Collected) :
    ∃ all', ids.foldlM step all = .ok all' ∧ Adds all all' fun x ↦ ∃ id ∈ ids, P id x := by
  induction ids generalizing all with
  | nil => exact ⟨all, rfl, fun x ↦ by simp⟩
  | cons id ids ih =>
    obtain ⟨all₁, hstep, hadds⟩ := h id List.mem_cons_self all
    obtain ⟨all₂, hrest, hadds'⟩ := ih (fun i hi ↦ h i (List.mem_cons_of_mem _ hi)) all₁
    refine ⟨all₂, ?_, fun x ↦ ?_⟩
    · rw [List.foldlM_cons, hstep]
      exact hrest
    · rw [hadds' x, hadds x, or_assoc]
      simp only [List.mem_cons, exists_eq_or_imp]

theorem part_leaf {x y : Node} (h : partsOf m x = []) : Part (partsOf m) x y ↔ y = x := by
  rw [part_iff, h]
  simp

theorem exists_collectEdge {edgeId : ℕ} (h : Live m (.edge, edgeId)) (all : Collected) :
    ∃ all', collectEdge m all edgeId = .ok all' ∧
      Adds all all' (Part (partsOf m) (.edge, edgeId)) := by
  obtain ⟨edge, hget⟩ := IdStore.live_iff.mp h
  refine ⟨_, by rw [collectEdge, hget], fun x ↦ ?_⟩
  have hbelow : Part (partsOf m) (.edge, edgeId) x ↔ x = (.edge, edgeId) ∨
      x = (.curve, edge.curveId) ∨ x = (.vertex, edge.startVertex) ∨
        x = (.vertex, edge.endVertex) := by
    have hparts : partsOf m (.edge, edgeId) = [(.curve, edge.curveId),
        (.vertex, edge.startVertex), (.vertex, edge.endVertex)] := by
      rw [partsOf, hget]
      rfl
    rw [part_iff, hparts]
    simp [part_leaf (m := m) (x := (.curve, edge.curveId)) rfl,
      part_leaf (m := m) (x := (.vertex, edge.startVertex)) rfl,
      part_leaf (m := m) (x := (.vertex, edge.endVertex)) rfl]
  rw [hbelow]
  obtain ⟨k, id⟩ := x
  rcases k with _ | _ | _ | _ | _ | _ | _ | _ <;> simp [Collected.Mem]

def Below (m : BRepModel Curve Surface) (x y : Node) : Prop :=
  ∃ z ∈ partsOf m x, Part (partsOf m) z y

theorem exists_collectLoop (hm : m.RefsIntact) {loopId : ℕ} (h : Live m (.loop, loopId))
    (all : Collected) :
    ∃ all', collectLoop m all loopId = .ok all' ∧ Adds all all' (Below m (.loop, loopId)) := by
  obtain ⟨l, hget⟩ := IdStore.live_iff.mp h
  have hparts : partsOf m (.loop, loopId) = l.edges.map (.edge, ·) := by
    rw [partsOf, hget]
    rfl
  obtain ⟨all', hrun, hadds⟩ := exists_foldlM (collectEdge m) l.edges
    (fun edge hedge ↦ exists_collectEdge (live_of_mem_partsOf hm (x := (.loop, loopId))
      (hparts ▸ List.mem_map_of_mem hedge))) all
  refine ⟨all', by rw [collectLoop, hget]; exact hrun, fun x ↦ ?_⟩
  rw [hadds x, Below, hparts]
  simp only [List.mem_map, exists_exists_and_eq_and]

theorem exists_collectFace (hm : m.RefsIntact) {faceId : ℕ} (h : Live m (.face, faceId))
    (all : Collected) :
    ∃ all', collectFace m all faceId = .ok all' ∧
      Adds all all' (Part (partsOf m) (.face, faceId)) := by
  obtain ⟨face, hget⟩ := IdStore.live_iff.mp h
  have hparts : partsOf m (.face, faceId) =
      (.surface, face.surfaceId) :: face.loops.map (.loop, ·) := by
    rw [partsOf, hget]
    rfl
  obtain ⟨all', hrun, hadds⟩ := exists_foldlM (collectLoop m) face.loops
    (fun l hl ↦ exists_collectLoop hm (live_of_mem_partsOf hm (x := (.face, faceId))
      (hparts ▸ List.mem_cons_of_mem _ (List.mem_map_of_mem hl))))
    { all with
      faces := all.faces ++ [faceId]
      surfaces := all.surfaces ++ [face.surfaceId]
      loops := all.loops ++ face.loops }
  refine ⟨all', by rw [collectFace, hget]; exact hrun, fun x ↦ ?_⟩
  -- A loop is collected with its face, and what is below it after that.
  have hbelow : Part (partsOf m) (.face, faceId) x ↔ x = (.face, faceId) ∨
      x = (.surface, face.surfaceId) ∨ (∃ l ∈ face.loops, x = (.loop, l)) ∨
        ∃ l ∈ face.loops, Below m (.loop, l) x := by
    rw [part_iff, hparts, List.exists_mem_cons_iff, part_leaf rfl]
    simp only [List.mem_map, exists_exists_and_eq_and]
    have hloop (l : ℕ) : Part (partsOf m) (.loop, l) x ↔ x = (.loop, l) ∨ Below m (.loop, l) x :=
      part_iff
    simp only [hloop, and_or_left, exists_or]
  rw [hadds x, hbelow]
  obtain ⟨k, id⟩ := x
  rcases k with _ | _ | _ | _ | _ | _ | _ | _ <;> simp [Collected.Mem, or_assoc]

theorem exists_collectShell (hm : m.RefsIntact) {shellId : ℕ} (h : Live m (.shell, shellId))
    (all : Collected) :
    ∃ all', collectShell m all shellId = .ok all' ∧ Adds all all' (Below m (.shell, shellId)) := by
  obtain ⟨shell, hget⟩ := IdStore.live_iff.mp h
  have hparts : partsOf m (.shell, shellId) = shell.faces.map (.face, ·) := by
    rw [partsOf, hget]
    rfl
  obtain ⟨all', hrun, hadds⟩ := exists_foldlM (collectFace m) shell.faces
    (fun face hface ↦ exists_collectFace hm (live_of_mem_partsOf hm (x := (.shell, shellId))
      (hparts ▸ List.mem_map_of_mem hface))) all
  refine ⟨all', by rw [collectShell, hget]; exact hrun, fun x ↦ ?_⟩
  rw [hadds x, Below, hparts]
  simp only [List.mem_map, exists_exists_and_eq_and]

theorem mem_sortDedup {ids : List ℕ} {id : ℕ} : id ∈ sortDedup ids ↔ id ∈ ids := by
  rw [sortDedup, List.mem_dedup, (List.perm_insertionSort (· ≤ ·) ids).mem_iff]

theorem nodup_sortDedup (ids : List ℕ) : (sortDedup ids).Nodup := List.nodup_dedup _

theorem Collected.mem_removeDuplicates {all : Collected} {x : Node} :
    all.removeDuplicates.Mem x ↔ all.Mem x := by
  obtain ⟨k, id⟩ := x
  rcases k with _ | _ | _ | _ | _ | _ | _ | _ <;>
    simp [Collected.Mem, Collected.removeDuplicates, mem_sortDedup]

end Collect

end DeepClone

end RosheraCad
