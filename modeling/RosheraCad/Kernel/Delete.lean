import RosheraCad.Kernel.Entities
import RosheraCad.Library.Sweep
import Mathlib.Data.List.Destutter

/-!
# Deleting a solid

A deletion removes the solid, with `cascade` also its shells and their faces, and then sweeps the
whole model: at most six times it looks for entities nothing live refers to and removes them.
-/

namespace RosheraCad

namespace Delete

variable {D : ModelData}

section Used

variable {Curve Surface : Type} (m : BRepModel Curve Surface)

def isListed {α : Type} (s : IdStore α) (ids : α → List ℕ) (id : ℕ) : Bool :=
  s.iter.any fun e ↦ (ids e.2).contains id

def isVertexUsed (vertex : ℕ) : Bool := isListed m.edges Edge.vertices vertex

def isEdgeUsed (edge : ℕ) : Bool := isListed m.loops Loop.edges edge

def isLoopUsed (loop : ℕ) : Bool := isListed m.faces Face.loops loop

def isFaceUsed (face : ℕ) : Bool := isListed m.shells Shell.faces face

def isShellUsed (shell : ℕ) : Bool := isListed m.solids Solid.shells shell

def unused {α : Type} (type : EntityType) (s : IdStore α) (used : ℕ → Bool) : List Entity :=
  ((s.iter.map Prod.fst).filter (!used ·)).map (type, ·)

/-- The live entities nothing live refers to. -/
def findOrphanedEntities : List Entity :=
  unused .vertex m.vertices (isVertexUsed m) ++ unused .edge m.edges (isEdgeUsed m) ++
    unused .loop m.loops (isLoopUsed m) ++ unused .face m.faces (isFaceUsed m) ++
    unused .shell m.shells (isShellUsed m)

end Used

def deleteEntity (m : KernelModel D) (e : Entity) : KernelModel D :=
  { m with toBRepModel := m.toBRepModel.deleteEntity e }

/-- Remove the sidecar entries of a face; the face its persistent id leads to keeps it. -/
def purgeFaceSidecars (m : KernelModel D) (face : ℕ) : KernelModel D :=
  let m := { m with capApexHint := m.capApexHint.erase face }
  match m.facePids[face]? with
  | some pid =>
    let m := { m with facePids := m.facePids.erase face }
    if m.pidToFace[pid]? = some face then { m with pidToFace := m.pidToFace.erase pid } else m
  | none => m

def prunePass (m : KernelModel D) (orphans : List Entity) : KernelModel D :=
  orphans.foldl (fun m e ↦
    deleteEntity (if e.1 = .face then purgeFaceSidecars m e.2 else m) e) m

def prunePasses : ℕ → KernelModel D × List Entity → KernelModel D × List Entity
  | 0, acc => acc
  | passes + 1, (m, swept) =>
    let orphans := findOrphanedEntities m.toBRepModel
    if orphans.isEmpty then (m, swept)
    else prunePasses passes (prunePass m orphans, swept ++ orphans)

def sortKey (e : Entity) : ℕ ×ₗ ℕ := toLex (e.1.index, e.2)

def sortEntities (es : List Entity) : List Entity := es.insertionSort (sortKey · ≤ sortKey ·)

def pruneBooleanOrphanTopology (m : KernelModel D) : KernelModel D × List Entity :=
  let pruned := prunePasses 6 (m, [])
  (pruned.1, (sortEntities pruned.2).destutter (· ≠ ·))

def deleteShellCascade (acc : KernelModel D × List Entity) (shellId : ℕ) :
    KernelModel D × List Entity :=
  match acc.1.shells.get shellId with
  | some shell =>
    let m := shell.faces.foldl (fun m face ↦ deleteEntity m (.face, face)) acc.1
    (deleteEntity m (.shell, shellId),
      acc.2 ++ shell.faces.map (.face, ·) ++ [(.shell, shellId)])
  | none => acc

def pushNew (deleted : List Entity) (entry : Entity) : List Entity :=
  if deleted.contains entry then deleted else deleted ++ [entry]

def deleteSolidBody (solidId : ℕ) (cascade : Bool) : KernelOp D OperationError (List Entity) :=
  fun w ↦
    match w.model.solids.get solidId with
    | none =>
      (.error (.invalidInput "solid_id" "existing solid" (toString solidId)), w)
    | some solid =>
      let cascaded := if cascade then solid.shells.foldl deleteShellCascade (w.model, [])
        else (w.model, [])
      let pruned := pruneBooleanOrphanTopology (deleteEntity cascaded.1 (.solid, solidId))
      let deleted := pruned.2.foldl pushNew (cascaded.2 ++ [(.solid, solidId)])
      (.ok (sortEntities deleted), { w with model := pruned.1 })

def deleteSolid (solidId : ℕ) (cascade : Bool) : KernelOp D OperationError (List Entity) :=
  withRollback (deleteSolidBody solidId cascade)

/-! ## Orphans -/

section Orphans

variable {Curve Surface : Type} {m : BRepModel Curve Surface} {x y : Entity}

def refsOf (m : BRepModel Curve Surface) (x : Entity) : Set Entity :=
  {y | ∃ r, m.entity x = some r ∧ y ∈ r.refs}

theorem isListed_iff {α : Type} {s : IdStore α} {ids : α → List ℕ} {id : ℕ} :
    isListed s ids id = true ↔ ∃ n a, s.get n = some a ∧ id ∈ ids a := by
  rw [isListed, List.any_eq_true]
  constructor
  · rintro ⟨⟨n, a⟩, hmem, hid⟩
    exact ⟨n, a, IdStore.mem_iter.mp hmem, List.contains_iff_mem.mp hid⟩
  · rintro ⟨n, a, hget, hid⟩
    exact ⟨(n, a), IdStore.mem_iter.mpr hget, List.contains_iff_mem.mpr hid⟩

def isUsed (m : BRepModel Curve Surface) : Entity → Bool
  | (.solid, _) => true
  | (.shell, id) => isShellUsed m id
  | (.face, id) => isFaceUsed m id
  | (.loop, id) => isLoopUsed m id
  | (.edge, id) => isEdgeUsed m id
  | (.vertex, id) => isVertexUsed m id

theorem isUsed_iff (hy : y.1 ≠ .solid) : isUsed m y = true ↔ ∃ x, y ∈ refsOf m x := by
  obtain ⟨t, id⟩ := y
  rcases t with _ | _ | _ | _ | _ | _
  · contradiction
  all_goals
    simp only [isUsed, isShellUsed, isFaceUsed, isLoopUsed, isEdgeUsed, isVertexUsed, isListed_iff]
    constructor
    · rintro ⟨n, a, ha, hid⟩
      first
      | exact ⟨(.solid, n), .solid a, by rw [BRepModel.entity, ha]; rfl,
          List.mem_map_of_mem hid⟩
      | exact ⟨(.shell, n), .shell a, by rw [BRepModel.entity, ha]; rfl,
          List.mem_map_of_mem hid⟩
      | exact ⟨(.face, n), .face a, by rw [BRepModel.entity, ha]; rfl, List.mem_map_of_mem hid⟩
      | exact ⟨(.loop, n), .loop a, by rw [BRepModel.entity, ha]; rfl, List.mem_map_of_mem hid⟩
      | exact ⟨(.edge, n), .edge a, by rw [BRepModel.entity, ha]; rfl, List.mem_map_of_mem hid⟩
    · rintro ⟨⟨u, n⟩, r, hr, hmem⟩
      -- The type of what refers to it is the one before.
      have hindex := r.index_of_mem_refs hmem
      rw [BRepModel.type_of_entity hr] at hindex
      dsimp only at hindex
      rcases u with _ | _ | _ | _ | _ | _ <;> first
        | exact absurd hindex (by decide)
        | obtain ⟨a, ha, rfl⟩ := Option.map_eq_some_iff.mp hr
          obtain ⟨id', hid, heq⟩ := List.mem_map.mp hmem
          cases heq
          exact ⟨n, a, ha, hid⟩

theorem mem_unused {α : Type} {t u : EntityType} {s : IdStore α} {used : ℕ → Bool} {id : ℕ} :
    (u, id) ∈ unused t s used ↔ u = t ∧ s.Live id ∧ used id = false := by
  rw [unused, List.mem_map]
  constructor
  · rintro ⟨id', hmem, heq⟩
    obtain ⟨rfl, rfl⟩ := Prod.mk.inj heq
    obtain ⟨hlive, hused⟩ := List.mem_filter.mp hmem
    exact ⟨rfl, IdStore.mem_map_fst_iter.mp hlive, by simpa using hused⟩
  · rintro ⟨rfl, hlive, hused⟩
    exact ⟨id, List.mem_filter.mpr ⟨IdStore.mem_map_fst_iter.mpr hlive, by simpa using hused⟩, rfl⟩

theorem nodup_unused {α : Type} (t : EntityType) (s : IdStore α) (used : ℕ → Bool) :
    (unused t s used).Nodup :=
  (s.nodup_iter.filter _).map (Prod.mk_right_injective t)

theorem mem_findOrphanedEntities :
    y ∈ findOrphanedEntities m ↔ m.Has y ∧ y.1 ≠ .solid ∧ ¬ ∃ x, y ∈ refsOf m x := by
  by_cases hy : y.1 = .solid
  · obtain ⟨t, id⟩ := y
    obtain rfl : t = .solid := hy
    simp [findOrphanedEntities, mem_unused]
  · rw [← isUsed_iff hy]
    obtain ⟨t, id⟩ := y
    rcases t with _ | _ | _ | _ | _ | _
    · contradiction
    all_goals
      simp [findOrphanedEntities, mem_unused, isUsed, BRepModel.Has, BRepModel.entity,
        IdStore.live_iff]

theorem nodup_findOrphanedEntities (m : BRepModel Curve Surface) :
    (findOrphanedEntities m).Nodup := by
  have hdisjoint : ∀ {α β : Type} (t u : EntityType) (s : IdStore α) (s' : IdStore β) used used',
      t ≠ u → (unused t s used).Disjoint (unused u s' used') := by
    rintro α β t u s s' used used' htu ⟨v, id⟩ hmem hmem'
    exact htu ((mem_unused.mp hmem).1.symm.trans (mem_unused.mp hmem').1)
  simp only [findOrphanedEntities, List.nodup_append', List.disjoint_append_left, nodup_unused,
    hdisjoint, ne_eq, reduceCtorEq, not_false_eq_true, and_self]

end Orphans

end Delete

end RosheraCad
