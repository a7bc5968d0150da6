import RosheraCad.Kernel.Delete

/-!
# What a deletion leaves

The passes of the sweep leave what the remaining solids reach. The cascade before it removes nothing
they reach, as long as no shell has two solids and no face two shells. The list a deletion returns
names every removed entity.
-/

namespace RosheraCad

namespace Delete

variable {D : ModelData} {shells : List ℕ} {es : List Entity}

/-! ## Removing a list of entities -/

structure Removes (m m' : KernelModel D) (es : List Entity) : Prop where
  mem : ∀ e ∈ es, m.Has e
  entity : ∀ x, m'.toBRepModel.entity x = if x ∈ es then none else m.toBRepModel.entity x
  curves : m'.curves = m.curves
  surfaces : m'.surfaces = m.surfaces

namespace Removes

variable {m m' m'' : KernelModel D} {es es' : List Entity} {x : Entity} {r : EntityRecord}

theorem refl (m : KernelModel D) : Removes m m [] :=
  ⟨nofun, fun _ ↦ (if_neg List.not_mem_nil).symm, rfl, rfl⟩

theorem single {e : Entity} (he : m.Has e) : Removes m (deleteEntity m e) [e] where
  mem := by
    rintro x hx
    rwa [List.mem_singleton.mp hx]
  entity x := by
    simp only [List.mem_singleton]
    exact BRepModel.entity_deleteEntity _ _ _
  curves := BRepModel.curves_deleteEntity _ _
  surfaces := BRepModel.surfaces_deleteEntity _ _

section

variable (h : Removes m m' es)

include h

theorem entity_of_entity (hr : m'.toBRepModel.entity x = some r) :
    m.toBRepModel.entity x = some r := by
  rw [h.entity] at hr
  split at hr
  · contradiction
  · exact hr

theorem has_iff : m'.Has x ↔ m.Has x ∧ x ∉ es := by
  rw [BRepModel.Has, h.entity]
  by_cases hx : x ∈ es
  · simp [hx]
  · simp [hx, BRepModel.Has]

theorem disjoint (h' : Removes m' m'' es') : es.Disjoint es' :=
  fun _ hx hx' ↦ (h.has_iff.mp (h'.mem _ hx')).2 hx

theorem trans (h' : Removes m' m'' es') : Removes m m'' (es ++ es') where
  mem e he := by
    rcases List.mem_append.mp he with he | he
    · exact h.mem e he
    · exact (h.has_iff.mp (h'.mem e he)).1
  entity x := by
    rw [h'.entity, h.entity]
    by_cases hx : x ∈ es'
    · simp [hx]
    · by_cases hx' : x ∈ es
      · simp [hx']
      · simp [hx, hx']
  curves := h'.curves.trans h.curves
  surfaces := h'.surfaces.trans h.surfaces

theorem congr (hes : ∀ x, x ∈ es' ↔ x ∈ es) : Removes m m' es' where
  mem e he := h.mem e ((hes e).mp he)
  entity x := by
    simp only [h.entity, hes]
  curves := h.curves
  surfaces := h.surfaces

end

theorem entity_foldl {f : KernelModel D → Entity → KernelModel D}
    (hf : ∀ m e, (f m e).toBRepModel = m.toBRepModel.deleteEntity e) (es : List Entity)
    (m : KernelModel D) :
    (∀ x, (es.foldl f m).toBRepModel.entity x =
        if x ∈ es then none else m.toBRepModel.entity x) ∧
      (es.foldl f m).curves = m.curves ∧ (es.foldl f m).surfaces = m.surfaces := by
  induction es generalizing m with
  | nil => exact ⟨fun x ↦ (if_neg List.not_mem_nil).symm, rfl, rfl⟩
  | cons e es ih =>
    obtain ⟨hentity, hcurves, hsurfaces⟩ := ih (f m e)
    refine ⟨fun x ↦ ?_, ?_, ?_⟩
    · rw [List.foldl_cons, hentity, hf, BRepModel.entity_deleteEntity]
      by_cases hx : x ∈ es
      · simp [hx]
      · by_cases hxe : x = e
        · simp [hxe]
        · simp [hx, hxe]
    · rw [List.foldl_cons, hcurves, hf, BRepModel.curves_deleteEntity]
    · rw [List.foldl_cons, hsurfaces, hf, BRepModel.surfaces_deleteEntity]

theorem foldl {f : KernelModel D → Entity → KernelModel D}
    (hf : ∀ m e, (f m e).toBRepModel = m.toBRepModel.deleteEntity e)
    (hes : ∀ e ∈ es, m.Has e) : Removes m (es.foldl f m) es := by
  obtain ⟨hentity, hcurves, hsurfaces⟩ := entity_foldl hf es m
  exact ⟨hes, hentity, hcurves, hsurfaces⟩

theorem foldl_deleteEntity (m : KernelModel D) (es : List Entity) :
    Removes m (es.foldl deleteEntity m)
      (es.filter fun e ↦ (m.toBRepModel.entity e).isSome) := by
  obtain ⟨hentity, hcurves, hsurfaces⟩ :=
    entity_foldl (f := deleteEntity) (fun _ _ ↦ rfl) es m
  refine ⟨fun e he ↦ ?_, fun x ↦ ?_, hcurves, hsurfaces⟩
  · exact Option.isSome_iff_exists.mp (List.mem_filter.mp he).2
  · simp only [hentity, List.mem_filter]
    rcases hx : m.toBRepModel.entity x with - | r
    · simp
    · simp

theorem of_toBRepModel_eq (h : Removes m m' es) (heq : m''.toBRepModel = m'.toBRepModel) :
    Removes m m'' es :=
  ⟨h.mem, heq ▸ h.entity, heq ▸ h.curves, heq ▸ h.surfaces⟩

end Removes

/-! ## The passes -/

section Passes

variable {Curve Surface : Type}

def present (m : BRepModel Curve Surface) : Set Entity := {x | m.Has x}

/-- The solids, which a sweep never removes. -/
def solids : Set Entity := {x | x.1 = .solid}

theorem index_of_mem_refsOf {m : BRepModel Curve Surface} {x y : Entity} (h : y ∈ refsOf m x) :
    y.1.index = x.1.index + 1 := by
  obtain ⟨r, hr, hy⟩ := h
  rw [r.index_of_mem_refs hy, BRepModel.type_of_entity hr]

theorem index_eq_zero_iff {x : Entity} : x.1.index = 0 ↔ x ∈ solids :=
  ⟨fun h ↦ EntityType.index_injective h, fun h ↦ congrArg EntityType.index h⟩

def ReachedWithout (m : BRepModel Curve Surface) (solidId : ℕ) : Entity → Prop :=
  Sweep.Reached (refsOf m) solids {x | m.Has x ∧ x ≠ (.solid, solidId)}

/-- What is left when some entities are cut out and the rest is swept: what the remaining solids
reach. -/
def Left (m : BRepModel Curve Surface) (cut : Set Entity) : Entity → Prop :=
  Sweep.Reached (refsOf m) solids {x | m.Has x ∧ x ∉ cut}

theorem round_present {m m₀ : BRepModel Curve Surface}
    (hsub : ∀ x r, m.entity x = some r → m₀.entity x = some r) :
    Sweep.round (refsOf m₀) solids (present m) =
      {x | m.Has x ∧ x ∉ findOrphanedEntities m} := by
  ext x
  rw [Set.mem_ofPred_eq, mem_findOrphanedEntities]
  have hrefs : (∃ z ∈ present m, x ∈ refsOf m₀ z) ↔ ∃ z, x ∈ refsOf m z := by
    constructor
    · rintro ⟨z, ⟨r, hr⟩, r₀, hr₀, hx⟩
      rw [hsub z r hr, Option.some_inj] at hr₀
      exact ⟨z, r, hr, hr₀ ▸ hx⟩
    · rintro ⟨z, r, hr, hx⟩
      exact ⟨z, ⟨r, hr⟩, r, hsub z r hr, hx⟩
  rw [Sweep.round, Set.mem_ofPred_eq, hrefs]
  constructor
  · rintro ⟨hhas, hkept⟩
    refine ⟨hhas, fun ⟨_, hnot, hnone⟩ ↦ ?_⟩
    exact hkept.elim hnot hnone
  · rintro ⟨hhas, hnot⟩
    refine ⟨hhas, ?_⟩
    by_cases hsolid : x.1 = .solid
    · exact Or.inl hsolid
    · exact Or.inr (not_not.mp fun hnone ↦ hnot ⟨hhas, hsolid, hnone⟩)

theorem toBRepModel_purgeFaceSidecars (m : KernelModel D) (face : ℕ) :
    (purgeFaceSidecars m face).toBRepModel = m.toBRepModel := by
  simp only [purgeFaceSidecars]
  split
  · split <;> rfl
  · rfl

theorem toBRepModel_prunePass_step (m : KernelModel D) (e : Entity) :
    (deleteEntity (if e.1 = .face then purgeFaceSidecars m e.2 else m) e).toBRepModel =
      m.toBRepModel.deleteEntity e := by
  rw [deleteEntity]
  split
  · rw [toBRepModel_purgeFaceSidecars]
  · rfl

theorem removes_prunePass (m : KernelModel D) :
    Removes m (prunePass m (findOrphanedEntities m.toBRepModel))
      (findOrphanedEntities m.toBRepModel) :=
  Removes.foldl toBRepModel_prunePass_step fun _ he ↦ (mem_findOrphanedEntities.mp he).1

theorem exists_prunePasses {m₀ : BRepModel D.Curve D.Surface} (n : ℕ) (m : KernelModel D)
    (swept : List Entity)
    (hsub : ∀ x r, m.toBRepModel.entity x = some r → m₀.entity x = some r) :
    ∃ new, (prunePasses n (m, swept)).2 = swept ++ new ∧ new.Nodup ∧
      Removes m (prunePasses n (m, swept)).1 new ∧
      present (prunePasses n (m, swept)).1.toBRepModel =
        (Sweep.round (refsOf m₀) solids)^[n] (present m.toBRepModel) := by
  induction n generalizing m swept with
  | zero => exact ⟨[], (List.append_nil _).symm, List.nodup_nil, .refl m, rfl⟩
  | succ n ih =>
    have hround := round_present hsub
    rw [prunePasses]
    by_cases hempty : (findOrphanedEntities m.toBRepModel).isEmpty = true
    · -- Nothing is found, so every further round finds nothing.
      have hfixed : Sweep.round (refsOf m₀) solids (present m.toBRepModel) =
          present m.toBRepModel := by
        rw [hround, List.isEmpty_iff.mp hempty]
        simp [present]
      rw [if_pos hempty]
      exact ⟨[], (List.append_nil _).symm, List.nodup_nil, .refl m,
        (Function.iterate_fixed hfixed _).symm⟩
    · rw [if_neg hempty]
      have hpass := removes_prunePass m
      obtain ⟨new, hswept, hnodup, hremoves, hpresent⟩ := ih _
        (swept ++ findOrphanedEntities m.toBRepModel) fun x r hr ↦
          hsub x r (hpass.entity_of_entity hr)
      have hfirst : present (prunePass m (findOrphanedEntities m.toBRepModel)).toBRepModel =
          Sweep.round (refsOf m₀) solids (present m.toBRepModel) := by
        rw [hround]
        exact Set.ext fun x ↦ hpass.has_iff
      refine ⟨findOrphanedEntities m.toBRepModel ++ new, ?_, ?_, hpass.trans hremoves, ?_⟩
      · rw [hswept, List.append_assoc]
      · exact List.nodup_append'.mpr
          ⟨nodup_findOrphanedEntities _, hnodup, hpass.disjoint hremoves⟩
      · rw [hpresent, hfirst, Function.iterate_succ_apply]

theorem present_prunePasses {m₀ : BRepModel D.Curve D.Surface} {m : KernelModel D}
    (hsub : ∀ x r, m.toBRepModel.entity x = some r → m₀.entity x = some r) {x : Entity} :
    (prunePasses 6 (m, [])).1.Has x ↔
      Sweep.Reached (refsOf m₀) solids (present m.toBRepModel) x := by
  obtain ⟨new, -, -, -, hpresent⟩ := exists_prunePasses 6 m [] hsub
  have hmem : (prunePasses 6 (m, [])).1.Has x ↔
      x ∈ present (prunePasses 6 (m, [])).1.toBRepModel := Iff.rfl
  rw [hmem, hpresent]
  exact Sweep.mem_iterate_iff (fun e : Entity ↦ e.1.index) (fun _ _ ↦ index_of_mem_refsOf)
    (fun _ ↦ index_eq_zero_iff.mp) fun y _ ↦ y.1.index_le.trans (by omega)

end Passes

/-! ## The cascade -/

section Cascade

variable {Curve Surface : Type}

def ShellsOwned (m : BRepModel Curve Surface) : Prop :=
  ∀ s s' solid solid', m.solids.get s = some solid → m.solids.get s' = some solid' →
    ∀ shell ∈ solid.shells, shell ∈ solid'.shells → s = s'

def FacesOwned (m : BRepModel Curve Surface) : Prop :=
  ∀ s s' shell shell', m.shells.get s = some shell → m.shells.get s' = some shell' →
    ∀ face ∈ shell.faces, face ∈ shell'.faces → s = s'

def InCascade (m : BRepModel Curve Surface) (shells : List ℕ) : Entity → Prop
  | (.shell, id) => id ∈ shells
  | (.face, id) => ∃ s ∈ shells, ∃ shell, m.shells.get s = some shell ∧ id ∈ shell.faces
  | _ => False

def NoFaceTwice (m : BRepModel Curve Surface) (shells : List ℕ) : Prop :=
  ∀ s ∈ shells, ∀ shell, m.shells.get s = some shell → shell.faces.Nodup

variable {m : KernelModel D} {shell : Shell}

theorem entity_shell {m : BRepModel Curve Surface} {s : ℕ} :
    m.entity (.shell, s) = some (.shell shell) ↔ m.shells.get s = some shell := by
  rw [BRepModel.entity, Option.map_eq_some_iff]
  constructor
  · rintro ⟨a, ha, heq⟩
    exact (EntityRecord.shell.inj heq) ▸ ha
  · exact fun h ↦ ⟨shell, h, rfl⟩

theorem has_face (hm : m.RefsIntact) {s face : ℕ}
    (hs : m.shells.get s = some shell) (hface : face ∈ shell.faces) : m.Has (.face, face) :=
  hm.entities (.shell, s) (.shell shell) (entity_shell.mpr hs) _ (List.mem_map_of_mem hface)

theorem removes_deleteShellCascade {m' : KernelModel D} (deleted : List Entity) {s : ℕ}
    (hs : m'.shells.get s = some shell)
    (hfaces : ∀ face ∈ shell.faces, m'.Has (.face, face)) :
    Removes m' (deleteShellCascade (m', deleted) s).1
        (shell.faces.map (.face, ·) ++ [(.shell, s)]) ∧
      (deleteShellCascade (m', deleted) s).2 =
        deleted ++ (shell.faces.map (.face, ·) ++ [(.shell, s)]) := by
  have hlisted : ∀ e ∈ shell.faces.map (EntityType.face, ·), m'.Has e := by
    intro e he
    obtain ⟨face, hface, rfl⟩ := List.mem_map.mp he
    exact hfaces face hface
  have hfold := Removes.foldl (f := deleteEntity) (fun _ _ ↦ rfl) hlisted
  rw [List.foldl_map] at hfold
  have hthere : (shell.faces.foldl (fun m face ↦ deleteEntity m (.face, face)) m').Has
      (.shell, s) := by
    refine hfold.has_iff.mpr ⟨⟨_, entity_shell.mpr hs⟩, fun hmem ↦ ?_⟩
    obtain ⟨face, -, heq⟩ := List.mem_map.mp hmem
    exact absurd (congrArg Prod.fst heq) nofun
  simp only [deleteShellCascade, hs, List.append_assoc, and_true]
  exact hfold.trans (.single hthere)

theorem inCascade_concat {m : BRepModel Curve Surface} {s : ℕ}
    (hs : m.shells.get s = some shell) (x : Entity) :
    InCascade m (shells ++ [s]) x ↔
      InCascade m shells x ∨ x ∈ shell.faces.map (EntityType.face, ·) ++ [(.shell, s)] := by
  obtain ⟨t, id⟩ := x
  rcases t with _ | _ | _ | _ | _ | _
  · simp [InCascade]
  · simp [InCascade]
  · simp only [InCascade, List.mem_append, List.mem_singleton, List.mem_map, Prod.mk.injEq,
      reduceCtorEq, false_and, or_false, true_and, exists_eq_right]
    constructor
    · rintro ⟨s', hs' | rfl, shell', hshell', hid⟩
      · exact Or.inl ⟨s', hs', shell', hshell', hid⟩
      · rw [hs, Option.some_inj] at hshell'
        exact Or.inr (hshell' ▸ hid)
    · rintro (⟨s', hs', shell', hshell', hid⟩ | hid)
      · exact ⟨s', Or.inl hs', shell', hshell', hid⟩
      · exact ⟨s, Or.inr rfl, shell, hs, hid⟩
  · simp [InCascade]
  · simp [InCascade]
  · simp [InCascade]

theorem noFaceTwice_concat {m : BRepModel Curve Surface} {s : ℕ}
    (hs : m.shells.get s = some shell) :
    NoFaceTwice m (shells ++ [s]) ↔ NoFaceTwice m shells ∧ shell.faces.Nodup := by
  constructor
  · intro h
    exact ⟨fun s' hs' ↦ h s' (List.mem_append_left _ hs'),
      h s (List.mem_append_right _ List.mem_cons_self) shell hs⟩
  · rintro ⟨h, hnodup⟩ s' hs' shell' hshell'
    rcases List.mem_append.mp hs' with hs' | hs'
    · exact h s' hs' shell' hshell'
    · rw [List.mem_singleton.mp hs', hs, Option.some_inj] at hshell'
      exact hshell' ▸ hnodup

theorem removes_cascade (hm : m.RefsIntact) (howned : FacesOwned m.toBRepModel)
    (hlive : ∀ s ∈ shells, m.shells.Live s) :
    Removes m (shells.foldl deleteShellCascade (m, [])).1
        (shells.foldl deleteShellCascade (m, [])).2 ∧
      (∀ x, x ∈ (shells.foldl deleteShellCascade (m, [])).2 ↔
        InCascade m.toBRepModel shells x) ∧
      ((shells.foldl deleteShellCascade (m, [])).2.Nodup ↔
        NoFaceTwice m.toBRepModel shells) := by
  induction shells using List.reverseRecOn with
  | nil =>
    refine ⟨.refl m, fun x ↦ iff_of_false List.not_mem_nil ?_, iff_of_true List.nodup_nil nofun⟩
    obtain ⟨t, id⟩ := x
    rcases t with _ | _ | _ | _ | _ | _ <;> simp [InCascade]
  | append_singleton shells s ih =>
    obtain ⟨hremoves, hmem, hnodup⟩ := ih fun s hs ↦ hlive s (List.mem_append_left _ hs)
    obtain ⟨shell, hs⟩ := IdStore.live_iff.mp (hlive s (List.mem_append_right _ List.mem_cons_self))
    rw [List.foldl_append, List.foldl_cons, List.foldl_nil, noFaceTwice_concat hs, ← hnodup]
    simp only [inCascade_concat hs, ← hmem]
    generalize shells.foldl deleteShellCascade (m, []) = acc at hremoves hmem hnodup ⊢
    obtain ⟨m', deleted⟩ := acc
    dsimp only at hremoves hmem hnodup ⊢
    have hentity := hremoves.entity (.shell, s)
    by_cases hseen : s ∈ shells
    · -- The solid lists the shell again; it is gone.
      have hgone : m'.shells.get s = none := by
        rw [if_pos ((hmem (.shell, s)).mpr hseen)] at hentity
        exact Option.map_eq_none_iff.mp hentity
      have hsame : deleteShellCascade (m', deleted) s = (m', deleted) := by
        simp [deleteShellCascade, hgone]
      rw [hsame]
      refine ⟨hremoves, fun x ↦ (or_iff_left_of_imp fun hx ↦ ?_).symm,
        (and_iff_left_of_imp fun hd ↦ hnodup.mp hd s hseen shell hs).symm⟩
      rcases List.mem_append.mp hx with hx | hx
      · obtain ⟨face, hface, rfl⟩ := List.mem_map.mp hx
        exact (hmem _).mpr ⟨s, hseen, shell, hs, hface⟩
      · rw [List.mem_singleton.mp hx]
        exact (hmem _).mpr hseen
    · have hthere : m'.shells.get s = some shell := by
        rw [if_neg fun h ↦ hseen ((hmem (.shell, s)).mp h), entity_shell.mpr hs] at hentity
        exact entity_shell.mp hentity
      -- A face another listed shell had would have two shells.
      have hfaces : ∀ face ∈ shell.faces, m'.Has (.face, face) := by
        intro face hface
        refine hremoves.has_iff.mpr ⟨has_face hm hs hface, fun h ↦ ?_⟩
        obtain ⟨s', hs', shell', hshell', hface'⟩ := (hmem _).mp h
        exact hseen (howned s s' shell shell' hs hshell' face hface hface' ▸ hs')
      obtain ⟨hnew, hlist⟩ := removes_deleteShellCascade deleted hthere hfaces
      rw [hlist]
      refine ⟨hremoves.trans hnew, fun x ↦ List.mem_append, ?_⟩
      rw [List.nodup_append', and_iff_left (hremoves.disjoint hnew), List.nodup_append']
      refine and_congr_right fun _ ↦ ⟨fun h ↦ h.1.of_map _, fun h ↦ ⟨?_, ?_, ?_⟩⟩
      · exact h.map (Prod.mk_right_injective _)
      · exact List.nodup_singleton _
      · intro x hx hx'
        obtain ⟨face, -, rfl⟩ := List.mem_map.mp hx
        exact absurd (congrArg Prod.fst (List.mem_singleton.mp hx')) nofun

end Cascade

/-! ## The whole deletion -/

theorem sortKey_injective : Function.Injective sortKey := by
  rintro ⟨t, id⟩ ⟨u, id'⟩ h
  obtain ⟨hindex, rfl⟩ := Prod.mk.inj (toLex_inj.mp h)
  exact Prod.ext (EntityType.index_injective hindex) rfl

instance : Std.Total (fun a b : Entity ↦ sortKey a ≤ sortKey b) :=
  ⟨fun a b ↦ le_total (sortKey a) (sortKey b)⟩

instance : IsTrans Entity (fun a b ↦ sortKey a ≤ sortKey b) := ⟨fun _ _ _ ↦ le_trans⟩

/-- The list is sorted, without duplicates. -/
def Ascending (es : List Entity) : Prop := es.Pairwise (sortKey · < sortKey ·)

theorem Ascending.nodup (h : Ascending es) : es.Nodup :=
  h.imp fun hlt heq ↦ hlt.ne (congrArg sortKey heq)

theorem ascending_sortEntities : Ascending (sortEntities es) ↔ es.Nodup := by
  have hsorted : (sortEntities es).Pairwise (sortKey · ≤ sortKey ·) :=
    List.pairwise_insertionSort _ es
  rw [Ascending, ← (List.perm_insertionSort (sortKey · ≤ sortKey ·) es).nodup_iff]
  constructor
  · exact Ascending.nodup
  · intro h
    exact (hsorted.and h).imp fun ⟨hle, hne⟩ ↦ lt_of_le_of_ne hle fun heq ↦ hne
      (sortKey_injective heq)

theorem foldl_pushNew {es deleted : List Entity} (hnodup : es.Nodup)
    (hdisjoint : deleted.Disjoint es) : es.foldl pushNew deleted = deleted ++ es := by
  induction es generalizing deleted with
  | nil => exact (List.append_nil _).symm
  | cons e es ih =>
    obtain ⟨he, hnodup⟩ := List.nodup_cons.mp hnodup
    have hnew : e ∉ deleted := fun h ↦ hdisjoint h List.mem_cons_self
    rw [List.foldl_cons, pushNew, if_neg (by simpa using hnew), ih hnodup, List.append_assoc]
    · rfl
    · intro x hx hx'
      rcases List.mem_append.mp hx with hx | hx
      · exact hdisjoint hx (List.mem_cons_of_mem _ hx')
      · exact he (List.mem_singleton.mp hx ▸ hx')

theorem destutter_sortEntities (h : es.Nodup) :
    (sortEntities es).destutter (· ≠ ·) = sortEntities es :=
  List.destutter_of_isChain _ _ ((List.perm_insertionSort _ es).nodup_iff.mpr h).isChain

/-- **What a deletion leaves**: what the remaining solids reach, unchanged, with every reference
resolved. -/
structure LeavesReached (m m' : KernelModel D) (solidId : ℕ) : Prop where
  has_iff : ∀ x, m'.Has x ↔ ReachedWithout m.toBRepModel solidId x
  unchanged : ∀ x r, m'.toBRepModel.entity x = some r → m.toBRepModel.entity x = some r
  curves : m'.curves = m.curves
  surfaces : m'.surfaces = m.surfaces
  intact : m'.RefsIntact

/-- The list names exactly what was there and is not any more, sorted and without duplicates. -/
structure ReturnsRemoved (m m' : KernelModel D) (es : List Entity) : Prop where
  mem_iff : ∀ x, x ∈ es ↔ m.Has x ∧ ¬ m'.Has x
  ascending : Ascending es

section Whole

variable {m : KernelModel D} {solidId : ℕ} {solid : Solid}

theorem not_inCascade_of_reached (hshells : ShellsOwned m.toBRepModel)
    (hfaces : FacesOwned m.toBRepModel) (hsolid : m.solids.get solidId = some solid)
    (hsub : ∀ s ∈ shells, s ∈ solid.shells) {x : Entity}
    (h : ReachedWithout m.toBRepModel solidId x) : ¬ InCascade m.toBRepModel shells x := by
  induction h with
  | @root y hy hroot =>
    obtain ⟨t, id⟩ := y
    obtain rfl : t = .solid := hroot
    exact not_false
  | @ref y z hy hyz hz ih =>
    obtain ⟨r, hr, hmem⟩ := hyz
    obtain ⟨u, n⟩ := y
    rcases u with _ | _ | _ | _ | _ | _
    · -- Another solid's shell.
      obtain ⟨other, hother, rfl⟩ := Option.map_eq_some_iff.mp hr
      obtain ⟨s, hs, rfl⟩ := List.mem_map.mp hmem
      intro hin
      obtain rfl := hshells solidId n solid other hsolid hother s (hsub s hin) hs
      exact hy.mem.2 rfl
    · -- A face of a shell that is not in the cascade.
      obtain ⟨shell, hshell, rfl⟩ := Option.map_eq_some_iff.mp hr
      obtain ⟨face, hface, rfl⟩ := List.mem_map.mp hmem
      rintro ⟨s, hs, shell', hshell', hface'⟩
      obtain rfl := hfaces n s shell shell' hshell hshell' face hface hface'
      exact ih hs
    all_goals
      obtain ⟨a, -, rfl⟩ := Option.map_eq_some_iff.mp hr
      first
      | obtain ⟨id', -, rfl⟩ := List.mem_map.mp hmem
        exact not_false
      | exact absurd hmem List.not_mem_nil

def cascaded (m : KernelModel D) (solid : Solid) (cascade : Bool) : KernelModel D × List Entity :=
  if cascade then solid.shells.foldl deleteShellCascade (m, []) else (m, [])

def cascadeShells (solid : Solid) (cascade : Bool) : List ℕ := if cascade then solid.shells else []

theorem cascaded_eq (m : KernelModel D) (solid : Solid) (cascade : Bool) :
    cascaded m solid cascade = (cascadeShells solid cascade).foldl deleteShellCascade (m, []) := by
  rcases cascade with _ | _ <;> rfl

theorem deleteSolidBody_of_get {w : World D} (hsolid : w.model.solids.get solidId = some solid)
    (cascade : Bool) : deleteSolidBody solidId cascade w =
      (.ok (sortEntities ((pruneBooleanOrphanTopology
        (deleteEntity (cascaded w.model solid cascade).1 (.solid, solidId))).2.foldl pushNew
          ((cascaded w.model solid cascade).2 ++ [(.solid, solidId)]))),
        { w with model := (pruneBooleanOrphanTopology
          (deleteEntity (cascaded w.model solid cascade).1 (.solid, solidId))).1 }) := by
  simp only [deleteSolidBody, hsolid, cascaded]

theorem live_of_mem_shells (hm : m.RefsIntact) (hsolid : m.solids.get solidId = some solid) {s : ℕ}
    (hs : s ∈ solid.shells) : m.shells.Live s := by
  obtain ⟨r, hr⟩ := hm.entities (.solid, solidId) (.solid solid)
    (by rw [BRepModel.entity, hsolid]; rfl) _ (List.mem_map_of_mem hs)
  obtain ⟨shell, hshell, -⟩ := Option.map_eq_some_iff.mp hr
  exact IdStore.live_iff.mpr ⟨shell, hshell⟩

/-- **A deletion, step by step**: it removes the cascade, the solid and the sweep, and returns
these. -/
theorem exists_deleteSolidBody {w : World D} (hm : w.model.RefsIntact)
    (hshells : ShellsOwned w.model.toBRepModel) (hfaces : FacesOwned w.model.toBRepModel)
    (hsolid : w.model.solids.get solidId = some solid) (cascade : Bool) :
    ∃ (m' : KernelModel D) (removed : List Entity),
      deleteSolidBody solidId cascade w = (.ok (sortEntities removed), { w with model := m' }) ∧
      Removes w.model m' removed ∧
      (∀ x, m'.Has x ↔ ReachedWithout w.model.toBRepModel solidId x) ∧
      (removed.Nodup ↔ NoFaceTwice w.model.toBRepModel (cascadeShells solid cascade)) := by
  have hsub : ∀ s ∈ cascadeShells solid cascade, s ∈ solid.shells := by
    intro s hs
    rcases cascade with _ | _
    · exact absurd hs List.not_mem_nil
    · exact hs
  obtain ⟨hremoves, hmem, hnodup⟩ := removes_cascade hm hfaces (m := w.model) fun s hs ↦
    live_of_mem_shells hm hsolid (hsub s hs)
  rw [← cascaded_eq] at hremoves hmem hnodup
  -- The solid is not in the cascade.
  have hthere : (cascaded w.model solid cascade).1.Has (.solid, solidId) := by
    refine hremoves.has_iff.mpr ⟨⟨.solid solid, by rw [BRepModel.entity, hsolid]; rfl⟩, fun h ↦ ?_⟩
    exact (hmem _).mp h
  have hsecond := hremoves.trans (.single hthere)
  obtain ⟨new, hlist, hnew, hswept, -⟩ := exists_prunePasses 6 _ [] fun x r ↦
    hsecond.entity_of_entity (x := x) (r := r)
  have hreached (x : Entity) := present_prunePasses (x := x) fun y r ↦
    hsecond.entity_of_entity (x := y) (r := r)
  have hall := hsecond.trans hswept
  have hdisjoint := hsecond.disjoint hswept
  have hperm : (sortEntities new).Perm new := List.perm_insertionSort _ new
  rw [List.nil_append] at hlist
  refine ⟨(prunePasses 6 (deleteEntity (cascaded w.model solid cascade).1 (.solid, solidId), [])).1,
    (cascaded w.model solid cascade).2 ++ [(.solid, solidId)] ++ sortEntities new, ?_, ?_,
    fun x ↦ ?_, ?_⟩
  · -- The sweep names nothing the cascade named, so all of it is appended.
    have hpush : (sortEntities new).foldl pushNew
        ((cascaded w.model solid cascade).2 ++ [(.solid, solidId)]) =
        (cascaded w.model solid cascade).2 ++ [(.solid, solidId)] ++ sortEntities new :=
      foldl_pushNew (hperm.nodup_iff.mpr hnew) fun x hx hx' ↦ hdisjoint hx (hperm.mem_iff.mp hx')
    rw [← hpush, ← destutter_sortEntities hnew, ← hlist]
    have hbody := deleteSolidBody_of_get hsolid cascade
    rw [pruneBooleanOrphanTopology] at hbody
    exact hbody
  · exact hall.congr fun x ↦ by simp only [List.mem_append, hperm.mem_iff]
  · rw [hreached, ReachedWithout]
    constructor
    · refine Sweep.Reached.mono fun y hy ↦ ?_
      obtain ⟨hhas, hnot⟩ := hsecond.has_iff.mp hy.mem
      exact ⟨hhas, fun heq ↦ hnot (List.mem_append_right _ (List.mem_singleton.mpr heq))⟩
    · refine Sweep.Reached.mono fun y hy ↦ hsecond.has_iff.mpr ⟨hy.mem.1, fun hin ↦ ?_⟩
      rcases List.mem_append.mp hin with hin | hin
      · exact not_inCascade_of_reached hshells hfaces hsolid hsub hy ((hmem y).mp hin)
      · exact hy.mem.2 (List.mem_singleton.mp hin)
  · rw [← hnodup, List.nodup_append', List.nodup_append']
    constructor
    · exact fun h ↦ h.1.1
    · intro h
      refine ⟨⟨h, List.nodup_singleton _, fun x hx hx' ↦ ?_⟩, hperm.nodup_iff.mpr hnew,
        fun x hx hx' ↦ hdisjoint hx (hperm.mem_iff.mp hx')⟩
      rw [List.mem_singleton.mp hx'] at hx
      exact (hmem _).mp hx

theorem intact_iff_closed {m m' : KernelModel D} (hm : m.RefsIntact) {removed : List Entity}
    (hremoves : Removes m m' removed) :
    m'.RefsIntact ↔ Sweep.Closed (refsOf m.toBRepModel) (present m'.toBRepModel) := by
  constructor
  · rintro hm' x ⟨r, hr⟩ y ⟨r', hr', hy⟩
    rw [hremoves.entity_of_entity hr, Option.some_inj] at hr'
    exact hm'.entities x r hr y (hr' ▸ hy)
  · intro hclosed
    refine ⟨fun x r hr y hy ↦ hclosed x ⟨r, hr⟩ ⟨r, hremoves.entity_of_entity hr, hy⟩,
      fun id edge hedge ↦ ?_, fun id face hface ↦ ?_⟩
    · have hold := hremoves.entity_of_entity (x := (.edge, id)) (r := .edge edge)
        (by rw [BRepModel.entity, hedge]; rfl)
      obtain ⟨edge', hedge', heq⟩ := Option.map_eq_some_iff.mp hold
      rw [hremoves.curves]
      exact EntityRecord.edge.inj heq ▸ hm.curves id edge' hedge'
    · have hold := hremoves.entity_of_entity (x := (.face, id)) (r := .face face)
        (by rw [BRepModel.entity, hface]; rfl)
      obtain ⟨face', hface', heq⟩ := Option.map_eq_some_iff.mp hold
      rw [hremoves.surfaces]
      exact EntityRecord.face.inj heq ▸ hm.surfaces id face' hface'

theorem intact_of_reached {m m' : KernelModel D} (hm : m.RefsIntact) {removed : List Entity}
    (hremoves : Removes m m' removed)
    (hreached : ∀ x, m'.Has x ↔ ReachedWithout m.toBRepModel solidId x) : m'.RefsIntact := by
  refine (intact_iff_closed hm hremoves).mpr fun x hx y ⟨r, hr, hy⟩ ↦ ?_
  have hindex := r.index_of_mem_refs hy
  refine (hreached y).mpr (.ref ((hreached x).mp hx) ⟨r, hr, hy⟩
    ⟨hm.entities x r hr y hy, fun heq ↦ ?_⟩)
  rw [heq] at hindex
  exact absurd hindex.symm (Nat.succ_ne_zero _)

/-- **A deletion is exact** just when no shell the cascade meets lists a face twice. -/
theorem deleteSolid_exact_iff (w : World D) (solidId : ℕ) (cascade : Bool) (solid : Solid)
    (hm : w.model.RefsIntact) (hshells : ShellsOwned w.model.toBRepModel)
    (hfaces : FacesOwned w.model.toBRepModel)
    (hsolid : w.model.solids.get solidId = some solid) :
    (∃ es w', deleteSolid solidId cascade w = (.ok es, w') ∧
        LeavesReached w.model w'.model solidId ∧ ReturnsRemoved w.model w'.model es) ↔
      NoFaceTwice w.model.toBRepModel (cascadeShells solid cascade) := by
  have hbegin : w.beginPendingRecord.model = w.model := w.model_callRecorder _
  obtain ⟨m', removed, hbody, hremoves, hreached, hnodup⟩ :=
    exists_deleteSolidBody (w := w.beginPendingRecord) (hbegin ▸ hm) (hbegin ▸ hshells)
      (hbegin ▸ hfaces) (hbegin ▸ hsolid) cascade
  rw [hbegin] at hremoves hreached hnodup
  obtain ⟨left, hdelete, hmodel⟩ := withRollback_of_ok hbody
  dsimp only at hmodel
  rw [← hnodup, ← ascending_sortEntities]
  constructor
  · rintro ⟨es, w', heq, -, hreturns⟩
    rw [deleteSolid, hdelete] at heq
    obtain rfl := Except.ok.inj (Prod.mk.inj heq).1
    exact hreturns.ascending
  · intro hascending
    refine ⟨_, _, hdelete, ?_, ?_⟩ <;> rw [hmodel]
    · exact ⟨hreached, fun x r ↦ hremoves.entity_of_entity, hremoves.curves, hremoves.surfaces,
        intact_of_reached hm hremoves hreached⟩
    · refine ⟨fun x ↦ ?_, hascending⟩
      rw [hremoves.has_iff, sortEntities, (List.perm_insertionSort _ removed).mem_iff]
      constructor
      · exact fun hx ↦ ⟨hremoves.mem x hx, fun h ↦ h.2 hx⟩
      · rintro ⟨hhas, hgone⟩
        exact not_not.mp fun hx ↦ hgone ⟨hhas, hx⟩

end Whole

/-! ## An example -/

private def oneFace (faces : List ℕ) : World exampleData :=
  { exampleWorld with model := { exampleWorld.model with
    toBRepModel := BRepModel.oneFace [true] faces [] } }

private theorem shellsOwned_oneFace (faces : List ℕ) :
    ShellsOwned (oneFace faces).model.toBRepModel := by
  intro s s' solid solid' hs hs' _ _ _
  exact (IdStore.get_single.mp hs).1.trans (IdStore.get_single.mp hs').1.symm

private theorem facesOwned_oneFace (faces : List ℕ) :
    FacesOwned (oneFace faces).model.toBRepModel := by
  intro s s' shell shell' hs hs' _ _ _
  exact (IdStore.get_single.mp hs).1.trans (IdStore.get_single.mp hs').1.symm

/-- Deleting a solid with one face names everything once. -/
theorem deleteSolid_exact_iff_oneFace :
    ∃ es w', deleteSolid 0 true (oneFace [0]) = (.ok es, w') ∧
      LeavesReached (oneFace [0]).model w'.model 0 ∧
      ReturnsRemoved (oneFace [0]).model w'.model es :=
  (deleteSolid_exact_iff (oneFace [0]) 0 true ⟨0, [], [], none⟩
    (BRepModel.intact_oneFace (by simp) (by simp)) (shellsOwned_oneFace _) (facesOwned_oneFace _)
    rfl).mpr fun s _ shell hshell ↦ by
      obtain ⟨-, rfl⟩ := IdStore.get_single.mp hshell
      decide

/-- **A face listed twice is named twice**. -/
theorem not_deleteSolid_exact_faceTwice :
    (∃ w', deleteSolid 0 true (oneFace [0, 0]) =
      (.ok [(.solid, 0), (.shell, 0), (.face, 0), (.face, 0), (.loop, 0), (.edge, 0),
        (.vertex, 0)], w')) ∧
      ¬ ∀ (w : World exampleData) (solidId : ℕ) (cascade : Bool) (solid : Solid),
        w.model.RefsIntact → ShellsOwned w.model.toBRepModel → FacesOwned w.model.toBRepModel →
        w.model.solids.get solidId = some solid →
          ∃ es w', deleteSolid solidId cascade w = (.ok es, w') ∧
            LeavesReached w.model w'.model solidId ∧ ReturnsRemoved w.model w'.model es := by
  have hrun : (deleteSolid 0 true (oneFace [0, 0])).1 =
      .ok [(.solid, 0), (.shell, 0), (.face, 0), (.face, 0), (.loop, 0), (.edge, 0),
        (.vertex, 0)] := by
    decide +kernel
  refine ⟨⟨_, Prod.ext hrun rfl⟩, fun h ↦ ?_⟩
  obtain ⟨es, w', heq, -, hreturns⟩ := h (oneFace [0, 0]) 0 true ⟨0, [], [], none⟩
    (BRepModel.intact_oneFace (by simp) (by simp)) (shellsOwned_oneFace _) (facesOwned_oneFace _)
    rfl
  rw [heq] at hrun
  obtain rfl := Except.ok.inj hrun
  exact absurd hreturns.ascending.nodup (by decide)

end Delete

end RosheraCad
