import RosheraCad.Kernel.DeleteExact

/-!
# The sidecars after a deletion

The persistent-id maps and the apex hints name entities of the model. A deletion removes entities at
three places; only the sweep touches the sidecars, and only when it drops a face.

## What stays behind

A name stays behind unless its bearer is left, but for a face that the sweep drops.
-/

namespace RosheraCad

namespace Delete

variable {D : ModelData}

def InPids (pids : OrderedMap ℕ PersistentId) (inverse : OrderedMap PersistentId ℕ) (id : ℕ) :
    Prop :=
  id ∈ pids ∨ ∃ pid : PersistentId, inverse[pid]? = some id

/-- The persistent-id maps or the apex hints name the entity. -/
def Named (m : KernelModel D) : Entity → Prop
  | (.vertex, id) => InPids m.vertexPids m.pidToVertex id
  | (.edge, id) => InPids m.edgePids m.pidToEdge id
  | (.face, id) => InPids m.facePids m.pidToFace id ∨ id ∈ m.capApexHint
  | (.solid, id) => InPids m.solidPids m.pidToSolid id
  | _ => False

def SidecarsLive (m : KernelModel D) : Prop := ∀ x, Named m x → m.Has x

/-- **What a deletion owes the sidecars.** -/
structure KeepsSidecars (m m' : KernelModel D) : Prop where
  live : SidecarsLive m'
  resolves : ∀ (face : ℕ) (pid : PersistentId), m.facePids[face]? = some pid →
    m.pidToFace[pid]? = some face → m'.Has (.face, face) →
      m'.facePids[face]? = some pid ∧ m'.pidToFace[pid]? = some face

/-! ## Purging -/

structure Purges (m m' : KernelModel D) (faces : Set ℕ) : Prop where
  capApexHint : ∀ face, face ∈ m'.capApexHint ↔ face ∈ m.capApexHint ∧ face ∉ faces
  facePids : ∀ (face : ℕ) (pid : PersistentId), m'.facePids[face]? = some pid ↔
    m.facePids[face]? = some pid ∧ face ∉ faces
  pidToFace : ∀ (pid : PersistentId) (face : ℕ), m'.pidToFace[pid]? = some face ↔
    m.pidToFace[pid]? = some face ∧ ¬ (face ∈ faces ∧ m.facePids[face]? = some pid)
  named : ∀ x : Entity, x.1 ≠ .face → (Named m' x ↔ Named m x)

namespace Purges

variable {m m' m'' : KernelModel D} {faces faces' : Set ℕ}

theorem trans (h : Purges m m' faces) (h' : Purges m' m'' faces') :
    Purges m m'' (faces ∪ faces') where
  capApexHint face := by
    rw [h'.capApexHint, h.capApexHint, Set.mem_union, not_or, and_assoc]
  facePids face pid := by
    rw [h'.facePids, h.facePids, Set.mem_union, not_or, and_assoc]
  pidToFace pid face := by
    rw [h'.pidToFace, h.pidToFace, h.facePids, Set.mem_union]
    by_cases hf : face ∈ faces
    · simp [hf]
    · simp [hf]
  named x hx := (h'.named x hx).trans (h.named x hx)

theorem refl (m : KernelModel D) : Purges m m ∅ where
  capApexHint face := by simp
  facePids face pid := by simp
  pidToFace pid face := by simp
  named x _ := Iff.rfl

theorem congr (h : Purges m m' faces) (heq : ∀ face, face ∈ faces ↔ face ∈ faces') :
    Purges m m' faces' := Set.ext heq ▸ h

theorem deleteEntity (m : KernelModel D) (e : Entity) : Purges m (deleteEntity m e) ∅ where
  capApexHint face := by simp [Delete.deleteEntity]
  facePids face pid := by simp [Delete.deleteEntity]
  pidToFace pid face := by simp [Delete.deleteEntity]
  named x _ := Iff.rfl

end Purges

section PurgeFace

variable (m : KernelModel D) (face : ℕ)

theorem capApexHint_purgeFaceSidecars :
    (purgeFaceSidecars m face).capApexHint = m.capApexHint.erase face := by
  unfold purgeFaceSidecars
  dsimp only
  split
  · split <;> rfl
  · rfl

theorem facePids_purgeFaceSidecars (f : ℕ) :
    (purgeFaceSidecars m face).facePids[f]? = if f = face then none else m.facePids[f]? := by
  unfold purgeFaceSidecars
  dsimp only
  split
  · split <;> simp
  · rename_i hnone
    split_ifs with hf
    · exact hf ▸ hnone
    · rfl

theorem pidToFace_purgeFaceSidecars (pid : PersistentId) :
    (purgeFaceSidecars m face).pidToFace[pid]? =
      if m.facePids[face]? = some pid ∧ m.pidToFace[pid]? = some face then none
      else m.pidToFace[pid]? := by
  unfold purgeFaceSidecars
  dsimp only
  rcases hown : m.facePids[face]? with - | own
  · rw [if_neg fun h ↦ absurd h.1 nofun]
  · dsimp only
    by_cases hto : m.pidToFace[own]? = some face
    · rw [if_pos hto]
      dsimp only
      rw [OrderedMap.lookup_erase]
      by_cases hpid : pid = own
      · rw [if_pos hpid, if_pos ⟨congrArg some hpid.symm, hpid ▸ hto⟩]
      · rw [if_neg hpid, if_neg fun h ↦ hpid (Option.some.inj h.1).symm]
    · -- The persistent id the face carries leads elsewhere by now.
      rw [if_neg hto, if_neg]
      rintro ⟨heq, hpid⟩
      exact hto (Option.some.inj heq ▸ hpid)

theorem named_purgeFaceSidecars (x : Entity) (hx : x.1 ≠ .face) :
    Named (purgeFaceSidecars m face) x ↔ Named m x := by
  obtain ⟨t, id⟩ := x
  unfold purgeFaceSidecars
  dsimp only
  rcases t with _ | _ | _ | _ | _ | _
  case face => exact absurd rfl hx
  all_goals
    split
    · split <;> exact Iff.rfl
    · exact Iff.rfl

theorem purges_purgeFaceSidecars : Purges m (purgeFaceSidecars m face) {face} where
  capApexHint f := by
    rw [capApexHint_purgeFaceSidecars, Std.ExtTreeMap.mem_erase, Ne,
      Std.LawfulEqOrd.compare_eq_iff_eq, Set.mem_singleton_iff, and_comm, eq_comm]
  facePids f pid := by
    rw [facePids_purgeFaceSidecars, Set.mem_singleton_iff]
    split_ifs with hf <;> simp [hf]
  pidToFace pid f := by
    rw [pidToFace_purgeFaceSidecars, Set.mem_singleton_iff]
    split_ifs with h
    · refine iff_of_false nofun fun ⟨hto, hnot⟩ ↦ ?_
      obtain rfl := Option.some.inj (h.2.symm.trans hto)
      exact hnot ⟨rfl, h.1⟩
    · refine (and_iff_left_of_imp fun hto hown ↦ ?_).symm
      obtain ⟨rfl, hcarries⟩ := hown
      exact h ⟨hcarries, hto⟩
  named := named_purgeFaceSidecars m face

end PurgeFace

theorem purges_prunePass (m : KernelModel D) (orphans : List Entity) :
    Purges m (prunePass m orphans) {face | (.face, face) ∈ orphans} := by
  induction orphans generalizing m with
  | nil => exact (Purges.refl m).congr fun face ↦ iff_of_false id List.not_mem_nil
  | cons e orphans ih =>
    obtain ⟨t, id⟩ := e
    by_cases ht : t = .face
    · subst ht
      have hstep := (purges_purgeFaceSidecars m id).trans
        (Purges.deleteEntity (purgeFaceSidecars m id) (.face, id))
      refine (hstep.trans (ih _)).congr fun face ↦ ?_
      simp
    · have hstep := Purges.deleteEntity m (t, id)
      rw [prunePass, List.foldl_cons, if_neg ht]
      refine (hstep.trans (ih _)).congr fun face ↦ ?_
      simp [Ne.symm ht]

theorem purges_prunePasses (n : ℕ) (m : KernelModel D) (swept : List Entity) :
    Purges m (prunePasses n (m, swept)).1
      {face | m.Has (.face, face) ∧ ¬ (prunePasses n (m, swept)).1.Has (.face, face)} := by
  induction n generalizing m swept with
  | zero => exact (Purges.refl m).congr fun face ↦ iff_of_false id fun h ↦ h.2 h.1
  | succ n ih =>
    rw [prunePasses]
    by_cases hempty : (findOrphanedEntities m.toBRepModel).isEmpty = true
    · rw [if_pos hempty]
      exact (Purges.refl m).congr fun face ↦ iff_of_false id fun h ↦ h.2 h.1
    · rw [if_neg hempty]
      have hpass := removes_prunePass m
      refine ((purges_prunePass m _).trans (ih _ _)).congr fun face ↦ ?_
      obtain ⟨new, -, -, hlater, -⟩ := exists_prunePasses n
        (prunePass m (findOrphanedEntities m.toBRepModel))
        (swept ++ findOrphanedEntities m.toBRepModel) (fun x r hr ↦ hr)
      have hgone := hlater.has_iff (x := (.face, face))
      rw [Set.mem_union, Set.mem_ofPred_eq, Set.mem_ofPred_eq, Set.mem_ofPred_eq, hpass.has_iff]
      constructor
      · rintro (hface | ⟨⟨hhas, -⟩, hgone⟩)
        · refine ⟨hpass.mem _ hface, fun h ↦ ?_⟩
          exact (hpass.has_iff.mp (hgone.mp h).1).2 hface
        · exact ⟨hhas, hgone⟩
      · rintro ⟨hhas, hgone⟩
        by_cases hface : (.face, face) ∈ findOrphanedEntities m.toBRepModel
        · exact Or.inl hface
        · exact Or.inr ⟨⟨hhas, hface⟩, hgone⟩

/-! ## What is cut out before the sweep -/

section Cut

variable {Curve Surface : Type}

/-- What a deletion cuts out: the solid, and with `cascade` its shells with their faces. -/
def cutBy (m : BRepModel Curve Surface) (solidId : ℕ) (cascade : Bool) : Set Entity :=
  {x | x = (.solid, solidId) ∨ cascade = true ∧
    ∃ solid, m.solids.get solidId = some solid ∧ InCascade m solid.shells x}

structure Cuts (m m' : KernelModel D) (cut : Set Entity) : Prop where
  entity : ∀ x r, m'.toBRepModel.entity x = some r ↔
    m.toBRepModel.entity x = some r ∧ x ∉ cut
  sidecars : Purges m m' ∅

namespace Cuts

variable {m m' m'' : KernelModel D} {cut cut' : Set Entity}

theorem refl (m : KernelModel D) : Cuts m m ∅ := ⟨fun x r ↦ by simp, .refl m⟩

theorem single (m : KernelModel D) (e : Entity) : Cuts m (deleteEntity m e) {e} where
  entity x r := by
    rw [deleteEntity, BRepModel.entity_deleteEntity, Set.mem_singleton_iff]
    split_ifs with hx <;> simp [hx]
  sidecars := .deleteEntity m e

theorem trans (h : Cuts m m' cut) (h' : Cuts m' m'' cut') : Cuts m m'' (cut ∪ cut') where
  entity x r := by
    rw [h'.entity, h.entity, Set.mem_union, not_or, and_assoc]
  sidecars := (h.sidecars.trans h'.sidecars).congr fun face ↦ by simp

theorem congr (h : Cuts m m' cut)
    (heq : ∀ x, m.Has x → (x ∈ cut ↔ x ∈ cut')) : Cuts m m' cut' where
  entity x r := (h.entity x r).trans (and_congr_right fun hr ↦ not_congr (heq x ⟨r, hr⟩))
  sidecars := h.sidecars

theorem has_iff (h : Cuts m m' cut) {x : Entity} : m'.Has x ↔ m.Has x ∧ x ∉ cut := by
  simp only [BRepModel.Has, h.entity, exists_and_right]

theorem foldl (faces : List ℕ) (m : KernelModel D) :
    Cuts m (faces.foldl (fun m face ↦ deleteEntity m (.face, face)) m)
      {x | x ∈ faces.map (EntityType.face, ·)} := by
  induction faces generalizing m with
  | nil => exact (refl m).congr fun x _ ↦ iff_of_false id List.not_mem_nil
  | cons face faces ih =>
    refine ((single m (.face, face)).trans (ih _)).congr fun x _ ↦ ?_
    rw [Set.mem_union, Set.mem_singleton_iff, Set.mem_ofPred_eq, Set.mem_ofPred_eq, List.map_cons,
      List.mem_cons]

end Cuts

/-- **The cascade cuts out the shells with their faces**, whatever else the model holds. -/
theorem cuts_cascade (m : KernelModel D) (shells : List ℕ) :
    Cuts m (shells.foldl deleteShellCascade (m, [])).1 {x | InCascade m.toBRepModel shells x} := by
  induction shells using List.reverseRecOn with
  | nil =>
    refine (Cuts.refl m).congr fun x _ ↦ iff_of_false id ?_
    obtain ⟨t, id⟩ := x
    rcases t with _ | _ | _ | _ | _ | _ <;> simp [InCascade]
  | append_singleton shells s ih =>
    rw [List.foldl_append, List.foldl_cons, List.foldl_nil]
    generalize shells.foldl deleteShellCascade (m, []) = acc at ih ⊢
    obtain ⟨m', deleted⟩ := acc
    dsimp only at ih ⊢
    rcases hs : m'.shells.get s with - | shell
    · -- The shell was cut out before, or never there.
      have hsame : deleteShellCascade (m', deleted) s = (m', deleted) := by
        simp [deleteShellCascade, hs]
      have hseen : ∀ shell, m.shells.get s = some shell → s ∈ shells := by
        intro shell hshell
        by_contra hnot
        have hthere := (ih.entity (.shell, s) _).mpr ⟨entity_shell.mpr hshell, hnot⟩
        cases hs.symm.trans (entity_shell.mp hthere)
      rw [hsame]
      refine ih.congr ?_
      rintro ⟨t, id⟩ ⟨r, hr⟩
      rcases t with _ | _ | _ | _ | _ | _
      case shell =>
        obtain ⟨shell, hshell, -⟩ := Option.map_eq_some_iff.mp hr
        simp only [Set.mem_ofPred_eq, InCascade, List.mem_append, List.mem_singleton]
        exact (or_iff_left_of_imp fun heq ↦ heq ▸ hseen shell (heq ▸ hshell)).symm
      case face =>
        simp only [Set.mem_ofPred_eq, InCascade, List.mem_append, List.mem_singleton]
        constructor
        · rintro ⟨s', hs', hface⟩
          exact ⟨s', Or.inl hs', hface⟩
        · rintro ⟨s', hs' | rfl, shell, hshell, hface⟩
          · exact ⟨s', hs', shell, hshell, hface⟩
          · exact ⟨s', hseen shell hshell, shell, hshell, hface⟩
      all_goals exact Iff.rfl
    · have hold : m.shells.get s = some shell :=
        entity_shell.mp ((ih.entity _ _).mp (entity_shell.mpr hs)).1
      simp only [deleteShellCascade, hs]
      refine ((ih.trans (Cuts.foldl shell.faces m')).trans (Cuts.single _ (.shell, s))).congr
        fun x _ ↦ ?_
      rw [Set.mem_ofPred_eq, inCascade_concat hold]
      simp only [Set.mem_union, Set.mem_ofPred_eq, Set.mem_singleton_iff, List.mem_append,
        List.mem_singleton, or_assoc]

theorem cuts_cutBy {m : KernelModel D} {solidId : ℕ} {solid : Solid}
    (hsolid : m.solids.get solidId = some solid) (cascade : Bool) :
    Cuts m (deleteEntity (cascaded m solid cascade).1 (.solid, solidId))
      (cutBy m.toBRepModel solidId cascade) := by
  rcases cascade with _ | _
  · refine (Cuts.single m (.solid, solidId)).congr fun x _ ↦ ?_
    simp [cutBy]
  · refine ((cuts_cascade m solid.shells).trans (Cuts.single _ (.solid, solidId))).congr
      fun x _ ↦ ?_
    simp only [cutBy, hsolid, Set.mem_union, Set.mem_ofPred_eq, Set.mem_singleton_iff, true_and,
      Option.some_inj, exists_eq_left']
    exact or_comm

end Cut

/-! ## The sidecars after a deletion -/

section Sidecars

variable {m m' : KernelModel D} {cut : Set Entity}

/-- **The names that go with their bearers**: what the sidecars name is left, or is a face that is
not cut out, to which only the persistent id it carries leads. -/
def NamesGo (m : KernelModel D) (cut : Set Entity) : Prop :=
  ∀ x, Named m x → ¬ Left m.toBRepModel cut x →
    x ∉ cut ∧ ∃ face, x = (.face, face) ∧
      ∀ pid : PersistentId, m.pidToFace[pid]? = some face → m.facePids[face]? = some pid

def sweptFaces (m : BRepModel D.Curve D.Surface) (cut : Set Entity) : Set ℕ :=
  {face | m.Has (.face, face) ∧ (.face, face) ∉ cut ∧ ¬ Left m cut (.face, face)}

theorem Purges.named_of_mem {faces : Set ℕ} (h : Purges m m' faces) {face : ℕ}
    (hface : face ∈ faces) : Named m' (.face, face) ↔
      ∃ pid : PersistentId, m.pidToFace[pid]? = some face ∧ m.facePids[face]? ≠ some pid := by
  simp only [Named, InPids, OrderedMap.mem_iff_exists (m := m'.facePids), h.facePids,
    h.pidToFace, h.capApexHint, hface, not_true_eq_false, and_false, exists_false, or_false,
    false_or, true_and, Ne]

theorem Purges.named_of_not_mem {faces : Set ℕ} (h : Purges m m' faces) {face : ℕ}
    (hface : face ∉ faces) : Named m' (.face, face) ↔ Named m (.face, face) := by
  simp only [Named, InPids, OrderedMap.mem_iff_exists (m := m'.facePids),
    OrderedMap.mem_iff_exists (m := m.facePids), h.facePids, h.pidToFace, h.capApexHint, hface,
    not_false_eq_true, and_true, false_and]

theorem keepsSidecars_iff_namesGo (hlive : SidecarsLive m)
    (hleft : ∀ x, m'.Has x ↔ Left m.toBRepModel cut x)
    (hpurges : Purges m m' (sweptFaces m.toBRepModel cut)) :
    KeepsSidecars m m' ↔ NamesGo m cut := by
  constructor
  · rintro ⟨hlive', -⟩ ⟨t, id⟩ hnamed hgone
    have hnot : ¬ Named m' (t, id) := fun h ↦ hgone ((hleft _).mp (hlive' _ h))
    by_cases ht : t = .face
    · subst ht
      -- A face that is cut out keeps its entries.
      have hswept : id ∈ sweptFaces m.toBRepModel cut := by
        by_contra h
        exact hnot ((hpurges.named_of_not_mem h).mpr hnamed)
      refine ⟨hswept.2.1, id, rfl, fun pid hpid ↦ ?_⟩
      by_contra hcarries
      exact hnot ((hpurges.named_of_mem hswept).mpr ⟨pid, hpid, hcarries⟩)
    · exact absurd ((hpurges.named (t, id) ht).mpr hnamed) hnot
  · intro hgo
    refine ⟨fun ⟨t, id⟩ hnamed ↦ (hleft _).mpr ?_, fun face pid hpid hto hhas ↦ ?_⟩
    · by_contra hgone
      by_cases ht : t = .face
      · subst ht
        by_cases hswept : id ∈ sweptFaces m.toBRepModel cut
        · obtain ⟨pid, hpid, hcarries⟩ := (hpurges.named_of_mem hswept).mp hnamed
          obtain ⟨-, face, heq, hown⟩ := hgo (.face, id) (Or.inl (Or.inr ⟨pid, hpid⟩)) hgone
          cases heq
          exact hcarries (hown pid hpid)
        · have hold := (hpurges.named_of_not_mem hswept).mp hnamed
          exact hswept ⟨hlive _ hold, (hgo _ hold hgone).1, hgone⟩
      · obtain ⟨-, face, heq, -⟩ := hgo _ ((hpurges.named (t, id) ht).mp hnamed) hgone
        exact ht (congrArg Prod.fst heq)
    · have hkept : face ∉ sweptFaces m.toBRepModel cut := fun h ↦ h.2.2 ((hleft _).mp hhas)
      exact ⟨(hpurges.facePids face pid).mpr ⟨hpid, hkept⟩,
        (hpurges.pidToFace pid face).mpr ⟨hto, fun h ↦ hkept h.1⟩⟩

end Sidecars

theorem keepsSidecars_prune_iff {m m' : KernelModel D} {cut : Set Entity} (hlive : SidecarsLive m)
    (hcut : Cuts m m' cut) : KeepsSidecars m (pruneBooleanOrphanTopology m').1 ↔ NamesGo m cut := by
  have hleft : ∀ x, (prunePasses 6 (m', [])).1.Has x ↔ Left m.toBRepModel cut x := by
    intro x
    have hpresent : present m'.toBRepModel = {x | m.Has x ∧ x ∉ cut} :=
      Set.ext fun x ↦ hcut.has_iff
    rw [present_prunePasses fun x r hr ↦ ((hcut.entity x r).mp hr).1,
      hpresent, Left]
  refine keepsSidecars_iff_namesGo hlive hleft ?_
  refine (hcut.sidecars.trans (purges_prunePasses 6 m' [])).congr fun face ↦ ?_
  rw [Set.empty_union, Set.mem_ofPred_eq, hcut.has_iff, hleft, and_assoc]
  rfl

/-- **When the sidecars survive a deletion or a sweep**: just when every name goes with its
bearer. -/
theorem keepsSidecars_iff :
    (∀ (w : World D) (solidId : ℕ) (cascade : Bool), SidecarsLive w.model →
      (KeepsSidecars w.model (deleteSolid solidId cascade w).2.model ↔
        (w.model.solids.Live solidId →
          NamesGo w.model (cutBy w.model.toBRepModel solidId cascade)))) ∧
    ∀ m : KernelModel D, SidecarsLive m →
      (KeepsSidecars m (pruneBooleanOrphanTopology m).1 ↔ NamesGo m ∅) := by
  refine ⟨fun w solidId cascade hlive ↦ ?_,
    fun m hlive ↦ keepsSidecars_prune_iff hlive (.refl m)⟩
  have hbegin : w.beginPendingRecord.model = w.model := w.model_callRecorder _
  rcases hsolid : w.model.solids.get solidId with - | solid
  · -- Nothing is removed, and the rollback finds everything as it was.
    have hbody : deleteSolidBody solidId cascade w.beginPendingRecord =
        (.error (.invalidInput "solid_id" "existing solid" (toString solidId)),
          w.beginPendingRecord) := by
      simp only [deleteSolidBody, hbegin, hsolid]
    have hmodel := (withRollback_of_error hbody).1
    rw [hbegin] at hmodel
    rw [deleteSolid, hmodel]
    refine iff_of_true ⟨fun x hnamed ↦ hlive x ?_, fun _ _ hpid hto _ ↦ ⟨hpid, hto⟩⟩
      fun hthere ↦ ?_
    · obtain ⟨t, id⟩ := x
      rcases t with _ | _ | _ | _ | _ | _ <;> exact hnamed
    · obtain ⟨solid, hget⟩ := IdStore.live_iff.mp hthere
      cases hsolid.symm.trans hget
  · rw [imp_iff_right (IdStore.live_iff.mpr ⟨solid, hsolid⟩)]
    have hcut : Cuts w.model (deleteEntity (cascaded w.model solid cascade).1 (.solid, solidId))
        (cutBy w.model.toBRepModel solidId cascade) := cuts_cutBy hsolid cascade
    rw [← keepsSidecars_prune_iff hlive hcut]
    have hmodel : (deleteSolid solidId cascade w).2.model = (pruneBooleanOrphanTopology
        (deleteEntity (cascaded w.model solid cascade).1 (.solid, solidId))).1 := by
      have hbody := deleteSolidBody_of_get (w := w.beginPendingRecord) (hbegin ▸ hsolid) cascade
      obtain ⟨left, hdelete, hmodel⟩ := withRollback_of_ok hbody
      rw [deleteSolid, hdelete, hmodel, hbegin]
    rw [hmodel]

/-! ## An example -/

/-- A model with a solid and one face, which has a persistent id and an apex hint. -/
def capFace (faces : List ℕ) : World exampleData :=
  { exampleWorld with model := { exampleWorld.model with
    toBRepModel := BRepModel.oneFace [true] faces []
    facePids := (∅ : OrderedMap ℕ PersistentId).insert 0 3
    pidToFace := (∅ : OrderedMap PersistentId ℕ).insert 3 0
    capApexHint := (∅ : OrderedMap ℕ (F64 × F64 × F64)).insert 0 (0, 0, 0) } }

private theorem eq_of_named_capFace {faces : List ℕ} {x : Entity}
    (h : Named (capFace faces).model x) : x = (.face, 0) := by
  obtain ⟨t, id⟩ := x
  rcases t with _ | _ | _ | _ | _ | _
  case face =>
    have hzero : id = 0 := by
      rcases h with (hid | ⟨pid, hpid⟩) | hid
      · have heq : 0 = id := by simpa [capFace] using hid
        exact heq.symm
      · have hpid : (if pid = 3 then some 0 else none) = some id := by
          simpa [capFace] using hpid
        split_ifs at hpid
        exact (Option.some.inj hpid).symm
      · have heq : 0 = id := by simpa [capFace] using hid
        exact heq.symm
    rw [hzero]
  all_goals simp [Named, InPids, capFace, exampleWorld, KernelModel.new] at h

private theorem sidecarsLive_capFace (faces : List ℕ) : SidecarsLive (capFace faces).model := by
  intro x hx
  obtain rfl := eq_of_named_capFace hx
  exact ⟨.face ⟨0, 0, [], .forward⟩, rfl⟩

/-- Debris is swept with its sidecar entries. -/
theorem keepsSidecars_iff_debris :
    KeepsSidecars (capFace []).model (deleteSolid 0 true (capFace [])).2.model ∧
      KeepsSidecars (capFace []).model (pruneBooleanOrphanTopology (capFace []).model).1 := by
  have hgo : ∀ cut, (.face, 0) ∉ cut → NamesGo (capFace []).model cut := by
    rintro cut hcut x hnamed -
    obtain rfl := eq_of_named_capFace hnamed
    refine ⟨hcut, 0, rfl, fun pid hpid ↦ ?_⟩
    have hthree : (if pid = 3 then some 0 else none) = some 0 := by simpa [capFace] using hpid
    split_ifs at hthree with h
    rw [h]
    rfl
  refine ⟨(keepsSidecars_iff.1 (capFace []) 0 true (sidecarsLive_capFace [])).mpr fun _ ↦
    hgo _ ?_, (keepsSidecars_iff.2 _ (sidecarsLive_capFace [])).mpr (hgo _ id)⟩
  rintro (heq | ⟨-, solid, -, s, -, shell, hshell, hface⟩)
  · cases heq
  · obtain ⟨-, rfl⟩ := IdStore.get_single.mp hshell
    exact absurd hface List.not_mem_nil

/-- **A cascaded face leaves its entries behind.** -/
theorem not_keepsSidecars_cascade :
    Named (deleteSolid 0 true (capFace [0])).2.model (.face, 0) ∧
      ¬ (deleteSolid 0 true (capFace [0])).2.model.Has (.face, 0) ∧
      ¬ ∀ (w : World exampleData) (solidId : ℕ) (cascade : Bool), SidecarsLive w.model →
        KeepsSidecars w.model (deleteSolid solidId cascade w).2.model := by
  have hpid : (deleteSolid 0 true (capFace [0])).2.model.pidToFace[(3 : PersistentId)]? =
      some 0 := by
    decide +kernel
  have hnamed : Named (deleteSolid 0 true (capFace [0])).2.model (.face, 0) :=
    Or.inl (Or.inr ⟨3, hpid⟩)
  have hgone : ¬ (deleteSolid 0 true (capFace [0])).2.model.Has (.face, 0) := by
    rintro ⟨r, hr⟩
    have hnone : (deleteSolid 0 true (capFace [0])).2.model.faces.get 0 = none := by
      decide +kernel
    rw [BRepModel.entity, hnone] at hr
    cases hr
  exact ⟨hnamed, hgone, fun h ↦
    hgone ((h (capFace [0]) 0 true (sidecarsLive_capFace [0])).live _ hnamed)⟩

end Delete

end RosheraCad
