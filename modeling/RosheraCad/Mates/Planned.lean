import RosheraCad.Mates.Solve

/-!
# What a plan hands out

Placing some bodies consumes exactly the mates it is handed, and these reach from the bodies to
geometry placed before. A mate that is left after a placement still touches a body that is left.
-/

namespace RosheraCad

namespace Mates

variable {F : Type}

def Numerics.MovesBlocksOnly (num : Numerics F) : Prop :=
  ∀ a blocks mates i inst, a.instances[i]? = some inst → (∀ block ∈ blocks, i ∉ block) →
    (num.gaussNewton a blocks mates).1 i = inst.pose

structure SameOutside (d : Decomposition) (comp : List ℕ) (a a' : Assembly F) : Prop where
  mates_eq : a'.mates = a.mates
  length_eq : a'.instances.length = a.instances.length
  instances_eq : ∀ i, d.bodyOf i ∉ comp → a'.instances[i]? = a.instances[i]?

namespace SameOutside

variable {d : Decomposition} {comp : List ℕ} {a a' a'' : Assembly F} {num : Numerics F}

theorem refl : SameOutside d comp a a := ⟨rfl, rfl, fun _ _ ↦ rfl⟩

theorem trans (h : SameOutside d comp a a') (h' : SameOutside d comp a' a'') :
    SameOutside d comp a a'' :=
  ⟨h'.mates_eq.trans h.mates_eq, h'.length_eq.trans h.length_eq,
    fun i hi ↦ (h'.instances_eq i hi).trans (h.instances_eq i hi)⟩

theorem setPoses (hnum : num.MovesBlocksOnly) {blocks : List (List ℕ)} {mates : List ℕ}
    (hblocks : ∀ block ∈ blocks, ∀ i ∈ block, d.bodyOf i ∈ comp) :
    SameOutside d comp a (a.setPoses (num.gaussNewton a blocks mates).1) where
  mates_eq := rfl
  length_eq := List.length_mapIdx
  instances_eq i hi := by
    rw [Assembly.setPoses, List.getElem?_mapIdx]
    rcases hinst : a.instances[i]? with _ | inst
    · rfl
    · rw [Option.map_some, hnum a blocks mates i inst hinst]
      exact fun block hblock hmem ↦ hi (hblocks block hblock i hmem)

/-- Poses of the component are put back. -/
theorem restore {snapshot : List (ℕ × Pose F)} (hsnap : ∀ e ∈ snapshot, d.bodyOf e.1 ∈ comp) :
    SameOutside d comp a (a.restore snapshot) := by
  induction snapshot generalizing a with
  | nil => exact refl
  | cons e snapshot ih =>
    have hstep : SameOutside d comp a { a with
        instances := a.instances.modify e.1 fun inst ↦ { inst with pose := e.2 } } := by
      refine ⟨rfl, List.length_modify .., fun i hi ↦ ?_⟩
      have hne : e.1 ≠ i := by
        rintro rfl
        exact hi (hsnap e List.mem_cons_self)
      rw [List.getElem?_modify]
      simp only [if_neg hne]
      exact Option.map_id'
    exact hstep.trans (ih fun e' he' ↦ hsnap e' (List.mem_cons_of_mem _ he'))

end SameOutside

/-- Bodies are what instances are assigned to, and mates touch instances only. -/
structure Decomposition.Assigns (d : Decomposition) (n : ℕ) : Prop where
  mem_members : ∀ {i b}, i ∈ d.members b ↔ i < n ∧ d.bodyOf i = b
  lt_of_mem_supports : ∀ {mi i}, i ∈ d.supports mi → i < n

theorem Assembly.assigns_decomposition [LT F] [DecidableLT F] (num : Numerics F)
    (a : Assembly F) : (a.decomposition num).Assigns a.instances.length :=
  ⟨mem_members_iff, lt_of_mem_mateSupport⟩

def PlacedBefore (d : Decomposition) (n : ℕ) (comp : List ℕ) (pre : List Step) (i : ℕ) : Prop :=
  i < n ∧ (d.bodyOf i ∉ comp ∨ ∃ step ∈ pre, ∃ block ∈ step.blocks, i ∈ block)

def ExtendSound (d : Decomposition) (n : ℕ) (a : Assembly F) (comp : List ℕ) (pre : List Step)
    (step : Step) : Prop :=
  ∀ b, step.kind = .extend b → step.blocks = [d.members b] ∧ a.rankSum step.mates = 6 ∧
    ∀ mi ∈ step.mates, (∃ i ∈ d.supports mi, d.bodyOf i = b) ∧
      ∀ i ∈ d.supports mi, d.bodyOf i = b ∨ PlacedBefore d n comp pre i

namespace Progress

variable {num : Numerics F} {d : Decomposition} {n : ℕ} {a : Assembly F} {comp mates : List ℕ}
  {r : Progress F}

/-- What holds between the steps of a plan that started from an assembly. -/
structure Sound (d : Decomposition) (n : ℕ) (a : Assembly F) (comp mates : List ℕ)
    (r : Progress F) : Prop where
  outside : SameOutside d comp a r.assembly
  mem_placed : ∀ i, i ∈ r.placed ↔ PlacedBefore d n comp r.steps i
  countP_steps : ∀ mi, r.steps.countP (fun step ↦ mi ∈ step.mates) =
    if mi ∈ r.consumed then 1 else 0
  planned : ∀ step ∈ r.steps, step.kind.isPlanned ∧ ∀ mi ∈ step.mates, mi ∈ mates
  extends_sound : ∀ pre step, pre ++ [step] <+: r.steps → ExtendSound d n a comp pre step

structure Pending (d : Decomposition) (n : ℕ) (mates rest : List ℕ) (r : Progress F) : Prop where
  mem_placed : ∀ i < n, d.bodyOf i ∉ rest → i ∈ r.placed
  touches : ∀ mi ∈ mates, mi ∉ r.consumed → ∃ i ∈ d.supports mi, d.bodyOf i ∈ rest

theorem mem_flatMap_members (hd : d.Assigns n) {bs : List ℕ} {i : ℕ} :
    i ∈ bs.flatMap d.members ↔ i < n ∧ d.bodyOf i ∈ bs := by
  simp only [List.mem_flatMap, hd.mem_members]
  constructor
  · rintro ⟨b, hb, hi, rfl⟩
    exact ⟨hi, hb⟩
  · rintro ⟨hi, hb⟩
    exact ⟨_, hb, hi, rfl⟩

theorem mem_candidates (hd : d.Assigns n) {bs : List ℕ} {mi : ℕ} :
    mi ∈ r.candidates d mates bs ↔ mi ∈ mates ∧ mi ∉ r.consumed ∧
      (∃ i ∈ d.supports mi, d.bodyOf i ∈ bs) ∧
      ∀ i ∈ d.supports mi, i ∈ r.placed ∨ d.bodyOf i ∈ bs := by
  rw [candidates, List.mem_filter, decide_eq_true_eq]
  refine and_congr_right fun _ ↦ and_congr_right fun _ ↦ and_congr ?_ ?_
  · refine exists_congr fun i ↦ and_congr_right fun hi ↦ ?_
    rw [mem_flatMap_members hd, and_iff_right (hd.lt_of_mem_supports hi)]
  · refine forall₂_congr fun i hi ↦ or_congr_right ?_
    rw [mem_flatMap_members hd, and_iff_right (hd.lt_of_mem_supports hi)]

theorem Pending.place (hd : d.Assigns n) {kind : StepKind} {bs rest rest' : List ℕ}
    (h : Pending d n mates rest r) (hrest : ∀ b ∈ rest, b ∈ bs ∨ b ∈ rest') :
    Pending d n mates rest' (r.place num d mates kind bs) where
  mem_placed i hi hbody := by
    show i ∈ r.placed ∪ (bs.flatMap d.members).toFinset
    rw [Finset.mem_union, List.mem_toFinset, mem_flatMap_members hd]
    by_cases hmem : d.bodyOf i ∈ rest
    · exact .inr ⟨hi, (hrest _ hmem).resolve_right hbody⟩
    · exact .inl (h.mem_placed i hi hmem)
  touches mi hmi hleft := by
    have hleft' : mi ∉ r.consumed ∪ (r.candidates d mates bs).toFinset := hleft
    rw [Finset.mem_union, List.mem_toFinset, not_or] at hleft'
    obtain ⟨i, hi, hbody⟩ := h.touches mi hmi hleft'.1
    rcases hrest _ hbody with hbs | hrest'
    · -- the mate touches what was placed, so something else kept it from being a candidate
      by_contra hnone
      push Not at hnone
      refine hleft'.2 ((mem_candidates hd).mpr ⟨hmi, hleft'.1, ⟨i, hi, hbs⟩, fun j hj ↦ ?_⟩)
      by_cases hj' : d.bodyOf j ∈ rest
      · exact .inr ((hrest _ hj').resolve_right (hnone j hj))
      · exact .inl (h.mem_placed j (hd.lt_of_mem_supports hj) hj')
    · exact ⟨i, hi, hrest'⟩

theorem Sound.place (hd : d.Assigns n) (hnum : num.MovesBlocksOnly) {kind : StepKind}
    {bs : List ℕ} (h : Sound d n a comp mates r) (hbs : ∀ b ∈ bs, b ∈ comp)
    (hkind : kind.isPlanned)
    (hextend : ExtendSound d n a comp r.steps
      ⟨kind, bs.map d.members, r.candidates d mates bs⟩) :
    Sound d n a comp mates (r.place num d mates kind bs) where
  outside := by
    refine h.outside.trans (.setPoses hnum fun block hblock i hi ↦ ?_)
    obtain ⟨b, hb, rfl⟩ := List.mem_map.mp hblock
    exact (hd.mem_members.mp hi).2 ▸ hbs b hb
  mem_placed i := by
    show i ∈ r.placed ∪ (bs.flatMap d.members).toFinset ↔
      PlacedBefore d n comp (r.steps ++ [⟨kind, bs.map d.members, _⟩]) i
    rw [Finset.mem_union, List.mem_toFinset, mem_flatMap_members hd, h.mem_placed, PlacedBefore,
      PlacedBefore, ← and_or_left, or_assoc]
    refine and_congr_right fun hi ↦ or_congr_right ?_
    simp only [List.mem_append, List.mem_singleton, or_and_right, exists_or, exists_eq_left,
      List.mem_map, exists_exists_and_eq_and, hd.mem_members, hi, true_and, exists_eq_right']
  countP_steps mi := by
    show (r.steps ++ [_]).countP _ = _
    rw [List.countP_append, h.countP_steps, List.countP_singleton]
    show _ = if mi ∈ r.consumed ∪ (r.candidates d mates bs).toFinset then 1 else 0
    simp only [Finset.mem_union, List.mem_toFinset, decide_eq_true_eq]
    by_cases hmi : mi ∈ r.consumed
    · have hnot : mi ∉ r.candidates d mates bs := fun hc ↦ ((mem_candidates hd).mp hc).2.1 hmi
      rw [if_pos hmi, if_neg hnot, if_pos (.inl hmi)]
    · rw [if_neg hmi, zero_add]
      simp only [hmi, false_or]
  planned step hstep := by
    rcases List.mem_append.mp hstep with hstep | hstep
    · exact h.planned step hstep
    · rw [List.mem_singleton.mp hstep]
      exact ⟨hkind, fun mi hmi ↦ ((mem_candidates hd).mp hmi).1⟩
  extends_sound pre step hpre := by
    rcases List.prefix_concat_iff.mp hpre with heq | hpre
    · obtain ⟨rfl, hstep⟩ := List.append_inj' heq rfl
      rw [List.singleton_inj.mp hstep]
      exact hextend
    · exact h.extends_sound pre step hpre

/-! ## Extensions and clusters -/

theorem extendOnce_eq_some {r' : Progress F} (h : r.extendOnce num d mates = some r') :
    ∃ pos body, r.unplaced[pos]? = some body ∧
      r.assembly.rankSum (r.candidates d mates [body]) = 6 ∧
      r' = { r.place num d mates (.extend body) [body] with
        unplaced := r.unplaced.eraseIdx pos
        stats := { r.stats with extendSteps := r.stats.extendSteps + 1 } } := by
  obtain ⟨pos, hpos, h⟩ := Option.bind_eq_some_iff.mp h
  obtain ⟨body, hbody, h⟩ := Option.bind_eq_some_iff.mp h
  cases h
  refine ⟨pos, body, hbody, ?_, rfl⟩
  obtain ⟨hlt, hext, -⟩ := List.findIdx?_eq_some_iff_getElem.mp hpos
  obtain ⟨_, hget⟩ := List.getElem?_eq_some_iff.mp hbody
  rw [hget, extensible, Bool.and_eq_true, beq_iff_eq] at hext
  exact hext.2

structure InPlan (d : Decomposition) (n : ℕ) (a : Assembly F) (comp mates : List ℕ)
    (r : Progress F) : Prop where
  sound : Sound d n a comp mates r
  pending : Pending d n mates r.unplaced r
  subset : ∀ b ∈ r.unplaced, b ∈ comp

theorem InPlan.extendOnce (hd : d.Assigns n) (hnum : num.MovesBlocksOnly)
    (h : InPlan d n a comp mates r) {r' : Progress F}
    (hr : r.extendOnce num d mates = some r') : InPlan d n a comp mates r' := by
  obtain ⟨pos, body, hbody, hrank, rfl⟩ := extendOnce_eq_some hr
  have hcomp : body ∈ comp := h.subset body (List.mem_of_getElem? hbody)
  have hsound : ExtendSound d n a comp r.steps
      ⟨.extend body, [body].map d.members, r.candidates d mates [body]⟩ := by
    rintro b ⟨⟩
    refine ⟨rfl, ?_, fun mi hmi ↦ ?_⟩
    · rw [← hrank, Assembly.rankSum, Assembly.rankSum, h.sound.outside.mates_eq]
    · obtain ⟨-, -, htouch, hscope⟩ := (mem_candidates hd).mp hmi
      simp only [List.mem_singleton] at htouch hscope
      exact ⟨htouch, fun i hi ↦ ((hscope i hi).imp_left (h.sound.mem_placed i).mp).symm⟩
  have hplaced : Sound d n a comp mates (r.place num d mates (.extend body) [body]) :=
    h.sound.place hd hnum (fun b hb ↦ List.mem_singleton.mp hb ▸ hcomp) rfl hsound
  have hpending : Pending d n mates (r.unplaced.eraseIdx pos)
      (r.place num d mates (.extend body) [body]) := by
    refine h.pending.place hd fun b hb ↦ ?_
    obtain ⟨i, hi⟩ := List.getElem?_of_mem hb
    by_cases hpos : i = pos
    · rw [hpos, hbody] at hi
      exact .inl (List.mem_singleton.mpr (Option.some.inj hi).symm)
    · exact .inr (List.mem_eraseIdx_iff_getElem?.mpr ⟨i, hpos, hi⟩)
  exact ⟨⟨hplaced.outside, hplaced.mem_placed, hplaced.countP_steps, hplaced.planned,
    hplaced.extends_sound⟩, ⟨hpending.mem_placed, hpending.touches⟩,
    fun b hb ↦ h.subset b (List.mem_of_mem_eraseIdx hb)⟩

theorem InPlan.extendLoop (hd : d.Assigns n) (hnum : num.MovesBlocksOnly) (fuel : ℕ)
    (h : InPlan d n a comp mates r) :
    InPlan d n a comp mates (extendLoop num d mates fuel r) := by
  induction fuel generalizing r with
  | zero => exact h
  | succ fuel ih =>
    rw [Progress.extendLoop]
    rcases hr : r.extendOnce num d mates with _ | r'
    · exact h
    · exact ih (h.extendOnce hd hnum hr)

theorem exists_cluster_of_mem {b : ℕ} (hb : b ∈ r.unplaced) :
    ∃ cluster ∈ r.clusters d mates, b ∈ cluster := by
  have hcount : 0 < (r.clusters d mates).countP fun cluster ↦ b ∈ cluster := by
    rw [clusters, countP_orderBySmallest, List.countP_groupsBy _ hb]
    exact Nat.one_pos
  obtain ⟨cluster, hcluster, hmem⟩ := List.countP_pos_iff.mp hcount
  exact ⟨cluster, hcluster, of_decide_eq_true hmem⟩

theorem mem_unplaced_of_mem_cluster {cluster : List ℕ} (hcluster : cluster ∈ r.clusters d mates)
    {b : ℕ} (hb : b ∈ cluster) : b ∈ r.unplaced := by
  obtain ⟨group, hgroup, hperm⟩ := exists_perm_of_mem_orderBySmallest hcluster
  have hb' := hperm.mem_iff.mpr hb
  exact ((List.mem_group_iff hgroup hb' b).mp hb').1

theorem solveClusters_spec (hd : d.Assigns n) (hnum : num.MovesBlocksOnly) (cs : List (List ℕ))
    {rest : List ℕ} (h : Sound d n a comp mates r) (hpending : Pending d n mates rest r)
    (hcomp : ∀ cluster ∈ cs, ∀ b ∈ cluster, b ∈ comp)
    (hrest : ∀ b ∈ rest, ∃ cluster ∈ cs, b ∈ cluster) :
    Sound d n a comp mates (cs.foldl (solveCluster num d mates) r) ∧
      Pending d n mates [] (cs.foldl (solveCluster num d mates) r) := by
  induction cs generalizing r rest with
  | nil =>
    have hnil : rest = [] := List.eq_nil_iff_forall_not_mem.mpr fun b hb ↦ by
      obtain ⟨cluster, hcluster, -⟩ := hrest b hb
      exact List.not_mem_nil hcluster
    exact ⟨h, hnil ▸ hpending⟩
  | cons cluster cs ih =>
    have hplaced : Sound d n a comp mates (r.place num d mates .cluster cluster) :=
      h.place hd hnum (hcomp cluster List.mem_cons_self) rfl nofun
    have hpending' : Pending d n mates (rest.filter fun b ↦ b ∉ cluster)
        (r.place num d mates .cluster cluster) := by
      refine hpending.place hd fun b hb ↦ ?_
      by_cases hmem : b ∈ cluster
      · exact .inl hmem
      · exact .inr (List.mem_filter.mpr ⟨hb, decide_eq_true hmem⟩)
    rw [List.foldl_cons]
    refine ih ⟨hplaced.outside, hplaced.mem_placed, hplaced.countP_steps, hplaced.planned,
      hplaced.extends_sound⟩ ⟨hpending'.mem_placed, hpending'.touches⟩
      (fun c hc ↦ hcomp c (List.mem_cons_of_mem _ hc)) fun b hb ↦ ?_
    obtain ⟨hb, hnot⟩ := List.mem_filter.mp hb
    obtain ⟨c, hc, hbc⟩ := hrest b hb
    rcases List.mem_cons.mp hc with rfl | hc
    · exact absurd hbc (of_decide_eq_true hnot)
    · exact ⟨c, hc, hbc⟩

/-- **A whole plan** is sound and consumes every mate of its component. -/
theorem InPlan.plan (hd : d.Assigns n) (hnum : num.MovesBlocksOnly)
    (h : InPlan d n a comp mates r) :
    Sound d n a comp mates (r.plan num d mates) ∧
      ∀ mi ∈ mates, mi ∈ (r.plan num d mates).consumed := by
  have hext := h.extendLoop hd hnum r.unplaced.length
  obtain ⟨hsound, hpending⟩ := solveClusters_spec hd hnum _ hext.sound hext.pending
    (fun cluster hcluster b hb ↦ hext.subset b (mem_unplaced_of_mem_cluster hcluster hb))
    fun b hb ↦ exists_cluster_of_mem hb
  refine ⟨hsound, fun mi hmi ↦ ?_⟩
  by_contra hleft
  obtain ⟨i, -, hi⟩ := hpending.touches mi hmi hleft
  exact List.not_mem_nil hi

end Progress

end Mates

end RosheraCad
