import RosheraCad.Sketch.Cluster

/-!
# The invariant of the discovery loop

A round appends one step, marks the constraints it lists as consumed and the entities it places as
placed. Along a run no constraint is listed twice and no entity is placed twice.
-/

namespace RosheraCad.Sketch

/-! ## What a sound step is -/

def dofsRemoved (constraints : List PlanConstraint) (indices : List ℕ) : ℕ :=
  (indices.map fun i ↦ (constraints[i]?.map PlanConstraint.dofRemoved).getD 0).sum

namespace PlanStep

def hardConstraints : PlanStep → List ℕ
  | extend _ constraints _ => constraints
  | placeCluster _ internal boundary _ => internal ++ boundary

def Sound (entities : List PlanEntity) (constraints : List PlanConstraint)
    (before : List EntityRef) : PlanStep → Prop
  | extend entity indices _ =>
    (∃ e ∈ entities, e.entity = entity ∧ dofsRemoved constraints indices = e.freeDofs) ∧
      ∀ i ∈ indices, ∃ c, constraints[i]? = some c ∧ c.hard ∧ entity ∈ c.vars ∧
        ∀ v ∈ c.vars, v = entity ∨ v ∈ before
  | placeCluster cluster internal boundary _ =>
    dofsRemoved constraints boundary = 3 ∧
      (∀ i ∈ internal, ∃ c, constraints[i]? = some c ∧ c.hard ∧ c.grounded = false ∧
        ∀ v ∈ c.vars, v ∈ cluster) ∧
      ∀ i ∈ boundary, ∃ c, constraints[i]? = some c ∧ c.hard ∧ (∃ v ∈ c.vars, v ∈ cluster) ∧
        ∀ v ∈ c.vars, v ∈ cluster ∨ v ∈ before

end PlanStep

/-! ## Selecting positions -/

section Positions

variable {constraints : List PlanConstraint} {p : PlanConstraint × ℕ → Bool}

def positions (constraints : List PlanConstraint) (p : PlanConstraint × ℕ → Bool) : List ℕ :=
  (constraints.zipIdx.filter p).map Prod.snd

theorem mem_positions {i : ℕ} :
    i ∈ positions constraints p ↔ ∃ c, constraints[i]? = some c ∧ p (c, i) := by
  rw [positions, List.mem_map]
  constructor
  · rintro ⟨⟨c, j⟩, hc, rfl⟩
    obtain ⟨hmem, hp⟩ := List.mem_filter.mp hc
    exact ⟨c, List.mk_mem_zipIdx_iff_getElem?.mp hmem, hp⟩
  · rintro ⟨c, hc, hp⟩
    exact ⟨(c, i), List.mem_filter.mpr ⟨List.mk_mem_zipIdx_iff_getElem?.mpr hc, hp⟩, rfl⟩

theorem nodup_positions : (positions constraints p).Nodup := by
  refine List.Nodup.sublist (List.Sublist.map _ List.filter_sublist) ?_
  rw [List.zipIdx_map_snd]
  exact List.nodup_range'

theorem dofsRemoved_positions : dofsRemoved constraints (positions constraints p) =
    ((constraints.zipIdx.filter p).map fun ci ↦ ci.1.dofRemoved).sum := by
  rw [dofsRemoved, positions, List.map_map]
  congr 1
  refine List.map_congr_left fun ⟨c, i⟩ hc ↦ ?_
  have hget := List.mk_mem_zipIdx_iff_getElem?.mp (List.mem_filter.mp hc).1
  simp only [Function.comp_apply, hget, Option.map_some, Option.getD_some]

end Positions

namespace Discovery

variable {d : Discovery} {entities : List PlanEntity} {constraints : List PlanConstraint}
  {next : Discovery}

theorem length_consume (indices : List ℕ) (consumed : List Bool) :
    (consume indices consumed).length = consumed.length := by
  induction indices generalizing consumed with
  | nil => rfl
  | cons i indices ih => rw [consume, List.foldl_cons, ← consume, ih, List.length_set]

theorem getD_consume (indices : List ℕ) (consumed : List Bool) (j : ℕ) :
    (consume indices consumed).getD j false = true ↔
      consumed.getD j false = true ∨ (j ∈ indices ∧ j < consumed.length) := by
  induction indices generalizing consumed with
  | nil => simp [consume]
  | cons i indices ih =>
    rw [consume, List.foldl_cons, ← consume, ih, List.length_set]
    have hset : (consumed.set i true).getD j false = true ↔
        consumed.getD j false = true ∨ (j = i ∧ j < consumed.length) := by
      rw [List.getD_eq_getElem?_getD, List.getD_eq_getElem?_getD, List.getElem?_set]
      by_cases hij : i = j
      · subst hij
        by_cases hlt : i < consumed.length
        · simp [hlt]
        · simp [hlt]
      · simp [hij, Ne.symm hij]
    rw [hset, List.mem_cons]
    tauto

/-! ## The invariant -/

structure Inv (entities : List PlanEntity) (constraints : List PlanConstraint) (d : Discovery) :
    Prop where
  constraints_eq : d.constraints = constraints
  free_eq : d.free = (init entities constraints).free
  capable_eq : d.clusterCapable = (init entities constraints).clusterCapable
  length_consumed : d.consumed.length = constraints.length
  placed_iff : ∀ e, e ∈ d.placed ↔ e ∈ d.steps.flatMap PlanStep.placedEntities
  nodup_placed : (d.steps.flatMap PlanStep.placedEntities).Nodup
  placed_free : ∀ e ∈ d.placed, e ∈ d.free
  consumed_iff : ∀ i, d.isConsumed i ↔ i ∈ d.steps.flatMap PlanStep.hardConstraints
  nodup_hard : (d.steps.flatMap PlanStep.hardConstraints).Nodup
  steps_sound : ∀ before step after, d.steps = before ++ step :: after →
    step.Sound entities constraints (before.flatMap PlanStep.placedEntities)
  placed_ne : ∀ step ∈ d.steps, step.placedEntities ≠ []
  soft_nil : ∀ step ∈ d.steps, step.soft = []

def pushed (d : Discovery) (placed : OrderedSet EntityRef) (step : PlanStep) : Discovery :=
  { d with
    consumed := consume step.hardConstraints d.consumed
    placed := placed
    steps := d.steps ++ [step] }

namespace Inv

theorem start : Inv entities constraints (init entities constraints) where
  constraints_eq := rfl
  free_eq := rfl
  capable_eq := rfl
  length_consumed := List.length_replicate
  placed_iff e := by simp [init]
  nodup_placed := .nil
  placed_free e he := by simp [init] at he
  consumed_iff i := by
    simp only [init, isConsumed, List.getD_eq_getElem?_getD, List.getElem?_replicate,
      List.flatMap_nil, List.not_mem_nil, iff_false]
    split <;> exact Bool.false_ne_true
  nodup_hard := .nil
  steps_sound before step after h := by simp [init] at h
  placed_ne step h := by simp [init] at h
  soft_nil step h := by simp [init] at h

/-- **A step keeps the invariant** when it lists unconsumed constraints and places unplaced free
entities. -/
theorem push (h : Inv entities constraints d) {placed : OrderedSet EntityRef} (step : PlanStep)
    (hplaced : ∀ e, e ∈ placed ↔ e ∈ d.placed ∨ e ∈ step.placedEntities)
    (hne : step.placedEntities ≠ []) (hnodup : step.placedEntities.Nodup)
    (hnew : ∀ e ∈ step.placedEntities, e ∉ d.placed)
    (hfree : ∀ e ∈ step.placedEntities, e ∈ d.free) (hhard : step.hardConstraints.Nodup)
    (hunconsumed : ∀ i ∈ step.hardConstraints, i < constraints.length ∧ ¬ d.isConsumed i)
    (hsound : step.Sound entities constraints (d.steps.flatMap PlanStep.placedEntities))
    (hsoft : step.soft = []) : Inv entities constraints (d.pushed placed step) where
  constraints_eq := h.constraints_eq
  free_eq := h.free_eq
  capable_eq := h.capable_eq
  length_consumed := (length_consume _ _).trans h.length_consumed
  placed_iff e := by
    rw [pushed, List.flatMap_append, List.mem_append, ← h.placed_iff, List.flatMap_singleton]
    exact hplaced e
  nodup_placed := by
    rw [pushed, List.flatMap_append, List.flatMap_singleton, List.nodup_append]
    refine ⟨h.nodup_placed, hnodup, fun a ha b hb hab ↦ ?_⟩
    exact hnew b hb ((h.placed_iff b).mpr (hab ▸ ha))
  placed_free e he := by
    rcases (hplaced e).mp he with he | he
    · exact h.placed_free e he
    · exact hfree e he
  consumed_iff i := by
    rw [isConsumed, pushed, getD_consume, List.flatMap_append, List.mem_append,
      List.flatMap_singleton, ← h.consumed_iff, h.length_consumed]
    refine or_congr_right (and_iff_left_of_imp fun hi ↦ (hunconsumed i hi).1)
  nodup_hard := by
    rw [pushed, List.flatMap_append, List.flatMap_singleton, List.nodup_append]
    refine ⟨h.nodup_hard, hhard, fun a ha b hb hab ↦ ?_⟩
    exact (hunconsumed b hb).2 ((h.consumed_iff b).mpr (hab ▸ ha))
  steps_sound before s after heq := by
    rcases List.eq_nil_or_concat after with rfl | ⟨after, last, rfl⟩
    · -- The step pushed is the last one; the others were sound before.
      obtain ⟨rfl, hstep⟩ := List.append_inj' heq rfl
      obtain rfl := List.singleton_inj.mp hstep
      exact hsound
    · rw [List.concat_eq_append, ← List.cons_append, ← List.append_assoc] at heq
      exact h.steps_sound before s after (List.append_inj' heq rfl).1
  placed_ne s hs := by
    rcases List.mem_append.mp hs with hs | hs
    · exact h.placed_ne s hs
    · rwa [List.mem_singleton.mp hs]
  soft_nil s hs := by
    rcases List.mem_append.mp hs with hs | hs
    · exact h.soft_nil s hs
    · rwa [List.mem_singleton.mp hs]

/-! ## The two rules -/

theorem exists_of_free (h : Inv entities constraints d) {e : EntityRef} {n : ℕ}
    (he : d.free[e]? = some n) : ∃ pe ∈ entities, pe.entity = e ∧ pe.freeDofs = n ∧ n ≠ 0 := by
  rw [h.free_eq, init] at he
  rcases OrderedMap.mem_or_of_getElem?_insertEntries he with hmem | hempty
  · obtain ⟨pe, hpe, heq⟩ := List.mem_map.mp hmem
    cases heq
    obtain ⟨hmem, hpos⟩ := List.mem_filter.mp hpe
    exact ⟨pe, hmem, rfl, rfl, Nat.ne_of_gt (of_decide_eq_true hpos)⟩
  · simp at hempty

theorem mem_free_of_capable (h : Inv entities constraints d) {e : EntityRef}
    (he : e ∈ d.clusterCapable) : e ∈ d.free := by
  rw [h.capable_eq, init, OrderedSet.mem_ofList] at he
  obtain ⟨pe, hpe, rfl⟩ := List.mem_map.mp he
  obtain ⟨hmem, hcond⟩ := List.mem_filter.mp hpe
  rw [h.free_eq, init, OrderedMap.mem_insertEntries]
  refine Or.inl ⟨pe.freeDofs, List.mem_map.mpr ⟨pe, List.mem_filter.mpr ⟨hmem, ?_⟩, rfl⟩⟩
  exact (Bool.and_eq_true _ _ ▸ hcond).1

theorem not_mem_of_not_contains {s : OrderedSet EntityRef} {e : EntityRef}
    (h : (!s.contains e) = true) : e ∉ s := by
  rw [Bool.not_eq_true', ← Bool.not_eq_true, Std.ExtTreeSet.contains_iff_mem] at h
  exact h

theorem matchingHard_eq_some {target : EntityRef} {scope : OrderedSet EntityRef}
    {expected : ℕ} {indices : List ℕ} (h : d.matchingHard target scope expected = some indices) :
    (indices = positions d.constraints fun ci ↦ !d.isConsumed ci.2 && ci.1.hard &&
      ci.1.vars.contains target && ci.1.vars.all scope.contains) ∧
    dofsRemoved d.constraints indices = expected := by
  rw [matchingHard] at h
  split at h
  · next hcond =>
    cases h
    refine ⟨rfl, ?_⟩
    rw [Bool.and_eq_true, decide_eq_true_eq] at hcond
    exact dofsRemoved_positions.trans hcond.2
  · cases h

theorem tryExtend (h : Inv entities constraints d)
    (hnext : d.tryExtend = some next) : Inv entities constraints next := by
  obtain ⟨⟨entity, dofs⟩, hcand, hsome⟩ := List.exists_of_findSome?_eq_some hnext
  obtain ⟨hfree, hnot⟩ := List.mem_filter.mp hcand
  obtain ⟨indices, hindices, rfl⟩ := Option.map_eq_some_iff.mp hsome
  obtain ⟨hpos, hdofs⟩ := matchingHard_eq_some hindices
  rw [OrderedMap.mem_toList] at hfree
  have hlisted : ∀ i ∈ indices, ∃ c, constraints[i]? = some c ∧ ¬ d.isConsumed i ∧ c.hard ∧
      entity ∈ c.vars ∧ ∀ v ∈ c.vars, v = entity ∨ v ∈ d.placed := by
    intro i hi
    rw [hpos, h.constraints_eq, mem_positions] at hi
    obtain ⟨c, hc, hp⟩ := hi
    simp only [Bool.and_eq_true, Bool.not_eq_true', List.contains_iff_mem, List.all_eq_true,
      Std.ExtTreeSet.contains_iff_mem, Std.ExtTreeSet.mem_insert,
      Std.LawfulEqOrd.compare_eq_iff_eq] at hp
    obtain ⟨⟨⟨hconsumed, hhard⟩, hmem⟩, hvars⟩ := hp
    refine ⟨c, hc, by simp [hconsumed], hhard, hmem, fun v hv ↦ ?_⟩
    exact (hvars v hv).imp_left Eq.symm
  refine h.push (.extend entity indices []) (fun e ↦ ?_)
    (List.cons_ne_nil _ _) (List.nodup_singleton _) (fun e he ↦ ?_) (fun e he ↦ ?_)
    (hpos ▸ nodup_positions) (fun i hi ↦ ?_) ⟨?_, fun i hi ↦ ?_⟩ rfl
  · rw [Std.ExtTreeSet.mem_insert, Std.LawfulEqOrd.compare_eq_iff_eq, or_comm,
      PlanStep.placedEntities, List.mem_singleton, eq_comm]
  · rw [List.mem_singleton.mp he]
    exact not_mem_of_not_contains hnot
  · rw [List.mem_singleton.mp he]
    exact OrderedMap.mem_of_getElem? hfree
  · obtain ⟨c, hc, hconsumed, -⟩ := hlisted i hi
    exact ⟨(List.getElem?_eq_some_iff.mp hc).1, hconsumed⟩
  · obtain ⟨pe, hpe, heq, hn, -⟩ := h.exists_of_free hfree
    rw [← h.constraints_eq]
    exact ⟨pe, hpe, heq, hdofs.trans hn.symm⟩
  · obtain ⟨c, hc, -, hhard, hmem, hvars⟩ := hlisted i hi
    exact ⟨c, hc, hhard, hmem, fun v hv ↦ (hvars v hv).imp_right (h.placed_iff v).mp⟩

variable {cluster : Cluster}

private theorem mem_internal {i : ℕ}
    (hi : i ∈ ((d.touching cluster).filter fun ci ↦ isInternal cluster ci.1).map Prod.snd) :
    ∃ c, d.constraints[i]? = some c ∧ ¬ d.isConsumed i ∧ c.hard ∧ isInternal cluster c ∧
      c.grounded = false ∧ ∀ v ∈ c.vars, v ∈ cluster.toList := by
  rw [touching, List.filter_filter] at hi
  obtain ⟨c, hc, hp⟩ := mem_positions.mp hi
  simp only [Bool.and_eq_true, Bool.not_eq_true'] at hp
  obtain ⟨hinternal, ⟨hconsumed, hhard⟩, -⟩ := hp
  have hin := hinternal
  simp only [isInternal, Bool.and_eq_true, List.all_eq_true, Std.ExtTreeSet.contains_iff_mem,
    Bool.not_eq_true'] at hin
  exact ⟨c, hc, by simp [hconsumed], hhard, hinternal, hin.2,
    fun v hv ↦ Std.ExtTreeSet.mem_toList.mpr (hin.1 v hv)⟩

private theorem mem_boundary {i : ℕ}
    (hi : i ∈ ((d.touching cluster).filter fun ci ↦ d.isBoundary cluster ci.1).map Prod.snd) :
    ∃ c, d.constraints[i]? = some c ∧ ¬ d.isConsumed i ∧ c.hard ∧ ¬ isInternal cluster c ∧
      (∃ v ∈ c.vars, v ∈ cluster.toList) ∧
      ∀ v ∈ c.vars, v ∈ cluster.toList ∨ v ∈ d.placed := by
  rw [touching, List.filter_filter] at hi
  obtain ⟨c, hc, hp⟩ := mem_positions.mp hi
  simp only [Bool.and_eq_true, isBoundary, Bool.not_eq_true', List.any_eq_true, List.all_eq_true,
    Bool.or_eq_true, Std.ExtTreeSet.contains_iff_mem] at hp
  obtain ⟨⟨hnot, hvars⟩, ⟨hconsumed, hhard⟩, v, hv, hvc⟩ := hp
  exact ⟨c, hc, by simp [hconsumed], hhard, by simp [hnot],
    ⟨v, hv, Std.ExtTreeSet.mem_toList.mpr hvc⟩,
    fun v hv ↦ (hvars v hv).imp_left Std.ExtTreeSet.mem_toList.mpr⟩

section

variable (h : Inv entities constraints d)

include h

theorem placeCluster (hcluster : ∀ e ∈ cluster, e ∈ d.pool)
    (hnext : d.placeCluster cluster = some next) : Inv entities constraints next := by
  rw [Discovery.placeCluster] at hnext
  split at hnext
  · cases hnext
  next hsize =>
  dsimp only at hnext
  split at hnext
  · cases hnext
  next hsum =>
  cases hnext
  have hpool : ∀ e ∈ cluster.toList, e ∈ d.clusterCapable ∧ e ∉ d.placed := by
    intro e he
    have hmem := hcluster e (Std.ExtTreeSet.mem_toList.mp he)
    obtain ⟨hcapable, hnot⟩ := List.mem_filter.mp hmem
    exact ⟨Std.ExtTreeSet.mem_toList.mp hcapable, not_mem_of_not_contains hnot⟩
  have hlt : ∀ {i c}, d.constraints[i]? = some c → i < constraints.length := fun hc ↦
    h.constraints_eq ▸ (List.getElem?_eq_some_iff.mp hc).1
  refine h.push (.placeCluster cluster.toList _ _ []) (fun e ↦ ?_) ?_
    (OrderedSet.nodup_toList cluster) (fun e he ↦ (hpool e he).2)
    (fun e he ↦ h.mem_free_of_capable (hpool e he).1) ?_ (fun i hi ↦ ?_)
    ⟨?_, fun i hi ↦ ?_, fun i hi ↦ ?_⟩ rfl
  · rw [OrderedSet.mem_insertMany, PlanStep.placedEntities]
  · rw [PlanStep.placedEntities, ← List.length_pos_iff, Std.ExtTreeSet.length_toList]
    omega
  · rw [PlanStep.hardConstraints, List.nodup_append]
    refine ⟨?_, ?_, fun i hi j hj hij ↦ ?_⟩
    · rw [touching, List.filter_filter]
      exact nodup_positions
    · rw [touching, List.filter_filter]
      exact nodup_positions
    · obtain ⟨c, hc, -, -, hinternal, -⟩ := mem_internal hi
      obtain ⟨c', hc', -, -, hnot, -⟩ := mem_boundary hj
      rw [← hij, hc] at hc'
      cases hc'
      exact hnot hinternal
  · rcases List.mem_append.mp hi with hi | hi
    · obtain ⟨c, hc, hconsumed, -⟩ := mem_internal hi
      exact ⟨hlt hc, hconsumed⟩
    · obtain ⟨c, hc, hconsumed, -⟩ := mem_boundary hi
      exact ⟨hlt hc, hconsumed⟩
  · rw [← h.constraints_eq]
    refine Eq.trans ?_ (not_not.mp hsum)
    rw [touching, List.filter_filter]
    exact dofsRemoved_positions
  · obtain ⟨c, hc, -, hhard, -, hgrounded, hvars⟩ := mem_internal hi
    exact ⟨c, h.constraints_eq ▸ hc, hhard, hgrounded, hvars⟩
  · obtain ⟨c, hc, -, hhard, -, htouch, hvars⟩ := mem_boundary hi
    exact ⟨c, h.constraints_eq ▸ hc, hhard, htouch,
      fun v hv ↦ (hvars v hv).imp_right (h.placed_iff v).mp⟩

/-- **A round keeps the invariant.** -/
theorem advance (hnext : d.advance = some next) : Inv entities constraints next := by
  rw [Discovery.advance] at hnext
  rcases hext : d.tryExtend with - | extended
  · rw [hext] at hnext
    obtain ⟨cluster, hcluster, hsome⟩ := List.exists_of_findSome?_eq_some hnext
    exact h.placeCluster (d.within_discoverRigidClusters cluster hcluster) hsome
  · rw [hext] at hnext
    cases hnext
    exact h.tryExtend hext

theorem run (bound : ℕ) :
    Inv entities constraints (d.run bound) := by
  induction bound generalizing d with
  | zero => exact h
  | succ bound ih =>
    rw [Discovery.run]
    rcases hnext : d.advance with - | next
    · exact h
    · exact ih (h.advance hnext)

theorem length_steps_le : d.steps.length ≤ d.free.size := by
  have hlen : d.steps.length ≤ (d.steps.flatMap PlanStep.placedEntities).length := by
    have hne := h.placed_ne
    generalize d.steps = steps at hne
    induction steps with
    | nil => exact Nat.le_refl _
    | cons step steps ih =>
      have hpos := List.length_pos_iff.mpr (hne step List.mem_cons_self)
      have := ih fun s hs ↦ hne s (List.mem_cons_of_mem _ hs)
      rw [List.length_cons, List.flatMap_cons, List.length_append]
      omega
  refine hlen.trans ?_
  rw [← Std.ExtTreeMap.length_keys]
  refine (List.subperm_of_subset h.nodup_placed fun e he ↦ ?_).length_le
  exact Std.ExtTreeMap.mem_keys.mpr (h.placed_free e ((h.placed_iff e).mpr he))

end

end Inv

theorem length_steps_advance (h : d.advance = some next) :
    next.steps.length = d.steps.length + 1 := by
  rw [advance] at h
  rcases hext : d.tryExtend with - | extended
  · rw [hext] at h
    obtain ⟨cluster, -, hsome⟩ := List.exists_of_findSome?_eq_some h
    rw [placeCluster] at hsome
    split at hsome
    · cases hsome
    dsimp only at hsome
    split at hsome
    · cases hsome
    cases hsome
    rw [clusterPlaced, List.length_append, List.length_singleton]
  · rw [hext] at h
    cases h
    obtain ⟨cand, -, hsome⟩ := List.exists_of_findSome?_eq_some hext
    obtain ⟨indices, -, rfl⟩ := Option.map_eq_some_iff.mp hsome
    rw [extended, List.length_append, List.length_singleton]

theorem advance_run_or (d : Discovery) (bound : ℕ) :
    (d.run bound).advance = none ∨ (d.run bound).steps.length = d.steps.length + bound := by
  induction bound generalizing d with
  | zero => exact Or.inr rfl
  | succ bound ih =>
    rw [run]
    rcases hnext : d.advance with - | next
    · exact Or.inl hnext
    · refine (ih next).imp_right fun hlen ↦ ?_
      rw [hlen, length_steps_advance hnext]
      omega

/-- **The discovery loop ends by itself** within the bound. -/
theorem advance_run_init (entities : List PlanEntity) (constraints : List PlanConstraint) :
    ((init entities constraints).run (init entities constraints).free.size).advance = none := by
  have hinv := (Inv.start : Inv entities constraints _).run
    (init entities constraints).free.size
  rcases advance_run_or (init entities constraints) (init entities constraints).free.size with
    hstop | hlen
  · exact hstop
  · refine Option.eq_none_iff_forall_ne_some.mpr fun next hnext ↦ ?_
    have hle := (hinv.advance hnext).length_steps_le
    rw [length_steps_advance hnext, hlen, (hinv.advance hnext).free_eq] at hle
    omega

end Discovery

end RosheraCad.Sketch
