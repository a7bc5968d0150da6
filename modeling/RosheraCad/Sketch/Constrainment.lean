import RosheraCad.Sketch.Rigidity

/-!
# Constrainment of the entities of a component

The analysis runs the planner's discovery loop and then walks over the entities in ascending order.
Each entity not placed is charged the hard constraints between it and what was placed or walked over
before it. The facts are in balance with the component, up to the surplus of the clusters that the
loop placed.
-/

namespace RosheraCad.Sketch

structure EntityConstrainmentFact where
  entity : EntityRef
  /-- The discovery loop placed the entity, or it owns no free parameters. -/
  placed : Bool
  freeDofs : ℕ
  cluster : Option ℕ
  overconsumedDofs : ℕ
  deriving DecidableEq

structure ConstrainmentAnalysis where
  facts : List EntityConstrainmentFact
  /-- The discovery loop placed every free entity and consumed every hard constraint. -/
  complete : Bool
  clusterCount : ℕ
  deriving DecidableEq

def clusterLabels (steps : List PlanStep) : OrderedMap EntityRef ℕ × ℕ :=
  steps.foldl (fun (clusterOf, count) step ↦
    match step with
    | .extend _ _ _ => (clusterOf, count)
    | .placeCluster entities _ _ _ =>
      (clusterOf.insertEntries (entities.map fun e ↦ (e, count)), count + 1)) (∅, 0)

structure Attribution where
  consumed : List Bool
  virtuallyPlaced : OrderedSet EntityRef
  facts : List EntityConstrainmentFact

namespace Attribution

variable (constraints : List PlanConstraint)

/-- The constraint is hard, not consumed, touches the entity and lies within what was gone through.
-/
def charges (s : Attribution) (e : EntityRef) (ci : PlanConstraint × ℕ) : Bool :=
  !s.consumed.getD ci.2 false && ci.1.hard && !ci.1.vars.isEmpty && ci.1.vars.contains e &&
    ci.1.vars.all (s.virtuallyPlaced.insert e).contains

def charged (s : Attribution) (e : EntityRef) : ℕ :=
  ((constraints.zipIdx.filter (s.charges e)).map fun ci ↦ ci.1.dofRemoved).sum

def walk (placed : OrderedSet EntityRef) (clusterOf : OrderedMap EntityRef ℕ) (s : Attribution)
    (e : PlanEntity) : Attribution :=
  if e.freeDofs = 0 then { s with facts := s.facts ++ [⟨e.entity, true, 0, none, 0⟩] }
  else if placed.contains e.entity then
    { s with facts := s.facts ++ [⟨e.entity, true, 0, clusterOf[e.entity]?, 0⟩] }
  else
    let charged := s.charged constraints e.entity
    let absorbed := min charged e.freeDofs
    { consumed := Discovery.consume (positions constraints (s.charges e.entity)) s.consumed
      virtuallyPlaced := s.virtuallyPlaced.insert e.entity
      facts := s.facts ++ [⟨e.entity, false, e.freeDofs - absorbed, none, charged - absorbed⟩] }

end Attribution

def sortEntities (entities : List PlanEntity) : List PlanEntity :=
  entities.insertionSort fun a b ↦ (compare a.entity b.entity).isLE

/-- Structural per-entity constrainment analysis. -/
def analyzeConstrainment (entities : List PlanEntity) (constraints : List PlanConstraint) :
    ConstrainmentAnalysis :=
  let start := Discovery.init entities constraints
  let discovery := start.run start.free.size
  let labels := clusterLabels discovery.steps
  let complete := discovery.placed.size = discovery.free.size &&
    constraints.zipIdx.all fun (c, i) ↦ !c.hard || discovery.isConsumed i
  let attribution := (sortEntities entities).foldl
    (Attribution.walk constraints discovery.placed labels.1)
    ⟨discovery.consumed, discovery.placed, []⟩
  ⟨attribution.facts, complete, labels.2⟩

/-! ## Hard constraints wait for a variable -/

def Pending (constraints : List PlanConstraint) (placed : OrderedSet EntityRef)
    (consumed : List Bool) : Prop :=
  ∀ i c, constraints[i]? = some c → c.hard → ¬ consumed.getD i false → ∃ v ∈ c.vars, v ∉ placed

section

variable {entities : List PlanEntity} {constraints : List PlanConstraint} {d next : Discovery}
  {placed placed' : OrderedSet EntityRef} {consumed : List Bool} {indices : List ℕ}

theorem Pending.place (h : Pending constraints placed consumed)
    (hlen : consumed.length = constraints.length)
    (htaken : ∀ i c, constraints[i]? = some c → c.hard → ¬ consumed.getD i false →
      (∃ v ∈ c.vars, v ∉ placed) → (∀ v ∈ c.vars, v ∈ placed') → i ∈ indices) :
    Pending constraints placed' (Discovery.consume indices consumed) := by
  intro i c hc hhard hnot
  rw [Discovery.getD_consume, not_or] at hnot
  obtain ⟨hfresh, hnot⟩ := hnot
  by_contra hall
  push Not at hall
  have hlt := (List.getElem?_eq_some_iff.mp hc).1
  exact hnot ⟨htaken i c hc hhard hfresh (h i c hc hhard hfresh) hall, hlen ▸ hlt⟩

namespace Discovery

theorem Inv.pending_extended (h : Inv entities constraints d)
    (hpending : Pending constraints d.placed d.consumed) (hnext : d.tryExtend = some next) :
    Pending constraints next.placed next.consumed := by
  obtain ⟨⟨entity, dofs⟩, -, hsome⟩ := List.exists_of_findSome?_eq_some hnext
  obtain ⟨indices, hindices, rfl⟩ := Option.map_eq_some_iff.mp hsome
  obtain ⟨hpos, -⟩ := Inv.matchingHard_eq_some hindices
  refine hpending.place h.length_consumed fun i c hc hhard hfresh hnew hall ↦ ?_
  obtain ⟨v, hv, hvnot⟩ := hnew
  have hmem : ∀ v ∈ c.vars, v = entity ∨ v ∈ d.placed := by
    intro v hv
    have := hall v hv
    rw [extended, Std.ExtTreeSet.mem_insert, Std.LawfulEqOrd.compare_eq_iff_eq] at this
    exact this.imp_left Eq.symm
  obtain rfl : v = entity := (hmem v hv).resolve_right hvnot
  rw [hpos, h.constraints_eq, mem_positions]
  refine ⟨c, hc, ?_⟩
  rw [Bool.not_eq_true] at hfresh
  simp only [isConsumed, hfresh, hhard, Bool.and_eq_true, Bool.not_false, List.contains_iff_mem,
    List.all_eq_true, Std.ExtTreeSet.contains_iff_mem]
  exact ⟨⟨⟨trivial, trivial⟩, hv⟩, fun u hu ↦ hall u hu⟩

theorem Inv.pending_placed (h : Inv entities constraints d)
    (hpending : Pending constraints d.placed d.consumed) {cluster : Cluster}
    (hnext : d.placeCluster cluster = some next) :
    Pending constraints next.placed next.consumed := by
  rw [Discovery.placeCluster] at hnext
  split at hnext
  · cases hnext
  dsimp only at hnext
  split at hnext
  · cases hnext
  cases hnext
  refine hpending.place h.length_consumed fun i c hc hhard hfresh hnew hall ↦ ?_
  obtain ⟨v, hv, hvnot⟩ := hnew
  have hmem : ∀ v ∈ c.vars, v ∈ d.placed ∨ v ∈ cluster := by
    intro v hv
    have := hall v hv
    rwa [clusterPlaced, OrderedSet.mem_insertMany, Std.ExtTreeSet.mem_toList] at this
  have htouch : (c, i) ∈ d.touching cluster := by
    rw [Bool.not_eq_true] at hfresh
    refine List.mem_filter.mpr ⟨List.mk_mem_zipIdx_iff_getElem?.mpr (h.constraints_eq ▸ hc), ?_⟩
    simp only [isConsumed, hfresh, hhard, Bool.not_false, Bool.true_and, List.any_eq_true]
    exact ⟨v, hv, Std.ExtTreeSet.contains_iff_mem.mpr ((hmem v hv).resolve_left hvnot)⟩
  rw [List.mem_append, List.mem_map, List.mem_map]
  by_cases hinternal : isInternal cluster c = true
  · exact Or.inl ⟨(c, i), List.mem_filter.mpr ⟨htouch, hinternal⟩, rfl⟩
  · refine Or.inr ⟨(c, i), List.mem_filter.mpr ⟨htouch, ?_⟩, rfl⟩
    rw [Bool.not_eq_true] at hinternal
    simp only [isBoundary, hinternal, Bool.not_false, Bool.true_and, List.all_eq_true,
      Bool.or_eq_true, Std.ExtTreeSet.contains_iff_mem]
    exact fun u hu ↦ (hmem u hu).symm

/-- **The loop leaves no constraint behind**: what it does not consume has an unplaced variable. -/
theorem Rounds.pending {overlaps : List ℤ} (h : (init entities constraints).Rounds d overlaps)
    (hvars : ∀ c ∈ constraints, c.vars ≠ []) : Pending constraints d.placed d.consumed := by
  induction h with
  | start =>
    intro i c hc hhard hnot
    obtain ⟨v, hv⟩ := List.exists_mem_of_ne_nil _ (hvars c (List.mem_of_getElem? hc))
    exact ⟨v, hv, by simp [init]⟩
  | extended hrounds hnext ih => exact hrounds.surplus_eq.1.pending_extended ih hnext
  | placed hrounds hplaces _ ih => exact hrounds.surplus_eq.1.pending_placed ih hplaces.placed

end Discovery

/-! ## What is left to charge -/

def remaining (constraints : List PlanConstraint) (consumed : List Bool) : ℕ :=
  dofsRemoved constraints
    (positions constraints fun ci ↦ ci.1.hard && !consumed.getD ci.2 false)

theorem mem_remaining {i : ℕ} :
    i ∈ positions constraints (fun ci ↦ ci.1.hard && !consumed.getD ci.2 false) ↔
      ∃ c, constraints[i]? = some c ∧ c.hard ∧ ¬ consumed.getD i false := by
  rw [mem_positions]
  simp only [Bool.and_eq_true, Bool.not_eq_true', Bool.not_eq_true]

theorem remaining_consume (hlen : consumed.length = constraints.length) (hnodup : indices.Nodup)
    (hindices : ∀ i ∈ indices, ∃ c, constraints[i]? = some c ∧ c.hard ∧
      ¬ consumed.getD i false) :
    remaining constraints (Discovery.consume indices consumed) + dofsRemoved constraints indices =
      remaining constraints consumed := by
  rw [remaining, remaining, ← dofsRemoved_append]
  refine dofsRemoved_perm ((List.perm_ext_iff_of_nodup ?_ nodup_positions).mpr fun i ↦ ?_)
  · refine nodup_positions.append hnodup fun i hi hindex ↦ ?_
    obtain ⟨c, hc, -, hnot⟩ := mem_remaining.mp hi
    have hlt := (List.getElem?_eq_some_iff.mp hc).1
    exact hnot ((Discovery.getD_consume _ _ _).mpr (Or.inr ⟨hindex, hlen ▸ hlt⟩))
  · rw [List.mem_append, mem_remaining, mem_remaining]
    constructor
    · rintro (⟨c, hc, hhard, hnot⟩ | hindex)
      · exact ⟨c, hc, hhard, fun hold ↦ hnot ((Discovery.getD_consume _ _ _).mpr (Or.inl hold))⟩
      · exact hindices i hindex
    · rintro ⟨c, hc, hhard, hnot⟩
      by_cases hindex : i ∈ indices
      · exact Or.inr hindex
      · refine Or.inl ⟨c, hc, hhard, fun hnew ↦ ?_⟩
        rcases (Discovery.getD_consume _ _ _).mp hnew with hold | ⟨hmem, -⟩
        · exact hnot hold
        · exact hindex hmem

theorem remaining_eq_zero (h : Pending constraints placed consumed)
    (hall : ∀ c ∈ constraints, ∀ v ∈ c.vars, v ∈ placed) : remaining constraints consumed = 0 := by
  have hnil : positions constraints (fun ci ↦ ci.1.hard && !consumed.getD ci.2 false) = [] := by
    refine List.eq_nil_iff_forall_not_mem.mpr fun i hi ↦ ?_
    obtain ⟨c, hc, hhard, hnot⟩ := mem_remaining.mp hi
    obtain ⟨v, hv, hvnot⟩ := h i c hc hhard hnot
    exact hvnot (hall c (List.mem_of_getElem? hc) v hv)
  rw [remaining, hnil]
  rfl

end

/-! ## The walk -/

/-- An entity that owns DOFs and was not placed. -/
def PlanEntity.loose (placed : OrderedSet EntityRef) (e : PlanEntity) : Bool :=
  e.freeDofs ≠ 0 && !placed.contains e.entity

namespace Attribution

variable {constraints : List PlanConstraint} {placed : OrderedSet EntityRef}
  {clusterOf : OrderedMap EntityRef ℕ} {s : Attribution} {e : PlanEntity}

def net (facts : List EntityConstrainmentFact) : ℤ :=
  (facts.map EntityConstrainmentFact.freeDofs).sum -
    (facts.map EntityConstrainmentFact.overconsumedDofs).sum

theorem net_append (facts : List EntityConstrainmentFact) (fact : EntityConstrainmentFact) :
    net (facts ++ [fact]) = net facts + fact.freeDofs - fact.overconsumedDofs := by
  rw [net, net, List.map_append, List.map_append, List.sum_append, List.sum_append,
    List.map_singleton, List.map_singleton, List.sum_singleton, List.sum_singleton]
  omega

structure Inv (constraints : List PlanConstraint) (s : Attribution) : Prop where
  length_consumed : s.consumed.length = constraints.length
  /-- What is neither consumed nor charged waits for an entity not walked over yet. -/
  pending : Pending constraints s.virtuallyPlaced s.consumed

variable (constraints clusterOf s) in
theorem walk_of_not_loose (h : ¬ e.loose placed) :
    (walk constraints placed clusterOf s e).consumed = s.consumed ∧
      (walk constraints placed clusterOf s e).virtuallyPlaced = s.virtuallyPlaced ∧
      ∃ cluster, (walk constraints placed clusterOf s e).facts =
        s.facts ++ [⟨e.entity, true, 0, cluster, 0⟩] := by
  rw [walk]
  split
  · exact ⟨rfl, rfl, none, rfl⟩
  · next hfree =>
    have hplaced : placed.contains e.entity = true := by
      simpa [PlanEntity.loose, hfree] using h
    rw [if_pos hplaced]
    exact ⟨rfl, rfl, clusterOf[e.entity]?, rfl⟩

theorem walk_of_loose (h : e.loose placed) : walk constraints placed clusterOf s e =
    { consumed := Discovery.consume (positions constraints (s.charges e.entity)) s.consumed
      virtuallyPlaced := s.virtuallyPlaced.insert e.entity
      facts := s.facts ++ [⟨e.entity, false,
        e.freeDofs - min (s.charged constraints e.entity) e.freeDofs, none,
        s.charged constraints e.entity - min (s.charged constraints e.entity) e.freeDofs⟩] } := by
  rw [PlanEntity.loose, Bool.and_eq_true, decide_eq_true_eq, Bool.not_eq_true'] at h
  rw [walk, if_neg h.1, if_neg (by rw [h.2]; exact Bool.false_ne_true)]

theorem mem_charges {i : ℕ} : i ∈ positions constraints (s.charges e.entity) ↔
    ∃ c, constraints[i]? = some c ∧ c.hard ∧ ¬ s.consumed.getD i false ∧ e.entity ∈ c.vars ∧
      ∀ v ∈ c.vars, v = e.entity ∨ v ∈ s.virtuallyPlaced := by
  rw [mem_positions]
  refine exists_congr fun c ↦ and_congr_right fun _ ↦ ?_
  simp only [charges, Bool.and_eq_true, Bool.not_eq_true', Bool.not_eq_true,
    List.isEmpty_eq_false_iff,
    List.contains_iff_mem, List.all_eq_true, Std.ExtTreeSet.contains_iff_mem,
    Std.ExtTreeSet.mem_insert, Std.LawfulEqOrd.compare_eq_iff_eq]
  constructor
  · rintro ⟨⟨⟨⟨hfresh, hhard⟩, -⟩, hmem⟩, hvars⟩
    exact ⟨hhard, hfresh, hmem, fun v hv ↦ (hvars v hv).imp_left Eq.symm⟩
  · rintro ⟨hhard, hfresh, hmem, hvars⟩
    exact ⟨⟨⟨⟨hfresh, hhard⟩, List.ne_nil_of_mem hmem⟩, hmem⟩,
      fun v hv ↦ (hvars v hv).imp_left Eq.symm⟩

variable (placed clusterOf) in
/-- **A step of the walk** balances: it adds what the entity owns and what it takes from the
constraints. -/
theorem Inv.walk (h : Inv constraints s) (e : PlanEntity) :
    Inv constraints (walk constraints placed clusterOf s e) ∧
      net (Attribution.walk constraints placed clusterOf s e).facts -
          remaining constraints (Attribution.walk constraints placed clusterOf s e).consumed =
        net s.facts - remaining constraints s.consumed +
          (if e.loose placed then e.freeDofs else 0 : ℕ) := by
  by_cases hloose : e.loose placed = true
  · have hremaining := remaining_consume h.length_consumed
      (nodup_positions (p := s.charges e.entity)) fun i hi ↦ by
        obtain ⟨c, hc, hhard, hfresh, -⟩ := mem_charges.mp hi
        exact ⟨c, hc, hhard, hfresh⟩
    rw [walk_of_loose hloose, if_pos hloose, net_append]
    refine ⟨⟨(Discovery.length_consume _ _).trans h.length_consumed, ?_⟩, ?_⟩
    · refine h.pending.place h.length_consumed fun i c hc hhard hfresh hnew hall ↦ ?_
      obtain ⟨v, hv, hvnot⟩ := hnew
      have hmem : ∀ v ∈ c.vars, v = e.entity ∨ v ∈ s.virtuallyPlaced := by
        intro v hv
        have := hall v hv
        rw [Std.ExtTreeSet.mem_insert, Std.LawfulEqOrd.compare_eq_iff_eq] at this
        exact this.imp_left Eq.symm
      obtain hve : v = e.entity := (hmem v hv).resolve_right hvnot
      exact mem_charges.mpr ⟨c, hc, hhard, hfresh, hve ▸ hv, hmem⟩
    · have hcharged : dofsRemoved constraints (positions constraints (s.charges e.entity)) =
          s.charged constraints e.entity := dofsRemoved_positions
      rw [hcharged] at hremaining
      dsimp only
      omega
  · obtain ⟨hconsumed, hplaced, cluster, hfacts⟩ := walk_of_not_loose constraints clusterOf s hloose
    rw [hconsumed, hfacts, if_neg hloose, net_append]
    refine ⟨⟨hconsumed ▸ h.length_consumed, ?_⟩, by dsimp only; omega⟩
    rw [hconsumed, hplaced]
    exact h.pending

variable (placed clusterOf) in
theorem Inv.foldl_walk (h : Inv constraints s) (es : List PlanEntity) :
    Inv constraints (es.foldl (Attribution.walk constraints placed clusterOf) s) ∧
      net (es.foldl (Attribution.walk constraints placed clusterOf) s).facts -
          remaining constraints
            (es.foldl (Attribution.walk constraints placed clusterOf) s).consumed =
        net s.facts - remaining constraints s.consumed +
          ((es.filter (PlanEntity.loose placed)).map PlanEntity.freeDofs).sum := by
  induction es generalizing s with
  | nil => exact ⟨h, by simp⟩
  | cons e es ih =>
    obtain ⟨hinv, hstep⟩ := h.walk placed clusterOf e
    obtain ⟨hlast, hrest⟩ := ih hinv
    refine ⟨hlast, ?_⟩
    rw [List.foldl_cons, hrest, hstep]
    by_cases hloose : e.loose placed = true
    · rw [if_pos hloose, List.filter_cons_of_pos hloose, List.map_cons, List.sum_cons]
      omega
    · rw [if_neg hloose, List.filter_cons_of_neg hloose]
      omega

theorem mem_virtuallyPlaced_foldl (es : List PlanEntity) {v : EntityRef} :
    v ∈ (es.foldl (walk constraints placed clusterOf) s).virtuallyPlaced ↔
      v ∈ s.virtuallyPlaced ∨ ∃ e ∈ es, e.loose placed ∧ e.entity = v := by
  induction es generalizing s with
  | nil => simp
  | cons e es ih =>
    have hstep : v ∈ (walk constraints placed clusterOf s e).virtuallyPlaced ↔
        v ∈ s.virtuallyPlaced ∨ (e.loose placed ∧ e.entity = v) := by
      by_cases hloose : e.loose placed = true
      · rw [walk_of_loose hloose, Std.ExtTreeSet.mem_insert, Std.LawfulEqOrd.compare_eq_iff_eq,
          or_comm, and_iff_right hloose]
      · rw [(walk_of_not_loose constraints clusterOf s hloose).2.1]
        simp [hloose]
    rw [List.foldl_cons, ih, hstep]
    simp only [List.mem_cons, exists_eq_or_imp, or_assoc]

theorem map_placed_foldl (es : List PlanEntity) :
    (es.foldl (walk constraints placed clusterOf) s).facts.map EntityConstrainmentFact.placed =
      s.facts.map EntityConstrainmentFact.placed ++ es.map fun e ↦ !e.loose placed := by
  induction es generalizing s with
  | nil => exact (List.append_nil _).symm
  | cons e es ih =>
    have hstep : (walk constraints placed clusterOf s e).facts.map EntityConstrainmentFact.placed =
        s.facts.map EntityConstrainmentFact.placed ++ [!e.loose placed] := by
      by_cases hloose : e.loose placed = true
      · rw [walk_of_loose hloose, List.map_append, hloose]
        rfl
      · obtain ⟨-, -, cluster, hfacts⟩ := walk_of_not_loose constraints clusterOf s hloose
        rw [hfacts, List.map_append, Bool.eq_false_of_not_eq_true hloose]
        rfl
    rw [List.foldl_cons, ih, hstep, List.append_assoc]
    rfl

end Attribution

/-! ## The facts in balance -/

/-- The facts balance with the component, and the verdict on the component with the facts. -/
structure ConstrainmentAnalysis.Balances (entities : List PlanEntity)
    (constraints : List PlanConstraint) (a : ConstrainmentAnalysis) : Prop where
  residual : ((a.facts.map EntityConstrainmentFact.freeDofs).sum : ℤ) -
      (a.facts.map EntityConstrainmentFact.overconsumedDofs).sum =
    (entities.map PlanEntity.freeDofs).sum - hardDofs constraints
  complete_iff : a.complete ↔ (∀ fact ∈ a.facts, fact.placed) ∧
    ∀ i c, constraints[i]? = some c → c.hard →
      (Discovery.final entities constraints).isConsumed i

section

variable {entities : List PlanEntity} {constraints : List PlanConstraint} {d : Discovery}

theorem getElem?_free_init (hnodup : (entities.map PlanEntity.entity).Nodup) {e : PlanEntity}
    (he : e ∈ entities) (hfree : e.freeDofs ≠ 0) :
    (Discovery.init entities constraints).free[e.entity]? = some e.freeDofs := by
  rw [Discovery.init, OrderedMap.getElem?_insertEntries_iff]
  · refine Or.inl (List.mem_map.mpr ⟨e, List.mem_filter.mpr ⟨he, ?_⟩, rfl⟩)
    exact decide_eq_true (Nat.pos_of_ne_zero hfree)
  · intro v m n hm hn
    obtain ⟨a, ha, heq⟩ := List.mem_map.mp hm
    obtain ⟨b, hb, heq'⟩ := List.mem_map.mp hn
    rw [Prod.mk.injEq] at heq heq'
    have hab : a = b := List.inj_on_of_nodup_map hnodup (List.mem_filter.mp ha).1
      (List.mem_filter.mp hb).1 (heq.1.trans heq'.1.symm)
    rw [← heq.2, ← heq'.2, hab]

private theorem sum_map_eq_add {l : List PlanEntity} {p q : PlanEntity → Bool}
    {f g : PlanEntity → ℕ}
    (h : ∀ e ∈ l, f e = (if p e then f e else 0) + (if q e then g e else 0)) :
    (l.map f).sum = ((l.filter p).map f).sum + ((l.filter q).map g).sum := by
  induction l with
  | nil => rfl
  | cons e l ih =>
    have hrest := ih fun e he ↦ h e (List.mem_cons_of_mem _ he)
    have hfirst := h e List.mem_cons_self
    rw [List.map_cons, List.sum_cons, hrest]
    by_cases hp : p e = true <;> by_cases hq : q e = true <;> simp [hp, hq] at hfirst ⊢ <;> omega

theorem Discovery.Inv.sum_freeDofs (h : d.Inv entities constraints)
    (hnodup : (entities.map PlanEntity.entity).Nodup) :
    (entities.map PlanEntity.freeDofs).sum =
      ((entities.filter (PlanEntity.loose d.placed)).map PlanEntity.freeDofs).sum +
        ((d.steps.flatMap PlanStep.placedEntities).map
          (Discovery.init entities constraints).freeOf).sum := by
  have hplaced : ((entities.filter fun e ↦ d.placed.contains e.entity).map PlanEntity.entity).Perm
      (d.steps.flatMap PlanStep.placedEntities) := by
    refine (List.perm_ext_iff_of_nodup
      (hnodup.sublist (List.filter_sublist.map _)) h.nodup_placed).mpr fun v ↦ ?_
    rw [← h.placed_iff, List.mem_map]
    constructor
    · rintro ⟨e, he, rfl⟩
      exact Std.ExtTreeSet.contains_iff_mem.mp (List.mem_filter.mp he).2
    · intro hv
      obtain ⟨n, hn⟩ := OrderedMap.mem_iff_exists.mp (h.placed_free v hv)
      obtain ⟨e, he, rfl, -⟩ := h.exists_of_free hn
      exact ⟨e, List.mem_filter.mpr ⟨he, Std.ExtTreeSet.contains_iff_mem.mpr hv⟩, rfl⟩
  have hfreeOf : ∀ e ∈ entities, d.placed.contains e.entity = true →
      (Discovery.init entities constraints).freeOf e.entity = e.freeDofs := by
    intro e he hcontains
    have hfree := h.placed_free _ (Std.ExtTreeSet.contains_iff_mem.mp hcontains)
    obtain ⟨n, hn⟩ := OrderedMap.mem_iff_exists.mp hfree
    obtain ⟨e', he', heq, rfl, -⟩ := h.exists_of_free hn
    rw [← h.freeOf_eq, Discovery.freeOf_eq hn,
      List.inj_on_of_nodup_map hnodup he' he heq]
  rw [← (hplaced.map _).sum_nat, List.map_map]
  refine sum_map_eq_add fun e he ↦ ?_
  by_cases hcontains : d.placed.contains e.entity = true
  · rw [if_neg (by simp [PlanEntity.loose, hcontains]), if_pos hcontains, Nat.zero_add]
    exact (hfreeOf e he hcontains).symm
  · rw [if_neg hcontains, Nat.add_zero]
    by_cases hfree : e.freeDofs = 0
    · rw [if_neg (by simp [PlanEntity.loose, hfree]), hfree]
    · rw [if_pos (by simp [PlanEntity.loose, hfree, hcontains])]

theorem Discovery.Inv.hardDofs_eq (h : d.Inv entities constraints) : hardDofs constraints =
    dofsRemoved constraints (d.steps.flatMap PlanStep.hardConstraints) +
      remaining constraints d.consumed := by
  rw [RosheraCad.Sketch.hardDofs_eq, remaining, ← dofsRemoved_append]
  refine dofsRemoved_perm ((List.perm_ext_iff_of_nodup nodup_positions ?_).mpr fun i ↦ ?_)
  · refine h.nodup_hard.append nodup_positions fun i hi hleft ↦ ?_
    obtain ⟨c, -, -, hnot⟩ := mem_remaining.mp hleft
    exact hnot ((h.consumed_iff i).mpr hi)
  · rw [List.mem_append, mem_remaining, mem_positions]
    constructor
    · rintro ⟨c, hc, hhard⟩
      by_cases hi : d.isConsumed i = true
      · exact Or.inl ((h.consumed_iff i).mp hi)
      · exact Or.inr ⟨c, hc, hhard, hi⟩
    · rintro (hi | ⟨c, hc, hhard, -⟩)
      · obtain ⟨step, hstep, hmem⟩ := List.mem_flatMap.mp hi
        obtain ⟨before, after, heq⟩ := List.append_of_mem hstep
        exact PlanStep.hard_of_sound (h.steps_sound before step after heq) hmem
      · exact ⟨c, hc, hhard⟩

theorem Discovery.Inv.size_eq_iff (h : d.Inv entities constraints)
    (hnodup : (entities.map PlanEntity.entity).Nodup) :
    d.placed.size = d.free.size ↔ ∀ e ∈ entities, ¬ e.loose d.placed := by
  constructor
  · intro hsize e he hloose
    rw [PlanEntity.loose, Bool.and_eq_true, decide_eq_true_eq] at hloose
    refine Inv.not_mem_of_not_contains hloose.2 (mem_placed_of_size_eq h hsize ?_)
    rw [h.free_eq]
    exact OrderedMap.mem_of_getElem? (getElem?_free_init hnodup he hloose.1)
  · intro hall
    have hperm : d.placed.toList.Perm d.free.keys := by
      refine (List.perm_ext_iff_of_nodup (OrderedSet.nodup_toList _)
        Std.ExtTreeMap.nodup_keys).mpr fun v ↦ ?_
      rw [Std.ExtTreeSet.mem_toList, Std.ExtTreeMap.mem_keys]
      refine ⟨h.placed_free v, fun hv ↦ ?_⟩
      obtain ⟨n, hn⟩ := OrderedMap.mem_iff_exists.mp hv
      obtain ⟨e, he, rfl, rfl, hne⟩ := h.exists_of_free hn
      by_contra hnot
      refine hall e he ?_
      rw [← Std.ExtTreeSet.contains_iff_mem, Bool.not_eq_true] at hnot
      rw [PlanEntity.loose, hnot]
      simpa using hne
    rw [← Std.ExtTreeSet.length_toList, hperm.length_eq, Std.ExtTreeMap.length_keys]

theorem perm_sortEntities (entities : List PlanEntity) : (sortEntities entities).Perm entities :=
  List.perm_insertionSort _ _

theorem analyzeConstrainment_complete_iff (hnodup : (entities.map PlanEntity.entity).Nodup) :
    (analyzeConstrainment entities constraints).complete ↔
      (∀ fact ∈ (analyzeConstrainment entities constraints).facts, fact.placed) ∧
        ∀ i c, constraints[i]? = some c → c.hard →
          (Discovery.final entities constraints).isConsumed i := by
  have h : (Discovery.final entities constraints).Inv entities constraints :=
    Discovery.Inv.start.run _
  have hcomplete : (analyzeConstrainment entities constraints).complete ↔
      (Discovery.final entities constraints).placed.size =
          (Discovery.final entities constraints).free.size ∧
        ∀ i c, constraints[i]? = some c → c.hard →
          (Discovery.final entities constraints).isConsumed i := by
    rw [analyzeConstrainment, Bool.and_eq_true, decide_eq_true_eq, List.all_eq_true]
    refine and_congr_right fun _ ↦ ⟨fun hall i c hc hhard ↦ ?_, fun hall ⟨c, i⟩ hmem ↦ ?_⟩
    · simpa [hhard] using hall (c, i) (List.mk_mem_zipIdx_iff_getElem?.mpr hc)
    · by_cases hhard : c.hard = true
      · simpa [hhard] using hall i c (List.mk_mem_zipIdx_iff_getElem?.mp hmem) hhard
      · simp [hhard]
  have hfacts : (analyzeConstrainment entities constraints).facts.map
      EntityConstrainmentFact.placed = (sortEntities entities).map fun e ↦
        !e.loose (Discovery.final entities constraints).placed := by
    rw [analyzeConstrainment]
    exact Attribution.map_placed_foldl _
  have hplaced : (∀ fact ∈ (analyzeConstrainment entities constraints).facts, fact.placed) ↔
      ∀ e ∈ entities, ¬ e.loose (Discovery.final entities constraints).placed := by
    have hmap := List.forall_mem_map (f := EntityConstrainmentFact.placed)
      (l := (analyzeConstrainment entities constraints).facts) (P := fun b ↦ b = true)
    rw [hfacts, List.forall_mem_map] at hmap
    rw [← hmap]
    refine forall_congr' fun e ↦ ?_
    rw [(perm_sortEntities entities).mem_iff, Bool.not_eq_true', Bool.not_eq_true]
  rw [hcomplete, hplaced, h.size_eq_iff hnodup]

end

end RosheraCad.Sketch
