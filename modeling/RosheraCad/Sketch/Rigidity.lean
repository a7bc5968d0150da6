import RosheraCad.Library.FreedomGraph
import RosheraCad.Sketch.PlanSound
import Mathlib.Algebra.Ring.Int.Defs

/-!
# Rigidity by count

The entities of a component and the constraints that may define a cluster's shape are a freedom
graph. A seed and an extension count every constraint they take in. A merge counts nothing: it takes
two clusters that share two entities, or three that pairwise share one, to be rigid together. The
surplus of a step says by how many DOFs its constraints are too many.
-/

namespace RosheraCad.Sketch

def Cluster.members (c : Cluster) : Finset EntityRef := c.toList.toFinset

namespace Cluster

@[simp] theorem mem_members {c : Cluster} {e : EntityRef} : e ∈ c.members ↔ e ∈ c := by
  rw [members, List.mem_toFinset, Std.ExtTreeSet.mem_toList]

theorem members_insert (c : Cluster) (e : EntityRef) :
    members (c.insert e) = insert e c.members := by
  ext v
  rw [mem_members, Finset.mem_insert, mem_members, Std.ExtTreeSet.mem_insert,
    Std.LawfulEqOrd.compare_eq_iff_eq, eq_comm]

theorem members_union (a b : Cluster) : (a.union b).members = a.members ∪ b.members := by
  ext v
  rw [mem_members, Discovery.mem_union, Finset.mem_union, mem_members, mem_members]

theorem members_pair (a b : EntityRef) : members (.ofList [a, b]) = {a, b} := by
  ext v
  rw [mem_members, OrderedSet.mem_ofList, List.mem_cons, List.mem_singleton, Finset.mem_insert,
    Finset.mem_singleton]

theorem shared_eq_card (a b : Cluster) : shared a b = (a.members ∩ b.members).card := by
  have hfilter : a.members ∩ b.members = (a.toList.filter b.contains).toFinset := by
    ext v
    rw [Finset.mem_inter, mem_members, mem_members, List.mem_toFinset, List.mem_filter,
      Std.ExtTreeSet.mem_toList, Std.ExtTreeSet.contains_iff_mem]
  rw [hfilter, shared, List.toFinset_card_of_nodup ((OrderedSet.nodup_toList a).filter _)]

theorem all_contains_iff {c : Cluster} {vars : List EntityRef} :
    vars.all c.contains ↔ vars.toFinset ⊆ c.members := by
  rw [List.all_eq_true]
  constructor
  · intro h v hv
    exact mem_members.mpr (Std.ExtTreeSet.contains_iff_mem.mp (h v (List.mem_toFinset.mp hv)))
  · intro h v hv
    exact Std.ExtTreeSet.contains_iff_mem.mpr (mem_members.mp (h (List.mem_toFinset.mpr hv)))

end Cluster

namespace Discovery

variable {d : Discovery}

def graph (d : Discovery) : FreedomGraph EntityRef where
  freedom := d.freeOf
  edges := d.internalCandidates.map fun c ↦ (c.vars.toFinset, c.dofRemoved)

theorem weight_graph (p : Finset EntityRef → Bool) : d.graph.weight p =
    ((d.internalCandidates.filter fun c ↦
        p c.vars.toFinset).map PlanConstraint.dofRemoved).sum := by
  rw [FreedomGraph.weight, graph, List.filter_map, List.map_map]
  rfl

theorem dofsBetween_none (c : Cluster) : d.dofsBetween c none = d.graph.removed c.members := by
  rw [dofsBetween, FreedomGraph.removed, weight_graph]
  congr 2
  refine List.filter_congr fun con _ ↦ ?_
  rw [Option.all_none, Bool.and_true, Bool.eq_iff_iff, decide_eq_true_eq]
  exact Cluster.all_contains_iff

theorem dofsBetween_some (c : Cluster) (e : EntityRef) :
    d.dofsBetween (c.insert e) (some e) = d.graph.attaching e c.members := by
  rw [dofsBetween, FreedomGraph.attaching, weight_graph]
  congr 2
  refine List.filter_congr fun con _ ↦ ?_
  rw [Option.all_some, Bool.eq_iff_iff, Bool.and_eq_true, decide_eq_true_eq, and_comm,
    List.contains_iff_mem, List.mem_toFinset, ← Cluster.members_insert]
  exact and_congr_right fun _ ↦ Cluster.all_contains_iff

theorem owned_members (c : Cluster) : d.graph.owned c.members = (c.toList.map d.freeOf).sum := by
  rw [FreedomGraph.owned, Cluster.members, List.sum_toFinset _ (OrderedSet.nodup_toList c)]
  rfl

/-! ## Clusters are built by the rules of freedom graphs -/

/-- All clusters are built by the rules, starting from the three DOFs of a rigid body. -/
def AllFormed (d : Discovery) (clusters : List Cluster) : Prop :=
  ∀ c ∈ clusters, ∃ δ, d.graph.Formed 3 c.members δ

theorem nodup_pool (d : Discovery) : d.pool.Nodup :=
  (OrderedSet.nodup_toList d.clusterCapable).filter _

theorem allFormed_pairSeeds (d : Discovery) : d.AllFormed d.pairSeeds := by
  intro c hc
  obtain ⟨a, b, hab, rfl, hcount⟩ := exists_of_mem_pairSeeds hc
  rw [dofsBetween_none, Cluster.members_pair] at hcount
  rw [Cluster.members_pair]
  exact ⟨0, .seed (ne_of_mem_pairs d.nodup_pool hab) hcount⟩

theorem allFormed_growOnce {clusters grown : List Cluster} (h : d.AllFormed clusters)
    (hgrown : d.growOnce clusters = some grown) : d.AllFormed grown := by
  obtain ⟨before, c, later, rest, c', rfl, rfl, hchange⟩ := growOnce_eq_some hgrown
  have hbefore : d.AllFormed before := fun b hb ↦ h b (List.mem_append_left _ hb)
  obtain ⟨δ, hc⟩ := h c (List.mem_append_right _ List.mem_cons_self)
  have hlater : d.AllFormed later :=
    fun b hb ↦ h b (List.mem_append_right _ (List.mem_cons_of_mem _ hb))
  have hboth : (∃ δ, d.graph.Formed 3 c'.members δ) ∧ d.AllFormed rest := by
    rcases hchange with ⟨e, -, hnot, hcount, rfl, rfl⟩ | ⟨other, htwo, rfl, hperm⟩ |
      ⟨cj, ck, ⟨hij, hjk, hik⟩, rfl, hperm⟩
    · rw [dofsBetween_some] at hcount
      rw [Cluster.members_insert]
      exact ⟨⟨δ, hc.extend (fun he ↦ hnot (Cluster.mem_members.mp he)) hcount⟩, hlater⟩
    · have hall : d.AllFormed (other :: rest) := fun b hb ↦ hlater b (hperm.mem_iff.mp hb)
      obtain ⟨ε, hother⟩ := hall other List.mem_cons_self
      rw [Cluster.shared_eq_card] at htwo
      rw [Cluster.members_union]
      exact ⟨⟨_, hc.mergeTwo hother htwo⟩, fun b hb ↦ hall b (List.mem_cons_of_mem _ hb)⟩
    · have hall : d.AllFormed (cj :: ck :: rest) := fun b hb ↦ hlater b (hperm.mem_iff.mp hb)
      obtain ⟨ε, hj⟩ := hall cj List.mem_cons_self
      obtain ⟨ζ, hk⟩ := hall ck (List.mem_cons_of_mem _ List.mem_cons_self)
      rw [Cluster.shared_eq_card] at hij hjk hik
      rw [Cluster.members_union, Cluster.members_union]
      exact ⟨⟨_, hc.mergeThree hj hk hij hjk hik⟩,
        fun b hb ↦ hall b (List.mem_cons_of_mem _ (List.mem_cons_of_mem _ hb))⟩
  intro b hb
  rcases List.mem_append.mp hb with hb | hb
  · exact hbefore b hb
  · rcases List.mem_cons.mp hb with rfl | hb
    · exact hboth.1
    · exact hboth.2 b hb

theorem allFormed_grow {clusters : List Cluster} (h : d.AllFormed clusters) (bound : ℕ) :
    d.AllFormed (d.grow bound clusters) := by
  induction bound generalizing clusters with
  | zero => exact h
  | succ bound ih =>
    have hsorted : d.AllFormed (sortClusters clusters) :=
      fun c hc ↦ h c ((List.mem_insertionSort _).mp hc)
    rw [grow]
    rcases hgrown : d.growOnce (sortClusters clusters) with - | grown
    · exact hsorted
    · exact ih (allFormed_growOnce hsorted hgrown)

theorem allFormed_discoverRigidClusters (d : Discovery) : d.AllFormed d.discoverRigidClusters := by
  rw [discoverRigidClusters]
  split
  · intro c hc
    cases hc
  · exact allFormed_grow d.allFormed_pairSeeds _

end Discovery

/-! ## The surplus of a step -/

def PlanStep.surplus (freeOf : EntityRef → ℕ) (constraints : List PlanConstraint)
    (step : PlanStep) : ℤ :=
  dofsRemoved constraints step.hardConstraints - (step.placedEntities.map freeOf).sum

def PlanStep.clusterSurplus (freeOf : EntityRef → ℕ) (constraints : List PlanConstraint) :
    PlanStep → Option ℤ
  | extend _ _ _ => none
  | placeCluster entities internal boundary soft =>
    some ((placeCluster entities internal boundary soft).surplus freeOf constraints)

theorem dofsRemoved_append (constraints : List PlanConstraint) (a b : List ℕ) :
    dofsRemoved constraints (a ++ b) = dofsRemoved constraints a + dofsRemoved constraints b := by
  rw [dofsRemoved, List.map_append, List.sum_append, ← dofsRemoved, ← dofsRemoved]

theorem dofsRemoved_perm {constraints : List PlanConstraint} {a b : List ℕ} (h : a.Perm b) :
    dofsRemoved constraints a = dofsRemoved constraints b :=
  (h.map _).sum_nat

variable {overlaps : List ℤ}

namespace Discovery

variable {entities : List PlanEntity} {constraints : List PlanConstraint} {d next : Discovery}
  {cluster : Cluster}

structure Places (d : Discovery) (cluster : Cluster) (next : Discovery) : Prop where
  stalled : d.tryExtend = none
  first : ∃ before after, d.discoverRigidClusters = before ++ cluster :: after ∧
    ∀ c ∈ before, d.placeCluster c = none
  placed : d.placeCluster cluster = some next

inductive Rounds (start : Discovery) : Discovery → List ℤ → Prop
  | start : Rounds start start []
  | extended {d next : Discovery} {overlaps : List ℤ} (h : Rounds start d overlaps)
    (hnext : d.tryExtend = some next) : Rounds start next overlaps
  | placed {d next : Discovery} {overlaps : List ℤ} {cluster : Cluster} {δ : ℤ}
    (h : Rounds start d overlaps) (hcluster : d.Places cluster next)
    (hformed : d.graph.Formed 3 cluster.members δ) : Rounds start next (overlaps ++ [δ])

theorem advance_eq_some (h : d.advance = some next) :
    d.tryExtend = some next ∨ ∃ cluster, d.Places cluster next := by
  rw [advance] at h
  rcases hext : d.tryExtend with - | extended
  · rw [hext] at h
    have hplace : d.discoverRigidClusters.findSome? d.placeCluster = some next := h
    obtain ⟨before, cluster, after, heq, hplaced, hnone⟩ := List.findSome?_eq_some_iff.mp hplace
    exact Or.inr ⟨cluster, hext, ⟨before, after, heq, hnone⟩, hplaced⟩
  · rw [hext] at h
    exact Or.inl h

theorem Places.mem (h : d.Places cluster next) : cluster ∈ d.discoverRigidClusters := by
  obtain ⟨before, after, heq, -⟩ := h.first
  rw [heq]
  exact List.mem_append_right _ List.mem_cons_self

theorem exists_rounds_run {start : Discovery} (h : start.Rounds d overlaps)
    (bound : ℕ) : ∃ overlaps, start.Rounds (d.run bound) overlaps := by
  induction bound generalizing d overlaps with
  | zero => exact ⟨overlaps, h⟩
  | succ bound ih =>
    rw [run]
    rcases hnext : d.advance with - | next
    · exact ⟨overlaps, h⟩
    · rcases advance_eq_some hnext with hext | ⟨cluster, hplaces⟩
      · exact ih (h.extended hext)
      · obtain ⟨δ, hformed⟩ := d.allFormed_discoverRigidClusters cluster hplaces.mem
        exact ih (h.placed hplaces hformed)

/-! ## What a round adds -/

theorem freeOf_eq {e : EntityRef} {n : ℕ} (h : d.free[e]? = some n) : d.freeOf e = n := by
  rw [freeOf, h, Option.getD_some]

theorem Inv.freeOf_eq (h : Inv entities constraints d) (e : EntityRef) :
    d.freeOf e = (init entities constraints).freeOf e := by
  rw [freeOf, freeOf, h.free_eq]

theorem Inv.surplus_extended (h : Inv entities constraints d) (hnext : d.tryExtend = some next) :
    ∃ entity indices, next.steps = d.steps ++ [.extend entity indices []] ∧
      (PlanStep.extend entity indices []).surplus (init entities constraints).freeOf constraints
        = 0 := by
  obtain ⟨⟨entity, dofs⟩, hcand, hsome⟩ := List.exists_of_findSome?_eq_some hnext
  obtain ⟨hfree, -⟩ := List.mem_filter.mp hcand
  obtain ⟨indices, hindices, rfl⟩ := Option.map_eq_some_iff.mp hsome
  obtain ⟨-, hdofs⟩ := Inv.matchingHard_eq_some hindices
  refine ⟨entity, indices, rfl, ?_⟩
  have howned : (init entities constraints).freeOf entity = dofs := by
    rw [← h.freeOf_eq, Discovery.freeOf_eq (OrderedMap.mem_toList.mp hfree)]
  rw [h.constraints_eq] at hdofs
  rw [PlanStep.surplus, PlanStep.hardConstraints, PlanStep.placedEntities, List.map_singleton,
    List.sum_singleton, howned, hdofs]
  omega

theorem dofsRemoved_internal (hcluster : ∀ e ∈ cluster, e ∈ d.pool) :
    dofsRemoved d.constraints
        (((d.touching cluster).filter fun ci ↦ isInternal cluster ci.1).map Prod.snd) =
      d.dofsBetween cluster none := by
  rw [touching, List.filter_filter]
  refine dofsRemoved_positions.trans ?_
  rw [dofsBetween, internalCandidates, List.filter_map, List.map_map, List.filter_filter]
  congr 2
  refine List.filter_congr fun ci _ ↦ ?_
  simp only [isInternal, Function.comp_apply, Option.all_none, Bool.and_true]
  rcases hvars : ci.1.vars with - | ⟨v, vars⟩
  · simp
  · by_cases hall : (v :: vars).all cluster.contains = true
    · have hpool : (v :: vars).all d.pool.contains = true := by
        rw [List.all_eq_true] at hall ⊢
        exact fun u hu ↦ List.contains_iff_mem.mpr
          (hcluster u (Std.ExtTreeSet.contains_iff_mem.mp (hall u hu)))
      have hany : (v :: vars).any cluster.contains = true :=
        List.any_eq_true.mpr ⟨v, List.mem_cons_self, List.all_eq_true.mp hall v List.mem_cons_self⟩
      rw [hall, hpool, hany]
      simp [Bool.and_comm, Bool.and_left_comm]
    · rw [Bool.not_eq_true] at hall
      simp [hall]

theorem Inv.surplus_placed (h : Inv entities constraints d) (hplaces : d.Places cluster next) :
    ∃ internal boundary,
      next.steps = d.steps ++ [.placeCluster cluster.toList internal boundary []] ∧
      (PlanStep.placeCluster cluster.toList internal boundary []).surplus
        (init entities constraints).freeOf constraints = d.graph.excess 3 cluster.members := by
  have hpool := d.within_discoverRigidClusters cluster hplaces.mem
  have hplaced := hplaces.placed
  rw [Discovery.placeCluster] at hplaced
  split at hplaced
  · cases hplaced
  dsimp only at hplaced
  split at hplaced
  · cases hplaced
  next hsum =>
  cases hplaced
  refine ⟨_, _, rfl, ?_⟩
  have hboundary : dofsRemoved constraints
      (((d.touching cluster).filter fun ci ↦ d.isBoundary cluster ci.1).map Prod.snd) = 3 := by
    rw [← h.constraints_eq]
    refine Eq.trans ?_ (not_not.mp hsum)
    rw [touching, List.filter_filter]
    exact dofsRemoved_positions
  have howned : (cluster.toList.map (init entities constraints).freeOf).sum =
      d.graph.owned cluster.members := by
    rw [owned_members, funext h.freeOf_eq]
  rw [PlanStep.surplus, PlanStep.hardConstraints, PlanStep.placedEntities, dofsRemoved_append,
    hboundary, howned, ← h.constraints_eq, dofsRemoved_internal hpool, dofsBetween_none,
    FreedomGraph.excess]
  omega

theorem Rounds.surplus_eq (h : (init entities constraints).Rounds d overlaps) :
    Inv entities constraints d ∧
      d.steps.filterMap
        (PlanStep.clusterSurplus (init entities constraints).freeOf constraints) = overlaps ∧
      (d.steps.map
        (PlanStep.surplus (init entities constraints).freeOf constraints)).sum = overlaps.sum := by
  induction h with
  | start => exact ⟨.start, rfl, rfl⟩
  | extended _ hnext ih =>
    obtain ⟨hinv, hlist, hsum⟩ := ih
    obtain ⟨entity, indices, hsteps, hsurplus⟩ := hinv.surplus_extended hnext
    refine ⟨hinv.tryExtend hnext, ?_, ?_⟩
    · rw [hsteps, List.filterMap_append, hlist]
      exact List.append_nil _
    · rw [hsteps, List.map_append, List.sum_append, hsum, List.map_singleton, List.sum_singleton,
        hsurplus, add_zero]
  | placed _ hplaces hformed ih =>
    obtain ⟨hinv, hlist, hsum⟩ := ih
    obtain ⟨internal, boundary, hsteps, hsurplus⟩ := hinv.surplus_placed hplaces
    rw [hformed.excess_eq] at hsurplus
    refine ⟨hinv.placeCluster (within_discoverRigidClusters _ _ hplaces.mem) hplaces.placed, ?_, ?_⟩
    · have hcluster : (PlanStep.placeCluster _ internal boundary []).clusterSurplus
          (init entities constraints).freeOf constraints = some _ := congrArg some hsurplus
      rw [hsteps, List.filterMap_append, hlist, List.filterMap_cons_some hcluster,
        List.filterMap_nil]
    · rw [hsteps, List.map_append, List.sum_append, hsum, List.map_singleton, List.sum_singleton,
        hsurplus, List.sum_append, List.sum_singleton]

/-- The state in which the discovery loop ends. -/
abbrev final (entities : List PlanEntity) (constraints : List PlanConstraint) : Discovery :=
  (init entities constraints).run (init entities constraints).free.size

/-! ## Totals -/

def ownedDofs (d : Discovery) : ℕ := (d.free.toList.map Prod.snd).sum

theorem ownedDofs_eq (d : Discovery) : d.ownedDofs = (d.free.keys.map d.freeOf).sum := by
  rw [ownedDofs, ← Std.ExtTreeMap.map_fst_toList_eq_keys, List.map_map]
  congr 1
  refine List.map_congr_left fun ⟨e, n⟩ h ↦ ?_
  exact (freeOf_eq (OrderedMap.mem_toList.mp h)).symm

end Discovery

def hardDofs (constraints : List PlanConstraint) : ℕ :=
  ((constraints.filter PlanConstraint.hard).map PlanConstraint.dofRemoved).sum

theorem hardDofs_eq (constraints : List PlanConstraint) : hardDofs constraints =
    dofsRemoved constraints (positions constraints fun ci ↦ ci.1.hard) := by
  have hfst : constraints.filter PlanConstraint.hard =
      (constraints.zipIdx.filter fun ci ↦ ci.1.hard).map Prod.fst := by
    conv_lhs => rw [← List.zipIdx_map_fst 0 constraints, List.filter_map]
    rfl
  rw [hardDofs, hfst, List.map_map, dofsRemoved_positions]
  rfl

theorem sum_surplus (freeOf : EntityRef → ℕ) (constraints : List PlanConstraint)
    (steps : List PlanStep) : (steps.map (PlanStep.surplus freeOf constraints)).sum =
      dofsRemoved constraints (steps.flatMap PlanStep.hardConstraints) -
        ((steps.flatMap PlanStep.placedEntities).map freeOf).sum := by
  induction steps with
  | nil => rfl
  | cons step steps ih =>
    rw [List.map_cons, List.sum_cons, ih, List.flatMap_cons, List.flatMap_cons, dofsRemoved_append,
      List.map_append, List.sum_append, PlanStep.surplus]
    push_cast
    omega

/-! ## Rigid plans -/

/-- The internal constraints of a cluster remove all but three of the DOFs of its entities. -/
def PlanStep.Rigid (freeOf : EntityRef → ℕ) (constraints : List PlanConstraint) :
    PlanStep → Prop
  | extend _ _ _ => True
  | placeCluster cluster internal _ _ =>
    dofsRemoved constraints internal + 3 = (cluster.map freeOf).sum

/-- A plan of a component that is neither under- nor over-constrained. -/
structure DrPlan.Rigid (entities : List PlanEntity) (constraints : List PlanConstraint)
    (plan : DrPlan) : Prop where
  clusters : ∀ step ∈ plan.steps,
    step.Rigid (Discovery.init entities constraints).freeOf constraints
  total : hardDofs constraints = (Discovery.init entities constraints).ownedDofs

section

variable {entities : List PlanEntity} {constraints : List PlanConstraint} {d : Discovery}

theorem PlanStep.hard_of_sound {before : List EntityRef} {step : PlanStep} {i : ℕ}
    (hsound : step.Sound entities constraints before) (hi : i ∈ step.hardConstraints) :
    ∃ c, constraints[i]? = some c ∧ c.hard := by
  rcases step with ⟨entity, indices, soft⟩ | ⟨cluster, internal, boundary, soft⟩
  · obtain ⟨c, hc, hhard, -⟩ := hsound.2 i hi
    exact ⟨c, hc, hhard⟩
  · rcases List.mem_append.mp hi with hi | hi
    · obtain ⟨c, hc, hhard, -⟩ := hsound.2.1 i hi
      exact ⟨c, hc, hhard⟩
    · obtain ⟨c, hc, hhard, -⟩ := hsound.2.2 i hi
      exact ⟨c, hc, hhard⟩

theorem PlanStep.rigid_iff {before : List EntityRef} {freeOf : EntityRef → ℕ} {step : PlanStep}
    (hsound : step.Sound entities constraints before) :
    step.Rigid freeOf constraints ↔
      ∀ δ, step.clusterSurplus freeOf constraints = some δ → δ = 0 := by
  rcases step with ⟨entity, indices, soft⟩ | ⟨cluster, internal, boundary, soft⟩
  · exact iff_of_true trivial nofun
  · have hboundary : dofsRemoved constraints boundary = 3 := hsound.1
    simp only [PlanStep.Rigid, clusterSurplus, Option.some_inj, forall_eq', surplus,
      hardConstraints, placedEntities, dofsRemoved_append, hboundary]
    omega

theorem PlanStep.rigid_pushAll (freeOf : EntityRef → ℕ) (step : PlanStep) (indices : List ℕ) :
    (pushAll step indices).Rigid freeOf constraints = step.Rigid freeOf constraints := by
  rcases step with ⟨entity, listed, soft⟩ | ⟨cluster, internal, boundary, soft⟩
  · rw [pushAll_extend]
    rfl
  · rw [pushAll_placeCluster]
    rfl

theorem Discovery.Inv.rigid_iff (h : d.Inv entities constraints)
    (hlist : d.steps.filterMap (PlanStep.clusterSurplus
      (Discovery.init entities constraints).freeOf constraints) = overlaps) :
    (∀ step ∈ d.steps, step.Rigid (Discovery.init entities constraints).freeOf constraints) ↔
      ∀ δ ∈ overlaps, δ = 0 := by
  have hsound : ∀ step ∈ d.steps, ∃ before, step.Sound entities constraints before := by
    intro step hstep
    obtain ⟨before, after, heq⟩ := List.append_of_mem hstep
    exact ⟨_, h.steps_sound before step after heq⟩
  constructor
  · intro hrigid δ hδ
    rw [← hlist] at hδ
    obtain ⟨step, hstep, hsome⟩ := List.mem_filterMap.mp hδ
    obtain ⟨before, hbefore⟩ := hsound step hstep
    exact (PlanStep.rigid_iff hbefore).mp (hrigid step hstep) δ hsome
  · intro hzero step hstep
    obtain ⟨before, hbefore⟩ := hsound step hstep
    refine (PlanStep.rigid_iff hbefore).mpr fun δ hsome ↦ hzero δ ?_
    rw [← hlist]
    exact List.mem_filterMap.mpr ⟨step, hstep, hsome⟩

theorem Discovery.Inv.sum_surplus_of_complete (h : d.Inv entities constraints)
    (hall : ∀ e ∈ d.free, e ∈ d.placed)
    (hconsumed : ∀ i c, constraints[i]? = some c → c.hard → d.isConsumed i) :
    (d.steps.map (PlanStep.surplus (Discovery.init entities constraints).freeOf constraints)).sum =
      hardDofs constraints - (Discovery.init entities constraints).ownedDofs := by
  have hhard : (d.steps.flatMap PlanStep.hardConstraints).Perm
      (positions constraints fun ci ↦ ci.1.hard) := by
    refine (List.perm_ext_iff_of_nodup h.nodup_hard nodup_positions).mpr fun i ↦ ?_
    rw [← h.consumed_iff, mem_positions]
    constructor
    · intro hi
      obtain ⟨step, hstep, hmem⟩ := List.mem_flatMap.mp ((h.consumed_iff i).mp hi)
      obtain ⟨before, after, heq⟩ := List.append_of_mem hstep
      exact PlanStep.hard_of_sound (h.steps_sound before step after heq) hmem
    · rintro ⟨c, hc, hhard⟩
      exact hconsumed i c hc hhard
  have hplaced : (d.steps.flatMap PlanStep.placedEntities).Perm d.free.keys := by
    refine (List.perm_ext_iff_of_nodup h.nodup_placed Std.ExtTreeMap.nodup_keys).mpr fun e ↦ ?_
    rw [← h.placed_iff, Std.ExtTreeMap.mem_keys]
    exact ⟨h.placed_free e, hall e⟩
  rw [sum_surplus, dofsRemoved_perm hhard, ← hardDofs_eq, (hplaced.map _).sum_nat,
    Discovery.ownedDofs_eq, h.free_eq]

/-- Four points tied to each other by distances, three of them to the frame by one coordinate each.
-/
def exampleTetrahedron : List PlanEntity × List PlanConstraint :=
  ([⟨.point 1, 2, true⟩, ⟨.point 2, 2, true⟩, ⟨.point 3, 2, true⟩, ⟨.point 4, 2, true⟩],
    [⟨0, 1, true, true, false, [.point 1, .point 2]⟩,
      ⟨1, 1, true, true, false, [.point 1, .point 3]⟩,
      ⟨2, 1, true, true, false, [.point 1, .point 4]⟩,
      ⟨3, 1, true, true, false, [.point 2, .point 3]⟩,
      ⟨4, 1, true, true, false, [.point 2, .point 4]⟩,
      ⟨5, 1, true, true, false, [.point 3, .point 4]⟩, ⟨6, 1, true, true, true, [.point 1]⟩,
      ⟨7, 1, true, true, true, [.point 2]⟩, ⟨8, 1, true, true, true, [.point 3]⟩])

end

end RosheraCad.Sketch
