import Mathlib.Algebra.Order.BigOperators.Group.Finset
import RosheraCad.Sketch.Components

/-!
# The verdict on the number of constraints

For each component of a sketch, what its constraints remove is compared with what its entities are
free in. Nothing cancels: the numbers told are the greatest surplus and the greatest deficit of a
part of the sketch that nothing joins to the rest.
-/

namespace RosheraCad

namespace Sketch

structure EntityState where
  freeParamCount : ℕ
  derivedRefs : List EntityRef

structure SolverConstraint where
  entities : List EntityRef
  degreesOfFreedomRemoved : ℕ

structure ConstraintSolver where
  entityState : List (EntityRef × EntityState)
  constraints : List SolverConstraint
  distinct : (entityState.map Prod.fst).Nodup

inductive SolverStatus
  | overConstrained (conflictingConstraints : ℕ)
  | underConstrained (degreesOfFreedom : ℕ)
  deriving DecidableEq

structure DofTally where
  anyOver : Bool
  anyUnder : Bool
  overExcess : ℕ
  underDeficit : ℕ

namespace ConstraintSolver

variable (s : ConstraintSolver)

def nodes : List EntityRef := s.entityState.map Prod.fst

def sharedRefEdges : List (EntityRef × EntityRef) :=
  s.entityState.flatMap fun (owner, state) ↦ state.derivedRefs.map (owner, ·)

def constraintEntities : List (List EntityRef) := s.constraints.map SolverConstraint.entities

def splitComponents : List ConstraintComponent :=
  connectedComponents s.nodes s.sharedRefEdges s.constraintEntities

def freeDof (e : EntityRef) : ℕ := (s.entityState.lookup e).elim 0 EntityState.freeParamCount

def removedDof (ci : ℕ) : ℕ := s.constraints[ci]?.elim 0 SolverConstraint.degreesOfFreedomRemoved

def totalDof (component : ConstraintComponent) : ℕ := (component.entities.map s.freeDof).sum

def constraintsDof (component : ConstraintComponent) : ℕ :=
  (component.constraintIndices.map s.removedDof).sum

def count (t : DofTally) (component : ConstraintComponent) : DofTally :=
  match compare (s.constraintsDof component) (s.totalDof component) with
  | .gt => { t with
      anyOver := true
      overExcess := t.overExcess + (s.constraintsDof component - s.totalDof component) }
  | .lt => { t with
      anyUnder := true
      underDeficit := t.underDeficit + (s.totalDof component - s.constraintsDof component) }
  | .eq => t

def checkConstraintCount : Option SolverStatus :=
  let t := s.splitComponents.foldl s.count ⟨false, false, 0, 0⟩
  if t.anyOver then some (.overConstrained t.overExcess)
  else if t.anyUnder then some (.underConstrained t.underDeficit)
  else none

/-! ## Parts that nothing joins to the rest -/

structure Apart (part : Finset EntityRef) : Prop where
  given : ∀ e ∈ part, e ∈ s.nodes
  joined : ∀ a b, Joined s.nodes s.sharedRefEdges s.constraintEntities a b → (a ∈ part ↔ b ∈ part)

def freedom (part : Finset EntityRef) : ℕ := ∑ e ∈ part, s.freeDof e

/-- The constraints that name an entity of the part. -/
def touching (part : Finset EntityRef) : Finset ℕ :=
  {ci ∈ Finset.range s.constraints.length |
    ∃ entities ∈ s.constraintEntities[ci]?, ∃ e ∈ entities, e ∈ part}

def removed (part : Finset EntityRef) : ℕ := ∑ ci ∈ s.touching part, s.removedDof ci

def surpluses : Set ℕ := {k | ∃ part, s.Apart part ∧ k = s.removed part - s.freedom part}

def deficits : Set ℕ := {k | ∃ part, s.Apart part ∧ k = s.freedom part - s.removed part}

variable {s} {part : Finset EntityRef} {c c' : ConstraintComponent}
  {p : ConstraintComponent → Bool}

theorem decomposes (s : ConstraintSolver) :
    Decomposes s.nodes s.sharedRefEdges s.constraintEntities s.splitComponents :=
  decomposes_connectedComponents ..

theorem eq_of_mem {e : EntityRef} (hc : c ∈ s.splitComponents) (hc' : c' ∈ s.splitComponents)
    (he : e ∈ c.entities) (he' : e ∈ c'.entities) : c = c' := by
  have honce := s.decomposes.node_once e (s.decomposes.entities_given c hc e he)
  rw [List.countP_eq_length_filter, List.length_eq_one_iff] at honce
  obtain ⟨d, hd⟩ := honce
  have hmem : ∀ x ∈ s.splitComponents, e ∈ x.entities → x = d := fun x hx hex ↦
    List.mem_singleton.mp (hd ▸ List.mem_filter.mpr ⟨hx, decide_eq_true hex⟩)
  exact (hmem c hc he).trans (hmem c' hc' he').symm

theorem nodup_splitComponents (s : ConstraintSolver) : s.splitComponents.Nodup := by
  have hheads := s.decomposes.components_ascend
  rw [List.pairwise_filterMap] at hheads
  refine hheads.imp_of_mem fun {c c'} hc _ hlt heq ↦ ?_
  obtain ⟨e, he⟩ := Option.ne_none_iff_exists'.mp
    (List.head?_eq_none_iff.not.mpr (s.decomposes.nonempty c hc))
  exact (hlt e he e (heq ▸ he)).false

/-- What the chosen components are made of adds up, where no two components share any of it. -/
theorem sum_chosen {β : Type} [DecidableEq β] {f : ConstraintComponent → List β}
    {chosen : Finset β} (hf : ∀ c ∈ s.splitComponents, (f c).Nodup)
    (hone : ∀ c ∈ s.splitComponents, ∀ c' ∈ s.splitComponents, ∀ b ∈ f c, b ∈ f c' → c = c')
    (hchosen : ∀ b, b ∈ chosen ↔ ∃ c ∈ s.splitComponents, p c ∧ b ∈ f c) (g : β → ℕ) :
    ∑ b ∈ chosen, g b = ((s.splitComponents.filter p).map fun c ↦ ((f c).map g).sum).sum := by
  have hset : chosen = (s.splitComponents.filter p).toFinset.biUnion fun c ↦ (f c).toFinset := by
    ext b
    simp [hchosen, and_assoc]
  rw [hset, Finset.sum_biUnion, List.sum_toFinset _ (s.nodup_splitComponents.filter _)]
  · congr 1
    exact List.map_congr_left fun c hc ↦ List.sum_toFinset _ (hf c (List.mem_filter.mp hc).1)
  · intro c hc c' hc' hne
    simp only [Finset.mem_coe, List.mem_toFinset, List.mem_filter] at hc hc'
    refine Finset.disjoint_left.mpr fun b hb hb' ↦ hne ?_
    exact hone c hc.1 c' hc'.1 b (List.mem_toFinset.mp hb) (List.mem_toFinset.mp hb')

/-- A part that nothing joins to the rest is made up of components. -/
theorem Apart.sums (h : s.Apart part)
    (hp : ∀ e, e ∈ part ↔ ∃ c ∈ s.splitComponents, p c ∧ e ∈ c.entities) :
    s.freedom part = ((s.splitComponents.filter p).map s.totalDof).sum ∧
      s.removed part = ((s.splitComponents.filter p).map s.constraintsDof).sum := by
  have hd := s.decomposes
  refine ⟨sum_chosen (fun c hc ↦ (hd.entities_ascend c hc).imp ne_of_lt)
    (fun c hc c' hc' e ↦ eq_of_mem hc hc') hp s.freeDof,
    sum_chosen (fun c hc ↦ (hd.constraints_ascend c hc).imp ne_of_lt)
      (fun c hc c' hc' ci hci hci' ↦ ?_) (fun ci ↦ ?_) s.removedDof⟩
  · obtain ⟨entities, hentities, ⟨e, he, hen⟩, hinside⟩ := hd.constraint_inside c hc ci hci
    obtain ⟨entities', hentities', -, hinside'⟩ := hd.constraint_inside c' hc' ci hci'
    obtain rfl := Option.some_inj.mp (hentities.symm.trans hentities')
    exact eq_of_mem hc hc' (hinside e he hen) (hinside' e he hen)
  · rw [touching, Finset.mem_filter, Finset.mem_range]
    constructor
    · rintro ⟨-, entities, hentities, e, he, hmem⟩
      have hen := h.given e hmem
      obtain ⟨c, hc, hpc, hec⟩ := (hp e).mp hmem
      have hpos := (hd.constraint_once ci entities hentities ⟨e, he, hen⟩).symm ▸ Nat.one_pos
      obtain ⟨c', hc', hci⟩ := List.countP_pos_iff.mp hpos
      have hci := of_decide_eq_true hci
      obtain ⟨entities', hentities', -, hinside⟩ := hd.constraint_inside c' hc' ci hci
      obtain rfl := Option.some_inj.mp (hentities.symm.trans hentities')
      exact ⟨c', hc', eq_of_mem hc hc' hec (hinside e he hen) ▸ hpc, hci⟩
    · rintro ⟨c, hc, hpc, hci⟩
      obtain ⟨entities, hentities, ⟨e, he, hen⟩, hinside⟩ := hd.constraint_inside c hc ci hci
      refine ⟨?_, entities, hentities, e, he, (hp e).mpr ⟨c, hc, hpc, hinside e he hen⟩⟩
      simpa [constraintEntities] using (List.getElem?_eq_some_iff.mp hentities).1

theorem Apart.connected (h : s.Apart part) {a b : EntityRef}
    (hab : Connected s.nodes s.sharedRefEdges s.constraintEntities a b) : a ∈ part ↔ b ∈ part := by
  induction hab with
  | rel a b hab => exact h.joined a b hab
  | refl a => rfl
  | symm a b _ ih => exact ih.symm
  | trans a b c _ _ ihab ihbc => exact ihab.trans ihbc

theorem Apart.exists_choice (h : s.Apart part) : ∃ p : ConstraintComponent → Bool,
    ∀ e, e ∈ part ↔ ∃ c ∈ s.splitComponents, p c ∧ e ∈ c.entities := by
  have hd := s.decomposes
  refine ⟨fun c ↦ c.entities.any (· ∈ part), fun e ↦ ⟨fun he ↦ ?_, ?_⟩⟩
  · have hpos := (hd.node_once e (h.given e he)).symm ▸ Nat.one_pos
    obtain ⟨c, hc, hec⟩ := List.countP_pos_iff.mp hpos
    have hec := of_decide_eq_true hec
    exact ⟨c, hc, List.any_eq_true.mpr ⟨e, hec, decide_eq_true he⟩, hec⟩
  · rintro ⟨c, hc, hpc, hec⟩
    obtain ⟨f, hf, hmem⟩ := List.any_eq_true.mp hpc
    exact (h.connected ((hd.together_iff c hc f hf e (hd.entities_given c hc e hec)).mp hec)).mp
      (of_decide_eq_true hmem)

theorem exists_apart (s : ConstraintSolver) (p : ConstraintComponent → Bool) : ∃ part,
    s.Apart part ∧ ∀ e, e ∈ part ↔ ∃ c ∈ s.splitComponents, p c ∧ e ∈ c.entities := by
  have hmem (e : EntityRef) : e ∈ ((s.splitComponents.filter p).flatMap (·.entities)).toFinset ↔
      ∃ c ∈ s.splitComponents, p c ∧ e ∈ c.entities := by
    simp [and_assoc]
  refine ⟨_, ⟨fun e he ↦ ?_, fun a b hab ↦ ?_⟩, hmem⟩
  · obtain ⟨c, hc, -, he⟩ := (hmem e).mp he
    exact s.decomposes.entities_given c hc e he
  · rw [hmem, hmem]
    refine exists_congr fun c ↦ and_congr_right fun hc ↦ and_congr_right fun _ ↦
      ⟨fun ha ↦ ?_, fun hb ↦ ?_⟩
    · exact (s.decomposes.together_iff c hc a ha b hab.2.1).mpr (.rel _ _ hab)
    · exact (s.decomposes.together_iff c hc b hb a hab.1).mpr (.symm _ _ (.rel _ _ hab))

theorem exists_apart_iff (F : ℕ → ℕ → ℕ) {k : ℕ} :
    (∃ part, s.Apart part ∧ k = F (s.removed part) (s.freedom part)) ↔
      ∃ p : ConstraintComponent → Bool,
        k = F ((s.splitComponents.filter p).map s.constraintsDof).sum
          ((s.splitComponents.filter p).map s.totalDof).sum := by
  constructor
  · rintro ⟨part, hapart, rfl⟩
    obtain ⟨p, hp⟩ := hapart.exists_choice
    exact ⟨p, by rw [(hapart.sums hp).1, (hapart.sums hp).2]⟩
  · rintro ⟨p, rfl⟩
    obtain ⟨part, hapart, hp⟩ := s.exists_apart p
    exact ⟨part, hapart, by rw [(hapart.sums hp).1, (hapart.sums hp).2]⟩

/-! ## The verdict -/

/-- The greatest excess of one sum over another, over the choices of some elements. -/
theorem isGreatest_excess {α : Type} (l : List α) (f g : α → ℕ) :
    IsGreatest {k | ∃ p : α → Bool, k = ((l.filter p).map f).sum - ((l.filter p).map g).sum}
      (l.map fun a ↦ f a - g a).sum := by
  constructor
  · refine ⟨fun a ↦ g a < f a, ?_⟩
    induction l with
    | nil => rfl
    | cons a l ih =>
      have hle : ((l.filter fun a ↦ g a < f a).map g).sum ≤
          ((l.filter fun a ↦ g a < f a).map f).sum :=
        List.sum_le_sum fun a ha ↦ (of_decide_eq_true (List.mem_filter.mp ha).2).le
      by_cases ha : g a < f a <;> simp [ha, ih] <;> omega
  · rintro k ⟨p, rfl⟩
    induction l with
    | nil => exact le_rfl
    | cons a l ih => cases hpa : p a <;> simp [hpa] <;> omega

theorem foldl_count (l : List ConstraintComponent) (t : DofTally) : l.foldl s.count t =
    { anyOver := t.anyOver || l.any fun c ↦ s.totalDof c < s.constraintsDof c
      anyUnder := t.anyUnder || l.any fun c ↦ s.constraintsDof c < s.totalDof c
      overExcess := t.overExcess + (l.map fun c ↦ s.constraintsDof c - s.totalDof c).sum
      underDeficit := t.underDeficit + (l.map fun c ↦ s.totalDof c - s.constraintsDof c).sum } := by
  induction l generalizing t with
  | nil => simp
  | cons c l ih =>
    rw [List.foldl_cons, ih, count]
    rcases lt_trichotomy (s.constraintsDof c) (s.totalDof c) with h | h | h
    · simp [Nat.compare_eq_lt.mpr h, h, h.not_gt, Nat.sub_eq_zero_of_le h.le, Nat.add_assoc]
    · simp [h]
    · simp [Nat.compare_eq_gt.mpr h, h, h.not_gt, Nat.sub_eq_zero_of_le h.le, Nat.add_assoc]

/-- **The verdict does not cancel**: the greatest surplus of constraints of a part that nothing
joins to the rest, if there is any, and otherwise the greatest deficit. -/
theorem checkConstraintCount_spec (s : ConstraintSolver) : ∃ surplus deficit,
    IsGreatest s.surpluses surplus ∧ IsGreatest s.deficits deficit ∧
      s.checkConstraintCount =
        if 0 < surplus then some (.overConstrained surplus)
        else if 0 < deficit then some (.underConstrained deficit) else none := by
  have hsurpluses : s.surpluses = _ := Set.ext fun _ ↦ exists_apart_iff (· - ·)
  have hdeficits : s.deficits = _ := Set.ext fun _ ↦ exists_apart_iff fun removed free ↦
    free - removed
  refine ⟨_, _, hsurpluses ▸ isGreatest_excess _ _ _, hdeficits ▸ isGreatest_excess _ _ _, ?_⟩
  have hany (f g : ConstraintComponent → ℕ) : (s.splitComponents.any fun c ↦ g c < f c) =
      decide (0 < (s.splitComponents.map fun c ↦ f c - g c).sum) := by
    rw [Bool.eq_iff_iff, decide_eq_true_iff, List.any_eq_true, List.sum_pos_iff_exists_pos_nat]
    simp [Nat.sub_pos_iff_lt]
  rw [checkConstraintCount, foldl_count]
  simp only [Bool.false_or, Nat.zero_add, hany, decide_eq_true_eq]

end ConstraintSolver

end Sketch

end RosheraCad
