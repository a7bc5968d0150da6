import RosheraCad.Mates.Planned
import Mathlib.Algebra.Ring.Int.Defs

/-!
# Soundness of the solver's plan

Touched bodies and enforced mates are split into components, a mate inside one condensed body is
handed to no planned step, every other mate of a planned component to one step, an extension places
a body by mates that join it to placed geometry and have ranks summing to six, and instances outside
the components keep their poses.
-/

namespace RosheraCad

namespace Mates

variable {F : Type}

/-! ## One component -/

structure ComponentSolve.Sound (d : Decomposition) (n : ℕ) (a : Assembly F)
    (σ : ComponentSolve) : Prop where
  handed : ∀ step ∈ σ.steps, ∀ mi ∈ step.mates, mi ∈ d.compMates a σ.comp
  extends_sound : ∀ pre step, pre ++ [step] <+: σ.steps → ExtendSound d n a σ.comp pre step
  countP_planned : d.hasCoupling a σ.comp = false → ∀ mi ∈ d.compMates a σ.comp,
    (σ.steps.filter fun step ↦ step.kind.isPlanned).countP (fun step ↦ mi ∈ step.mates) = 1
  not_planned : d.hasCoupling a σ.comp = true → ∀ step ∈ σ.steps, step.kind.isPlanned = false

namespace SolveState

variable {num : Numerics F} {d : Decomposition} {n : ℕ} {a : Assembly F} {s : SolveState F}
  {comp : List ℕ}

theorem inPlan_start (hd : d.Assigns s.assembly.instances.length) :
    Progress.InPlan d s.assembly.instances.length s.assembly comp (d.compMates s.assembly comp)
      (s.start d comp) := by
  have hmem : ∀ i, i ∈ (s.start d comp).placed ↔
      i < s.assembly.instances.length ∧ d.bodyOf i ∉ comp := by
    intro i
    simp only [start, List.mem_toFinset, List.mem_filter, List.mem_range, decide_eq_true_eq,
      Decomposition.instancesOf, Progress.mem_flatMap_members hd, not_and]
    exact and_congr_right fun hi ↦ ⟨fun h ↦ h hi, fun h _ ↦ h⟩
  refine ⟨⟨.refl, fun i ↦ ?_, fun _ ↦ rfl, nofun, fun pre step hpre ↦ ?_⟩,
    ⟨fun i hi hbody ↦ (hmem i).mpr ⟨hi, hbody⟩, fun mi hmi _ ↦ ?_⟩, fun _ hb ↦ hb⟩
  · rw [hmem, PlacedBefore]
    refine and_congr_right fun _ ↦ (or_iff_left ?_).symm
    rintro ⟨step, hstep, -⟩
    exact List.not_mem_nil hstep
  · exact absurd (List.append_eq_nil_iff.mp (List.prefix_nil.mp hpre)).2 (List.cons_ne_nil _ _)
  · have htouch := (List.mem_filter.mp hmi).2
    rw [Bool.and_eq_true, List.any_eq_true] at htouch
    obtain ⟨-, i, hi, hmem⟩ := htouch
    exact ⟨i, hi, ((Progress.mem_flatMap_members hd).mp (of_decide_eq_true hmem)).2⟩

theorem mem_comp_of_mem_block (hd : d.Assigns n) {block : List ℕ}
    (hblock : block ∈ comp.map d.members) {i : ℕ} (hi : i ∈ block) : d.bodyOf i ∈ comp := by
  obtain ⟨b, hb, rfl⟩ := List.mem_map.mp hblock
  exact (hd.mem_members.mp hi).2 ▸ hb

theorem mem_comp_of_mem_instancesOf (hd : d.Assigns n) {i : ℕ} (hi : i ∈ d.instancesOf comp) :
    d.bodyOf i ∈ comp := ((Progress.mem_flatMap_members hd).mp hi).2

theorem attempt_spec (hd : d.Assigns s.assembly.instances.length) (hnum : num.MovesBlocksOnly) :
    SameOutside d comp s.assembly (s.attempt num d comp).1.assembly ∧
      ComponentSolve.Sound d s.assembly.instances.length s.assembly
        ⟨comp, (s.attempt num d comp).1.steps⟩ := by
  rw [attempt]
  by_cases hcoupling : d.hasCoupling s.assembly comp = true
  · rw [if_pos hcoupling]
    refine ⟨.setPoses hnum fun block hblock i hi ↦ mem_comp_of_mem_block hd hblock hi, ?_⟩
    have hsteps : ∀ step ∈ (s.solveWhole num d comp).steps,
        step = ⟨.whole, comp.map d.members, d.compMates s.assembly comp⟩ :=
      fun step hstep ↦ List.mem_singleton.mp hstep
    refine ⟨fun step hstep mi hmi ↦ ?_, fun pre step hpre b hb ↦ ?_, fun hnot ↦ ?_,
      fun _ step hstep ↦ ?_⟩
    · rw [hsteps step hstep] at hmi
      exact hmi
    · rw [hsteps step (hpre.subset (List.mem_append_right _ (List.mem_singleton_self _)))] at hb
      cases hb
    · cases hcoupling.symm.trans hnot
    · rw [hsteps step hstep]
      rfl
  · rw [if_neg hcoupling]
    obtain ⟨hsound, hconsumed⟩ := (inPlan_start hd).plan hd hnum
    refine ⟨hsound.outside, fun step hstep ↦ (hsound.planned step hstep).2,
      hsound.extends_sound, fun _ mi hmi ↦ ?_, fun h ↦ absurd h hcoupling⟩
    rw [List.filter_eq_self.mpr fun step hstep ↦ (hsound.planned step hstep).1,
      hsound.countP_steps, if_pos (hconsumed mi hmi)]

theorem fallBack_spec (hd : d.Assigns n) (hnum : num.MovesBlocksOnly) {r : Progress F}
    (houtside : SameOutside d comp s.assembly r.assembly)
    (hsound : ComponentSolve.Sound d n s.assembly ⟨comp, r.steps⟩) :
    SameOutside d comp s.assembly (s.fallBack num d comp r).assembly ∧
      ComponentSolve.Sound d n s.assembly ⟨comp, (s.fallBack num d comp r).steps⟩ := by
  have hassembly : (s.fallBack num d comp r).assembly =
      (r.assembly.restore (s.snapshot d comp)).setPoses (num.gaussNewton
        (r.assembly.restore (s.snapshot d comp)) ((d.instancesOf comp).map fun i ↦ [i])
        (d.compMates s.assembly comp)).1 := by
    rw [fallBack]
    split_ifs <;> rfl
  have hsteps : (s.fallBack num d comp r).steps = r.steps ++
      [⟨.fallback, (d.instancesOf comp).map fun i ↦ [i], d.compMates s.assembly comp⟩] := by
    rw [fallBack]
    split_ifs <;> rfl
  refine ⟨?_, ?_⟩
  · rw [hassembly]
    refine houtside.trans (.trans (.restore fun e he ↦ ?_)
      (.setPoses hnum fun block hblock i hi ↦ ?_))
    · obtain ⟨i, hi, he⟩ := List.mem_filterMap.mp he
      obtain ⟨inst, -, rfl⟩ := Option.map_eq_some_iff.mp he
      exact mem_comp_of_mem_instancesOf hd hi
    · obtain ⟨j, hj, rfl⟩ := List.mem_map.mp hblock
      rw [List.mem_singleton.mp hi]
      exact mem_comp_of_mem_instancesOf hd hj
  · rw [hsteps]
    refine ⟨fun step hstep mi hmi ↦ ?_, fun pre step hpre ↦ ?_, fun hcoupling mi hmi ↦ ?_,
      fun hcoupling step hstep ↦ ?_⟩
    · rcases List.mem_append.mp hstep with hstep | hstep
      · exact hsound.handed step hstep mi hmi
      · rw [List.mem_singleton.mp hstep] at hmi
        exact hmi
    · -- The fallback is the last solve, and it is not planned.
      rcases List.prefix_concat_iff.mp hpre with heq | hpre
      · rw [List.singleton_inj.mp (List.append_inj' heq rfl).2]
        exact nofun
      · exact hsound.extends_sound pre step hpre
    · rw [List.filter_append, List.filter_cons_of_neg Bool.false_ne_true, List.filter_nil,
        List.append_nil]
      exact hsound.countP_planned hcoupling mi hmi
    · rcases List.mem_append.mp hstep with hstep | hstep
      · exact hsound.not_planned hcoupling step hstep
      · rw [List.mem_singleton.mp hstep]
        rfl

variable [LT F] [DecidableLT F]

theorem solveComponent_spec (comp : List ℕ) (hd : d.Assigns s.assembly.instances.length)
    (hnum : num.MovesBlocksOnly) : ∃ steps,
    (s.solveComponent num d comp).solves = s.solves ++ [⟨comp, steps⟩] ∧
      ComponentSolve.Sound d s.assembly.instances.length s.assembly ⟨comp, steps⟩ ∧
      SameOutside d comp s.assembly (s.solveComponent num d comp).assembly := by
  obtain ⟨houtside, hsound⟩ : SameOutside d comp s.assembly _ ∧ _ := attempt_spec hd hnum
  rw [solveComponent]
  dsimp only
  split_ifs
  · obtain ⟨houtside, hsound⟩ := fallBack_spec hd hnum houtside hsound
    exact ⟨_, rfl, hsound, houtside⟩
  · exact ⟨_, rfl, hsound, houtside⟩

end SolveState

/-! ## All components -/

namespace Assembly

variable {num : Numerics F} {d : Decomposition} {n : ℕ} {a a' : Assembly F}

section

variable (h : a'.mates = a.mates)

include h

theorem compMates_congr (comp : List ℕ) :
    d.compMates a' comp = d.compMates a comp := by
  rw [Decomposition.compMates, Decomposition.compMates, h]

theorem hasCoupling_congr (comp : List ℕ) :
    d.hasCoupling a' comp = d.hasCoupling a comp := by
  rw [Decomposition.hasCoupling, Decomposition.hasCoupling, compMates_congr h, h]

theorem rankSum_congr (mates : List ℕ) :
    a'.rankSum mates = a.rankSum mates := by
  rw [rankSum, rankSum, h]

theorem sound_of_mates_eq {σ : ComponentSolve} (hσ : σ.Sound d n a') :
    σ.Sound d n a where
  handed := by
    rw [← compMates_congr h]
    exact hσ.handed
  extends_sound pre step hpre b hb := by
    rw [← rankSum_congr h]
    exact hσ.extends_sound pre step hpre b hb
  countP_planned := by
    rw [← hasCoupling_congr h, ← compMates_congr h]
    exact hσ.countP_planned
  not_planned := by
    rw [← hasCoupling_congr h]
    exact hσ.not_planned

end

variable [LT F] [DecidableLT F]

theorem foldl_solveComponent_spec (hd : d.Assigns n) (hnum : num.MovesBlocksOnly)
    (comps : List (List ℕ)) (s : SolveState F) (hn : s.assembly.instances.length = n) :
    ∃ solves : List ComponentSolve,
      (comps.foldl (fun s comp ↦ s.solveComponent num d comp) s).solves = s.solves ++ solves ∧
      solves.map (·.comp) = comps ∧ (∀ σ ∈ solves, σ.Sound d n s.assembly) ∧
      ∀ i, (∀ comp ∈ comps, d.bodyOf i ∉ comp) →
        (comps.foldl (fun s comp ↦ s.solveComponent num d comp) s).assembly.instances[i]? =
          s.assembly.instances[i]? := by
  induction comps generalizing s with
  | nil => exact ⟨[], (List.append_nil _).symm, rfl, nofun, fun _ _ ↦ rfl⟩
  | cons comp comps ih =>
    subst hn
    obtain ⟨steps, hsolves, hsound, houtside⟩ :=
      SolveState.solveComponent_spec comp hd hnum
    obtain ⟨solves, hsolves', hcomps, hsound', hkept⟩ := ih _ houtside.length_eq
    refine ⟨⟨comp, steps⟩ :: solves, ?_, ?_, ?_, fun i hi ↦ ?_⟩
    · rw [List.foldl_cons, hsolves', hsolves, List.append_assoc, List.singleton_append]
    · rw [List.map_cons, hcomps]
    · rintro σ hσ
      rcases List.mem_cons.mp hσ with rfl | hσ
      · exact hsound
      · exact sound_of_mates_eq houtside.mates_eq (hsound' σ hσ)
    · rw [List.foldl_cons, hkept i fun c hc ↦ hi c (List.mem_cons_of_mem _ hc),
        houtside.instances_eq i (hi comp List.mem_cons_self)]

/-! ## The promise -/

variable (num a) in
def Condensed (mi : ℕ) : Prop :=
  ∃ mate ia ib, a.mates[mi]? = some mate ∧ a.indexOf mate.a = some ia ∧
    a.indexOf mate.b = some ib ∧ a.bodyOf num ia = a.bodyOf num ib

variable (num a) in
def OnGround (i : ℕ) : Prop := some (a.bodyOf num i) = a.groundBody num

end Assembly

section Promise

variable [LE F] [DecidableLE F] [LT F] [DecidableLT F] (num : Numerics F) (a : Assembly F)

/-- What the plan of a solve promises. -/
structure PlanKept : Prop where
  one_component : ∀ b, some b ≠ a.groundBody num →
    (∃ mi, a.enforced mi ∧ ∃ i ∈ a.mateSupport mi, a.bodyOf num i = b) →
    (a.components num).countP (fun comp ↦ b ∈ comp) = 1
  support : ∀ mi, a.enforced mi → (∀ i ∈ a.mateSupport mi, a.OnGround num i) ∨
    ∃ comp ∈ a.components num, ∀ i ∈ a.mateSupport mi,
      a.OnGround num i ∨ a.bodyOf num i ∈ comp
  solved : (a.solveComponents num).solves.map (·.comp) = a.components num
  handed : ∀ σ ∈ (a.solveComponents num).solves, ∀ step ∈ σ.steps, ∀ mi ∈ step.mates,
    mi ∈ (a.decomposition num).compMates a σ.comp
  condensed : ∀ σ ∈ (a.solveComponents num).solves, ∀ step ∈ σ.steps, step.kind.isPlanned →
    ∀ mi ∈ step.mates, ¬ a.Condensed num mi
  /-- Without a coupling every other enforced mate is handed to at most one planned step. -/
  at_most_once : ∀ σ ∈ (a.solveComponents num).solves,
    (a.decomposition num).hasCoupling a σ.comp = false →
    ∀ mi, a.enforced mi → ¬ a.Condensed num mi →
      (σ.steps.filter fun step ↦ step.kind.isPlanned).countP (fun step ↦ mi ∈ step.mates) ≤ 1
  exactly_once : ∀ σ ∈ (a.solveComponents num).solves,
    (a.decomposition num).hasCoupling a σ.comp = false → σ.fellBack = false →
    ∀ mi ∈ (a.decomposition num).compMates a σ.comp, ¬ a.Condensed num mi →
      (σ.steps.filter fun step ↦ step.kind.isPlanned).countP (fun step ↦ mi ∈ step.mates) = 1
  /-- An extension's mates each join its body to geometry placed before, and their ranks sum to six.
  -/
  extended : ∀ σ ∈ (a.solveComponents num).solves, ∀ pre b blocks mates post,
    σ.steps = pre ++ ⟨.extend b, blocks, mates⟩ :: post →
    blocks = [(a.decomposition num).members b] ∧ a.rankSum mates = 6 ∧
      ∀ mi ∈ mates, (∃ i ∈ a.mateSupport mi, a.bodyOf num i = b) ∧
        (∃ i ∈ a.mateSupport mi, a.bodyOf num i ≠ b) ∧
        ∀ i ∈ a.mateSupport mi, a.bodyOf num i = b ∨
          PlacedBefore (a.decomposition num) a.instances.length σ.comp pre i
  poses : ∀ i, (∀ comp ∈ a.components num, a.bodyOf num i ∉ comp) →
    (a.solveDecomposed num).1.instances[i]? = a.instances[i]?

/-- No planned component has an enforced mate whose ends are one instance or welded together. -/
def NothingWelded : Prop :=
  ∀ comp ∈ a.components num, (a.decomposition num).hasCoupling a comp = false →
    ∀ mi ∈ (a.decomposition num).compMates a comp, ∀ mate ia ib, a.mates[mi]? = some mate →
      a.indexOf mate.a = some ia → a.indexOf mate.b = some ib → ¬ a.Welded num ia ib

end Promise

section Facts

variable [LT F] [DecidableLT F] {num : Numerics F} {a : Assembly F} {comp : List ℕ} {mi : ℕ}

theorem not_condensed_of_nothingWelded (h : NothingWelded num a) (hcomp : comp ∈ a.components num)
    (hcoupling : (a.decomposition num).hasCoupling a comp = false)
    (hmi : mi ∈ (a.decomposition num).compMates a comp) : ¬ a.Condensed num mi := by
  rintro ⟨mate, ia, ib, hmate, hia, hib, hbody⟩
  exact h comp hcomp hcoupling mi hmi mate ia ib hmate hia hib
    ((Assembly.bodyOf_eq_iff_welded (Assembly.lt_of_indexOf hia)).mp hbody)

theorem enforced_of_mem_compMates (hmi : mi ∈ (a.decomposition num).compMates a comp) :
    a.enforced mi := by
  have h := (List.mem_filter.mp hmi).2
  rw [Bool.and_eq_true] at h
  exact h.1

theorem exists_other_body (hcoupling : (a.decomposition num).hasCoupling a comp = false)
    (hmi : mi ∈ (a.decomposition num).compMates a comp) (hcondensed : ¬ a.Condensed num mi)
    (b : ℕ) : ∃ i ∈ a.mateSupport mi, a.bodyOf num i ≠ b := by
  obtain ⟨mate, ia, ib, hmate, hia, hib⟩ :=
    Assembly.exists_ends_of_enforced (enforced_of_mem_compMates hmi)
  have hkind : mate.kind.isCoupling = false := by
    have h := List.any_eq_false.mp hcoupling mi hmi
    rwa [hmate, Option.any_some, Bool.not_eq_true] at h
  have hends : ∀ i, a.indexOf mate.a = some i ∨ a.indexOf mate.b = some i →
      i ∈ a.mateSupport mi := fun i hi ↦
    (Assembly.mem_mateSupport hmate hkind).mpr (Assembly.mem_endsOf.mpr hi)
  by_contra hall
  push Not at hall
  refine hcondensed ⟨mate, ia, ib, hmate, hia, hib, ?_⟩
  rw [hall ia (hends ia (.inl hia)), hall ib (hends ib (.inr hib))]

theorem support_in_component (henforced : a.enforced mi) :
    (∀ i ∈ a.mateSupport mi, a.OnGround num i) ∨
      ∃ comp ∈ a.components num, ∀ i ∈ a.mateSupport mi,
        a.OnGround num i ∨ a.bodyOf num i ∈ comp := by
  by_cases hground : ∀ i ∈ a.mateSupport mi, a.OnGround num i
  · exact .inl hground
  · push Not at hground
    obtain ⟨i, hi, hnot⟩ := hground
    have htouched : a.bodyOf num i ∈ a.touchedBodies num :=
      Assembly.mem_touchedBodies.mpr ⟨hnot, mi, henforced, i, hi, rfl⟩
    obtain ⟨comp, hcomp, hmem⟩ := List.countP_pos_iff.mp
      (Nat.lt_of_lt_of_eq Nat.one_pos (Assembly.countP_components htouched).symm)
    refine .inr ⟨comp, hcomp, fun j hj ↦ ?_⟩
    by_cases hj' : a.OnGround num j
    · exact .inl hj'
    · exact .inr (Assembly.mem_component_of_support hcomp henforced hi hj (of_decide_eq_true hmem)
        hj')

theorem solveComponents_spec (hnum : num.MovesBlocksOnly) :
    (a.solveComponents num).solves.map (·.comp) = a.components num ∧
      (∀ σ ∈ (a.solveComponents num).solves,
        σ.Sound (a.decomposition num) a.instances.length a) ∧
      ∀ i, (∀ comp ∈ a.components num, a.bodyOf num i ∉ comp) →
        (a.solveComponents num).assembly.instances[i]? = a.instances[i]? := by
  obtain ⟨solves, hsolves, hcomps, hsound, hkept⟩ := Assembly.foldl_solveComponent_spec
    (a.assigns_decomposition num) hnum (a.components num) ⟨a, 0, _, []⟩ rfl
  rw [List.nil_append] at hsolves
  refine ⟨?_, ?_, hkept⟩
  · rw [← hcomps]
    exact congrArg (List.map _) hsolves
  · intro σ hσ
    exact hsound σ (hsolves ▸ hσ)

end Facts

section Solves

variable [LT F] [DecidableLT F] {num : Numerics F} {a : Assembly F} {σ : ComponentSolve}

section

variable (hσ : σ.Sound (a.decomposition num) a.instances.length a)

include hσ

theorem hasCoupling_of_isPlanned
    {step : Step} (hstep : step ∈ σ.steps) (hplanned : step.kind.isPlanned) :
    (a.decomposition num).hasCoupling a σ.comp = false := by
  rcases hcoupling : (a.decomposition num).hasCoupling a σ.comp with _ | _
  · rfl
  · cases (hσ.not_planned hcoupling step hstep).symm.trans hplanned

theorem countP_planned_le_one
    (hcoupling : (a.decomposition num).hasCoupling a σ.comp = false) (mi : ℕ) :
    (σ.steps.filter fun step ↦ step.kind.isPlanned).countP (fun step ↦ mi ∈ step.mates) ≤ 1 := by
  by_cases hmi : mi ∈ (a.decomposition num).compMates a σ.comp
  · exact (hσ.countP_planned hcoupling mi hmi).le
  · have hzero : (σ.steps.filter fun step ↦ step.kind.isPlanned).countP
        (fun step ↦ mi ∈ step.mates) = 0 := by
      refine List.countP_eq_zero.mpr fun step hstep hmem ↦ hmi ?_
      exact hσ.handed step (List.mem_filter.mp hstep).1 mi (of_decide_eq_true hmem)
    omega

theorem exists_planned_step
    (hcoupling : (a.decomposition num).hasCoupling a σ.comp = false) {mi : ℕ}
    (hmi : mi ∈ (a.decomposition num).compMates a σ.comp) :
    ∃ step ∈ σ.steps, step.kind.isPlanned ∧ mi ∈ step.mates := by
  have hpos := Nat.lt_of_lt_of_eq Nat.one_pos (hσ.countP_planned hcoupling mi hmi).symm
  obtain ⟨step, hstep, hmem⟩ := List.countP_pos_iff.mp hpos
  obtain ⟨hstep, hplanned⟩ := List.mem_filter.mp hstep
  exact ⟨step, hstep, hplanned, of_decide_eq_true hmem⟩

end

theorem extended_of_nothingWelded (h : NothingWelded num a)
    (hσ : σ.Sound (a.decomposition num) a.instances.length a)
    (hcomp : σ.comp ∈ a.components num) {pre post : List Step} {b : ℕ} {blocks : List (List ℕ)}
    {mates : List ℕ} (hsteps : σ.steps = pre ++ ⟨.extend b, blocks, mates⟩ :: post) :
    blocks = [(a.decomposition num).members b] ∧ a.rankSum mates = 6 ∧
      ∀ mi ∈ mates, (∃ i ∈ a.mateSupport mi, a.bodyOf num i = b) ∧
        (∃ i ∈ a.mateSupport mi, a.bodyOf num i ≠ b) ∧
        ∀ i ∈ a.mateSupport mi, a.bodyOf num i = b ∨
          PlacedBefore (a.decomposition num) a.instances.length σ.comp pre i := by
  have hmem : ⟨.extend b, blocks, mates⟩ ∈ σ.steps :=
    hsteps ▸ List.mem_append_right _ List.mem_cons_self
  have hpre : pre ++ [⟨.extend b, blocks, mates⟩] <+: σ.steps :=
    ⟨post, by rw [hsteps, List.append_assoc, List.singleton_append]⟩
  obtain ⟨hblocks, hrank, hmates⟩ := hσ.extends_sound pre _ hpre b rfl
  have hcoupling := hasCoupling_of_isPlanned hσ hmem rfl
  refine ⟨hblocks, hrank, fun mi hmi ↦ ⟨(hmates mi hmi).1, ?_, (hmates mi hmi).2⟩⟩
  have hmi' := hσ.handed _ hmem mi hmi
  exact exists_other_body hcoupling hmi' (not_condensed_of_nothingWelded h hcomp hcoupling hmi') b

end Solves

section Promise

variable [LE F] [DecidableLE F] [LT F] [DecidableLT F]

/-- **The promise of a plan is kept exactly when nothing was welded** in a planned component. -/
theorem planKept_iff_nothingWelded (num : Numerics F) (a : Assembly F)
    (hnum : num.MovesBlocksOnly) : PlanKept num a ↔ NothingWelded num a := by
  obtain ⟨hcomps, hsound, hkept⟩ := solveComponents_spec (a := a) hnum
  have hcomp : ∀ σ ∈ (a.solveComponents num).solves, σ.comp ∈ a.components num :=
    fun σ hσ ↦ hcomps ▸ List.mem_map_of_mem hσ
  constructor
  · intro h comp hcomp hcoupling mi hmi mate ia ib hmate hia hib hwelded
    rw [← hcomps] at hcomp
    obtain ⟨σ, hσ, rfl⟩ := List.mem_map.mp hcomp
    -- the plan hands every mate out, and this one lies inside a body
    obtain ⟨step, hstep, hplanned, hmem⟩ := exists_planned_step (hsound σ hσ) hcoupling hmi
    exact h.condensed σ hσ step hstep hplanned mi hmem ⟨mate, ia, ib, hmate, hia, hib,
      (Assembly.bodyOf_eq_iff_welded (Assembly.lt_of_indexOf hia)).mpr hwelded⟩
  · intro h
    exact {
      one_component b hground htouch :=
        Assembly.countP_components (Assembly.mem_touchedBodies.mpr ⟨hground, htouch⟩)
      support _ := support_in_component
      solved := hcomps
      handed σ hσ := (hsound σ hσ).handed
      condensed σ hσ step hstep hplanned mi hmi := not_condensed_of_nothingWelded h (hcomp σ hσ)
        (hasCoupling_of_isPlanned (hsound σ hσ) hstep hplanned)
        ((hsound σ hσ).handed step hstep mi hmi)
      at_most_once σ hσ hcoupling mi _ _ := countP_planned_le_one (hsound σ hσ) hcoupling mi
      exactly_once σ hσ hcoupling _ mi hmi _ := (hsound σ hσ).countP_planned hcoupling mi hmi
      extended σ hσ _ _ _ _ _ hsteps :=
        extended_of_nothingWelded h (hsound σ hσ) (hcomp σ hσ) hsteps
      poses i hi := by
        rw [Assembly.solveDecomposed]
        split_ifs
        · rfl
        · exact hkept i hi }

end Promise

/-! ## Two assemblies -/

private def apart (a : Assembly ℤ) (mate : Mate ℤ) : ℤ :=
  match (a.indexOf mate.a).bind (a.instances[·]?), (a.indexOf mate.b).bind (a.instances[·]?) with
  | some ia, some ib =>
    let (x, y, z) := ia.pose.translation
    let (x', y', z') := ib.pose.translation
    (x - x').natAbs + (y - y').natAbs + (z - z').natAbs
  | _, _ => 0

/-- Frames at the origins of their instances: a solve moves its blocks to the ground. -/
private def snapping : Numerics ℤ where
  solveTol := 0
  mateViolation := apart
  residualNorm a mates := ((mates.filterMap (a.mates[·]?)).map (apart a)).sum
  gaussNewton a blocks mates :=
    let moved := 0 < ((mates.filterMap (a.mates[·]?)).map (apart a)).sum
    (fun i ↦
      if moved ∧ ∃ block ∈ blocks, i ∈ block then ⟨(0, 0, 0), (0, 0, 0, 1)⟩
      else (a.instances[i]?.map (·.pose)).getD ⟨(0, 0, 0), (0, 0, 0, 1)⟩,
      if moved then 1 else 0)

private theorem movesBlocksOnly_snapping : snapping.MovesBlocksOnly := by
  intro a blocks mates i inst hinst hblocks
  have hnot : ¬ ∃ block ∈ blocks, i ∈ block := fun ⟨block, hblock, hi⟩ ↦ hblocks block hblock hi
  rw [snapping]
  dsimp only
  rw [if_neg fun h ↦ hnot h.2, hinst]
  rfl

private def originFrame : FeatureRef ℤ := .frame (0, 0, 0) (0, 0, 1) (1, 0, 0)

/-- A part next to the ground, to be fastened to it. -/
private def loose : Assembly ℤ where
  instances := [⟨0, ⟨(0, 0, 0), (0, 0, 0, 1)⟩⟩, ⟨1, ⟨(3, 0, 0), (0, 0, 0, 1)⟩⟩]
  mates := [⟨.fastened, 0, originFrame, 1, originFrame⟩]
  ground := 0

/-- Two parts that are fastened to each other and in place. -/
private def bolted : Assembly ℤ where
  instances := [⟨0, ⟨(0, 0, 0), (0, 0, 0, 1)⟩⟩, ⟨1, ⟨(0, 0, 0), (0, 0, 0, 1)⟩⟩,
    ⟨2, ⟨(0, 0, 0), (0, 0, 0, 1)⟩⟩]
  mates := [⟨.fastened, 1, originFrame, 2, originFrame⟩]
  ground := 0

private theorem nothingWelded_loose : NothingWelded snapping loose := by
  intro comp _ _ mi hmi mate ia ib hmate hia hib hwelded
  have hlt := Assembly.lt_of_enforced (enforced_of_mem_compMates hmi)
  obtain rfl : mi = 0 := Nat.lt_one_iff.mp hlt
  cases hmate
  cases (by decide : loose.indexOf 0 = some 0).symm.trans hia
  cases (by decide : loose.indexOf 1 = some 1).symm.trans hib
  exact absurd ((Assembly.bodyOf_eq_iff_welded (by decide)).mpr hwelded) (by decide +kernel)

/-- A loose part is placed as promised. -/
theorem planKept_loose : PlanKept snapping loose :=
  (planKept_iff_nothingWelded snapping loose movesBlocksOnly_snapping).mpr nothingWelded_loose

/-- The bolt of two parts that are in place is handed to an extension of their body. -/
theorem not_planKept_bolted : snapping.MovesBlocksOnly ∧ ¬ PlanKept snapping bolted := by
  refine ⟨movesBlocksOnly_snapping, fun h ↦ ?_⟩
  have hsolves : (bolted.solveComponents snapping).solves =
      [⟨[1], [⟨.extend 1, [[1, 2]], [0]⟩]⟩] := by decide +kernel
  refine h.condensed ⟨[1], [⟨.extend 1, [[1, 2]], [0]⟩]⟩ (by rw [hsolves]; exact
    List.mem_cons_self) _ List.mem_cons_self rfl 0 List.mem_cons_self ?_
  exact ⟨_, 1, 2, rfl, by decide, by decide, by decide +kernel⟩

end Mates

end RosheraCad
