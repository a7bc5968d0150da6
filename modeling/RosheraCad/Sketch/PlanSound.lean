import RosheraCad.Sketch.Discovery

/-!
# Soundness of decomposition plans

The invariant of the discovery loop and the completeness check say what the steps of a plan are
before soft constraints are attached. Each step gets, in order, the soft constraints whose variables
are all placed once it is done, and not before.
-/

namespace RosheraCad.Sketch

/-! ## Attaching soft constraints -/

def placedBy (steps : List PlanStep) (n : ℕ) : List EntityRef :=
  (steps.take n).flatMap PlanStep.placedEntities

def EarliestStep (steps : List PlanStep) (c : PlanConstraint) (si : ℕ) : Prop :=
  (∀ v ∈ c.vars, v ∈ placedBy steps (si + 1)) ∧
    ∀ sj < si, ¬ ∀ v ∈ c.vars, v ∈ placedBy steps (sj + 1)

instance (steps : List PlanStep) (c : PlanConstraint) (si : ℕ) :
    Decidable (EarliestStep steps c si) :=
  have (n : ℕ) : Decidable (∀ v ∈ c.vars, v ∈ placedBy steps n) := List.decidableBAll _ _
  inferInstanceAs (Decidable (_ ∧ _))

section Attach

variable {steps : List PlanStep} {c : PlanConstraint}

theorem EarliestStep.unique {si sj : ℕ} (hi : EarliestStep steps c si)
    (hj : EarliestStep steps c sj) : si = sj := by
  rcases Nat.lt_trichotomy si sj with hlt | heq | hlt
  · exact absurd hi.1 (hj.2 si hlt)
  · exact heq
  · exact absurd hj.1 (hi.2 sj hlt)

theorem getElem?_placedAt (hnodup : (steps.flatMap PlanStep.placedEntities).Nodup) {v : EntityRef}
    {si : ℕ} : (placedAt steps)[v]? = some si ↔
      ∃ step, steps[si]? = some step ∧ v ∈ step.placedEntities := by
  have hmem : ∀ {v si}, (v, si) ∈ (steps.zipIdx.flatMap fun p ↦
      p.1.placedEntities.map fun e ↦ (e, p.2)) ↔
        ∃ step, steps[si]? = some step ∧ v ∈ step.placedEntities := by
    intro v si
    rw [List.mem_flatMap]
    constructor
    · rintro ⟨⟨step, sj⟩, hstep, hv⟩
      obtain ⟨e, he, heq⟩ := List.mem_map.mp hv
      cases heq
      exact ⟨step, List.mk_mem_zipIdx_iff_getElem?.mp hstep, he⟩
    · rintro ⟨step, hstep, hv⟩
      exact ⟨(step, si), List.mk_mem_zipIdx_iff_getElem?.mpr hstep,
        List.mem_map.mpr ⟨v, hv, rfl⟩⟩
  refine (OrderedMap.getElem?_insertEntries_iff ?_ ∅ v si).trans (by simp [hmem])
  · intro v si sj hi hj
    obtain ⟨a, ha, hva⟩ := hmem.mp hi
    obtain ⟨b, hb, hvb⟩ := hmem.mp hj
    have hdisjoint := List.pairwise_iff_getElem.mp (List.nodup_flatMap.mp hnodup).2
    obtain ⟨hi, rfl⟩ := List.getElem?_eq_some_iff.mp ha
    obtain ⟨hj, rfl⟩ := List.getElem?_eq_some_iff.mp hb
    rcases Nat.lt_trichotomy si sj with hlt | heq | hlt
    · exact absurd hvb (hdisjoint si sj hi hj hlt hva)
    · exact heq
    · exact absurd hva (hdisjoint sj si hj hi hlt hvb)

theorem mem_placedBy (hnodup : (steps.flatMap PlanStep.placedEntities).Nodup) {v : EntityRef}
    {n : ℕ} : v ∈ placedBy steps n ↔ ∃ si < n, (placedAt steps)[v]? = some si := by
  rw [placedBy, List.mem_flatMap]
  constructor
  · rintro ⟨step, hstep, hv⟩
    obtain ⟨si, hsi⟩ := List.mem_iff_getElem?.mp hstep
    rw [List.getElem?_take] at hsi
    split at hsi
    · next hlt => exact ⟨si, hlt, (getElem?_placedAt hnodup).mpr ⟨step, hsi, hv⟩⟩
    · cases hsi
  · rintro ⟨si, hlt, hsi⟩
    obtain ⟨step, hstep, hv⟩ := (getElem?_placedAt hnodup).mp hsi
    refine ⟨step, List.mem_iff_getElem?.mpr ⟨si, ?_⟩, hv⟩
    rw [List.getElem?_take, if_pos hlt, hstep]

private theorem foldlM_max_eq_some {l : List (Option ℕ)} {a m : ℕ} :
    l.foldlM (fun acc s ↦ s.map (max acc)) a = some m ↔
      (∀ s ∈ l, ∃ n, s = some n ∧ n ≤ m) ∧ a ≤ m ∧ (m = a ∨ some m ∈ l) := by
  induction l generalizing a with
  | nil =>
    rw [List.foldlM_nil]
    constructor
    · rintro h
      cases h
      exact ⟨fun s hs ↦ absurd hs List.not_mem_nil, Nat.le_refl _, Or.inl rfl⟩
    · rintro ⟨-, -, rfl | h⟩
      · rfl
      · cases h
  | cons s l ih =>
    rw [List.foldlM_cons]
    rcases s with - | n
    · refine iff_of_false nofun ?_
      rintro ⟨h, -⟩
      obtain ⟨n, hn, -⟩ := h none List.mem_cons_self
      cases hn
    · refine (ih (a := max a n)).trans ?_
      constructor
      · rintro ⟨hall, hle, hm⟩
        refine ⟨fun s hs ↦ ?_, (Nat.le_max_left a n).trans hle, ?_⟩
        · rcases List.mem_cons.mp hs with rfl | hs
          · exact ⟨n, rfl, (Nat.le_max_right a n).trans hle⟩
          · exact hall s hs
        · rcases hm with rfl | hm
          · -- The maximum is the start or this number.
            rcases Nat.le_total a n with han | han
            · rw [Nat.max_eq_right han]
              exact Or.inr List.mem_cons_self
            · exact Or.inl (Nat.max_eq_left han)
          · exact Or.inr (List.mem_cons_of_mem _ hm)
      · rintro ⟨hall, hle, hm⟩
        obtain ⟨k, hk, hkm⟩ := hall (some n) List.mem_cons_self
        cases hk
        refine ⟨fun s hs ↦ hall s (List.mem_cons_of_mem _ hs), Nat.max_le.mpr ⟨hle, hkm⟩, ?_⟩
        rcases hm with rfl | hm
        · exact Or.inl (Nat.max_eq_left hkm).symm
        · rcases List.mem_cons.mp hm with heq | hm
          · cases heq
            exact Or.inl (Nat.max_eq_right hle).symm
          · exact Or.inr hm

private theorem none_mem_of_foldlM_max {l : List (Option ℕ)} {a : ℕ}
    (h : l.foldlM (fun acc s ↦ s.map (max acc)) a = none) : none ∈ l := by
  induction l generalizing a with
  | nil => cases h
  | cons s l ih =>
    rcases s with - | n
    · exact List.mem_cons_self
    · exact List.mem_cons_of_mem _ (ih h)

theorem softStep_eq_some_iff (hnodup : (steps.flatMap PlanStep.placedEntities).Nodup) {si : ℕ} :
    softStep steps c = some si ↔ EarliestStep steps c si := by
  have hforward : ∀ {m}, softStep steps c = some m → EarliestStep steps c m := by
    intro m h
    rw [softStep, foldlM_max_eq_some] at h
    obtain ⟨hall, -, hm⟩ := h
    refine ⟨fun v hv ↦ ?_, fun sj hlt hplaced ↦ ?_⟩
    · obtain ⟨n, hn, hle⟩ := hall _ (List.mem_map_of_mem hv)
      exact (mem_placedBy hnodup).mpr ⟨n, Nat.lt_succ_of_le hle, hn⟩
    · rcases hm with rfl | hm
      · exact absurd hlt (Nat.not_lt_zero _)
      · obtain ⟨v, hv, hvm⟩ := List.mem_map.mp hm
        obtain ⟨k, hk, hvk⟩ := (mem_placedBy hnodup).mp (hplaced v hv)
        cases hvm.symm.trans hvk
        omega
  refine ⟨hforward, fun h ↦ ?_⟩
  rcases hsoft : softStep steps c with - | m
  · have hnone := none_mem_of_foldlM_max hsoft
    obtain ⟨v, hv, hvnone⟩ := List.mem_map.mp hnone
    obtain ⟨k, -, hk⟩ := (mem_placedBy hnodup).mp (h.1 v hv)
    cases hvnone.symm.trans hk
  · rw [(hforward hsoft).unique h]

theorem exists_earliestStep (hnodup : (steps.flatMap PlanStep.placedEntities).Nodup)
    (h : ∀ v ∈ c.vars, v ∈ steps.flatMap PlanStep.placedEntities) :
    ∃ si, EarliestStep steps c si := by
  rcases hsoft : softStep steps c with - | si
  · obtain ⟨v, hv, hnone⟩ := List.mem_map.mp (none_mem_of_foldlM_max hsoft)
    have hplaced : v ∈ placedBy steps steps.length := by
      rw [placedBy, List.take_length]
      exact h v hv
    obtain ⟨k, -, hk⟩ := (mem_placedBy hnodup).mp hplaced
    cases hnone.symm.trans hk
  · exact ⟨si, (softStep_eq_some_iff hnodup).mp hsoft⟩

theorem EarliestStep.lt_length {si : ℕ} (h : EarliestStep steps c si) (hvars : c.vars ≠ []) :
    si < steps.length := by
  by_contra hge
  rw [Nat.not_lt] at hge
  have htake : ∀ n, steps.length ≤ n → placedBy steps n = placedBy steps steps.length := by
    intro n hn
    rw [placedBy, placedBy, List.take_of_length_le hn, List.take_length]
  obtain ⟨v, hv⟩ := List.exists_mem_of_ne_nil _ hvars
  have hall : ∀ v ∈ c.vars, v ∈ placedBy steps steps.length :=
    htake (si + 1) (hge.trans (Nat.le_succ _)) ▸ h.1
  rcases Nat.eq_zero_or_pos steps.length with hzero | hpos
  · have hmem := hall v hv
    rw [hzero] at hmem
    cases hmem
  · refine h.2 (steps.length - 1) (by omega) ?_
    rwa [Nat.sub_add_cancel hpos]

def pushAll (step : PlanStep) (indices : List ℕ) : PlanStep :=
  indices.foldl (fun step i ↦ step.pushSoft i) step

theorem pushAll_extend (entity : EntityRef) (constraints soft indices : List ℕ) :
    pushAll (.extend entity constraints soft) indices =
      .extend entity constraints (soft ++ indices) := by
  induction indices generalizing soft with
  | nil => rw [List.append_nil]; rfl
  | cons i indices ih =>
    rw [pushAll, List.foldl_cons, ← pushAll, PlanStep.pushSoft, ih, List.append_assoc,
      List.singleton_append]

theorem pushAll_placeCluster (entities : List EntityRef) (internal boundary soft indices : List ℕ) :
    pushAll (.placeCluster entities internal boundary soft) indices =
      .placeCluster entities internal boundary (soft ++ indices) := by
  induction indices generalizing soft with
  | nil => rw [List.append_nil]; rfl
  | cons i indices ih =>
    rw [pushAll, List.foldl_cons, ← pushAll, PlanStep.pushSoft, ih, List.append_assoc,
      List.singleton_append]

def softOf (steps : List PlanStep) (constraints : List PlanConstraint) (si : ℕ) : List ℕ :=
  (constraints.filter fun c ↦
    !c.hard && !c.vars.isEmpty && decide (EarliestStep steps c si)).map PlanConstraint.index

private theorem getElem?_foldl_attach (hnodup : (steps.flatMap PlanStep.placedEntities).Nodup)
    (constraints : List PlanConstraint) (acc : List PlanStep) (si : ℕ) :
    (constraints.foldl (fun acc c ↦
      if c.hard || c.vars.isEmpty then acc
      else
        match softStep steps c with
        | some si => acc.modify si (PlanStep.pushSoft c.index)
        | none => acc) acc)[si]? =
      acc[si]?.map fun step ↦ pushAll step (softOf steps constraints si) := by
  induction constraints generalizing acc with
  | nil => simp [softOf, pushAll]
  | cons c constraints ih =>
    rw [List.foldl_cons, ih, softOf, softOf, List.filter_cons]
    by_cases hskip : c.hard || c.vars.isEmpty
    · have hnot : (!c.hard && !c.vars.isEmpty && decide (EarliestStep steps c si)) = false := by
        rw [← Bool.not_or, hskip]
        rfl
      rw [if_pos hskip, if_neg (by rw [hnot]; exact Bool.false_ne_true)]
    · rw [if_neg hskip]
      rw [Bool.not_eq_true] at hskip
      rw [← Bool.not_or, hskip]
      simp only [Bool.not_false, Bool.true_and, decide_eq_true_eq]
      -- A constraint is pushed to its earliest step, if it has one.
      rcases hsoft : softStep steps c with - | sj
      · have hnot : ¬ EarliestStep steps c si := by
          rw [← softStep_eq_some_iff hnodup, hsoft]
          exact nofun
        rw [if_neg hnot]
      · have hiff : EarliestStep steps c si ↔ sj = si := by
          rw [← softStep_eq_some_iff hnodup, hsoft, Option.some_inj]
        rw [List.getElem?_modify]
        by_cases heq : sj = si
        · rw [if_pos (hiff.mpr heq), List.map_cons]
          simp only [if_pos heq, Option.map_eq_map, Option.map_map]
          rfl
        · rw [if_neg (fun h ↦ heq (hiff.mp h))]
          simp only [if_neg heq, Option.map_eq_map, Option.map_id']

theorem getElem?_attachSoftPassengers (hnodup : (steps.flatMap PlanStep.placedEntities).Nodup)
    (constraints : List PlanConstraint) (si : ℕ) :
    (attachSoftPassengers steps constraints)[si]? =
      steps[si]?.map fun step ↦ pushAll step (softOf steps constraints si) :=
  getElem?_foldl_attach hnodup constraints steps si

end Attach

/-! ## Soundness -/

structure DrPlan.Sound (entities : List PlanEntity) (constraints : List PlanConstraint)
    (plan : DrPlan) : Prop where
  placed_once : ∀ e ∈ entities, 0 < e.freeDofs →
    (plan.steps.flatMap PlanStep.placedEntities).count e.entity = 1
  hard_once : ∀ i c, constraints[i]? = some c → c.hard →
    (plan.steps.flatMap PlanStep.hardConstraints).count i = 1
  steps_sound : ∀ before step after, plan.steps = before ++ step :: after →
    step.Sound entities constraints (before.flatMap PlanStep.placedEntities)
  soft_eq : ∀ si step, plan.steps[si]? = some step →
    step.soft = softOf plan.steps constraints si
  soft_once : ∀ c ∈ constraints, c.hard = false → c.vars ≠ [] →
    (∀ v ∈ c.vars, v ∈ plan.steps.flatMap PlanStep.placedEntities) →
      ∃! si, si < plan.steps.length ∧ EarliestStep plan.steps c si

variable {constraints : List PlanConstraint} {entities : List PlanEntity}

namespace PlanStep

@[simp] theorem placedEntities_pushAll (step : PlanStep) (indices : List ℕ) :
    (pushAll step indices).placedEntities = step.placedEntities := by
  rcases step with ⟨entity, constraints, soft⟩ | ⟨entities, internal, boundary, soft⟩
  · rw [pushAll_extend]
    rfl
  · rw [pushAll_placeCluster]
    rfl

@[simp] theorem hardConstraints_pushAll (step : PlanStep) (indices : List ℕ) :
    (pushAll step indices).hardConstraints = step.hardConstraints := by
  rcases step with ⟨entity, constraints, soft⟩ | ⟨entities, internal, boundary, soft⟩
  · rw [pushAll_extend]
    rfl
  · rw [pushAll_placeCluster]
    rfl

@[simp] theorem soft_pushAll (step : PlanStep) (indices : List ℕ) :
    (pushAll step indices).soft = step.soft ++ indices := by
  rcases step with ⟨entity, constraints, soft⟩ | ⟨entities, internal, boundary, soft⟩
  · rw [pushAll_extend]
    rfl
  · rw [pushAll_placeCluster]
    rfl

theorem sound_pushAll {before : List EntityRef} {step : PlanStep} (indices : List ℕ)
    (h : step.Sound entities constraints before) :
    (pushAll step indices).Sound entities constraints before := by
  rcases step with ⟨entity, listed, soft⟩ | ⟨cluster, internal, boundary, soft⟩
  · rw [pushAll_extend]
    exact h
  · rw [pushAll_placeCluster]
    exact h

end PlanStep

section Steps

variable {steps : List PlanStep} {constraints : List PlanConstraint}

theorem map_attach {β : Type} {f : PlanStep → β}
    (hf : ∀ step indices, f (pushAll step indices) = f step)
    (hnodup : (steps.flatMap PlanStep.placedEntities).Nodup) :
    (attachSoftPassengers steps constraints).map f = steps.map f := by
  refine List.ext_getElem? fun si ↦ ?_
  rw [List.getElem?_map, List.getElem?_map, getElem?_attachSoftPassengers hnodup, Option.map_map]
  congr 1
  funext step
  exact hf step _

theorem flatMap_attach {β : Type} {f : PlanStep → List β}
    (hf : ∀ step indices, f (pushAll step indices) = f step)
    (hnodup : (steps.flatMap PlanStep.placedEntities).Nodup) :
    (attachSoftPassengers steps constraints).flatMap f = steps.flatMap f := by
  rw [List.flatMap_def, List.flatMap_def, map_attach hf hnodup]

private theorem placedBy_attach (hnodup : (steps.flatMap PlanStep.placedEntities).Nodup) (n : ℕ) :
    placedBy (attachSoftPassengers steps constraints) n = placedBy steps n := by
  rw [placedBy, placedBy, List.flatMap_def, List.flatMap_def, List.map_take, List.map_take,
    map_attach PlanStep.placedEntities_pushAll hnodup]

private theorem earliestStep_attach (hnodup : (steps.flatMap PlanStep.placedEntities).Nodup)
    (c : PlanConstraint) (si : ℕ) :
    EarliestStep (attachSoftPassengers steps constraints) c si ↔ EarliestStep steps c si := by
  simp only [EarliestStep, placedBy_attach hnodup]

end Steps

theorem mem_placed_of_size_eq {d : Discovery} (h : d.Inv entities constraints)
    (hsize : d.placed.size = d.free.size) {e : EntityRef} (he : e ∈ d.free) : e ∈ d.placed := by
  have hsub : d.placed.toList ⊆ d.free.keys := fun e he ↦
    Std.ExtTreeMap.mem_keys.mpr (h.placed_free e (Std.ExtTreeSet.mem_toList.mp he))
  have hperm := (List.subperm_of_subset (OrderedSet.nodup_toList d.placed) hsub).perm_of_length_le
    (by rw [Std.ExtTreeMap.length_keys, Std.ExtTreeSet.length_toList, hsize])
  exact Std.ExtTreeSet.mem_toList.mp (hperm.mem_iff.mpr (Std.ExtTreeMap.mem_keys.mpr he))

private theorem sound_of_complete
    {d : Discovery} (h : d.Inv entities constraints) (hall : ∀ e ∈ d.free, e ∈ d.placed)
    (hconsumed : ∀ i c, constraints[i]? = some c → c.hard → d.isConsumed i) :
    DrPlan.Sound entities constraints ⟨attachSoftPassengers d.steps constraints⟩ where
  placed_once e he hfree := by
    rw [flatMap_attach PlanStep.placedEntities_pushAll h.nodup_placed]
    refine List.count_eq_one_of_mem h.nodup_placed ((h.placed_iff _).mp (hall _ ?_))
    rw [h.free_eq, Discovery.init, OrderedMap.mem_insertEntries]
    exact Or.inl ⟨e.freeDofs, List.mem_map.mpr ⟨e, List.mem_filter.mpr ⟨he, by simpa using hfree⟩,
      rfl⟩⟩
  hard_once i c hc hhard := by
    rw [flatMap_attach PlanStep.hardConstraints_pushAll h.nodup_placed]
    exact List.count_eq_one_of_mem h.nodup_hard ((h.consumed_iff i).mp (hconsumed i c hc hhard))
  steps_sound before step after heq := by
    have heq : attachSoftPassengers d.steps constraints = before ++ step :: after := heq
    have hget : (attachSoftPassengers d.steps constraints)[before.length]? = some step := by
      rw [heq, List.getElem?_append_right (Nat.le_refl _), Nat.sub_self]
      rfl
    rw [getElem?_attachSoftPassengers h.nodup_placed] at hget
    obtain ⟨original, horiginal, rfl⟩ := Option.map_eq_some_iff.mp hget
    obtain ⟨hlt, rfl⟩ := List.getElem?_eq_some_iff.mp horiginal
    have hplaced : placedBy (attachSoftPassengers d.steps constraints) before.length =
        placedBy d.steps before.length := placedBy_attach h.nodup_placed _
    have hbefore : before.flatMap PlanStep.placedEntities = placedBy d.steps before.length := by
      rw [← hplaced, placedBy, heq, List.take_left]
    rw [hbefore]
    refine PlanStep.sound_pushAll _ (h.steps_sound _ _ (d.steps.drop (before.length + 1)) ?_)
    rw [List.getElem_cons_drop, List.take_append_drop]
  soft_eq si step hstep := by
    have hstep : (attachSoftPassengers d.steps constraints)[si]? = some step := hstep
    rw [getElem?_attachSoftPassengers h.nodup_placed] at hstep
    obtain ⟨original, horiginal, rfl⟩ := Option.map_eq_some_iff.mp hstep
    rw [PlanStep.soft_pushAll, h.soft_nil original (List.mem_of_getElem? horiginal),
      List.nil_append]
    simp only [softOf, earliestStep_attach h.nodup_placed]
  soft_once c _ _ hvars hplanned := by
    have hlen : (attachSoftPassengers d.steps constraints).length = d.steps.length := by
      have hmap : (attachSoftPassengers d.steps constraints).map PlanStep.placedEntities =
          d.steps.map PlanStep.placedEntities :=
        map_attach PlanStep.placedEntities_pushAll h.nodup_placed
      rw [← List.length_map PlanStep.placedEntities, hmap, List.length_map]
    rw [flatMap_attach PlanStep.placedEntities_pushAll h.nodup_placed] at hplanned
    simp only [earliestStep_attach h.nodup_placed, hlen]
    obtain ⟨si, hsi⟩ := exists_earliestStep h.nodup_placed hplanned
    exact ⟨si, ⟨hsi.lt_length hvars, hsi⟩, fun sj hsj ↦ hsj.2.unique hsi⟩

theorem of_planComponent
    {plan : DrPlan} (hplan : planComponent entities constraints = some plan) {d : Discovery}
    (hd : d = (Discovery.init entities constraints).run
      (Discovery.init entities constraints).free.size) :
    d.Inv entities constraints ∧ (∀ e ∈ d.free, e ∈ d.placed) ∧
      (∀ i c, constraints[i]? = some c → c.hard → d.isConsumed i) ∧
      plan = ⟨attachSoftPassengers d.steps constraints⟩ := by
  subst hd
  rw [planComponent] at hplan
  split at hplan
  · cases hplan
  dsimp only at hplan
  split at hplan
  · cases hplan
  next hsize =>
  split at hplan
  · cases hplan
  next hconsumed =>
  cases hplan
  have h := (Discovery.Inv.start : Discovery.Inv entities constraints _).run
    (Discovery.init entities constraints).free.size
  refine ⟨h, fun e he ↦ mem_placed_of_size_eq h (not_not.mp hsize) he, fun i c hc hhard ↦ ?_, rfl⟩
  by_contra hnot
  refine hconsumed (List.any_eq_true.mpr ⟨(c, i), List.mk_mem_zipIdx_iff_getElem?.mpr hc, ?_⟩)
  simpa [hhard] using hnot

/-- **Soundness of decomposition plans.** -/
theorem planComponent_sound {entities : List PlanEntity} {constraints : List PlanConstraint}
    {plan : DrPlan} (hplan : planComponent entities constraints = some plan) :
    plan.Sound entities constraints := by
  obtain ⟨h, hall, hconsumed, rfl⟩ := of_planComponent hplan rfl
  exact sound_of_complete h hall hconsumed

/-- Points tied to each other by distances and to the frame by one coordinate each, with a soft
constraint. -/
def exampleTriangle : List PlanEntity × List PlanConstraint :=
  ([⟨.point 1, 2, true⟩, ⟨.point 2, 2, true⟩, ⟨.point 3, 2, true⟩],
    [⟨0, 1, true, true, false, [.point 1, .point 2]⟩,
      ⟨1, 1, true, true, false, [.point 2, .point 3]⟩,
      ⟨2, 1, true, true, false, [.point 1, .point 3]⟩, ⟨3, 1, true, true, true, [.point 1]⟩,
      ⟨4, 1, true, true, true, [.point 2]⟩, ⟨5, 1, true, true, true, [.point 3]⟩,
      ⟨6, 1, false, true, false, [.point 1, .point 3]⟩])

theorem planComponent_sound_triangle :
    DrPlan.Sound exampleTriangle.1 exampleTriangle.2
      ⟨[.placeCluster [.point 1, .point 2, .point 3] [0, 1, 2] [3, 4, 5] [6]]⟩ :=
  planComponent_sound (by decide +kernel)

/-- A soft constraint without variables is attached to no step. -/
theorem planComponent_soft_without_vars :
    let entities : List PlanEntity := [⟨.point 1, 2, true⟩]
    let constraints : List PlanConstraint := [⟨0, 1, true, true, true, [.point 1]⟩,
      ⟨1, 1, true, true, true, [.point 1]⟩, ⟨2, 0, false, true, false, []⟩]
    let plan : DrPlan := ⟨[.extend (.point 1) [0, 1] []]⟩
    planComponent entities constraints = some plan ∧
      (∃ c ∈ constraints, c.hard = false ∧ c.index = 2 ∧ EarliestStep plan.steps c 0 ∧
        ∀ v ∈ c.vars, v ∈ plan.steps.flatMap PlanStep.placedEntities) ∧
      ∀ step ∈ plan.steps, 2 ∉ step.soft := by
  refine ⟨by decide +kernel, ⟨⟨2, 0, false, true, false, []⟩, by decide, rfl, rfl, by decide, ?_⟩,
    by decide⟩
  exact fun v hv ↦ absurd hv List.not_mem_nil

end RosheraCad.Sketch
