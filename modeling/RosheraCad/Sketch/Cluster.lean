import RosheraCad.Sketch.Plan

/-!
# Cluster formation

A change of the cluster list happens at one place of it: a cluster takes in an entity of the pool,
or two or three clusters become one. From this it follows that the changes come to an end.
-/

namespace RosheraCad.Sketch

namespace Discovery

variable {d : Discovery} {clusters grown : List Cluster}

/-! ## The clusters hold entities of the pool -/

def Within (d : Discovery) (clusters : List Cluster) : Prop := ∀ c ∈ clusters, ∀ e ∈ c, e ∈ d.pool

theorem mem_of_mem_pairs {l : List EntityRef} {a b : EntityRef} (h : (a, b) ∈ pairs l) :
    a ∈ l ∧ b ∈ l := by
  induction l with
  | nil => cases h
  | cons c l ih =>
    rcases List.mem_append.mp h with h | h
    · obtain ⟨e, he, heq⟩ := List.mem_map.mp h
      cases heq
      exact ⟨List.mem_cons_self, List.mem_cons_of_mem _ he⟩
    · exact ⟨List.mem_cons_of_mem _ (ih h).1, List.mem_cons_of_mem _ (ih h).2⟩

theorem ne_of_mem_pairs {l : List EntityRef} (hl : l.Nodup) {a b : EntityRef}
    (h : (a, b) ∈ pairs l) : a ≠ b := by
  induction l with
  | nil => cases h
  | cons c l ih =>
    obtain ⟨hc, hl⟩ := List.nodup_cons.mp hl
    rcases List.mem_append.mp h with h | h
    · obtain ⟨e, he, heq⟩ := List.mem_map.mp h
      cases heq
      exact fun hcb ↦ hc (hcb ▸ he)
    · exact ih hl h

theorem exists_of_mem_pairSeeds {c : Cluster} (hc : c ∈ d.pairSeeds) :
    ∃ a b, (a, b) ∈ pairs d.pool ∧ c = .ofList [a, b] ∧
      d.dofsBetween c none + 3 = d.freeOf a + d.freeOf b := by
  have hfold : ∀ (l : List (EntityRef × EntityRef)) (clusters : List Cluster),
      c ∈ l.foldl (fun clusters ab ↦
          if clusters.any fun c ↦ c.contains ab.1 && c.contains ab.2 then clusters
          else
            let pair : Cluster := .ofList [ab.1, ab.2]
            let freeSum := d.freeOf ab.1 + d.freeOf ab.2
            if freeSum ≥ 3 && d.dofsBetween pair none = freeSum - 3 then clusters ++ [pair]
            else clusters) clusters →
        c ∈ clusters ∨ ∃ a b, (a, b) ∈ l ∧ c = .ofList [a, b] ∧
          d.dofsBetween c none + 3 = d.freeOf a + d.freeOf b := by
    intro l
    induction l with
    | nil => exact fun _ h ↦ Or.inl h
    | cons ab l ih =>
      intro clusters h
      rw [List.foldl_cons] at h
      rcases ih _ h with h | ⟨a, b, hab, hpair⟩
      · dsimp only at h
        split at h
        · exact Or.inl h
        · split at h
          · next hcount =>
            rw [Bool.and_eq_true, decide_eq_true_eq, decide_eq_true_eq] at hcount
            rcases List.mem_append.mp h with h | h
            · exact Or.inl h
            · obtain rfl := List.mem_singleton.mp h
              refine Or.inr ⟨ab.1, ab.2, List.mem_cons_self, rfl, ?_⟩
              rw [hcount.2]
              exact Nat.sub_add_cancel hcount.1
          · exact Or.inl h
      · exact Or.inr ⟨a, b, List.mem_cons_of_mem _ hab, hpair⟩
  rcases hfold (pairs d.pool) [] hc with h | h
  · cases h
  · exact h

theorem within_pairSeeds (d : Discovery) : d.Within d.pairSeeds := by
  intro c hc e he
  obtain ⟨a, b, hab, rfl, -⟩ := exists_of_mem_pairSeeds hc
  obtain ⟨ha, hb⟩ := mem_of_mem_pairs hab
  rcases List.mem_cons.mp (OrderedSet.mem_ofList.mp he) with rfl | he
  · exact ha
  · rwa [List.mem_singleton.mp he]

theorem onFirst_eq_some {rule : Cluster → List Cluster → Option (List Cluster)}
    {clusters result : List Cluster} (h : onFirst rule clusters = some result) :
    ∃ before c later changed, clusters = before ++ c :: later ∧ rule c later = some changed ∧
      result = before ++ changed := by
  induction clusters generalizing result with
  | nil => cases h
  | cons c later ih =>
    rw [onFirst] at h
    rcases hrule : rule c later with - | changed
    · rw [hrule] at h
      obtain ⟨rest, hrest, rfl⟩ := Option.map_eq_some_iff.mp h
      obtain ⟨before, c', later', changed, rfl, hchanged, rfl⟩ := ih hrest
      exact ⟨c :: before, c', later', changed, rfl, hchanged, rfl⟩
    · rw [hrule] at h
      cases h
      exact ⟨[], c, later, result, rfl, hrule, rfl⟩

theorem perm_of_takeFirst {α : Type} {p : α → Bool} {l rest : List α} {a : α}
    (h : takeFirst p l = some (a, rest)) : (a :: rest).Perm l := by
  induction l generalizing a rest with
  | nil => cases h
  | cons c l ih =>
    rw [takeFirst] at h
    split at h
    · cases h
      exact List.Perm.refl _
    · obtain ⟨⟨b, l'⟩, htake, heq⟩ := Option.map_eq_some_iff.mp h
      cases heq
      exact (List.Perm.swap c a l').trans ((ih htake).cons c)

theorem of_takeFirst {α : Type} {p : α → Bool} {l rest : List α} {a : α}
    (h : takeFirst p l = some (a, rest)) : p a := by
  induction l generalizing rest with
  | nil => cases h
  | cons c l ih =>
    rw [takeFirst] at h
    split at h
    · next hp =>
      cases h
      exact hp
    · obtain ⟨⟨b, l'⟩, htake, heq⟩ := Option.map_eq_some_iff.mp h
      cases heq
      exact ih htake

theorem findTriangle_spec {ci cj ck : Cluster} {l rest : List Cluster}
    (h : findTriangle ci l = some (cj, ck, rest)) :
    (1 ≤ shared ci cj ∧ 1 ≤ shared cj ck ∧ 1 ≤ shared ci ck) ∧ (cj :: ck :: rest).Perm l := by
  induction l generalizing rest with
  | nil => cases h
  | cons c l ih =>
    have hskip : (findTriangle ci l).map (fun t ↦ (t.1, t.2.1, c :: t.2.2)) = some (cj, ck, rest) →
        (1 ≤ shared ci cj ∧ 1 ≤ shared cj ck ∧ 1 ≤ shared ci ck) ∧
          (cj :: ck :: rest).Perm (c :: l) := by
      intro hmap
      obtain ⟨⟨a, b, l'⟩, htriangle, heq⟩ := Option.map_eq_some_iff.mp hmap
      dsimp only at heq
      cases heq
      obtain ⟨hshared, hperm⟩ := ih htriangle
      have hfront : (cj :: ck :: c :: l').Perm (c :: cj :: ck :: l') :=
        ((List.Perm.swap c ck l').cons cj).trans (List.Perm.swap c cj (ck :: l'))
      exact ⟨hshared, hfront.trans (hperm.cons c)⟩
    rw [findTriangle] at h
    split at h
    · exact hskip h
    · next hne =>
      rcases htake : takeFirst (fun ck ↦ shared c ck ≥ 1 && shared ci ck ≥ 1) l with
        - | ⟨other, rest'⟩
      · rw [htake] at h
        exact hskip h
      · rw [htake] at h
        cases h
        have hp := of_takeFirst htake
        rw [Bool.and_eq_true, decide_eq_true_eq, decide_eq_true_eq] at hp
        exact ⟨⟨Nat.one_le_iff_ne_zero.mpr hne, hp⟩, (perm_of_takeFirst htake).cons _⟩

theorem mem_union {a b : Cluster} {e : EntityRef} : e ∈ a.union b ↔ e ∈ a ∨ e ∈ b := by
  rw [Cluster.union, OrderedSet.mem_insertMany, Std.ExtTreeSet.mem_toList]

/-- A cluster takes in an entity that loses all of its DOFs to it, or clusters that overlap become
one. -/
theorem growOnce_eq_some (h : d.growOnce clusters = some grown) :
    ∃ before c later rest c', clusters = before ++ c :: later ∧ grown = before ++ c' :: rest ∧
      ((∃ e ∈ d.pool, e ∉ c ∧ d.dofsBetween (c.insert e) (some e) = d.freeOf e ∧
          c' = c.insert e ∧ rest = later) ∨
        (∃ other, 2 ≤ shared c other ∧ c' = c.union other ∧ (other :: rest).Perm later) ∨
        ∃ cj ck, (1 ≤ shared c cj ∧ 1 ≤ shared cj ck ∧ 1 ≤ shared c ck) ∧
          c' = (c.union cj).union ck ∧ (cj :: ck :: rest).Perm later) := by
  rw [growOnce] at h
  -- An extension is tried first, then two clusters, then three.
  rcases hext : onFirst d.extension clusters with - | extended
  · rw [hext] at h
    rcases htwo : onFirst mergeTwo clusters with - | merged
    · rw [htwo] at h
      obtain ⟨before, c, later, changed, rfl, hchanged, rfl⟩ := onFirst_eq_some h
      obtain ⟨⟨cj, ck, rest⟩, htriangle, rfl⟩ := Option.map_eq_some_iff.mp hchanged
      exact ⟨before, c, later, rest, _, rfl, rfl,
        Or.inr (Or.inr ⟨cj, ck, (findTriangle_spec htriangle).1, rfl,
          (findTriangle_spec htriangle).2⟩)⟩
    · rw [htwo] at h
      cases h
      obtain ⟨before, c, later, changed, rfl, hchanged, rfl⟩ := onFirst_eq_some htwo
      obtain ⟨⟨other, rest⟩, htake, rfl⟩ := Option.map_eq_some_iff.mp hchanged
      have hshared : 2 ≤ shared c other := by simpa using of_takeFirst htake
      exact ⟨before, c, later, rest, _, rfl, rfl,
        Or.inr (Or.inl ⟨other, hshared, rfl, perm_of_takeFirst htake⟩)⟩
  · rw [hext] at h
    cases h
    obtain ⟨before, c, later, changed, rfl, hchanged, rfl⟩ := onFirst_eq_some hext
    obtain ⟨c', hone, rfl⟩ := Option.map_eq_some_iff.mp hchanged
    obtain ⟨e, he, hsome⟩ := List.exists_of_findSome?_eq_some hone
    refine ⟨before, c, later, later, c', rfl, rfl, Or.inl ⟨e, he, ?_⟩⟩
    split at hsome
    · cases hsome
    · next hnot =>
      dsimp only at hsome
      split at hsome
      · next hcount =>
        cases hsome
        rw [Bool.and_eq_true, decide_eq_true_eq, decide_eq_true_eq] at hcount
        exact ⟨fun hmem ↦ hnot (Std.ExtTreeSet.contains_iff_mem.mpr hmem), hcount.2, rfl, rfl⟩
      · cases hsome

theorem within_growOnce (h : d.Within clusters)
    (hgrown : d.growOnce clusters = some grown) : d.Within grown := by
  obtain ⟨before, c, later, rest, c', rfl, rfl, hchange⟩ := growOnce_eq_some hgrown
  have hbefore : d.Within before := fun b hb ↦ h b (List.mem_append_left _ hb)
  have hc : ∀ e ∈ c, e ∈ d.pool := h c (List.mem_append_right _ List.mem_cons_self)
  have hlater : d.Within later :=
    fun b hb ↦ h b (List.mem_append_right _ (List.mem_cons_of_mem _ hb))
  have hboth : (∀ e ∈ c', e ∈ d.pool) ∧ d.Within rest := by
    rcases hchange with ⟨e, he, -, -, rfl, rfl⟩ | ⟨other, -, rfl, hperm⟩ |
        ⟨cj, ck, -, rfl, hperm⟩
    · refine ⟨fun v hv ↦ ?_, hlater⟩
      rw [Std.ExtTreeSet.mem_insert, Std.LawfulEqOrd.compare_eq_iff_eq] at hv
      rcases hv with rfl | hv
      · exact he
      · exact hc v hv
    · have hall : d.Within (other :: rest) := fun b hb ↦ hlater b (hperm.mem_iff.mp hb)
      refine ⟨fun v hv ↦ ?_, fun b hb ↦ hall b (List.mem_cons_of_mem _ hb)⟩
      rcases mem_union.mp hv with hv | hv
      · exact hc v hv
      · exact hall other List.mem_cons_self v hv
    · have hall : d.Within (cj :: ck :: rest) := fun b hb ↦ hlater b (hperm.mem_iff.mp hb)
      refine ⟨fun v hv ↦ ?_, fun b hb ↦
        hall b (List.mem_cons_of_mem _ (List.mem_cons_of_mem _ hb))⟩
      rcases mem_union.mp hv with hv | hv
      · rcases mem_union.mp hv with hv | hv
        · exact hc v hv
        · exact hall cj List.mem_cons_self v hv
      · exact hall ck (List.mem_cons_of_mem _ List.mem_cons_self) v hv
  intro b hb
  rcases List.mem_append.mp hb with hb | hb
  · exact hbefore b hb
  · rcases List.mem_cons.mp hb with rfl | hb
    · exact hboth.1
    · exact hboth.2 b hb

theorem within_sortClusters (h : d.Within clusters) :
    d.Within (sortClusters clusters) :=
  fun c hc ↦ h c ((List.mem_insertionSort _).mp hc)

theorem within_grow (h : d.Within clusters) (bound : ℕ) :
    d.Within (d.grow bound clusters) := by
  induction bound generalizing clusters with
  | zero => exact h
  | succ bound ih =>
    rw [grow]
    rcases hgrown : d.growOnce (sortClusters clusters) with - | grown
    · exact within_sortClusters h
    · exact ih (within_growOnce (within_sortClusters h) hgrown)

theorem within_discoverRigidClusters (d : Discovery) : d.Within d.discoverRigidClusters := by
  rw [discoverRigidClusters]
  split
  · intro c hc
    cases hc
  · exact within_grow d.within_pairSeeds _

/-! ## The rounds of cluster formation end by themselves -/

/-- What a cluster contributes to the growth left. -/
def room (d : Discovery) (c : Cluster) : ℕ := (d.pool.filter fun e ↦ !c.contains e).length

theorem growth_append (a b : List Cluster) : d.growth (a ++ b) = d.growth a + d.growth b := by
  rw [growth, growth, growth, List.map_append, List.sum_append]

theorem growth_cons (c : Cluster) (l : List Cluster) :
    d.growth (c :: l) = d.room c + 1 + d.growth l := by
  rw [growth, List.map_cons, List.sum_cons]
  rfl

theorem growth_perm {a b : List Cluster} (h : a.Perm b) : d.growth a = d.growth b :=
  (h.map _).sum_nat

theorem room_le_of_subset {a b : Cluster} (h : ∀ e ∈ a, e ∈ b) : d.room b ≤ d.room a := by
  refine (List.monotone_filter_right _ fun e he ↦ ?_).length_le
  rw [Bool.not_eq_true', ← Bool.not_eq_true, Std.ExtTreeSet.contains_iff_mem] at he ⊢
  exact fun ha ↦ he (h e ha)

theorem room_insert_lt {c : Cluster} {e : EntityRef} (he : e ∈ d.pool) (hc : e ∉ c) :
    d.room (c.insert e) < d.room c := by
  have hfilter : (d.pool.filter fun v ↦ !(c.insert e).contains v) =
      (d.pool.filter fun v ↦ !c.contains v).filter (· ≠ e) := by
    rw [List.filter_filter]
    refine List.filter_congr fun v _ ↦ ?_
    rw [Std.ExtTreeSet.contains_insert]
    by_cases hv : v = e
    · simp [hv]
    · have hne : (compare e v == .eq) = false := by
        simpa [Std.LawfulEqOrd.compare_eq_iff_eq] using Ne.symm hv
      simp [hv, hne]
  rw [room, room, hfilter, List.length_filter_lt_length_iff_exists]
  refine ⟨e, List.mem_filter.mpr ⟨he, ?_⟩, by simp⟩
  rw [Bool.not_eq_true', ← Bool.not_eq_true, Std.ExtTreeSet.contains_iff_mem]
  exact hc

theorem growth_lt_of_growOnce
    (h : d.growOnce clusters = some grown) : d.growth grown < d.growth clusters := by
  obtain ⟨before, c, later, rest, c', rfl, rfl, hchange⟩ := growOnce_eq_some h
  rw [growth_append, growth_append, growth_cons, growth_cons]
  rcases hchange with ⟨e, he, hnot, -, rfl, rfl⟩ | ⟨other, -, rfl, hperm⟩ |
    ⟨cj, ck, -, rfl, hperm⟩
  · have hlt := room_insert_lt he hnot
    omega
  · have hroom : d.room (c.union other) ≤ d.room c :=
      room_le_of_subset fun e he ↦ mem_union.mpr (Or.inl he)
    have hsum := growth_perm (d := d) hperm
    rw [growth_cons] at hsum
    omega
  · have hroom : d.room ((c.union cj).union ck) ≤ d.room c :=
      room_le_of_subset fun e he ↦ mem_union.mpr (Or.inl (mem_union.mpr (Or.inl he)))
    have hsum := growth_perm (d := d) hperm
    rw [growth_cons, growth_cons] at hsum
    omega

theorem growOnce_grow {bound : ℕ} (hbound : d.growth clusters < bound) :
    d.growOnce (d.grow bound clusters) = none := by
  induction bound generalizing clusters with
  | zero => exact absurd hbound (Nat.not_lt_zero _)
  | succ bound ih =>
    rw [grow]
    rcases hgrown : d.growOnce (sortClusters clusters) with - | grown
    · exact hgrown
    · refine ih ?_
      have hlt := growth_lt_of_growOnce hgrown
      rw [sortClusters, growth_perm (List.perm_insertionSort _ clusters)] at hlt
      omega

/-- **Cluster formation ends by itself**: no rule applies to the clusters it returns. -/
theorem growOnce_discoverRigidClusters (d : Discovery) :
    d.growOnce d.discoverRigidClusters = none := by
  rw [discoverRigidClusters]
  split
  · rfl
  · exact growOnce_grow (Nat.lt_succ_self _)

end Discovery

end RosheraCad.Sketch
