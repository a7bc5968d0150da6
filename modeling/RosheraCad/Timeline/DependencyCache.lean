import RosheraCad.Library.Kahn
import RosheraCad.Library.Search
import RosheraCad.Types

/-!
# The cache of dependencies

Each cached entity has two lists: what it depends on, and what depends on it. Whatever depends on a
changed entity has its closure cleared, by a recursion that remembers nothing. The closure itself is
computed with a stack, and lists an entity where it is put there.
-/

namespace RosheraCad

structure CachedDependencies (D : Type) where
  directDependencies : List (EntityId × D)
  reverseDependencies : List (EntityId × D)
  transitiveDependencies : List EntityId
  dependencyDepth : ℕ

/-- The counters that dropping an entry changes. -/
structure DependencyStats where
  itemCount : ℕ
  sizeBytes : ℕ

/-- What the compiler takes for a record, an entity id and a type of dependency. -/
structure DependencySizes where
  record : ℕ
  entityId : ℕ
  dependencyType : ℕ

structure DependencyCache (D : Type) where
  entityDeps : OrderedMap EntityId (CachedDependencies D)
  stats : DependencyStats

variable {D : Type}

def estimateDepsSize (sizes : DependencySizes) (deps : CachedDependencies D) : ℕ :=
  sizes.record + deps.directDependencies.length * (sizes.entityId + sizes.dependencyType) +
    deps.reverseDependencies.length * (sizes.entityId + sizes.dependencyType) +
    deps.transitiveDependencies.length * sizes.entityId

namespace DependencyCache

def new : DependencyCache D := ⟨∅, ⟨0, 0⟩⟩

def pushNew (list : List (EntityId × D)) (id : EntityId) (depType : D) : List (EntityId × D) :=
  if list.any fun (e, _) ↦ e = id then list else list ++ [(id, depType)]

def addDirect (s : DependencyCache D) (dependent dependency : EntityId) (depType : D) :
    DependencyCache D :=
  { s with
    entityDeps := s.entityDeps.insert dependent <| match s.entityDeps[dependent]? with
      | some deps =>
        { deps with
          directDependencies := pushNew deps.directDependencies dependency depType }
      | none => ⟨[(dependency, depType)], [], [], 0⟩ }

def addReverse (s : DependencyCache D) (dependent dependency : EntityId) (depType : D) :
    DependencyCache D :=
  { s with
    entityDeps := s.entityDeps.insert dependency <| match s.entityDeps[dependency]? with
      | some deps =>
        { deps with
          reverseDependencies := pushNew deps.reverseDependencies dependent depType }
      | none => ⟨[], [(dependent, depType)], [], 0⟩ }

def clearTransitive (s : DependencyCache D) (entityId : EntityId) : DependencyCache D :=
  { s with
    entityDeps := s.entityDeps.modify entityId fun deps ↦
      { deps with transitiveDependencies := [], dependencyDepth := 0 } }

def invalidateTransitiveDeps : ℕ → DependencyCache D → EntityId → Option (DependencyCache D)
  | 0, _, _ => none
  | fuel + 1, s, entityId =>
    let s := s.clearTransitive entityId
    match s.entityDeps[entityId]? with
    | some deps =>
      deps.reverseDependencies.foldlM
        (fun s (dependent, _) ↦ invalidateTransitiveDeps fuel s dependent) s
    | none => some s

def addDependency (fuel : ℕ) (s : DependencyCache D) (dependent dependency : EntityId)
    (depType : D) : Option (DependencyCache D) :=
  invalidateTransitiveDeps fuel
    ((s.addDirect dependent dependency depType).addReverse dependent dependency depType) dependent

def dropLinks (s : DependencyCache D) (dependent dependency : EntityId) : DependencyCache D :=
  let direct := s.entityDeps.modify dependent fun deps ↦
    { deps with
      directDependencies := deps.directDependencies.filter fun (e, _) ↦ e ≠ dependency }
  { s with
    entityDeps := direct.modify dependency fun deps ↦
      { deps with
        reverseDependencies := deps.reverseDependencies.filter fun (e, _) ↦ e ≠ dependent } }

def removeDependency (fuel : ℕ) (s : DependencyCache D) (dependent dependency : EntityId) :
    Option (DependencyCache D) :=
  invalidateTransitiveDeps fuel (s.dropLinks dependent dependency) dependent

def dropEntity (sizes : DependencySizes) (s : DependencyCache D) (entityId : EntityId)
    (deps : CachedDependencies D) : DependencyCache D where
  entityDeps := s.entityDeps.erase entityId
  stats :=
    { itemCount := s.stats.itemCount - 1
      sizeBytes := s.stats.sizeBytes - estimateDepsSize sizes deps }

def invalidateEntity (sizes : DependencySizes) (fuel : ℕ) (s : DependencyCache D)
    (entityId : EntityId) : Option (DependencyCache D) :=
  match s.entityDeps[entityId]? with
  | none => some s
  | some deps =>
    deps.reverseDependencies.foldlM
      (fun s (dependent, _) ↦ invalidateTransitiveDeps fuel s dependent)
      (s.dropEntity sizes entityId deps)

def entryOf (s : DependencyCache D) (e : EntityId) : CachedDependencies D :=
  s.entityDeps[e]?.getD ⟨[], [], [], 0⟩

def directOf (s : DependencyCache D) (e : EntityId) : List EntityId :=
  (s.entryOf e).directDependencies.map Prod.fst

def reverseOf (s : DependencyCache D) (e : EntityId) : List EntityId :=
  (s.entryOf e).reverseDependencies.map Prod.fst

def calculateTransitiveDeps (fuel : ℕ) (s : DependencyCache D) (entityId : EntityId) :
    Option (List EntityId) :=
  Search.listing s.directOf fuel [] [entityId] []

/-! ## The lists after a change -/

variable {e : EntityId}

section

variable {s s' : DependencyCache D} {a b x y : EntityId} {t : D}

abbrev Cached (s : DependencyCache D) (e : EntityId) : Prop := e ∈ s.entityDeps

theorem entryOf_of_not_cached (h : ¬ s.Cached x) : s.entryOf x = ⟨[], [], [], 0⟩ := by
  rw [entryOf, OrderedMap.not_mem_iff.mp h]
  rfl

theorem cached_of_mem_directOf (h : y ∈ s.directOf x) : s.Cached x := by
  by_contra hx
  rw [directOf, entryOf_of_not_cached hx] at h
  exact List.not_mem_nil h

theorem cached_of_mem_reverseOf (h : y ∈ s.reverseOf x) : s.Cached x := by
  by_contra hx
  rw [reverseOf, entryOf_of_not_cached hx] at h
  exact List.not_mem_nil h

section

variable (m : OrderedMap EntityId (CachedDependencies D))

include m

section

variable (stats : DependencyStats)

include stats

theorem entryOf_insert (e x : EntityId) (deps : CachedDependencies D) :
    entryOf ⟨m.insert e deps, stats⟩ x = if x = e then deps else entryOf ⟨m, stats⟩ x := by
  rw [entryOf, OrderedMap.lookup_insert, apply_ite (Option.getD · _)]
  rfl

theorem entryOf_modify (e x : EntityId) {f : CachedDependencies D → CachedDependencies D}
    (hf : f ⟨[], [], [], 0⟩ = ⟨[], [], [], 0⟩) :
    entryOf ⟨m.modify e f, stats⟩ x =
      if x = e then f (entryOf ⟨m, stats⟩ e) else entryOf ⟨m, stats⟩ x := by
  rw [entryOf, Std.ExtTreeMap.getElem?_modify]
  by_cases hx : x = e
  · subst hx
    rw [if_pos Std.ReflOrd.compare_self, if_pos rfl, entryOf]
    cases m[x]? with
    | none => exact hf.symm
    | some deps => rfl
  · rw [if_neg (by simpa using Ne.symm hx), if_neg hx]
    rfl

theorem cached_insert (e x : EntityId) (deps : CachedDependencies D) :
    Cached ⟨m.insert e deps, stats⟩ x ↔ x = e ∨ Cached ⟨m, stats⟩ x := by
  rw [Cached, Std.ExtTreeMap.mem_insert, Std.LawfulEqOrd.compare_eq_iff_eq, eq_comm]

theorem cached_modify (e x : EntityId) (f : CachedDependencies D → CachedDependencies D) :
    Cached ⟨m.modify e f, stats⟩ x ↔ Cached ⟨m, stats⟩ x :=
  Std.ExtTreeMap.mem_modify

end

end

theorem map_pushNew (list : List (EntityId × D)) (id : EntityId) (depType : D) :
    (pushNew list id depType).map Prod.fst =
      if id ∈ list.map Prod.fst then list.map Prod.fst else list.map Prod.fst ++ [id] := by
  have hany : (list.any fun (e, _) ↦ e = id) = true ↔ id ∈ list.map Prod.fst := by
    simp [List.any_eq_true]
  rw [pushNew]
  by_cases hmem : id ∈ list.map Prod.fst
  · rw [if_pos (hany.mpr hmem), if_pos hmem]
  · rw [if_neg (mt hany.mp hmem), if_neg hmem, List.map_append]
    rfl

theorem entryOf_addDirect : (s.addDirect a b t).entryOf x =
    if x = a then { s.entryOf a with
      directDependencies := pushNew (s.entryOf a).directDependencies b t } else s.entryOf x := by
  rw [addDirect, entryOf_insert]
  refine if_congr Iff.rfl ?_ rfl
  cases hget : s.entityDeps[a]? <;> simp only [entryOf, hget] <;> rfl

theorem entryOf_addReverse : (s.addReverse a b t).entryOf x =
    if x = b then { s.entryOf b with
      reverseDependencies := pushNew (s.entryOf b).reverseDependencies a t } else s.entryOf x := by
  rw [addReverse, entryOf_insert]
  refine if_congr Iff.rfl ?_ rfl
  cases hget : s.entityDeps[b]? <;> simp only [entryOf, hget] <;> rfl

def addLinks (s : DependencyCache D) (dependent dependency : EntityId) (depType : D) :
    DependencyCache D :=
  (s.addDirect dependent dependency depType).addReverse dependent dependency depType

theorem directOf_addLinks : (s.addLinks a b t).directOf x =
    if x = a ∧ b ∉ s.directOf a then s.directOf a ++ [b] else s.directOf x := by
  have hdirect : (s.addLinks a b t).directOf x = (s.addDirect a b t).directOf x := by
    rw [addLinks, directOf, entryOf_addReverse, apply_ite CachedDependencies.directDependencies]
    by_cases hx : x = b
    · rw [if_pos hx, hx, directOf]
    · rw [if_neg hx, directOf]
  rw [hdirect, directOf, entryOf_addDirect]
  by_cases hx : x = a
  · subst hx
    rw [if_pos rfl, map_pushNew, ← directOf]
    by_cases hmem : b ∈ s.directOf x
    · rw [if_pos hmem, if_neg fun h ↦ h.2 hmem]
    · rw [if_neg hmem, if_pos ⟨rfl, hmem⟩]
  · rw [if_neg hx, if_neg fun h ↦ hx h.1, directOf]

theorem mem_directOf_addLinks :
    y ∈ (s.addLinks a b t).directOf x ↔ y ∈ s.directOf x ∨ x = a ∧ y = b := by
  rw [directOf_addLinks]
  by_cases hx : x = a
  · subst hx
    by_cases hmem : b ∈ s.directOf x
    · rw [if_neg fun h ↦ h.2 hmem]
      refine ⟨Or.inl, ?_⟩
      rintro (h | ⟨-, rfl⟩)
      · exact h
      · exact hmem
    · rw [if_pos ⟨rfl, hmem⟩, List.mem_append, List.mem_singleton, eq_self, true_and]
  · rw [if_neg fun h ↦ hx h.1, or_iff_left fun h ↦ hx h.1]

theorem mem_reverseOf_addLinks :
    y ∈ (s.addLinks a b t).reverseOf x ↔ y ∈ s.reverseOf x ∨ x = b ∧ y = a := by
  have hold : ∀ z, (s.addDirect a b t).reverseOf z = s.reverseOf z := by
    intro z
    rw [reverseOf, entryOf_addDirect, apply_ite CachedDependencies.reverseDependencies]
    by_cases hz : z = a
    · rw [if_pos hz, hz, reverseOf]
    · rw [if_neg hz, reverseOf]
  rw [addLinks, reverseOf, entryOf_addReverse]
  by_cases hx : x = b
  · subst hx
    rw [if_pos rfl, map_pushNew, ← reverseOf, hold, eq_self, true_and]
    split_ifs with hmem
    · refine ⟨Or.inl, ?_⟩
      rintro (h | rfl)
      · exact h
      · exact hmem
    · rw [List.mem_append, List.mem_singleton]
  · rw [if_neg hx, ← reverseOf, hold, or_iff_left fun h ↦ hx h.1]

theorem cached_addLinks : (s.addLinks a b t).Cached x ↔ x = b ∨ x = a ∨ s.Cached x := by
  rw [addLinks, addReverse, cached_insert]
  exact or_congr_right (cached_insert ..)

theorem directOf_dropLinks : (s.dropLinks a b).directOf x =
    if x = a then (s.directOf a).filter (· ≠ b) else s.directOf x := by
  have hdirect (m : OrderedMap EntityId (CachedDependencies D)) (stats : DependencyStats) :
      directOf ⟨m.modify b fun deps ↦ { deps with
        reverseDependencies := deps.reverseDependencies.filter fun (e, _) ↦ e ≠ a }, stats⟩ x =
        directOf ⟨m, stats⟩ x := by
    rw [directOf, entryOf_modify _ _ _ _ rfl]
    by_cases hx : x = b
    · rw [if_pos hx, hx]
      rfl
    · rw [if_neg hx]
      rfl
  rw [dropLinks, hdirect, directOf, entryOf_modify _ _ _ _ rfl]
  by_cases hx : x = a
  · rw [if_pos hx, if_pos hx, directOf, List.filter_map]
    rfl
  · rw [if_neg hx, if_neg hx]
    rfl

theorem reverseOf_dropLinks : (s.dropLinks a b).reverseOf x =
    if x = b then (s.reverseOf b).filter (· ≠ a) else s.reverseOf x := by
  have hreverse (z : EntityId) : reverseOf ⟨s.entityDeps.modify a fun deps ↦ { deps with
      directDependencies := deps.directDependencies.filter fun (e, _) ↦ e ≠ b }, s.stats⟩ z =
        s.reverseOf z := by
    rw [reverseOf, entryOf_modify _ _ _ _ rfl]
    by_cases hz : z = a
    · rw [if_pos hz, hz]
      rfl
    · rw [if_neg hz]
      rfl
  rw [dropLinks, reverseOf, entryOf_modify _ _ _ _ rfl]
  by_cases hx : x = b
  · rw [if_pos hx, if_pos hx, ← hreverse b, reverseOf, List.filter_map]
    rfl
  · rw [if_neg hx, if_neg hx]
    exact hreverse x

theorem cached_dropLinks : (s.dropLinks a b).Cached x ↔ s.Cached x := by
  rw [dropLinks, cached_modify, cached_modify]

section

variable {sizes : DependencySizes} {deps : CachedDependencies D}

theorem entryOf_dropEntity : (s.dropEntity sizes a deps).entryOf x =
    if x = a then ⟨[], [], [], 0⟩ else s.entryOf x := by
  rw [entryOf, dropEntity, OrderedMap.lookup_erase]
  by_cases hx : x = a
  · rw [if_pos hx, if_pos hx]
    rfl
  · rw [if_neg hx, if_neg hx]
    rfl

theorem directOf_dropEntity : (s.dropEntity sizes a deps).directOf x =
    if x = a then [] else s.directOf x := by
  rw [directOf, entryOf_dropEntity]
  split_ifs <;> rfl

theorem reverseOf_dropEntity : (s.dropEntity sizes a deps).reverseOf x =
    if x = a then [] else s.reverseOf x := by
  rw [reverseOf, entryOf_dropEntity]
  split_ifs <;> rfl

theorem cached_dropEntity : (s.dropEntity sizes a deps).Cached x ↔ x ≠ a ∧ s.Cached x := by
  rw [Cached, dropEntity, Std.ExtTreeMap.mem_erase, ne_eq, Std.LawfulEqOrd.compare_eq_iff_eq,
    eq_comm, Cached]

end

/-! ## Clearing closures -/

structure SameLinks (s s' : DependencyCache D) : Prop where
  direct : s'.directOf = s.directOf
  reverse : s'.reverseOf = s.reverseOf
  cached : ∀ x, s'.Cached x ↔ s.Cached x

theorem SameLinks.refl (s : DependencyCache D) : SameLinks s s := ⟨rfl, rfl, fun _ ↦ Iff.rfl⟩

theorem SameLinks.trans {s'' : DependencyCache D} (h : SameLinks s s') (h' : SameLinks s' s'') :
    SameLinks s s'' :=
  ⟨h'.direct.trans h.direct, h'.reverse.trans h.reverse,
    fun x ↦ (h'.cached x).trans (h.cached x)⟩

theorem sameLinks_clearTransitive (s : DependencyCache D) (e : EntityId) :
    SameLinks s (s.clearTransitive e) := by
  have hentry (x : EntityId) : (s.clearTransitive e).entryOf x = if x = e then
      { s.entryOf e with transitiveDependencies := [], dependencyDepth := 0 } else s.entryOf x :=
    entryOf_modify _ _ _ _ rfl
  refine ⟨funext fun x ↦ ?_, funext fun x ↦ ?_, fun x ↦ cached_modify ..⟩
  · rw [directOf, hentry]
    split_ifs with hx
    · rw [hx, directOf]
    · rfl
  · rw [reverseOf, hentry]
    split_ifs with hx
    · rw [hx, reverseOf]
    · rfl

theorem invalidateTransitiveDeps_succ (fuel : ℕ) (s : DependencyCache D) (e : EntityId) :
    invalidateTransitiveDeps (fuel + 1) s e =
      (s.reverseOf e).foldlM (invalidateTransitiveDeps fuel) (s.clearTransitive e) := by
  have hreverse := congrFun (sameLinks_clearTransitive s e).reverse e
  rw [invalidateTransitiveDeps, ← hreverse, reverseOf, entryOf, List.foldlM_map]
  cases (s.clearTransitive e).entityDeps[e]? <;> rfl

def Below (s : DependencyCache D) (y x : EntityId) : Prop := y ∈ s.reverseOf x

section

variable {f : DependencyCache D → EntityId → Option (DependencyCache D)} {ids : List EntityId}

section

variable (hf : ∀ r e r', f r e = some r' → SameLinks r r')

include hf

theorem foldlM_sameLinks (h : ids.foldlM f s = some s') : SameLinks s s' := by
  induction ids generalizing s with
  | nil =>
    obtain rfl := Option.some.inj h
    exact .refl s
  | cons e ids ih =>
    obtain ⟨r, hr, hrest⟩ := Option.bind_eq_some_iff.mp h
    exact (hf s e r hr).trans (ih hrest)

theorem exists_of_foldlM (h : ids.foldlM f s = some s') (he : e ∈ ids) :
    ∃ r r', SameLinks s r ∧ f r e = some r' := by
  induction ids generalizing s with
  | nil => exact absurd he List.not_mem_nil
  | cons a ids ih =>
    obtain ⟨r, hr, hrest⟩ := Option.bind_eq_some_iff.mp h
    rcases List.mem_cons.mp he with rfl | he
    · exact ⟨s, r, .refl s, hr⟩
    · obtain ⟨q, q', hq, hq'⟩ := ih hrest he
      exact ⟨q, q', (hf s a r hr).trans hq, hq'⟩

theorem exists_foldlM
    (h : ∀ e ∈ ids, ∀ r, SameLinks s r → ∃ r', f r e = some r') {r : DependencyCache D}
    (hr : SameLinks s r) : ∃ r', ids.foldlM f r = some r' := by
  induction ids generalizing r with
  | nil => exact ⟨r, rfl⟩
  | cons a ids ih =>
    obtain ⟨q, hq⟩ := h a List.mem_cons_self r hr
    obtain ⟨q', hq'⟩ := ih (fun e he ↦ h e (List.mem_cons_of_mem a he)) (hr.trans (hf r a q hq))
    exact ⟨q', Option.bind_eq_some_iff.mpr ⟨q, hq, hq'⟩⟩

end

end

theorem foldlM_mono {f g : DependencyCache D → EntityId → Option (DependencyCache D)}
    {ids : List EntityId} (hfg : ∀ r e r', f r e = some r' → g r e = some r')
    (h : ids.foldlM f s = some s') : ids.foldlM g s = some s' := by
  induction ids generalizing s with
  | nil => exact h
  | cons e ids ih =>
    obtain ⟨r, hr, hrest⟩ := Option.bind_eq_some_iff.mp h
    exact Option.bind_eq_some_iff.mpr ⟨r, hfg s e r hr, ih hrest⟩

theorem sameLinks_of_invalidate {fuel : ℕ}
    (h : invalidateTransitiveDeps fuel s e = some s') : SameLinks s s' := by
  induction fuel generalizing s s' e with
  | zero => exact absurd h (Option.some_ne_none s').symm
  | succ fuel ih =>
    rw [invalidateTransitiveDeps_succ] at h
    exact (sameLinks_clearTransitive s e).trans (foldlM_sameLinks (fun _ _ _ ↦ ih) h)

theorem SameLinks.below (h : SameLinks s s') : s'.Below = s.Below := by
  funext y x
  rw [Below, h.reverse, Below]

theorem acc_of_invalidate {fuel : ℕ}
    (h : invalidateTransitiveDeps fuel s e = some s') : Acc s.Below e := by
  induction fuel generalizing s s' e with
  | zero => exact absurd h (Option.some_ne_none s').symm
  | succ fuel ih =>
    rw [invalidateTransitiveDeps_succ] at h
    refine ⟨e, fun d hd ↦ ?_⟩
    obtain ⟨r, r', hr, hr'⟩ := exists_of_foldlM (fun _ _ _ ↦ sameLinks_of_invalidate) h hd
    have hacc := ih hr'
    rwa [((sameLinks_clearTransitive s e).trans hr).below] at hacc

theorem exists_bound {P : EntityId → ℕ → Prop} (ids : List EntityId)
    (h : ∀ e ∈ ids, ∃ n, ∀ fuel, n ≤ fuel → P e fuel) :
    ∃ n, ∀ fuel, n ≤ fuel → ∀ e ∈ ids, P e fuel := by
  induction ids with
  | nil => exact ⟨0, fun _ _ _ he ↦ absurd he List.not_mem_nil⟩
  | cons a ids ih =>
    obtain ⟨n, hn⟩ := ih fun e he ↦ h e (List.mem_cons_of_mem a he)
    obtain ⟨k, hk⟩ := h a List.mem_cons_self
    refine ⟨max n k, fun fuel hfuel e he ↦ ?_⟩
    rcases List.mem_cons.mp he with rfl | he
    · exact hk fuel ((le_max_right n k).trans hfuel)
    · exact hn fuel ((le_max_left n k).trans hfuel) e he

theorem exists_invalidate (h : Acc s.Below e) :
    ∃ n, ∀ fuel, n ≤ fuel → ∀ r, SameLinks s r →
      ∃ r', invalidateTransitiveDeps fuel r e = some r' := by
  induction h with
  | intro e _ ih =>
    obtain ⟨n, hn⟩ := exists_bound (s.reverseOf e) ih
    refine ⟨n + 1, fun fuel hfuel r hr ↦ ?_⟩
    obtain ⟨fuel, rfl⟩ := Nat.exists_eq_add_of_le' (Nat.le_of_add_left_le hfuel : 1 ≤ fuel)
    rw [invalidateTransitiveDeps_succ, hr.reverse]
    exact exists_foldlM (fun _ _ _ ↦ sameLinks_of_invalidate) (hn fuel (by omega))
      (hr.trans (sameLinks_clearTransitive r e))

theorem invalidate_mono {fuel fuel' : ℕ} (hle : fuel ≤ fuel')
    (h : invalidateTransitiveDeps fuel s e = some s') :
    invalidateTransitiveDeps fuel' s e = some s' := by
  induction fuel generalizing s s' e fuel' with
  | zero => exact absurd h (Option.some_ne_none s').symm
  | succ fuel ih =>
    obtain ⟨fuel', rfl⟩ := Nat.exists_eq_add_of_le' (Nat.le_of_add_left_le hle : 1 ≤ fuel')
    rw [invalidateTransitiveDeps_succ] at h ⊢
    exact foldlM_mono (fun _ _ _ ↦ ih (by omega)) h

end

/-! ## What is asked of the cache -/

abbrev Direct (s : DependencyCache D) : EntityId → EntityId → Prop := Search.Step s.directOf

def Mirrored (s : DependencyCache D) : Prop :=
  ∀ a b, s.Cached a → s.Cached b → (b ∈ s.directOf a ↔ a ∈ s.reverseOf b)

/-- The lists agree, and the closure of an entity has whatever it depends on, each once. -/
structure Good (s : DependencyCache D) : Prop where
  mirrored : s.Mirrored
  transitive : ∀ e, ∃ n, ∀ fuel, n ≤ fuel → ∃ listed,
    s.calculateTransitiveDeps fuel e = some listed ∧ listed.Nodup ∧
      ∀ x, x ∈ listed ↔ Relation.TransGen s.Direct e x

structure Inv (s : DependencyCache D) : Prop where
  nodup : ∀ x, (s.directOf x).Nodup
  mirrored : s.Mirrored
  wellFounded : WellFounded s.Below
  ordered : Search.Ordered s.directOf

section

variable {s s' : DependencyCache D} {a b x y : EntityId} {t : D}

theorem Good.of_sameLinks (h : SameLinks s s') (hs : s.Good) : s'.Good where
  mirrored a b ha hb := by
    rw [h.direct, h.reverse]
    exact hs.mirrored a b ((h.cached a).mp ha) ((h.cached b).mp hb)
  transitive := by
    rw [Direct, h.direct]
    simp only [calculateTransitiveDeps, h.direct]
    exact hs.transitive

theorem SameLinks.symm (h : SameLinks s s') : SameLinks s' s :=
  ⟨h.direct.symm, h.reverse.symm, fun x ↦ (h.cached x).symm⟩

theorem Inv.of_sameLinks (h : SameLinks s s') (hs : s.Inv) : s'.Inv where
  nodup := by
    rw [h.direct]
    exact hs.nodup
  mirrored a b ha hb := by
    rw [h.direct, h.reverse]
    exact hs.mirrored a b ((h.cached a).mp ha) ((h.cached b).mp hb)
  wellFounded := by
    rw [h.below]
    exact hs.wellFounded
  ordered := by
    rw [h.direct]
    exact hs.ordered

theorem Mirrored.transGen_below (h : s.Mirrored) (hpath : Relation.TransGen s.Direct x y)
    (hy : s.Cached y) : Relation.TransGen s.Below x y := by
  induction hpath using Relation.TransGen.head_induction_on with
  | single hab => exact .single ((h _ _ (cached_of_mem_directOf hab) hy).mp hab)
  | @head a c hac hcy ih =>
    obtain ⟨d, hcd, -⟩ := Relation.TransGen.head'_iff.mp hcy
    exact .head ((h _ _ (cached_of_mem_directOf hac) (cached_of_mem_directOf hcd)).mp hac) ih

theorem Mirrored.acyclic (h : s.Mirrored) (hwf : WellFounded s.Below) : Acyclic s.Direct := by
  intro x hx
  obtain ⟨y, hxy, -⟩ := Relation.TransGen.head'_iff.mp hx
  exact hwf.transGen.irrefl.irrefl x (h.transGen_below hx (cached_of_mem_directOf hxy))

theorem Inv.acyclic (h : s.Inv) : Acyclic s.Direct := h.mirrored.acyclic h.wellFounded

def support (s : DependencyCache D) (e : EntityId) : List EntityId :=
  e :: s.entityDeps.keys.flatMap s.directOf

theorem mem_support (h : Relation.ReflTransGen s.Direct e x) : x ∈ s.support e := by
  rcases Relation.ReflTransGen.cases_tail h with rfl | ⟨y, -, hyx⟩
  · exact List.mem_cons_self
  · exact List.mem_cons_of_mem _ (List.mem_flatMap.mpr
      ⟨y, Std.ExtTreeMap.mem_keys.mpr (cached_of_mem_directOf hyx), hyx⟩)

theorem Inv.good (h : s.Inv) : s.Good where
  mirrored := h.mirrored
  transitive e := by
    refine ⟨1 + ((s.support e).flatMap s.directOf).length + 1, fun fuel hfuel ↦ ?_⟩
    obtain ⟨listed, hlisting, hlisted⟩ :=
      Search.listing_spec (s.support e) (fun _ ↦ mem_support) (h.acyclic e) hfuel
    exact ⟨listed, hlisting, Search.listing_nodup (s.support e) (fun _ ↦ mem_support) h.nodup
      h.ordered hfuel hlisting, hlisted⟩

/-- A closure that lists nothing twice: nothing comes after something that it depends on. -/
theorem Good.ordered (h : s.Good) (hnodup : ∀ x, (s.directOf x).Nodup)
    (hacyclic : Acyclic s.Direct) : Search.Ordered s.directOf := by
  intro x p q hbefore hqp
  obtain ⟨n, hn⟩ := h.transitive x
  obtain ⟨listed, hlisting, hlisted, -⟩ :=
    hn (max n (1 + ((s.support x).flatMap s.directOf).length + 1)) (le_max_left _ _)
  have hq : Search.Step s.directOf x q :=
    hbefore.subset (List.mem_cons_of_mem p List.mem_cons_self)
  exact Search.listing_not_nodup hacyclic hq hqp (s.support x) (fun _ ↦ mem_support) (hnodup x)
    hbefore (Nat.lt_of_succ_le (le_max_right _ _)) hlisting hlisted

/-- Dropping entities from lists keeps the invariant, where the lists agree afterwards. -/
theorem Inv.of_sublists (h : s.Inv) (hdirect : ∀ x, (s'.directOf x).Sublist (s.directOf x))
    (hreverse : ∀ x, s'.reverseOf x ⊆ s.reverseOf x) (hmirrored : s'.Mirrored) : s'.Inv where
  nodup x := (h.nodup x).sublist (hdirect x)
  mirrored := hmirrored
  wellFounded := Subrelation.wf (fun hyx ↦ hreverse _ hyx) h.wellFounded
  ordered x p q hbefore hqp :=
    h.ordered x p q (hbefore.trans (hdirect x))
      (Relation.TransGen.mono (fun _ _ hab ↦ (hdirect _).subset hab) _ _ hqp)

theorem Inv.dropLinks (h : s.Inv) : (s.dropLinks a b).Inv := by
  refine h.of_sublists (fun x ↦ ?_) (fun x ↦ ?_) fun x y hx hy ↦ ?_
  · rw [directOf_dropLinks]
    split_ifs with hx
    · rw [hx]
      exact List.filter_sublist
    · exact List.Sublist.refl _
  · rw [reverseOf_dropLinks]
    split_ifs with hx
    · rw [hx]
      exact List.filter_sublist.subset
    · exact List.Subset.refl _
  · have hold := h.mirrored x y (cached_dropLinks.mp hx) (cached_dropLinks.mp hy)
    rw [directOf_dropLinks, reverseOf_dropLinks]
    split_ifs with hxa hyb hyb
    · subst hxa hyb
      simp
    · subst hxa
      simp [hold, hyb]
    · subst hyb
      simp [hold, hxa]
    · exact hold

theorem Inv.dropEntity {sizes : DependencySizes} {deps : CachedDependencies D} (h : s.Inv) :
    (s.dropEntity sizes a deps).Inv := by
  refine h.of_sublists (fun x ↦ ?_) (fun x ↦ ?_) fun x y hx hy ↦ ?_
  · rw [directOf_dropEntity]
    split_ifs with hx
    · exact List.nil_sublist _
    · exact List.Sublist.refl _
  · rw [reverseOf_dropEntity]
    split_ifs with hx
    · exact List.nil_subset _
    · exact List.Subset.refl _
  · obtain ⟨hxa, hx⟩ := cached_dropEntity.mp hx
    obtain ⟨hya, hy⟩ := cached_dropEntity.mp hy
    rw [directOf_dropEntity, reverseOf_dropEntity, if_neg hxa, if_neg hya]
    exact h.mirrored x y hx hy

/-! ## Adding a dependency -/

/-- It closes no cycle, a list made for it is complete, and nothing is listed before its dependents.
-/
structure CleanAdd (s : DependencyCache D) (a b : EntityId) : Prop where
  acyclic : ¬ Relation.ReflTransGen s.Direct b a
  dependent : ¬ s.Cached a → ∀ y, s.Cached y → a ∉ s.directOf y ∧ (a ∈ s.reverseOf y → y = b)
  dependency : ¬ s.Cached b → ∀ y, s.Cached y → b ∉ s.reverseOf y ∧ (b ∈ s.directOf y → y = a)
  ordered : b ∉ s.directOf a → (∀ p ∈ s.directOf a, ¬ Relation.TransGen s.Direct b p) ∧
    ∀ x p q, List.Sublist [p, q] (s.directOf x) → Relation.ReflTransGen s.Direct q a →
      ¬ Relation.ReflTransGen s.Direct b p

theorem direct_addLinks :
    (s.addLinks a b t).Direct = fun x y ↦ s.Direct x y ∨ x = a ∧ y = b := by
  funext x y
  exact propext mem_directOf_addLinks

theorem below_addLinks : (s.addLinks a b t).Below = fun y x ↦ s.Below y x ∨ y = a ∧ x = b := by
  funext y x
  rw [Below, mem_reverseOf_addLinks, and_comm (a := x = b)]
  rfl

theorem transGen_addLinks (h : Relation.TransGen s.Direct x y) :
    Relation.TransGen (s.addLinks a b t).Direct x y :=
  Relation.TransGen.mono (fun _ _ hab ↦ mem_directOf_addLinks.mpr (Or.inl hab)) _ _ h

theorem reflTransGen_addLinks (h : Relation.ReflTransGen s.Direct x y) :
    Relation.ReflTransGen (s.addLinks a b t).Direct x y :=
  Relation.ReflTransGen.mono (fun _ _ hab ↦ mem_directOf_addLinks.mpr (Or.inl hab)) _ _ h

/-- What a visit comes to has the entity it started from among what it depends on. -/
theorem Mirrored.reflTransGen_direct (h : s.Mirrored) (hcached : s.Cached y)
    (hpath : Relation.ReflTransGen s.Below y x) : Relation.ReflTransGen s.Direct y x := by
  induction hpath with
  | refl => exact .refl
  | @tail c d hyc hcd ih =>
    have hc : s.Cached c := by
      rcases Relation.ReflTransGen.cases_tail hyc with rfl | ⟨z, -, hzc⟩
      · exact hcached
      · exact cached_of_mem_reverseOf hzc
    exact ih.tail ((h c d hc (cached_of_mem_reverseOf hcd)).mpr hcd)

theorem CleanAdd.wellFounded (h : s.CleanAdd a b) (hs : s.Inv) :
    WellFounded (s.addLinks a b t).Below := by
  rw [below_addLinks]
  refine wellFounded_or_single hs.wellFounded fun hpath ↦ ?_
  by_cases hb : s.Cached b
  · exact h.acyclic (hs.mirrored.reflTransGen_direct hb hpath)
  · rcases Relation.ReflTransGen.cases_head hpath with rfl | ⟨y, hby, -⟩
    · exact h.acyclic .refl
    · exact (h.dependency hb y (cached_of_mem_reverseOf hby)).1 hby

theorem CleanAdd.mirrored (h : s.CleanAdd a b) (hs : s.Mirrored) : (s.addLinks a b t).Mirrored := by
  intro x y hx hy
  rw [mem_directOf_addLinks, mem_reverseOf_addLinks, and_comm (a := x = a)]
  by_cases hnew : y = b ∧ x = a
  · exact iff_of_true (Or.inr hnew) (Or.inr hnew)
  · rw [or_iff_left hnew, or_iff_left hnew]
    constructor
    · intro hmem
      have hcx := cached_of_mem_directOf hmem
      by_cases hcy : s.Cached y
      · exact (hs x y hcx hcy).mp hmem
      · rcases cached_addLinks.mp hy with rfl | rfl | hcy'
        · exact absurd ⟨rfl, (h.dependency hcy x hcx).2 hmem⟩ hnew
        · exact absurd hmem (h.dependent hcy x hcx).1
        · exact absurd hcy' hcy
    · intro hmem
      have hcy := cached_of_mem_reverseOf hmem
      by_cases hcx : s.Cached x
      · exact (hs x y hcx hcy).mpr hmem
      · rcases cached_addLinks.mp hx with rfl | rfl | hcx'
        · exact absurd hmem (h.dependency hcx y hcy).1
        · exact absurd ⟨(h.dependent hcx y hcy).2 hmem, rfl⟩ hnew
        · exact absurd hcx' hcx

theorem CleanAdd.ordered_addLinks (h : s.CleanAdd a b) (hs : s.Inv) :
    Search.Ordered (s.addLinks a b t).directOf := by
  intro x p q hbefore hqp
  by_cases hmem : b ∈ s.directOf a
  · -- nothing is new
    have hsame : (s.addLinks a b t).directOf = s.directOf :=
      funext fun z ↦ directOf_addLinks.trans (if_neg fun hz ↦ hz.2 hmem)
    rw [hsame] at hbefore hqp
    exact hs.ordered x p q hbefore hqp
  · obtain ⟨hlast, hthrough⟩ := h.ordered hmem
    have hcases {z w : EntityId} (hzw : Relation.TransGen (s.addLinks a b t).Direct z w) :
        Relation.TransGen s.Direct z w ∨
          Relation.ReflTransGen s.Direct z a ∧ Relation.ReflTransGen s.Direct b w := by
      rw [direct_addLinks] at hzw
      rcases transGen_or hzw with hzw | ⟨_, _, ⟨rfl, rfl⟩, hza, hbw⟩
      · exact Or.inl hzw
      · refine Or.inr ⟨?_, hbw⟩
        -- a way to `a` over the new edge would go on from `b` to `a`
        rcases Relation.reflTransGen_iff_eq_or_transGen.mp hza with rfl | hza
        · exact .refl
        · rcases transGen_or hza with hza | ⟨_, _, ⟨rfl, rfl⟩, -, hba⟩
          · exact hza.to_reflTransGen
          · exact absurd hba h.acyclic
    have hold (hbefore : List.Sublist [p, q] (s.directOf x)) : False := by
      rcases hcases hqp with hqp | ⟨hqa, hbp⟩
      · exact hs.ordered x p q hbefore hqp
      · exact hthrough x p q hbefore hqa hbp
    rw [directOf_addLinks] at hbefore
    split_ifs at hbefore with hx
    · obtain ⟨rfl, -⟩ := hx
      rcases List.sublist_append_iff.mp hbefore with ⟨first, rest, hsplit, hfirst, hrest⟩
      rcases rest with _ | ⟨r, rest⟩
      · rw [List.append_nil] at hsplit
        exact hold (hsplit ▸ hfirst)
      · -- the later one is the new one
        rw [(List.sublist_singleton.mp hrest).resolve_left (List.cons_ne_nil r rest)] at hsplit
        obtain ⟨rfl, hq⟩ : [p] = first ∧ [q] = [b] := List.append_inj' hsplit rfl
        obtain rfl := List.singleton_inj.mp hq
        rcases hcases hqp with hqp | ⟨hqa, -⟩
        · exact hlast p (List.singleton_sublist.mp hfirst) hqp
        · exact h.acyclic hqa
    · exact hold hbefore

theorem nodup_addLinks (h : ∀ x, (s.directOf x).Nodup) (x : EntityId) :
    ((s.addLinks a b t).directOf x).Nodup := by
  rw [directOf_addLinks]
  split_ifs with hx
  · exact (h a).append (List.nodup_singleton b) (List.disjoint_singleton.mpr hx.2)
  · exact h x

theorem CleanAdd.inv (h : s.CleanAdd a b) (hs : s.Inv) : (s.addLinks a b t).Inv where
  nodup := nodup_addLinks hs.nodup
  mirrored := h.mirrored hs.mirrored
  wellFounded := h.wellFounded hs
  ordered := h.ordered_addLinks hs

theorem not_rel_self_of_acc {α : Type} {r : α → α → Prop} {z : α} (h : Acc r z) : ¬ r z z := by
  induction h with
  | intro z _ ih => exact fun hz ↦ ih z hz hz

theorem Inv.cleanAdd (hs : s.Inv) (hacc : Acc (s.addLinks a b t).Below a)
    (hgood : (s.addLinks a b t).Good) : s.CleanAdd a b := by
  have hcycle : ¬ Relation.ReflTransGen s.Direct b a := by
    intro hpath
    have hcycle : Relation.TransGen (s.addLinks a b t).Direct a a :=
      .head' (mem_directOf_addLinks.mpr (Or.inr ⟨rfl, rfl⟩)) (reflTransGen_addLinks hpath)
    have hbelow := hgood.mirrored.transGen_below hcycle (cached_addLinks.mpr (Or.inr (Or.inl rfl)))
    exact not_rel_self_of_acc hacc.transGen hbelow
  have hacyclic : Acyclic (s.addLinks a b t).Direct := by
    rw [direct_addLinks]
    exact hs.acyclic.or_single_iff.mpr hcycle
  have hordered := hgood.ordered (nodup_addLinks hs.nodup) hacyclic
  have hcached {y : EntityId} (hy : s.Cached y) : (s.addLinks a b t).Cached y :=
    cached_addLinks.mpr (Or.inr (Or.inr hy))
  have hca : (s.addLinks a b t).Cached a := cached_addLinks.mpr (Or.inr (Or.inl rfl))
  have hcb : (s.addLinks a b t).Cached b := cached_addLinks.mpr (Or.inl rfl)
  refine ⟨hcycle, fun ha y hy ↦ ⟨fun hmem ↦ ?_, fun hmem ↦ ?_⟩, fun hb y hy ↦
    ⟨fun hmem ↦ ?_, fun hmem ↦ ?_⟩, fun hnew ↦ ⟨fun p hp hbp ↦ ?_, fun x p q hbefore hqa hbp ↦ ?_⟩⟩
  · have hback := (hgood.mirrored y a (hcached hy) hca).mp (mem_directOf_addLinks.mpr (Or.inl hmem))
    rcases mem_reverseOf_addLinks.mp hback with hold | ⟨-, rfl⟩
    · exact ha (cached_of_mem_reverseOf hold)
    · exact ha hy
  · have hback := (hgood.mirrored a y hca (hcached hy)).mpr
      (mem_reverseOf_addLinks.mpr (Or.inl hmem))
    rcases mem_directOf_addLinks.mp hback with hold | ⟨-, rfl⟩
    · exact absurd (cached_of_mem_directOf hold) ha
    · rfl
  · have hback := (hgood.mirrored b y hcb (hcached hy)).mpr
      (mem_reverseOf_addLinks.mpr (Or.inl hmem))
    rcases mem_directOf_addLinks.mp hback with hold | ⟨rfl, -⟩
    · exact hb (cached_of_mem_directOf hold)
    · exact hcycle .refl
  · have hback := (hgood.mirrored y b (hcached hy) hcb).mp (mem_directOf_addLinks.mpr (Or.inl hmem))
    rcases mem_reverseOf_addLinks.mp hback with hold | ⟨-, rfl⟩
    · exact absurd (cached_of_mem_reverseOf hold) hb
    · rfl
  · refine hordered a p b ?_ (transGen_addLinks hbp)
    rw [directOf_addLinks, if_pos ⟨rfl, hnew⟩]
    exact (List.singleton_sublist.mpr hp).append (List.Sublist.refl [b])
  · refine hordered x p q ?_ ((Relation.TransGen.head' (mem_directOf_addLinks.mpr
      (Or.inr ⟨rfl, rfl⟩)) (reflTransGen_addLinks hbp)).trans_right (reflTransGen_addLinks hqa))
    rw [directOf_addLinks]
    split_ifs with hx
    · rw [hx.1] at hbefore
      exact hbefore.trans (List.sublist_append_left _ _)
    · exact hbefore

end

/-! ## Runs -/

/-- A call that changes dependencies. -/
inductive Op (D : Type)
  | addDependency (dependent dependency : EntityId) (depType : D)
  | removeDependency (dependent dependency : EntityId)
  | invalidateEntity (entityId : EntityId)

section

variable (sizes : DependencySizes)

def apply (fuel : ℕ) (s : DependencyCache D) : Op D → Option (DependencyCache D)
  | .addDependency dependent dependency depType =>
    s.addDependency fuel dependent dependency depType
  | .removeDependency dependent dependency => s.removeDependency fuel dependent dependency
  | .invalidateEntity entityId => s.invalidateEntity sizes fuel entityId

def Returns (s : DependencyCache D) (op : Op D) (s' : DependencyCache D) : Prop :=
  ∃ fuel, apply sizes fuel s op = some s'

/-- The calls come back one after the other, and lead to this cache. -/
def RunsTo (s : DependencyCache D) : List (Op D) → DependencyCache D → Prop
  | [], s' => s = s'
  | op :: ops, s' => ∃ r, Returns sizes s op r ∧ RunsTo r ops s'

/-- A call after which the cache is good. -/
def Clean (s : DependencyCache D) : Op D → Prop
  | .addDependency dependent dependency _ => s.CleanAdd dependent dependency
  | _ => True

def AllClean (s : DependencyCache D) : List (Op D) → Prop
  | [] => True
  | op :: ops => Clean s op ∧ ∃ r, Returns sizes s op r ∧ AllClean r ops

variable {sizes} {s s' s'' : DependencyCache D} {op : Op D} {ops : List (Op D)}

theorem apply_mono {fuel fuel' : ℕ} (hle : fuel ≤ fuel') (h : apply sizes fuel s op = some s') :
    apply sizes fuel' s op = some s' := by
  cases op with
  | addDependency dependent dependency depType => exact invalidate_mono hle h
  | removeDependency dependent dependency => exact invalidate_mono hle h
  | invalidateEntity entityId =>
    rw [apply, invalidateEntity] at h ⊢
    cases hget : s.entityDeps[entityId]? with
    | none =>
      rw [hget] at h
      exact h
    | some deps =>
      rw [hget] at h
      simp only [← List.foldlM_map] at h ⊢
      exact foldlM_mono (fun _ _ _ ↦ invalidate_mono hle) h

theorem Returns.unique (h : Returns sizes s op s') (h' : Returns sizes s op s'') : s' = s'' := by
  obtain ⟨fuel, h⟩ := h
  obtain ⟨fuel', h'⟩ := h'
  have hmax := apply_mono (le_max_left fuel fuel') h
  rw [apply_mono (le_max_right fuel fuel') h'] at hmax
  exact (Option.some.inj hmax).symm

/-- The cache a call leaves has the lists it wrote first. -/
theorem exists_invalidate_inv (hs : s.Inv) (e : EntityId) :
    ∃ fuel s', invalidateTransitiveDeps fuel s e = some s' ∧ s'.Inv := by
  obtain ⟨n, hn⟩ := exists_invalidate (hs.wellFounded.apply e)
  obtain ⟨s', hs'⟩ := hn n le_rfl s (.refl s)
  exact ⟨n, s', hs', hs.of_sameLinks (sameLinks_of_invalidate hs')⟩

/-- **One step**: a clean call comes back and keeps the invariant. -/
theorem Inv.returns (hs : s.Inv) (hclean : Clean s op) : ∃ s', Returns sizes s op s' ∧ s'.Inv := by
  cases op with
  | addDependency dependent dependency depType =>
    obtain ⟨fuel, s', h, hinv⟩ :=
      exists_invalidate_inv (CleanAdd.inv (t := depType) hclean hs) dependent
    exact ⟨s', ⟨fuel, h⟩, hinv⟩
  | removeDependency dependent dependency =>
    obtain ⟨fuel, s', h, hinv⟩ :=
      exists_invalidate_inv (hs.dropLinks (a := dependent) (b := dependency)) dependent
    exact ⟨s', ⟨fuel, h⟩, hinv⟩
  | invalidateEntity entityId =>
    cases hget : s.entityDeps[entityId]? with
    | none =>
      refine ⟨s, ⟨0, ?_⟩, hs⟩
      rw [apply, invalidateEntity, hget]
    | some deps =>
      have hdrop : (s.dropEntity sizes entityId deps).Inv := hs.dropEntity
      obtain ⟨n, hn⟩ := exists_bound (deps.reverseDependencies.map Prod.fst)
        fun e _ ↦ exists_invalidate (hdrop.wellFounded.apply e)
      obtain ⟨s', hs'⟩ := exists_foldlM (fun _ _ _ ↦ sameLinks_of_invalidate) (hn n le_rfl)
        (.refl (s.dropEntity sizes entityId deps))
      refine ⟨s', ⟨n, ?_⟩, hdrop.of_sameLinks
        (foldlM_sameLinks (fun _ _ _ ↦ sameLinks_of_invalidate) hs')⟩
      rw [apply, invalidateEntity, hget, ← hs', List.foldlM_map]

theorem Inv.clean (hs : s.Inv) (h : Returns sizes s op s') (hgood : s'.Good) : Clean s op := by
  cases op with
  | addDependency dependent dependency depType =>
    obtain ⟨fuel, h⟩ := h
    exact hs.cleanAdd (acc_of_invalidate h)
      (hgood.of_sameLinks (sameLinks_of_invalidate h).symm)
  | _ => trivial

theorem Inv.new : (new : DependencyCache D).Inv where
  nodup _ := List.nodup_nil
  mirrored _ _ ha := absurd ha Std.ExtTreeMap.not_mem_empty
  wellFounded := ⟨fun x ↦ ⟨x, fun _ hy ↦ absurd (cached_of_mem_reverseOf hy)
    Std.ExtTreeMap.not_mem_empty⟩⟩
  ordered _ _ _ hbefore := absurd (cached_of_mem_directOf (hbefore.subset List.mem_cons_self))
    Std.ExtTreeMap.not_mem_empty

theorem Inv.goodAlong_iff (hs : s.Inv) (ops : List (Op D)) :
    (∀ before, before <+: ops → ∃ s', RunsTo sizes s before s' ∧ s'.Good) ↔
      AllClean sizes s ops := by
  induction ops generalizing s with
  | nil =>
    refine iff_of_true (fun before hbefore ↦ ?_) trivial
    rw [List.prefix_nil.mp hbefore]
    exact ⟨s, rfl, hs.good⟩
  | cons op ops ih =>
    constructor
    · intro h
      obtain ⟨_, ⟨r, hreturns, rfl⟩, hgood⟩ := h [op] (List.prefix_append [op] ops)
      have hclean := hs.clean hreturns hgood
      obtain ⟨r', hreturns', hinv⟩ := hs.returns hclean
      obtain rfl := hreturns.unique hreturns'
      refine ⟨hclean, r, hreturns, (ih hinv).mp fun before hbefore ↦ ?_⟩
      obtain ⟨s', ⟨r', hreturns', hruns⟩, hgood'⟩ :=
        h (op :: before) ((List.prefix_cons_inj op).mpr hbefore)
      obtain rfl := hreturns.unique hreturns'
      exact ⟨s', hruns, hgood'⟩
    · rintro ⟨hclean, r, hreturns, hrest⟩ before hbefore
      rcases List.prefix_cons_iff.mp hbefore with rfl | ⟨rest, rfl, hrestbefore⟩
      · exact ⟨s, rfl, hs.good⟩
      · obtain ⟨r', hreturns', hinv⟩ := hs.returns hclean
        obtain rfl := hreturns.unique hreturns'
        obtain ⟨s', hruns, hgood⟩ := (ih hinv).mpr hrest rest hrestbefore
        exact ⟨s', ⟨r, hreturns, hruns⟩, hgood⟩

/-- **A call that does not come back**: an entity that depends on itself is visited for ever. -/
theorem not_returns_self (t : D) (fuel : ℕ) :
    (new : DependencyCache D).addDependency fuel ⟨0⟩ ⟨0⟩ t = none := by
  rw [Option.eq_none_iff_forall_ne_some]
  intro s' h
  exact not_rel_self_of_acc (acc_of_invalidate h) (mem_reverseOf_addLinks.mpr (Or.inr ⟨rfl, rfl⟩))

end

end DependencyCache

end RosheraCad
