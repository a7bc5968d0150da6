import Mathlib.Data.List.Dedup
import RosheraCad.Library.UnionFind
import RosheraCad.Sketch.Plan

/-!
# The components of a sketch

Entities are connected where a derived entity shares the variables of another and where one
constraint names both. The split joins the entities in a forest and reads the components off the
roots, the smallest members of their classes.
-/

namespace RosheraCad

namespace Sketch

/-- References are ordered by kind, in the order the kinds are declared in, then by identifier. -/
instance : LinearOrder EntityRef := LinearOrder.lift' EntityRef.key EntityRef.key_injective

structure ConstraintComponent where
  entities : List EntityRef
  constraintIndices : List ℕ
  deriving DecidableEq

/-! ## The split -/

def sortedNodes (nodes : List EntityRef) : List EntityRef := (nodes.insertionSort (· ≤ ·)).dedup

def uniteShared (index : EntityRef → Option ℕ) (parent : UnionFind)
    (sharedRefEdges : List (EntityRef × EntityRef)) : UnionFind :=
  sharedRefEdges.foldl (fun parent (a, b) ↦
    match index a, index b with
    | some ia, some ib => parent.halvingUnion ia ib
    | _, _ => parent) parent

def uniteChain (index : EntityRef → Option ℕ) :
    Option ℕ → UnionFind → List EntityRef → UnionFind
  | _, parent, [] => parent
  | prev, parent, entity :: entities =>
    match index entity with
    | none => uniteChain index prev parent entities
    | some i =>
      match prev with
      | none => uniteChain index (some i) parent entities
      | some p => uniteChain index (some i) (parent.halvingUnion p i) entities

def uniteConstraints (index : EntityRef → Option ℕ) (parent : UnionFind)
    (constraintEntities : List (List EntityRef)) : UnionFind :=
  constraintEntities.foldl (uniteChain index none) parent

/-- The forest, the position of each root's component, and the components so far. -/
structure Grouping where
  parent : UnionFind
  rootToComponent : OrderedMap ℕ ℕ
  components : List ConstraintComponent

namespace Grouping

def addEntity (g : Grouping) : EntityRef × ℕ → Grouping
  | (entity, i) =>
    let (root, parent) := g.parent.halvingFind i
    let (slot, rootToComponent, components) :=
      match g.rootToComponent[root]? with
      | some slot => (slot, g.rootToComponent, g.components)
      | none => (g.components.length, g.rootToComponent.insert root g.components.length,
          g.components ++ [ConstraintComponent.mk [] []])
    { parent, rootToComponent
      components := components.modify slot fun component ↦
        { component with entities := component.entities ++ [entity] } }

def addConstraint (index : EntityRef → Option ℕ) (g : Grouping) : List EntityRef × ℕ → Grouping
  | (entities, ci) =>
    match entities.findSome? index with
    | none => g
    | some i =>
      let (root, parent) := g.parent.halvingFind i
      match g.rootToComponent[root]? with
      | none => { g with parent }
      | some slot =>
        { g with
          parent
          components := g.components.modify slot fun component ↦
            { component with constraintIndices := component.constraintIndices ++ [ci] } }

end Grouping

def unitedForest (nodes : List EntityRef) (sharedRefEdges : List (EntityRef × EntityRef))
    (constraintEntities : List (List EntityRef)) : UnionFind :=
  let index := fun e ↦ (sortedNodes nodes).idxOf? e
  uniteConstraints index (uniteShared index .new sharedRefEdges) constraintEntities

def connectedComponents (nodes : List EntityRef) (sharedRefEdges : List (EntityRef × EntityRef))
    (constraintEntities : List (List EntityRef)) : List ConstraintComponent :=
  let sorted := sortedNodes nodes
  let index := fun e ↦ sorted.idxOf? e
  let parent := unitedForest nodes sharedRefEdges constraintEntities
  let grouped := sorted.zipIdx.foldl Grouping.addEntity ⟨parent, ∅, []⟩
  (constraintEntities.zipIdx.foldl (Grouping.addConstraint index) grouped).components

def Joined (nodes : List EntityRef) (sharedRefEdges : List (EntityRef × EntityRef))
    (constraintEntities : List (List EntityRef)) (a b : EntityRef) : Prop :=
  a ∈ nodes ∧ b ∈ nodes ∧
    ((a, b) ∈ sharedRefEdges ∨ ∃ entities ∈ constraintEntities, a ∈ entities ∧ b ∈ entities)

def Connected (nodes : List EntityRef) (sharedRefEdges : List (EntityRef × EntityRef))
    (constraintEntities : List (List EntityRef)) : EntityRef → EntityRef → Prop :=
  Relation.EqvGen (Joined nodes sharedRefEdges constraintEntities)

/-- The components are those of the graph, each once and all in ascending order. -/
structure Decomposes (nodes : List EntityRef) (sharedRefEdges : List (EntityRef × EntityRef))
    (constraintEntities : List (List EntityRef)) (components : List ConstraintComponent) :
    Prop where
  node_once : ∀ e ∈ nodes, components.countP (fun c ↦ e ∈ c.entities) = 1
  nonempty : ∀ c ∈ components, c.entities ≠ []
  entities_given : ∀ c ∈ components, ∀ e ∈ c.entities, e ∈ nodes
  together_iff : ∀ c ∈ components, ∀ e ∈ c.entities, ∀ f ∈ nodes,
    f ∈ c.entities ↔ Connected nodes sharedRefEdges constraintEntities e f
  constraint_once : ∀ (ci : ℕ) (entities : List EntityRef),
    constraintEntities[ci]? = some entities → (∃ e ∈ entities, e ∈ nodes) →
      components.countP (fun c ↦ ci ∈ c.constraintIndices) = 1
  constraint_inside : ∀ c ∈ components, ∀ ci ∈ c.constraintIndices,
    ∃ entities, constraintEntities[ci]? = some entities ∧ (∃ e ∈ entities, e ∈ nodes) ∧
      ∀ e ∈ entities, e ∈ nodes → e ∈ c.entities
  components_ascend : (components.filterMap fun c ↦ c.entities.head?).Pairwise (· < ·)
  entities_ascend : ∀ c ∈ components, c.entities.Pairwise (· < ·)
  constraints_ascend : ∀ c ∈ components, c.constraintIndices.Pairwise (· < ·)

/-! ## Sorted entities -/

section Sorted

variable {nodes nodes' : List EntityRef} {a b : EntityRef} {i : ℕ}

theorem mem_sortedNodes : a ∈ sortedNodes nodes ↔ a ∈ nodes := by
  rw [sortedNodes, List.mem_dedup, List.mem_insertionSort]

theorem sortedNodes_ascend (nodes : List EntityRef) : (sortedNodes nodes).Pairwise (· < ·) := by
  have hle : (sortedNodes nodes).Pairwise (· ≤ ·) :=
    (List.pairwise_insertionSort (· ≤ ·) nodes).sublist (List.dedup_sublist _)
  exact (hle.and (List.nodup_dedup _)).imp fun h ↦ lt_of_le_of_ne h.1 h.2

theorem sortedNodes_nodup (nodes : List EntityRef) : (sortedNodes nodes).Nodup := List.nodup_dedup _

theorem sortedNodes_perm (h : nodes.Perm nodes') : sortedNodes nodes = sortedNodes nodes' :=
  SortedPrefix.eq_of_mem_iff (sortedNodes_ascend _) (sortedNodes_ascend _) fun a ↦ by
    rw [mem_sortedNodes, mem_sortedNodes, h.mem_iff]

theorem idxOf?_sortedNodes :
    (sortedNodes nodes).idxOf? a = some i ↔ a ∈ nodes ∧ (sortedNodes nodes).idxOf a = i := by
  rw [← mem_sortedNodes, List.idxOf?_eq_some_iff]
  constructor
  · rintro ⟨hi, rfl, -⟩
    exact ⟨List.getElem_mem hi, (sortedNodes_nodup nodes).idxOf_getElem i hi⟩
  · rintro ⟨ha, rfl⟩
    have hlt := List.idxOf_lt_length_of_mem ha
    refine ⟨hlt, List.getElem_idxOf hlt, fun j hj h ↦ hj.ne ?_⟩
    rw [← h, (sortedNodes_nodup nodes).idxOf_getElem j (hj.trans hlt)]

end Sorted

/-! ## The forest of all unions -/

section Forest

variable (index : EntityRef → Option ℕ)

def presentPair (e : EntityRef × EntityRef) : Option (ℕ × ℕ) :=
  match index e.1, index e.2 with
  | some ia, some ib => some (ia, ib)
  | _, _ => none

def neighbours (l : List ℕ) : List (ℕ × ℕ) := l.zip l.tail

theorem uniteShared_eq (parent : UnionFind) (edges : List (EntityRef × EntityRef)) :
    uniteShared index parent edges = (edges.filterMap (presentPair index)).foldl
      (fun uf p ↦ uf.halvingUnion p.1 p.2) parent := by
  induction edges generalizing parent with
  | nil => rfl
  | cons e edges ih =>
    obtain ⟨a, b⟩ := e
    rw [uniteShared, List.foldl_cons, ← uniteShared, ih]
    cases ha : index a <;> cases hb : index b <;>
      simp only [List.filterMap_cons, presentPair, ha, hb, List.foldl_cons]

theorem uniteChain_eq (prev : Option ℕ) (parent : UnionFind) (entities : List EntityRef) :
    uniteChain index prev parent entities =
      (neighbours (prev.toList ++ entities.filterMap index)).foldl
        (fun uf p ↦ uf.halvingUnion p.1 p.2) parent := by
  induction entities generalizing prev parent with
  | nil => cases prev <;> rfl
  | cons entity entities ih =>
    rw [uniteChain]
    cases hi : index entity with
    | none => simp only [ih, List.filterMap_cons_none hi]
    | some i =>
      rw [List.filterMap_cons_some hi]
      cases prev with
      | none => exact ih (some i) parent
      | some p => exact ih (some i) (parent.halvingUnion p i)

theorem eqvGen_neighbours {l : List ℕ} {i j : ℕ} (hi : i ∈ l) (hj : j ∈ l) :
    Relation.EqvGen (fun a b ↦ (a, b) ∈ neighbours l) i j := by
  have hfirst : ∀ (first : ℕ) (l : List ℕ), ∀ k ∈ first :: l,
      Relation.EqvGen (fun a b ↦ (a, b) ∈ neighbours (first :: l)) first k := by
    intro first l
    induction l generalizing first with
    | nil =>
      intro k hk
      rw [List.mem_singleton.mp hk]
      exact .refl _
    | cons next l ih =>
      intro k hk
      rcases List.mem_cons.mp hk with rfl | hk
      · exact .refl _
      · refine .trans _ _ _ (.rel first next List.mem_cons_self) ?_
        exact (ih next k hk).mono fun a b hab ↦ List.mem_cons_of_mem _ hab
  cases l with
  | nil => exact absurd hi List.not_mem_nil
  | cons first l => exact (hfirst first l i hi).symm.trans _ _ _ (hfirst first l j hj)

variable {nodes nodes' : List EntityRef} {edges edges' : List (EntityRef × EntityRef)}
  {constraints : List (List EntityRef)}

def unitedPairs (nodes : List EntityRef) (edges : List (EntityRef × EntityRef))
    (constraints : List (List EntityRef)) : List (ℕ × ℕ) :=
  let index := fun e ↦ (sortedNodes nodes).idxOf? e
  edges.filterMap (presentPair index) ++
    constraints.flatMap fun entities ↦ neighbours (entities.filterMap index)

theorem root_unitedForest (x : ℕ) : (unitedForest nodes edges constraints).root x =
    (UnionFind.new.joinAll (unitedPairs nodes edges constraints)).2.root x := by
  rw [← UnionFind.root_foldl_halvingUnion _ (fun _ ↦ rfl), unitedPairs, List.foldl_append,
    List.foldl_flatMap, unitedForest, uniteConstraints, uniteShared_eq]
  congr
  funext parent entities
  exact uniteChain_eq _ none parent entities

theorem joined_of_mem_unitedPairs {i j : ℕ} (h : (i, j) ∈ unitedPairs nodes edges constraints) :
    ∃ a b, Joined nodes edges constraints a b ∧ (sortedNodes nodes).idxOf a = i ∧
      (sortedNodes nodes).idxOf b = j := by
  rcases List.mem_append.mp h with h | h
  · obtain ⟨⟨a, b⟩, hedge, hpair⟩ := List.mem_filterMap.mp h
    simp only [presentPair] at hpair
    split at hpair
    · next ia ib ha hb =>
      obtain ⟨rfl, rfl⟩ := Prod.mk.inj (Option.some_inj.mp hpair)
      obtain ⟨hain, hai⟩ := idxOf?_sortedNodes.mp ha
      obtain ⟨hbin, hbi⟩ := idxOf?_sortedNodes.mp hb
      exact ⟨a, b, ⟨hain, hbin, .inl hedge⟩, hai, hbi⟩
    · cases hpair
  · obtain ⟨entities, hentities, hpair⟩ := List.mem_flatMap.mp h
    obtain ⟨hi, hj⟩ := List.of_mem_zip hpair
    obtain ⟨a, ha, hai⟩ := List.mem_filterMap.mp hi
    obtain ⟨b, hb, hbj⟩ := List.mem_filterMap.mp (List.mem_of_mem_tail hj)
    obtain ⟨hain, hai⟩ := idxOf?_sortedNodes.mp hai
    obtain ⟨hbin, hbj⟩ := idxOf?_sortedNodes.mp hbj
    exact ⟨a, b, ⟨hain, hbin, .inr ⟨entities, hentities, ha, hb⟩⟩, hai, hbj⟩

theorem eqvGen_unitedPairs_of_joined {a b : EntityRef} (h : Joined nodes edges constraints a b) :
    Relation.EqvGen (fun i j ↦ (i, j) ∈ unitedPairs nodes edges constraints)
      ((sortedNodes nodes).idxOf a) ((sortedNodes nodes).idxOf b) := by
  obtain ⟨ha, hb, hedge | ⟨entities, hentities, hae, hbe⟩⟩ := h
  · refine .rel _ _ (List.mem_append_left _ (List.mem_filterMap.mpr ⟨(a, b), hedge, ?_⟩))
    rw [presentPair, idxOf?_sortedNodes.mpr ⟨ha, rfl⟩, idxOf?_sortedNodes.mpr ⟨hb, rfl⟩]
  · have hmem : ∀ c ∈ nodes, c ∈ entities → (sortedNodes nodes).idxOf c ∈
        entities.filterMap fun e ↦ (sortedNodes nodes).idxOf? e := fun c hc hce ↦
      List.mem_filterMap.mpr ⟨c, hce, idxOf?_sortedNodes.mpr ⟨hc, rfl⟩⟩
    refine (eqvGen_neighbours (hmem a ha hae) (hmem b hb hbe)).mono fun i j hij ↦ ?_
    exact List.mem_append_right _ (List.mem_flatMap.mpr ⟨entities, hentities, hij⟩)

theorem root_unitedForest_eq_iff {e f : EntityRef} (he : e ∈ nodes) (hf : f ∈ nodes) :
    (unitedForest nodes edges constraints).root ((sortedNodes nodes).idxOf e) =
        (unitedForest nodes edges constraints).root ((sortedNodes nodes).idxOf f) ↔
      Connected nodes edges constraints e f := by
  rw [root_unitedForest, root_unitedForest, UnionFind.root_joinAll_new]
  have hback : ∀ g ∈ nodes,
      (sortedNodes nodes)[(sortedNodes nodes).idxOf g]?.getD e = g := by
    intro g hg
    rw [List.getElem?_idxOf (mem_sortedNodes.mpr hg), Option.getD_some]
  constructor
  · intro h
    have hconnected := h.lift (s := Joined nodes edges constraints)
      (fun i ↦ (sortedNodes nodes)[i]?.getD e) ?_
    · rwa [hback e he, hback f hf] at hconnected
    · intro i j hij
      obtain ⟨a, b, hab, rfl, rfl⟩ := joined_of_mem_unitedPairs hij
      rw [hback a hab.1, hback b hab.2.1]
      exact .rel _ _ hab
  · exact .lift _ fun a b hab ↦ eqvGen_unitedPairs_of_joined hab

theorem root_unitedForest_perm (hnodes : nodes.Perm nodes') (hedges : edges.Perm edges') (x : ℕ) :
    (unitedForest nodes edges constraints).root x =
      (unitedForest nodes' edges' constraints).root x := by
  refine UnionFind.root_eq_of_classes _ (fun x y ↦ ?_) x
  rw [root_unitedForest, root_unitedForest, root_unitedForest, root_unitedForest,
    UnionFind.root_joinAll_new, UnionFind.root_joinAll_new]
  have hpairs : ∀ p, p ∈ unitedPairs nodes edges constraints ↔
      p ∈ unitedPairs nodes' edges' constraints := by
    intro p
    simp only [unitedPairs, sortedNodes_perm hnodes, List.mem_append, List.mem_filterMap,
      hedges.mem_iff]
  simp only [hpairs]

end Forest

/-! ## The groups -/

section Groups

variable {nodes : List EntityRef} {forest : UnionFind} {g : Grouping}

def groupKey (forest : UnionFind) (nodes : List EntityRef) (e : EntityRef) : ℕ :=
  forest.root ((sortedNodes nodes).idxOf e)

def constraintsOn (nodes group : List EntityRef) (numbered : List (List EntityRef × ℕ)) : List ℕ :=
  (numbered.filter fun p ↦ (p.1.find? (· ∈ nodes)).any (· ∈ group)).map Prod.snd

structure Grouped (forest : UnionFind) (nodes l : List EntityRef)
    (numbered : List (List EntityRef × ℕ)) (g : Grouping) : Prop where
  root_eq : ∀ x, g.parent.root x = forest.root x
  slots : ∀ k, g.rootToComponent[k]? =
    (l.groupsBy (groupKey forest nodes)).groupSlot (groupKey forest nodes) k
  components : g.components = (l.groupsBy (groupKey forest nodes)).map fun group ↦
    ⟨group, constraintsOn nodes group numbered⟩

theorem map_modify {α β : Type*} {F : α → β} {u : α → α} {v : β → β} (h : ∀ a, F (u a) = v (F a))
    (l : List α) (i : ℕ) : (l.modify i u).map F = (l.map F).modify i v := by
  induction l generalizing i with
  | nil => rw [List.modify_nil, List.map_nil, List.modify_nil]
  | cons a l ih =>
    cases i with
    | zero => exact congrArg (· :: l.map F) (h a)
    | succ i => exact congrArg (F a :: ·) (ih i)

theorem modify_concat {α : Type*} (l : List α) (a : α) (f : α → α) :
    (l ++ [a]).modify l.length f = l ++ [f a] := by
  induction l with
  | nil => rfl
  | cons b l ih => exact congrArg (b :: ·) ih

theorem Grouped.addEntity {l : List EntityRef} (h : Grouped forest nodes l [] g) (e : EntityRef) :
    Grouped forest nodes (l ++ [e]) [] (g.addEntity (e, (sortedNodes nodes).idxOf e)) := by
  set key := groupKey forest nodes with hkey
  have hstep : (l ++ [e]).groupsBy key = List.addToGroup key (l.groupsBy key) e :=
    List.foldl_concat ..
  have hlength : g.components.length = (l.groupsBy key).length := by
    rw [h.components, List.length_map]
  have hroot : (g.parent.halvingFind ((sortedNodes nodes).idxOf e)).1 = key e := by
    rw [UnionFind.halvingFind_fst, h.root_eq]
    rfl
  have hslots := h.slots (key e)
  have hadd := @List.addToGroup_eq _ _ _ key (l.groupsBy key) e
  have hslot := @List.groupSlot_addToGroup _ _ _ key (l.groupsBy key) e
  simp only [Grouping.addEntity, hroot]
  cases hk : g.rootToComponent[key e]? with
  | some slot =>
    rw [hk, eq_comm] at hslots
    rw [hslots] at hadd
    refine ⟨fun x ↦ (g.parent.root_halvingFind _ x).trans (h.root_eq x), fun k ↦ ?_, ?_⟩
    · rw [hstep, hslot, h.slots]
      by_cases hek : key e = k
      · rw [if_pos hek, ← hek, hslots, Option.some_or]
      · rw [if_neg hek, Option.or_none]
    · rw [hstep, hadd, h.components]
      exact (map_modify (v := fun component ↦ ConstraintComponent.mk (component.entities ++ [e])
        component.constraintIndices) (fun group ↦ rfl) _ slot).symm
  | none =>
    rw [hk, eq_comm] at hslots
    rw [hslots] at hadd
    refine ⟨fun x ↦ (g.parent.root_halvingFind _ x).trans (h.root_eq x), fun k ↦ ?_, ?_⟩
    · rw [hstep, hslot, OrderedMap.lookup_insert, h.slots, hlength]
      by_cases hek : key e = k
      · rw [if_pos hek.symm, if_pos hek, ← hek, hslots, Option.none_or]
      · rw [if_neg (Ne.symm hek), if_neg hek, Option.or_none]
    · rw [hstep, hadd, List.map_append, modify_concat, h.components]
      rfl

theorem grouped_entities (forest : UnionFind) (nodes : List EntityRef) :
    Grouped forest nodes (sortedNodes nodes) []
      ((sortedNodes nodes).zipIdx.foldl Grouping.addEntity ⟨forest, ∅, []⟩) := by
  have hfold : ∀ (l : List EntityRef), Grouped forest nodes l []
      ((l.map fun e ↦ (e, (sortedNodes nodes).idxOf e)).foldl Grouping.addEntity
        ⟨forest, ∅, []⟩) := by
    intro l
    induction l using List.reverseRecOn with
    | nil => exact ⟨fun _ ↦ rfl, fun k ↦ Std.ExtTreeMap.getElem?_empty, rfl⟩
    | append_singleton l e ih =>
      rw [List.map_append, List.foldl_append]
      exact ih.addEntity e
  have hzip : (sortedNodes nodes).zipIdx =
      (sortedNodes nodes).map fun e ↦ (e, (sortedNodes nodes).idxOf e) := by
    refine List.ext_getElem (by simp) fun i hi hi' ↦ ?_
    rw [List.getElem_zipIdx, List.getElem_map, Nat.zero_add,
      (sortedNodes_nodup nodes).idxOf_getElem]
  rw [hzip]
  exact hfold _

theorem findSome?_idxOf? (entities : List EntityRef) :
    (entities.findSome? fun e ↦ (sortedNodes nodes).idxOf? e) =
      (entities.find? (· ∈ nodes)).map (sortedNodes nodes).idxOf := by
  induction entities with
  | nil => rfl
  | cons e entities ih =>
    rw [List.findSome?_cons, List.find?_cons]
    by_cases he : e ∈ nodes
    · rw [idxOf?_sortedNodes.mpr ⟨he, rfl⟩, decide_eq_true he]
      rfl
    · rw [List.idxOf?_eq_none_iff.mpr (mem_sortedNodes.not.mpr he), decide_eq_false he]
      exact ih

theorem Grouped.addConstraint {numbered : List (List EntityRef × ℕ)}
    (h : Grouped forest nodes (sortedNodes nodes) numbered g) (entities : List EntityRef) (ci : ℕ) :
    Grouped forest nodes (sortedNodes nodes) (numbered ++ [(entities, ci)])
      (g.addConstraint (fun e ↦ (sortedNodes nodes).idxOf? e) (entities, ci)) := by
  set key := groupKey forest nodes with hkey
  set groups := (sortedNodes nodes).groupsBy key with hgroups
  have hmore : ∀ group, constraintsOn nodes group (numbered ++ [(entities, ci)]) =
      constraintsOn nodes group numbered ++
        if (entities.find? (· ∈ nodes)).any (· ∈ group) then [ci] else [] := by
    intro group
    simp only [constraintsOn, List.filter_append, List.map_append]
    congr 1
    split_ifs with hin <;> simp [hin]
  simp only [Grouping.addConstraint, findSome?_idxOf?]
  cases hfirst : entities.find? (· ∈ nodes) with
  | none =>
    refine ⟨h.root_eq, h.slots, h.components.trans (List.map_congr_left fun group _ ↦ ?_)⟩
    rw [hmore, hfirst, Option.any_none, if_neg Bool.false_ne_true, List.append_nil]
  | some e =>
    have hpresent := List.find?_some hfirst
    have he : e ∈ sortedNodes nodes := mem_sortedNodes.mpr (of_decide_eq_true hpresent)
    have hroot : (g.parent.halvingFind ((sortedNodes nodes).idxOf e)).1 = key e := by
      rw [UnionFind.halvingFind_fst, h.root_eq]
      rfl
    have hin : ∀ (slot : ℕ) (group : List EntityRef), groups[slot]? = some group →
        (g.rootToComponent[key e]? = some slot ↔ e ∈ group) := by
      intro slot group hgroup
      rw [h.slots, List.groupSlot_groupsBy _ hgroup]
      constructor
      · rintro ⟨a, ha, hae⟩
        exact (List.mem_group_iff (List.mem_of_getElem? hgroup) ha e).mpr ⟨he, hae.symm⟩
      · exact fun hmem ↦ ⟨e, hmem, rfl⟩
    -- The constraint goes to the slot of its first entity's root.
    simp only [Option.map_some, hroot]
    cases hk : g.rootToComponent[key e]? with
    | none =>
      refine ⟨fun x ↦ (g.parent.root_halvingFind _ x).trans (h.root_eq x), h.slots,
        h.components.trans (List.map_congr_left fun group hgroup ↦ ?_)⟩
      obtain ⟨slot, hslot⟩ := List.mem_iff_getElem?.mp hgroup
      have hnot : e ∉ group := fun hmem ↦ by
        rw [(hin slot group hslot).mpr hmem] at hk
        cases hk
      rw [hmore, hfirst, Option.any_some, decide_eq_false hnot, if_neg Bool.false_ne_true,
        List.append_nil]
    | some slot =>
      refine ⟨fun x ↦ (g.parent.root_halvingFind _ x).trans (h.root_eq x), h.slots, ?_⟩
      dsimp only
      rw [h.components]
      refine List.ext_getElem? fun i ↦ ?_
      rw [List.getElem?_modify, List.getElem?_map, List.getElem?_map]
      cases hgroup : groups[i]? with
      | none => simp
      | some group =>
        have hiff : slot = i ↔ e ∈ group := by
          rw [← hin i group hgroup, hk, Option.some_inj]
        rw [Option.map_some, Option.map_some, Option.map_eq_map, Option.map_some, hmore, hfirst,
          Option.any_some]
        by_cases hslot : slot = i
        · rw [if_pos hslot, if_pos (decide_eq_true (hiff.mp hslot))]
        · rw [if_neg hslot, if_neg (by simpa using hslot ∘ hiff.mpr), List.append_nil]

theorem connectedComponents_eq (nodes : List EntityRef)
    (edges : List (EntityRef × EntityRef)) (constraints : List (List EntityRef)) :
    connectedComponents nodes edges constraints =
      ((sortedNodes nodes).groupsBy
        (groupKey (unitedForest nodes edges constraints) nodes)).map fun group ↦
          ⟨group, constraintsOn nodes group constraints.zipIdx⟩ := by
  have hfold : ∀ numbered : List (List EntityRef × ℕ),
      Grouped (unitedForest nodes edges constraints) nodes (sortedNodes nodes) numbered
        (numbered.foldl (Grouping.addConstraint fun e ↦ (sortedNodes nodes).idxOf? e)
          ((sortedNodes nodes).zipIdx.foldl Grouping.addEntity
            ⟨unitedForest nodes edges constraints, ∅, []⟩)) := by
    intro numbered
    induction numbered using List.reverseRecOn with
    | nil => exact grouped_entities _ nodes
    | append_singleton numbered p ih =>
      rw [List.foldl_append]
      exact ih.addConstraint p.1 p.2
  exact (hfold constraints.zipIdx).components

theorem mem_constraintsOn {group : List EntityRef} {constraints : List (List EntityRef)} {ci : ℕ} :
    ci ∈ constraintsOn nodes group constraints.zipIdx ↔
      ∃ entities e, constraints[ci]? = some entities ∧
        entities.find? (· ∈ nodes) = some e ∧ e ∈ group := by
  simp only [constraintsOn, List.mem_map, List.mem_filter, List.mem_zipIdx_iff_getElem?,
    Option.any_eq_true, decide_eq_true_eq, Prod.exists, exists_eq_right]
  constructor
  · rintro ⟨entities, hentities, e, hfirst, he⟩
    exact ⟨entities, e, hentities, hfirst, he⟩
  · rintro ⟨entities, e, hentities, hfirst, he⟩
    exact ⟨entities, hentities, e, hfirst, he⟩

end Groups

section Decomposition

variable {nodes nodes' : List EntityRef} {edges edges' : List (EntityRef × EntityRef)}

theorem decomposes_connectedComponents (nodes : List EntityRef)
    (edges : List (EntityRef × EntityRef)) (constraints : List (List EntityRef)) :
    Decomposes nodes edges constraints (connectedComponents nodes edges constraints) := by
  set key := groupKey (unitedForest nodes edges constraints) nodes with hkey
  set groups := (sortedNodes nodes).groupsBy key with hgroups
  have hkey_iff : ∀ e ∈ nodes, ∀ f ∈ nodes,
      key e = key f ↔ Connected nodes edges constraints e f :=
    fun e he f hf ↦ root_unitedForest_eq_iff he hf
  have hgiven : ∀ group ∈ groups, ∀ e ∈ group, e ∈ nodes := fun group hgroup e he ↦
    mem_sortedNodes.mp ((List.sublist_of_mem_groupsBy hgroup).subset he)
  have hin : ∀ group ∈ groups, ∀ e ∈ group, ∀ f ∈ nodes,
      (f ∈ group ↔ Connected nodes edges constraints e f) := by
    intro group hgroup e he f hf
    rw [List.mem_group_iff hgroup he, eq_comm, hkey_iff e (hgiven group hgroup e he) f hf]
    exact and_iff_right (mem_sortedNodes.mpr hf)
  have honce : ∀ e ∈ nodes, groups.countP (fun group ↦ e ∈ group) = 1 := fun e he ↦
    List.countP_groupsBy key (mem_sortedNodes.mpr he)
  rw [connectedComponents_eq]
  refine ⟨fun e he ↦ ?_, List.forall_mem_map.mpr fun group ↦ List.ne_nil_of_mem_groupsBy,
    List.forall_mem_map.mpr hgiven, List.forall_mem_map.mpr hin,
    fun ci entities hci hpresent ↦ ?_, List.forall_mem_map.mpr fun group hgroup ci hci ↦ ?_, ?_,
    List.forall_mem_map.mpr fun group hgroup ↦ (sortedNodes_ascend nodes).sublist
      (List.sublist_of_mem_groupsBy hgroup), List.forall_mem_map.mpr fun group _ ↦ ?_⟩
  · rw [List.countP_map]
    exact honce e he
  · obtain ⟨e, he, hen⟩ := hpresent
    obtain ⟨first, hfirst⟩ : ∃ first, entities.find? (· ∈ nodes) = some first :=
      Option.isSome_iff_exists.mp (List.find?_isSome.mpr ⟨e, he, decide_eq_true hen⟩)
    have hpresent := List.find?_some hfirst
    rw [List.countP_map, ← honce first (of_decide_eq_true hpresent)]
    refine List.countP_congr fun group _ ↦ ?_
    rw [Function.comp_apply, decide_eq_true_eq, decide_eq_true_eq, mem_constraintsOn]
    constructor
    · rintro ⟨entities', e', hci', hfirst', he'⟩
      obtain rfl := Option.some_inj.mp (hci.symm.trans hci')
      rwa [Option.some_inj.mp (hfirst.symm.trans hfirst')]
    · exact fun hmem ↦ ⟨entities, first, hci, hfirst, hmem⟩
  · obtain ⟨entities, e, hentities, hfirst, he⟩ := mem_constraintsOn.mp hci
    have hpresent := List.find?_some hfirst
    have hen : e ∈ nodes := of_decide_eq_true hpresent
    have hein : e ∈ entities := List.mem_of_find?_eq_some hfirst
    refine ⟨entities, hentities, ⟨e, hein, hen⟩, fun f hf hfn ↦ ?_⟩
    -- The constraint itself connects its entities.
    refine (hin group hgroup e he f hfn).mpr (.rel _ _ ⟨hen, hfn, .inr ?_⟩)
    exact ⟨entities, List.mem_of_getElem? hentities, hein, hf⟩
  · rw [List.filterMap_map]
    exact (sortedNodes_ascend nodes).sublist (List.heads_groupsBy_sublist _)
  · have hnumbers : (constraints.zipIdx.map Prod.snd).Pairwise (· < ·) := by
      rw [List.zipIdx_map_snd]
      exact List.pairwise_lt_range'
    exact hnumbers.sublist (List.filter_sublist.map _)

/-- **The split of a sketch** decomposes it, whatever the order of its entities and shared
references. -/
theorem connectedComponents_spec (hnodes : nodes.Perm nodes') (hedges : edges.Perm edges')
    (constraints : List (List EntityRef)) :
    Decomposes nodes edges constraints (connectedComponents nodes edges constraints) ∧
      connectedComponents nodes edges constraints =
        connectedComponents nodes' edges' constraints := by
  refine ⟨decomposes_connectedComponents nodes edges constraints, ?_⟩
  have hkey : groupKey (unitedForest nodes edges constraints) nodes =
      groupKey (unitedForest nodes' edges' constraints) nodes' := by
    funext e
    rw [groupKey, groupKey, root_unitedForest_perm hnodes hedges, sortedNodes_perm hnodes]
  rw [connectedComponents_eq, connectedComponents_eq, hkey, sortedNodes_perm hnodes]
  refine List.map_congr_left fun group _ ↦ ?_
  have hmem : ∀ e, (e ∈ nodes) = (e ∈ nodes') := fun e ↦ propext hnodes.mem_iff
  simp only [constraintsOn, hmem]

/-- Two points given in either order, on a line that shares the variables of one of them. -/
theorem connectedComponents_spec_example :
    Decomposes [.line 7, .point 2, .point 1] [(.line 7, .point 2), (.line 7, .point 9)]
        [[.point 9, .point 1], [.point 9]]
        (connectedComponents [.line 7, .point 2, .point 1]
          [(.line 7, .point 2), (.line 7, .point 9)] [[.point 9, .point 1], [.point 9]]) ∧
      connectedComponents [.line 7, .point 2, .point 1]
          [(.line 7, .point 2), (.line 7, .point 9)] [[.point 9, .point 1], [.point 9]] =
        connectedComponents [.point 2, .line 7, .point 1]
          [(.line 7, .point 9), (.line 7, .point 2)] [[.point 9, .point 1], [.point 9]] :=
  connectedComponents_spec (.swap ..) (.swap ..) _

end Decomposition

end Sketch

end RosheraCad
