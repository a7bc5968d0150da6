import RosheraCad.Library.Search
import RosheraCad.Projection.Lineage

/-!
# Ancestors and descendants

The closure of an entity is searched breadth first over the events that list it. The echo of an
entity modified in place is skipped. The cycle guard names what is left over when the graph is
peeled from both ends.
-/

namespace RosheraCad

namespace LineageGraph

open Lineage

inductive Direction
  | backward
  | forward
  deriving DecidableEq

def listed (g : LineageGraph) (refs : EventNode → List EntityRef) (positions : List ℕ) :
    List EntityRef :=
  positions.flatMap fun i ↦ (g.eventNodes[i]?.map refs).getD []

/-- The references one step away from a node, among them the node itself where it is modified. -/
def neighbours (g : LineageGraph) (direction : Direction) (node : EntityRef) : List EntityRef :=
  match direction with
  | .backward => g.listed (·.inputs) (g.producing[node]?.getD [])
  | .forward => g.listed (·.outputs) (g.consuming[node]?.getD [])

def closureLoop (g : LineageGraph) (direction : Direction) :
    ℕ → List EntityRef → List EntityRef → List EntityRef
  | fuel + 1, visited, node :: queue =>
    if node ∈ visited then closureLoop g direction fuel visited queue
    else
      let visited := visited ++ [node]
      closureLoop g direction fuel visited (queue ++ (g.neighbours direction node).filter
        fun neighbour ↦ ¬ (neighbour = node ∨ neighbour ∈ visited))
  | _, visited, _ => visited

def closureFuel (g : LineageGraph) (entity : EntityRef) (direction : Direction) : ℕ :=
  let nodes := entity :: g.eventNodes.flatMap fun n ↦ n.inputs ++ n.outputs
  1 + (nodes.flatMap (g.neighbours direction)).length

def seenAt (g : LineageGraph) (r : EntityRef) : EventIndex := g.firstSeen[r]?.getD (2 ^ 64 - 1)

def closure (g : LineageGraph) (entity : EntityRef) (direction : Direction) : List EntityRef :=
  let visited := g.closureLoop direction (g.closureFuel entity direction) [] [entity]
  (visited.filter (· ≠ entity)).insertionSort fun a b ↦
    g.seenAt a < g.seenAt b ∨ g.seenAt a = g.seenAt b ∧ a ≤ b

/-- Everything this entity transitively depends on. -/
def ancestors (g : LineageGraph) (entity : EntityRef) : List EntityRef := g.closure entity .backward

/-- Everything that transitively depends on this entity. -/
def descendants (g : LineageGraph) (entity : EntityRef) : List EntityRef :=
  g.closure entity .forward

/-! ## The steps of the search -/

theorem eventNodes_project (nodes : List EventNode) : (project nodes).eventNodes = nodes := by
  have hfold (l : List (EventNode × ℕ)) (g : LineageGraph) :
      (l.foldl (fun g p ↦ g.addNode p.1 p.2) g).eventNodes = g.eventNodes := by
    induction l generalizing g with
    | nil => rfl
    | cons p l ih => rw [List.foldl_cons, ih]; rfl
  exact hfold _ _

private theorem mem_getD_push {m : OrderedMap EntityRef (List ℕ)} {refs : List EntityRef}
    {r : EntityRef} {i j : ℕ} : i ∈ (m.push (refs.map (·, j)))[r]?.getD [] ↔
      i ∈ m[r]?.getD [] ∨ i = j ∧ r ∈ refs := by
  rw [OrderedMap.getD_push, List.mem_append]
  refine or_congr_right ?_
  constructor
  · intro h
    obtain ⟨⟨r', j'⟩, hmem, rfl⟩ := List.mem_map.mp h
    obtain ⟨hmem, heq⟩ := List.mem_filter.mp hmem
    obtain ⟨r'', hr, heq'⟩ := List.mem_map.mp hmem
    cases heq'
    exact ⟨rfl, of_decide_eq_true heq ▸ hr⟩
  · rintro ⟨rfl, hr⟩
    exact List.mem_map.mpr ⟨(r, i), List.mem_filter.mpr
      ⟨List.mem_map_of_mem hr, decide_eq_true rfl⟩, rfl⟩

variable {nodes : List EventNode}

theorem mem_producing_consuming {r : EntityRef} {i : ℕ} :
    (i ∈ (project nodes).producing[r]?.getD [] ↔ ∃ n, nodes[i]? = some n ∧ r ∈ n.outputs) ∧
      (i ∈ (project nodes).consuming[r]?.getD [] ↔ ∃ n, nodes[i]? = some n ∧ r ∈ n.inputs) := by
  have hfold (l : List (EventNode × ℕ)) (g : LineageGraph) :
      (i ∈ (l.foldl (fun g p ↦ g.addNode p.1 p.2) g).producing[r]?.getD [] ↔
        i ∈ g.producing[r]?.getD [] ∨ ∃ n, (n, i) ∈ l ∧ r ∈ n.outputs) ∧
      (i ∈ (l.foldl (fun g p ↦ g.addNode p.1 p.2) g).consuming[r]?.getD [] ↔
        i ∈ g.consuming[r]?.getD [] ∨ ∃ n, (n, i) ∈ l ∧ r ∈ n.inputs) := by
    induction l generalizing g with
    | nil => simp
    | cons p l ih =>
      obtain ⟨n, j⟩ := p
      obtain ⟨hproducing, hconsuming⟩ := ih (g.addNode n j)
      rw [List.foldl_cons, hproducing, hconsuming, addNode, mem_getD_push, mem_getD_push,
        or_assoc, or_assoc]
      simp only [List.mem_cons, Prod.mk.injEq]
      refine ⟨or_congr_right ⟨?_, ?_⟩, or_congr_right ⟨?_, ?_⟩⟩
      all_goals
        first
        | rintro (⟨rfl, hr⟩ | ⟨n', hn', hr⟩)
          · exact ⟨n, .inl ⟨rfl, rfl⟩, hr⟩
          · exact ⟨n', .inr hn', hr⟩
        | rintro ⟨n', ⟨rfl, rfl⟩ | hn', hr⟩
          · exact .inl ⟨rfl, hr⟩
          · exact .inr ⟨n', hn', hr⟩
  obtain ⟨hproducing, hconsuming⟩ := hfold nodes.zipIdx ⟨nodes, ∅, ∅, ∅, ∅, ∅, []⟩
  rw [project, hproducing, hconsuming]
  simp [List.mk_mem_zipIdx_iff_getElem?]

theorem mem_listed {g : LineageGraph} {refs : EventNode → List EntityRef} {positions : List ℕ}
    {r : EntityRef} : r ∈ g.listed refs positions ↔
      ∃ i ∈ positions, ∃ n, g.eventNodes[i]? = some n ∧ r ∈ refs n := by
  rw [listed, List.mem_flatMap]
  refine exists_congr fun i ↦ and_congr_right fun _ ↦ ?_
  rcases g.eventNodes[i]? with - | n <;> simp

def Linked (nodes : List EventNode) : Direction → EntityRef → EntityRef → Prop
  | .backward, a, b => Derives nodes b a
  | .forward, a, b => Derives nodes a b

theorem mem_neighbours {direction : Direction} {a b : EntityRef} :
    b ∈ (project nodes).neighbours direction a ∧ b ≠ a ↔ Linked nodes direction a b := by
  rcases direction with - | -
  · rw [neighbours, mem_listed, eventNodes_project]
    simp only [mem_producing_consuming.1, Linked, Derives, Links]
    constructor
    · rintro ⟨⟨i, ⟨n, hn, ha⟩, n', hn', hb⟩, hne⟩
      cases hn.symm.trans hn'
      exact ⟨n, List.mem_of_getElem? hn, hb, ha, hne⟩
    · rintro ⟨n, hn, hb, ha, hne⟩
      obtain ⟨i, hi⟩ := List.mem_iff_getElem?.mp hn
      exact ⟨⟨i, ⟨n, hi, ha⟩, n, hi, hb⟩, hne⟩
  · rw [neighbours, mem_listed, eventNodes_project]
    simp only [mem_producing_consuming.2, Linked, Derives, Links]
    constructor
    · rintro ⟨⟨i, ⟨n, hn, ha⟩, n', hn', hb⟩, hne⟩
      cases hn.symm.trans hn'
      exact ⟨n, List.mem_of_getElem? hn, ha, hb, hne.symm⟩
    · rintro ⟨n, hn, ha, hb, hne⟩
      obtain ⟨i, hi⟩ := List.mem_iff_getElem?.mp hn
      exact ⟨⟨i, ⟨n, hi, ha⟩, n, hi, hb⟩, hne.symm⟩

/-! ## The search -/

def successors (g : LineageGraph) (direction : Direction) (node : EntityRef) : List EntityRef :=
  (g.neighbours direction node).filter (· ≠ node)

theorem closureLoop_eq (g : LineageGraph) (direction : Direction) (fuel : ℕ)
    (visited queue : List EntityRef) : g.closureLoop direction fuel visited queue =
      Search.visitNew (g.successors direction) fuel visited queue := by
  induction fuel generalizing visited queue with
  | zero => rfl
  | succ fuel ih =>
    rcases queue with - | ⟨node, queue⟩
    · rfl
    · have hfilter : (g.neighbours direction node).filter
          (fun neighbour ↦ ¬ (neighbour = node ∨ neighbour ∈ visited ++ [node])) =
          (g.successors direction node).filter (· ∉ visited ++ [node]) := by
        rw [successors, List.filter_filter]
        refine List.filter_congr fun neighbour _ ↦ ?_
        simp only [not_or, Bool.decide_and, Bool.and_comm]
      rw [closureLoop, Search.visitNew, ih, ih, hfilter]

theorem step_successors (nodes : List EventNode) (direction : Direction) :
    Search.Step ((project nodes).successors direction) = Linked nodes direction := by
  funext a b
  rw [Search.Step, successors, List.mem_filter, decide_eq_true_iff, eq_iff_iff, mem_neighbours]

theorem closure_spec (nodes : List EventNode) (entity : EntityRef) (direction : Direction) :
    ((project nodes).closure entity direction).Nodup ∧ ∀ a,
      a ∈ (project nodes).closure entity direction ↔
        Relation.ReflTransGen (Linked nodes direction) entity a ∧ a ≠ entity := by
  -- the search stays among the entity and what the events read and write
  let support := entity :: nodes.flatMap fun n ↦ n.inputs ++ n.outputs
  have hsupport : ∀ a, Relation.ReflTransGen (Search.Step
      ((project nodes).successors direction)) entity a → a ∈ support := by
    intro a ha
    rw [step_successors] at ha
    rcases Relation.ReflTransGen.cases_tail ha with rfl | ⟨b, -, hba⟩
    · exact List.mem_cons_self
    · refine List.mem_cons_of_mem _ (List.mem_flatMap.mpr ?_)
      rcases direction with - | - <;> obtain ⟨n, hn, hin, hout, -⟩ := hba
      · exact ⟨n, hn, List.mem_append_left _ hin⟩
      · exact ⟨n, hn, List.mem_append_right _ hout⟩
  have hfuel : 1 + (support.flatMap ((project nodes).successors direction)).length ≤
      (project nodes).closureFuel entity direction := by
    rw [closureFuel, eventNodes_project, List.length_flatMap, List.length_flatMap]
    exact Nat.add_le_add_left (List.sum_le_sum fun node _ ↦ List.length_filter_le _ _) 1
  obtain ⟨hnodup, hmem⟩ := Search.visitNew_spec support hsupport hfuel
  rw [closure, closureLoop_eq]
  refine ⟨((List.perm_insertionSort _ _).nodup_iff).mpr (hnodup.filter _), fun a ↦ ?_⟩
  rw [List.mem_insertionSort, List.mem_filter, hmem, step_successors, decide_eq_true_iff]

theorem mem_closure_iff (h : Acyclic (Derives nodes)) (entity a : EntityRef) :
    (a ∈ (project nodes).ancestors entity ↔ Relation.TransGen (Derives nodes) a entity) ∧
      (a ∈ (project nodes).descendants entity ↔ Relation.TransGen (Derives nodes) entity a) := by
  rw [ancestors, descendants, (closure_spec nodes entity .backward).2,
    (closure_spec nodes entity .forward).2]
  have hbackward : Relation.ReflTransGen (Linked nodes .backward) entity a ↔
      Relation.ReflTransGen (Derives nodes) a entity := Relation.reflTransGen_swap
  rw [hbackward, show Linked nodes .forward = Derives nodes from rfl]
  refine ⟨h.transGen_iff, ?_⟩
  rw [ne_comm]
  exact h.transGen_iff

/-! ## The named entities -/

theorem between_of_mem_cycleEntities {x : EntityRef} (hx : x ∈ (project nodes).cycleEntities) :
    ∃ y z, Relation.TransGen (Derives nodes) y y ∧ Relation.ReflTransGen (Derives nodes) y x ∧
      Relation.ReflTransGen (Derives nodes) x z ∧ Relation.TransGen (Derives nodes) z z := by
  obtain ⟨hforward, hbackward⟩ := List.mem_filter.mp hx
  have hedges := show Kahn.Edge _ = Derives nodes from
    funext₂ fun a b ↦ propext (edge_sources nodes a b)
  have hback := show Kahn.Edge _ = Function.swap (Derives nodes) from
    funext₂ fun a b ↦ propext (edge_targets nodes a b)
  obtain ⟨y, hy, hyx⟩ := Kahn.exists_cycle_of_mem_leftover
    (fun a b hab ↦ (mem_edge_ends ((edge_sources nodes a b).mp hab)).1) hforward
  obtain ⟨z, hz, hzx⟩ := Kahn.exists_cycle_of_mem_leftover
    (fun a b hab ↦ (mem_edge_ends ((edge_targets nodes a b).mp hab)).2)
    (of_decide_eq_true hbackward)
  rw [hedges] at hy hyx
  rw [hback] at hz hzx
  exact ⟨y, z, hy, hyx, Relation.reflTransGen_swap.mp hzx, Relation.transGen_swap.mp hz⟩

def Adj (g : LineageGraph) (a b : EntityRef) : Prop := ∃ e ∈ g.edges, e.source = a ∧ e.target = b

theorem adj_project (nodes : List EventNode) : (project nodes).Adj = Derives nodes :=
  funext₂ fun _ _ ↦ propext exists_edge_iff

/-- **Lineage is refused for a cycle and closed otherwise**: exactly when its edges have a cycle;
else the ancestors and the descendants are the transitive closures of the edges. -/
theorem build_cycle_closure (events : List TimelineEvent) :
    ((∃ entities, build events = .error (.cycleDetected entities)) ↔
      ∃ x, Relation.TransGen (project (nodesOf events)).Adj x x) ∧
    (∀ entities, build events = .error (.cycleDetected entities) → ∀ x ∈ entities, ∃ y z,
      Relation.TransGen (project (nodesOf events)).Adj y y ∧
      Relation.ReflTransGen (project (nodesOf events)).Adj y x ∧
      Relation.ReflTransGen (project (nodesOf events)).Adj x z ∧
      Relation.TransGen (project (nodesOf events)).Adj z z) ∧
    ∀ g, build events = .ok g → ∀ entity,
      ((g.ancestors entity).Nodup ∧
        ∀ a, a ∈ g.ancestors entity ↔ Relation.TransGen g.Adj a entity) ∧
      ((g.descendants entity).Nodup ∧
        ∀ a, a ∈ g.descendants entity ↔ Relation.TransGen g.Adj entity a) := by
  rw [adj_project]
  refine ⟨?_, fun entities herror x hx ↦ ?_, fun g hok entity ↦ ?_⟩
  · rw [← not_iff_not, not_exists, build_ne_error_iff, Acyclic, not_exists]
  · rw [build] at herror
    rcases hentities : (project (nodesOf events)).cycleEntities with - | ⟨first, rest⟩
    · rw [hentities] at herror
      cases herror
    · rw [hentities] at herror
      cases herror
      exact between_of_mem_cycleEntities (hentities ▸ hx)
  · have hacyclic : Acyclic (Derives (nodesOf events)) :=
      (build_ne_error_iff events).mp fun entities herror ↦ by
        rw [hok] at herror
        cases herror
    have hg : g = project (nodesOf events) := by
      rw [build] at hok
      split at hok
      · exact (Except.ok.inj hok).symm
      · cases hok
    rw [hg, adj_project]
    exact ⟨⟨(closure_spec _ entity .backward).1, fun a ↦ (mem_closure_iff hacyclic entity a).1⟩,
      (closure_spec _ entity .forward).1, fun a ↦ (mem_closure_iff hacyclic entity a).2⟩

/-- The slice of a cloned solid is closed; united in place with its clone, it is refused for both
of them. -/
theorem build_cycle_closure_cloned :
    (∃ g, build clonedSlice = .ok g ∧ Relation.TransGen g.Adj "solid:1" "solid:2") ∧
      ∃ y, Relation.TransGen (project (nodesOf (clonedSlice ++
        [.ofWire 3 "boolean_union" ["solid:1", "solid:2"] ["solid:1"]]))).Adj y y := by
  refine ⟨⟨project (nodesOf clonedSlice), rfl, ?_⟩, ?_⟩
  · exact (((build_cycle_closure clonedSlice).2.2 _ rfl "solid:1").2.2 "solid:2").mp (by decide)
  · obtain ⟨y, -, hy, -⟩ := (build_cycle_closure (clonedSlice ++
      [.ofWire 3 "boolean_union" ["solid:1", "solid:2"] ["solid:1"]])).2.1
      ["solid:1", "solid:2"] rfl "solid:1" List.mem_cons_self
    exact ⟨y, hy⟩

end LineageGraph

end RosheraCad
