import RosheraCad.Library.DiGraph
import RosheraCad.Library.Search
import RosheraCad.Types

/-!
# Dependency graph and rebuild plan

An event depends on the most recent prior event that put out an entity it reads. From the graph
follows which events a change of one event affects, and in which order they are rebuilt. The plan
notes an event once for each edge into it, so where two affected events feed one consumer, the
consumer stands in it twice.
-/

namespace RosheraCad

/-! ## The graph -/

inductive ConstraintType
  | geometric
  | dimensional
  | topological
  deriving DecidableEq

inductive DependencyType
  | dataRequirement (canSubstitute : Bool)
  | reference (constraintType : ConstraintType)
  | temporal
  | dimensional (parameter : String)
  deriving DecidableEq

structure DependencyEdge where
  dependencyType : DependencyType
  entities : List EntityId
  isCritical : Bool

/-- How a query or an update of the graph fails. -/
inductive DependencyError
  | eventNotFound (id : EventId)
  | dependencyViolation (message : String)
  deriving DecidableEq

structure DependencyGraph where
  graph : DiGraph EventId DependencyEdge
  eventNodes : OrderedMap EventId ℕ
  entityProducers : OrderedMap EntityId (List EventId)
  entityConsumers : OrderedMap EntityId (List EventId)

namespace DependencyGraph

def new : DependencyGraph := ⟨.empty, ∅, ∅, ∅⟩

def addEvent (g : DependencyGraph) (id : EventId) : DependencyGraph :=
  { g with
    graph := g.graph.addNode id
    eventNodes := g.eventNodes.insert id g.graph.nodes.length }

def nodeOrAdd (g : DependencyGraph) (id : EventId) : DependencyGraph × ℕ :=
  match g.eventNodes[id]? with
  | some n => (g, n)
  | none => (g.addEvent id, g.graph.nodes.length)

variable [GraphLibrary]

open GraphLibrary

/-- Add a dependency between two events. An edge that closes a cycle is taken out again. -/
def addDependency (g : DependencyGraph) (source target : EventId) (dependencyType : DependencyType)
    (entities : List EntityId) : DependencyGraph × Except DependencyError Unit :=
  let (g, sourceNode) := g.nodeOrAdd source
  let (g, targetNode) := g.nodeOrAdd target
  let edge : DependencyEdge :=
    ⟨dependencyType, entities, dependencyType = .dataRequirement false⟩
  let graph := g.graph.addEdge sourceNode targetNode edge
  let tracked := { g with
    entityProducers := g.entityProducers.push (entities.map (·, source))
    entityConsumers := g.entityConsumers.push (entities.map (·, target)) }
  if isCyclicDirected graph then
    (tracked, .error (.dependencyViolation "Adding this dependency would create a cycle"))
  else
    ({ tracked with graph := graph }, .ok ())

/-! ## The rebuild plan -/

def dependents (g : DependencyGraph) (n : ℕ) : List (EventId × ℕ) :=
  (edgesDirected g.graph n .outgoing).filterMap fun edge ↦
    g.graph.nodes[edge.target]?.map fun event ↦ (event, edge.target)

def collectAffected (g : DependencyGraph) : ℕ → List ℕ → List ℕ → List EventId → List EventId
  | fuel + 1, visited, current :: queue, affected =>
    if current ∈ visited then g.collectAffected fuel visited queue affected
    else
      let found := g.dependents current
      g.collectAffected fuel (visited ++ [current]) (queue ++ found.map Prod.snd)
        (affected ++ found.map Prod.fst)
  | _, _, _, affected => affected

def searchFuel (g : DependencyGraph) : ℕ :=
  1 + ((List.range g.graph.nodes.length).flatMap fun n ↦ (g.dependents n).map Prod.snd).length

def subgraph (g : DependencyGraph) (events : List EventId) : DiGraph EventId Unit :=
  let nodes := events.filter (· ∈ g.eventNodes)
  let subnodes := OrderedMap.insertEntries ∅ nodes.zipIdx
  { nodes := nodes
    edges := events.flatMap fun event ↦
      match g.eventNodes[event]?, subnodes[event]? with
      | some node, some subnode =>
        (edgesDirected g.graph node .incoming).filterMap fun edge ↦
          (g.graph.nodes[edge.source]?.bind (subnodes[·]?)).map fun s ↦ ⟨s, subnode, ()⟩
      | _, _ => [] }

def topologicalSortEvents (g : DependencyGraph) (events : List EventId) :
    Except DependencyError (List EventId) :=
  let subgraph := g.subgraph events
  match toposort subgraph with
  | some sorted => .ok (sorted.filterMap (subgraph.nodes[·]?))
  | none => .error (.dependencyViolation "Circular dependency detected")

/-- Find all events that need to be replayed after a given event. -/
def computeRebuildPlan (g : DependencyGraph) (fromEvent : EventId) :
    Except DependencyError (List EventId) :=
  match g.eventNodes[fromEvent]? with
  | none => .error (.eventNotFound fromEvent)
  | some node => g.topologicalSortEvents (g.collectAffected g.searchFuel [] [node] [])

end DependencyGraph

/-! ## The projection of a log -/

/-- What the engine uses of the UUID library to derive an id from a name. -/
class UuidDeriver where
  newV5 : Uuid → String → Uuid

/-- The order in which a hash map of the edges into an event is walked. -/
structure EdgeOrder where
  walk : EventId → List (EventId × List String) → List (EventId × List String)
  perm : ∀ e l, (walk e l).Perm l

namespace Dependency

def entityNamespace : Uuid := 0x646461672d656e746974792d6e733634

def entityIdFor [UuidDeriver] (key : String) : EntityId :=
  ⟨UuidDeriver.newV5 entityNamespace key⟩

def lineageKeys (operation : Operation) (field : String) : List String :=
  match operation with
  | .generic _ parameters =>
    match (parameters.get? field).bind Json.asArray? with
    | some items => (items.filterMap Json.asStr?).filter (· ≠ "")
    | none => []
  | _ => []

/-- Extract input and output entity keys from a recorded operation. -/
def lineage (operation : Operation) : List String × List String :=
  (lineageKeys operation "inputs", lineageKeys operation "outputs")

def producersByOutput (ordered : List TimelineEvent) :
    OrderedMap String (List (EventIndex × EventId)) :=
  .push ∅ (ordered.flatMap fun e ↦
    (lineage e.operation).2.map fun out ↦ (out, e.sequenceNumber, e.id))

def mostRecentProducer (event : TimelineEvent) (producers : List (EventIndex × EventId)) :
    Option (EventIndex × EventId) :=
  producers.foldl (fun best p ↦
    if event.sequenceNumber ≤ p.1 ∨ p.2 = event.id then best
    else match best with
      | none => some p
      | some b => if b.1 < p.1 then some p else some b) none

def producerOf (producers : OrderedMap String (List (EventIndex × EventId)))
    (event : TimelineEvent) (input : String) : Option EventId :=
  (producers[input]?.bind (mostRecentProducer event)).map Prod.snd

/-- Group an event's inputs, each taken once, by their most recent prior producer. -/
def edgesInto (producers : OrderedMap String (List (EventIndex × EventId)))
    (event : TimelineEvent) : OrderedMap EventId (List String) :=
  .push ∅ ((lineage event.operation).1.eraseDups.filterMap fun input ↦
    (producerOf producers event input).map (·, input))

variable [GraphLibrary] [UuidDeriver]

def addEdgesInto (g : DependencyGraph) (consumer : EventId)
    (edges : List (EventId × List String)) : DependencyGraph :=
  edges.foldl (fun g p ↦ (g.addDependency p.1 consumer (.dataRequirement false)
    (p.2.map entityIdFor)).1) g

/-- Fold an event log into a populated dependency graph. -/
def buildDependencyGraph (order : EdgeOrder) (events : List TimelineEvent) : DependencyGraph :=
  let ordered := events.insertionSort fun a b ↦ a.sequenceNumber ≤ b.sequenceNumber
  let graph := ordered.foldl (fun g e ↦ g.addEvent e.id) .new
  let producers := producersByOutput ordered
  ordered.foldl
    (fun g e ↦ addEdgesInto g e.id (order.walk e.id (edgesInto producers e).toList)) graph

end Dependency

/-! ## What a plan promises -/

/-- Every transitive dependent once, nothing else, and no event before one it depends on. -/
structure IsRebuildPlan (dependsOn : EventId → EventId → Prop) (changed : EventId)
    (plan : List EventId) : Prop where
  nodup : plan.Nodup
  mem_iff : ∀ e, e ∈ plan ↔ Relation.TransGen dependsOn changed e
  ordered : plan.Pairwise fun x y ↦ ¬ dependsOn y x

/-- No two of the changed event and its transitive dependents feed the same event. -/
def NoJoins (dependsOn : EventId → EventId → Prop) (changed : EventId) : Prop :=
  ∀ d p q, dependsOn p d → dependsOn q d → Relation.ReflTransGen dependsOn changed p →
    Relation.ReflTransGen dependsOn changed q → p = q

variable {c : EventId} {a b : EventId}

namespace DependencyGraph

structure Built (g : DependencyGraph) (ids : List EventId) (pairs : List (EventId × EventId)) :
    Prop where
  nodes : g.graph.nodes = ids
  index : ∀ (e : EventId) (i : ℕ), g.eventNodes[e]? = some i ↔ ids[i]? = some e
  edges : g.graph.edges.map (fun e ↦ (ids[e.source]?, ids[e.target]?)) =
    pairs.map fun p ↦ (some p.1, some p.2)
  forward : ∀ e ∈ g.graph.edges, e.source < e.target

namespace Built

variable {g : DependencyGraph} {ids : List EventId} {pairs : List (EventId × EventId)}
  {events : List EventId}

theorem exists_pair (h : g.Built ids pairs) {e : DiEdge DependencyEdge} (he : e ∈ g.graph.edges) :
    ∃ p ∈ pairs, ids[e.source]? = some p.1 ∧ ids[e.target]? = some p.2 := by
  have hmem := List.mem_map_of_mem (f := fun e ↦ (ids[e.source]?, ids[e.target]?)) he
  rw [h.edges] at hmem
  obtain ⟨p, hp, heq⟩ := List.mem_map.mp hmem
  obtain ⟨hsource, htarget⟩ := Prod.mk.inj heq
  exact ⟨p, hp, hsource.symm, htarget.symm⟩

theorem exists_edge (h : g.Built ids pairs) (hab : (a, b) ∈ pairs) :
    ∃ e ∈ g.graph.edges, ids[e.source]? = some a ∧ ids[e.target]? = some b := by
  have hmem := List.mem_map_of_mem (f := fun p : EventId × EventId ↦ (some p.1, some p.2)) hab
  rw [← h.edges] at hmem
  obtain ⟨e, he, heq⟩ := List.mem_map.mp hmem
  obtain ⟨hsource, htarget⟩ := Prod.mk.inj heq
  exact ⟨e, he, hsource, htarget⟩

theorem wellFormed (h : g.Built ids pairs) : g.graph.WellFormed := by
  intro e he
  obtain ⟨p, -, hsource, htarget⟩ := h.exists_pair he
  rw [h.nodes]
  exact ⟨(List.getElem?_eq_some_iff.mp hsource).1, (List.getElem?_eq_some_iff.mp htarget).1⟩

theorem index_unique (hids : ids.Nodup) {i j : ℕ} {a : EventId} (hi : ids[i]? = some a)
    (hj : ids[j]? = some a) : i = j := by
  obtain ⟨hi', rfl⟩ := List.getElem?_eq_some_iff.mp hi
  obtain ⟨hj', heq⟩ := List.getElem?_eq_some_iff.mp hj
  exact (hids.getElem_inj_iff.mp heq).symm

theorem acyclic (h : g.Built ids pairs) (hids : ids.Nodup) :
    Acyclic fun a b ↦ (a, b) ∈ pairs := by
  -- a path between events is a path between their positions
  have hlift {a b : EventId} (hab : Relation.TransGen (fun a b ↦ (a, b) ∈ pairs) a b) :
      ∃ i j : ℕ, ids[i]? = some a ∧ ids[j]? = some b ∧ i < j := by
    induction hab with
    | single hab =>
      obtain ⟨e, he, hsource, htarget⟩ := h.exists_edge hab
      exact ⟨_, _, hsource, htarget, h.forward e he⟩
    | tail _ hab ih =>
      obtain ⟨i, j, hi, hj, hij⟩ := ih
      obtain ⟨e, he, hsource, htarget⟩ := h.exists_edge hab
      obtain rfl := index_unique hids hj hsource
      exact ⟨i, _, hi, htarget, hij.trans (h.forward e he)⟩
  intro a ha
  obtain ⟨i, j, hi, hj, hij⟩ := hlift ha
  obtain rfl := index_unique hids hi hj
  exact lt_irrefl _ hij

theorem reflTransGen_iff (h : g.Built ids pairs) (hids : ids.Nodup) {i j : ℕ}
    (hi : ids[i]? = some a) (hj : ids[j]? = some b) :
    Relation.ReflTransGen g.graph.Adj i j ↔
      Relation.ReflTransGen (fun a b ↦ (a, b) ∈ pairs) a b := by
  constructor
  · intro hij
    induction hij generalizing b with
    | refl => exact Option.some_inj.mp (hi.symm.trans hj) ▸ .refl
    | tail _ hkj ih =>
      obtain ⟨e, he, rfl, rfl⟩ := hkj
      obtain ⟨p, hp, hsource, htarget⟩ := h.exists_pair he
      rw [hj] at htarget
      exact (ih hsource).tail (Option.some_inj.mp htarget ▸ hp)
  · intro hab
    induction hab generalizing j with
    | refl => exact index_unique hids hi hj ▸ .refl
    | tail _ hcb ih =>
      obtain ⟨e, he, hsource, htarget⟩ := h.exists_edge hcb
      obtain rfl := index_unique hids hj htarget
      exact (ih hsource).tail ⟨e, he, rfl, rfl⟩

/-! ### Occurrences -/

private abbrev subnodes (events : List EventId) : OrderedMap EventId ℕ :=
  .insertEntries ∅ events.zipIdx

private theorem getElem?_of_subnodes {e : EventId} {i : ℕ}
    (h : (subnodes events)[e]? = some i) : events[i]? = some e := by
  rcases OrderedMap.mem_or_of_getElem?_insertEntries h with h | h
  · exact List.mem_zipIdx_iff_getElem?.mp h
  · simp at h

private theorem subnodes_of_getElem? (hnodup : events.Nodup) {e : EventId}
    {i : ℕ} (h : events[i]? = some e) : (subnodes events)[e]? = some i := by
  refine OrderedMap.getElem?_insertEntries_of_mem (fun j hj ↦ ?_)
    (List.mem_zipIdx_iff_getElem?.mpr h) ∅
  exact index_unique hnodup (List.mem_zipIdx_iff_getElem?.mp hj) h

private theorem filter_eventNodes (h : g.Built ids pairs)
    (hevents : events ⊆ ids) : events.filter (· ∈ g.eventNodes) = events := by
  refine List.filter_eq_self.mpr fun e he ↦ ?_
  obtain ⟨i, hi⟩ := List.mem_iff_getElem?.mp (hevents he)
  exact decide_eq_true (OrderedMap.mem_of_getElem? ((h.index e i).mpr hi))

private theorem filterMap_range (events : List EventId) :
    (List.range events.length).filterMap (events[·]?) = events := by
  induction events using List.reverseRecOn with
  | nil => rfl
  | append_singleton events e ih =>
    rw [List.length_append, List.length_singleton, List.range_succ, List.filterMap_append]
    refine congrArg₂ _ ?_ (by simp)
    refine (List.filterMap_congr fun i hi ↦ ?_).trans ih
    exact List.getElem?_append_left (List.mem_range.mp hi)

/-! ### Collecting what is affected -/

section Collect

variable [GraphLibrary]

open GraphLibrary

abbrev successors (g : DependencyGraph) (n : ℕ) : List ℕ := (g.dependents n).map Prod.snd

theorem collectAffected_eq (g : DependencyGraph) (fuel : ℕ) (visited queue : List ℕ) :
    g.collectAffected fuel visited queue ((visited.flatMap g.dependents).map Prod.fst) =
      ((Search.visit (successors g) fuel visited queue).flatMap g.dependents).map Prod.fst := by
  induction fuel generalizing visited queue with
  | zero => rfl
  | succ fuel ih =>
    rcases queue with _ | ⟨current, queue⟩
    · rfl
    · rw [collectAffected, Search.visit]
      split_ifs with hcurrent
      · exact ih visited queue
      · have hnoted : (visited.flatMap g.dependents).map Prod.fst ++
            (g.dependents current).map Prod.fst =
              ((visited ++ [current]).flatMap g.dependents).map Prod.fst := by
          simp
        simp only [hnoted]
        exact ih (visited ++ [current]) (queue ++ successors g current)

abbrev affected (g : DependencyGraph) (node : ℕ) : List EventId :=
  g.collectAffected g.searchFuel [] [node] []

private abbrev visited (g : DependencyGraph) (node : ℕ) : List ℕ :=
  Search.visit (successors g) g.searchFuel [] [node]

private theorem affected_eq (g : DependencyGraph) (node : ℕ) :
    affected g node = ((visited g node).flatMap g.dependents).map Prod.fst :=
  collectAffected_eq g g.searchFuel [] [node]

variable [LawfulGraphLibrary] {node : ℕ}

section

variable (h : g.Built ids pairs)

include h

theorem mem_dependents {n : ℕ} {p : EventId × ℕ} :
    p ∈ g.dependents n ↔ g.graph.Adj n p.2 ∧ ids[p.2]? = some p.1 := by
  rw [dependents, List.mem_filterMap]
  simp only [(LawfulGraphLibrary.edgesDirected_perm g.graph n .outgoing).mem_iff, DiGraph.incident,
    List.mem_filter, h.nodes, Option.map_eq_some_iff]
  constructor
  · rintro ⟨e, ⟨he, hn⟩, event, hevent, rfl⟩
    exact ⟨⟨e, he, of_decide_eq_true hn, rfl⟩, hevent⟩
  · rintro ⟨⟨e, he, hn, htarget⟩, hevent⟩
    exact ⟨e, ⟨he, decide_eq_true hn⟩, p.1, htarget ▸ hevent, by rw [htarget]⟩

theorem mem_successors {n m : ℕ} :
    m ∈ successors g n ↔ g.graph.Adj n m := by
  rw [successors, List.mem_map]
  constructor
  · rintro ⟨p, hp, rfl⟩
    exact (h.mem_dependents.mp hp).1
  · intro hnm
    have hm : m < ids.length := by
      obtain ⟨e, he, -, rfl⟩ := hnm
      exact h.nodes ▸ (h.wellFormed e he).2
    exact ⟨(ids[m], m), h.mem_dependents.mpr ⟨hnm, List.getElem?_eq_getElem hm⟩, rfl⟩

theorem successors_eq (n : ℕ) :
    successors g n = (edgesDirected g.graph n .outgoing).map (·.target) := by
  rw [successors, dependents, List.map_filterMap, ← List.filterMap_eq_map]
  refine List.filterMap_congr fun e he ↦ ?_
  have he := (LawfulGraphLibrary.edgesDirected_perm g.graph n .outgoing).mem_iff.mp he
  rw [List.getElem?_eq_getElem (h.wellFormed e (List.mem_filter.mp he).1).2]
  rfl

theorem nodup_successors (hpairs : pairs.Nodup) (n : ℕ) :
    (successors g n).Nodup := by
  have hedges : (g.graph.edges.map fun e ↦ (e.source, e.target)).Nodup := by
    have hnodup : (g.graph.edges.map fun e ↦ (ids[e.source]?, ids[e.target]?)).Nodup := by
      rw [h.edges]
      refine hpairs.map fun p q hpq ↦ ?_
      obtain ⟨h₁, h₂⟩ := Prod.mk.inj hpq
      exact Prod.ext (Option.some_inj.mp h₁) (Option.some_inj.mp h₂)
    refine List.Nodup.of_map (fun p : ℕ × ℕ ↦ (ids[p.1]?, ids[p.2]?)) ?_
    rwa [List.map_map]
  -- the edges at one node differ in their targets
  have htargets : ((g.graph.incident n .outgoing).map (·.target)).Nodup := by
    refine List.Nodup.of_map (fun m ↦ (n, m)) ?_
    rw [List.map_map]
    have hsub := (List.filter_sublist (p := fun e : DiEdge DependencyEdge ↦ e.source = n)
      (l := g.graph.edges)).map fun e ↦ (e.source, e.target)
    refine (List.map_congr_left fun e he ↦ ?_) ▸ hedges.sublist hsub
    rw [Function.comp_apply, of_decide_eq_true (List.mem_filter.mp he).2]
  rw [h.successors_eq]
  exact ((LawfulGraphLibrary.edgesDirected_perm g.graph n .outgoing).map _).nodup_iff.mpr htargets

private theorem visited_spec (hc : ids[node]? = some c) : (visited g node).Nodup ∧
      ∀ i, i ∈ visited g node ↔ Relation.ReflTransGen g.graph.Adj node i := by
  have hstep : Search.Step (successors g) = g.graph.Adj :=
    funext₂ fun a b ↦ propext h.mem_successors
  rw [← hstep]
  refine Search.visit_spec (List.range g.graph.nodes.length) (fun i hi ↦ ?_) le_rfl
  rw [List.mem_range]
  rcases Relation.ReflTransGen.cases_tail hi with rfl | ⟨k, -, hk⟩
  · rw [h.nodes]
    exact (List.getElem?_eq_some_iff.mp hc).1
  · obtain ⟨e, he, -, rfl⟩ := h.mem_successors.mp hk
    exact (h.wellFormed e he).2

theorem mem_affected (hids : ids.Nodup) {c e : EventId} (hc : ids[node]? = some c) :
    e ∈ affected g node ↔ Relation.TransGen (fun a b ↦ (a, b) ∈ pairs) c e := by
  obtain ⟨-, hmem⟩ := h.visited_spec hc
  rw [affected_eq, List.mem_map, Relation.TransGen.tail'_iff]
  constructor
  · rintro ⟨⟨e, i⟩, hp, rfl⟩
    obtain ⟨n, hn, hp⟩ := List.mem_flatMap.mp hp
    obtain ⟨⟨edge, hedge, rfl, rfl⟩, he⟩ := h.mem_dependents.mp hp
    obtain ⟨q, hq, hsource, htarget⟩ := h.exists_pair hedge
    refine ⟨q.1, (h.reflTransGen_iff hids hc hsource).mp ((hmem _).mp hn), ?_⟩
    rw [he] at htarget
    rwa [Option.some_inj.mp htarget]
  · rintro ⟨p, hcp, hpe⟩
    obtain ⟨edge, hedge, hsource, htarget⟩ := h.exists_edge hpe
    have hn := (hmem _).mpr ((h.reflTransGen_iff hids hc hsource).mpr hcp)
    refine ⟨(e, edge.target), List.mem_flatMap.mpr ⟨edge.source, hn, ?_⟩, rfl⟩
    exact h.mem_dependents.mpr ⟨⟨edge, hedge, rfl, rfl⟩, htarget⟩

theorem nodup_affected_iff (hids : ids.Nodup) (hpairs : pairs.Nodup) (hc : ids[node]? = some c) :
    (affected g node).Nodup ↔ NoJoins (fun a b ↦ (a, b) ∈ pairs) c := by
  obtain ⟨hnodup, hmem⟩ := h.visited_spec hc
  have hpos : ∀ p ∈ (visited g node).flatMap g.dependents, ids[p.2]? = some p.1 := by
    intro p hp
    obtain ⟨n, -, hp⟩ := List.mem_flatMap.mp hp
    exact (h.mem_dependents.mp hp).2
  -- an event and its position determine each other
  have hboth : (affected g node).Nodup ↔ ((visited g node).flatMap (successors g)).Nodup := by
    rw [affected_eq, ← List.map_flatMap]
    constructor
    · intro hfst
      refine hfst.of_map.map_on fun p hp q hq hpq ↦ ?_
      have := hpos p hp
      rw [hpq, hpos q hq] at this
      exact Prod.ext (Option.some_inj.mp this).symm hpq
    · intro hsnd
      refine hsnd.of_map.map_on fun p hp q hq hpq ↦ ?_
      exact Prod.ext hpq (index_unique hids (hpos p hp) (hpq ▸ hpos q hq))
  rw [hboth, List.nodup_flatMap, and_iff_right fun n _ ↦ h.nodup_successors hpairs n]
  constructor
  · intro hdisjoint d p q hpd hqd hcp hcq
    obtain ⟨e, he, hep, hed⟩ := h.exists_edge hpd
    obtain ⟨f, hf, hfq, hfd⟩ := h.exists_edge hqd
    have htarget := index_unique hids hed hfd
    have he' := (hmem _).mpr ((h.reflTransGen_iff hids hc hep).mpr hcp)
    have hf' := (hmem _).mpr ((h.reflTransGen_iff hids hc hfq).mpr hcq)
    by_contra hpq
    have hne : e.source ≠ f.source := by
      intro heq
      rw [heq, hfq] at hep
      exact hpq (Option.some_inj.mp hep).symm
    have : Std.Symm (Function.onFun List.Disjoint (successors g)) :=
      ⟨fun _ _ h ↦ List.Disjoint.symm h⟩
    exact hdisjoint.forall he' hf' hne (h.mem_successors.mpr ⟨e, he, rfl, rfl⟩)
      (h.mem_successors.mpr ⟨f, hf, rfl, htarget.symm⟩)
  · intro hjoins
    refine hnodup.pairwise_of_forall_ne fun n hn m hm hnm t hnt hmt ↦ hnm ?_
    obtain ⟨e, he, rfl, rfl⟩ := h.mem_successors.mp hnt
    obtain ⟨f, hf, rfl, htarget⟩ := h.mem_successors.mp hmt
    obtain ⟨p, hp, hps, hpt⟩ := h.exists_pair he
    obtain ⟨q, hq, hqs, hqt⟩ := h.exists_pair hf
    rw [htarget, hpt] at hqt
    have hpq := hjoins p.2 p.1 q.1 hp (Option.some_inj.mp hqt ▸ hq)
      ((h.reflTransGen_iff hids hc hps).mp ((hmem _).mp hn))
      ((h.reflTransGen_iff hids hc hqs).mp ((hmem _).mp hm))
    exact index_unique hids hps (hpq ▸ hqs)

end

/-! ### Ordering what is affected -/

section

variable (h : g.Built ids pairs)

include h

omit [LawfulGraphLibrary] in
theorem nodes_subgraph (hevents : events ⊆ ids) :
    (g.subgraph events).nodes = events := h.filter_eventNodes hevents

theorem adj_subgraph (hevents : events ⊆ ids) {i j : ℕ} (hij : (g.subgraph events).Adj i j) :
    ∃ a b, events[i]? = some a ∧ events[j]? = some b ∧ (a, b) ∈ pairs := by
  obtain ⟨e, he, rfl, rfl⟩ := hij
  rw [subgraph, h.filter_eventNodes hevents] at he
  obtain ⟨b, -, he⟩ := List.mem_flatMap.mp he
  rcases hnode : g.eventNodes[b]? with _ | node
  · simp [hnode] at he
  rcases hsub : (subnodes events)[b]? with _ | sub
  · simp [hnode, hsub] at he
  simp only [hnode, hsub, List.mem_filterMap, Option.map_eq_some_iff,
    Option.bind_eq_some_iff] at he
  obtain ⟨edge, hedge, s, ⟨a, ha, hs⟩, rfl⟩ := he
  have hedge := (LawfulGraphLibrary.edgesDirected_perm g.graph node .incoming).mem_iff.mp hedge
  obtain ⟨hedge, htarget⟩ := List.mem_filter.mp hedge
  obtain ⟨p, hp, hsource, hp₂⟩ := h.exists_pair hedge
  rw [h.nodes, hsource] at ha
  rw [of_decide_eq_true htarget, (h.index b node).mp hnode] at hp₂
  refine ⟨a, b, getElem?_of_subnodes hs, getElem?_of_subnodes hsub, ?_⟩
  rwa [← Option.some_inj.mp ha, Option.some_inj.mp hp₂]

theorem adj_subgraph_of_pair (hevents : events ⊆ ids) (hnodup : events.Nodup) {i j : ℕ}
    (hi : events[i]? = some a) (hj : events[j]? = some b) (hab : (a, b) ∈ pairs) :
    (g.subgraph events).Adj i j := by
  obtain ⟨edge, hedge, hsource, htarget⟩ := h.exists_edge hab
  refine ⟨⟨i, j, ()⟩, ?_, rfl, rfl⟩
  rw [subgraph, h.filter_eventNodes hevents]
  refine List.mem_flatMap.mpr ⟨b, List.mem_of_getElem? hj, ?_⟩
  have hnode := (h.index b edge.target).mpr htarget
  have hsub := subnodes_of_getElem? hnodup hj
  simp only [hnode, hsub, List.mem_filterMap, Option.map_eq_some_iff, Option.bind_eq_some_iff]
  refine ⟨edge, ?_, i, ⟨a, h.nodes ▸ hsource, subnodes_of_getElem? hnodup hi⟩, rfl⟩
  refine (LawfulGraphLibrary.edgesDirected_perm g.graph _ .incoming).mem_iff.mpr ?_
  exact List.mem_filter.mpr ⟨hedge, decide_eq_true rfl⟩

/-- **The affected events are sorted**: where none occurs twice, none stands before one it depends
on. -/
theorem topologicalSortEvents_spec (hids : ids.Nodup) (hevents : events ⊆ ids) :
    ∃ plan, g.topologicalSortEvents events = .ok plan ∧ plan.Perm events ∧
      (events.Nodup → plan.Pairwise fun x y ↦ (y, x) ∉ pairs) := by
  have hnodes := h.nodes_subgraph hevents
  have hwf : (g.subgraph events).WellFormed := by
    intro e he
    obtain ⟨a, b, ha, hb, -⟩ := h.adj_subgraph hevents ⟨e, he, rfl, rfl⟩
    rw [hnodes]
    exact ⟨(List.getElem?_eq_some_iff.mp ha).1, (List.getElem?_eq_some_iff.mp hb).1⟩
  -- a cycle of occurrences would be a cycle of events
  have hacyclic : Acyclic (g.subgraph events).Adj := by
    intro i hi
    have hlift : ∀ {j}, Relation.TransGen (g.subgraph events).Adj i j → ∃ a b,
        events[i]? = some a ∧ events[j]? = some b ∧
          Relation.TransGen (fun a b ↦ (a, b) ∈ pairs) a b := by
      intro j hij
      induction hij with
      | single hij =>
        obtain ⟨a, b, ha, hb, hab⟩ := h.adj_subgraph hevents hij
        exact ⟨a, b, ha, hb, .single hab⟩
      | tail _ hkj ih =>
        obtain ⟨a, b, ha, hb, hab⟩ := ih
        obtain ⟨b', d, hb', hd, hbd⟩ := h.adj_subgraph hevents hkj
        rw [hb'] at hb
        obtain rfl := Option.some_inj.mp hb
        exact ⟨a, d, ha, hd, hab.tail hbd⟩
    obtain ⟨a, b, ha, hb, hab⟩ := hlift hi
    rw [hb] at ha
    obtain rfl := Option.some_inj.mp ha
    exact h.acyclic hids _ hab
  rcases hsort : toposort (g.subgraph events) with _ | order
  · exact absurd hacyclic (LawfulGraphLibrary.toposort_none hwf hsort)
  · refine ⟨order.filterMap (events[·]?), ?_, ?_, fun hnodup ↦ ?_⟩
    · rw [topologicalSortEvents]
      simp only [hsort, hnodes]
    · have hperm := LawfulGraphLibrary.toposort_perm hwf hsort
      rw [hnodes] at hperm
      exact (hperm.filterMap _).trans (by rw [filterMap_range])
    · refine List.pairwise_filterMap.mpr ?_
      refine (LawfulGraphLibrary.toposort_pairwise hwf hsort).imp fun hij x hx y hy hyx ↦ hij ?_
      exact h.adj_subgraph_of_pair hevents hnodup hy hx hyx

theorem exists_computeRebuildPlan (hids : ids.Nodup) (hnode : ids[node]? = some c) :
    ∃ plan, g.computeRebuildPlan c = .ok plan ∧ plan.Perm (affected g node) ∧
      ((affected g node).Nodup → plan.Pairwise fun x y ↦ (y, x) ∉ pairs) := by
  have hsub : affected g node ⊆ ids := by
    intro e he
    obtain ⟨p, -, hpe⟩ := Relation.TransGen.tail'_iff.mp ((h.mem_affected hids hnode).mp he)
    obtain ⟨_, -, -, htarget⟩ := h.exists_edge hpe
    exact List.mem_of_getElem? htarget
  rw [computeRebuildPlan, (h.index c node).mpr hnode]
  exact h.topologicalSortEvents_spec hids hsub

theorem exists_plan_mem_iff (hids : ids.Nodup)
    (hc : c ∈ ids) : ∃ plan, g.computeRebuildPlan c = .ok plan ∧
      ∀ e, e ∈ plan ↔ Relation.TransGen (fun a b ↦ (a, b) ∈ pairs) c e := by
  obtain ⟨node, hnode⟩ := List.mem_iff_getElem?.mp hc
  obtain ⟨plan, hplan, hperm, -⟩ := h.exists_computeRebuildPlan hids hnode
  exact ⟨plan, hplan, fun e ↦ by rw [hperm.mem_iff, h.mem_affected hids hnode]⟩

theorem computeRebuildPlan_iff (hids : ids.Nodup) (hpairs : pairs.Nodup) (hc : c ∈ ids) :
    (∃ plan, g.computeRebuildPlan c = .ok plan ∧
        IsRebuildPlan (fun a b ↦ (a, b) ∈ pairs) c plan) ↔
      NoJoins (fun a b ↦ (a, b) ∈ pairs) c := by
  obtain ⟨node, hnode⟩ := List.mem_iff_getElem?.mp hc
  obtain ⟨plan, hcompute, hperm, hordered⟩ := h.exists_computeRebuildPlan hids hnode
  rw [← h.nodup_affected_iff hids hpairs hnode, ← hperm.nodup_iff]
  constructor
  · rintro ⟨plan', hplan', hspec⟩
    rw [hcompute] at hplan'
    exact Except.ok.inj hplan' ▸ hspec.nodup
  · intro hnodup
    refine ⟨plan, hcompute, hnodup, fun e ↦ ?_, hordered (hperm.nodup_iff.mp hnodup)⟩
    rw [hperm.mem_iff, h.mem_affected hids hnode]

end

end Collect

end Built

end DependencyGraph

/-! ## Building the graph -/

namespace DependencyGraph.Built

variable {g : DependencyGraph} {ids : List EventId} {pairs : List (EventId × EventId)}

theorem new : Built .new [] [] := by
  refine ⟨rfl, fun e i ↦ ?_, rfl, by simp [DependencyGraph.new, DiGraph.empty]⟩
  simp [DependencyGraph.new]

theorem addEvent (h : g.Built ids []) {id : EventId} (hid : id ∉ ids) :
    (g.addEvent id).Built (ids ++ [id]) [] := by
  have hedges : g.graph.edges = [] := List.map_eq_nil_iff.mp h.edges
  refine ⟨?_, fun e i ↦ ?_, ?_, ?_⟩
  · rw [DependencyGraph.addEvent, DiGraph.addNode, h.nodes]
  · rw [DependencyGraph.addEvent, OrderedMap.lookup_insert, h.nodes]
    by_cases he : e = id
    · subst he
      rw [if_pos rfl, Option.some_inj]
      constructor
      · rintro rfl
        simp
      · intro hi
        rcases Nat.lt_or_ge i ids.length with hlt | hge
        · rw [List.getElem?_append_left hlt] at hi
          exact absurd (List.mem_of_getElem? hi) hid
        · obtain ⟨hlt, -⟩ := List.getElem?_eq_some_iff.mp hi
          rw [List.length_append, List.length_singleton] at hlt
          omega
    · rw [if_neg he, h.index]
      rcases Nat.lt_or_ge i ids.length with hlt | hge
      · rw [List.getElem?_append_left hlt]
      · rw [List.getElem?_append_right hge, List.getElem?_eq_none hge]
        simp [List.getElem?_singleton, Ne.symm he]
  · simp [DependencyGraph.addEvent, DiGraph.addNode, hedges]
  · simp [DependencyGraph.addEvent, DiGraph.addNode, hedges]

theorem foldl_addEvent (h : g.Built ids []) (events : List TimelineEvent)
    (hids : (ids ++ events.map (·.id)).Nodup) :
    (events.foldl (fun g e ↦ g.addEvent e.id) g).Built (ids ++ events.map (·.id)) [] := by
  induction events generalizing g ids with
  | nil => simpa using h
  | cons e events ih =>
    have hassoc : ids ++ (e :: events).map (·.id) = (ids ++ [e.id]) ++ events.map (·.id) := by simp
    rw [hassoc] at hids ⊢
    refine ih (h.addEvent fun hmem ↦ ?_) hids
    exact List.disjoint_of_nodup_append (List.nodup_append.mp hids).1 hmem
      (List.mem_singleton_self _)

variable [GraphLibrary] [LawfulGraphLibrary]

open GraphLibrary

/-- **An edge that points forward is accepted.** -/
theorem addDependency (h : g.Built ids pairs) {i j : ℕ} (hi : ids[i]? = some a)
    (hj : ids[j]? = some b) (hij : i < j) (dependencyType : DependencyType)
    (entities : List EntityId) :
    (g.addDependency a b dependencyType entities).1.Built ids (pairs ++ [(a, b)]) := by
  have ha : g.nodeOrAdd a = (g, i) := by rw [nodeOrAdd, (h.index a i).mpr hi]
  have hb : g.nodeOrAdd b = (g, j) := by rw [nodeOrAdd, (h.index b j).mpr hj]
  rw [DependencyGraph.addDependency]
  simp only [ha, hb]
  generalize DependencyEdge.mk dependencyType entities
    (decide (dependencyType = .dataRequirement false)) = edge
  have hforward : ∀ e ∈ (g.graph.addEdge i j edge).edges, e.source < e.target := by
    intro e he
    rcases List.mem_append.mp he with he | he
    · exact h.forward e he
    · obtain rfl := List.mem_singleton.mp he
      exact hij
  have hwf : (g.graph.addEdge i j edge).WellFormed := by
    intro e he
    rcases List.mem_append.mp he with he | he
    · exact h.wellFormed e he
    · obtain rfl := List.mem_singleton.mp he
      rw [DiGraph.addEdge, h.nodes]
      exact ⟨(List.getElem?_eq_some_iff.mp hi).1, (List.getElem?_eq_some_iff.mp hj).1⟩
  have hcyclic : ¬ isCyclicDirected (g.graph.addEdge i j edge) = true := by
    rw [LawfulGraphLibrary.isCyclicDirected_iff hwf, not_not]
    exact DiGraph.acyclic_of_lt hforward
  rw [if_neg hcyclic]
  refine ⟨h.nodes, h.index, ?_, hforward⟩
  rw [DiGraph.addEdge, List.map_append, List.map_append, h.edges]
  simp [hi, hj]

variable [UuidDeriver]

open Dependency

theorem addEdgesInto (h : g.Built ids pairs) {consumer : EventId} {j : ℕ}
    (hj : ids[j]? = some consumer) {edges : List (EventId × List String)}
    (hedges : ∀ p ∈ edges, ∃ i, ids[i]? = some p.1 ∧ i < j) :
    (Dependency.addEdgesInto g consumer edges).Built ids
      (pairs ++ edges.map fun p ↦ (p.1, consumer)) := by
  unfold Dependency.addEdgesInto
  induction edges generalizing g pairs with
  | nil => simpa using h
  | cons p edges ih =>
    obtain ⟨i, hi, hij⟩ := hedges p List.mem_cons_self
    have hassoc : pairs ++ (p :: edges).map (fun p ↦ (p.1, consumer)) =
        (pairs ++ [(p.1, consumer)]) ++ edges.map fun p ↦ (p.1, consumer) := by simp
    rw [List.foldl_cons, hassoc]
    exact ih (h.addDependency hi hj hij _ _) fun q hq ↦ hedges q (List.mem_cons_of_mem _ hq)

end DependencyGraph.Built

/-! ## The links of a log -/

/-- Events in append order: ascending sequence numbers, and an id for each. -/
structure AppendOrder (events : List TimelineEvent) : Prop where
  ascending : events.Pairwise fun a b ↦ a.sequenceNumber < b.sequenceNumber
  ids : (events.map (·.id)).Nodup

variable {events : List TimelineEvent}

theorem AppendOrder.eq_of_id (h : AppendOrder events)
    {a b : TimelineEvent} (ha : a ∈ events) (hb : b ∈ events) (hab : a.id = b.id) : a = b :=
  List.inj_on_of_nodup_map h.ids ha hb hab

theorem AppendOrder.eq_of_sequence (h : AppendOrder events)
    {a b : TimelineEvent} (ha : a ∈ events) (hb : b ∈ events)
    (hab : a.sequenceNumber = b.sequenceNumber) : a = b := by
  have hseqs : (events.map (·.sequenceNumber)).Nodup :=
    List.pairwise_map.mpr (h.ascending.imp fun hlt ↦ hlt.ne)
  exact List.inj_on_of_nodup_map hseqs ha hb hab

namespace Dependency

def Feeds (events : List TimelineEvent) (key : String) (p e : TimelineEvent) : Prop :=
  key ∈ (lineage p.operation).2 ∧ p.sequenceNumber < e.sequenceNumber ∧
    ∀ q ∈ events, key ∈ (lineage q.operation).2 →
      q.sequenceNumber < e.sequenceNumber → q.sequenceNumber ≤ p.sequenceNumber

/-- The second event depends on the first: the most recent prior producer of something it reads. -/
def DependsOn (events : List TimelineEvent) (a b : EventId) : Prop :=
  ∃ p ∈ events, ∃ e ∈ events, p.id = a ∧ e.id = b ∧
    ∃ key ∈ (lineage e.operation).1, Feeds events key p e

theorem mem_producersByOutput {key : String} {p : EventIndex × EventId} :
    p ∈ (producersByOutput events)[key]?.getD [] ↔
      ∃ e ∈ events, key ∈ (lineage e.operation).2 ∧ (e.sequenceNumber, e.id) = p := by
  rw [producersByOutput, OrderedMap.getD_push]
  simp only [Std.ExtTreeMap.not_mem_empty, not_false_eq_true, getElem?_neg, Option.getD_none,
    List.nil_append, List.mem_map, List.mem_filter, List.mem_flatMap]
  constructor
  · rintro ⟨_, ⟨⟨e, he, out, hout, rfl⟩, hkey⟩, rfl⟩
    exact ⟨e, he, of_decide_eq_true hkey ▸ hout, rfl⟩
  · rintro ⟨e, he, hkey, rfl⟩
    exact ⟨_, ⟨⟨e, he, key, hkey, rfl⟩, decide_eq_true rfl⟩, rfl⟩

def IsPrior (event : TimelineEvent) (p : EventIndex × EventId) : Prop :=
  p.1 < event.sequenceNumber ∧ p.2 ≠ event.id

theorem mostRecentProducer_spec (event : TimelineEvent) (producers : List (EventIndex × EventId)) :
    match mostRecentProducer event producers with
    | none => ∀ p ∈ producers, ¬ IsPrior event p
    | some b => b ∈ producers ∧ IsPrior event b ∧
        ∀ p ∈ producers, IsPrior event p → p.1 ≤ b.1 := by
  -- The scan keeps the latest producer so far, so the induction is on the last producer.
  induction producers using List.reverseRecOn with
  | nil => simp [mostRecentProducer]
  | append_singleton producers p ih =>
    have hstep : mostRecentProducer event (producers ++ [p]) =
        if event.sequenceNumber ≤ p.1 ∨ p.2 = event.id then mostRecentProducer event producers
        else match mostRecentProducer event producers with
          | none => some p
          | some b => if b.1 < p.1 then some p else some b := by
      rw [mostRecentProducer, List.foldl_append]
      rfl
    have hprior : (event.sequenceNumber ≤ p.1 ∨ p.2 = event.id) ↔ ¬ IsPrior event p := by
      rw [IsPrior, not_and_or, not_lt, not_not]
    have hsplit {P : EventIndex × EventId → Prop} :
        (∀ q ∈ producers ++ [p], P q) ↔ (∀ q ∈ producers, P q) ∧ P p := by
      simp [or_imp, forall_and]
    by_cases hp : IsPrior event p
    · rw [if_neg (hprior.not.mpr (not_not.mpr hp))] at hstep
      rcases hfound : mostRecentProducer event producers with _ | b
      · rw [hfound] at hstep ih
        rw [hstep]
        refine ⟨by simp, hp, hsplit.mpr ⟨fun q hq hqp ↦ absurd hqp (ih q hq), fun _ ↦ le_rfl⟩⟩
      · rw [hfound] at hstep ih
        obtain ⟨hb, hbprior, hmax⟩ := ih
        replace hstep : mostRecentProducer event (producers ++ [p]) =
          if b.1 < p.1 then some p else some b := hstep
        rcases lt_or_ge b.1 p.1 with hlt | hge
        · rw [hstep, if_pos hlt]
          exact ⟨by simp, hp,
            hsplit.mpr ⟨fun q hq hqp ↦ (hmax q hq hqp).trans hlt.le, fun _ ↦ le_rfl⟩⟩
        · rw [hstep, if_neg (not_lt.mpr hge)]
          exact ⟨List.mem_append_left _ hb, hbprior, hsplit.mpr ⟨hmax, fun _ ↦ hge⟩⟩
    · rw [if_pos (hprior.mpr hp)] at hstep
      rw [hstep]
      rcases hfound : mostRecentProducer event producers with _ | b
      · rw [hfound] at ih
        exact hsplit.mpr ⟨ih, hp⟩
      · rw [hfound] at ih
        obtain ⟨hb, hbprior, hmax⟩ := ih
        exact ⟨List.mem_append_left _ hb, hbprior, hsplit.mpr ⟨hmax, fun h ↦ absurd h hp⟩⟩

theorem producerOf_eq_some_iff (h : AppendOrder events)
    {e : TimelineEvent} (he : e ∈ events) {key : String} {a : EventId} :
    producerOf (producersByOutput events) e key = some a ↔
      ∃ p ∈ events, p.id = a ∧ Feeds events key p e := by
  have hne : ∀ p ∈ events, p.sequenceNumber < e.sequenceNumber → p.id ≠ e.id := by
    intro p hp hlt hid
    rw [h.eq_of_id hp he hid] at hlt
    exact lt_irrefl _ hlt
  have hlookup : (producersByOutput events)[key]?.bind (mostRecentProducer e) =
      mostRecentProducer e ((producersByOutput events)[key]?.getD []) := by
    rcases (producersByOutput events)[key]? with _ | producers
    · rfl
    · rfl
  rw [producerOf, hlookup]
  have hspec := mostRecentProducer_spec e ((producersByOutput events)[key]?.getD [])
  rcases hfound : mostRecentProducer e ((producersByOutput events)[key]?.getD []) with _ | b
  · rw [hfound] at hspec
    simp only [Option.map_none, reduceCtorEq, false_iff]
    rintro ⟨p, hp, rfl, hkey, hlt, -⟩
    exact hspec _ (mem_producersByOutput.mpr ⟨p, hp, hkey, rfl⟩) ⟨hlt, hne p hp hlt⟩
  · rw [hfound] at hspec
    obtain ⟨hb, ⟨hlt, -⟩, hmax⟩ := hspec
    obtain ⟨p, hp, hkey, rfl⟩ := mem_producersByOutput.mp hb
    simp only [Option.map_some, Option.some_inj]
    have hlatest : ∀ q ∈ events, key ∈ (lineage q.operation).2 →
        q.sequenceNumber < e.sequenceNumber → q.sequenceNumber ≤ p.sequenceNumber :=
      fun q hq hkeyq hltq ↦
        hmax _ (mem_producersByOutput.mpr ⟨q, hq, hkeyq, rfl⟩) ⟨hltq, hne q hq hltq⟩
    constructor
    · rintro rfl
      exact ⟨p, hp, rfl, hkey, hlt, hlatest⟩
    · rintro ⟨q, hq, rfl, hkeyq, hltq, hmaxq⟩
      -- two latest producers have one sequence number
      have hpq := hmaxq p hp hkey hlt
      have hqp := hlatest q hq hkeyq hltq
      rw [h.eq_of_sequence hp hq (le_antisymm hpq hqp)]

theorem mem_edgesInto (h : AppendOrder events) {e : TimelineEvent} (he : e ∈ events) {a : EventId} :
    a ∈ edgesInto (producersByOutput events) e ↔ DependsOn events a e.id := by
  rw [edgesInto, OrderedMap.mem_push]
  simp only [Std.ExtTreeMap.not_mem_empty, false_or, List.mem_filterMap, Option.map_eq_some_iff,
    List.mem_eraseDups]
  constructor
  · rintro ⟨_, key, hkey, p, hp, heq⟩
    obtain ⟨rfl, rfl⟩ := Prod.mk.inj heq
    obtain ⟨q, hq, rfl, hfeeds⟩ := (producerOf_eq_some_iff h he).mp hp
    exact ⟨q, hq, e, he, rfl, rfl, key, hkey, hfeeds⟩
  · rintro ⟨p, hp, e', he', rfl, hid, key, hkey, hfeeds⟩
    obtain rfl := h.eq_of_id he' he hid
    exact ⟨key, key, hkey, p.id, (producerOf_eq_some_iff h he).mpr ⟨p, hp, rfl, hfeeds⟩, rfl⟩

def links (order : EdgeOrder) (events : List TimelineEvent) : List (EventId × EventId) :=
  events.flatMap fun e ↦ (order.walk e.id (edgesInto (producersByOutput events) e).toList).map
    fun p ↦ (p.1, e.id)

private theorem mem_map_walk (order : EdgeOrder) {id a : EventId}
    {m : OrderedMap EventId (List String)} :
    a ∈ (order.walk id m.toList).map Prod.fst ↔ a ∈ m := by
  rw [((order.perm id m.toList).map Prod.fst).mem_iff, Std.ExtTreeMap.map_fst_toList_eq_keys,
    Std.ExtTreeMap.mem_keys]

theorem mem_links (order : EdgeOrder) (h : AppendOrder events)
    : (a, b) ∈ links order events ↔ DependsOn events a b := by
  rw [links, List.mem_flatMap]
  constructor
  · rintro ⟨e, he, hmem⟩
    obtain ⟨p, hp, heq⟩ := List.mem_map.mp hmem
    obtain ⟨rfl, rfl⟩ := Prod.mk.inj heq
    exact (mem_edgesInto h he).mp ((mem_map_walk order).mp (List.mem_map_of_mem hp))
  · rintro ⟨p, hp, e, he, rfl, rfl, hfeeds⟩
    have hmem := (mem_edgesInto h he).mpr ⟨p, hp, e, he, rfl, rfl, hfeeds⟩
    have hwalk : p.id ∈ (order.walk e.id (edgesInto (producersByOutput events) e).toList).map
        Prod.fst := (mem_map_walk order).mpr hmem
    obtain ⟨q, hq, hqp⟩ := List.mem_map.mp hwalk
    exact ⟨e, he, List.mem_map.mpr ⟨q, hq, by rw [hqp]⟩⟩

theorem nodup_links {order : EdgeOrder} (h : AppendOrder events) :
    (links order events).Nodup := by
  rw [links, List.nodup_flatMap]
  constructor
  · intro e _
    have hkeys : ((order.walk e.id (edgesInto (producersByOutput events) e).toList).map
        Prod.fst).Nodup := by
      rw [((order.perm e.id _).map Prod.fst).nodup_iff, Std.ExtTreeMap.map_fst_toList_eq_keys]
      exact Std.ExtTreeMap.nodup_keys
    refine List.Nodup.of_map Prod.fst ?_
    rwa [List.map_map]
  · refine (List.pairwise_map.mp h.ids).imp fun hne p hp hq ↦ hne ?_
    obtain ⟨_, -, rfl⟩ := List.mem_map.mp hp
    obtain ⟨_, -, heq⟩ := List.mem_map.mp hq
    exact (Prod.mk.inj heq).2.symm

section Built

variable [GraphLibrary] [LawfulGraphLibrary] [UuidDeriver]

theorem built_buildDependencyGraph (order : EdgeOrder) (h : AppendOrder events) :
    (buildDependencyGraph order events).Built (events.map (·.id)) (links order events) := by
  have hordered : events.insertionSort (fun a b ↦ a.sequenceNumber ≤ b.sequenceNumber) = events :=
    List.Pairwise.insertionSort_eq (h.ascending.imp fun hlt ↦ hlt.le)
  rw [buildDependencyGraph]
  simp only [hordered]
  have hnodes := DependencyGraph.Built.new.foldl_addEvent events (by simpa using h.ids)
  rw [List.nil_append] at hnodes
  have hfold : ∀ l ⊆ events, ∀ g pairs, DependencyGraph.Built g (events.map (·.id)) pairs →
      (l.foldl (fun g e ↦ addEdgesInto g e.id
        (order.walk e.id (edgesInto (producersByOutput events) e).toList)) g).Built
          (events.map (·.id)) (pairs ++ l.flatMap fun e ↦
            (order.walk e.id (edgesInto (producersByOutput events) e).toList).map
              fun p ↦ (p.1, e.id)) := by
    intro l
    induction l with
    | nil =>
      intro _ g pairs hg
      simpa using hg
    | cons e l ih =>
      intro hl g pairs hg
      obtain ⟨he, hrest⟩ := List.cons_subset.mp hl
      obtain ⟨j, hj, rfl⟩ := List.getElem_of_mem he
      rw [List.foldl_cons, List.flatMap_cons, ← List.append_assoc]
      refine ih hrest _ _ (hg.addEdgesInto (j := j) (by simp [hj]) fun p hp ↦ ?_)
      obtain ⟨q, hq, e', he', hqp, hid, -, -, -, hlt, -⟩ :=
        (mem_edgesInto h he).mp ((mem_map_walk order).mp (List.mem_map_of_mem hp))
      obtain rfl := h.eq_of_id he' he hid
      obtain ⟨i, hi, rfl⟩ := List.getElem_of_mem hq
      refine ⟨i, by simp [hi, hqp], ?_⟩
      -- sequence numbers ascend, so the producer stands before
      by_contra hij
      rcases Nat.lt_or_ge j i with hji | hle
      · exact absurd hlt (List.pairwise_iff_getElem.mp h.ascending j i hj hi hji).not_gt
      · obtain rfl : i = j := by omega
        exact lt_irrefl _ hlt
  exact hfold events (List.Subset.refl _) _ _ hnodes

theorem exists_rebuildPlan (order : EdgeOrder)
    (h : AppendOrder events) (hc : c ∈ events.map (·.id)) :
    ∃ plan, (buildDependencyGraph order events).computeRebuildPlan c = .ok plan ∧
      ∀ e, e ∈ plan ↔ Relation.TransGen (DependsOn events) c e := by
  have hlinks : (fun a b ↦ (a, b) ∈ links order events) = DependsOn events :=
    funext₂ fun a b ↦ propext (mem_links order h)
  rw [← hlinks]
  exact (built_buildDependencyGraph order h).exists_plan_mem_iff h.ids hc

/-- **When the plan for a changed event is a rebuild plan**: exactly when no two of the changed
event and its dependents feed the same event. -/
theorem computeRebuildPlan_isRebuildPlan_iff (order : EdgeOrder) {events : List TimelineEvent}
    (h : AppendOrder events) {c : EventId} (hc : c ∈ events.map (·.id)) :
    (∃ plan, (buildDependencyGraph order events).computeRebuildPlan c = .ok plan ∧
        IsRebuildPlan (DependsOn events) c plan) ↔ NoJoins (DependsOn events) c := by
  have hlinks : (fun a b ↦ (a, b) ∈ links order events) = DependsOn events :=
    funext₂ fun a b ↦ propext (mem_links order h)
  rw [← hlinks]
  exact (built_buildDependencyGraph order h).computeRebuildPlan_iff h.ids (nodup_links h) hc

end Built

@[reducible] def nilDeriver : UuidDeriver := ⟨fun _ _ ↦ Uuid.nil⟩

def sameOrder : EdgeOrder := ⟨fun _ l ↦ l, fun _ l ↦ List.Perm.refl l⟩

def drilledLog : List TimelineEvent :=
  [.ofWire 0 "create_box_3d" [] ["solid:1"],
    .ofWire 1 "create_cylinder_3d" [] ["solid:2"],
    .ofWire 2 "boolean_difference" ["solid:1", "solid:2"] ["solid:3"]]

/-- Editing the box dirties the drilled solid, once: the tool is no dependent of the box. -/
theorem computeRebuildPlan_isRebuildPlan_drilled :
    letI := kahnLibrary
    letI := nilDeriver
    ∃ plan, (buildDependencyGraph sameOrder drilledLog).computeRebuildPlan ⟨0⟩ = .ok plan ∧
      IsRebuildPlan (DependsOn drilledLog) ⟨0⟩ plan := by
  let _ := kahnLibrary
  let _ := nilDeriver
  have := kahnLibrary_lawful
  have hlog : AppendOrder drilledLog := ⟨by decide, by decide⟩
  have hlinks : links sameOrder drilledLog = [(⟨0⟩, ⟨2⟩), (⟨1⟩, ⟨2⟩)] := rfl
  have hdepends {a b : EventId} (hab : DependsOn drilledLog a b) : b = ⟨2⟩ := by
    rw [← mem_links sameOrder hlog, hlinks] at hab
    simp only [List.mem_cons, Prod.mk.injEq, List.not_mem_nil, or_false] at hab
    exact hab.elim And.right And.right
  refine (computeRebuildPlan_isRebuildPlan_iff sameOrder hlog (by decide)).mpr ?_
  -- nothing but the box itself is reached and feeds something
  have hbox {p d : EventId} (hpd : DependsOn drilledLog p d)
      (hp : Relation.ReflTransGen (DependsOn drilledLog) ⟨0⟩ p) : p = ⟨0⟩ := by
    rcases Relation.ReflTransGen.cases_tail hp with heq | ⟨k, -, hk⟩
    · exact heq
    · rw [hdepends hk, ← mem_links sameOrder hlog, hlinks] at hpd
      simp at hpd
  intro d p q hpd hqd hp hq
  rw [hbox hpd hp, hbox hqd hq]

def joinedLog : List TimelineEvent :=
  [.ofWire 0 "create_box_3d" [] ["solid:1"],
    .ofWire 1 "deep_clone_solid" ["solid:1"] ["solid:2"],
    .ofWire 2 "boolean_union" ["solid:1", "solid:2"] ["solid:3"]]

theorem computeRebuildPlan_joinedLog :
    letI := kahnLibrary
    letI := nilDeriver
    (buildDependencyGraph sameOrder joinedLog).computeRebuildPlan ⟨0⟩ =
      .ok [⟨1⟩, ⟨2⟩, ⟨2⟩] := rfl

/-- The union depends on the box and on its copy: it stands twice in the plan for the box. -/
theorem not_computeRebuildPlan_isRebuildPlan :
    ¬ ∀ [GraphLibrary] [LawfulGraphLibrary] [UuidDeriver] (order : EdgeOrder)
      (events : List TimelineEvent), AppendOrder events → ∀ c ∈ events.map (·.id),
        ∃ plan, (buildDependencyGraph order events).computeRebuildPlan c = .ok plan ∧
          IsRebuildPlan (DependsOn events) c plan := by
  intro hclaim
  obtain ⟨plan, hok, hspec⟩ := @hclaim kahnLibrary kahnLibrary_lawful nilDeriver sameOrder
    joinedLog ⟨by decide, by decide⟩ ⟨0⟩ (by decide)
  have hplan : plan = [⟨1⟩, ⟨2⟩, ⟨2⟩] := Except.ok.inj (hok.symm.trans computeRebuildPlan_joinedLog)
  exact absurd (hplan ▸ hspec.nodup) (by decide)

end Dependency

end RosheraCad
