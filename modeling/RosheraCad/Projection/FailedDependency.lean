import RosheraCad.Projection.Dependency

/-!
# A dependency that is refused

A dependency that would close a cycle is refused, and its edge is taken out again; the nodes made
for its events and the notes of their entities are not. The graphs the operations build have no
cycle, so a call is refused exactly when the second event leads to the first already.
-/

namespace RosheraCad

namespace DependencyGraph

/-! ## The graphs there are -/

/-- What the operations keep. -/
structure Sound (g : DependencyGraph) : Prop where
  wellFormed : g.graph.WellFormed
  acyclic : Acyclic g.graph.Adj
  nodes : ∀ (e : EventId) (i : ℕ), g.eventNodes[e]? = some i → i < g.graph.nodes.length

def Leads (g : DependencyGraph) (a b : EventId) : Prop :=
  ∃ i j, g.eventNodes[a]? = some i ∧ g.eventNodes[b]? = some j ∧
    Relation.ReflTransGen g.graph.Adj i j

/-- A dependency of the second event on the first would close a cycle. -/
def ClosesCycle (g : DependencyGraph) (source target : EventId) : Prop :=
  source = target ∨ g.Leads target source

theorem Sound.new : Sound new where
  wellFormed := nofun
  acyclic := DiGraph.acyclic_of_lt nofun
  nodes e i h := by simp [DependencyGraph.new] at h

variable {g : DependencyGraph}

theorem Sound.addEvent (h : g.Sound) (id : EventId) :
    (g.addEvent id).Sound where
  wellFormed e he := by
    obtain ⟨hsource, htarget⟩ := h.wellFormed e he
    simp only [DependencyGraph.addEvent, DiGraph.addNode, List.length_append, List.length_singleton]
    omega
  acyclic := h.acyclic
  nodes e i hi := by
    simp only [DependencyGraph.addEvent, OrderedMap.lookup_insert] at hi
    simp only [DependencyGraph.addEvent, DiGraph.addNode, List.length_append, List.length_singleton]
    split_ifs at hi
    · cases hi
      omega
    · exact (h.nodes e i hi).trans (Nat.lt_succ_self _)

theorem nodeOrAdd_cases (g : DependencyGraph) (id : EventId) :
    (∃ i, g.eventNodes[id]? = some i ∧ g.nodeOrAdd id = (g, i)) ∨
      g.eventNodes[id]? = none ∧ g.nodeOrAdd id = (g.addEvent id, g.graph.nodes.length) := by
  rw [nodeOrAdd]
  rcases g.eventNodes[id]? with - | i
  · exact .inr ⟨rfl, rfl⟩
  · exact .inl ⟨i, rfl, rfl⟩

theorem Sound.nodeOrAdd (h : g.Sound) (id : EventId) :
    (g.nodeOrAdd id).1.Sound ∧ (g.nodeOrAdd id).1.eventNodes[id]? = some (g.nodeOrAdd id).2 ∧
      (g.nodeOrAdd id).1.graph.edges = g.graph.edges := by
  rcases g.nodeOrAdd_cases id with ⟨i, hi, heq⟩ | ⟨-, heq⟩ <;> rw [heq]
  · exact ⟨h, hi, rfl⟩
  · exact ⟨h.addEvent id, by simp [DependencyGraph.addEvent], rfl⟩

theorem nodeOrAdd_fst_cases (g : DependencyGraph) (id : EventId) :
    (id ∈ g.eventNodes ∧ (g.nodeOrAdd id).1 = g) ∨
      id ∉ g.eventNodes ∧ g.graph.nodes.length < (g.nodeOrAdd id).1.graph.nodes.length := by
  rw [OrderedMap.mem_iff_exists]
  rcases g.nodeOrAdd_cases id with ⟨i, hi, heq⟩ | ⟨hnone, heq⟩ <;> rw [heq]
  · exact .inl ⟨⟨i, hi⟩, rfl⟩
  · refine .inr ⟨fun ⟨i, hi⟩ ↦ (nomatch hnone.symm.trans hi), ?_⟩
    simp [DependencyGraph.addEvent, DiGraph.addNode]

theorem entityProducers_nodeOrAdd (g : DependencyGraph) (id : EventId) :
    (g.nodeOrAdd id).1.entityProducers = g.entityProducers := by
  rcases g.nodeOrAdd_cases id with ⟨_, _, heq⟩ | ⟨_, heq⟩ <;> rw [heq]
  rfl

theorem eventNodes_nodeOrAdd {id e : EventId} {i : ℕ}
    (h : g.eventNodes[e]? = some i) : (g.nodeOrAdd id).1.eventNodes[e]? = some i := by
  rcases g.nodeOrAdd_cases id with ⟨_, _, heq⟩ | ⟨hnone, heq⟩ <;> rw [heq]
  · exact h
  · have hne : e ≠ id := by
      rintro rfl
      exact nomatch hnone.symm.trans h
    simp [DependencyGraph.addEvent, hne, h]

/-! ## When a dependency is refused -/

/-- A node without an edge out of it leads nowhere, and one without an edge into it is not reached.
-/
theorem Sound.eq_of_path (h : g.Sound) {i j : ℕ} (hpath : Relation.ReflTransGen g.graph.Adj i j) :
    (g.graph.nodes.length ≤ i → i = j) ∧ (g.graph.nodes.length ≤ j → i = j) := by
  constructor
  · intro hi
    rcases Relation.ReflTransGen.cases_head hpath with heq | ⟨k, ⟨e, he, rfl, -⟩, -⟩
    · exact heq
    · exact absurd (h.wellFormed e he).1 (not_lt.mpr hi)
  · intro hj
    rcases Relation.ReflTransGen.cases_tail hpath with heq | ⟨k, -, e, he, -, rfl⟩
    · exact heq.symm
    · exact absurd (h.wellFormed e he).2 (not_lt.mpr hj)

theorem Sound.closesCycle_iff (h : g.Sound) (source target : EventId) :
    g.ClosesCycle source target ↔ Relation.ReflTransGen g.graph.Adj
      ((g.nodeOrAdd source).1.nodeOrAdd target).2 (g.nodeOrAdd source).2 := by
  rcases g.nodeOrAdd_cases source with ⟨i, hi, heq⟩ | ⟨hnone, heq⟩ <;> rw [heq] <;> dsimp only
  · rcases g.nodeOrAdd_cases target with ⟨j, hj, heq'⟩ | ⟨hnone', heq'⟩ <;> rw [heq']
    · constructor
      · rintro (rfl | ⟨j', i', hj', hi', hpath⟩)
        · cases hi.symm.trans hj
          exact .refl
        · cases hi.symm.trans hi'
          cases hj.symm.trans hj'
          exact hpath
      · exact fun hpath ↦ .inr ⟨j, i, hj, hi, hpath⟩
    · -- the node of the target is new, so it leads nowhere
      refine iff_of_false ?_ fun hpath ↦ ?_
      · rintro (rfl | ⟨j, -, hj, -⟩)
        · exact nomatch hnone'.symm.trans hi
        · exact nomatch hnone'.symm.trans hj
      · have hsame := (h.eq_of_path hpath).1 le_rfl
        exact absurd (h.nodes source i hi) (by omega)
  · by_cases hsame : source = target
    · subst hsame
      refine iff_of_true (.inl rfl) ?_
      rw [DependencyGraph.nodeOrAdd, DependencyGraph.addEvent, OrderedMap.lookup_insert, if_pos rfl]
    · have hlookup : (g.addEvent source).eventNodes[target]? = g.eventNodes[target]? := by
        simp [DependencyGraph.addEvent, Ne.symm hsame]
      have hnot : ¬ g.ClosesCycle source target := by
        rintro (heq | ⟨-, i, -, hi, -⟩)
        · exact hsame heq
        · exact nomatch hnone.symm.trans hi
      refine iff_of_false hnot fun hpath ↦ ?_
      have hnode := (h.eq_of_path hpath).2 le_rfl
      -- the node of the source is new, so it is not the target's
      rcases (g.addEvent source).nodeOrAdd_cases target with ⟨j, hj, heq'⟩ | ⟨-, heq'⟩ <;>
        rw [heq'] at hnode <;> dsimp only at hnode
      · rw [hlookup] at hj
        exact absurd (h.nodes target j hj) (by omega)
      · simp [DependencyGraph.addEvent, DiGraph.addNode] at hnode

section

variable [GraphLibrary] [LawfulGraphLibrary]

open GraphLibrary LawfulGraphLibrary

omit [GraphLibrary] [LawfulGraphLibrary] in
theorem Sound.wellFormed_addEdge (h : g.Sound) (source target : EventId)
    (edge : DependencyEdge) : (((g.nodeOrAdd source).1.nodeOrAdd target).1.graph.addEdge
      (g.nodeOrAdd source).2 ((g.nodeOrAdd source).1.nodeOrAdd target).2 edge).WellFormed := by
  obtain ⟨hsource, hi, -⟩ := h.nodeOrAdd source
  obtain ⟨htarget, hj, -⟩ := hsource.nodeOrAdd target
  refine List.forall_mem_append.mpr ⟨htarget.wellFormed, fun e he ↦ ?_⟩
  rw [List.mem_singleton.mp he]
  exact ⟨htarget.nodes source _ (eventNodes_nodeOrAdd hi), htarget.nodes target _ hj⟩

theorem Sound.isCyclicDirected_iff (h : g.Sound) (source target : EventId) (edge : DependencyEdge) :
    isCyclicDirected (((g.nodeOrAdd source).1.nodeOrAdd target).1.graph.addEdge
      (g.nodeOrAdd source).2 ((g.nodeOrAdd source).1.nodeOrAdd target).2 edge) = true ↔
      g.ClosesCycle source target := by
  obtain ⟨hsource, -, hedges⟩ := h.nodeOrAdd source
  obtain ⟨-, -, hedges'⟩ := hsource.nodeOrAdd target
  have hadj : ∀ (i j a b : ℕ), (((g.nodeOrAdd source).1.nodeOrAdd target).1.graph.addEdge i j
      edge).Adj a b ↔ g.graph.Adj a b ∨ a = i ∧ b = j := by
    intro i j a b
    rw [DiGraph.Adj, DiGraph.addEdge, hedges', hedges, DiGraph.Adj]
    simp only [List.mem_append, List.mem_singleton, or_and_right, exists_or, exists_eq_left]
    exact or_congr_right (and_congr eq_comm eq_comm)
  rw [LawfulGraphLibrary.isCyclicDirected_iff (h.wellFormed_addEdge source target edge),
    h.closesCycle_iff,
    show DiGraph.Adj _ = _ from funext₂ fun a b ↦ propext (hadj _ _ a b), h.acyclic.or_single_iff,
    not_not]

def prepared (g : DependencyGraph) (source target : EventId) (entities : List EntityId) :
    DependencyGraph :=
  let g := ((g.nodeOrAdd source).1.nodeOrAdd target).1
  { g with
    entityProducers := g.entityProducers.push (entities.map (·, source))
    entityConsumers := g.entityConsumers.push (entities.map (·, target)) }

theorem Sound.addDependency_cases (h : g.Sound) (source target : EventId)
    (dependencyType : DependencyType) (entities : List EntityId) :
    (g.ClosesCycle source target ∧ g.addDependency source target dependencyType entities =
      (g.prepared source target entities, .error
        (.dependencyViolation "Adding this dependency would create a cycle"))) ∨
    ¬ g.ClosesCycle source target ∧ g.addDependency source target dependencyType entities =
      ({ g.prepared source target entities with
          graph := ((g.nodeOrAdd source).1.nodeOrAdd target).1.graph.addEdge
            (g.nodeOrAdd source).2 ((g.nodeOrAdd source).1.nodeOrAdd target).2
            ⟨dependencyType, entities, dependencyType = .dataRequirement false⟩ }, .ok ()) := by
  have hcyclic := h.isCyclicDirected_iff source target
    ⟨dependencyType, entities, dependencyType = .dataRequirement false⟩
  by_cases hcloses : g.ClosesCycle source target
  · refine .inl ⟨hcloses, ?_⟩
    exact (if_pos (hcyclic.mpr hcloses)).trans rfl
  · refine .inr ⟨hcloses, ?_⟩
    exact (if_neg (hcyclic.not.mpr hcloses)).trans rfl

theorem Sound.addDependency (h : g.Sound) (source target : EventId)
    (dependencyType : DependencyType) (entities : List EntityId) :
    (g.addDependency source target dependencyType entities).1.Sound := by
  obtain ⟨hsource, hi, hedges⟩ := h.nodeOrAdd source
  obtain ⟨htarget, hj, hedges'⟩ := hsource.nodeOrAdd target
  rcases h.addDependency_cases source target dependencyType entities with ⟨-, heq⟩ | ⟨hnot, heq⟩ <;>
    rw [heq]
  · exact ⟨htarget.wellFormed, htarget.acyclic, htarget.nodes⟩
  · have hwell := h.wellFormed_addEdge source target
      ⟨dependencyType, entities, dependencyType = .dataRequirement false⟩
    refine ⟨hwell, ?_, htarget.nodes⟩
    by_contra hcyclic
    exact hnot ((h.isCyclicDirected_iff source target _).mp
      ((LawfulGraphLibrary.isCyclicDirected_iff hwell).mpr hcyclic))

/-- The graphs the operations build. -/
inductive Reachable : DependencyGraph → Prop
  | new : Reachable new
  | addEvent {g : DependencyGraph} (id : EventId) : Reachable g → Reachable (g.addEvent id)
  | addDependency {g : DependencyGraph} (source target : EventId) (dependencyType : DependencyType)
      (entities : List EntityId) : Reachable g →
      Reachable (g.addDependency source target dependencyType entities).1

theorem Reachable.sound (h : g.Reachable) : g.Sound := by
  induction h with
  | new => exact .new
  | addEvent id _ ih => exact ih.addEvent id
  | addDependency source target dependencyType entities _ ih =>
    exact ih.addDependency source target dependencyType entities

omit [GraphLibrary] [LawfulGraphLibrary] in
theorem prepared_eq_iff {source target : EventId} {entities : List EntityId} :
    g.prepared source target entities = g ↔
      source ∈ g.eventNodes ∧ target ∈ g.eventNodes ∧ entities = [] := by
  constructor
  · intro heq
    have hnodes : ((g.nodeOrAdd source).1.nodeOrAdd target).1.graph.nodes.length =
        g.graph.nodes.length := congrArg (fun g ↦ g.graph.nodes.length) heq
    have hentities : entities = [] := by
      refine List.eq_nil_iff_forall_not_mem.mpr fun e he ↦ ?_
      have hpushed : g.entityProducers.push (entities.map (·, source)) = g.entityProducers := by
        have hsame := congrArg DependencyGraph.entityProducers heq
        rwa [prepared, entityProducers_nodeOrAdd, entityProducers_nodeOrAdd] at hsame
      have hlookup := OrderedMap.getD_push g.entityProducers (entities.map (·, source)) e
      rw [hpushed, List.self_eq_append_right, List.map_eq_nil_iff,
        List.filter_eq_nil_iff] at hlookup
      exact hlookup (e, source) (List.mem_map_of_mem he) (decide_eq_true rfl)
    rcases g.nodeOrAdd_fst_cases source with ⟨hsource, hsame⟩ | ⟨-, hlt⟩
    · rw [hsame] at hnodes
      rcases g.nodeOrAdd_fst_cases target with ⟨htarget, -⟩ | ⟨-, hlt⟩
      · exact ⟨hsource, htarget, hentities⟩
      · omega
    · rcases (g.nodeOrAdd source).1.nodeOrAdd_fst_cases target with ⟨-, hsame⟩ | ⟨-, hlt'⟩
      · rw [hsame] at hnodes
        omega
      · omega
  · rintro ⟨hsource, htarget, rfl⟩
    have hfirst : (g.nodeOrAdd source).1 = g :=
      (g.nodeOrAdd_fst_cases source).elim And.right fun h ↦ absurd hsource h.1
    have hsecond : (g.nodeOrAdd target).1 = g :=
      (g.nodeOrAdd_fst_cases target).elim And.right fun h ↦ absurd htarget h.1
    rw [prepared, hfirst, hsecond]
    rfl

/-- **When a refused dependency leaves the graph as it was**: it closes no cycle, or both events
have a node and no entity is named. -/
theorem addDependency_atomic_iff {g : DependencyGraph} (h : g.Reachable) (source target : EventId)
    (dependencyType : DependencyType) (entities : List EntityId) :
    (∀ err, (g.addDependency source target dependencyType entities).2 = .error err →
        (g.addDependency source target dependencyType entities).1 = g) ↔
      ¬ g.ClosesCycle source target ∨
        source ∈ g.eventNodes ∧ target ∈ g.eventNodes ∧ entities = [] := by
  rw [← prepared_eq_iff]
  rcases h.sound.addDependency_cases source target dependencyType entities with
    ⟨hcloses, heq⟩ | ⟨hnot, heq⟩ <;> rw [heq]
  · exact ⟨fun hsame ↦ .inr (hsame _ rfl),
      fun hsame err _ ↦ hsame.resolve_left (not_not.mpr hcloses)⟩
  · exact iff_of_true nofun (.inl hnot)

end

section

attribute [local instance] kahnLibrary

def oneDependency : DependencyGraph :=
  (new.addDependency ⟨1⟩ ⟨2⟩ .temporal []).1

/-- A refused dependency that names an entity leaves the notes of it behind. -/
theorem not_addDependency_atomic :
    let called := oneDependency.addDependency ⟨2⟩ ⟨1⟩ .temporal [⟨7⟩]
    called.2 = .error (.dependencyViolation "Adding this dependency would create a cycle") ∧
      called.1.entityProducers[(⟨7⟩ : EntityId)]? = some [⟨2⟩] ∧ called.1 ≠ oneDependency := by
  refine ⟨rfl, rfl, fun hsame ↦ ?_⟩
  have hnotes := congrArg (fun g ↦ g.entityProducers[(⟨7⟩ : EntityId)]?) hsame
  have hnone : oneDependency.entityProducers[(⟨7⟩ : EntityId)]? = none := rfl
  rw [hnone] at hnotes
  cases hnotes

/-- A refused dependency of known events that names no entity. -/
theorem addDependency_atomic_example :
    (oneDependency.addDependency ⟨2⟩ ⟨1⟩ .temporal []).1 = oneDependency := by
  have := kahnLibrary_lawful
  refine (addDependency_atomic_iff (.addDependency ⟨1⟩ ⟨2⟩ .temporal [] .new) ⟨2⟩ ⟨1⟩ .temporal
    []).mpr (.inr ⟨?_, ?_, rfl⟩)
      (.dependencyViolation "Adding this dependency would create a cycle") rfl
  · decide
  · decide

end

end DependencyGraph

end RosheraCad
