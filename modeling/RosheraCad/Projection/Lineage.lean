import RosheraCad.CanonicalRef
import RosheraCad.Library.Kahn

/-!
# Lineage projection

Nodes are entity references in their wire form, edges link each input of an event to each output of
it. An entity modified in place may have descendants, and if the event also reads one of them the
slice is refused, although the log is ordered in time.
-/

namespace RosheraCad

/-- Canonical node key in the lineage graph: the `kind:id` wire form. -/
abbrev EntityRef := String

structure EventSummary where
  eventId : EventId
  sequence : EventIndex
  commandType : String
  author : Author
  deriving DecidableEq

/-- One lineage edge: an input of the event influenced an output of the same event. -/
structure LineageEdge where
  source : EntityRef
  target : EntityRef
  event : EventSummary
  deriving DecidableEq

/-- Typed failure modes of the lineage projection. -/
inductive LineageError
  | cycleDetected (entities : List EntityRef)
  deriving DecidableEq

def LineageError.toText : LineageError → String
  | cycleDetected entities =>
    "lineage cycle detected among entities [" ++ ", ".intercalate entities ++
      "] — the event log is append-only, so a cycle " ++
      "means an entity id was re-used across operations"

/-- Per-event projection: the summary and the sorted, deduplicated reference sets. -/
structure EventNode where
  summary : EventSummary
  inputs : List EntityRef
  outputs : List EntityRef
  deleted : List EntityRef

/-! ## Reading references -/

namespace KernelRef

def renderBare (id : EntityId) : Option String :=
  (decode id).map fun p ↦ wireTag p.1 ++ ":" ++ toString p.2.toNat

end KernelRef

namespace Lineage

/-- Kind tag used when a bare id cannot be resolved to a kind. -/
def kindUnknown : String := "entity"

def wireRefs (parameters : Json) (key : String) : List EntityRef :=
  match (parameters.get? key).bind Json.asArray? with
  | some items => items.filterMap Json.asStr?
  | none => []

def typedRef (entityType : EntityType) (id : EntityId) : EntityRef :=
  KernelRef.renderRef entityType id

/-- Render a bare id: by the kind inside it, else by the kind it was sighted with. -/
def resolvedRef (id : EntityId) (kinds : OrderedMap EntityId String) : EntityRef :=
  match KernelRef.renderBare id with
  | some rendered => rendered
  | none => kinds[id]?.getD kindUnknown ++ ":" ++ id.toText

/-- The stable command type of an operation: the kernel's kind, otherwise the variant's tag. -/
def commandTypeOf : Operation → String
  | .generic commandType _ => commandType
  | operation => ((operation.toValue.get? "type").bind Json.asStr?).getD "unknown"

def learnKinds (kinds : OrderedMap EntityId String) (e : TimelineEvent) :
    OrderedMap EntityId String :=
  let kinds := (e.inputs.requiredEntities ++ e.inputs.optionalEntities).foldl
    (fun m r ↦ m.insertIfNew r.id (KernelRef.wireTag r.expectedType)) kinds
  e.outputs.created.foldl (fun m c ↦ m.insertIfNew c.id (KernelRef.wireTag c.entityType)) kinds

def refSet (refs : List EntityRef) : List EntityRef := (Std.ExtTreeSet.ofList refs).toList

def channelRefs (operation : Operation) (key : String) : List EntityRef :=
  match operation with
  | .generic _ parameters => wireRefs parameters key
  | _ => []

def eventNode (kinds : OrderedMap EntityId String) (e : TimelineEvent) : EventNode :=
  let modified := e.outputs.modified.map (resolvedRef · kinds)
  { summary := ⟨e.id, e.sequenceNumber, commandTypeOf e.operation, e.author⟩
    inputs := refSet (channelRefs e.operation "inputs"
      ++ (e.inputs.requiredEntities ++ e.inputs.optionalEntities).map
        (fun r ↦ typedRef r.expectedType r.id)
      ++ modified)
    outputs := refSet (channelRefs e.operation "outputs"
      ++ e.outputs.created.map (fun c ↦ typedRef c.entityType c.id)
      ++ modified)
    deleted := refSet (channelRefs e.operation "deleted"
      ++ e.outputs.deleted.map (resolvedRef · kinds)) }

def inOrder (events : List TimelineEvent) : List TimelineEvent :=
  events.insertionSort fun a b ↦ a.sequenceNumber < b.sequenceNumber ∨
    a.sequenceNumber = b.sequenceNumber ∧ a.id.uuid ≤ b.id.uuid

def projectEvents (kinds : OrderedMap EntityId String) : List TimelineEvent → List EventNode
  | [] => []
  | e :: events =>
    let kinds := learnKinds kinds e
    eventNode kinds e :: projectEvents kinds events

/-- The nodes of a slice, in processing order. -/
def nodesOf (events : List TimelineEvent) : List EventNode := projectEvents ∅ (inOrder events)

end Lineage

/-- The edges of one event: each input to each output, but never to itself. -/
def EventNode.edges (n : EventNode) : List LineageEdge :=
  n.inputs.flatMap fun source ↦
    (n.outputs.filter (source ≠ ·)).map fun target ↦ ⟨source, target, n.summary⟩

/-! ## The graph -/

/-- The lineage graph projected from one branch's ordered event slice. -/
structure LineageGraph where
  eventNodes : List EventNode
  producing : OrderedMap EntityRef (List ℕ)
  consuming : OrderedMap EntityRef (List ℕ)
  createdAt : OrderedMap EntityRef EventIndex
  deletedAt : OrderedMap EntityRef EventIndex
  firstSeen : OrderedMap EntityRef EventIndex
  edges : List LineageEdge

namespace LineageGraph

def markFirst (m : OrderedMap EntityRef EventIndex) (seq : EventIndex) (refs : List EntityRef) :
    OrderedMap EntityRef EventIndex :=
  refs.foldl (fun m r ↦ m.insertIfNew r seq) m

def addNode (g : LineageGraph) (n : EventNode) (i : ℕ) : LineageGraph :=
  { g with
    producing := g.producing.push (n.outputs.map (·, i))
    consuming := g.consuming.push (n.inputs.map (·, i))
    createdAt := markFirst g.createdAt n.summary.sequence n.outputs
    deletedAt := markFirst g.deletedAt n.summary.sequence n.deleted
    firstSeen := markFirst g.firstSeen n.summary.sequence (n.inputs ++ n.outputs ++ n.deleted)
    edges := g.edges ++ n.edges }

/-- Index the events in processing order. -/
def project (nodes : List EventNode) : LineageGraph :=
  nodes.zipIdx.foldl (fun g p ↦ g.addNode p.1 p.2) ⟨nodes, ∅, ∅, ∅, ∅, ∅, []⟩

def cycleEntities (g : LineageGraph) : List EntityRef :=
  let nodes := Std.ExtTreeSet.ofList (g.edges.flatMap fun e ↦ [e.source, e.target])
  let adj := OrderedMap.collect (g.edges.map fun e ↦ (e.source, [e.target]))
  let radj := OrderedMap.collect (g.edges.map fun e ↦ (e.target, [e.source]))
  (Kahn.leftover adj nodes).filter (· ∈ Kahn.leftover radj nodes)

/-- Project the lineage graph from one branch's event slice. A cyclic graph is refused. -/
def build (events : List TimelineEvent) : Except LineageError LineageGraph :=
  let g := project (Lineage.nodesOf events)
  match g.cycleEntities with
  | [] => .ok g
  | cyclic => .error (.cycleDetected cyclic)

end LineageGraph

/-! ## Derivation -/

variable {nodes : List EventNode}

namespace Lineage

def Links (n : EventNode) (a b : EntityRef) : Prop := a ∈ n.inputs ∧ b ∈ n.outputs ∧ a ≠ b

def Derives (nodes : List EventNode) (a b : EntityRef) : Prop := ∃ n ∈ nodes, Links n a b

def Produced (nodes : List EventNode) (r : EntityRef) : Prop := ∃ n ∈ nodes, r ∈ n.outputs

/-- An entity is first recorded as an output, and again only by an event that also reads it. -/
structure AppendOnly (nodes : List EventNode) : Prop where
  first : ∀ before n after, nodes = before ++ n :: after →
    ∀ r ∈ n.inputs ++ n.deleted, Produced before r ∨ r ∈ n.outputs
  later : ∀ before n after, nodes = before ++ n :: after →
    ∀ r ∈ n.outputs, Produced before r → r ∈ n.inputs

/-- What an event modifies in place stays apart from what else it reads. -/
def ModifiesApart (before : List EventNode) (n : EventNode) : Prop :=
  ∀ m ∈ n.inputs, m ∈ n.outputs → ∀ x ∈ n.inputs, x ≠ m →
    x ∉ n.outputs ∧ ¬ Relation.TransGen (Derives before) m x

instance (nodes : List EventNode) (r : EntityRef) : Decidable (Produced nodes r) :=
  inferInstanceAs (Decidable (∃ n ∈ nodes, r ∈ n.outputs))

theorem appendOnly_iff : AppendOnly nodes ↔ ∀ i, (h : i < nodes.length) →
    (∀ r ∈ nodes[i].inputs ++ nodes[i].deleted,
      Produced (nodes.take i) r ∨ r ∈ nodes[i].outputs) ∧
    (∀ r ∈ nodes[i].outputs, Produced (nodes.take i) r → r ∈ nodes[i].inputs) := by
  have hsplit (i : ℕ) (h : i < nodes.length) :
      nodes = nodes.take i ++ nodes[i] :: nodes.drop (i + 1) := by
    rw [← List.drop_eq_getElem_cons h, List.take_append_drop]
  constructor
  · intro happend i h
    exact ⟨happend.first _ _ _ (hsplit i h), happend.later _ _ _ (hsplit i h)⟩
  · intro hall
    have hat (before : List EventNode) (n : EventNode) (after : List EventNode)
        (heq : nodes = before ++ n :: after) :
        (∀ r ∈ n.inputs ++ n.deleted, Produced before r ∨ r ∈ n.outputs) ∧
          (∀ r ∈ n.outputs, Produced before r → r ∈ n.inputs) := by
      subst heq
      have := hall before.length (by simp)
      simpa using this
    exact ⟨fun b n a heq ↦ (hat b n a heq).1, fun b n a heq ↦ (hat b n a heq).2⟩

instance (nodes : List EventNode) : Decidable (AppendOnly nodes) :=
  decidable_of_iff _ appendOnly_iff.symm

theorem derives_append {before after : List EventNode} {a b : EntityRef} :
    Derives (before ++ after) a b ↔ Derives before a b ∨ Derives after a b := by
  simp only [Derives, List.mem_append, or_and_right, exists_or]

theorem derives_concat {before : List EventNode} {n : EventNode} :
    Derives (before ++ [n]) = fun a b ↦ Derives before a b ∨ Links n a b := by
  funext a b
  rw [eq_iff_iff, derives_append]
  simp [Derives]

theorem AppendOnly.of_append {before after : List EventNode} (h : AppendOnly (before ++ after)) :
    AppendOnly before where
  first := fun b n a hb ↦ h.first b n (a ++ after) (by rw [hb]; simp)
  later := fun b n a hb ↦ h.later b n (a ++ after) (by rw [hb]; simp)

theorem AppendOnly.produced (h : AppendOnly nodes) {n : EventNode}
    (hn : n ∈ nodes) {r : EntityRef} (hr : r ∈ n.inputs) : Produced nodes r := by
  obtain ⟨before, after, rfl⟩ := List.append_of_mem hn
  rcases h.first before n after rfl r (List.mem_append_left _ hr) with ⟨m, hm, hr⟩ | hr
  · exact ⟨m, List.mem_append_left _ hm, hr⟩
  · exact ⟨n, hn, hr⟩

theorem acyclic_concat_iff {before : List EventNode} {n : EventNode}
    (h : AppendOnly (before ++ [n])) (hbefore : Acyclic (Derives before)) :
    Acyclic (Derives (before ++ [n])) ↔ ModifiesApart before n := by
  rw [derives_concat]
  constructor
  · intro hacyclic m hm hmout x hx hxm
    have hxlinks : Links n x m := ⟨hx, hmout, hxm⟩
    refine ⟨fun hxout ↦ ?_, fun hderived ↦ ?_⟩
    · exact hacyclic m (.tail (.single (Or.inr ⟨hm, hxout, hxm.symm⟩)) (Or.inr hxlinks))
    · refine hacyclic m (.tail ?_ (Or.inr hxlinks))
      exact Relation.TransGen.mono (fun _ _ hab ↦ Or.inl hab) _ _ hderived
  · intro hapart z hz
    -- a cycle uses an edge of the event, from `a` to `b`, and comes back from `b` to `a`
    rcases transGen_or hz with hz | ⟨a, b, ⟨ha, hb, hab⟩, hza, hbz⟩
    · exact hbefore z hz
    have hback : Relation.TransGen (fun a b ↦ Derives before a b ∨ Links n a b) b a := by
      have hbz : Relation.ReflTransGen (fun a b ↦ Derives before a b ∨ Links n a b) b z :=
        Relation.ReflTransGen.mono (fun _ _ h ↦ Or.inl h) _ _ hbz
      rcases Relation.reflTransGen_iff_eq_or_transGen.mp (hbz.trans hza) with heq | hpath
      · exact absurd heq hab
      · exact hpath
    -- nothing leaves an entity that the event makes new
    have hleaves {c d : EntityRef} (hc : c ∈ n.outputs)
        (hcd : Derives before c d ∨ Links n c d) : c ∈ n.inputs := by
      rcases hcd with ⟨m, hm, hcin, -, -⟩ | ⟨hcin, -, -⟩
      · exact h.later before n [] rfl c hc (h.of_append.produced hm hcin)
      · exact hcin
    have hbin : b ∈ n.inputs := by
      obtain ⟨d, hbd, -⟩ := Relation.TransGen.head'_iff.mp hback
      exact hleaves hb hbd
    obtain ⟨haout, hderived⟩ := hapart b hbin hb a ha hab
    rcases transGen_or hback with hpath | ⟨c, d, ⟨-, hd, -⟩, -, hda⟩
    · exact hderived hpath
    · -- the last edge of the event on the way back ends in `b` again
      rcases Relation.reflTransGen_iff_eq_or_transGen.mp hda with rfl | hpath
      · exact haout hd
      · obtain ⟨e, hde, -⟩ := Relation.TransGen.head'_iff.mp hpath
        have hdin := hleaves hd (Or.inl hde)
        have hdb : d = b := by
          by_contra hne
          exact (hapart b hbin hb d hdin hne).1 hd
        exact hderived (hdb ▸ hpath)

/-- **An append-only log has no cycle exactly when every event modifies apart.** -/
theorem acyclic_iff (h : AppendOnly nodes) :
    Acyclic (Derives nodes) ↔
      ∀ before n after, nodes = before ++ n :: after → ModifiesApart before n := by
  induction nodes using List.reverseRecOn with
  | nil =>
    constructor
    · intro _ before n after heq
      simp at heq
    · intro _ x hx
      obtain ⟨_, ⟨n, hn, -⟩, -⟩ := Relation.TransGen.head'_iff.mp hx
      exact absurd hn List.not_mem_nil
  | append_singleton nodes n ih =>
    have ih := ih h.of_append
    constructor
    · intro hacyclic before m after heq
      have hnodes : Acyclic (Derives nodes) :=
        hacyclic.mono fun a b hab ↦ derives_append.mpr (Or.inl hab)
      rcases List.eq_nil_or_concat after with rfl | ⟨after, x, rfl⟩
      · obtain ⟨rfl, hnm⟩ := List.append_inj' heq rfl
        obtain rfl : n = m := by simpa using hnm
        exact (acyclic_concat_iff h hnodes).mp hacyclic
      · rw [List.concat_eq_append, ← List.cons_append, ← List.append_assoc] at heq
        exact ih.mp hnodes before m after (List.append_inj' heq rfl).1
    · intro hapart
      refine (acyclic_concat_iff h (ih.mpr fun before m after heq ↦ ?_)).mpr
        (hapart nodes n [] rfl)
      exact hapart before m (after ++ [n]) (by rw [heq]; simp)

end Lineage

/-! ## The cycle guard -/

namespace LineageGraph

open Lineage

theorem edges_project (nodes : List EventNode) :
    (project nodes).edges = nodes.flatMap EventNode.edges := by
  have hfold (l : List (EventNode × ℕ)) (g : LineageGraph) :
      (l.foldl (fun g p ↦ g.addNode p.1 p.2) g).edges =
        g.edges ++ l.flatMap fun p ↦ p.1.edges := by
    induction l generalizing g with
    | nil => simp
    | cons p l ih => rw [List.foldl_cons, ih, List.flatMap_cons, ← List.append_assoc]; rfl
  rw [project, hfold, List.nil_append]
  have hzip (k : ℕ) : (nodes.zipIdx k).flatMap (fun p ↦ p.1.edges) =
      nodes.flatMap EventNode.edges := by
    induction nodes generalizing k with
    | nil => rfl
    | cons n nodes ih => rw [List.zipIdx_cons, List.flatMap_cons, List.flatMap_cons, ih]
  exact hzip 0

theorem exists_edge_iff {a b : EntityRef} :
    (∃ e ∈ (project nodes).edges, e.source = a ∧ e.target = b) ↔ Derives nodes a b := by
  rw [edges_project]
  constructor
  · rintro ⟨e, he, rfl, rfl⟩
    obtain ⟨n, hn, he⟩ := List.mem_flatMap.mp he
    obtain ⟨source, hsource, he⟩ := List.mem_flatMap.mp he
    obtain ⟨target, htarget, rfl⟩ := List.mem_map.mp he
    obtain ⟨htarget, hne⟩ := List.mem_filter.mp htarget
    exact ⟨n, hn, hsource, htarget, of_decide_eq_true hne⟩
  · rintro ⟨n, hn, ha, hb, hab⟩
    refine ⟨⟨a, b, n.summary⟩, List.mem_flatMap.mpr ⟨n, hn, ?_⟩, rfl, rfl⟩
    refine List.mem_flatMap.mpr ⟨a, ha, List.mem_map.mpr ⟨b, ?_, rfl⟩⟩
    exact List.mem_filter.mpr ⟨hb, decide_eq_true hab⟩

theorem edge_sources (nodes : List EventNode) (a b : EntityRef) : Kahn.Edge (OrderedMap.collect
    ((project nodes).edges.map fun e ↦ (e.source, [e.target]))) a b ↔ Derives nodes a b :=
  Kahn.edge_collect.trans exists_edge_iff

theorem edge_targets (nodes : List EventNode) (a b : EntityRef) : Kahn.Edge (OrderedMap.collect
    ((project nodes).edges.map fun e ↦ (e.target, [e.source]))) a b ↔ Derives nodes b a := by
  rw [Kahn.edge_collect, ← exists_edge_iff]
  exact exists_congr fun e ↦ and_congr_right fun _ ↦ and_comm

theorem mem_edge_ends {a b : EntityRef} (h : Derives nodes a b) :
    a ∈ Std.ExtTreeSet.ofList ((project nodes).edges.flatMap fun e ↦ [e.source, e.target]) ∧
      b ∈ Std.ExtTreeSet.ofList ((project nodes).edges.flatMap fun e ↦ [e.source, e.target]) := by
  obtain ⟨e, he, rfl, rfl⟩ := exists_edge_iff.mpr h
  simp only [OrderedSet.mem_ofList, List.mem_flatMap]
  exact ⟨⟨e, he, by simp⟩, ⟨e, he, by simp⟩⟩

/-- **The cycle guard answers exactly whether the links are acyclic.** -/
theorem cycleEntities_eq_nil_iff (nodes : List EventNode) :
    (project nodes).cycleEntities = [] ↔ Acyclic (Derives nodes) := by
  rw [cycleEntities, Kahn.filter_leftover_eq_nil_iff]
  · rw [show Kahn.Edge _ = Derives nodes from
      funext₂ fun a b ↦ propext (edge_sources nodes a b)]
  · exact fun a b hab ↦ mem_edge_ends ((edge_sources nodes a b).mp hab)
  · intro a b
    rw [edge_targets, edge_sources]

theorem build_ne_error_iff (events : List TimelineEvent) :
    (∀ entities, build events ≠ .error (.cycleDetected entities)) ↔
      Acyclic (Derives (nodesOf events)) := by
  rw [← cycleEntities_eq_nil_iff, build]
  rcases (project (nodesOf events)).cycleEntities with _ | ⟨x, xs⟩
  · simp
  · simp

/-- **When an append-only log is projected.** Its edges are acyclic, and it is not refused, exactly
when no event modifies an entity in place while it reads another modified with it or derived from
it. -/
theorem build_appendOnly (events : List TimelineEvent) (h : AppendOnly (nodesOf events)) :
    ((∀ entities, build events ≠ .error (.cycleDetected entities)) ∧
        Acyclic (fun a b ↦ ∃ e ∈ (project (nodesOf events)).edges, e.source = a ∧ e.target = b)) ↔
      ∀ before n after, nodesOf events = before ++ n :: after → ModifiesApart before n := by
  rw [build_ne_error_iff, ← acyclic_iff h]
  simp only [exists_edge_iff]
  exact and_self_iff

def clonedSlice : List TimelineEvent :=
  [.ofWire 1 "create_box_3d" [] ["solid:1"],
    .ofWire 2 "deep_clone_solid" ["solid:1"] ["solid:2"]]

/-- The clone is filleted: its event modifies it in place and reads nothing else. -/
theorem build_appendOnly_fillet :
    build (clonedSlice ++ [.ofWire 3 "fillet_edges" ["solid:2"] ["face:1", "solid:2"]]) ≠
      .error (.cycleDetected ["solid:2"]) := by
  refine ((build_appendOnly _ (by decide)).mpr fun before n after heq ↦ ?_).1 ["solid:2"]
  have hone : ∀ n ∈ nodesOf (clonedSlice ++
      [.ofWire 3 "fillet_edges" ["solid:2"] ["face:1", "solid:2"]]),
      ∀ m ∈ n.inputs, m ∈ n.outputs → ∀ x ∈ n.inputs, x = m := by decide
  intro m hm hmout x hx hxm
  exact absurd (hone n (heq ▸ List.mem_append_right _ List.mem_cons_self) m hm hmout x hx) hxm

/-- The box is united in place with its clone: the log is append-only, and the slice is refused. -/
theorem not_build_appendOnly :
    ¬ ∀ events, AppendOnly (nodesOf events) →
      ∀ entities, build events ≠ .error (.cycleDetected entities) := by
  intro hclaim
  refine hclaim (clonedSlice ++ [.ofWire 3 "boolean_union" ["solid:1", "solid:2"] ["solid:1"]])
    (by decide) ["solid:1", "solid:2"] ?_
  rfl

end LineageGraph

end RosheraCad
