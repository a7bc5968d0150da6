import RosheraCad.Library.Kahn

/-!
# Directed graphs held as lists

A graph keeps its node weights in a list, so a node is a position, and its edges in another. What
programs ask of a graph library (the edges at a node, whether there is a cycle, a topological order)
is stated here as laws, and Kahn's algorithm is one implementation that obeys them.
-/

structure DiEdge (E : Type) where
  source : ℕ
  target : ℕ
  weight : E

structure DiGraph (N E : Type) where
  nodes : List N
  edges : List (DiEdge E)

inductive Direction
  | outgoing
  | incoming
  deriving DecidableEq

namespace DiGraph

variable {N E : Type}

def empty : DiGraph N E := ⟨[], []⟩

def addNode (g : DiGraph N E) (weight : N) : DiGraph N E :=
  { g with nodes := g.nodes ++ [weight] }

def addEdge (g : DiGraph N E) (source target : ℕ) (weight : E) : DiGraph N E :=
  { g with edges := g.edges ++ [⟨source, target, weight⟩] }

/-- An edge leads from one position to another. -/
def Adj (g : DiGraph N E) (a b : ℕ) : Prop := ∃ e ∈ g.edges, e.source = a ∧ e.target = b

/-- Edges run between nodes. -/
def WellFormed (g : DiGraph N E) : Prop :=
  ∀ e ∈ g.edges, e.source < g.nodes.length ∧ e.target < g.nodes.length

def incident (g : DiGraph N E) (n : ℕ) : Direction → List (DiEdge E)
  | .outgoing => g.edges.filter (·.source = n)
  | .incoming => g.edges.filter (·.target = n)

theorem acyclic_of_lt {g : DiGraph N E} (h : ∀ e ∈ g.edges, e.source < e.target) :
    Acyclic g.Adj := by
  intro x hx
  have hlt : ∀ {a b}, Relation.TransGen g.Adj a b → a < b := by
    intro a b hab
    induction hab with
    | single hab =>
      obtain ⟨e, he, rfl, rfl⟩ := hab
      exact h e he
    | tail _ hab ih =>
      obtain ⟨e, he, rfl, rfl⟩ := hab
      exact ih.trans (h e he)
  exact lt_irrefl x (hlt hx)

end DiGraph

/-! ## What is asked of a graph library -/

class GraphLibrary where
  edgesDirected {N E : Type} : DiGraph N E → ℕ → Direction → List (DiEdge E)
  isCyclicDirected {N E : Type} : DiGraph N E → Bool
  toposort {N E : Type} : DiGraph N E → Option (List ℕ)

open GraphLibrary in
/-- The documented behaviour of the algorithms. -/
class LawfulGraphLibrary [GraphLibrary] : Prop where
  edgesDirected_perm {N E : Type} (g : DiGraph N E) (n : ℕ) (direction : Direction) :
    (edgesDirected g n direction).Perm (g.incident n direction)
  isCyclicDirected_iff {N E : Type} {g : DiGraph N E} (hg : g.WellFormed) :
    isCyclicDirected g = true ↔ ¬ Acyclic g.Adj
  toposort_perm {N E : Type} {g : DiGraph N E} (hg : g.WellFormed) {order : List ℕ}
    (h : toposort g = some order) : order.Perm (List.range g.nodes.length)
  toposort_pairwise {N E : Type} {g : DiGraph N E} (hg : g.WellFormed) {order : List ℕ}
    (h : toposort g = some order) : order.Pairwise fun i j ↦ ¬ g.Adj j i
  toposort_none {N E : Type} {g : DiGraph N E} (hg : g.WellFormed) (h : toposort g = none) :
    ¬ Acyclic g.Adj

namespace DiGraph

variable {N E : Type}

def adjacency (g : DiGraph N E) : Kahn.Adjacency ℕ :=
  OrderedMap.collect (g.edges.map fun e ↦ (e.source, [e.target]))

def positions (g : DiGraph N E) : OrderedSet ℕ := Std.ExtTreeSet.ofList (List.range g.nodes.length)

theorem edge_adjacency {g : DiGraph N E} {a b : ℕ} : Kahn.Edge g.adjacency a b ↔ g.Adj a b :=
  Kahn.edge_collect

theorem mem_positions {g : DiGraph N E} {n : ℕ} : n ∈ g.positions ↔ n < g.nodes.length := by
  rw [positions, OrderedSet.mem_ofList, List.mem_range]

theorem WellFormed.edge {g : DiGraph N E} (hg : g.WellFormed) {a b : ℕ}
    (h : Kahn.Edge g.adjacency a b) : a ∈ g.positions ∧ b ∈ g.positions := by
  obtain ⟨e, he, rfl, rfl⟩ := edge_adjacency.mp h
  rw [mem_positions, mem_positions]
  exact hg e he

end DiGraph

@[reducible] def kahnLibrary : GraphLibrary where
  edgesDirected g n direction := g.incident n direction
  isCyclicDirected g := Kahn.leftover g.adjacency g.positions ≠ []
  toposort g := Kahn.sort g.adjacency g.positions

theorem kahnLibrary_lawful : @LawfulGraphLibrary kahnLibrary := by
  let _ : GraphLibrary := kahnLibrary
  have hedge {N E : Type} (g : DiGraph N E) : Kahn.Edge g.adjacency = g.Adj :=
    funext₂ fun a b ↦ propext DiGraph.edge_adjacency
  refine ⟨fun g n direction ↦ List.Perm.refl _, fun {N E g} hg ↦ ?_, fun {N E g} hg order h ↦ ?_,
    fun {N E g} hg order h ↦ ?_, fun {N E g} hg h ↦ ?_⟩
  · have hsort := Kahn.sort_eq_none_iff fun a b ↦ hg.edge (a := a) (b := b)
    rw [hedge] at hsort
    rw [← hsort]
    show decide (Kahn.leftover g.adjacency g.positions ≠ []) = true ↔ _
    rw [decide_eq_true_iff, Kahn.sort]
    rcases Kahn.leftover g.adjacency g.positions with _ | _
    · simp
    · simp
  · obtain ⟨hnodup, hmem, -⟩ := Kahn.sort_eq_some h
    refine (List.perm_ext_iff_of_nodup hnodup List.nodup_range).mpr fun n ↦ ?_
    rw [hmem, DiGraph.mem_positions, List.mem_range]
  · obtain ⟨-, -, hpairwise⟩ := Kahn.sort_eq_some h
    exact hpairwise.imp fun hne hadj ↦ hne (DiGraph.edge_adjacency.mpr hadj)
  · have hsort := Kahn.sort_eq_none_iff fun a b ↦ hg.edge (a := a) (b := b)
    rw [hedge] at hsort
    exact hsort.mp h
