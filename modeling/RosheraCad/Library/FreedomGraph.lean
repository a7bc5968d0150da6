import Mathlib.Algebra.BigOperators.Group.Finset.Basic
import Mathlib.Algebra.GroupWithZero.Nat

/-!
# Counting degrees of freedom

Vertices own degrees of freedom, and an edge removes some from the vertices it joins. By count, a
set of vertices is rigid when the edges inside it remove all but `k` of what its vertices own. Rigid
sets are built by rules, of which a union keeps the count up to what the two sides share.
-/

structure FreedomGraph (V : Type*) where
  freedom : V → ℕ
  edges : List (Finset V × ℕ)

namespace FreedomGraph

variable {V : Type*} [DecidableEq V] (G : FreedomGraph V) (k : ℕ)

/-! ## Counts -/

def weight (p : Finset V → Bool) : ℕ := ((G.edges.filter fun e ↦ p e.1).map Prod.snd).sum

/-- What the edges inside a set remove. -/
def removed (S : Finset V) : ℕ := G.weight fun e ↦ e ⊆ S

def owned (S : Finset V) : ℕ := ∑ v ∈ S, G.freedom v

/-- How far the edges inside a set are above what makes it rigid. -/
def excess (S : Finset V) : ℤ := G.removed S + k - G.owned S

def attaching (a : V) (S : Finset V) : ℕ := G.weight fun e ↦ a ∈ e ∧ e ⊆ insert a S

/-- What the edges inside a union and inside neither side remove. -/
def crossing (A B : Finset V) : ℕ := G.weight fun e ↦ e ⊆ A ∪ B ∧ ¬ e ⊆ A ∧ ¬ e ⊆ B

def overlap (A B : Finset V) : ℤ := G.crossing A B - G.excess k (A ∩ B)

variable {G k}

omit [DecidableEq V] in
theorem weight_eq_sum (p : Finset V → Bool) :
    G.weight p = (G.edges.map fun e ↦ (p e.1).toNat * e.2).sum := by
  rw [weight]
  induction G.edges with
  | nil => rfl
  | cons e edges ih =>
    rw [List.map_cons, List.sum_cons, ← ih]
    rcases hp : p e.1
    · simp [hp]
    · simp [hp]

/-- The edges inside a larger set are those inside the set and those at the new vertex. -/
theorem removed_insert {a : V} {S : Finset V} (ha : a ∉ S) :
    G.removed (insert a S) = G.removed S + G.attaching a S := by
  rw [removed, removed, attaching, weight_eq_sum, weight_eq_sum, weight_eq_sum, ← List.sum_map_add]
  congr 1
  refine List.map_congr_left fun e _ ↦ ?_
  have hsub : e.1 ⊆ S ↔ e.1 ⊆ insert a S ∧ a ∉ e.1 := by
    constructor
    · exact fun h ↦ ⟨h.trans (Finset.subset_insert a S), fun hmem ↦ ha (h hmem)⟩
    · rintro ⟨h, hnot⟩
      exact (Finset.subset_insert_iff_of_notMem hnot).mp h
  by_cases hin : e.1 ⊆ insert a S <;> by_cases hmem : a ∈ e.1 <;> simp [hsub, hin, hmem]

/-- **Edges of a union**: those of the shared part stand on both sides, the crossing ones on
neither. -/
theorem removed_union (A B : Finset V) :
    G.removed (A ∪ B) + G.removed (A ∩ B) = G.removed A + G.removed B + G.crossing A B := by
  rw [removed, removed, removed, removed, crossing, weight_eq_sum, weight_eq_sum, weight_eq_sum,
    weight_eq_sum, weight_eq_sum, ← List.sum_map_add, ← List.sum_map_add, ← List.sum_map_add]
  congr 1
  refine List.map_congr_left fun e _ ↦ ?_
  have hleft : e.1 ⊆ A → e.1 ⊆ A ∪ B := fun h ↦ h.trans Finset.subset_union_left
  have hright : e.1 ⊆ B → e.1 ⊆ A ∪ B := fun h ↦ h.trans Finset.subset_union_right
  by_cases hA : e.1 ⊆ A <;> by_cases hB : e.1 ⊆ B <;>
    simp [hA, hB, hleft, hright, Finset.subset_inter_iff]

theorem owned_union (A B : Finset V) :
    G.owned (A ∪ B) + G.owned (A ∩ B) = G.owned A + G.owned B :=
  Finset.sum_union_inter

theorem excess_insert {a : V} {S : Finset V} (ha : a ∉ S) :
    G.excess k (insert a S) = G.excess k S + G.attaching a S - G.freedom a := by
  rw [excess, excess, removed_insert ha, owned, Finset.sum_insert ha, owned]
  push_cast
  omega

theorem excess_union (A B : Finset V) :
    G.excess k (A ∪ B) = G.excess k A + G.excess k B + G.overlap k A B := by
  have hremoved := G.removed_union A B
  have howned := G.owned_union A B
  rw [overlap, excess, excess, excess, excess]
  omega

variable (G k)

/-- The sets the rules build, and what the overlaps of their unions add up to. -/
inductive Formed : Finset V → ℤ → Prop
  | seed {a b : V} (hne : a ≠ b) (hcount : G.removed {a, b} + k = G.freedom a + G.freedom b) :
    Formed {a, b} 0
  | extend {S : Finset V} {δ : ℤ} {a : V} (hS : Formed S δ) (ha : a ∉ S)
    (hcount : G.attaching a S = G.freedom a) : Formed (insert a S) δ
  | mergeTwo {A B : Finset V} {δ ε : ℤ} (hA : Formed A δ) (hB : Formed B ε)
    (hshared : 2 ≤ (A ∩ B).card) : Formed (A ∪ B) (δ + ε + G.overlap k A B)
  | mergeThree {A B C : Finset V} {δ ε ζ : ℤ} (hA : Formed A δ) (hB : Formed B ε)
    (hC : Formed C ζ) (hAB : 1 ≤ (A ∩ B).card) (hBC : 1 ≤ (B ∩ C).card)
    (hAC : 1 ≤ (A ∩ C).card) :
    Formed (A ∪ B ∪ C) (δ + ε + ζ + G.overlap k A B + G.overlap k (A ∪ B) C)

variable {G k}

theorem Formed.excess_eq {S : Finset V} {δ : ℤ} (h : G.Formed k S δ) : G.excess k S = δ := by
  induction h with
  | @seed a b hne hcount =>
    rw [excess, owned, Finset.sum_pair hne]
    omega
  | extend _ ha hcount ih =>
    rw [excess_insert ha, ih, hcount]
    omega
  | mergeTwo _ _ _ ihA ihB => rw [excess_union, ihA, ihB]
  | mergeThree _ _ _ _ _ _ ihA ihB ihC =>
    rw [excess_union, excess_union, ihA, ihB, ihC]
    omega

end FreedomGraph
