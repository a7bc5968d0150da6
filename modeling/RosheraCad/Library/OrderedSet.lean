import RosheraCad.Library.SortedPrefix
import Std.Data.ExtTreeSet

/-!
# Ordered finite sets

A set that iterates in ascending order, and a map from keys to such sets that grows by whole lists.
As for maps, each operation is characterised by membership.
-/

universe u v

abbrev OrderedSet (A : Type u) [Ord A] := Std.ExtTreeSet A

namespace OrderedSet

variable {A : Type u} [Ord A] [Std.TransOrd A]

def keep (s : OrderedSet A) (p : A → Bool) : OrderedSet A :=
  Std.ExtTreeSet.ofList (s.toList.filter p)

variable [Std.LawfulEqOrd A]

theorem nodup_toList (s : OrderedSet A) : s.toList.Nodup :=
  Std.ExtTreeSet.distinct_toList.imp fun hne heq ↦ hne (Std.compare_eq_iff_eq.mpr heq)

variable [DecidableEq A]

@[simp] theorem mem_insertMany {s : OrderedSet A} {l : List A} {a : A} :
    a ∈ s.insertMany l ↔ a ∈ s ∨ a ∈ l := by
  rw [Std.ExtTreeSet.mem_insertMany_list, List.contains_iff_mem]

@[simp] theorem mem_ofList {l : List A} {a : A} : a ∈ Std.ExtTreeSet.ofList l ↔ a ∈ l := by
  rw [Std.ExtTreeSet.mem_ofList, List.contains_iff_mem]

@[simp] theorem mem_keep {s : OrderedSet A} {p : A → Bool} {a : A} :
    a ∈ s.keep p ↔ a ∈ s ∧ p a := by
  rw [keep, mem_ofList, List.mem_filter, Std.ExtTreeSet.mem_toList]

end OrderedSet

namespace OrderedSet

variable {A : Type u} [LinearOrder A] [Std.TransOrd A]

theorem pairwise_lt_toList (s : OrderedSet A) : s.toList.Pairwise (· < ·) :=
  Std.ExtTreeSet.ordered_toList.imp fun h ↦ compare_lt_iff_lt.mp h

end OrderedSet

/-! ## Maps to sets -/

namespace OrderedMap

variable {K : Type u} {A : Type v} [Ord K] [Std.TransOrd K] [Ord A] [Std.TransOrd A]

def setAt (m : OrderedMap K (OrderedSet A)) (k : K) : OrderedSet A := m[k]?.getD ∅

def collect (l : List (K × List A)) : OrderedMap K (OrderedSet A) :=
  l.foldl (fun m e ↦ m.insert e.1 ((setAt m e.1).insertMany e.2)) ∅

variable [Std.LawfulEqOrd K] [DecidableEq K] [Std.LawfulEqOrd A] [DecidableEq A]

theorem mem_setAt_collect {l : List (K × List A)} {k : K} {a : A} :
    a ∈ (collect l).setAt k ↔ ∃ as, (k, as) ∈ l ∧ a ∈ as := by
  have hfold (m : OrderedMap K (OrderedSet A)) :
      a ∈ setAt (l.foldl (fun m e ↦ m.insert e.1 ((setAt m e.1).insertMany e.2)) m) k ↔
        a ∈ setAt m k ∨ ∃ as, (k, as) ∈ l ∧ a ∈ as := by
    induction l generalizing m with
    | nil => simp
    | cons e l ih =>
      have hstep : a ∈ setAt (m.insert e.1 ((setAt m e.1).insertMany e.2)) k ↔
          a ∈ setAt m k ∨ k = e.1 ∧ a ∈ e.2 := by
        rw [setAt, lookup_insert]
        by_cases hk : k = e.1
        · simp [hk]
        · simp [hk, setAt]
      rw [List.foldl_cons, ih, hstep, or_assoc]
      refine or_congr_right ?_
      constructor
      · rintro (⟨rfl, ha⟩ | ⟨as, has, ha⟩)
        · exact ⟨e.2, List.mem_cons_self, ha⟩
        · exact ⟨as, List.mem_cons_of_mem _ has, ha⟩
      · rintro ⟨as, has, ha⟩
        rcases List.mem_cons.mp has with rfl | has
        · exact Or.inl ⟨rfl, ha⟩
        · exact Or.inr ⟨as, has, ha⟩
  rw [collect, hfold]
  simp [setAt]

end OrderedMap
