import Mathlib.Algebra.BigOperators.Group.List.Basic
import Mathlib.Algebra.GroupWithZero.Nat
import Mathlib.Data.List.Nodup

/-!
# Lists in order of recency

The entries of a least-recently-used cache, the one used last first, each key once: use an entry,
remove one, and put one in front, where a new key drops the last entry if there are too many.
-/

universe u v

namespace Recency

variable {K : Type u} {V : Type v} [DecidableEq K]

/-- Without the entry of a key. -/
def remove (k : K) (l : List (K × V)) : List (K × V) := l.filter fun e ↦ e.1 ≠ k

def use (k : K) (f : V → V) (l : List (K × V)) : List (K × V) :=
  match l.lookup k with
  | some v => (k, f v) :: remove k l
  | none => l

/-- Put an entry in front. An old key gives back its value, a new one may drop the last entry. -/
def put (capacity : ℕ) (k : K) (v : V) (l : List (K × V)) : Option V × List (K × V) :=
  match l.lookup k with
  | some old => (some old, (k, v) :: remove k l)
  | none => (none, (k, v) :: if l.length < capacity then l else l.dropLast)

variable {k : K} {v : V} {l : List (K × V)}

/-! ## Lookup -/

theorem lookup_cons (e : K × V) (l : List (K × V)) (k : K) :
    (e :: l).lookup k = if k = e.1 then some e.2 else l.lookup k := by
  rw [List.lookup_cons]
  by_cases h : k = e.1
  · rw [if_pos h, beq_iff_eq.mpr h]
  · rw [if_neg h, beq_eq_false_iff_ne.mpr h]

theorem lookup_eq_none_iff : l.lookup k = none ↔ k ∉ l.map Prod.fst := by
  induction l with
  | nil => exact iff_of_true rfl List.not_mem_nil
  | cons e l ih =>
    rw [lookup_cons, List.map_cons, List.mem_cons, not_or, ← ih]
    by_cases h : k = e.1
    · rw [if_pos h]
      exact iff_of_false (Option.some_ne_none _) fun hne ↦ hne.1 h
    · rw [if_neg h, and_iff_right h]

theorem mem_of_lookup (h : l.lookup k = some v) : (k, v) ∈ l := by
  induction l with
  | nil => cases h
  | cons e l ih =>
    rw [lookup_cons] at h
    split at h
    next hk =>
      rw [← Option.some_inj.mp h, hk]
      exact List.mem_cons_self
    next => exact List.mem_cons_of_mem _ (ih h)

theorem lookup_of_mem (hnodup : (l.map Prod.fst).Nodup) (h : (k, v) ∈ l) :
    l.lookup k = some v := by
  induction l with
  | nil => cases h
  | cons e l ih =>
    rw [List.map_cons, List.nodup_cons] at hnodup
    rw [lookup_cons]
    rcases List.mem_cons.mp h with rfl | h
    · exact if_pos rfl
    · have hne : k ≠ e.1 := by
        rintro rfl
        exact hnodup.1 (List.mem_map.mpr ⟨_, h, rfl⟩)
      rw [if_neg hne]
      exact ih hnodup.2 h

@[simp] theorem lookup_remove (a : K) :
    (remove k l).lookup a = if a = k then none else l.lookup a := by
  induction l with
  | nil =>
    split <;> rfl
  | cons e l ih =>
    rw [remove, List.filter_cons, lookup_cons]
    by_cases he : e.1 = k
    · rw [if_neg (by simpa using he), ← remove, ih]
      by_cases ha : a = k
      · rw [if_pos ha, if_pos ha]
      · rw [if_neg ha, if_neg ha, if_neg (he ▸ ha)]
    · rw [if_pos (by simpa using he), lookup_cons, ← remove, ih]
      by_cases ha : a = e.1
      · rw [if_pos ha, if_pos ha, if_neg (ha ▸ he)]
      · rw [if_neg ha, if_neg ha]

/-! ## Distinct keys -/

theorem remove_sublist : (remove k l).Sublist l := List.filter_sublist

theorem nodup_remove (hnodup : (l.map Prod.fst).Nodup) : ((remove k l).map Prod.fst).Nodup :=
  (remove_sublist.map Prod.fst).nodup hnodup

theorem not_mem_remove : k ∉ (remove k l).map Prod.fst := by
  rw [← lookup_eq_none_iff, lookup_remove, if_pos rfl]

theorem remove_eq_self (h : k ∉ l.map Prod.fst) : remove k l = l := by
  refine List.filter_eq_self.mpr fun e he ↦ decide_eq_true ?_
  rintro rfl
  exact h (List.mem_map_of_mem he)

theorem nodup_put (capacity : ℕ) (v : V) (hnodup : (l.map Prod.fst).Nodup) :
    ((put capacity k v l).2.map Prod.fst).Nodup := by
  rw [put]
  split
  · exact List.nodup_cons.mpr ⟨not_mem_remove, nodup_remove hnodup⟩
  next hnone =>
    have hsub : (if l.length < capacity then l else l.dropLast).Sublist l := by
      split
      · exact List.Sublist.refl l
      · exact List.dropLast_sublist l
    refine List.nodup_cons.mpr ⟨fun h ↦ ?_, (hsub.map Prod.fst).nodup hnodup⟩
    exact lookup_eq_none_iff.mp hnone ((hsub.map Prod.fst).subset h)

theorem lookup_put_self (capacity : ℕ) (v : V) (l : List (K × V)) :
    (put capacity k v l).2.lookup k = some v := by
  rw [put]
  split
  · rw [lookup_cons, if_pos rfl]
  · rw [lookup_cons, if_pos rfl]

theorem lookup_of_prefix {l' : List (K × V)} (hbegins : l' <+: l) (h : l'.lookup k = some v) :
    l.lookup k = some v := by
  obtain ⟨rest, rfl⟩ := hbegins
  induction l' with
  | nil => cases h
  | cons e l' ih =>
    rw [List.cons_append, lookup_cons]
    rw [lookup_cons] at h
    split
    next hk => rwa [if_pos hk] at h
    next hk => exact ih (by rwa [if_neg hk] at h)

theorem lookup_of_lookup_put {capacity : ℕ} {a : K} {w : V} (hne : a ≠ k)
    (h : (put capacity k v l).2.lookup a = some w) : l.lookup a = some w := by
  rw [put] at h
  split at h
  · rwa [lookup_cons, if_neg hne, lookup_remove, if_neg hne] at h
  · rw [lookup_cons, if_neg hne] at h
    split at h
    · exact h
    · exact lookup_of_prefix (List.dropLast_prefix l) h

/-! ## Weights -/

def total {K : Type u} {V : Type v} (weight : V → ℕ) (l : List (K × V)) : ℕ :=
  (l.map fun e ↦ weight e.2).sum

variable (weight : V → ℕ)

section Sums

omit [DecidableEq K]

@[simp] theorem total_nil : total weight ([] : List (K × V)) = 0 := rfl

@[simp] theorem total_cons (e : K × V) (l : List (K × V)) :
    total weight (e :: l) = weight e.2 + total weight l := by
  rw [total, total, List.map_cons, List.sum_cons]

theorem total_append (l l' : List (K × V)) :
    total weight (l ++ l') = total weight l + total weight l' := by
  rw [total, total, total, List.map_append, List.sum_append]

theorem total_one (l : List (K × V)) : total (fun _ ↦ 1) l = l.length := by
  induction l with
  | nil => rfl
  | cons e l ih => rw [total_cons, ih, List.length_cons, Nat.add_comm]

theorem total_dropLast (h : l ≠ []) :
    total weight l.dropLast + weight (l.getLast h).2 = total weight l := by
  conv_rhs => rw [← List.dropLast_append_getLast h]
  rw [total_append, total_cons, total_nil, Nat.add_zero]

end Sums

theorem total_remove (hnodup : (l.map Prod.fst).Nodup) (h : l.lookup k = some v) :
    weight v + total weight (remove k l) = total weight l := by
  induction l with
  | nil => cases h
  | cons e l ih =>
    rw [List.map_cons, List.nodup_cons] at hnodup
    rw [lookup_cons] at h
    rw [remove, List.filter_cons]
    by_cases he : k = e.1
    · subst he
      rw [if_pos rfl] at h
      obtain rfl := Option.some_inj.mp h
      rw [if_neg (by simp), ← remove, remove_eq_self hnodup.1, total_cons]
    · rw [if_neg he] at h
      rw [if_pos (by simpa using Ne.symm he), ← remove, total_cons, total_cons, ← ih hnodup.2 h]
      exact Nat.add_left_comm ..

theorem length_remove (hnodup : (l.map Prod.fst).Nodup) (h : l.lookup k = some v) :
    (remove k l).length + 1 = l.length := by
  have hone := total_remove (fun _ ↦ 1) hnodup h
  rwa [total_one, total_one, Nat.add_comm] at hone

end Recency
