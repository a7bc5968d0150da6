import RosheraCad.Library.OrderedMap

/-!
# Lists that index a relation

A map from keys to lists can serve as an index: the list of a key names what is related to the key,
each thing once. A key without a list counts as one with an empty list.
-/

namespace OrderedMap

universe u v

variable {K : Type u} {V : Type v} [Ord K] [Std.TransOrd K] [Std.LawfulEqOrd K] [DecidableEq K]

def retainNe [DecidableEq V] (m : OrderedMap K (List V)) (k : K) (v : V) :
    OrderedMap K (List V) :=
  m.modifyKeys [k] (·.filter (· ≠ v))

theorem getD_retainNe [DecidableEq V] (m : OrderedMap K (List V)) (k : K) (v : V) (k' : K) :
    (m.retainNe k v)[k']?.getD [] =
      if k' = k then (m[k']?.getD []).filter (· ≠ v) else m[k']?.getD [] := by
  rw [retainNe, getElem?_modifyKeys]
  simp only [List.mem_singleton]
  by_cases hk : k' = k
  · rw [if_pos hk, if_pos hk]
    cases m[k']? <;> rfl
  · rw [if_neg hk, if_neg hk]

omit [DecidableEq K] in
/-- The lists of a map name what is related to their keys, each thing once. -/
structure Indexes (m : OrderedMap K (List V)) (R : K → V → Prop) : Prop where
  nodup : ∀ k : K, (m[k]?.getD []).Nodup
  mem_iff : ∀ (k : K) (v : V), v ∈ m[k]?.getD [] ↔ R k v

namespace Indexes

variable {m : OrderedMap K (List V)} {R S : K → V → Prop}

omit [DecidableEq K] [Std.LawfulEqOrd K] in
theorem empty : Indexes (∅ : OrderedMap K (List V)) fun _ _ ↦ False :=
  ⟨fun k ↦ by simp, fun k v ↦ by simp⟩

omit [DecidableEq K] [Std.LawfulEqOrd K] in
theorem congr (h : Indexes m R) (hRS : ∀ k v, S k v ↔ R k v) : Indexes m S :=
  ⟨h.nodup, fun k v ↦ (h.mem_iff k v).trans (hRS k v).symm⟩

omit [DecidableEq K] [Std.LawfulEqOrd K] in
theorem mem_of_rel (h : Indexes m R) {k : K} {v : V} (hR : R k v) : k ∈ m := by
  have hmem := (h.mem_iff k v).mpr hR
  by_contra hk
  rw [not_mem_iff.mp hk] at hmem
  exact absurd hmem List.not_mem_nil

theorem push (h : Indexes m R) {es : List (K × V)} (hes : es.Nodup)
    (hnew : ∀ e ∈ es, ¬ R e.1 e.2) :
    Indexes (m.push es) fun k v ↦ R k v ∨ (k, v) ∈ es where
  nodup k := by
    rw [getD_push, List.nodup_append']
    refine ⟨h.nodup k, (hes.filter _).map_on ?_, ?_⟩
    · intro a ha b hb hab
      have hka := of_decide_eq_true (List.mem_filter.mp ha).2
      have hkb := of_decide_eq_true (List.mem_filter.mp hb).2
      exact Prod.ext (hka.trans hkb.symm) hab
    · intro v hv hv'
      obtain ⟨e, he, rfl⟩ := List.mem_map.mp hv'
      obtain ⟨hmem, hk⟩ := List.mem_filter.mp he
      rw [← of_decide_eq_true hk] at hv
      exact hnew e hmem ((h.mem_iff _ _).mp hv)
  mem_iff k v := by
    rw [getD_push, List.mem_append, h.mem_iff]
    refine or_congr_right ?_
    rw [List.mem_map]
    constructor
    · rintro ⟨e, he, rfl⟩
      obtain ⟨hmem, hk⟩ := List.mem_filter.mp he
      rwa [← of_decide_eq_true hk]
    · exact fun hmem ↦ ⟨(k, v), List.mem_filter.mpr ⟨hmem, decide_eq_true rfl⟩, rfl⟩

theorem retainNe [DecidableEq V] (h : Indexes m R) (k : K) (v : V) :
    Indexes (m.retainNe k v) fun k' w ↦ R k' w ∧ ¬ (k' = k ∧ w = v) where
  nodup k' := by
    rw [getD_retainNe]
    split
    · exact (h.nodup k').filter _
    · exact h.nodup k'
  mem_iff k' w := by
    rw [getD_retainNe]
    by_cases hk : k' = k
    · simp [hk, h.mem_iff]
    · simp [hk, h.mem_iff]

end Indexes

end OrderedMap
