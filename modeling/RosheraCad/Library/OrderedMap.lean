import Mathlib.Data.List.Induction
import Mathlib.Data.List.Sort
import Mathlib.Order.Bounds.Basic
import Mathlib.Tactic.Cases

/-!
# Ordered finite maps

The bulk operations a store of concurrent maps performs, each characterised by its lookup. The
carrier is the extensional tree map of the standard library.
-/

universe u v

abbrev OrderedMap (K : Type u) (V : Type v) [Ord K] := Std.ExtTreeMap K V

namespace OrderedMap

variable {K : Type u} {V : Type v} [Ord K] [Std.TransOrd K] {m : OrderedMap K V}

theorem mem_iff_exists {k : K} : k ∈ m ↔ ∃ v, m[k]? = some v := by
  rw [← Std.ExtTreeMap.isSome_getElem?_iff_mem, Option.isSome_iff_exists]

theorem not_mem_iff {k : K} : k ∉ m ↔ m[k]? = none := by
  rw [mem_iff_exists, Option.eq_none_iff_forall_ne_some]
  exact not_exists

theorem mem_of_getElem? {k : K} {v : V} (h : m[k]? = some v) : k ∈ m :=
  mem_iff_exists.mpr ⟨v, h⟩

/-! ## Bulk operations -/

def eraseKeys (m : OrderedMap K V) (ks : List K) : OrderedMap K V :=
  ks.foldl (fun m k ↦ m.erase k) m

def insertEntries (m : OrderedMap K V) (es : List (K × V)) : OrderedMap K V :=
  es.foldl (fun m e ↦ m.insert e.1 e.2) m

/-- The entries whose key satisfies `p`, copied into a fresh map. -/
def keep (m : OrderedMap K V) (p : K → Bool) : OrderedMap K V :=
  insertEntries ∅ (m.toList.filter fun e ↦ p e.1)

@[simp] theorem eraseKeys_nil (m : OrderedMap K V) : m.eraseKeys [] = m := rfl

theorem eraseKeys_cons (m : OrderedMap K V) (k : K) (ks : List K) :
    m.eraseKeys (k :: ks) = eraseKeys (m.erase k) ks := rfl

@[simp] theorem insertEntries_nil (m : OrderedMap K V) : m.insertEntries [] = m := rfl

theorem insertEntries_cons (m : OrderedMap K V) (e : K × V) (es : List (K × V)) :
    m.insertEntries (e :: es) = insertEntries (m.insert e.1 e.2) es := rfl

variable [Std.LawfulEqOrd K] {es : List (K × V)}

theorem ext_lookup {m n : OrderedMap K V} (h : ∀ k : K, m[k]? = n[k]?) : m = n :=
  Std.ExtTreeMap.ext_getElem? fun {k} ↦ h k

theorem mem_toList {k : K} {v : V} :
    (k, v) ∈ m.toList ↔ m[k]? = some v :=
  Std.ExtTreeMap.mem_toList_iff_getElem?_eq_some

theorem size_le_of_subset {W : Type*} {n : OrderedMap K W}
    (h : ∀ k ∈ m, k ∈ n) : m.size ≤ n.size := by
  rw [← Std.ExtTreeMap.length_keys, ← Std.ExtTreeMap.length_keys]
  refine (List.subperm_of_subset Std.ExtTreeMap.nodup_keys fun k hk ↦ ?_).length_le
  exact Std.ExtTreeMap.mem_keys.mpr (h k (Std.ExtTreeMap.mem_keys.mp hk))

theorem toList_functional {k : K} {v w : V} (hv : (k, v) ∈ m.toList)
    (hw : (k, w) ∈ m.toList) : v = w := by
  rw [mem_toList] at hv hw
  exact Option.some_inj.mp (hv.symm.trans hw)

@[simp] theorem lookup_insert (m : OrderedMap K V) (k a : K) (v : V) [Decidable (a = k)] :
    (m.insert k v)[a]? = if a = k then some v else m[a]? := by
  rw [Std.ExtTreeMap.getElem?_insert]
  by_cases h : a = k
  · simp [h]
  · simp [h, Ne.symm h]

@[simp] theorem lookup_erase (m : OrderedMap K V) (k a : K) [Decidable (a = k)] :
    (m.erase k)[a]? = if a = k then none else m[a]? := by
  rw [Std.ExtTreeMap.getElem?_erase]
  by_cases h : a = k
  · simp [h]
  · simp [h, Ne.symm h]

section Erase

variable [DecidableEq K]

@[simp] theorem getElem?_eraseKeys (m : OrderedMap K V) (ks : List K) (k : K) :
    (m.eraseKeys ks)[k]? = if k ∈ ks then none else m[k]? := by
  induction ks generalizing m with
  | nil => simp [eraseKeys]
  | cons a ks ih =>
    rw [eraseKeys_cons, ih, Std.ExtTreeMap.getElem?_erase]
    by_cases hk : k ∈ ks
    · simp [hk]
    · by_cases ha : k = a
      · simp [ha]
      · simp [hk, ha, Ne.symm ha]

theorem eraseKeys_eq_self {ks : List K} (h : ∀ k ∈ ks, k ∉ m) :
    m.eraseKeys ks = m := by
  refine ext_lookup fun k ↦ ?_
  rw [getElem?_eraseKeys]
  split
  · next hk => exact (not_mem_iff.mp (h k hk)).symm
  · rfl

/-- **A map comes back** from a larger one when the keys it lacks are erased. -/
theorem eraseKeys_eq_of_submap {m n : OrderedMap K V} {ks : List K}
    (hsub : ∀ (k : K) (v : V), m[k]? = some v → n[k]? = some v) (hks : ∀ k ∈ n, k ∈ ks ↔ k ∉ m) :
    n.eraseKeys ks = m := by
  refine ext_lookup fun k ↦ ?_
  rw [getElem?_eraseKeys]
  by_cases hk : k ∈ m
  · obtain ⟨v, hv⟩ := mem_iff_exists.mp hk
    have hn : n[k]? = some v := hsub k v hv
    rw [if_neg fun hin ↦ (hks k (mem_of_getElem? hn)).mp hin hk, hn, hv]
  · rw [not_mem_iff.mp hk]
    by_cases hn : k ∈ n
    · exact if_pos ((hks k hn).mpr hk)
    · rw [not_mem_iff.mp hn, ite_self]

end Erase

/-! ## Inserting a list of entries -/

theorem getElem?_insertEntries_of_not_mem {k : K}
    (h : ∀ v, (k, v) ∉ es) (m : OrderedMap K V) : (m.insertEntries es)[k]? = m[k]? := by
  induction es generalizing m with
  | nil => rfl
  | cons e es ih =>
    have hne : e.1 ≠ k := by
      rintro rfl
      exact h e.2 List.mem_cons_self
    rw [insertEntries_cons, ih fun v hv ↦ h v (List.mem_cons_of_mem _ hv),
      Std.ExtTreeMap.getElem?_insert]
    simp [hne]

theorem getElem?_insertEntries_of_mem {k : K} {v : V}
    (hf : ∀ w, (k, w) ∈ es → w = v) (h : (k, v) ∈ es) (m : OrderedMap K V) :
    (m.insertEntries es)[k]? = some v := by
  induction es generalizing m with
  | nil => simp at h
  | cons e es ih =>
    rw [insertEntries_cons]
    by_cases hk : ∃ w, (k, w) ∈ es
    · obtain ⟨w, hw⟩ := hk
      have hwv : w = v := hf w (List.mem_cons_of_mem _ hw)
      exact ih (fun w hw ↦ hf w (List.mem_cons_of_mem _ hw)) (hwv ▸ hw) _
    · push Not at hk
      have he : e = (k, v) := by
        rcases List.mem_cons.mp h with h | h
        · exact h.symm
        · exact absurd h (hk v)
      rw [getElem?_insertEntries_of_not_mem hk, he, Std.ExtTreeMap.getElem?_insert]
      simp

theorem getElem?_insertEntries_iff
    (hf : ∀ k v w, (k, v) ∈ es → (k, w) ∈ es → v = w) (m : OrderedMap K V) (k : K) (v : V) :
    (m.insertEntries es)[k]? = some v ↔
      (k, v) ∈ es ∨ ((∀ w, (k, w) ∉ es) ∧ m[k]? = some v) := by
  by_cases hk : ∃ w, (k, w) ∈ es
  · obtain ⟨w, hw⟩ := hk
    rw [getElem?_insertEntries_of_mem (fun w' hw' ↦ hf k w' w hw' hw) hw]
    constructor
    · intro h
      exact Or.inl (Option.some_inj.mp h ▸ hw)
    · rintro (h | ⟨h, -⟩)
      · rw [hf k v w h hw]
      · exact absurd hw (h w)
  · push Not at hk
    rw [getElem?_insertEntries_of_not_mem hk]
    simp [hk]

theorem mem_insertEntries {k : K} :
    k ∈ m.insertEntries es ↔ (∃ v, (k, v) ∈ es) ∨ k ∈ m := by
  induction es generalizing m with
  | nil => simp
  | cons e es ih =>
    rw [insertEntries_cons, ih, Std.ExtTreeMap.mem_insert]
    constructor
    · rintro (⟨v, hv⟩ | hk | hk)
      · exact Or.inl ⟨v, List.mem_cons_of_mem _ hv⟩
      · rw [Std.LawfulEqOrd.compare_eq_iff_eq] at hk
        exact Or.inl ⟨e.2, hk ▸ List.mem_cons_self⟩
      · exact Or.inr hk
    · rintro (⟨v, hv⟩ | hk)
      · rcases List.mem_cons.mp hv with rfl | hv
        · exact Or.inr (Or.inl (Std.LawfulEqOrd.compare_eq_iff_eq.mpr rfl))
        · exact Or.inl ⟨v, hv⟩
      · exact Or.inr (Or.inr hk)

theorem mem_or_of_getElem?_insertEntries {k : K} {v : V}
    (h : (m.insertEntries es)[k]? = some v) : (k, v) ∈ es ∨ m[k]? = some v := by
  induction es generalizing m with
  | nil => exact Or.inr h
  | cons e es ih =>
    rw [insertEntries_cons] at h
    rcases ih h with hes | hm
    · exact Or.inl (List.mem_cons_of_mem _ hes)
    · rw [Std.ExtTreeMap.getElem?_insert] at hm
      split at hm
      · next hk =>
        obtain rfl := Std.LawfulEqOrd.eq_of_compare hk
        obtain rfl := Option.some_inj.mp hm
        exact Or.inl List.mem_cons_self
      · exact Or.inr hm

theorem insertEntries_toList (m : OrderedMap K V) : insertEntries ∅ m.toList = m := by
  refine ext_lookup fun k ↦ Option.ext fun v ↦ ?_
  rw [getElem?_insertEntries_iff fun _ _ _ ↦ toList_functional, mem_toList]
  simp

@[simp] theorem getElem?_keep (m : OrderedMap K V) (p : K → Bool) (k : K) :
    (m.keep p)[k]? = if p k then m[k]? else none := by
  refine Option.ext fun v ↦ ?_
  have hf : ∀ (k : K) (v w : V), (k, v) ∈ m.toList.filter (fun e ↦ p e.1) →
      (k, w) ∈ m.toList.filter (fun e ↦ p e.1) → v = w := by
    intro k v w hv hw
    exact toList_functional (List.mem_filter.mp hv).1 (List.mem_filter.mp hw).1
  rw [keep, getElem?_insertEntries_iff hf, List.mem_filter, mem_toList]
  by_cases hp : p k <;> simp [hp]

theorem mem_keep {p : K → Bool} {k : K} :
    k ∈ m.keep p ↔ k ∈ m ∧ p k := by
  rw [mem_iff_exists, mem_iff_exists, getElem?_keep]
  by_cases hp : p k <;> simp [hp]

theorem keep_eq_self {p : K → Bool} (h : ∀ k ∈ m, p k) : m.keep p = m := by
  refine ext_lookup fun k ↦ ?_
  rw [getElem?_keep]
  split
  · rfl
  · next hp => exact (not_mem_iff.mp fun hk ↦ hp (h k hk)).symm

section Modify

variable [DecidableEq K]

def modifyKeys (m : OrderedMap K V) (ks : List K) (f : V → V) : OrderedMap K V :=
  m.map fun k v ↦ if k ∈ ks then f v else v

@[simp] theorem getElem?_modifyKeys (m : OrderedMap K V) (ks : List K) (f : V → V) (k : K) :
    (m.modifyKeys ks f)[k]? = if k ∈ ks then m[k]?.map f else m[k]? := by
  rw [modifyKeys, Std.ExtTreeMap.getElem?_map]
  by_cases hk : k ∈ ks <;> simp [hk]

@[simp] theorem mem_modifyKeys {ks : List K} {f : V → V} {k : K} :
    k ∈ m.modifyKeys ks f ↔ k ∈ m := by
  rw [mem_iff_exists, mem_iff_exists, getElem?_modifyKeys]
  by_cases hk : k ∈ ks <;> simp [hk]

end Modify

section Push

def push (m : OrderedMap K (List V)) (es : List (K × V)) : OrderedMap K (List V) :=
  es.foldl (fun m e ↦ m.insert e.1 (m[e.1]?.getD [] ++ [e.2])) m

variable [DecidableEq K]

theorem getD_push (m : OrderedMap K (List V)) (es : List (K × V)) (k : K) :
    (m.push es)[k]?.getD [] = m[k]?.getD [] ++ (es.filter (·.1 = k)).map Prod.snd := by
  unfold push
  induction es generalizing m with
  | nil => simp
  | cons e es ih =>
    rw [List.foldl_cons, ih, lookup_insert]
    by_cases hk : k = e.1
    · subst hk
      simp
    · simp [hk, Ne.symm hk]

omit [DecidableEq K] in
theorem mem_push {m : OrderedMap K (List V)} {k : K} :
    k ∈ m.push es ↔ k ∈ m ∨ ∃ v, (k, v) ∈ es := by
  unfold push
  induction es generalizing m with
  | nil => simp
  | cons e es ih =>
    rw [List.foldl_cons, ih, Std.ExtTreeMap.mem_insert, Std.LawfulEqOrd.compare_eq_iff_eq]
    constructor
    · rintro ((rfl | hk) | ⟨v, hv⟩)
      · exact Or.inr ⟨e.2, List.mem_cons_self⟩
      · exact Or.inl hk
      · exact Or.inr ⟨v, List.mem_cons_of_mem _ hv⟩
    · rintro (hk | ⟨v, hv⟩)
      · exact Or.inl (Or.inr hk)
      · rcases List.mem_cons.mp hv with rfl | hv
        · exact Or.inl (Or.inl rfl)
        · exact Or.inr ⟨v, hv⟩

end Push

section KeepLeast

variable [LinearOrder V]

def keepLeast (m : OrderedMap K V) (es : List (K × V)) : OrderedMap K V :=
  es.foldl (fun m e ↦ m.insert e.1 (m[e.1]?.elim e.2 fun v ↦ min v e.2)) m

variable [DecidableEq K]

theorem keepLeast_cases (es : List (K × V)) (k : K) :
    ((keepLeast ∅ es)[k]? = none ∧ ∀ w, (k, w) ∉ es) ∨
      ∃ v, (keepLeast ∅ es)[k]? = some v ∧ IsLeast {w | (k, w) ∈ es} v := by
  induction es using List.reverseRecOn with
  | nil => exact .inl ⟨Std.ExtTreeMap.getElem?_empty, fun _ ↦ List.not_mem_nil⟩
  | append_singleton es e ih =>
    obtain ⟨a, w⟩ := e
    have hstep : keepLeast ∅ (es ++ [(a, w)]) =
        (keepLeast ∅ es).insert a ((keepLeast ∅ es)[a]?.elim w fun v ↦ min v w) := by
      rw [keepLeast, List.foldl_append]
      rfl
    rw [hstep, lookup_insert]
    by_cases hk : k = a
    · subst hk
      rw [if_pos rfl]
      rcases ih with ⟨hnone, hempty⟩ | ⟨v, hv, hleast⟩
      · refine .inr ⟨w, by rw [hnone]; rfl, by simp, fun u hu ↦ ?_⟩
        rcases List.mem_append.mp hu with hu | hu
        · exact absurd hu (hempty u)
        · exact (Prod.mk.inj (List.mem_singleton.mp hu)).2.ge
      · refine .inr ⟨min v w, by rw [hv]; rfl, ?_, fun u hu ↦ ?_⟩
        · rcases le_total v w with hvw | hwv
          · rw [min_eq_left hvw]
            exact List.mem_append_left _ hleast.1
          · rw [min_eq_right hwv]
            exact List.mem_append_right _ (List.mem_singleton_self _)
        · rcases List.mem_append.mp hu with hu | hu
          · exact (min_le_left _ _).trans (hleast.2 hu)
          · exact (min_le_right _ _).trans (Prod.mk.inj (List.mem_singleton.mp hu)).2.ge
    · have hsame (u : V) : (k, u) ∈ es ++ [(a, w)] ↔ (k, u) ∈ es := by simp [hk]
      simp only [if_neg hk, hsame]
      exact ih

end KeepLeast

end OrderedMap
