import RosheraCad.Library.OrderedMap

/-!
# Prefixes of an ascending list

A count `h` names the first `h` entries of an ascending list; a bound `c` names its entries below
`c`. The entries satisfying a downward closed predicate are a prefix.
-/

namespace SortedPrefix

variable {α : Type*} [LinearOrder α] {l l' : List α}

/-- **A downward closed part of an ascending list is a prefix of it.** -/
theorem take_length_filter {β : Type*} {r : β → β → Prop} {p : β → Bool} {l : List β}
    (hl : l.Pairwise r) (hp : ∀ a b, r a b → p b → p a) :
    l.take (l.filter p).length = l.filter p := by
  induction l with
  | nil => rfl
  | cons a l ih =>
    rw [List.pairwise_cons] at hl
    by_cases ha : p a
    · rw [List.filter_cons_of_pos ha, List.length_cons, List.take_succ_cons, ih hl.2]
    · have hnil : l.filter p = [] :=
        List.filter_eq_nil_iff.mpr fun b hb hpb ↦ ha (hp a b (hl.1 b hb) hpb)
      rw [List.filter_cons_of_neg ha, hnil, List.length_nil, List.take_zero]

theorem eq_of_mem_iff (hl : l.Pairwise (· < ·)) (hl' : l'.Pairwise (· < ·))
    (h : ∀ a, a ∈ l ↔ a ∈ l') : l = l' :=
  List.Perm.eq_of_pairwise' hl hl' ((List.perm_ext_iff_of_nodup hl.nodup hl'.nodup).mpr h)

theorem exists_find?_le {p : α → Bool} (hl : l.Pairwise (· < ·)) {a : α} (ha : a ∈ l) (hp : p a) :
    ∃ b, l.find? p = some b ∧ b ≤ a := by
  obtain ⟨b, hb⟩ : ∃ b, l.find? p = some b :=
    Option.isSome_iff_exists.mp (List.find?_isSome.mpr ⟨a, ha, hp⟩)
  refine ⟨b, hb, ?_⟩
  obtain ⟨-, before, after, rfl, hbefore⟩ := List.find?_eq_some_iff_append.mp hb
  rcases List.mem_append.mp ha with ha | ha
  · have hnot := hbefore a ha
    rw [hp] at hnot
    cases hnot
  · rcases List.mem_cons.mp ha with rfl | ha
    · exact le_rfl
    · exact (List.rel_of_pairwise_cons (List.pairwise_append.mp hl).2.1 ha).le

/-! ## A count and the entry it stops at -/

section Cut

variable {h : ℕ} {c : α}

theorem mem_take_iff_lt (hl : l.Pairwise (· < ·)) (hc : l[h]? = some c) {k : α} :
    k ∈ l.take h ↔ k ∈ l ∧ k < c := by
  induction l generalizing h with
  | nil => simp at hc
  | cons a l ih =>
    rw [List.pairwise_cons] at hl
    cases h with
    | zero =>
      have hca : a = c := by simpa using hc
      subst hca
      simp only [List.take_zero, List.not_mem_nil, List.mem_cons, false_iff, not_and, not_lt]
      rintro (rfl | hk)
      · exact le_rfl
      · exact (hl.1 k hk).le
    | succ h =>
      have hc' : l[h]? = some c := by simpa using hc
      have hac : a < c := hl.1 c (List.mem_of_getElem? hc')
      rw [List.take_succ_cons, List.mem_cons, List.mem_cons, ih hl.2 hc']
      constructor
      · rintro (rfl | ⟨hk, hkc⟩)
        · exact ⟨Or.inl rfl, hac⟩
        · exact ⟨Or.inr hk, hkc⟩
      · rintro ⟨rfl | hk, hkc⟩
        · exact Or.inl rfl
        · exact Or.inr ⟨hk, hkc⟩

theorem mem_take_succ_iff_le (hl : l.Pairwise (· < ·)) (hc : l[h]? = some c) {k : α} :
    k ∈ l.take (h + 1) ↔ k ∈ l ∧ k ≤ c := by
  rw [List.take_add_one, List.mem_append, mem_take_iff_lt hl hc, hc]
  simp only [Option.toList_some, List.mem_singleton]
  constructor
  · rintro (⟨hk, hkc⟩ | rfl)
    · exact ⟨hk, hkc.le⟩
    · exact ⟨List.mem_of_getElem? hc, le_rfl⟩
  · rintro ⟨hk, hkc⟩
    rcases hkc.lt_or_eq with hlt | rfl
    · exact Or.inl ⟨hk, hlt⟩
    · exact Or.inr rfl

theorem take_succ_eq_filter_le (hl : l.Pairwise (· < ·)) (hc : l[h]? = some c) :
    l.take (h + 1) = l.filter (· ≤ c) :=
  eq_of_mem_iff (hl.sublist (List.take_sublist _ _)) (hl.sublist List.filter_sublist) fun k ↦ by
    rw [mem_take_succ_iff_le hl hc, List.mem_filter, decide_eq_true_eq]

end Cut

end SortedPrefix

/-! ## The first entries of an ordered map -/

namespace OrderedMap

variable {K V : Type*} [LinearOrder K] [Std.TransOrd K]

theorem pairwise_lt_keys (m : OrderedMap K V) : m.keys.Pairwise (· < ·) :=
  Std.ExtTreeMap.ordered_keys.imp fun h ↦ compare_lt_iff_lt.mp h

theorem pairwise_lt_toList (m : OrderedMap K V) : m.toList.Pairwise (·.1 < ·.1) :=
  Std.ExtTreeMap.ordered_keys_toList.imp fun h ↦ compare_lt_iff_lt.mp h

theorem nodup_toList (m : OrderedMap K V) : m.toList.Nodup :=
  m.pairwise_lt_toList.imp fun hlt heq ↦ absurd (heq ▸ hlt) (lt_irrefl _)

def first (m : OrderedMap K V) (n : ℕ) : OrderedMap K V := insertEntries ∅ (m.toList.take n)

variable [Std.LawfulEqOrd K] {m : OrderedMap K V}

theorem toList_eq_of_pairwise {l : List (K × V)}
    (hl : l.Pairwise (·.1 < ·.1)) (h : ∀ k v, m[k]? = some v ↔ (k, v) ∈ l) : m.toList = l := by
  have hasymm (a b : K × V) (hab : a.1 < b.1) (hba : b.1 < a.1) : a = b :=
    absurd hab (lt_asymm hba)
  have hnodup : l.Nodup := hl.imp fun hlt heq ↦ absurd (heq ▸ hlt) (lt_irrefl _)
  refine ((List.perm_ext_iff_of_nodup m.nodup_toList hnodup).mpr
    fun ⟨k, v⟩ ↦ ?_).eq_of_pairwise (fun a b _ _ ↦ hasymm a b) m.pairwise_lt_toList hl
  rw [mem_toList, h]

theorem getElem?_first (m : OrderedMap K V) (n : ℕ) (k : K) (v : V) :
    (m.first n)[k]? = some v ↔ (k, v) ∈ m.toList.take n := by
  rw [first, getElem?_insertEntries_iff fun k v w hv hw ↦
    toList_functional (List.mem_of_mem_take hv) (List.mem_of_mem_take hw)]
  simp

theorem toList_first (m : OrderedMap K V) (n : ℕ) : (m.first n).toList = m.toList.take n :=
  toList_eq_of_pairwise (m.pairwise_lt_toList.sublist (List.take_sublist _ _)) (m.getElem?_first n)

theorem first_eq_keep_lt {n : ℕ} {c : K} (hc : m.keys[n]? = some c) :
    m.first n = m.keep (· < c) := by
  refine ext_lookup fun k ↦ Option.ext fun v ↦ ?_
  have htake : k ∈ m.keys.take n ↔ k ∈ m ∧ k < c := by
    rw [SortedPrefix.mem_take_iff_lt m.pairwise_lt_keys hc, Std.ExtTreeMap.mem_keys]
  rw [getElem?_first, getElem?_keep]
  have hmap : m.keys.take n = (m.toList.take n).map Prod.fst := by
    rw [List.map_take, Std.ExtTreeMap.map_fst_toList_eq_keys]
  constructor
  · intro hv
    have hk : k ∈ m.keys.take n := hmap ▸ List.mem_map.mpr ⟨_, hv, rfl⟩
    rw [if_pos (decide_eq_true (htake.mp hk).2)]
    exact mem_toList.mp (List.mem_of_mem_take hv)
  · intro hv
    split at hv
    · next hlt =>
      have hk : k ∈ m.keys.take n := htake.mpr ⟨mem_of_getElem? hv, of_decide_eq_true hlt⟩
      rw [hmap] at hk
      obtain ⟨⟨k', w⟩, hw, rfl⟩ := List.mem_map.mp hk
      rwa [toList_functional (mem_toList.mpr hv) (List.mem_of_mem_take hw)]
    · cases hv

theorem toList_insert_of_lt {k : K} {v : V} (h : ∀ a ∈ m, a < k) :
    (m.insert k v).toList = m.toList ++ [(k, v)] := by
  refine toList_eq_of_pairwise ?_ fun a w ↦ ?_
  · rw [List.pairwise_append]
    refine ⟨m.pairwise_lt_toList, List.pairwise_singleton _ _, ?_⟩
    rintro ⟨a, w⟩ ha b hb
    obtain rfl : b = (k, v) := by simpa using hb
    exact h a (mem_of_getElem? (mem_toList.mp ha))
  · rw [lookup_insert, List.mem_append, mem_toList, List.mem_singleton, Prod.mk.injEq]
    by_cases hak : a = k
    · subst hak
      have hnone : m[a]? = none := not_mem_iff.mp fun ha ↦ lt_irrefl a (h a ha)
      simp [hnone, eq_comm]
    · simp [hak]

end OrderedMap
