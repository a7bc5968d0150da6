import RosheraCad.Api.Idempotency
import Mathlib.Algebra.Group.Nat.Defs

/-!
# What an insert evicts

The sweep of an insert iterates over a concurrent map, so among entries of the same age the order of
iteration decides which are dropped. An arrangement stands for one such order.
-/

namespace RosheraCad

namespace Idempotency

def usizeMax : ℕ := 2 ^ 64 - 1

structure Arrangement where
  arrange : List (CacheKey × CachedResponse) → List (CacheKey × CachedResponse)
  perm : ∀ l, (arrange l).Perm l

def Arrangement.byKey : Arrangement := ⟨fun l ↦ l, List.Perm.refl⟩

namespace IdempotencyStore

variable (store : IdempotencyStore) (order : Arrangement) (now : ℕ)

def unexpired : OrderedMap CacheKey CachedResponse :=
  store.entries.eraseKeys
    (((order.arrange store.entries.toList).filter fun e ↦ store.isExpired now e.2).map Prod.fst)

def retentionFloor : ℕ := min (store.maxEntries * 4) usizeMax / 5

def byAge (entries : OrderedMap CacheKey CachedResponse) : List (CacheKey × ℕ) :=
  ((order.arrange entries.toList).map fun e ↦ (e.1, e.2.insertedAt)).insertionSort (·.2 ≤ ·.2)

def sweepInOrder : IdempotencyStore :=
  let entries := store.unexpired order now
  if entries.size < store.maxEntries then { store with entries := entries }
  else
    let aged := byAge order entries
    let toDrop := aged.length - store.retentionFloor
    { store with entries := entries.eraseKeys ((aged.take toDrop).map Prod.fst) }

def insertInOrder (key : CacheKey) (value : CachedResponse) : IdempotencyStore :=
  let store := if store.maxEntries ≤ store.entries.size then store.sweepInOrder order now else store
  { store with entries := store.entries.insert key value }

theorem insertInOrder_byKey (h : store.maxEntries * 4 ≤ usizeMax) (key : CacheKey)
    (value : CachedResponse) :
    store.insertInOrder .byKey now key value = store.insert key value now := by
  simp only [insertInOrder, IdempotencyStore.insert, sweepInOrder, sweepForCapacity, unexpired,
    byAge, retentionFloor, Arrangement.byKey, Nat.min_eq_left h]

/-! ## One sweep -/

variable {store order now} {key : CacheKey} {value : CachedResponse} {c : CachedResponse}
  {k : CacheKey}

theorem lookup_unexpired (k : CacheKey) : (store.unexpired order now)[k]? =
    store.entries[k]?.filter fun c ↦ !store.isExpired now c := by
  have hmem : k ∈ ((order.arrange store.entries.toList).filter
        fun e ↦ store.isExpired now e.2).map Prod.fst ↔
      ∃ c, store.entries[k]? = some c ∧ store.isExpired now c = true := by
    simp only [List.mem_map, List.mem_filter, (order.perm _).mem_iff]
    constructor
    · rintro ⟨⟨k', c⟩, ⟨hc, hexpired⟩, rfl⟩
      exact ⟨c, OrderedMap.mem_toList.mp hc, hexpired⟩
    · rintro ⟨c, hc, hexpired⟩
      exact ⟨(k, c), ⟨OrderedMap.mem_toList.mpr hc, hexpired⟩, rfl⟩
  rw [unexpired, OrderedMap.getElem?_eraseKeys]
  rcases hc : store.entries[k]? with - | c
  · simp
  · by_cases hexpired : store.isExpired now c = true
    · rw [if_pos (hmem.mpr ⟨c, hc, hexpired⟩), Option.filter_some, if_neg (by simp [hexpired])]
    · have hkept : ¬ ∃ c, store.entries[k]? = some c ∧ store.isExpired now c = true := by
        rintro ⟨c', hc', hexpired'⟩
        rw [hc, Option.some_inj] at hc'
        exact hexpired (hc' ▸ hexpired')
      rw [if_neg (mt hmem.mp hkept), Option.filter_some, if_pos (by simp [hexpired])]

theorem size_unexpired_le : (store.unexpired order now).size ≤ store.entries.size :=
  OrderedMap.size_le_of_subset fun k hk ↦ by
    obtain ⟨c, hc⟩ := OrderedMap.mem_iff_exists.mp hk
    rw [lookup_unexpired] at hc
    exact OrderedMap.mem_of_getElem? (Option.filter_eq_some_iff.mp hc).1

theorem mem_byAge {entries : OrderedMap CacheKey CachedResponse} {t : ℕ} :
    (k, t) ∈ byAge order entries ↔ ∃ c, entries[k]? = some c ∧ c.insertedAt = t := by
  rw [byAge, List.mem_insertionSort, List.mem_map]
  simp only [(order.perm _).mem_iff, Prod.mk.injEq, Prod.exists, OrderedMap.mem_toList]
  constructor
  · rintro ⟨k', c, hc, rfl, ht⟩
    exact ⟨c, hc, ht⟩
  · rintro ⟨c, hc, ht⟩
    exact ⟨k, c, hc, rfl, ht⟩

def evictOldest (order : Arrangement) (floor : ℕ) (entries : OrderedMap CacheKey CachedResponse) :
    OrderedMap CacheKey CachedResponse :=
  entries.eraseKeys (((byAge order entries).take
    ((byAge order entries).length - floor)).map Prod.fst)

section EvictOldest

variable {entries : OrderedMap CacheKey CachedResponse} {floor : ℕ}

theorem lookup_evictOldest :
    (evictOldest order floor entries)[k]? = some c ↔ entries[k]? = some c ∧
      k ∉ ((byAge order entries).take ((byAge order entries).length - floor)).map Prod.fst := by
  rw [evictOldest, OrderedMap.getElem?_eraseKeys]
  split
  case isTrue hk => simp only [hk, not_true_eq_false, and_false, reduceCtorEq]
  case isFalse hk => simp only [hk, not_false_eq_true, and_true]

theorem mem_drop_of_lookup (h : (evictOldest order floor entries)[k]? = some c) :
    (k, c.insertedAt) ∈ (byAge order entries).drop ((byAge order entries).length - floor) := by
  obtain ⟨hc, hkept⟩ := lookup_evictOldest.mp h
  have hmem : (k, c.insertedAt) ∈ byAge order entries := mem_byAge.mpr ⟨c, hc, rfl⟩
  rw [← List.take_append_drop ((byAge order entries).length - floor) (byAge order entries)] at hmem
  refine (List.mem_append.mp hmem).resolve_left fun htake ↦ hkept ?_
  exact List.mem_map_of_mem htake

theorem evictOldest_le {k k' : CacheKey} {c c' : CachedResponse} (hc : entries[k]? = some c)
    (hdropped : (evictOldest order floor entries)[k]? = none)
    (hkept : (evictOldest order floor entries)[k']? = some c') : c.insertedAt ≤ c'.insertedAt := by
  have htake : (k, c.insertedAt) ∈
      (byAge order entries).take ((byAge order entries).length - floor) := by
    by_contra hnot
    have hk : k ∉ ((byAge order entries).take
        ((byAge order entries).length - floor)).map Prod.fst := by
      intro hk
      obtain ⟨⟨_, t⟩, ht, rfl⟩ := List.mem_map.mp hk
      obtain ⟨d, hd, rfl⟩ := mem_byAge.mp (List.mem_of_mem_take ht)
      rw [hc, Option.some_inj] at hd
      exact hnot (hd ▸ ht)
    rw [lookup_evictOldest.mpr ⟨hc, hk⟩] at hdropped
    cases hdropped
  have hsorted : (byAge order entries).Pairwise (·.2 ≤ ·.2) := List.pairwise_insertionSort _ _
  rw [← List.take_append_drop ((byAge order entries).length - floor) (byAge order entries),
    List.pairwise_append] at hsorted
  exact hsorted.2.2 _ htake _ (mem_drop_of_lookup hkept)

theorem size_evictOldest_le : (evictOldest order floor entries).size ≤ floor := by
  have hsubset : (evictOldest order floor entries).keys ⊆
      ((byAge order entries).drop ((byAge order entries).length - floor)).map Prod.fst := by
    intro k hk
    obtain ⟨c, hc⟩ := OrderedMap.mem_iff_exists.mp (Std.ExtTreeMap.mem_keys.mp hk)
    exact List.mem_map_of_mem (mem_drop_of_lookup hc)
  have hle := (List.subperm_of_subset Std.ExtTreeMap.nodup_keys hsubset).length_le
  rw [Std.ExtTreeMap.length_keys, List.length_map, List.length_drop] at hle
  omega

end EvictOldest

theorem sweepInOrder_cases (store : IdempotencyStore) (order : Arrangement) (now : ℕ) :
    (store.unexpired order now).size < store.maxEntries ∧
        store.sweepInOrder order now = { store with entries := store.unexpired order now } ∨
      store.maxEntries ≤ (store.unexpired order now).size ∧
        store.sweepInOrder order now =
          { store with
            entries := evictOldest order store.retentionFloor (store.unexpired order now) } := by
  rw [sweepInOrder]
  split
  case isTrue hlt => exact Or.inl ⟨hlt, rfl⟩
  case isFalse hge => exact Or.inr ⟨Nat.not_lt.mp hge, rfl⟩

theorem retentionFloor_lt (h : 1 ≤ store.maxEntries) : store.retentionFloor < store.maxEntries := by
  have hmin : min (store.maxEntries * 4) usizeMax ≤ store.maxEntries * 4 := Nat.min_le_left _ _
  rw [retentionFloor]
  omega

theorem size_sweepInOrder_lt (h : 1 ≤ store.maxEntries) :
    (store.sweepInOrder order now).entries.size < store.maxEntries := by
  rcases sweepInOrder_cases store order now with ⟨hlt, heq⟩ | ⟨-, heq⟩
  · rw [heq]
    exact hlt
  · rw [heq]
    exact size_evictOldest_le.trans_lt (retentionFloor_lt h)

theorem lookup_of_sweepInOrder
    (h : (store.sweepInOrder order now).entries[k]? = some c) : store.entries[k]? = some c := by
  have hunexpired : (store.unexpired order now)[k]? = some c := by
    rcases sweepInOrder_cases store order now with ⟨-, heq⟩ | ⟨-, heq⟩ <;> rw [heq] at h
    · exact h
    · exact (lookup_evictOldest.mp h).1
  rw [lookup_unexpired] at hunexpired
  exact (Option.filter_eq_some_iff.mp hunexpired).1

def FullOfUnexpired (store : IdempotencyStore) (now : ℕ) : Prop :=
  store.maxEntries ≤ store.entries.size ∧
    ∀ (k : CacheKey) (c : CachedResponse), store.entries[k]? = some c →
      store.isExpired now c = false

theorem fullOfUnexpired_of_le (hsize : store.entries.size ≤ store.maxEntries)
    (h : store.maxEntries ≤ (store.unexpired order now).size) : store.FullOfUnexpired now := by
  refine ⟨h.trans size_unexpired_le, fun k c hc ↦ ?_⟩
  by_contra hexpired
  have hsubset : (store.unexpired order now).size ≤ (store.entries.erase k).size := by
    refine OrderedMap.size_le_of_subset fun k' hk' ↦ ?_
    obtain ⟨c', hc'⟩ := OrderedMap.mem_iff_exists.mp hk'
    rw [lookup_unexpired] at hc'
    obtain ⟨hthere, hlive⟩ := Option.filter_eq_some_iff.mp hc'
    have hne : k' ≠ k := by
      rintro rfl
      rw [hc, Option.some_inj] at hthere
      rw [← hthere, Bool.not_eq_true'] at hlive
      exact hexpired hlive
    exact OrderedMap.mem_iff_exists.mpr ⟨c', by rw [OrderedMap.lookup_erase, if_neg hne, hthere]⟩
  rw [Std.ExtTreeMap.size_erase,
    if_pos (Std.ExtTreeMap.contains_iff_mem.mpr (OrderedMap.mem_of_getElem? hc))] at hsubset
  have hpos := List.length_pos_of_mem (OrderedMap.mem_toList.mpr hc)
  rw [Std.ExtTreeMap.length_toList] at hpos
  omega

theorem fullOfUnexpired_of_dropped (hsize : store.entries.size ≤ store.maxEntries)
    (hc : store.entries[k]? = some c)
    (hlive : store.isExpired now c = false)
    (hdropped : (store.sweepInOrder order now).entries[k]? = none) :
    store.FullOfUnexpired now ∧ (store.sweepInOrder order now).entries =
      evictOldest order store.retentionFloor (store.unexpired order now) := by
  rcases sweepInOrder_cases store order now with ⟨-, heq⟩ | ⟨hge, heq⟩
  · rw [heq, lookup_unexpired, hc, Option.filter_some, if_pos (by simp [hlive])] at hdropped
    cases hdropped
  · exact ⟨fullOfUnexpired_of_le hsize hge, by rw [heq]⟩

end IdempotencyStore

open IdempotencyStore

/-! ## Runs of inserts -/

/-- An insert: the entry, when it is made, and in which order its sweep iterates. -/
structure Insert where
  key : CacheKey
  value : CachedResponse
  now : ℕ
  order : Arrangement

def insertSystem (maxEntries ttl : ℕ) : GuardedSystem IdempotencyStore Insert where
  init := withCapacityAndTtl maxEntries ttl
  enabled _ _ := True
  step store i := store.insertInOrder i.order i.now i.key i.value

def roomFor (store : IdempotencyStore) (i : Insert) : IdempotencyStore :=
  if store.maxEntries ≤ store.entries.size then store.sweepInOrder i.order i.now else store

variable {maxEntries ttl : ℕ}

theorem entries_step (store : IdempotencyStore) (i : Insert) :
    ((insertSystem maxEntries ttl).step store i).entries =
      (roomFor store i).entries.insert i.key i.value := rfl

theorem size_roomFor_lt {store : IdempotencyStore} {i : Insert} (h : 1 ≤ store.maxEntries) :
    (roomFor store i).entries.size < store.maxEntries := by
  rw [roomFor]
  split
  case isTrue => exact size_sweepInOrder_lt h
  case isFalse hlt => exact Nat.not_le.mp hlt

structure KeepsCap (maxEntries : ℕ) (store : IdempotencyStore) : Prop where
  maxEntries_eq : store.maxEntries = maxEntries
  size_le : store.entries.size ≤ maxEntries

theorem KeepsCap.step {store : IdempotencyStore}
    (h : KeepsCap maxEntries store) (hcap : 1 ≤ maxEntries) (i : Insert) :
    KeepsCap maxEntries ((insertSystem maxEntries ttl).step store i) where
  maxEntries_eq := by
    have hroom : (roomFor store i).maxEntries = store.maxEntries := by
      rw [roomFor, sweepInOrder]
      split
      · dsimp only
        split <;> rfl
      · rfl
    exact hroom.trans h.maxEntries_eq
  size_le := by
    have hlt := size_roomFor_lt (i := i) (h.maxEntries_eq ▸ hcap)
    rw [h.maxEntries_eq] at hlt
    rw [entries_step, Std.ExtTreeMap.size_insert]
    split <;> omega

theorem KeepsCap.run (hcap : 1 ≤ maxEntries) (is : List Insert) :
    KeepsCap maxEntries
      ((insertSystem maxEntries ttl).run (withCapacityAndTtl maxEntries ttl) is) := by
  induction is using List.reverseRecOn with
  | nil => exact ⟨rfl, by simp [GuardedSystem.run, withCapacityAndTtl]⟩
  | append_singleton is i ih =>
    rw [GuardedSystem.run_concat]
    exact ih.step hcap i

/-- **Every insert keeps the cap and its entry**; any other unexpired entry disappears only from a
full store, where what is dropped is no newer than what is kept. -/
theorem insert_evicts (maxEntries ttl : ℕ) (hcap : 1 ≤ maxEntries) (before : List Insert)
    (i : Insert) :
    let store := (insertSystem maxEntries ttl).run (withCapacityAndTtl maxEntries ttl) before
    let after := (insertSystem maxEntries ttl).step store i
    (after.entries.size ≤ maxEntries ∧ after.entries[i.key]? = some i.value) ∧
      ∀ (k : CacheKey) (c : CachedResponse), store.entries[k]? = some c → k ≠ i.key →
        store.isExpired i.now c = false → after.entries[k]? ≠ some c →
          store.FullOfUnexpired i.now ∧
            ∀ (k₁ k₂ : CacheKey) (c₁ c₂ : CachedResponse), store.entries[k₁]? = some c₁ →
              (store.sweepInOrder i.order i.now).entries[k₁]? = none →
              (store.sweepInOrder i.order i.now).entries[k₂]? = some c₂ →
                c₁.insertedAt ≤ c₂.insertedAt := by
  intro store after
  have hstore : KeepsCap maxEntries store := KeepsCap.run hcap before
  refine ⟨⟨(hstore.step hcap i).size_le, ?_⟩, fun k c hc hne hlive hgone ↦ ?_⟩
  · rw [entries_step, OrderedMap.lookup_insert, if_pos rfl]
  · rw [entries_step, OrderedMap.lookup_insert, if_neg hne, roomFor] at hgone
    -- Without a sweep the entry would still be there.
    split at hgone
    case isFalse => exact absurd hc hgone
    case isTrue =>
      have hdropped : (store.sweepInOrder i.order i.now).entries[k]? = none := by
        rcases hkept : (store.sweepInOrder i.order i.now).entries[k]? with - | c'
        · rfl
        · rw [lookup_of_sweepInOrder hkept] at hc
          rw [hkept] at hgone
          exact absurd hc hgone
      obtain ⟨hfull, heq⟩ := fullOfUnexpired_of_dropped
        (hstore.size_le.trans_eq hstore.maxEntries_eq.symm) hc hlive hdropped
      refine ⟨hfull, fun k₁ k₂ c₁ c₂ hc₁ hgone₁ hkept₂ ↦ ?_⟩
      rw [heq] at hgone₁ hkept₂
      have hlive₁ : (store.unexpired i.order i.now)[k₁]? = some c₁ := by
        rw [lookup_unexpired, hc₁, Option.filter_some, if_pos (by simp [hfull.2 k₁ c₁ hc₁])]
      exact evictOldest_le hlive₁ hgone₁ hkept₂

def cachedAt (t : ℕ) : CachedResponse := ⟨0, 200, none, [], t⟩

def attempt (clientKey : String) : CacheKey := ⟨.anonymous, "POST", "/parts", clientKey⟩

/-- With room for one answer the second one pushes out the first. -/
theorem insert_evicts_second :
    let store := (insertSystem 1 10).run (withCapacityAndTtl 1 10)
      [⟨attempt "a", cachedAt 0, 0, .byKey⟩]
    let after := (insertSystem 1 10).step store ⟨attempt "b", cachedAt 1, 1, .byKey⟩
    after.entries.size ≤ 1 ∧ after.entries[attempt "b"]? = some (cachedAt 1) :=
  (insert_evicts 1 10 (Nat.le_refl 1) [⟨attempt "a", cachedAt 0, 0, .byKey⟩]
    ⟨attempt "b", cachedAt 1, 1, .byKey⟩).1

end Idempotency

end RosheraCad
