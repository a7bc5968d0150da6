import RosheraCad.Library.OrderedMap
import Mathlib.Data.Set.Card

/-!
# Stores with fresh identifiers

A store keeps its entries under numbers it hands out in ascending order and never twice. It is
copied by adding its entries to an empty store one by one, remembering which key got which number.
When everything was built, the remembered numbers are a renaming between the two.
-/

structure IdStore (α : Type*) where
  entries : OrderedMap ℕ α
  nextId : ℕ
  lt_nextId : ∀ id ∈ entries, id < nextId

namespace IdStore

variable {α β γ K : Type*} {s : IdStore α} {f : ℕ → ℕ} {R : α → β → Prop}

def empty : IdStore α := ⟨∅, 0, fun id hid ↦ by simp at hid⟩

def iter (s : IdStore α) : List (ℕ × α) := s.entries.toList

def get (s : IdStore α) (id : ℕ) : Option α := s.entries[id]?

def Live (s : IdStore α) (id : ℕ) : Prop := id ∈ s.entries

/-- Add an entry under the next number. -/
def add (s : IdStore α) (a : α) : ℕ × IdStore α :=
  (s.nextId,
    { entries := s.entries.insert s.nextId a
      nextId := s.nextId + 1
      lt_nextId := by
        intro id hid
        rcases Std.ExtTreeMap.mem_insert.mp hid with heq | hid
        · rw [Std.LawfulEqOrd.compare_eq_iff_eq] at heq
          exact heq ▸ Nat.lt_succ_self _
        · exact (s.lt_nextId id hid).trans (Nat.lt_succ_self _) })

/-- Remove the entry under a number; the number is not handed out again. -/
def remove (s : IdStore α) (id : ℕ) : IdStore α where
  entries := s.entries.erase id
  nextId := s.nextId
  lt_nextId i hi := s.lt_nextId i (Std.ExtTreeMap.mem_of_mem_erase hi)

/-- The entries, each seen through a function. -/
def map (f : α → β) (s : IdStore α) : IdStore β where
  entries := s.entries.map fun _ a ↦ f a
  nextId := s.nextId
  lt_nextId i hi := s.lt_nextId i (Std.ExtTreeMap.mem_map.mp hi)

def modify (s : IdStore α) (id : ℕ) (f : α → α) : IdStore α where
  entries := s.entries.modifyKeys [id] f
  nextId := s.nextId
  lt_nextId i hi := s.lt_nextId i (OrderedMap.mem_modifyKeys.mp hi)

def len (s : IdStore α) : ℕ := s.entries.size

theorem live_iff {id : ℕ} : s.Live id ↔ ∃ a, s.get id = some a :=
  OrderedMap.mem_iff_exists

theorem mem_iter {id : ℕ} {a : α} : (id, a) ∈ s.iter ↔ s.get id = some a :=
  OrderedMap.mem_toList

theorem nodup_iter (s : IdStore α) : (s.iter.map Prod.fst).Nodup := by
  rw [iter, Std.ExtTreeMap.map_fst_toList_eq_keys]
  exact Std.ExtTreeMap.nodup_keys

theorem get_empty (id : ℕ) : (empty : IdStore α).get id = none := by
  simp [get, empty]

theorem get_add (s : IdStore α) (a : α) (id : ℕ) :
    (s.add a).2.get id = if id = s.nextId then some a else s.get id := by
  rw [add, get, OrderedMap.lookup_insert]
  rfl

theorem get_remove (s : IdStore α) (id i : ℕ) :
    (s.remove id).get i = if i = id then none else s.get i := by
  rw [remove, get, OrderedMap.lookup_erase]
  rfl

theorem get_modify (s : IdStore α) (id : ℕ) (f : α → α) (i : ℕ) :
    (s.modify id f).get i = if i = id then (s.get i).map f else s.get i := by
  rw [modify, get, OrderedMap.getElem?_modifyKeys]
  simp only [List.mem_singleton]
  rfl

theorem get_foldl_modify {ids : List ℕ} (hids : ids.Nodup) (f : α → α) (s : IdStore α) (i : ℕ) :
    (ids.foldl (fun s id ↦ s.modify id f) s).get i =
      if i ∈ ids then (s.get i).map f else s.get i := by
  induction ids generalizing s with
  | nil => rfl
  | cons id ids ih =>
    obtain ⟨hid, hids⟩ := List.nodup_cons.mp hids
    rw [List.foldl_cons, ih hids, get_modify]
    by_cases hi : i = id
    · simp [hi, hid]
    · simp [hi]

theorem get_map (f : α → β) (s : IdStore α) (id : ℕ) : (s.map f).get id = (s.get id).map f :=
  Std.ExtTreeMap.getElem?_map

theorem live_map {f : α → β} {id : ℕ} : (s.map f).Live id ↔ s.Live id :=
  Std.ExtTreeMap.mem_map

def single (a : α) : IdStore α := (empty.add a).2

theorem get_single {a b : α} {id : ℕ} : (single a).get id = some b ↔ id = 0 ∧ b = a := by
  rw [single, get_add, get_empty]
  have hnext : (empty : IdStore α).nextId = 0 := rfl
  by_cases hid : id = 0
  · simp [hid, hnext, eq_comm]
  · simp [hid, hnext]

/-! ## Copying -/

section Copy

variable [Ord K] [Std.TransOrd K]

def importAll (build : α → Option β) (l : List (K × α)) : IdStore β × OrderedMap K ℕ :=
  l.foldl (fun acc e ↦
    match build e.2 with
    | some b => ((acc.1.add b).2, acc.2.insert e.1 (acc.1.add b).1)
    | none => acc) (empty, ∅)

def kept (build : α → Option β) (l : List (K × α)) : List (K × β) :=
  l.filterMap fun e ↦ (build e.2).map (e.1, ·)

variable [Std.LawfulEqOrd K] [DecidableEq K] {l : List (K × α)}

private structure Holds (added : List (K × β)) (acc : IdStore β × OrderedMap K ℕ) : Prop where
  get_eq : ∀ i, acc.1.get i = added[i]?.map Prod.snd
  nextId_eq : acc.1.nextId = added.length
  number_iff : ∀ (k : K) (i : ℕ), acc.2[k]? = some i ↔ ∃ b, added[i]? = some (k, b)

private theorem Holds.push {added : List (K × β)} {acc : IdStore β × OrderedMap K ℕ}
    (h : Holds added acc) {k : K} {b : β} (hk : k ∉ added.map Prod.fst) :
    Holds (added ++ [(k, b)]) ((acc.1.add b).2, acc.2.insert k (acc.1.add b).1) where
  get_eq i := by
    rw [get_add, h.nextId_eq, h.get_eq]
    rcases Nat.lt_trichotomy i added.length with hlt | rfl | hgt
    · rw [if_neg hlt.ne, List.getElem?_append_left hlt]
    · rw [if_pos rfl, List.getElem?_append_right (Nat.le_refl _), Nat.sub_self]
      rfl
    · rw [if_neg hgt.ne', List.getElem?_eq_none hgt.le, List.getElem?_eq_none]
      rw [List.length_append, List.length_singleton]
      exact hgt
  nextId_eq := by
    rw [List.length_append, List.length_singleton, ← h.nextId_eq]
    rfl
  number_iff c i := by
    have hnumber : (acc.1.add b).1 = added.length := h.nextId_eq
    rw [OrderedMap.lookup_insert, hnumber]
    by_cases hc : c = k
    · subst hc
      rw [if_pos rfl, Option.some_inj]
      constructor
      · rintro rfl
        refine ⟨b, ?_⟩
        rw [List.getElem?_append_right (Nat.le_refl _), Nat.sub_self]
        rfl
      · -- Elsewhere the key was not among what was added before.
        rintro ⟨b', hb'⟩
        by_contra hne
        rcases Nat.lt_or_ge i added.length with hlt | hge
        · rw [List.getElem?_append_left hlt] at hb'
          exact hk (List.mem_map.mpr ⟨_, List.mem_of_getElem? hb', rfl⟩)
        · rw [List.getElem?_eq_none] at hb'
          · cases hb'
          · rw [List.length_append, List.length_singleton]
            omega
    · rw [if_neg hc, h.number_iff]
      refine exists_congr fun b' ↦ ?_
      rcases Nat.lt_or_ge i added.length with hlt | hge
      · rw [List.getElem?_append_left hlt]
      · rw [List.getElem?_eq_none hge, List.getElem?_append_right hge]
        refine iff_of_false nofun fun h' ↦ hc ?_
        have := List.mem_singleton.mp (List.mem_of_getElem? h')
        exact (Prod.mk.inj this).1

private theorem holds_foldl (build : α → Option β) (l : List (K × α)) {added : List (K × β)}
    {acc : IdStore β × OrderedMap K ℕ} (h : Holds added acc)
    (hnodup : (added.map Prod.fst ++ l.map Prod.fst).Nodup) :
    Holds (added ++ kept build l) (l.foldl (fun acc e ↦
      match build e.2 with
      | some b => ((acc.1.add b).2, acc.2.insert e.1 (acc.1.add b).1)
      | none => acc) acc) := by
  induction l generalizing added acc with
  | nil => simpa [kept] using h
  | cons e l ih =>
    rw [List.foldl_cons]
    rcases hb : build e.2 with - | b
    · have hkept : kept build (e :: l) = kept build l := by
        rw [kept, List.filterMap_cons, hb]
        rfl
      rw [hkept]
      refine ih h (hnodup.sublist ?_)
      exact List.Sublist.append_left (List.sublist_cons_self _ _) _
    · have hkept : added ++ kept build (e :: l) = (added ++ [(e.1, b)]) ++ kept build l := by
        rw [kept, List.filterMap_cons, hb, List.append_assoc]
        rfl
      rw [hkept]
      refine ih (h.push fun hmem ↦ ?_) ?_
      · exact (List.nodup_append.mp hnodup).2.2 _ hmem _ List.mem_cons_self rfl
      · rw [List.map_append, List.append_assoc]
        exact hnodup

private theorem holds_importAll (build : α → Option β)
    (hnodup : (l.map Prod.fst).Nodup) : Holds (kept build l) (importAll build l) := by
  have hempty : Holds ([] : List (K × β)) (empty, ∅) :=
    ⟨fun i ↦ by simp [get_empty], rfl, fun k i ↦ by simp⟩
  exact holds_foldl build l hempty hnodup

/-- **The copied store** holds what could be built, in order. -/
theorem get_importAll {build : α → Option β} (hnodup : (l.map Prod.fst).Nodup)
    (i : ℕ) : (importAll build l).1.get i = (kept build l)[i]?.map Prod.snd :=
  (holds_importAll build hnodup).get_eq i

theorem number_importAll {build : α → Option β} (hnodup : (l.map Prod.fst).Nodup) {k : K} {i : ℕ} :
    (importAll build l).2[k]? = some i ↔ ∃ b, (kept build l)[i]? = some (k, b) :=
  (holds_importAll build hnodup).number_iff k i

end Copy

/-! ## Renamings -/

structure Renames (f : ℕ → ℕ) (R : α → β → Prop) (s : IdStore α) (s' : IdStore β) : Prop where
  bijOn : Set.BijOn f {id | s.Live id} {id | s'.Live id}
  related : ∀ id a, s.get id = some a → ∃ b, s'.get (f id) = some b ∧ R a b

theorem mem_map_fst_iter {id : ℕ} : id ∈ s.iter.map Prod.fst ↔ s.Live id := by
  rw [live_iff, List.mem_map]
  constructor
  · rintro ⟨⟨i, a⟩, hmem, rfl⟩
    exact ⟨a, mem_iter.mp hmem⟩
  · rintro ⟨a, ha⟩
    exact ⟨(id, a), mem_iter.mpr ha, rfl⟩

theorem perm_of_bijOn {s' : IdStore β} (h : Set.BijOn f {id | s.Live id} {id | s'.Live id}) :
    (s'.iter.map Prod.fst).Perm ((s.iter.map Prod.fst).map f) := by
  refine (List.perm_ext_iff_of_nodup s'.nodup_iter (s.nodup_iter.map_on ?_)).mpr fun i ↦ ?_
  · intro a ha b hb hab
    exact h.injOn (mem_map_fst_iter.mp ha) (mem_map_fst_iter.mp hb) hab
  · rw [mem_map_fst_iter, List.mem_map]
    constructor
    · intro hi
      obtain ⟨id, hid, rfl⟩ := h.surjOn hi
      exact ⟨id, mem_map_fst_iter.mpr hid, rfl⟩
    · rintro ⟨id, hid, rfl⟩
      exact h.mapsTo (mem_map_fst_iter.mp hid)

theorem Renames.sum_eq {s' : IdStore β}
    (h : Renames f R s s') {len : α → ℕ} {len' : β → ℕ} (hR : ∀ a b, R a b → len' b = len a) :
    (s'.iter.map fun e ↦ len' e.2).sum = (s.iter.map fun e ↦ len e.2).sum := by
  have hnumbers : (s'.iter.map fun e ↦ len' e.2) =
      (s'.iter.map Prod.fst).map fun id ↦ (s'.get id).elim 0 len' := by
    rw [List.map_map]
    refine List.map_congr_left fun ⟨id, b⟩ hmem ↦ ?_
    simp only [Function.comp_apply, mem_iter.mp hmem, Option.elim_some]
  have hrenamed : (s.iter.map fun e ↦ len e.2) =
      ((s.iter.map Prod.fst).map f).map fun id ↦ (s'.get id).elim 0 len' := by
    rw [List.map_map, List.map_map]
    refine List.map_congr_left fun ⟨id, a⟩ hmem ↦ ?_
    obtain ⟨b, hb, hab⟩ := h.related id a (mem_iter.mp hmem)
    simp only [Function.comp_apply, hb, Option.elim_some, hR a b hab]
  rw [hnumbers, hrenamed]
  exact ((perm_of_bijOn h.bijOn).map _).sum_nat

section CopyOf

variable {key : ℕ → K} {out : α → γ} {build : γ → Option β} {s : IdStore α}

def listing (key : ℕ → K) (out : α → γ) (s : IdStore α) : List (K × γ) :=
  s.iter.map fun e ↦ (key e.1, out e.2)

theorem nodup_listing (hkey : Function.Injective key) :
    ((listing key out s).map Prod.fst).Nodup := by
  have hmap : (listing key out s).map Prod.fst = (s.iter.map Prod.fst).map key := by
    rw [listing, List.map_map, List.map_map]
    rfl
  rw [hmap]
  exact s.nodup_iter.map hkey

theorem mem_kept_listing (hkey : Function.Injective key) {id : ℕ} {b : β} :
    (key id, b) ∈ kept build (listing key out s) ↔
      ∃ a, s.get id = some a ∧ build (out a) = some b := by
  rw [kept, List.mem_filterMap]
  constructor
  · rintro ⟨⟨k, c⟩, hmem, hb⟩
    obtain ⟨⟨id', a⟩, ha, heq⟩ := List.mem_map.mp hmem
    obtain ⟨b', hb', heq'⟩ := Option.map_eq_some_iff.mp hb
    cases heq
    obtain ⟨hid, rfl⟩ := Prod.mk.inj heq'
    obtain rfl := hkey hid
    exact ⟨a, mem_iter.mp ha, hb'⟩
  · rintro ⟨a, ha, hb⟩
    exact ⟨(key id, out a), List.mem_map.mpr ⟨(id, a), mem_iter.mpr ha, rfl⟩,
      Option.map_eq_some_iff.mpr ⟨b, hb, rfl⟩⟩

variable [Ord K] [Std.TransOrd K]

def numberIn (numbers : OrderedMap K ℕ) (key : ℕ → K) (id : ℕ) : ℕ := numbers[key id]?.getD 0

theorem importAll_mapM {extract : α → Option γ} {l : List (K × γ)}
    (h : (s.iter.mapM fun e ↦ (extract e.2).map (key e.1, ·)) = some l) :
    importAll build l = importAll (·.bind build) (listing key extract s) := by
  rw [listing, importAll, importAll]
  generalize ((empty, ∅) : IdStore β × OrderedMap K ℕ) = acc
  generalize s.iter = es at h ⊢
  induction es generalizing l acc with
  | nil =>
    cases h
    rfl
  | cons e es ih =>
    rw [List.mapM_cons] at h
    obtain ⟨e', he', h⟩ := Option.bind_eq_some_iff.mp h
    obtain ⟨l', hl', h⟩ := Option.bind_eq_some_iff.mp h
    obtain ⟨c, hc, rfl⟩ := Option.map_eq_some_iff.mp he'
    cases h
    rw [List.foldl_cons, List.map_cons, List.foldl_cons, ih _ hl']
    simp only [hc, Option.bind_some]

variable [Std.LawfulEqOrd K] [DecidableEq K]

section

variable (hkey : Function.Injective key)

include hkey

theorem exists_number_iff {id : ℕ} :
    (∃ i, (importAll build (listing key out s)).2[key id]? = some i) ↔
      ∃ a b, s.get id = some a ∧ build (out a) = some b := by
  simp only [number_importAll (nodup_listing hkey)]
  constructor
  · rintro ⟨i, b, hi⟩
    obtain ⟨a, ha, hb⟩ := (mem_kept_listing hkey).mp (List.mem_of_getElem? hi)
    exact ⟨a, b, ha, hb⟩
  · rintro ⟨a, b, ha, hb⟩
    obtain ⟨i, hi⟩ := List.mem_iff_getElem?.mp ((mem_kept_listing hkey).mpr ⟨a, ha, hb⟩)
    exact ⟨i, b, hi⟩

theorem get_numberIn {id : ℕ} {a : α} {b : β}
    (ha : s.get id = some a) (hb : build (out a) = some b) :
    (importAll build (listing key out s)).1.get
      (numberIn (importAll build (listing key out s)).2 key id) = some b := by
  obtain ⟨i, hi⟩ := List.mem_iff_getElem?.mp ((mem_kept_listing hkey).mpr ⟨a, ha, hb⟩)
  have hnumber := (number_importAll (nodup_listing hkey)).mpr ⟨b, hi⟩
  rw [numberIn, hnumber, Option.getD_some, get_importAll (nodup_listing hkey), hi]
  rfl

theorem exists_of_get_copy {i : ℕ} {b : β}
    (h : (importAll build (listing key out s)).1.get i = some b) :
    ∃ id a, s.get id = some a ∧ build (out a) = some b := by
  rw [get_importAll (nodup_listing hkey)] at h
  obtain ⟨⟨k, b'⟩, hkept, rfl⟩ := Option.map_eq_some_iff.mp h
  obtain ⟨⟨k', c⟩, hmem, hbuilt⟩ := List.mem_filterMap.mp (List.mem_of_getElem? hkept)
  obtain ⟨⟨id, a⟩, ha, heq⟩ := List.mem_map.mp hmem
  obtain ⟨b'', hb'', heq'⟩ := Option.map_eq_some_iff.mp hbuilt
  cases heq
  cases heq'
  exact ⟨id, a, mem_iter.mp ha, hb''⟩

theorem renames_copy (hbuild : ∀ id a, s.get id = some a → ∃ b, build (out a) = some b ∧ R a b) :
    Renames (numberIn (importAll build (listing key out s)).2 key) R s
      (importAll build (listing key out s)).1 where
  bijOn := by
    refine ⟨fun id hid ↦ ?_, fun id hid id' hid' heq ↦ ?_, fun i hi ↦ ?_⟩
    · obtain ⟨a, ha⟩ := live_iff.mp hid
      obtain ⟨b, hb, -⟩ := hbuild id a ha
      exact live_iff.mpr ⟨b, get_numberIn hkey ha hb⟩
    · obtain ⟨a, ha⟩ := live_iff.mp hid
      obtain ⟨b, hb, -⟩ := hbuild id a ha
      obtain ⟨a', ha'⟩ := live_iff.mp hid'
      obtain ⟨b', hb', -⟩ := hbuild id' a' ha'
      have hnumber : ∀ {id}, (∃ a b, s.get id = some a ∧ build (out a) = some b) →
          ∃ i, (importAll build (listing key out s)).2[key id]? = some i :=
        (exists_number_iff hkey).mpr
      obtain ⟨i, hi⟩ := hnumber ⟨a, b, ha, hb⟩
      obtain ⟨j, hj⟩ := hnumber ⟨a', b', ha', hb'⟩
      rw [numberIn, numberIn, hi, hj, Option.getD_some, Option.getD_some] at heq
      obtain ⟨c, hc⟩ := (number_importAll (nodup_listing hkey)).mp hi
      obtain ⟨c', hc'⟩ := (number_importAll (nodup_listing hkey)).mp hj
      rw [heq, hc'] at hc
      exact hkey (Prod.mk.inj (Option.some_inj.mp hc)).1.symm
    · obtain ⟨b, hb⟩ := live_iff.mp hi
      rw [get_importAll (nodup_listing hkey)] at hb
      obtain ⟨⟨k, b'⟩, hkept, -⟩ := Option.map_eq_some_iff.mp hb
      obtain ⟨⟨k', c⟩, hmem, hbuilt⟩ := List.mem_filterMap.mp (List.mem_of_getElem? hkept)
      obtain ⟨⟨id, a⟩, ha, heq⟩ := List.mem_map.mp hmem
      obtain ⟨b'', -, heq'⟩ := Option.map_eq_some_iff.mp hbuilt
      cases heq
      cases heq'
      refine ⟨id, live_iff.mpr ⟨a, mem_iter.mp ha⟩, ?_⟩
      rw [numberIn, (number_importAll (nodup_listing hkey)).mpr ⟨_, hkept⟩, Option.getD_some]
  related id a ha := by
    obtain ⟨b, hb, hab⟩ := hbuild id a ha
    exact ⟨b, get_numberIn hkey ha hb, hab⟩

end

/-! ## What a renaming says about a copy -/

private theorem perm_iter_importAll {l : List (K × γ)} (hnodup : (l.map Prod.fst).Nodup) :
    (importAll build l).1.iter.Perm ((kept build l).zipIdx.map fun e ↦ (e.2, e.1.2)) := by
  have hfst : (((kept build l).zipIdx.map fun e ↦ (e.2, e.1.2)).map Prod.fst).Nodup := by
    have hmap : (((kept build l).zipIdx.map fun e ↦ (e.2, e.1.2)).map Prod.fst) =
        (kept build l).zipIdx.map Prod.snd := by
      rw [List.map_map]
      rfl
    rw [hmap, List.zipIdx_map_snd]
    exact List.nodup_range'
  refine (List.perm_ext_iff_of_nodup (nodup_iter _).of_map hfst.of_map).mpr fun ⟨i, b⟩ ↦ ?_
  rw [mem_iter, get_importAll hnodup, Option.map_eq_some_iff, List.mem_map]
  constructor
  · rintro ⟨e, he, rfl⟩
    exact ⟨(e, i), List.mk_mem_zipIdx_iff_getElem?.mpr he, rfl⟩
  · rintro ⟨⟨e, j⟩, he, heq⟩
    cases heq
    exact ⟨e, List.mk_mem_zipIdx_iff_getElem?.mp he, rfl⟩

theorem built_of_bijOn (hkey : Function.Injective key) (h : Set.BijOn f {id | s.Live id}
      {id | (importAll build (listing key out s)).1.Live id}) {id : ℕ} {a : α}
    (ha : s.get id = some a) : ∃ b, build (out a) = some b := by
  have hlen := (perm_of_bijOn h).length_eq
  rw [List.length_map, List.length_map, List.length_map,
    (perm_iter_importAll (nodup_listing hkey)).length_eq, List.length_map, List.length_zipIdx, kept,
    List.length_filterMap_eq_countP, ← List.length_map (fun e ↦ (key e.1, out e.2)),
    ← listing, List.countP_eq_length] at hlen
  have hsome := hlen (key id, out a) (List.mem_map.mpr ⟨(id, a), mem_iter.mpr ha, rfl⟩)
  rw [Option.isSome_map] at hsome
  exact Option.isSome_iff_exists.mp hsome

private theorem sum_filterMap_le (g : α → Option β) (len : α → ℕ) {len' : β → ℕ} {l : List α}
    (hle : ∀ a ∈ l, ∀ b, g a = some b → len' b ≤ len a) :
    ((l.filterMap g).map len').sum ≤ (l.map len).sum ∧
      (((l.filterMap g).map len').sum = (l.map len).sum →
        ∀ a ∈ l, ∀ b, g a = some b → len' b = len a) := by
  induction l with
  | nil => exact ⟨Nat.le_refl _, fun _ a ha ↦ absurd ha List.not_mem_nil⟩
  | cons c l ih =>
    obtain ⟨hsum, heq⟩ := ih fun a ha ↦ hle a (List.mem_cons_of_mem _ ha)
    rcases hc : g c with - | b
    · rw [List.filterMap_cons_none hc, List.map_cons, List.sum_cons]
      refine ⟨hsum.trans (Nat.le_add_left _ _), fun h a ha b hb ↦ ?_⟩
      rcases List.mem_cons.mp ha with rfl | ha
      · rw [hc] at hb
        cases hb
      · exact heq (by omega) a ha b hb
    · have hb := hle c List.mem_cons_self b hc
      rw [List.filterMap_cons_some hc, List.map_cons, List.map_cons, List.sum_cons, List.sum_cons]
      refine ⟨Nat.add_le_add hb hsum, fun h a ha b' hb' ↦ ?_⟩
      rcases List.mem_cons.mp ha with rfl | ha
      · rw [hc] at hb'
        cases hb'
        omega
      · exact heq (by omega) a ha b' hb'

/-- **A length copying never increases and a renaming preserves** is preserved entry by entry. -/
theorem Renames.length_eq (hkey : Function.Injective key)
    (h : Renames f R s (importAll build (listing key out s)).1) (len : α → ℕ) (len' : β → ℕ)
    (hR : ∀ a b, R a b → len' b = len a)
    (hle : ∀ id a b, s.get id = some a → build (out a) = some b → len' b ≤ len a) {id : ℕ} {a : α}
    {b : β} (ha : s.get id = some a) (hb : build (out a) = some b) : len' b = len a := by
  have hsum := h.sum_eq hR
  have hkept : ((importAll build (listing key out s)).1.iter.map fun e ↦ len' e.2).sum =
      ((s.iter.filterMap fun e ↦ build (out e.2)).map len').sum := by
    have hvalues : ((kept build (listing key out s)).zipIdx.map fun e ↦ (e.2, e.1.2)).map
        (fun e ↦ len' e.2) = (kept build (listing key out s)).map fun e ↦ len' e.2 := by
      conv_rhs => rw [← List.zipIdx_map_fst 0 (kept build (listing key out s))]
      rw [List.map_map, List.map_map]
      rfl
    have hbuilt : ((kept build (listing key out s)).map fun e ↦ len' e.2) =
        (s.iter.filterMap fun e ↦ build (out e.2)).map len' := by
      rw [kept, listing, List.filterMap_map, List.map_filterMap, List.map_filterMap]
      refine List.filterMap_congr fun e _ ↦ ?_
      rw [Function.comp_apply, Option.map_map]
      rfl
    rw [← hbuilt, ← hvalues]
    exact ((perm_iter_importAll (nodup_listing hkey)).map _).sum_nat
  rw [hkept] at hsum
  exact (sum_filterMap_le (fun e : ℕ × α ↦ build (out e.2)) (fun e : ℕ × α ↦ len e.2)
    fun e he b hb ↦ hle e.1 e.2 b (mem_iter.mp he) hb).2 hsum (id, a) (mem_iter.mpr ha) b hb

end CopyOf

end IdStore
