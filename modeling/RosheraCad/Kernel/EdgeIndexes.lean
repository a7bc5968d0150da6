import RosheraCad.Brep.Snapshot
import RosheraCad.Library.Postings
import RosheraCad.Library.Run

/-!
# The indexes of the edge store

An edge's id is the number of its slot, and a removed edge leaves a tombstone. Beside the slots the
store keeps the edges of each vertex and of each curve, and for each pair of vertices the edge added
last between them.

The invalid vertex has edges only by a misuse, and so has no list as a rule; it is then looked for
in the slots, where every tombstone names it.
-/

namespace RosheraCad

namespace EdgeStore

def invalidEdgeId : ℕ := 2 ^ 32 - 1

def invalidVertexId : ℕ := 2 ^ 32 - 1

structure Slot where
  id : ℕ
  edge : Edge
  deriving DecidableEq

def tombstone : Slot := ⟨invalidEdgeId, invalidVertexId, invalidVertexId, 0, .forward, (0, 0)⟩

structure VertexPair where
  low : ℕ
  high : ℕ
  deriving DecidableEq

namespace VertexPair

def vertices (pair : VertexPair) : List ℕ := [pair.low, pair.high]

theorem vertices_injective : Function.Injective vertices := by
  rintro ⟨low, high⟩ ⟨low', high'⟩ h
  obtain ⟨rfl, rfl⟩ : low = low' ∧ high = high' := by simpa [vertices] using h
  rfl

instance : Ord VertexPair := ⟨compareOn vertices⟩

instance : Std.TransOrd VertexPair := inferInstanceAs (Std.TransCmp (compareOn vertices))

instance : Std.LawfulEqOrd VertexPair where
  eq_of_compare h := vertices_injective (Std.LawfulEqOrd.eq_of_compare h)

end VertexPair

def cacheKey (v₁ v₂ : ℕ) : VertexPair := if v₁ < v₂ then ⟨v₁, v₂⟩ else ⟨v₂, v₁⟩

def edgeKey (edge : Edge) : VertexPair := cacheKey edge.startVertex edge.endVertex

structure EdgeStoreStats where
  totalCreated : ℕ
  totalDeleted : ℕ
  deriving DecidableEq

end EdgeStore

open EdgeStore

structure EdgeStore where
  edges : List Slot
  vertexToEdges : OrderedMap ℕ (List ℕ)
  curveToEdges : OrderedMap ℕ (List ℕ)
  edgeCache : OrderedMap VertexPair ℕ
  nextId : ℕ
  stats : EdgeStoreStats

namespace EdgeStore

def new : EdgeStore := ⟨[], ∅, ∅, ∅, 0, ⟨0, 0⟩⟩

variable (s : EdgeStore)

def addWithIndexing (edge : Edge) : ℕ × EdgeStore :=
  let id := s.nextId
  (id,
    { edges := s.edges ++ [⟨id, edge⟩]
      vertexToEdges := s.vertexToEdges.push [(edge.startVertex, id), (edge.endVertex, id)]
      curveToEdges := s.curveToEdges.push [(edge.curveId, id)]
      edgeCache := s.edgeCache.insert (edgeKey edge) id
      nextId := (s.nextId + 1) % 2 ^ 32
      stats := { s.stats with totalCreated := s.stats.totalCreated + 1 } })

def isLive (id : ℕ) : Bool :=
  match s.edges[id]? with
  | some slot => slot.id != invalidEdgeId
  | none => false

def get (id : ℕ) : Option Edge := if s.isLive id then s.edges[id]?.map Slot.edge else none

/-- Remove the edge of a slot, whatever the slot holds. -/
def remove (id : ℕ) : Option Slot × EdgeStore :=
  match s.edges[id]? with
  | some slot =>
    (some slot,
      { s with
        edges := s.edges.set id tombstone
        vertexToEdges :=
          (s.vertexToEdges.retainNe slot.edge.startVertex id).retainNe slot.edge.endVertex id
        curveToEdges := s.curveToEdges.retainNe slot.edge.curveId id
        edgeCache := s.edgeCache.erase (edgeKey slot.edge)
        stats := { s.stats with totalDeleted := s.stats.totalDeleted + 1 } })
  | none => (none, s)

/-- The edges of a vertex: its list, or when it has none the slots that name it. -/
def edgesAtVertex (vertex : ℕ) : List ℕ :=
  match s.vertexToEdges[vertex]? with
  | some cached => cached
  | none => (s.edges.zipIdx.filter fun e ↦
      e.1.edge.startVertex == vertex || e.1.edge.endVertex == vertex).map Prod.snd

def findEdgeBetween (v₁ v₂ : ℕ) : Option ℕ := s.edgeCache[cacheKey v₁ v₂]?

def addOrFindWithDedup (edge : Edge) : ℕ × EdgeStore :=
  match s.findEdgeBetween edge.startVertex edge.endVertex with
  | some existing => (existing, s)
  | none => s.addWithIndexing edge

def edgesOnCurve (curve : ℕ) : List ℕ := s.curveToEdges[curve]?.getD []

def len : ℕ := s.edges.countP fun slot ↦ slot.id != invalidEdgeId

/-- The operations. -/
inductive Op
  | addWithIndexing (edge : Edge)
  | addOrFindWithDedup (edge : Edge)
  | remove (id : ℕ)
  deriving DecidableEq

def step (s : EdgeStore) : Op → EdgeStore
  | .addWithIndexing edge => (s.addWithIndexing edge).2
  | .addOrFindWithDedup edge => (s.addOrFindWithDedup edge).2
  | .remove id => (s.remove id).2

/-- The store as a system: every operation may be called at any time. -/
def system : GuardedSystem EdgeStore Op := ⟨new, fun _ _ ↦ True, step⟩

variable {s : EdgeStore} {edge : Edge} {id v : ℕ}

/-! ## What a query should answer -/

variable (s) in
/-- The edge of an id joins two vertices. -/
def Joins (id v₁ v₂ : ℕ) : Prop := ∃ edge, s.get id = some edge ∧
  (edge.startVertex = v₁ ∧ edge.endVertex = v₂ ∨ edge.startVertex = v₂ ∧ edge.endVertex = v₁)

variable (s) in
/-- The edges at a vertex are the edges that have it as an end, each once. -/
def ExactAt (v : ℕ) : Prop := (s.edgesAtVertex v).Nodup ∧
  ∀ id, id ∈ s.edgesAtVertex v ↔
    ∃ edge, s.get id = some edge ∧ (edge.startVertex = v ∨ edge.endVertex = v)

variable (s) in
/-- A vertex has a list, or is no tombstone's. -/
def Known (v : ℕ) : Prop :=
  v ≠ invalidVertexId ∨ v ∈ s.vertexToEdges ∨ s.stats.totalDeleted = 0

variable (s) in
/-- The queries answer exactly. -/
structure Exact : Prop where
  atVertex : ∀ v, s.Known v → s.ExactAt v
  onCurve : ∀ curve, (s.edgesOnCurve curve).Nodup ∧
    ∀ id, id ∈ s.edgesOnCurve curve ↔ ∃ edge, s.get id = some edge ∧ edge.curveId = curve
  found : ∀ v₁ v₂ id, s.findEdgeBetween v₁ v₂ = some id → s.Joins id v₁ v₂
  finds : ∀ v₁ v₂ id, s.Joins id v₁ v₂ → (s.findEdgeBetween v₁ v₂).isSome
  counts : s.stats.totalCreated = s.stats.totalDeleted + s.len

variable (s) in
def CleanAdd (edge : Edge) : Prop :=
  edge.startVertex ≠ edge.endVertex ∧ s.nextId ≠ invalidEdgeId

def Clean (s : EdgeStore) : Op → Prop
  | .addWithIndexing edge => s.CleanAdd edge
  | .addOrFindWithDedup edge =>
    (∃ id, s.Joins id edge.startVertex edge.endVertex) ∨ s.CleanAdd edge
  | .remove id => s.edges.length ≤ id ∨ ∃ edge, s.get id = some edge ∧
      ∀ other, s.Joins other edge.startVertex edge.endVertex → other = id

/-! ## Slots -/

theorem get_eq_some_iff : s.get id = some edge ↔
    ∃ slot, s.edges[id]? = some slot ∧ slot.id ≠ invalidEdgeId ∧ slot.edge = edge := by
  rw [get, isLive]
  rcases s.edges[id]? with - | slot
  · simp
  · by_cases hlive : slot.id = invalidEdgeId
    · simp [hlive]
    · simp [hlive]

theorem lt_length_of_get (h : s.get id = some edge) : id < s.edges.length := by
  obtain ⟨slot, hslot, -⟩ := get_eq_some_iff.mp h
  exact (List.getElem?_eq_some_iff.mp hslot).1

theorem get_addWithIndexing (edge : Edge) (id : ℕ) : (s.addWithIndexing edge).2.get id =
    if id = s.edges.length then (if s.nextId = invalidEdgeId then none else some edge)
    else s.get id := by
  refine Option.ext fun e ↦ ?_
  rw [get_eq_some_iff, addWithIndexing, List.getElem?_append]
  rcases Nat.lt_trichotomy id s.edges.length with hlt | rfl | hgt
  · rw [if_pos hlt, if_neg hlt.ne, get_eq_some_iff]
  · by_cases hid : s.nextId = invalidEdgeId
    · simp [hid]
    · simp [hid]
  · have hnone : [(⟨s.nextId, edge⟩ : Slot)][id - s.edges.length]? = none := by
      rw [List.getElem?_eq_none]
      simp
      omega
    have hget : ¬ s.get id = some e := fun h ↦ absurd (lt_length_of_get h) hgt.not_gt
    rw [if_neg hgt.not_gt, if_neg hgt.ne', hnone]
    simp [hget]

theorem remove_of_slot {slot : Slot} (h : s.edges[id]? = some slot) : (s.remove id).2 =
    { s with
      edges := s.edges.set id tombstone
      vertexToEdges :=
        (s.vertexToEdges.retainNe slot.edge.startVertex id).retainNe slot.edge.endVertex id
      curveToEdges := s.curveToEdges.retainNe slot.edge.curveId id
      edgeCache := s.edgeCache.erase (edgeKey slot.edge)
      stats := { s.stats with totalDeleted := s.stats.totalDeleted + 1 } } := by
  rw [remove, h]

theorem remove_of_length_le (h : s.edges.length ≤ id) : (s.remove id).2 = s := by
  rw [remove, List.getElem?_eq_none h]

theorem get_remove (id i : ℕ) : (s.remove id).2.get i = if i = id then none else s.get i := by
  rcases hslot : s.edges[id]? with - | slot
  · have hlen := List.getElem?_eq_none_iff.mp hslot
    rw [remove_of_length_le hlen]
    split
    · rcases hget : s.get i with - | e
      · rfl
      · have := lt_length_of_get hget
        omega
    · rfl
  · refine Option.ext fun e ↦ ?_
    rw [get_eq_some_iff, remove_of_slot hslot, List.getElem?_set]
    by_cases hi : i = id
    · subst hi
      simp [tombstone]
    · rw [if_neg (Ne.symm hi), if_neg hi, get_eq_some_iff]

theorem cacheKey_eq_iff {a b v₁ v₂ : ℕ} :
    cacheKey a b = cacheKey v₁ v₂ ↔ a = v₁ ∧ b = v₂ ∨ a = v₂ ∧ b = v₁ := by
  rw [cacheKey, cacheKey]
  split <;> split <;> simp only [VertexPair.mk.injEq] <;> omega

theorem joins_iff {v₁ v₂ : ℕ} :
    s.Joins id v₁ v₂ ↔ ∃ edge, s.get id = some edge ∧ edgeKey edge = cacheKey v₁ v₂ := by
  simp only [Joins, edgeKey, cacheKey_eq_iff]

/-! ## The invariant -/

variable (s) in
structure Inv : Prop where
  slots : ∀ i slot, s.edges[i]? = some slot → slot.id = i ∨ slot = tombstone
  nextId : s.nextId = s.edges.length
  length_le : s.edges.length ≤ invalidEdgeId
  atVertex : s.vertexToEdges.Indexes fun v id ↦
    ∃ edge, s.get id = some edge ∧ (edge.startVertex = v ∨ edge.endVertex = v)
  onCurve : s.curveToEdges.Indexes fun curve id ↦
    ∃ edge, s.get id = some edge ∧ edge.curveId = curve
  cached : ∀ (key : VertexPair) (id : ℕ), s.edgeCache[key]? = some id →
    ∃ edge, s.get id = some edge ∧ edgeKey edge = key
  caches : ∀ id edge, s.get id = some edge → edgeKey edge ∈ s.edgeCache
  created : s.stats.totalCreated = s.edges.length
  deleted : s.edges.length = s.stats.totalDeleted + s.len

theorem inv_new : Inv new where
  slots i slot h := by simp [new] at h
  nextId := rfl
  length_le := Nat.zero_le _
  atVertex := OrderedMap.Indexes.empty.congr fun _ _ ↦ by simp [get, isLive, new]
  onCurve := OrderedMap.Indexes.empty.congr fun _ _ ↦ by simp [get, isLive, new]
  cached key id h := by simp [new] at h
  caches id edge h := by simp [get, isLive, new] at h
  created := rfl
  deleted := rfl

theorem get_length : s.get s.edges.length = none := by
  rcases hget : s.get s.edges.length with - | e
  · rfl
  · exact absurd (lt_length_of_get hget) (Nat.lt_irrefl _)

theorem get_add_of_id (hid : s.nextId ≠ invalidEdgeId) (edge : Edge) (id : ℕ) :
    (s.addWithIndexing edge).2.get id = if id = s.edges.length then some edge else s.get id := by
  rw [get_addWithIndexing, if_neg hid]

theorem Inv.rel_add (h : s.Inv) (hid : s.nextId ≠ invalidEdgeId) {K : Type} (ends : Edge → List K)
    (k : K) (id : ℕ) :
    (∃ e, (s.addWithIndexing edge).2.get id = some e ∧ k ∈ ends e) ↔
      (∃ e, s.get id = some e ∧ k ∈ ends e) ∨ (k, id) ∈ (ends edge).map (·, s.nextId) := by
  simp only [get_add_of_id hid, h.nextId, List.mem_map, Prod.mk.injEq]
  by_cases heq : id = s.edges.length
  · subst heq
    simp [get_length]
  · have hne : s.edges.length ≠ id := Ne.symm heq
    simp [heq, hne]

theorem Inv.indexes_add (h : s.Inv) (hid : s.nextId ≠ invalidEdgeId)
    {m : OrderedMap ℕ (List ℕ)} (ends : Edge → List ℕ)
    (hm : m.Indexes fun k id ↦ ∃ e, s.get id = some e ∧ k ∈ ends e) (hends : (ends edge).Nodup) :
    (m.push ((ends edge).map (·, s.nextId))).Indexes
      fun k id ↦ ∃ e, (s.addWithIndexing edge).2.get id = some e ∧ k ∈ ends e := by
  refine (hm.push (hends.map (Prod.mk_left_injective _)) ?_).congr fun k id ↦
    h.rel_add hid ends k id
  rintro ⟨k, id⟩ hmem ⟨e, he, -⟩
  obtain ⟨a, -, heq⟩ := List.mem_map.mp hmem
  obtain ⟨-, rfl⟩ := Prod.mk.inj heq
  rw [h.nextId, get_length] at he
  cases he

theorem len_add (edge : Edge) (hid : s.nextId ≠ invalidEdgeId) :
    (s.addWithIndexing edge).2.len = s.len + 1 := by
  simp [len, addWithIndexing, hid]

theorem len_remove {slot : Slot} (hslot : s.edges[id]? = some slot) :
    (s.remove id).2.len + (if slot.id = invalidEdgeId then 0 else 1) = s.len := by
  obtain ⟨hlt, rfl⟩ := List.getElem?_eq_some_iff.mp hslot
  have hpos : (s.edges[id].id != invalidEdgeId) = true →
      0 < s.edges.countP fun slot ↦ slot.id != invalidEdgeId :=
    fun h ↦ List.countP_pos_iff.mpr ⟨_, List.getElem_mem hlt, h⟩
  rw [remove_of_slot hslot, len, len, List.countP_set hlt]
  by_cases hlive : s.edges[id].id = invalidEdgeId
  · simp [hlive, tombstone]
  · have := hpos (by simpa using hlive)
    simp [hlive, tombstone]
    omega

/-- **Adding a clean edge keeps the invariant.** -/
theorem Inv.add (h : s.Inv) (hclean : s.CleanAdd edge) : (s.addWithIndexing edge).2.Inv where
  slots i slot hslot := by
    simp only [addWithIndexing, List.getElem?_append] at hslot
    split at hslot
    case isTrue => exact h.slots i slot hslot
    case isFalse hi =>
      obtain ⟨hlt, rfl⟩ := List.getElem?_eq_some_iff.mp hslot
      simp only [List.length_singleton] at hlt
      have heq : i = s.edges.length := by omega
      exact Or.inl (by simp [h.nextId, heq])
  nextId := by
    have hlt : s.edges.length < invalidEdgeId :=
      Nat.lt_of_le_of_ne h.length_le (h.nextId ▸ hclean.2)
    rw [invalidEdgeId] at hlt
    simp only [addWithIndexing, List.length_append, List.length_singleton, h.nextId]
    exact Nat.mod_eq_of_lt (by omega)
  length_le := by
    have hlt : s.edges.length < invalidEdgeId :=
      Nat.lt_of_le_of_ne h.length_le (h.nextId ▸ hclean.2)
    simpa [addWithIndexing] using hlt
  atVertex := by
    have hends : [edge.startVertex, edge.endVertex].Nodup := by simpa using hclean.1
    have hm := h.indexes_add hclean.2 (fun e ↦ [e.startVertex, e.endVertex])
      (h.atVertex.congr fun v id ↦ by simp [eq_comm]) hends
    exact hm.congr fun v id ↦ by simp [eq_comm]
  onCurve := by
    have hm := h.indexes_add hclean.2 (fun e ↦ [e.curveId])
      (h.onCurve.congr fun v id ↦ by simp [eq_comm]) (List.nodup_singleton edge.curveId)
    exact hm.congr fun v id ↦ by simp [eq_comm]
  cached key id hkey := by
    rw [addWithIndexing, OrderedMap.lookup_insert] at hkey
    rw [get_add_of_id hclean.2]
    split at hkey
    case isTrue hk =>
      obtain rfl := Option.some_inj.mp hkey
      exact ⟨edge, by rw [if_pos h.nextId], hk.symm⟩
    case isFalse =>
      obtain ⟨e, he, hk⟩ := h.cached key id hkey
      exact ⟨e, by rw [if_neg (lt_length_of_get he).ne, he], hk⟩
  caches id e he := by
    rw [get_add_of_id hclean.2] at he
    rw [addWithIndexing, OrderedMap.mem_iff_exists]
    by_cases hk : edgeKey e = edgeKey edge
    · exact ⟨s.nextId, by rw [OrderedMap.lookup_insert, if_pos hk]⟩
    · split at he
      case isTrue => exact absurd (congrArg edgeKey (Option.some_inj.mp he)).symm hk
      case isFalse =>
        obtain ⟨i, hi⟩ := OrderedMap.mem_iff_exists.mp (h.caches id e he)
        exact ⟨i, by rw [OrderedMap.lookup_insert, if_neg hk, hi]⟩
  created := by simp [addWithIndexing, h.created]
  deleted := by
    have hdeleted := h.deleted
    rw [len_add edge hclean.2]
    simp only [addWithIndexing, List.length_append, List.length_singleton]
    omega

/-- **Removing the only edge between its ends keeps the invariant.** -/
theorem Inv.remove (h : s.Inv) (hget : s.get id = some edge)
    (honly : ∀ other, s.Joins other edge.startVertex edge.endVertex → other = id) :
    (s.remove id).2.Inv := by
  obtain ⟨slot, hslot, hlive, rfl⟩ := get_eq_some_iff.mp hget
  have hlen := len_remove hslot
  rw [if_neg hlive] at hlen
  have heq := remove_of_slot hslot
  -- An edge of another id is as it was, in every index.
  have hrest : ∀ (P : Edge → Prop) (i : ℕ), (∃ e, (s.remove id).2.get i = some e ∧ P e) ↔
      (∃ e, s.get i = some e ∧ P e) ∧ i ≠ id := by
    intro P i
    rw [get_remove]
    by_cases hi : i = id
    · simp [hi]
    · simp [hi]
  have hown : ∀ {P : Edge → Prop}, (∃ e, s.get id = some e ∧ P e) → P slot.edge := by
    rintro P ⟨e, he, hP⟩
    rw [hget] at he
    exact Option.some_inj.mp he ▸ hP
  constructor
  · intro i other hother
    rw [heq, List.getElem?_set] at hother
    split at hother
    · split at hother
      · exact Or.inr (Option.some_inj.mp hother).symm
      · cases hother
    · exact h.slots i other hother
  · rw [heq]
    simpa using h.nextId
  · rw [heq]
    simpa using h.length_le
  · rw [heq]
    refine ((h.atVertex.retainNe _ _).retainNe _ _).congr fun v i ↦ ?_
    rw [← heq, hrest fun e ↦ e.startVertex = v ∨ e.endVertex = v]
    constructor
    · exact fun hi ↦ ⟨⟨hi.1, fun hboth ↦ hi.2 hboth.2⟩, fun hboth ↦ hi.2 hboth.2⟩
    · rintro ⟨⟨hi, hstart⟩, hend⟩
      refine ⟨hi, ?_⟩
      rintro rfl
      rcases hown hi with hv | hv
      · exact hstart ⟨hv.symm, rfl⟩
      · exact hend ⟨hv.symm, rfl⟩
  · rw [heq]
    refine (h.onCurve.retainNe _ _).congr fun curve i ↦ ?_
    rw [← heq, hrest fun e ↦ e.curveId = curve]
    constructor
    · exact fun hi ↦ ⟨hi.1, fun hboth ↦ hi.2 hboth.2⟩
    · rintro ⟨hi, hcurve⟩
      refine ⟨hi, ?_⟩
      rintro rfl
      exact hcurve ⟨(hown hi).symm, rfl⟩
  · intro key i hkey
    rw [heq, OrderedMap.lookup_erase] at hkey
    split at hkey
    case isTrue => cases hkey
    case isFalse hne =>
      rw [hrest fun e ↦ edgeKey e = key]
      refine ⟨h.cached key i hkey, ?_⟩
      rintro rfl
      exact hne (hown (h.cached key i hkey)).symm
  · intro i e he
    rw [get_remove] at he
    split at he
    case isTrue => cases he
    case isFalse hi =>
      -- The entry that goes is that of the removed edge, which no other edge shares.
      have hne : edgeKey e ≠ edgeKey slot.edge :=
        fun hk ↦ hi (honly i (joins_iff.mpr ⟨e, he, hk⟩))
      obtain ⟨j, hj⟩ := OrderedMap.mem_iff_exists.mp (h.caches i e he)
      rw [heq, OrderedMap.mem_iff_exists]
      exact ⟨j, by rw [OrderedMap.lookup_erase, if_neg hne, hj]⟩
  · rw [heq]
    simpa using h.created
  · have hdeleted := h.deleted
    have hlength : (s.remove id).2.edges.length = s.edges.length := by
      rw [heq, List.length_set]
    have htotal : (s.remove id).2.stats.totalDeleted = s.stats.totalDeleted + 1 := by rw [heq]
    omega

theorem addOrFindWithDedup_cases (edge : Edge) :
    (∃ id, s.findEdgeBetween edge.startVertex edge.endVertex = some id ∧
        s.step (.addOrFindWithDedup edge) = s) ∨
      s.findEdgeBetween edge.startVertex edge.endVertex = none ∧
        s.step (.addOrFindWithDedup edge) = (s.addWithIndexing edge).2 := by
  rw [step, addOrFindWithDedup]
  rcases s.findEdgeBetween edge.startVertex edge.endVertex with - | id
  · exact Or.inr ⟨rfl, rfl⟩
  · exact Or.inl ⟨id, rfl, rfl⟩

theorem Inv.found (h : s.Inv) {v₁ v₂ : ℕ} (hfind : s.findEdgeBetween v₁ v₂ = some id) :
    s.Joins id v₁ v₂ := joins_iff.mpr (h.cached _ _ hfind)

theorem Inv.finds (h : s.Inv) {v₁ v₂ : ℕ} (hjoins : s.Joins id v₁ v₂) :
    (s.findEdgeBetween v₁ v₂).isSome := by
  obtain ⟨e, he, hk⟩ := joins_iff.mp hjoins
  obtain ⟨i, hi⟩ := OrderedMap.mem_iff_exists.mp (h.caches id e he)
  rw [findEdgeBetween, ← hk, hi]
  rfl

/-- **A clean operation keeps the invariant.** -/
theorem Inv.step (h : s.Inv) {op : Op} (hclean : s.Clean op) : (s.step op).Inv := by
  rcases op with edge | edge | id
  · exact h.add hclean
  · rcases addOrFindWithDedup_cases (s := s) edge with ⟨id, -, hstep⟩ | ⟨hnone, hstep⟩
    · rwa [hstep]
    · rw [hstep]
      refine h.add (hclean.resolve_left ?_)
      rintro ⟨id, hjoins⟩
      have hsome := h.finds hjoins
      rw [hnone] at hsome
      cases hsome
  · rcases hclean with hlen | ⟨edge, hget, honly⟩
    · rwa [EdgeStore.step, remove_of_length_le hlen]
    · exact h.remove hget honly

/-! ## What the invariant gives -/

theorem edgesAtVertex_of_mem (h : v ∈ s.vertexToEdges) :
    s.edgesAtVertex v = s.vertexToEdges[v]?.getD [] := by
  obtain ⟨ids, hids⟩ := OrderedMap.mem_iff_exists.mp h
  rw [edgesAtVertex, hids]
  rfl

theorem Inv.eq_tombstone (h : s.Inv) {slot : Slot} (hslot : s.edges[id]? = some slot)
    (hget : s.get id = none) : slot = tombstone := by
  rcases h.slots id slot hslot with hid | htomb
  · have hlt := (List.getElem?_eq_some_iff.mp hslot).1
    have hle := h.length_le
    have hlive : s.get id = some slot.edge :=
      get_eq_some_iff.mpr ⟨slot, hslot, by omega, rfl⟩
    rw [hget] at hlive
    cases hlive
  · exact htomb

theorem Inv.mem_edgesAtVertex_of_not_mem (h : s.Inv) (hv : v ∉ s.vertexToEdges) :
    id ∈ s.edgesAtVertex v ↔ v = invalidVertexId ∧ s.edges[id]? = some tombstone := by
  have hscan : id ∈ s.edgesAtVertex v ↔ ∃ slot, s.edges[id]? = some slot ∧
      (slot.edge.startVertex = v ∨ slot.edge.endVertex = v) := by
    rw [edgesAtVertex, OrderedMap.not_mem_iff.mp hv]
    simp only [List.mem_map, List.mem_filter, Bool.or_eq_true, beq_iff_eq]
    constructor
    · rintro ⟨⟨slot, i⟩, ⟨hmem, hends⟩, rfl⟩
      exact ⟨slot, List.mk_mem_zipIdx_iff_getElem?.mp hmem, hends⟩
    · rintro ⟨slot, hslot, hends⟩
      exact ⟨(slot, id), ⟨List.mk_mem_zipIdx_iff_getElem?.mpr hslot, hends⟩, rfl⟩
  rw [hscan]
  constructor
  · rintro ⟨slot, hslot, hends⟩
    rcases hget : s.get id with - | e
    · obtain rfl := h.eq_tombstone hslot hget
      exact ⟨(or_self_iff.mp hends).symm, hslot⟩
    · obtain ⟨slot', hslot', -, rfl⟩ := get_eq_some_iff.mp hget
      obtain rfl := Option.some_inj.mp (hslot.symm.trans hslot')
      exact absurd (h.atVertex.mem_of_rel ⟨_, hget, hends⟩) hv
  · rintro ⟨rfl, htomb⟩
    exact ⟨tombstone, htomb, Or.inl rfl⟩

theorem Inv.exists_tombstone_iff (h : s.Inv) :
    (∃ i : ℕ, s.edges[i]? = some tombstone) ↔ s.stats.totalDeleted ≠ 0 := by
  have hdeleted := h.deleted
  constructor
  · rintro ⟨i, hi⟩ hzero
    have hall : s.len = s.edges.length := by omega
    have hlive := List.countP_eq_length.mp hall tombstone (List.mem_of_getElem? hi)
    simp [tombstone] at hlive
  · intro hpos
    have hnot : ¬ ∀ slot ∈ s.edges, (slot.id != invalidEdgeId) = true := by
      rw [← List.countP_eq_length]
      intro hall
      have : s.len = s.edges.length := hall
      omega
    push Not at hnot
    obtain ⟨slot, hmem, hdead⟩ := hnot
    obtain ⟨i, hi⟩ := List.mem_iff_getElem?.mp hmem
    have hnone : s.get i = none := by
      rcases hget : s.get i with - | e
      · rfl
      · obtain ⟨slot', hslot', hlive, -⟩ := get_eq_some_iff.mp hget
        obtain rfl := Option.some_inj.mp (hi.symm.trans hslot')
        simp [hlive] at hdead
    exact ⟨i, h.eq_tombstone hi hnone ▸ hi⟩

theorem Inv.exactAt_iff (h : s.Inv) : s.ExactAt v ↔ s.Known v := by
  by_cases hv : v ∈ s.vertexToEdges
  · refine iff_of_true ?_ (Or.inr (Or.inl hv))
    rw [ExactAt, edgesAtVertex_of_mem hv]
    exact ⟨h.atVertex.nodup v, h.atVertex.mem_iff v⟩
  · have hnone : ∀ id, ¬ ∃ e, s.get id = some e ∧ (e.startVertex = v ∨ e.endVertex = v) :=
      fun id hid ↦ hv (h.atVertex.mem_of_rel hid)
    have hexact : s.ExactAt v ↔ s.edgesAtVertex v = [] := by
      simp only [ExactAt, hnone, iff_false, List.eq_nil_iff_forall_not_mem]
      exact and_iff_right_of_imp fun hempty ↦ by
        rw [List.eq_nil_iff_forall_not_mem.mpr hempty]
        exact List.nodup_nil
    have hempty : s.edgesAtVertex v = [] ↔
        ¬ (v = invalidVertexId ∧ ∃ i : ℕ, s.edges[i]? = some tombstone) := by
      simp only [List.eq_nil_iff_forall_not_mem, h.mem_edgesAtVertex_of_not_mem hv, ← not_exists,
        exists_and_left]
    rw [hexact, hempty, h.exists_tombstone_iff, Known]
    tauto

theorem Inv.exact (h : s.Inv) : s.Exact where
  atVertex _ hv := h.exactAt_iff.mpr hv
  onCurve curve := ⟨h.onCurve.nodup curve, h.onCurve.mem_iff curve⟩
  found _ _ _ := h.found
  finds _ _ _ := h.finds
  counts := h.created.trans h.deleted

/-! ## What is not clean is the end of it -/

theorem Inv.not_exact_add (h : s.Inv) (hclean : ¬ s.CleanAdd edge) :
    ¬ (s.addWithIndexing edge).2.Exact := by
  intro hexact
  have hlisted : edge.startVertex ∈ (s.addWithIndexing edge).2.vertexToEdges :=
    OrderedMap.mem_push.mpr (Or.inr ⟨s.nextId, List.mem_cons_self⟩)
  obtain ⟨hnodup, hmem⟩ := hexact.atVertex edge.startVertex (Or.inr (Or.inl hlisted))
  rw [edgesAtVertex_of_mem hlisted, addWithIndexing, OrderedMap.getD_push] at hnodup
  by_cases hclosed : edge.startVertex = edge.endVertex
  · have htwice := (List.nodup_append'.mp hnodup).2.1
    simp [hclosed] at htwice
  · have hid : s.nextId = invalidEdgeId := by
      by_contra hid
      exact hclean ⟨hclosed, hid⟩
    -- The id that is listed is the invalid one.
    have hnamed : s.nextId ∈ (s.addWithIndexing edge).2.edgesAtVertex edge.startVertex := by
      rw [edgesAtVertex_of_mem hlisted, addWithIndexing, OrderedMap.getD_push]
      simp
    obtain ⟨e, he, -⟩ := (hmem _).mp hnamed
    rw [get_addWithIndexing, if_pos h.nextId, if_pos hid] at he
    cases he

theorem Inv.not_exact_remove_dead (h : s.Inv) (hlt : id < s.edges.length)
    (hget : s.get id = none) : ¬ (s.remove id).2.Exact := by
  intro hexact
  have hslot := List.getElem?_eq_getElem hlt
  have htomb := h.eq_tombstone hslot hget
  have hlen := len_remove hslot
  rw [htomb, if_pos (by rfl : tombstone.id = invalidEdgeId)] at hlen
  have hcounts := hexact.counts
  have hcreated : (s.remove id).2.stats.totalCreated = s.stats.totalCreated := by
    rw [remove_of_slot hslot]
  have hdeleted : (s.remove id).2.stats.totalDeleted = s.stats.totalDeleted + 1 := by
    rw [remove_of_slot hslot]
  have hbefore := h.created.trans h.deleted
  omega

theorem not_exact_remove_parallel {other : ℕ} (hget : s.get id = some edge)
    (hjoins : s.Joins other edge.startVertex edge.endVertex) (hne : other ≠ id) :
    ¬ (s.remove id).2.Exact := by
  intro hexact
  obtain ⟨slot, hslot, -, rfl⟩ := get_eq_some_iff.mp hget
  obtain ⟨e, he, hends⟩ := hjoins
  have hkept : (s.remove id).2.Joins other slot.edge.startVertex slot.edge.endVertex :=
    ⟨e, by rw [get_remove, if_neg hne, he], hends⟩
  have hsome := hexact.finds _ _ _ hkept
  rw [findEdgeBetween, remove_of_slot hslot, OrderedMap.lookup_erase, edgeKey, if_pos rfl] at hsome
  cases hsome

theorem Inv.not_exact_step (h : s.Inv) {op : Op} (hclean : ¬ s.Clean op) :
    ¬ (s.step op).Exact := by
  rcases op with edge | edge | id
  · exact h.not_exact_add hclean
  · obtain ⟨hnone, hadd⟩ := not_or.mp hclean
    rcases addOrFindWithDedup_cases (s := s) edge with ⟨id, hfind, -⟩ | ⟨-, hstep⟩
    · exact absurd ⟨id, h.found hfind⟩ hnone
    · rw [hstep]
      exact h.not_exact_add hadd
  · obtain ⟨hlt, honly⟩ := not_or.mp hclean
    rcases hget : s.get id with - | edge
    · exact h.not_exact_remove_dead (Nat.not_le.mp hlt) hget
    · push Not at honly
      obtain ⟨other, hjoins, hne⟩ := honly edge hget
      exact not_exact_remove_parallel hget hjoins hne

/-! ## Runs -/

abbrev AllClean (s : EdgeStore) (ops : List Op) : Prop := system.Admits Clean s ops

theorem Inv.run (h : s.Inv) {ops : List Op} (hclean : AllClean s ops) :
    (system.run s ops).Inv := by
  induction ops generalizing s with
  | nil => exact h
  | cons op ops ih => exact ih (h.step hclean.2.1) hclean.2.2

theorem Inv.exact_run_iff (h : s.Inv) (ops : List Op) :
    (∀ before, before <+: ops → (system.run s before).Exact) ↔ AllClean s ops :=
  GuardedSystem.good_run_iff (fun _ _ ↦ trivial) (fun _ h ↦ h.exact) (fun _ _ h ↦ h.step)
    (fun _ _ h ↦ h.not_exact_step) h ops

/-- **The queries are exact all along a run** just when its operations are clean. Then the edges at
a vertex are exact just when it has a list or is no tombstone's. -/
theorem exact_iff_allClean (ops : List Op) :
    ((∀ before, before <+: ops → (system.run new before).Exact) ↔ AllClean new ops) ∧
      (AllClean new ops →
        ∀ v, (system.run new ops).ExactAt v ↔ (system.run new ops).Known v) :=
  ⟨inv_new.exact_run_iff ops, fun hclean _ ↦ (inv_new.run hclean).exactAt_iff⟩

def between (v₁ v₂ : ℕ) : Edge := ⟨v₁, v₂, 0, .forward, (0, 0)⟩

/-- **A closed edge is listed twice, a parallel edge is hidden, a tombstone is counted twice.** -/
theorem not_exact_runs :
    (system.run new [.addWithIndexing (between 0 0)]).edgesAtVertex 0 = [0, 0] ∧
      ((system.run new [.addWithIndexing (between 0 1), .addWithIndexing (between 0 1),
          .remove 1]).findEdgeBetween 0 1 = none ∧
        (system.run new [.addWithIndexing (between 0 1), .addWithIndexing (between 0 1),
          .remove 1]).Joins 0 0 1) ∧
      (system.run new [.addWithIndexing (between 0 1), .remove 0, .remove 0]).stats = ⟨1, 2⟩ ∧
      ¬ ∀ ops : List Op,
        (∀ v, (system.run new ops).ExactAt v) ∧ (system.run new ops).Exact := by
  refine ⟨by decide, ⟨by decide, between 0 1, by decide, Or.inl ⟨rfl, rfl⟩⟩, by decide,
    fun h ↦ ?_⟩
  have hcounts := (h [.addWithIndexing (between 0 1), .remove 0, .remove 0]).2.counts
  exact absurd hcounts (by decide)

end EdgeStore

end RosheraCad
