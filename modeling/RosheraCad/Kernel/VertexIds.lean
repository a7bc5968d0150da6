import RosheraCad.Brep.Snapshot
import RosheraCad.Library.Postings
import RosheraCad.Library.Run

/-!
# The vertex store and its ids

A vertex is a slot in parallel arrays, here one list, and its id is taken from a counter. A removed
vertex keeps its slot and is flagged. A spatial hash lists the vertices of a cell. The arithmetic on
coordinates is a parameter, and an operation that panics has no outcome.

The counter and the slots agree until a compaction removes a slot.
-/

namespace RosheraCad

abbrev Point3 := F64 × F64 × F64

/-- The operations on coordinates. -/
structure Arithmetic where
  sub : F64 → F64 → F64
  add : F64 → F64 → F64
  mul : F64 → F64 → F64
  max : F64 → F64 → F64
  le : F64 → F64 → Bool
  lt : F64 → F64 → Bool
  cell : F64 → F64 → ℤ

namespace VertexStore

/-- The default tolerance, 1e-6. -/
def tauWeld : F64 := 0x3eb0c6f7a0b5ed8d

/-- The tolerance below which nothing is deduplicated, 1e-10. -/
def dedupFloor : F64 := 0x3ddb7cdfd9d7bdbb

def nan : F64 := 0x7ff8000000000000

def deletedFlag : BitVec 8 := 0b00100000

def modifiedFlag : BitVec 8 := 0b01000000

structure Slot where
  position : Point3
  params : F64 × F64
  flags : BitVec 8
  tolerance : F64
  deriving DecidableEq

def Slot.isDeleted (slot : Slot) : Bool := slot.flags &&& deletedFlag != 0

structure SpatialHashKey where
  x : ℤ
  y : ℤ
  z : ℤ
  deriving DecidableEq

namespace SpatialHashKey

def coordinates (key : SpatialHashKey) : List ℤ := [key.x, key.y, key.z]

theorem coordinates_injective : Function.Injective coordinates := by
  rintro ⟨x, y, z⟩ ⟨x', y', z'⟩ h
  obtain ⟨rfl, rfl, rfl⟩ : x = x' ∧ y = y' ∧ z = z' := by simpa [coordinates] using h
  rfl

instance : Ord SpatialHashKey := ⟨compareOn coordinates⟩

instance : Std.TransOrd SpatialHashKey := inferInstanceAs (Std.TransCmp (compareOn coordinates))

instance : Std.LawfulEqOrd SpatialHashKey where
  eq_of_compare h := coordinates_injective (Std.LawfulEqOrd.eq_of_compare h)

def fromPosition (A : Arithmetic) (p : Point3) (gridSize : F64) : SpatialHashKey :=
  ⟨A.cell p.1 gridSize, A.cell p.2.1 gridSize, A.cell p.2.2 gridSize⟩

end SpatialHashKey

structure VertexStoreStats where
  totalCreated : ℕ
  duplicatesFound : ℕ
  cacheHits : ℕ
  cacheMisses : ℕ

def asId (index : ℕ) : ℕ := index % 2 ^ 32

end VertexStore

open VertexStore

/-- Vertex storage; `Attribute` is a custom attribute of a vertex. -/
structure VertexStore (Attribute : Type) where
  slots : List Slot
  spatialHash : OrderedMap SpatialHashKey (List ℕ)
  attributes : OrderedMap ℕ (List Attribute)
  nextId : ℕ
  gridSize : F64
  enableDeduplication : Bool
  stats : VertexStoreStats

namespace VertexStore

variable {Attribute : Type} (A : Arithmetic)

def new (gridSize : F64) (enableDeduplication : Bool) : VertexStore Attribute :=
  ⟨[], ∅, ∅, 0, gridSize, enableDeduplication, ⟨0, 0, 0, 0⟩⟩

variable (s : VertexStore Attribute)

def addUncheckedWithTolerance (p : Point3) (tolerance : F64) : ℕ × VertexStore Attribute :=
  (s.nextId,
    { s with
      slots := s.slots ++ [⟨p, (nan, nan), 0, tolerance⟩]
      nextId := (s.nextId + 1) % 2 ^ 32
      stats := { s.stats with totalCreated := s.stats.totalCreated + 1 } })

/-- Add a vertex with the default tolerance. -/
def add (p : Point3) : ℕ × VertexStore Attribute := s.addUncheckedWithTolerance p tauWeld

def coincides (slot : Slot) (p : Point3) (tolerance : F64) : Bool :=
  let dx := A.sub slot.position.1 p.1
  let dy := A.sub slot.position.2.1 p.2.1
  let dz := A.sub slot.position.2.2 p.2.2
  let distSq := A.add (A.add (A.mul dx dx) (A.mul dy dy)) (A.mul dz dz)
  let merged := A.max slot.tolerance tolerance
  A.le distSq (A.mul merged merged)

def countHit : VertexStore Attribute :=
  { s with
    stats :=
      { s.stats with
        duplicatesFound := s.stats.duplicatesFound + 1
        cacheHits := s.stats.cacheHits + 1 } }

def countMiss : VertexStore Attribute :=
  { s with stats := { s.stats with cacheMisses := s.stats.cacheMisses + 1 } }

/-- Add a vertex, or find one by a linear search. -/
def addOrFind (p : Point3) (tolerance : F64) : ℕ × VertexStore Attribute :=
  match s.slots.findIdx? fun slot ↦ !slot.isDeleted && coincides A slot p tolerance with
  | some i => (asId i, s.countHit)
  | none => s.countMiss.addUncheckedWithTolerance p tolerance

def firstHit (p : Point3) (tolerance : F64) : List ℕ → Option (Option ℕ)
  | [] => some none
  | id :: candidates =>
    match s.slots[id]? with
    | none => none
    | some slot =>
      if coincides A slot p tolerance then some (some id) else firstHit p tolerance candidates

def candidates (p : Point3) : List ℕ :=
  s.spatialHash[SpatialHashKey.fromPosition A p s.gridSize]?.getD []

def addToCell (p : Point3) (tolerance : F64) : ℕ × VertexStore Attribute :=
  let added := s.countMiss.addUncheckedWithTolerance p tolerance
  (added.1,
    { added.2 with
      spatialHash := s.spatialHash.push
        [(SpatialHashKey.fromPosition A p s.gridSize, added.1)] })

def findOrAdd (p : Point3) (tolerance : F64) : Option (ℕ × VertexStore Attribute) :=
  match s.firstHit A p tolerance (s.candidates A p) with
  | none => none
  | some (some id) => some (id, s.countHit)
  | some none => some (s.addToCell A p tolerance)

def addOrFindWithDedup (p : Point3) (tolerance : F64) : Option (ℕ × VertexStore Attribute) :=
  if !s.enableDeduplication || A.lt tolerance dedupFloor then
    some (s.addUncheckedWithTolerance p tolerance)
  else s.findOrAdd A p tolerance

def addOrFindBatch (tolerance : F64) :
    List Point3 → VertexStore Attribute → Option (List ℕ × VertexStore Attribute)
  | [], s => some ([], s)
  | p :: positions, s =>
    match s.findOrAdd A p tolerance with
    | none => none
    | some (id, s) => (addOrFindBatch tolerance positions s).map fun r ↦ (id :: r.1, r.2)

def inBox (min max p : Point3) : Bool :=
  A.le min.1 p.1 && A.le p.1 max.1 && A.le min.2.1 p.2.1 && A.le p.2.1 max.2.1 &&
    A.le min.2.2 p.2.2 && A.le p.2.2 max.2.2

def findInBox (min max : Point3) : List ℕ :=
  (s.slots.zipIdx.filter fun e ↦ inBox A min max e.1.position).map fun e ↦ asId e.2

def Slot.delete (slot : Slot) : Slot := { slot with flags := slot.flags ||| deletedFlag }

def mergeVertices (keep remove : ℕ) : Bool × VertexStore Attribute :=
  match s.slots[keep]?, s.slots[remove]? with
  | some _, some slot =>
    (true,
      { s with
        slots := s.slots.set remove slot.delete
        spatialHash := s.spatialHash.retainNe
          (SpatialHashKey.fromPosition A slot.position s.gridSize) remove })
  | _, _ => (false, s)

def getAttributes (id : ℕ) : Option (List Attribute) := s.attributes[id]?

def setAttributes (id : ℕ) (attrs : List Attribute) : VertexStore Attribute :=
  { s with attributes := s.attributes.insert id attrs }

def rebuildSpatialHash : VertexStore Attribute :=
  { s with
    spatialHash := OrderedMap.push ∅ ((s.slots.zipIdx.filter fun e ↦ !e.1.isDeleted).map fun e ↦
      (SpatialHashKey.fromPosition A e.1.position s.gridSize, asId e.2)) }

def liveSlots : List (Slot × ℕ) := s.slots.zipIdx.filter fun e ↦ !e.1.isDeleted

/-- Remove the flagged slots. The map names the new index of each vertex. -/
def compact : OrderedMap ℕ ℕ × VertexStore Attribute :=
  (OrderedMap.insertEntries ∅ (s.liveSlots.zipIdx.map fun e ↦ (asId e.1.2, asId e.2)),
    rebuildSpatialHash A { s with slots := s.liveSlots.map Prod.fst })

def get (id : ℕ) : Option Slot := s.slots[id]?.filter (!·.isDeleted)

def remove (id : ℕ) : Bool × VertexStore Attribute :=
  match s.slots[id]? with
  | some slot =>
    (true,
      if slot.isDeleted then s
      else
        { s with
          slots := s.slots.set id slot.delete
          stats := { s.stats with totalCreated := s.stats.totalCreated - 1 } })
  | none => (false, s)

def setPosition (id : ℕ) (p : Point3) : Bool × VertexStore Attribute :=
  match s.slots[id]? with
  | some slot =>
    (true,
      { s with
        slots := s.slots.set id { slot with position := p, flags := slot.flags ||| modifiedFlag } })
  | none => (false, s)

/-! ## The operations -/

/-- The operations. -/
inductive Op (Attribute : Type)
  | add (p : Point3)
  | addOrFind (p : Point3) (tolerance : F64)
  | addOrFindWithDedup (p : Point3) (tolerance : F64)
  | addOrFindBatch (positions : List Point3) (tolerance : F64)
  | remove (id : ℕ)
  | mergeVertices (keep remove : ℕ)
  | setPosition (id : ℕ) (p : Point3)
  | setAttributes (id : ℕ) (attrs : List Attribute)
  | compact
  | findInBox (min max : Point3)

inductive Returned
  | added (ids : List ℕ)
  | done (found : Bool)
  | compacted (remap : OrderedMap ℕ ℕ)
  | found (ids : List ℕ)

def exec (s : VertexStore Attribute) : Op Attribute → Option (Returned × VertexStore Attribute)
  | .add p => let r := s.add p; some (.added [r.1], r.2)
  | .addOrFind p tolerance => let r := s.addOrFind A p tolerance; some (.added [r.1], r.2)
  | .addOrFindWithDedup p tolerance =>
    (s.addOrFindWithDedup A p tolerance).map fun r ↦ (.added [r.1], r.2)
  | .addOrFindBatch positions tolerance =>
    (addOrFindBatch A tolerance positions s).map fun r ↦ (.added r.1, r.2)
  | .remove id => let r := s.remove id; some (.done r.1, r.2)
  | .mergeVertices keep remove => let r := s.mergeVertices A keep remove; some (.done r.1, r.2)
  | .setPosition id p => let r := s.setPosition id p; some (.done r.1, r.2)
  | .setAttributes id attrs => some (.done true, s.setAttributes id attrs)
  | .compact => let r := s.compact A; some (.compacted r.1, r.2)
  | .findInBox min max => some (.found (s.findInBox A min max), s)

/-- The store as a system. An operation that panics has no successor. -/
def system (gridSize : F64) (enableDeduplication : Bool) :
    GuardedSystem (VertexStore Attribute) (Op Attribute) where
  init := new gridSize enableDeduplication
  enabled _ _ := True
  step s op := ((s.exec A op).map Prod.snd).getD s

variable {Attribute : Type} (A : Arithmetic) (s : VertexStore Attribute)

def Resolves (id : ℕ) (p : Point3) (tolerance : F64) : Prop :=
  ∃ slot, s.get id = some slot ∧ (slot.position = p ∨ coincides A slot p tolerance = true)

/-- The positions an operation asks for, and its tolerance. -/
def Op.requests : Op Attribute → List Point3 × F64
  | .add p => ([p], tauWeld)
  | .addOrFind p tolerance => ([p], tolerance)
  | .addOrFindWithDedup p tolerance => ([p], tolerance)
  | .addOrFindBatch positions tolerance => (positions, tolerance)
  | _ => ([], tauWeld)

/-- What an operation returns is right. -/
structure Right (op : Op Attribute) : Prop where
  adds : ∀ ids s', s.exec A op = some (.added ids, s') →
    List.Forall₂ (fun id p ↦ s'.Resolves A id p op.requests.2) ids op.requests.1
  compacts : ∀ remap s', s.exec A op = some (.compacted remap, s') →
    ∀ id slot, s.get id = some slot → ∃ id', remap[id]? = some id' ∧ s'.get id' = some slot ∧
      s'.getAttributes id' = s.getAttributes id
  finds : ∀ ids s', s.exec A op = some (.found ids, s') → ∀ id ∈ ids, (s'.get id).isSome

/-! ## When it does -/

def Aligned : Prop := s.nextId = s.slots.length

def hits (p : Point3) (tolerance : F64) : List Slot :=
  ((s.candidates A p).filterMap (s.slots[·]?)).filter (coincides A · p tolerance)

/-- The first vertex a cell offers is not removed; when it offers none, the counter is right. -/
def CleanFind (p : Point3) (tolerance : F64) : Prop :=
  match (s.hits A p tolerance).head? with
  | some slot => slot.isDeleted = false
  | none => s.Aligned

def CleanBatch (tolerance : F64) : List Point3 → VertexStore Attribute → Prop
  | [], _ => True
  | p :: positions, s => s.CleanFind A p tolerance ∧
      ∀ id s', s.findOrAdd A p tolerance = some (id, s') → CleanBatch tolerance positions s'

def rank (id : ℕ) : ℕ := (s.slots.take id).countP fun slot ↦ !slot.isDeleted

def Clean : Op Attribute → Prop
  | .add _ => s.Aligned
  | .addOrFind p tolerance =>
    (∃ slot ∈ s.slots, slot.isDeleted = false ∧ coincides A slot p tolerance = true) ∨ s.Aligned
  | .addOrFindWithDedup p tolerance =>
    if !s.enableDeduplication || A.lt tolerance dedupFloor then s.Aligned
    else s.CleanFind A p tolerance
  | .addOrFindBatch positions tolerance => CleanBatch A tolerance positions s
  | .compact => ∀ id, (s.get id).isSome → s.getAttributes id = s.getAttributes (s.rank id)
  | .findInBox min max => ∀ slot ∈ s.slots, inBox A min max slot.position = true →
      slot.isDeleted = false
  | _ => True

/-- What holds of every store that clean operations lead to. -/
structure Inv : Prop where
  hashed : ∀ (key : SpatialHashKey), ∀ id ∈ s.spatialHash[key]?.getD [], id < s.slots.length
  nextId_lt : s.nextId < 2 ^ 32
  length_le : s.slots.length ≤ 2 ^ 32

variable {A s} {p : Point3} {tolerance : F64} {id : ℕ} {s' : VertexStore Attribute} {slot : Slot}

theorem asId_of_lt {i : ℕ} (h : i < 2 ^ 32) : asId i = i := Nat.mod_eq_of_lt h

theorem get_eq_some_iff :
    s.get id = some slot ↔ s.slots[id]? = some slot ∧ slot.isDeleted = false := by
  rw [get, Option.filter_eq_some_iff, Bool.not_eq_true']

theorem get_of_prefix (h : s.slots <+: s'.slots) (hget : s.get id = some slot) :
    s'.get id = some slot := by
  obtain ⟨hslot, hlive⟩ := get_eq_some_iff.mp hget
  obtain ⟨hlt, rfl⟩ := List.getElem?_eq_some_iff.mp hslot
  exact get_eq_some_iff.mpr ⟨(List.prefix_iff_getElem?.mp h id hlt).trans rfl, hlive⟩

theorem Resolves.of_prefix (h : s.slots <+: s'.slots) (hres : s.Resolves A id p tolerance) :
    s'.Resolves A id p tolerance := by
  obtain ⟨slot, hget, hnear⟩ := hres
  exact ⟨slot, get_of_prefix h hget, hnear⟩

/-! ## Adding -/

theorem Aligned.resolves_add (h : s.Aligned) (p : Point3) (tolerance τ : F64) :
    (s.addUncheckedWithTolerance p tolerance).2.Resolves A
      (s.addUncheckedWithTolerance p tolerance).1 p τ := by
  have hget : (s.addUncheckedWithTolerance p tolerance).2.get s.nextId =
      some ⟨p, (nan, nan), 0, tolerance⟩ := by
    rw [get_eq_some_iff]
    exact ⟨by simp [addUncheckedWithTolerance, show s.nextId = s.slots.length from h],
      by simp [Slot.isDeleted]⟩
  exact ⟨_, hget, Or.inl rfl⟩

theorem prefix_add (p : Point3) (tolerance : F64) :
    s.slots <+: (s.addUncheckedWithTolerance p tolerance).2.slots := List.prefix_append _ _

theorem Inv.add (h : s.Inv) (haligned : s.Aligned) (p : Point3) (tolerance : F64) :
    (s.addUncheckedWithTolerance p tolerance).2.Inv where
  hashed key id hid := by
    refine (h.hashed key id hid).trans ?_
    simp [addUncheckedWithTolerance]
  nextId_lt := Nat.mod_lt _ (by decide)
  length_le := by
    have hlt := h.nextId_lt
    rw [show s.nextId = s.slots.length from haligned] at hlt
    simpa [addUncheckedWithTolerance] using hlt

theorem addOrFind_cases (p : Point3) (tolerance : F64) :
    (∃ i slot, s.slots[i]? = some slot ∧ slot.isDeleted = false ∧
        coincides A slot p tolerance = true ∧ s.addOrFind A p tolerance = (asId i, s.countHit)) ∨
      (∀ slot ∈ s.slots, ¬ (slot.isDeleted = false ∧ coincides A slot p tolerance = true)) ∧
        s.addOrFind A p tolerance = s.countMiss.addUncheckedWithTolerance p tolerance := by
  rw [addOrFind]
  rcases hfind : s.slots.findIdx? fun slot ↦ !slot.isDeleted && coincides A slot p tolerance
    with - | i
  · refine Or.inr ⟨fun slot hmem ↦ ?_, by rw [hfind]⟩
    simpa using List.findIdx?_eq_none_iff.mp hfind slot hmem
  · obtain ⟨hlt, hnear, -⟩ := List.findIdx?_eq_some_iff_getElem.mp hfind
    rw [Bool.and_eq_true, Bool.not_eq_true'] at hnear
    exact Or.inl ⟨i, s.slots[i], List.getElem?_eq_getElem hlt, hnear.1, hnear.2, by rw [hfind]⟩

theorem firstHit_cases (A : Arithmetic) (p : Point3) (tolerance : F64) {candidates : List ℕ}
    (h : ∀ id ∈ candidates, id < s.slots.length) :
    (∃ id slot, s.firstHit A p tolerance candidates = some (some id) ∧
        s.slots[id]? = some slot ∧ coincides A slot p tolerance = true ∧
        ((candidates.filterMap (s.slots[·]?)).filter (coincides A · p tolerance)).head? =
          some slot) ∨
      s.firstHit A p tolerance candidates = some none ∧
        ((candidates.filterMap (s.slots[·]?)).filter (coincides A · p tolerance)).head? = none := by
  induction candidates with
  | nil => exact Or.inr ⟨rfl, rfl⟩
  | cons id candidates ih =>
    have hlt := h id List.mem_cons_self
    have hslot := List.getElem?_eq_getElem hlt
    rw [firstHit, hslot, List.filterMap_cons_some hslot]
    by_cases hnear : coincides A s.slots[id] p tolerance = true
    · refine Or.inl ⟨id, s.slots[id], if_pos hnear, hslot, hnear, ?_⟩
      simp only [List.filter_cons, hnear, if_true, List.head?_cons]
    · simp only [List.filter_cons, hnear]
      exact ih fun i hi ↦ h i (List.mem_cons_of_mem _ hi)

/-- **A clean search in a cell** leads to a vertex that is there. -/
theorem Inv.findOrAdd (h : s.Inv) (hclean : s.CleanFind A p tolerance) :
    ∃ id s', s.findOrAdd A p tolerance = some (id, s') ∧ s'.Inv ∧ s.slots <+: s'.slots ∧
      s'.Resolves A id p tolerance := by
  rw [CleanFind, hits] at hclean
  rcases firstHit_cases A p tolerance (h.hashed _) with
    ⟨id, slot, hhit, hslot, hnear, hhead⟩ | ⟨hhit, hhead⟩
  · rw [candidates, hhead] at hclean
    refine ⟨id, s.countHit, by rw [VertexStore.findOrAdd, candidates, hhit],
      ⟨h.hashed, h.nextId_lt, h.length_le⟩, List.prefix_refl _, slot, ?_, Or.inr hnear⟩
    exact get_eq_some_iff.mpr ⟨hslot, hclean⟩
  · rw [candidates, hhead] at hclean
    have hmiss : s.countMiss.Inv := ⟨h.hashed, h.nextId_lt, h.length_le⟩
    have hadd := hmiss.add hclean p tolerance
    have hres := Aligned.resolves_add (s := s.countMiss) (A := A) hclean p tolerance tolerance
    refine ⟨(s.addToCell A p tolerance).1, (s.addToCell A p tolerance).2,
      by rw [VertexStore.findOrAdd, candidates, hhit],
      ⟨fun key id hid ↦ ?_, hadd.nextId_lt, hadd.length_le⟩, prefix_add p tolerance, hres⟩
    -- What the cell gains is the id of the new slot.
    rw [addToCell, OrderedMap.getD_push, List.mem_append] at hid
    rcases hid with hid | hid
    · exact hadd.hashed key id hid
    · obtain ⟨e, he, rfl⟩ := List.mem_map.mp hid
      obtain rfl := List.mem_singleton.mp (List.mem_of_mem_filter he)
      have haligned : s.nextId = s.slots.length := hclean
      simp [addToCell, addUncheckedWithTolerance, countMiss, haligned]

theorem Inv.addOrFindBatch (h : s.Inv) {positions : List Point3}
    (hclean : CleanBatch A tolerance positions s) :
    ∃ ids s', addOrFindBatch A tolerance positions s = some (ids, s') ∧ s'.Inv ∧
      s.slots <+: s'.slots ∧
      List.Forall₂ (fun id p ↦ s'.Resolves A id p tolerance) ids positions := by
  induction positions generalizing s with
  | nil => exact ⟨[], s, rfl, h, List.prefix_refl _, .nil⟩
  | cons p positions ih =>
    obtain ⟨id, s₁, hfind, hinv₁, hprefix₁, hres⟩ := h.findOrAdd hclean.1
    obtain ⟨ids, s₂, hbatch, hinv₂, hprefix₂, hrest⟩ := ih hinv₁ (hclean.2 id s₁ hfind)
    refine ⟨id :: ids, s₂, ?_, hinv₂, hprefix₁.trans hprefix₂,
      .cons (hres.of_prefix hprefix₂) hrest⟩
    rw [VertexStore.addOrFindBatch, hfind]
    simp only [hbatch, Option.map_some]

/-! ## Compacting -/

theorem getElem?_filter_countP {α : Type*} {l : List α} {p : α → Bool} {i : ℕ} {a : α}
    (ha : l[i]? = some a) (hp : p a = true) : (l.filter p)[(l.take i).countP p]? = some a := by
  obtain ⟨hlt, rfl⟩ := List.getElem?_eq_some_iff.mp ha
  have hsplit : l = l.take i ++ l[i] :: l.drop (i + 1) := by
    rw [← List.drop_eq_getElem_cons hlt, List.take_append_drop]
  conv_lhs => rw [hsplit, List.filter_append, List.filter_cons_of_pos hp]
  rw [← hsplit, List.countP_eq_length_filter, List.getElem?_append_right (Nat.le_refl _),
    Nat.sub_self, List.getElem?_cons_zero]

theorem length_liveSlots_le : s.liveSlots.length ≤ s.slots.length :=
  (List.length_filter_le _ _).trans List.length_zipIdx.le

theorem getElem?_liveSlots (hget : s.get id = some slot) :
    s.liveSlots[s.rank id]? = some (slot, id) := by
  obtain ⟨hslot, hlive⟩ := get_eq_some_iff.mp hget
  have hmem : s.slots.zipIdx[id]? = some (slot, id) := by
    rw [List.getElem?_zipIdx, hslot]
    simp
  have hrank : (s.slots.zipIdx.take id).countP (fun e ↦ !e.1.isDeleted) = s.rank id := by
    have hmap : s.slots.take id = (s.slots.zipIdx.take id).map Prod.fst := by
      rw [List.map_take, List.zipIdx_map_fst]
    rw [rank, hmap, List.countP_map]
    rfl
  rw [← hrank]
  exact getElem?_filter_countP hmem (by simp [hlive])

/-- **A compaction keeps the vertices**, and its map names the new ids. -/
theorem Inv.compact_spec (h : s.Inv) (hget : s.get id = some slot) :
    (s.compact A).1[id]? = some (s.rank id) ∧ (s.compact A).2.get (s.rank id) = some slot := by
  have hlen := length_liveSlots_le (s := s)
  have hle := h.length_le
  have hlive := getElem?_liveSlots hget
  have hbound : ∀ {e : Slot × ℕ} {i : ℕ}, s.liveSlots[i]? = some e →
      i < 2 ^ 32 ∧ e.2 < 2 ^ 32 ∧ s.slots[e.2]? = some e.1 := by
    intro e i he
    have hi := (List.getElem?_eq_some_iff.mp he).1
    have hslot : s.slots[e.2]? = some e.1 :=
      List.mk_mem_zipIdx_iff_getElem?.mp (List.mem_of_mem_filter (List.mem_of_getElem? he))
    have hlt := (List.getElem?_eq_some_iff.mp hslot).1
    exact ⟨by omega, by omega, hslot⟩
  have hnodup : (s.liveSlots.map Prod.snd).Nodup := by
    refine List.Nodup.sublist (List.filter_sublist.map _) ?_
    rw [List.zipIdx_map_snd]
    exact List.nodup_range'
  refine ⟨OrderedMap.getElem?_insertEntries_of_mem ?_ ?_ _, ?_⟩
  · -- The slot of an id stands in one place only.
    intro i' hmem
    obtain ⟨⟨e, i⟩, he, heq⟩ := List.mem_map.mp hmem
    have hi := List.mk_mem_zipIdx_iff_getElem?.mp he
    obtain ⟨hi32, he32, -⟩ := hbound hi
    obtain ⟨hid, rfl⟩ := Prod.mk.inj heq
    rw [asId_of_lt he32] at hid
    dsimp only at hid ⊢
    rw [asId_of_lt hi32]
    have hlt := (List.getElem?_eq_some_iff.mp hi).1
    have hsame : (s.liveSlots.map Prod.snd)[i]? = (s.liveSlots.map Prod.snd)[s.rank id]? := by
      rw [List.getElem?_map, List.getElem?_map, hi, hlive]
      exact congrArg some hid
    exact (List.getElem?_inj (by rwa [List.length_map]) hnodup).mp hsame
  · obtain ⟨hrank32, hid32, -⟩ := hbound hlive
    exact List.mem_map.mpr ⟨((slot, id), s.rank id), List.mk_mem_zipIdx_iff_getElem?.mpr hlive,
      Prod.ext (asId_of_lt hid32) (asId_of_lt hrank32)⟩
  · refine get_eq_some_iff.mpr ⟨?_, (get_eq_some_iff.mp hget).2⟩
    simp only [compact, rebuildSpatialHash, List.getElem?_map, hlive, Option.map_some]

theorem Inv.compact (h : s.Inv) : (s.compact A).2.Inv where
  hashed key id hid := by
    rw [VertexStore.compact, rebuildSpatialHash, OrderedMap.getD_push, List.mem_append] at hid
    rcases hid with hid | hid
    · simp at hid
    · obtain ⟨e, he, rfl⟩ := List.mem_map.mp hid
      obtain ⟨⟨slot, i⟩, hmem, rfl⟩ := List.mem_map.mp (List.mem_of_mem_filter he)
      have hi := List.mk_mem_zipIdx_iff_getElem?.mp (List.mem_of_mem_filter hmem)
      have hlt := (List.getElem?_eq_some_iff.mp hi).1
      exact (Nat.mod_le _ _).trans_lt hlt
  nextId_lt := h.nextId_lt
  length_le := by
    refine le_trans ?_ h.length_le
    simpa [VertexStore.compact, rebuildSpatialHash] using length_liveSlots_le

/-! ## Runs -/

theorem Inv.set (h : s.Inv) {slots : List Slot} {hash : OrderedMap SpatialHashKey (List ℕ)}
    (hlength : slots.length = s.slots.length)
    (hhash : ∀ (key : SpatialHashKey), ∀ id ∈ hash[key]?.getD [],
      id ∈ s.spatialHash[key]?.getD [])
    (stats : VertexStoreStats) :
    Inv { s with slots := slots, spatialHash := hash, stats := stats } where
  hashed key id hid := by
    rw [hlength]
    exact h.hashed key id (hhash key id hid)
  nextId_lt := h.nextId_lt
  length_le := by
    rw [hlength]
    exact h.length_le

theorem Inv.remove (h : s.Inv) (id : ℕ) : (s.remove id).2.Inv := by
  rw [VertexStore.remove]
  split
  · dsimp only
    split
    · exact h
    · exact h.set (List.length_set ..) (fun _ _ hid ↦ hid) _
  · exact h

theorem Inv.setPosition (h : s.Inv) (id : ℕ) (p : Point3) : (s.setPosition id p).2.Inv := by
  rw [VertexStore.setPosition]
  split
  · exact h.set (List.length_set ..) (fun _ _ hid ↦ hid) _
  · exact h

theorem Inv.mergeVertices (h : s.Inv) (keep remove : ℕ) :
    (s.mergeVertices A keep remove).2.Inv := by
  rw [VertexStore.mergeVertices]
  split
  · refine h.set (List.length_set ..) (fun key id hid ↦ ?_) _
    rw [OrderedMap.getD_retainNe] at hid
    split at hid
    · exact List.mem_of_mem_filter hid
    · exact hid
  · exact h

/-- A clean linear search leads to a vertex that is there. -/
theorem Inv.addOrFind (h : s.Inv)
    (hclean : (∃ slot ∈ s.slots, slot.isDeleted = false ∧ coincides A slot p tolerance = true) ∨
      s.Aligned) :
    (s.addOrFind A p tolerance).2.Inv ∧
      (s.addOrFind A p tolerance).2.Resolves A (s.addOrFind A p tolerance).1 p tolerance := by
  rcases addOrFind_cases (A := A) (s := s) p tolerance with
    ⟨i, slot, hslot, hlive, hnear, heq⟩ | ⟨hnone, heq⟩
  · have hlt := (List.getElem?_eq_some_iff.mp hslot).1
    rw [heq, asId_of_lt (hlt.trans_le h.length_le)]
    exact ⟨⟨h.hashed, h.nextId_lt, h.length_le⟩, slot, get_eq_some_iff.mpr ⟨hslot, hlive⟩,
      Or.inr hnear⟩
  · have haligned : s.Aligned := hclean.resolve_left fun ⟨slot, hmem, hnear⟩ ↦ hnone slot hmem hnear
    have hmiss : s.countMiss.Inv := ⟨h.hashed, h.nextId_lt, h.length_le⟩
    rw [heq]
    exact ⟨hmiss.add haligned p tolerance,
      Aligned.resolves_add (s := s.countMiss) haligned p tolerance tolerance⟩

/-- **A clean operation** does not panic, returns what is right, and keeps the invariant. -/
theorem Inv.exec (h : s.Inv) {op : Op Attribute} (hclean : s.Clean A op) :
    ∃ returned s', s.exec A op = some (returned, s') ∧ s'.Inv ∧ s.Right A op := by
  rcases op with p | ⟨p, tolerance⟩ | ⟨p, tolerance⟩ | ⟨positions, tolerance⟩ | id |
    ⟨keep, remove⟩ | ⟨id, p⟩ | ⟨id, attrs⟩ | _ | ⟨min, max⟩
  case add =>
    refine ⟨_, _, rfl, h.add hclean p tauWeld, ?_, nofun, nofun⟩
    rintro ids s' heq
    obtain ⟨hids, rfl⟩ := Prod.mk.inj (Option.some_inj.mp heq)
    obtain rfl := Returned.added.inj hids
    exact .cons (hclean.resolves_add p tauWeld tauWeld) .nil
  case addOrFind =>
    obtain ⟨hinv, hres⟩ := h.addOrFind hclean
    refine ⟨_, _, rfl, hinv, ?_, nofun, nofun⟩
    rintro ids s' heq
    obtain ⟨hids, rfl⟩ := Prod.mk.inj (Option.some_inj.mp heq)
    obtain rfl := Returned.added.inj hids
    exact .cons hres .nil
  case addOrFindWithDedup =>
    have hfind : ∃ id s', s.addOrFindWithDedup A p tolerance = some (id, s') ∧ s'.Inv ∧
        s'.Resolves A id p tolerance := by
      rw [Clean] at hclean
      rw [addOrFindWithDedup]
      split at hclean
      case isTrue hoff =>
        exact ⟨_, _, if_pos hoff, h.add hclean p tolerance,
          hclean.resolves_add p tolerance tolerance⟩
      case isFalse hon =>
        obtain ⟨id, s', hfind, hinv, -, hres⟩ := h.findOrAdd hclean
        exact ⟨id, s', by rw [if_neg hon, hfind], hinv, hres⟩
    obtain ⟨id, s', hadd, hinv, hres⟩ := hfind
    have hexec : s.exec A (.addOrFindWithDedup p tolerance) = some (.added [id], s') := by
      rw [VertexStore.exec, hadd]
      rfl
    refine ⟨_, _, hexec, hinv, ?_, ?_, ?_⟩ <;> rintro out s'' heq <;> rw [hexec] at heq
    · obtain ⟨hids, rfl⟩ := Prod.mk.inj (Option.some_inj.mp heq)
      obtain rfl := Returned.added.inj hids
      exact .cons hres .nil
    · cases heq
    · cases heq
  case addOrFindBatch =>
    obtain ⟨ids, s', hbatch, hinv, -, hres⟩ := h.addOrFindBatch hclean
    have hexec : s.exec A (.addOrFindBatch positions tolerance) = some (.added ids, s') := by
      rw [VertexStore.exec, hbatch]
      rfl
    refine ⟨_, _, hexec, hinv, ?_, ?_, ?_⟩ <;> rintro out s'' heq <;> rw [hexec] at heq
    · obtain ⟨hids, rfl⟩ := Prod.mk.inj (Option.some_inj.mp heq)
      obtain rfl := Returned.added.inj hids
      exact hres
    · cases heq
    · cases heq
  case remove => exact ⟨_, _, rfl, h.remove id, nofun, nofun, nofun⟩
  case mergeVertices => exact ⟨_, _, rfl, h.mergeVertices keep remove, nofun, nofun, nofun⟩
  case setPosition => exact ⟨_, _, rfl, h.setPosition id p, nofun, nofun, nofun⟩
  case setAttributes =>
    exact ⟨_, _, rfl, ⟨h.hashed, h.nextId_lt, h.length_le⟩, nofun, nofun, nofun⟩
  case compact =>
    refine ⟨_, _, rfl, h.compact, nofun, ?_, nofun⟩
    rintro remap s' heq id slot hget
    obtain ⟨hremap, rfl⟩ := Prod.mk.inj (Option.some_inj.mp heq)
    obtain rfl := Returned.compacted.inj hremap
    obtain ⟨hmap, hslot⟩ := h.compact_spec (A := A) hget
    exact ⟨_, hmap, hslot, (hclean id (by rw [hget]; rfl)).symm⟩
  case findInBox =>
    refine ⟨_, _, rfl, h, nofun, nofun, ?_⟩
    rintro ids s' heq id hid
    obtain ⟨hids, rfl⟩ := Prod.mk.inj (Option.some_inj.mp heq)
    obtain rfl := Returned.found.inj hids
    obtain ⟨⟨slot, i⟩, hmem, rfl⟩ := List.mem_map.mp hid
    obtain ⟨hzip, hbox⟩ := List.mem_filter.mp hmem
    have hi := List.mk_mem_zipIdx_iff_getElem?.mp hzip
    have hlt := (List.getElem?_eq_some_iff.mp hi).1
    rw [asId_of_lt (hlt.trans_le h.length_le),
      get_eq_some_iff.mpr ⟨hi, hclean slot (List.mem_of_getElem? hi) hbox⟩]
    rfl

theorem inv_new (gridSize : F64) (enableDeduplication : Bool) :
    (new gridSize enableDeduplication : VertexStore Attribute).Inv where
  hashed key id hid := by simp [new] at hid
  nextId_lt := Nat.two_pow_pos 32
  length_le := Nat.zero_le _

variable (A) in
abbrev AllClean (gridSize : F64) (enableDeduplication : Bool) (s : VertexStore Attribute)
    (ops : List (Op Attribute)) : Prop :=
  (system A gridSize enableDeduplication).Admits (Clean A) s ops

theorem Inv.run (h : s.Inv) {gridSize : F64} {enableDeduplication : Bool}
    {ops : List (Op Attribute)} (hclean : AllClean A gridSize enableDeduplication s ops) :
    ((system A gridSize enableDeduplication).run s ops).Inv := by
  induction ops generalizing s with
  | nil => exact h
  | cons op ops ih =>
    obtain ⟨returned, s', hexec, hinv, -⟩ := h.exec hclean.2.1
    have hstep : (system A gridSize enableDeduplication).step s op = s' := by
      simp only [system, hexec, Option.map_some, Option.getD_some]
    have hrest := hclean.2.2
    rw [hstep] at hrest
    rw [show (system A gridSize enableDeduplication).run s (op :: ops) =
      (system A gridSize enableDeduplication).run s' ops from by rw [← hstep]; rfl]
    exact ih hinv hrest

/-- **In a run of clean operations every operation is right**: ids resolve, a compaction's map keeps
what it moves, and what is found is there. -/
theorem right_of_allClean (A : Arithmetic) (gridSize : F64) (enableDeduplication : Bool)
    (before : List (Op Attribute)) (op : Op Attribute) (after : List (Op Attribute))
    (h : AllClean A gridSize enableDeduplication (new gridSize enableDeduplication)
      (before ++ op :: after)) :
    let s := (system A gridSize enableDeduplication).run (new gridSize enableDeduplication) before
    (s.exec A op).isSome ∧ s.Right A op := by
  have hsplit : before ++ op :: after = (before ++ [op]) ++ after := by simp
  rw [hsplit] at h
  obtain ⟨hbefore, -, hop⟩ := GuardedSystem.admits_concat.mp h.left
  have hnew : (new gridSize enableDeduplication : VertexStore Attribute).Inv := inv_new ..
  have hinv := hnew.run hbefore
  obtain ⟨returned, s', hexec, -, hright⟩ := hinv.exec hop
  exact ⟨by rw [hexec]; rfl, hright⟩

/-- The machine's arithmetic on zero and the default tolerance. -/
def zeroArithmetic : Arithmetic where
  sub _ _ := 0
  add _ _ := 0
  mul a _ := if a = 0 then 0 else 0x3d719799812dea11
  max a _ := a
  le a _ := a == 0
  lt _ _ := false
  cell _ _ := 0

def origin : Point3 := (0, 0, 0)

/-- A vertex that is added, and found when it is added again. -/
theorem right_of_allClean_origin :
    ((system zeroArithmetic tauWeld true).run (new tauWeld true : VertexStore Unit)
        [.add origin]).Right zeroArithmetic (.addOrFind origin tauWeld) :=
  (right_of_allClean zeroArithmetic tauWeld true [.add origin] (.addOrFind origin tauWeld) []
    ⟨trivial, rfl, trivial,
      Or.inl ⟨⟨origin, (nan, nan), 0, tauWeld⟩, List.mem_singleton_self _, rfl, rfl⟩, trivial⟩).2

/-- **After a compaction an add returns an id without a vertex**, and a removed vertex is found in
a box. -/
theorem not_right_runs :
    ((system zeroArithmetic tauWeld true).run (new tauWeld true : VertexStore Unit)
        [.add origin, .remove 0, .compact]).add origin =
      (1, (system zeroArithmetic tauWeld true).run (new tauWeld true)
        [.add origin, .remove 0, .compact, .add origin]) ∧
    ((system zeroArithmetic tauWeld true).run (new tauWeld true : VertexStore Unit)
        [.add origin, .remove 0, .compact, .add origin]).get 1 = none ∧
    ((system zeroArithmetic tauWeld true).run (new tauWeld true : VertexStore Unit)
        [.add origin, .remove 0]).findInBox zeroArithmetic origin origin = [0] ∧
    ¬ ∀ (before : List (Op Unit)) (op : Op Unit),
      ((system zeroArithmetic tauWeld true).run (new tauWeld true) before).Right zeroArithmetic
        op := by
  have hget : ((system zeroArithmetic tauWeld true).run (new tauWeld true : VertexStore Unit)
      [.add origin, .remove 0]).get 0 = none := by decide
  have hfound : ((system zeroArithmetic tauWeld true).run (new tauWeld true : VertexStore Unit)
      [.add origin, .remove 0]).findInBox zeroArithmetic origin origin = [0] := by decide
  refine ⟨rfl, by decide, hfound, fun h ↦ ?_⟩
  have hfinds := (h [.add origin, .remove 0] (.findInBox origin origin)).finds [0] _
    (by rw [exec, hfound]) 0 List.mem_cons_self
  rw [hget] at hfinds
  cases hfinds

end VertexStore

end RosheraCad
