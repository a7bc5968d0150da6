import RosheraCad.Geometry.Plane
import Mathlib.Algebra.BigOperators.Group.Finset.Sigma
import Mathlib.Algebra.BigOperators.Ring.Finset
import RosheraCad.Library.Containment

/-!
# Loops and regions of a sketch

Loops are found by walking along the first edge at each point that is not used, until the walk is
back at its start. A walk that cannot go on gives its edges back. A loop that lies in an even number
of others bounds a region, and the loops directly inside it are its holes. Distances are compared by
their squares.
-/

namespace RosheraCad

namespace Sketch

abbrev Point2d := Vector2

def TOL : ℚ := 1 / 10 ^ 6

def isNear (p q : Point2d) : Bool :=
  (p.x - q.x) * (p.x - q.x) + (p.y - q.y) * (p.y - q.y) < TOL ^ 2

structure TopologyEdge where
  startPoint : Point2d
  endPoint : Point2d
  boundsHint : Option (Point2d × Point2d) := none
  interiorHint : Option Point2d := none
  deriving Inhabited

structure SketchLoop where
  edges : List ℕ
  orientations : List Bool
  isCcw : Bool
  area : ℚ
  bounds : Point2d × Point2d
  deriving Inhabited

structure SketchRegion where
  outerLoop : ℕ
  innerLoops : List ℕ
  area : ℚ
  depth : ℕ

structure SketchTopology where
  edges : List TopologyEdge
  loops : List SketchLoop := []
  regions : List SketchRegion := []

def pi : ℚ := 884279719003555 / 281474976710656

namespace TopologyEdge

def tail (e : TopologyEdge) (forward : Bool) : Point2d :=
  if forward then e.startPoint else e.endPoint

def head (e : TopologyEdge) (forward : Bool) : Point2d :=
  if forward then e.endPoint else e.startPoint

def bounds (e : TopologyEdge) : Point2d × Point2d :=
  let lo : Point2d := ⟨min e.startPoint.x e.endPoint.x, min e.startPoint.y e.endPoint.y⟩
  let hi : Point2d := ⟨max e.startPoint.x e.endPoint.x, max e.startPoint.y e.endPoint.y⟩
  match e.boundsHint with
  | some (hmin, hmax) => (⟨min lo.x hmin.x, min lo.y hmin.y⟩, ⟨max hi.x hmax.x, max hi.y hmax.y⟩)
  | none => (lo, hi)

end TopologyEdge

namespace SketchTopology

variable (t : SketchTopology)

/-! ## Loops -/

def calculateLoopBounds : List ℕ → Point2d × Point2d
  | [] => default
  | first :: rest => rest.foldl (fun (lo, hi) i ↦
      let (emin, emax) := t.edges[i]!.bounds
      (⟨min lo.x emin.x, min lo.y emin.y⟩, ⟨max hi.x emax.x, max hi.y emax.y⟩))
      t.edges[first]!.bounds

def oriented (loopEdges : List ℕ) (orientations : List Bool) : List (ℕ × Bool) :=
  loopEdges.zipIdx.map fun (i, k) ↦ (i, orientations[k]?.getD true)

/-- Signed area of a loop from its chords. A single closed edge is taken for an ellipse. -/
def calculateLoopArea (loopEdges : List ℕ) (orientations : List Bool) : ℚ :=
  let area : ℚ := ((oriented loopEdges orientations).map fun (i, forward) ↦
    let a := t.edges[i]!.tail forward
    let b := t.edges[i]!.head forward
    (b.x - a.x) * (b.y + a.y) / 2).sum
  if |area| < 1 / 10 ^ 12 ∧ loopEdges.length = 1 then
    let (lo, hi) := t.calculateLoopBounds loopEdges
    pi * ((hi.x - lo.x) / 2) * ((hi.y - lo.y) / 2)
  else area

def loopIsCcw (loopEdges : List ℕ) (orientations : List Bool) (area : ℚ) : Bool :=
  let poly := (oriented loopEdges orientations).flatMap fun (i, forward) ↦
    t.edges[i]!.tail forward :: t.edges[i]!.interiorHint.toList
  match signedArea2d poly with
  | .counterClockwise => true
  | .clockwise => false
  | .collinear => area < 0

def nextEdge (visited : List Bool) (cursor : Point2d) : Option (ℕ × Bool) :=
  t.edges.zipIdx.findSome? fun (edge, i) ↦
    if visited[i]! then none
    else if isNear edge.startPoint cursor then some (i, true)
    else if isNear edge.endPoint cursor then some (i, false)
    else none

def walk (origin : Point2d) (room : ℕ) (visited : List Bool) (cursor : Point2d)
    (path : List (ℕ × Bool)) : Option (List (ℕ × Bool) × List Bool) :=
  if isNear cursor origin then some (path, visited)
  else match t.nextEdge visited cursor with
    | none => none
    | some (i, forward) =>
      match room with
      | 0 => none
      | room + 1 =>
        walk origin room (visited.set i true) (t.edges[i]!.head forward) (path ++ [(i, forward)])

def findLoopFromEdge (startEdge : ℕ) (visited : List Bool) :
    Option (List (ℕ × Bool) × List Bool) :=
  t.walk t.edges[startEdge]!.startPoint (t.edges.length - 1) (visited.set startEdge true)
    t.edges[startEdge]!.endPoint [(startEdge, true)]

def walkedLoop (path : List (ℕ × Bool)) : SketchLoop :=
  let edges := path.map (·.1)
  let orientations := path.map (·.2)
  let area := t.calculateLoopArea edges orientations
  { edges, orientations
    isCcw := t.loopIsCcw edges orientations area
    area := |area|
    bounds := t.calculateLoopBounds edges }

def closedLoop (startEdge : ℕ) : SketchLoop where
  edges := [startEdge]
  orientations := [true]
  isCcw := true
  area := |t.calculateLoopArea [startEdge] [true]|
  bounds := t.calculateLoopBounds [startEdge]

def tryEdge (found : List Bool × List SketchLoop) (startEdge : ℕ) : List Bool × List SketchLoop :=
  let (visited, loops) := found
  if visited[startEdge]! then found
  else if isNear t.edges[startEdge]!.startPoint t.edges[startEdge]!.endPoint then
    (visited.set startEdge true, loops ++ [t.closedLoop startEdge])
  else match t.findLoopFromEdge startEdge visited with
    | some (path, visited) => (visited, loops ++ [t.walkedLoop path])
    | none => found

def findLoops : SketchTopology :=
  { t with loops := ((List.range t.edges.length).foldl t.tryEdge
      (List.replicate t.edges.length false, [])).2 }

/-! ## Regions -/

def sticksOut (inner outer : Point2d × Point2d) : Bool :=
  inner.1.x < outer.1.x || inner.2.x > outer.2.x || inner.1.y < outer.1.y || inner.2.y > outer.2.y

def crosses (test : Point2d) (edge : TopologyEdge) : Bool :=
  let a := edge.startPoint
  let b := edge.endPoint
  let (yMin, yMax, xAtMin, xAtMax) :=
    if a.y ≤ b.y then (a.y, b.y, a.x, b.x) else (b.y, a.y, b.x, a.x)
  if yMin = yMax ∨ test.y < yMin ∨ test.y ≥ yMax then false
  else xAtMin + (test.y - yMin) / (yMax - yMin) * (xAtMax - xAtMin) > test.x

def loopContainsLoop (i j : ℕ) : Bool :=
  match t.loops[i]?, t.loops[j]? with
  | some outer, some inner =>
    if sticksOut inner.bounds outer.bounds then false
    else match inner.edges.head?.bind (t.edges[·]?) with
      | none => false
      | some firstEdge =>
        let test := firstEdge.startPoint
        if outer.edges.length = 1 then
          let (lo, hi) := outer.bounds
          let rx := (hi.x - lo.x) / 2
          let ry := (hi.y - lo.y) / 2
          if rx ≤ 0 ∨ ry ≤ 0 then false
          else
            let dx := (test.x - (lo.x + hi.x) / 2) / rx
            let dy := (test.y - (lo.y + hi.y) / 2) / ry
            dx * dx + dy * dy < 1
        else (outer.edges.filterMap (t.edges[·]?)).countP (crosses test) % 2 = 1
  | _, _ => false

def depth (i : ℕ) : ℕ :=
  (List.range t.loops.length).countP fun j ↦ i ≠ j ∧ t.loopContainsLoop j i

def loopIndices : List ℕ :=
  (List.range t.loops.length).mergeSort fun a b ↦ t.loops[b]!.area ≤ t.loops[a]!.area

/-- The region a loop bounds. Its holes are the loops directly inside. -/
def regionOf (i : ℕ) : SketchRegion :=
  let inner := t.loopIndices.filter fun j ↦
    i ≠ j ∧ t.depth j = t.depth i + 1 ∧ t.loopContainsLoop i j
  { outerLoop := i
    innerLoops := inner
    area := inner.foldl (fun area j ↦ area - t.loops[j]!.area) t.loops[i]!.area
    depth := t.depth i }

/-- Find regions from loops. A loop of odd depth is a hole. -/
def findRegions : SketchTopology :=
  if t.loops = [] then t
  else { t with regions := (t.loopIndices.filter fun i ↦ t.depth i % 2 = 0).map t.regionOf }

/-! ## Regions made from nested loops -/

variable {t : SketchTopology}

abbrev loopSet (t : SketchTopology) : Finset ℕ := Finset.range t.loops.length

abbrev Contains (t : SketchTopology) (i j : ℕ) : Prop := t.loopContainsLoop i j

/-- In how many others a loop lies. -/
abbrev containerCount (t : SketchTopology) (i : ℕ) : ℕ := Containment.depth t.loopSet t.Contains i

def loopArea (t : SketchTopology) (i : ℕ) : ℚ := t.loops[i]!.area

theorem mem_loopIndices {i : ℕ} : i ∈ t.loopIndices ↔ i ∈ t.loopSet := by
  rw [loopIndices, List.mem_mergeSort, List.mem_range, Finset.mem_range]

theorem nodup_loopIndices : t.loopIndices.Nodup :=
  (List.mergeSort_perm ..).nodup_iff.mpr List.nodup_range

theorem toFinset_loopIndices_filter (p : ℕ → Bool) :
    (t.loopIndices.filter p).toFinset = t.loopSet.filter (p ·) := by
  ext i
  rw [List.mem_toFinset, List.mem_filter, Finset.mem_filter, mem_loopIndices]

theorem sum_loopIndices_filter {M : Type*} [AddCommMonoid M] (p : ℕ → Bool) (f : ℕ → M) :
    ((t.loopIndices.filter p).map f).sum = ∑ i ∈ t.loopSet.filter (p ·), f i := by
  rw [← toFinset_loopIndices_filter, List.sum_toFinset f (nodup_loopIndices.filter p)]

theorem depth_eq (h : Containment.Nested t.Contains) (i : ℕ) : t.depth i = t.containerCount i := by
  rw [depth, List.countP_eq_length_filter]
  refine congrArg List.length (List.filter_congr fun j _ ↦ decide_eq_decide.mpr ?_)
  refine and_iff_right_of_imp ?_
  rintro hcontains rfl
  exact h.irrefl i hcontains

def Attached (t : SketchTopology) (i j : ℕ) : Prop :=
  i ≠ j ∧ t.depth j = t.depth i + 1 ∧ t.loopContainsLoop i j

instance (i j : ℕ) : Decidable (t.Attached i j) :=
  inferInstanceAs (Decidable (_ ∧ _ ∧ _))

theorem attached_iff (h : Containment.Nested t.Contains) {i j : ℕ} (hi : i ∈ t.loopSet) :
    t.Attached i j ↔ Containment.Innermost t.loopSet t.Contains i j := by
  rw [h.innermost_iff, Attached, depth_eq h, depth_eq h]
  constructor
  · rintro ⟨-, hdepth, hcontains⟩
    exact ⟨hi, hcontains, hdepth⟩
  · rintro ⟨-, hcontains, hdepth⟩
    refine ⟨?_, hdepth, hcontains⟩
    rintro rfl
    exact h.irrefl i hcontains

/-- The loops that bound a region. -/
abbrev outers (t : SketchTopology) : Finset ℕ := t.loopSet.filter fun i ↦ Even (t.containerCount i)

theorem card_attaching (h : Containment.Nested t.Contains) (j : ℕ) :
    (t.outers.filter (t.Attached · j)).card = if Even (t.containerCount j) then 0 else 1 := by
  have hmem (i : ℕ) : i ∈ t.outers.filter (t.Attached · j) ↔
      Even (t.containerCount i) ∧ Containment.Innermost t.loopSet t.Contains i j := by
    rw [Finset.mem_filter, Finset.mem_filter]
    constructor
    · rintro ⟨⟨hi, heven⟩, hattached⟩
      exact ⟨heven, (attached_iff h hi).mp hattached⟩
    · rintro ⟨heven, hin⟩
      exact ⟨⟨hin.mem, heven⟩, (attached_iff h hin.mem).mpr hin⟩
  split
  next heven =>
    rw [Finset.card_eq_zero, Finset.eq_empty_iff_forall_notMem]
    intro i hi
    obtain ⟨hieven, hin⟩ := (hmem i).mp hi
    rw [containerCount, (h.innermost_iff.mp hin).2.2] at heven
    exact Nat.not_even_iff_odd.mpr hieven.add_one heven
  next hodd =>
    have hzero : t.containerCount j ≠ 0 := fun hzero ↦ hodd (hzero ▸ Even.zero)
    obtain ⟨i, hin⟩ := h.exists_innermost hzero
    rw [Finset.card_eq_one]
    refine ⟨i, Finset.ext fun k ↦ ?_⟩
    rw [hmem, Finset.mem_singleton]
    constructor
    · rintro ⟨-, hk⟩
      exact h.innermost_unique hk hin
    · rintro rfl
      refine ⟨?_, hin⟩
      rw [containerCount, (h.innermost_iff.mp hin).2.2] at hodd
      exact Nat.not_odd_iff_even.mp fun hk ↦ hodd hk.add_one

/-! ## The regions -/

theorem regions_findRegions (h : Containment.Nested t.Contains) (hnone : t.regions = []) :
    t.findRegions.regions =
      (t.loopIndices.filter fun i ↦ Even (t.containerCount i)).map t.regionOf := by
  have heven : (t.loopIndices.filter fun i ↦ t.depth i % 2 = 0) =
      t.loopIndices.filter fun i ↦ Even (t.containerCount i) :=
    List.filter_congr fun i _ ↦ decide_eq_decide.mpr (by rw [depth_eq h, Nat.even_iff])
  rw [findRegions]
  split
  next hloops =>
    have hindices : t.loopIndices = [] := by
      rw [loopIndices, hloops]
      exact List.mergeSort_nil
    rw [hnone, hindices]
    rfl
  next => rw [heven]

theorem area_regionOf (i : ℕ) : (t.regionOf i).area =
    t.loopArea i - ∑ j ∈ t.loopSet.filter (t.Attached i), t.loopArea j := by
  have hfold (l : List ℕ) (area : ℚ) :
      l.foldl (fun area j ↦ area - t.loops[j]!.area) area = area - (l.map t.loopArea).sum := by
    induction l generalizing area with
    | nil => simp
    | cons j l ih =>
      rw [List.foldl_cons, ih, List.map_cons, List.sum_cons, loopArea]
      ring
  rw [regionOf, hfold, sum_loopIndices_filter]
  simp only [decide_eq_true_eq]
  rfl

section

variable (h : Containment.Nested t.Contains)

include h

section

variable (hnone : t.regions = [])

include hnone

theorem count_outerLoop {i : ℕ}
    (hi : i ∈ t.loopSet) : (t.findRegions.regions.map (·.outerLoop)).count i =
      if Even (t.containerCount i) then 1 else 0 := by
  rw [regions_findRegions h hnone, List.map_map]
  change ((t.loopIndices.filter _).map id).count i = _
  rw [List.map_id, (nodup_loopIndices.filter _).count]
  refine if_congr ?_ rfl rfl
  rw [List.mem_filter, mem_loopIndices, decide_eq_true_iff]
  exact and_iff_right hi

theorem count_innerLoops {j : ℕ}
    (hj : j ∈ t.loopSet) : (t.findRegions.regions.flatMap (·.innerLoops)).count j =
      if Even (t.containerCount j) then 0 else 1 := by
  have hone (i : ℕ) : ((t.regionOf i).innerLoops).count j = if t.Attached i j then 1 else 0 := by
    rw [regionOf, (nodup_loopIndices.filter _).count]
    refine if_congr ?_ rfl rfl
    rw [List.mem_filter, mem_loopIndices, decide_eq_true_iff]
    exact and_iff_right hj
  rw [regions_findRegions h hnone, List.count_flatMap, List.map_map, ← card_attaching h,
    Finset.card_filter]
  simp only [Function.comp_def, hone]
  rw [sum_loopIndices_filter]
  simp only [decide_eq_true_eq]

theorem innermost_of_mem_innerLoops
    {region : SketchRegion} (hregion : region ∈ t.findRegions.regions) {j : ℕ}
    (hj : j ∈ region.innerLoops) :
    Containment.Innermost t.loopSet t.Contains region.outerLoop j := by
  rw [regions_findRegions h hnone] at hregion
  obtain ⟨i, hi, rfl⟩ := List.mem_map.mp hregion
  have hattached : t.Attached i j := of_decide_eq_true (List.mem_filter.mp hj).2
  exact (attached_iff h (mem_loopIndices.mp (List.mem_filter.mp hi).1)).mp hattached

theorem sum_area_regions :
    (t.findRegions.regions.map (·.area)).sum = ∑ i ∈ t.outers, t.loopArea i -
      ∑ i ∈ t.loopSet.filter (fun i ↦ ¬ Even (t.containerCount i)), t.loopArea i := by
  have hholes : ∑ i ∈ t.outers, ∑ j ∈ t.loopSet.filter (t.Attached i), t.loopArea j =
      ∑ j ∈ t.loopSet.filter (fun j ↦ ¬ Even (t.containerCount j)), t.loopArea j := by
    rw [Finset.sum_filter]
    simp only [Finset.sum_filter (t.Attached _)]
    rw [← Finset.sum_filter, Finset.sum_comm]
    refine (Finset.sum_congr rfl fun j _ ↦ ?_).trans (Finset.sum_filter ..).symm
    rw [← Finset.sum_filter, Finset.sum_const, card_attaching h]
    split <;> simp_all
  rw [← hholes, ← Finset.sum_sub_distrib, regions_findRegions h hnone, List.map_map]
  simp only [Function.comp_def, area_regionOf]
  rw [sum_loopIndices_filter]
  simp only [decide_eq_true_eq]

end

end

def square (lo hi : ℚ) : List TopologyEdge :=
  [⟨⟨lo, lo⟩, ⟨hi, lo⟩, none, none⟩, ⟨⟨hi, lo⟩, ⟨hi, hi⟩, none, none⟩,
    ⟨⟨hi, hi⟩, ⟨lo, hi⟩, none, none⟩, ⟨⟨lo, hi⟩, ⟨lo, lo⟩, none, none⟩]

/-- A square with a square hole. -/
def frame : SketchTopology where
  edges := square 0 4 ++ square 1 2
  loops := [⟨[1, 2, 3, 0], [true, true, true, true], true, 16, (⟨0, 0⟩, ⟨4, 4⟩)⟩,
    ⟨[5, 6, 7, 4], [true, true, true, true], true, 1, (⟨1, 1⟩, ⟨2, 2⟩)⟩]

theorem contains_frame_iff {i j : ℕ} : frame.Contains i j ↔ i = 0 ∧ j = 1 := by
  constructor
  · intro h
    have hlt : i < 2 ∧ j < 2 := by
      rw [Contains, loopContainsLoop] at h
      split at h
      next hi hj => exact ⟨(List.getElem?_eq_some_iff.mp hi).1, (List.getElem?_eq_some_iff.mp hj).1⟩
      next => cases h
    have hpairs : ∀ i < 2, ∀ j < 2, frame.Contains i j → i = 0 ∧ j = 1 := by decide +kernel
    exact hpairs i hlt.1 j hlt.2 h
  · rintro ⟨rfl, rfl⟩
    decide +kernel

end SketchTopology

end Sketch

end RosheraCad
