import Mathlib.Tactic.Positivity
import RosheraCad.Sketch.Regions

/-!
# The loops of a sketch

A walk marks the edges it takes. Where the end points of the edges are equal or apart, a walk that
is away from its start has used an odd number of the edge ends at the point it is at. If their
number is even, one is left, and the walk goes on.
-/

namespace RosheraCad

namespace Sketch

theorem isNear_self (p : Point2d) : isNear p p := by
  rw [isNear, sub_self, sub_self, mul_zero, add_zero, decide_eq_true_iff, TOL]
  positivity

theorem isNear_comm (p q : Point2d) : isNear p q = isNear q p := by
  rw [isNear, isNear]
  congr 2
  ring

/-- How many ends of the edge are at the point. -/
def TopologyEdge.endsAt (e : TopologyEdge) (p : Point2d) : ℕ := [e.startPoint, e.endPoint].count p

theorem TopologyEdge.endsAt_eq (e : TopologyEdge) (forward : Bool) (p : Point2d) :
    e.endsAt p = [e.tail forward, e.head forward].count p := by
  cases forward
  · exact (List.Perm.swap _ _ _).count_eq p
  · rfl

namespace SketchTopology

variable {t : SketchTopology} {origin cursor p : Point2d} {visited visited' : List Bool} {i j : ℕ}
  {found : List Bool × List SketchLoop} {taken : List ℕ} {path : List (ℕ × Bool)}

/-! ## What a walk returns -/

/-- The edges lead from one point to the other, each traversed as its flag says. -/
def Leads (t : SketchTopology) : Point2d → List (ℕ × Bool) → Point2d → Prop
  | cursor, [], origin => isNear cursor origin
  | cursor, (i, forward) :: path, origin =>
    isNear (t.edges[i]!.tail forward) cursor ∧ t.Leads (t.edges[i]!.head forward) path origin

/-- A loop leads from the head of its first edge back to its tail. -/
def IsClosed (t : SketchTopology) (l : SketchLoop) : Prop :=
  l.orientations.length = l.edges.length ∧ ∃ i forward path,
    l.edges.zip l.orientations = (i, forward) :: path ∧
      t.Leads (t.edges[i]!.head forward) path (t.edges[i]!.tail forward)

/-- Marking takes up exactly the edges `taken`, none of which was marked. -/
structure Marks (t : SketchTopology) (visited : List Bool) (taken : List ℕ)
    (visited' : List Bool) : Prop where
  length_eq : visited'.length = visited.length
  nodup : taken.Nodup
  fresh : ∀ i ∈ taken, i < t.edges.length ∧ visited[i]! = false
  marked : ∀ i, visited'[i]! = true ↔ visited[i]! = true ∨ i ∈ taken

theorem getElem!_set (hi : i < visited.length) (j : ℕ) :
    (visited.set i true)[j]! = true ↔ visited[j]! = true ∨ j = i := by
  rw [List.getElem!_eq_getElem?_getD, List.getElem!_eq_getElem?_getD, List.getElem?_set]
  by_cases hij : i = j
  · subst hij
    simp [hi]
  · simp [hij, Ne.symm hij]

theorem Marks.single (hlength : visited.length = t.edges.length) (hi : i < t.edges.length)
    (hfresh : visited[i]! = false) : t.Marks visited [i] (visited.set i true) where
  length_eq := List.length_set
  nodup := List.nodup_singleton i
  fresh j hj := List.mem_singleton.mp hj ▸ ⟨hi, hfresh⟩
  marked j := by rw [getElem!_set (hlength ▸ hi), List.mem_singleton]

theorem Marks.append {visited'' : List Bool} {taken more : List ℕ}
    (h : t.Marks visited taken visited') (h' : t.Marks visited' more visited'') :
    t.Marks visited (taken ++ more) visited'' where
  length_eq := h'.length_eq.trans h.length_eq
  nodup := by
    refine h.nodup.append h'.nodup fun i hi hmore ↦ ?_
    have hfresh := (h'.fresh i hmore).2
    rw [(h.marked i).mpr (Or.inr hi)] at hfresh
    cases hfresh
  fresh i hi := by
    rcases List.mem_append.mp hi with hi | hi
    · exact h.fresh i hi
    · obtain ⟨hlt, hfresh⟩ := h'.fresh i hi
      refine ⟨hlt, Bool.eq_false_iff.mpr fun hmarked ↦ ?_⟩
      rw [(h.marked i).mpr (Or.inl hmarked)] at hfresh
      cases hfresh
  marked i := by rw [h'.marked, h.marked, List.mem_append, or_assoc]

theorem nextEdge_eq_some {forward : Bool} (h : t.nextEdge visited cursor = some (i, forward)) :
    i < t.edges.length ∧ visited[i]! = false ∧ isNear (t.edges[i]!.tail forward) cursor := by
  obtain ⟨⟨edge, k⟩, hmem, hedge⟩ := List.exists_of_findSome?_eq_some h
  obtain ⟨hk, hget⟩ := List.mem_zipIdx' hmem
  rw [← getElem!_pos t.edges k hk] at hget
  subst hget
  dsimp only at hedge
  split_ifs at hedge with hvisited hstart hend <;> cases hedge
  · exact ⟨hk, Bool.eq_false_iff.mpr hvisited, hstart⟩
  · exact ⟨hk, Bool.eq_false_iff.mpr hvisited, hend⟩

/-- **What a walk returns** are edges that were not used, in a chain back to its start. -/
theorem walk_eq_some {room : ℕ} {path path' : List (ℕ × Bool)}
    (hlength : visited.length = t.edges.length)
    (h : t.walk origin room visited cursor path = some (path', visited')) :
    ∃ more, path' = path ++ more ∧ t.Leads cursor more origin ∧
      t.Marks visited (more.map Prod.fst) visited' := by
  induction room generalizing visited cursor path with
  | zero =>
    rw [walk] at h
    split_ifs at h with hnear
    · cases h
      exact ⟨[], (List.append_nil _).symm, hnear, rfl, List.nodup_nil, by simp, by simp⟩
    · split at h <;> cases h
  | succ room ih =>
    rw [walk] at h
    split_ifs at h with hnear
    · cases h
      exact ⟨[], (List.append_nil _).symm, hnear, rfl, List.nodup_nil, by simp, by simp⟩
    · split at h
      · cases h
      · rename_i k forward hnext
        obtain ⟨hk, hfresh, htail⟩ := nextEdge_eq_some hnext
        have hmark := Marks.single hlength hk hfresh
        obtain ⟨more, rfl, hleads, hmarks⟩ := ih (hmark.length_eq.trans hlength) h
        exact ⟨(k, forward) :: more, List.append_assoc .., ⟨htail, hleads⟩, hmark.append hmarks⟩

theorem findLoopFromEdge_eq_some
    (hlength : visited.length = t.edges.length) (hi : i < t.edges.length)
    (hfresh : visited[i]! = false) (h : t.findLoopFromEdge i visited = some (path, visited')) :
    t.IsClosed (t.walkedLoop path) ∧ t.Marks visited (t.walkedLoop path).edges visited' := by
  have hmark := Marks.single hlength hi hfresh
  obtain ⟨more, rfl, hleads, hmarks⟩ := walk_eq_some (hmark.length_eq.trans hlength) h
  refine ⟨⟨?_, i, true, more, ?_, hleads⟩, hmark.append hmarks⟩
  · rw [walkedLoop, List.length_map, List.length_map]
  · rw [walkedLoop, List.zip_map', List.map_id']
    rfl

/-! ## What the search keeps -/

/-- The loops found so far are closed, and their edges are those marked, each once. -/
structure Found (t : SketchTopology) (found : List Bool × List SketchLoop) : Prop where
  length_eq : found.1.length = t.edges.length
  closed : ∀ l ∈ found.2, t.IsClosed l
  marks : t.Marks (List.replicate t.edges.length false) (found.2.flatMap (·.edges)) found.1

theorem Found.extend {l : SketchLoop} (h : t.Found found)
    (hclosed : t.IsClosed l) (hmarks : t.Marks found.1 l.edges visited') :
    t.Found (visited', found.2 ++ [l]) where
  length_eq := hmarks.length_eq.trans h.length_eq
  closed l' hl' := by
    rcases List.mem_append.mp hl' with hl' | hl'
    · exact h.closed l' hl'
    · exact List.mem_singleton.mp hl' ▸ hclosed
  marks := by
    rw [List.flatMap_append, List.flatMap_singleton]
    exact h.marks.append hmarks

/-- **A start edge** is used already, is a loop of its own, or is walked from. -/
theorem tryEdge_cases (h : t.Found found) (hi : i < t.edges.length) :
    (t.tryEdge found i = found ∧
        (found.1[i]! = true ∨ t.findLoopFromEdge i found.1 = none)) ∨
      found.1[i]! = false ∧ ∃ visited l, t.tryEdge found i = (visited, found.2 ++ [l]) ∧
        t.IsClosed l ∧ t.Marks found.1 l.edges visited ∧ i ∈ l.edges := by
  rw [tryEdge]
  split_ifs with hvisited hclosed
  · exact Or.inl ⟨rfl, Or.inl hvisited⟩
  · rw [Bool.not_eq_true] at hvisited
    refine Or.inr ⟨hvisited, _, _, rfl, ⟨rfl, i, true, [], rfl, ?_⟩,
      Marks.single h.length_eq hi hvisited, List.mem_singleton_self i⟩
    exact (isNear_comm _ _).trans hclosed
  · rw [Bool.not_eq_true] at hvisited
    cases hwalk : t.findLoopFromEdge i found.1 with
    | none => exact Or.inl ⟨rfl, Or.inr rfl⟩
    | some walked =>
      obtain ⟨path, visited⟩ := walked
      obtain ⟨hclosed, hmarks⟩ := findLoopFromEdge_eq_some h.length_eq hi hvisited hwalk
      refine Or.inr ⟨hvisited, visited, _, rfl, hclosed, hmarks, ?_⟩
      obtain ⟨more, rfl, -⟩ := walk_eq_some (List.length_set.trans h.length_eq) hwalk
      exact List.mem_cons_self

theorem foldl_tryEdge_found (l : List ℕ) (hl : ∀ i ∈ l, i < t.edges.length) (h : t.Found found) :
    t.Found (l.foldl t.tryEdge found) := by
  induction l generalizing found with
  | nil => exact h
  | cons i l ih =>
    refine ih (fun j hj ↦ hl j (List.mem_cons_of_mem _ hj)) ?_
    obtain ⟨heq, -⟩ | ⟨-, visited, loop, heq, hclosed, hmarks, -⟩ :=
      tryEdge_cases h (hl i List.mem_cons_self)
    · rwa [heq]
    · rw [heq]
      exact h.extend hclosed hmarks

theorem found_start : t.Found (List.replicate t.edges.length false, []) where
  length_eq := List.length_replicate
  closed := nofun
  marks := ⟨rfl, List.nodup_nil, nofun, fun _ ↦ (or_iff_left List.not_mem_nil).symm⟩

/-- **Every loop found is a closed chain**, and no edge is used twice, in one loop or in two. -/
theorem findLoops_closed (t : SketchTopology) : (∀ l ∈ t.findLoops.loops, t.IsClosed l) ∧
    (t.findLoops.loops.flatMap (·.edges)).Nodup ∧
    ∀ i ∈ t.findLoops.loops.flatMap (·.edges), i < t.edges.length := by
  have h := foldl_tryEdge_found (List.range t.edges.length) (fun i hi ↦ List.mem_range.mp hi)
    found_start
  exact ⟨h.closed, h.marks.nodup, fun i hi ↦ (h.marks.fresh i hi).1⟩

/-! ## When every edge is in a loop -/

/-- A point where an edge ends. -/
def IsEnd (t : SketchTopology) (p : Point2d) : Prop :=
  ∃ i < t.edges.length, ∃ forward, t.edges[i]!.head forward = p

/-- The end points of the edges are equal or apart. -/
def Separated (t : SketchTopology) : Prop :=
  ∀ i < t.edges.length, ∀ j < t.edges.length, ∀ b b',
    isNear (t.edges[i]!.head b) (t.edges[j]!.head b') → t.edges[i]!.head b = t.edges[j]!.head b'

theorem Separated.eq {q : Point2d} (h : t.Separated) (hp : t.IsEnd p) (hq : t.IsEnd q)
    (hnear : isNear p q) : p = q := by
  obtain ⟨i, hi, b, rfl⟩ := hp
  obtain ⟨j, hj, b', rfl⟩ := hq
  exact h i hi j hj b b' hnear

/-- How many edge ends meet at the point. -/
def degree (t : SketchTopology) (p : Point2d) : ℕ :=
  ∑ i ∈ Finset.range t.edges.length, t.edges[i]!.endsAt p

def unused (t : SketchTopology) (visited : List Bool) : Finset ℕ :=
  {i ∈ Finset.range t.edges.length | visited[i]! = false}

/-- How many ends of edges not used meet at the point. -/
def openEnds (t : SketchTopology) (visited : List Bool) (p : Point2d) : ℕ :=
  ∑ i ∈ t.unused visited, t.edges[i]!.endsAt p

theorem mem_unused : i ∈ t.unused visited ↔ i < t.edges.length ∧ visited[i]! = false := by
  rw [unused, Finset.mem_filter, Finset.mem_range]

theorem Marks.unused_eq (h : t.Marks visited taken visited') :
    t.unused visited = t.unused visited' ∪ taken.toFinset := by
  ext i
  rw [Finset.mem_union, mem_unused, mem_unused, List.mem_toFinset, ← Bool.not_eq_true,
    ← Bool.not_eq_true, h.marked]
  constructor
  · rintro ⟨hi, hfresh⟩
    by_cases htaken : i ∈ taken
    · exact Or.inr htaken
    · exact Or.inl ⟨hi, fun hmarked ↦ hmarked.elim hfresh htaken⟩
  · rintro (⟨hi, hfresh⟩ | htaken)
    · exact ⟨hi, fun hmarked ↦ hfresh (Or.inl hmarked)⟩
    · obtain ⟨hi, hfresh⟩ := h.fresh i htaken
      exact ⟨hi, Bool.eq_false_iff.mp hfresh⟩

theorem Marks.disjoint (h : t.Marks visited taken visited') :
    Disjoint (t.unused visited') taken.toFinset := by
  refine Finset.disjoint_left.mpr fun i hi htaken ↦ ?_
  rw [mem_unused, ← Bool.not_eq_true, h.marked] at hi
  exact hi.2 (Or.inr (List.mem_toFinset.mp htaken))

/-- Marking takes away the ends of the edges marked. -/
theorem Marks.openEnds_eq (h : t.Marks visited taken visited') (p : Point2d) :
    t.openEnds visited p =
      t.openEnds visited' p + (taken.map fun i ↦ t.edges[i]!.endsAt p).sum := by
  rw [openEnds, h.unused_eq, Finset.sum_union h.disjoint, List.sum_toFinset _ h.nodup, openEnds]

theorem Marks.card_unused (h : t.Marks visited taken visited') :
    (t.unused visited).card = (t.unused visited').card + taken.length := by
  rw [h.unused_eq, Finset.card_union_of_disjoint h.disjoint, List.toFinset_card_of_nodup h.nodup]

/-! ### Parity along a chain -/

theorem isEnd_head (hi : i < t.edges.length) (forward : Bool) :
    t.IsEnd (t.edges[i]!.head forward) :=
  ⟨i, hi, forward, rfl⟩

theorem isEnd_tail (hi : i < t.edges.length) (forward : Bool) :
    t.IsEnd (t.edges[i]!.tail forward) :=
  ⟨i, hi, !forward, by cases forward <;> rfl⟩

/-- **A chain uses an even number of edge ends at every point**, its own two ends left out. -/
theorem Leads.even (hsep : t.Separated) (horigin : t.IsEnd origin)
    (hcursor : t.IsEnd cursor) (hpath : ∀ i ∈ path.map Prod.fst, i < t.edges.length)
    (h : t.Leads cursor path origin) (p : Point2d) :
    Even (((path.map Prod.fst).map fun i ↦ t.edges[i]!.endsAt p).sum +
      [cursor, origin].count p) := by
  induction path generalizing cursor with
  | nil =>
    obtain rfl := hsep.eq hcursor horigin h
    rw [Nat.even_iff]
    simp only [List.map_nil, List.sum_nil, List.count_cons, List.count_nil]
    omega
  | cons step path ih =>
    obtain ⟨i, forward⟩ := step
    have hi : i < t.edges.length := hpath i List.mem_cons_self
    obtain rfl := hsep.eq (isEnd_tail hi forward) hcursor h.1
    have hrest := ih (isEnd_head hi forward) (fun j hj ↦ hpath j (List.mem_cons_of_mem _ hj)) h.2
    rw [List.map_cons, List.map_cons, List.sum_cons, TopologyEdge.endsAt_eq _ forward]
    rw [Nat.even_iff] at hrest ⊢
    simp only [List.count_cons, List.count_nil] at hrest ⊢
    omega

theorem IsClosed.even (hsep : t.Separated) {l : SketchLoop} (h : t.IsClosed l)
    (hl : ∀ i ∈ l.edges, i < t.edges.length) (p : Point2d) :
    Even ((l.edges.map fun i ↦ t.edges[i]!.endsAt p).sum) := by
  obtain ⟨hlength, i, forward, path, hzip, hleads⟩ := h
  have hedges : l.edges = i :: path.map Prod.fst := by
    rw [← List.map_fst_zip hlength.ge, hzip, List.map_cons]
  rw [hedges] at hl ⊢
  have hi := hl i List.mem_cons_self
  have hrest := hleads.even hsep (isEnd_tail hi forward) (isEnd_head hi forward)
    (fun j hj ↦ hl j (List.mem_cons_of_mem _ hj)) p
  rw [List.map_cons, List.sum_cons, TopologyEdge.endsAt_eq _ forward]
  rw [Nat.even_iff] at hrest ⊢
  simp only [List.count_cons, List.count_nil] at hrest ⊢
  omega

/-! ### A walk that does not fail -/

theorem nextEdge_ne_none (h : 0 < t.openEnds visited cursor) :
    t.nextEdge visited cursor ≠ none := by
  intro hnone
  obtain ⟨i, hi, hpos⟩ := Finset.exists_ne_zero_of_sum_ne_zero h.ne'
  obtain ⟨hlt, hfresh⟩ := mem_unused.mp hi
  have hedge := List.findSome?_eq_none_iff.mp hnone (t.edges[i], i)
    (List.mk_mem_zipIdx_iff_getElem?.mpr (List.getElem?_eq_getElem hlt))
  rw [getElem!_pos t.edges i hlt] at hpos
  simp only [hfresh, Bool.false_eq_true, if_false] at hedge
  split_ifs at hedge with hstart hend
  refine hpos (List.count_eq_zero.mpr fun hmem ↦ ?_)
  rcases List.mem_pair.mp hmem with rfl | rfl
  · exact hstart (isNear_self _)
  · exact hend (isNear_self _)

/-- Away from its start a walk is at a point with an unused edge end. -/
theorem openEnds_pos (heven : ∀ p, Even (t.openEnds visited p + [cursor, origin].count p))
    (hnear : ¬ isNear cursor origin) : 0 < t.openEnds visited cursor := by
  have hne : origin ≠ cursor := by
    rintro rfl
    exact hnear (isNear_self _)
  have hcursor := heven cursor
  rw [List.count_cons_self, List.count_singleton, if_neg (by simpa using hne), Nat.even_iff]
    at hcursor
  omega

/-- **A walk comes back to its start** where start and cursor alone have an odd number of unused
ends. -/
theorem walk_ne_none (hsep : t.Separated) {room : ℕ}
    (hlength : visited.length = t.edges.length) (hcursor : t.IsEnd cursor)
    (heven : ∀ p, Even (t.openEnds visited p + [cursor, origin].count p))
    (hroom : (t.unused visited).card ≤ room) :
    t.walk origin room visited cursor path ≠ none := by
  induction room generalizing visited cursor path with
  | zero =>
    have hnear : isNear cursor origin := by
      by_contra hnear
      have hpos := openEnds_pos heven hnear
      rw [openEnds, Finset.card_eq_zero.mp (Nat.le_zero.mp hroom), Finset.sum_empty] at hpos
      exact hpos.false
    rw [walk, if_pos hnear]
    exact Option.some_ne_none _
  | succ room ih =>
    rw [walk]
    split_ifs with hnear
    · exact Option.some_ne_none _
    obtain ⟨⟨i, forward⟩, hnext⟩ :=
      Option.ne_none_iff_exists'.mp (nextEdge_ne_none (openEnds_pos heven hnear))
    obtain ⟨hi, hfresh, htail⟩ := nextEdge_eq_some hnext
    have hmark := Marks.single hlength hi hfresh
    rw [hnext]
    refine ih (hmark.length_eq.trans hlength) (isEnd_head hi forward) (fun p ↦ ?_) ?_
    · have hp := heven p
      obtain rfl := hsep.eq (isEnd_tail hi forward) hcursor htail
      rw [hmark.openEnds_eq, List.map_singleton, List.sum_singleton,
        TopologyEdge.endsAt_eq _ forward] at hp
      rw [Nat.even_iff] at hp ⊢
      simp only [List.count_cons, List.count_nil] at hp ⊢
      omega
    · rw [hmark.card_unused, List.length_singleton] at hroom
      exact Nat.le_of_succ_le_succ hroom

theorem findLoopFromEdge_ne_none (hsep : t.Separated) (hlength : visited.length = t.edges.length)
    (hi : i < t.edges.length) (hfresh : visited[i]! = false)
    (heven : ∀ p, Even (t.openEnds visited p)) : t.findLoopFromEdge i visited ≠ none := by
  have hmark := Marks.single hlength hi hfresh
  refine walk_ne_none hsep (hmark.length_eq.trans hlength) (isEnd_head hi true) (fun p ↦ ?_) ?_
  · have hp := heven p
    rw [hmark.openEnds_eq, List.map_singleton, List.sum_singleton,
      TopologyEdge.endsAt_eq _ false] at hp
    exact hp
  · have hcard := hmark.card_unused
    have hle : (t.unused visited).card ≤ t.edges.length :=
      (Finset.card_filter_le _ _).trans (Finset.card_range _).le
    rw [List.length_singleton] at hcard
    omega

/-! ### The search as a whole -/

/-- A search that has used an even number of edge ends at every point does not pass an edge over. -/
theorem foldl_tryEdge_covers (hsep : t.Separated) (l : List ℕ)
    (hl : ∀ i ∈ l, i < t.edges.length) (h : t.Found found)
    (heven : ∀ p, Even (t.openEnds found.1 p)) :
    ∀ i, found.1[i]! = true ∨ i ∈ l → (l.foldl t.tryEdge found).1[i]! = true := by
  induction l generalizing found with
  | nil => exact fun i hi ↦ hi.resolve_right List.not_mem_nil
  | cons j l ih =>
    have hj := hl j List.mem_cons_self
    have hrest := fun k hk ↦ hl k (List.mem_cons_of_mem j hk)
    rw [List.foldl_cons]
    obtain ⟨heq, hused⟩ | ⟨hfresh, visited, loop, heq, hclosed, hmarks, hmem⟩ :=
      tryEdge_cases h hj
    · have hvisited : found.1[j]! = true := by
        by_contra hfresh
        rw [Bool.not_eq_true] at hfresh
        exact findLoopFromEdge_ne_none hsep h.length_eq hj hfresh heven
          (hused.resolve_left (by rw [hfresh]; exact Bool.false_ne_true))
      rw [heq]
      rintro i (hi | hi)
      · exact ih hrest h heven i (Or.inl hi)
      · rcases List.mem_cons.mp hi with rfl | hi
        · exact ih hrest h heven i (Or.inl hvisited)
        · exact ih hrest h heven i (Or.inr hi)
    · rw [heq]
      have heven' : ∀ p, Even (t.openEnds visited p) := fun p ↦ by
        have hp := heven p
        rw [hmarks.openEnds_eq, Nat.even_add] at hp
        exact hp.mpr (hclosed.even hsep (fun i hi ↦ (hmarks.fresh i hi).1) p)
      rintro i (hi | hi)
      · exact ih hrest (h.extend hclosed hmarks) heven' i
          (Or.inl ((hmarks.marked i).mpr (Or.inl hi)))
      · rcases List.mem_cons.mp hi with rfl | hi
        · exact ih hrest (h.extend hclosed hmarks) heven' i
            (Or.inl ((hmarks.marked i).mpr (Or.inr hmem)))
        · exact ih hrest (h.extend hclosed hmarks) heven' i (Or.inr hi)

theorem degree_eq (p : Point2d) :
    t.degree p = t.openEnds (List.replicate t.edges.length false) p := by
  rw [degree, openEnds]
  congr 1
  ext i
  rw [mem_unused, Finset.mem_range, iff_self_and]
  exact fun hi ↦ by rw [getElem!_pos _ _ (by simpa using hi), List.getElem_replicate]

theorem even_flatMap (hsep : t.Separated) {loops : List SketchLoop}
    (hclosed : ∀ l ∈ loops, t.IsClosed l)
    (hlt : ∀ i ∈ loops.flatMap (·.edges), i < t.edges.length) (p : Point2d) :
    Even (((loops.flatMap (·.edges)).map fun i ↦ t.edges[i]!.endsAt p).sum) := by
  induction loops with
  | nil => exact Even.zero
  | cons l loops ih =>
    rw [List.flatMap_cons, List.map_append, List.sum_append]
    rw [List.flatMap_cons] at hlt
    exact ((hclosed l List.mem_cons_self).even hsep
      (fun i hi ↦ hlt i (List.mem_append_left _ hi)) p).add
        (ih (fun l' hl' ↦ hclosed l' (List.mem_cons_of_mem _ hl'))
          fun i hi ↦ hlt i (List.mem_append_right _ hi))

/-- **Every edge is in a loop exactly when no odd number of edge ends meet** anywhere. -/
theorem findLoops_covers_iff (hsep : t.Separated) :
    (∀ i < t.edges.length, i ∈ t.findLoops.loops.flatMap (·.edges)) ↔ ∀ p, Even (t.degree p) := by
  have hrange : ∀ i ∈ List.range t.edges.length, i < t.edges.length := fun i ↦ List.mem_range.mp
  have h := foldl_tryEdge_found _ hrange (found_start (t := t))
  constructor
  · intro hcovers p
    have hnone : t.unused ((List.range t.edges.length).foldl t.tryEdge
        (List.replicate t.edges.length false, [])).1 = ∅ := by
      refine Finset.eq_empty_of_forall_notMem fun i hi ↦ ?_
      obtain ⟨hlt, hfresh⟩ := mem_unused.mp hi
      rw [(h.marks.marked i).mpr (Or.inr (hcovers i hlt))] at hfresh
      cases hfresh
    rw [degree_eq, h.marks.openEnds_eq, openEnds, hnone, Finset.sum_empty, Nat.zero_add]
    exact even_flatMap hsep h.closed (fun i hi ↦ (h.marks.fresh i hi).1) p
  · intro heven i hi
    have hmarked := foldl_tryEdge_covers hsep _ hrange found_start
      (fun p ↦ degree_eq (t := t) p ▸ heven p) i (Or.inr (List.mem_range.mpr hi))
    refine ((h.marks.marked i).mp hmarked).resolve_left ?_
    rw [getElem!_pos _ _ (by simpa using hi), List.getElem_replicate]
    exact Bool.false_ne_true

/-- A square in a square has no odd corner. -/
theorem findLoops_covers_frame : frame.Separated ∧ ∀ p, Even (frame.degree p) := by
  have hsep : frame.Separated := by
    unfold Separated
    decide +kernel
  exact ⟨hsep, (findLoops_covers_iff hsep).mp (by decide +kernel)⟩

end SketchTopology

end Sketch

end RosheraCad
