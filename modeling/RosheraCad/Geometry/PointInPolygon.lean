import RosheraCad.Geometry.CircularOrder

/-!
# Points in polygons

The test counts the edges that the ray to the right of the point crosses. Off the boundary the
parity of the count is that of the winding number. On the boundary the answer is the one for the
points just to the right, and a little higher.
-/

namespace RosheraCad

def crossesRight (orient2d : Vector2 → Vector2 → Vector2 → Orientation) (p a b : Vector2) : Bool :=
  if decide (a.y > p.y) != decide (b.y > p.y) then
    let upward : Bool := b.y > a.y
    match orient2d a b p with
    | .counterClockwise => upward
    | .clockwise => !upward
    | .collinear => false
  else false

/-- Shared exact even-odd test, the vertices given by their positions. -/
def pointInPolygon2dBy (orient2d : Vector2 → Vector2 → Vector2 → Orientation) (n : ℕ)
    (vertex : ℕ → Vector2) (px py : ℚ) : Bool :=
  if n < 3 then false
  else
    let p : Vector2 := ⟨px, py⟩
    (List.range n).foldl (fun inside i ↦
      if crossesRight orient2d p (vertex i) (vertex ((i + 1) % n)) then !inside else inside) false

/-- Exact even-odd test of a polygon that is closed implicitly. -/
def pointInPolygon2d (orient2d : Vector2 → Vector2 → Vector2 → Orientation) (p : Vector2)
    (poly : List Vector2) : Bool :=
  pointInPolygon2dBy orient2d poly.length (poly[·]!) p.x p.y

/-! ## The edges, and the parity of the crossings -/

def sides {α : Type*} (poly : List α) : List (α × α) := poly.zip (poly.rotate 1)

theorem map_range_sides (poly : List Vector2) :
    ((List.range poly.length).map fun i ↦ (poly[i]!, poly[(i + 1) % poly.length]!)) =
      sides poly := by
  refine List.ext_getElem (by simp [sides]) fun i hi hi' ↦ ?_
  have hlt : i < poly.length := by simpa using hi
  have hmod : (i + 1) % poly.length < poly.length := Nat.mod_lt _ (by omega)
  simp [sides, List.getElem_rotate, List.getElem?_eq_getElem hlt, List.getElem?_eq_getElem hmod]

theorem foldl_toggle {α : Type*} (c : α → Bool) (l : List α) (inside : Bool) :
    l.foldl (fun inside a ↦ if c a then !inside else inside) inside =
      (inside != decide (Odd (l.countP c))) := by
  induction l generalizing inside with
  | nil => simp
  | cons a l ih =>
    rw [List.foldl_cons, ih, List.countP_cons]
    by_cases hodd : Odd (l.countP c) <;> cases c a <;> cases inside <;>
      simp [Nat.odd_add_one, hodd]

variable {orient2d : Vector2 → Vector2 → Vector2 → Orientation} {p a b : Vector2}
  {poly : List Vector2}

theorem crossesRight_iff (hexact : Exact2d orient2d) : crossesRight orient2d p a b ↔
    (a.y ≤ p.y ∧ p.y < b.y ∧ 0 < orientDet a b p) ∨
      (b.y ≤ p.y ∧ p.y < a.y ∧ orientDet a b p < 0) := by
  rw [crossesRight, hexact, orientationOf]
  by_cases ha : p.y < a.y <;> by_cases hb : p.y < b.y
  · simp [ha, hb, ha.not_ge, hb.not_ge]
  · have hdown : ¬ b.y > a.y := fun h ↦ hb (ha.trans h)
    rcases lt_trichotomy (orientDet a b p) 0 with hlt | heq | hgt
    · simp [ha, hb, hdown, hlt, hlt.not_gt, not_lt.mp hb]
    · simp [ha, hb, heq]
    · simp [ha, hb, hdown, hgt, hgt.not_gt]
  · have hup : b.y > a.y := (not_lt.mp ha).trans_lt hb
    rcases lt_trichotomy (orientDet a b p) 0 with hlt | heq | hgt
    · simp [ha, hb, hup, hlt, hlt.not_gt]
    · simp [ha, hb, heq]
    · simp [ha, hb, hup, hgt, not_lt.mp ha]
  · simp [ha, hb]

theorem orientDet_swap (a b p : Vector2) : orientDet b a p = -orientDet a b p := by
  rw [orientDet, orientDet]
  ring

theorem crossesRight_swap (hexact : Exact2d orient2d) :
    crossesRight orient2d p b a = crossesRight orient2d p a b := by
  rw [Bool.eq_iff_iff, crossesRight_iff hexact, crossesRight_iff hexact, orientDet_swap, neg_pos,
    neg_lt_zero, or_comm]

def crossings (orient2d : Vector2 → Vector2 → Vector2 → Orientation) (p : Vector2)
    (poly : List Vector2) : ℕ :=
  (sides poly).countP fun e ↦ crossesRight orient2d p e.1 e.2

theorem pointInPolygon2d_iff (hexact : Exact2d orient2d) :
    pointInPolygon2d orient2d p poly ↔ Odd (crossings orient2d p poly) := by
  rw [pointInPolygon2d, pointInPolygon2dBy]
  split
  next hshort =>
    refine iff_of_false Bool.false_ne_true (Nat.not_odd_iff_even.mpr ?_)
    match poly, hshort with
    | [], _ => exact Even.zero
    | [a], _ =>
      have hnot : crossesRight orient2d p a a = false := by
        rw [Bool.eq_false_iff, Ne, crossesRight_iff hexact]
        rintro (⟨hle, hlt, -⟩ | ⟨hle, hlt, -⟩) <;> exact hle.not_gt hlt
      simp [crossings, sides, hnot]
    | [a, b], _ =>
      have hswap := crossesRight_swap hexact (p := p) (a := a) (b := b)
      cases hcross : crossesRight orient2d p a b <;> simp [crossings, sides, hcross, hswap]
  next =>
    have hfold := foldl_toggle (fun e : Vector2 × Vector2 ↦ crossesRight orient2d p e.1 e.2)
      ((List.range poly.length).map fun i ↦ (poly[i]!, poly[(i + 1) % poly.length]!)) false
    rw [List.foldl_map, map_range_sides] at hfold
    rw [hfold, Bool.false_bne, decide_eq_true_iff, crossings]

/-! ## Starting elsewhere, and going round the other way -/

theorem sides_rotate {α : Type*} (poly : List α) (k : ℕ) :
    sides (poly.rotate k) = (sides poly).rotate k := by
  rw [sides, sides, List.rotate_rotate, add_comm, ← List.rotate_rotate]
  exact (List.zipWith_rotate_distrib Prod.mk poly (poly.rotate 1) k
    (List.length_rotate ..).symm).symm

theorem sides_reverse_perm {α : Type*} (poly : List α) :
    (sides poly.reverse).Perm ((sides poly).map Prod.swap) := by
  have hback : (poly.rotate 1).rotate (poly.length - 1 % poly.length) = poly := by
    rcases Nat.lt_or_ge 1 poly.length with hlt | hle
    · rw [List.rotate_rotate, Nat.mod_eq_of_lt hlt, Nat.add_sub_cancel' hlt.le,
        List.rotate_length]
    · match poly, hle with
      | [], _ => rfl
      | [_], _ => simp
  have hreverse : sides poly.reverse =
      (poly.zip (poly.rotate (poly.length - 1 % poly.length))).reverse := by
    rw [sides, List.rotate_reverse]
    exact (List.reverse_zipWith (List.length_rotate ..).symm).symm
  have hswap : (poly.zip (poly.rotate (poly.length - 1 % poly.length))) =
      ((sides poly).map Prod.swap).rotate (poly.length - 1 % poly.length) := by
    rw [sides, List.zip_swap]
    refine Eq.trans ?_ (List.zipWith_rotate_distrib Prod.mk (poly.rotate 1) poly _
      (List.length_rotate ..)).symm
    exact congrArg₂ List.zip hback.symm rfl
  rw [hreverse, hswap]
  exact (List.reverse_perm _).trans (List.rotate_perm _ _)

theorem crossings_rotate (k : ℕ) :
    crossings orient2d p (poly.rotate k) = crossings orient2d p poly := by
  rw [crossings, sides_rotate]
  exact (List.rotate_perm _ _).countP_eq _

theorem crossings_reverse (hexact : Exact2d orient2d) :
    crossings orient2d p poly.reverse = crossings orient2d p poly := by
  rw [crossings, (sides_reverse_perm poly).countP_eq, List.countP_map, crossings]
  exact congrArg (List.countP · (sides poly)) (funext fun e ↦ crossesRight_swap hexact)

/-! ## Winding -/

attribute [local instance] Polar.atLeastTwo_two

def seenFrom (p v : Vector2) : ℂ := (⟨v.x - p.x, v.y - p.y⟩ : Vector2).toComplex

noncomputable def turning (p : Vector2) (poly : List Vector2) : ℝ :=
  ((sides poly).map fun e ↦ Complex.arg (seenFrom p e.2 / seenFrom p e.1)).sum

/-- The polygon winds this often around the point, counter-clockwise. -/
def Winds (poly : List Vector2) (p : Vector2) (n : ℤ) : Prop :=
  turning p poly = n * (2 * Real.pi)

def OnSegment (p a b : Vector2) : Prop :=
  ∃ t : ℚ, 0 ≤ t ∧ t ≤ 1 ∧ p = ⟨a.x + t * (b.x - a.x), a.y + t * (b.y - a.y)⟩

def OnBoundary (poly : List Vector2) (p : Vector2) : Prop := ∃ e ∈ sides poly, OnSegment p e.1 e.2

theorem cross_seenFrom (p a b : Vector2) :
    Polar.cross (seenFrom p a) (seenFrom p b) = (orientDet a b p : ℚ) := by
  rw [seenFrom, seenFrom, Vector2.cross_toComplex]
  rfl

theorem dot_seenFrom (p a b : Vector2) : Polar.dot (seenFrom p a) (seenFrom p b) =
    ((a.x - p.x) * (b.x - p.x) + (a.y - p.y) * (b.y - p.y) : ℚ) := by
  rw [Polar.dot]
  push_cast
  simp [seenFrom]

theorem onSegment_of_opposite (hdet : orientDet a b p = 0)
    (hdot : (a.x - p.x) * (b.x - p.x) + (a.y - p.y) * (b.y - p.y) ≤ 0) : OnSegment p a b := by
  obtain ⟨px, py⟩ := p
  obtain ⟨ax, ay⟩ := a
  obtain ⟨bx, by'⟩ := b
  simp only [orientDet] at hdet hdot ⊢
  rcases (add_nonneg (sq_nonneg (bx - ax)) (sq_nonneg (by' - ay))).lt_or_eq with hpos | hzero
  · -- The foot of the perpendicular is the point itself.
    refine ⟨((px - ax) * (bx - ax) + (py - ay) * (by' - ay)) / ((bx - ax) ^ 2 + (by' - ay) ^ 2),
      div_nonneg ?_ hpos.le, (div_le_one hpos).mpr ?_, ?_⟩
    · nlinarith [sq_nonneg (ax - px), sq_nonneg (ay - py)]
    · nlinarith [sq_nonneg (bx - px), sq_nonneg (by' - py)]
    · congr 1
      · rw [eq_comm, ← sub_eq_zero, div_mul_eq_mul_div, add_sub_right_comm,
          add_div_eq_mul_add_div _ _ hpos.ne', div_eq_zero_iff]
        left
        linear_combination (by' - ay) * hdet
      · rw [eq_comm, ← sub_eq_zero, div_mul_eq_mul_div, add_sub_right_comm,
          add_div_eq_mul_add_div _ _ hpos.ne', div_eq_zero_iff]
        left
        linear_combination (ax - bx) * hdet
  · have hx : bx = ax := by nlinarith [sq_nonneg (bx - ax), sq_nonneg (by' - ay)]
    have hy : by' = ay := by nlinarith [sq_nonneg (bx - ax), sq_nonneg (by' - ay)]
    subst hx hy
    have hpx : px = bx := by nlinarith [sq_nonneg (bx - px), sq_nonneg (by' - py)]
    have hpy : py = by' := by nlinarith [sq_nonneg (bx - px), sq_nonneg (by' - py)]
    exact ⟨0, le_rfl, zero_le_one, by rw [hpx, hpy]; simp⟩

theorem seenFrom_ne_zero {v : Vector2} (h : p ≠ v) : seenFrom p v ≠ 0 := by
  refine Vector2.toComplex_ne_zero fun hzero ↦ h ?_
  obtain ⟨px, py⟩ := p
  obtain ⟨x, y⟩ := v
  have hx : x - px = 0 := congrArg Vector2.x hzero
  have hy : y - py = 0 := congrArg Vector2.y hzero
  rw [sub_eq_zero.mp hx, sub_eq_zero.mp hy]

theorem arg_seenFrom (hoff : ¬ OnSegment p a b) :
    Complex.arg (seenFrom p b / seenFrom p a) = Polar.lap (seenFrom p b) -
      Polar.lap (seenFrom p a) + Polar.crossing (seenFrom p a) (seenFrom p b) * (2 * Real.pi) := by
  refine Polar.arg_div_eq_lap (seenFrom_ne_zero ?_) (seenFrom_ne_zero ?_) ?_
  · rintro rfl
    exact hoff ⟨0, le_rfl, zero_le_one, by simp⟩
  · rintro rfl
    exact hoff ⟨1, zero_le_one, le_rfl, by simp⟩
  · rintro ⟨hcross, hdot⟩
    rw [cross_seenFrom, Rat.cast_eq_zero] at hcross
    rw [dot_seenFrom] at hdot
    exact hoff (onSegment_of_opposite hcross (by exact_mod_cast hdot))

theorem sum_sides_sub (f : Vector2 → ℝ) (poly : List Vector2) :
    ((sides poly).map fun e ↦ f e.2 - f e.1).sum = 0 := by
  have hfst : (sides poly).map (fun e ↦ f e.1) = poly.map f := by
    change (sides poly).map (f ∘ Prod.fst) = _
    rw [sides, ← List.map_map, List.map_fst_zip (List.length_rotate ..).ge]
  have hsnd : (sides poly).map (fun e ↦ f e.2) = (poly.rotate 1).map f := by
    change (sides poly).map (f ∘ Prod.snd) = _
    rw [sides, ← List.map_map, List.map_snd_zip (List.length_rotate ..).le]
  have hsum := List.sum_map_add (l := sides poly) (f := fun e ↦ f e.2 - f e.1) (g := fun e ↦ f e.1)
  simp only [sub_add_cancel] at hsum
  rw [hfst, hsnd, ((List.rotate_perm poly 1).map f).sum_eq] at hsum
  exact left_eq_add.mp ((add_comm _ _).trans hsum.symm).symm

theorem crossing_seenFrom (p a b : Vector2) : Polar.crossing (seenFrom p a) (seenFrom p b) =
    if a.y ≤ p.y ∧ p.y < b.y ∧ 0 < orientDet a b p then 1
    else if b.y ≤ p.y ∧ p.y < a.y ∧ orientDet a b p < 0 then -1
    else 0 := by
  have him (v : Vector2) : (seenFrom p v).im = ((v.y - p.y : ℚ) : ℝ) := rfl
  rw [Polar.crossing, cross_seenFrom]
  simp only [him, Rat.cast_nonpos, Rat.cast_pos, Rat.cast_lt_zero, sub_nonpos, sub_pos]

theorem odd_sum_crossing (hexact : Exact2d orient2d) (l : List (Vector2 × Vector2)) :
    Odd (l.map fun e ↦ Polar.crossing (seenFrom p e.1) (seenFrom p e.2)).sum ↔
      Odd (l.countP fun e ↦ crossesRight orient2d p e.1 e.2) := by
  induction l with
  | nil => simp
  | cons e l ih =>
    rw [List.map_cons, List.sum_cons, List.countP_cons]
    have hcrosses := crossesRight_iff hexact (p := p) (a := e.1) (b := e.2)
    have heven := not_congr ih
    rw [Int.not_odd_iff_even, Nat.not_odd_iff_even] at heven
    rw [crossing_seenFrom]
    split
    next hup => simp [hcrosses.mpr (Or.inl hup), Int.odd_add, Nat.odd_add_one, heven]
    next hup =>
      split
      next hdown => simp [hcrosses.mpr (Or.inr hdown), Int.odd_add, Nat.odd_add_one, heven]
      next hdown => simp [mt hcrosses.mp (not_or.mpr ⟨hup, hdown⟩), ih]

theorem winds_of_not_onBoundary (hexact : Exact2d orient2d) (hoff : ¬ OnBoundary poly p) :
    ∃ n : ℤ, Winds poly p n ∧ (pointInPolygon2d orient2d p poly ↔ Odd n) := by
  refine ⟨((sides poly).map fun e ↦ Polar.crossing (seenFrom p e.1) (seenFrom p e.2)).sum, ?_, ?_⟩
  · have hsides : (sides poly).map (fun e ↦ Complex.arg (seenFrom p e.2 / seenFrom p e.1)) =
        (sides poly).map fun e ↦ (Polar.lap (seenFrom p e.2) - Polar.lap (seenFrom p e.1)) +
          Polar.crossing (seenFrom p e.1) (seenFrom p e.2) * (2 * Real.pi) :=
      List.map_congr_left fun e he ↦ arg_seenFrom fun hon ↦ hoff ⟨e, he, hon⟩
    rw [Winds, turning, hsides, List.sum_map_add,
      sum_sides_sub fun v ↦ Polar.lap (seenFrom p v), zero_add, List.sum_map_mul_right]
    congr 1
    have hcast (l : List ℤ) : (l.sum : ℝ) = (l.map (Int.castRingHom ℝ)).sum :=
      map_list_sum (Int.castRingHom ℝ) l
    rw [hcast, List.map_map]
    rfl
  · rw [pointInPolygon2d_iff hexact, odd_sum_crossing hexact, crossings]

/-! ## Just to the right of a point -/

open Filter Topology

def Vector2.shift (p : Vector2) (t s : ℚ) : Vector2 := ⟨p.x + t, p.y + s⟩

theorem eventually_ne (c : ℚ) : ∀ᶠ t in 𝓝[>] (0 : ℚ), t ≠ c := by
  rcases le_or_gt c 0 with hle | hpos
  · filter_upwards [self_mem_nhdsWithin] with t ht
    exact (lt_of_le_of_lt hle ht).ne'
  · filter_upwards [Ioo_mem_nhdsGT hpos] with t ht
    exact ht.2.ne

theorem eventually_mul_lt {d : ℚ} (hd : 0 < d) (k : ℚ) :
    ∀ᶠ s in 𝓝[>] (0 : ℚ), 0 < s ∧ s * k < d := by
  have hk : 0 < |k| + 1 := by positivity
  filter_upwards [Ioo_mem_nhdsGT (div_pos hd hk)] with s hs
  refine ⟨hs.1, ?_⟩
  calc s * k ≤ s * (|k| + 1) := mul_le_mul_of_nonneg_left (by linarith [le_abs_self k]) hs.1.le
    _ < d := (lt_div_iff₀ hk).mp hs.2

/-- Moving down a slope, and by much less across, keeps what is positive positive only. -/
theorem eventually_pos_iff (d : ℚ) {k : ℚ} (hk : 0 < k) (m : ℚ) :
    ∀ᶠ t in 𝓝[>] (0 : ℚ), ∀ᶠ s in 𝓝[>] (0 : ℚ), 0 < d - t * k + s * m ↔ 0 < d := by
  rcases le_or_gt d 0 with hle | hpos
  · filter_upwards [self_mem_nhdsWithin] with t ht
    filter_upwards [eventually_mul_lt (mul_pos ht hk) m] with s hs
    exact iff_of_false (by linarith [hs.2]) hle.not_gt
  · filter_upwards [eventually_mul_lt hpos k] with t ht
    filter_upwards [eventually_mul_lt (sub_pos.mpr ht.2) (-m)] with s hs
    exact iff_of_true (by linarith [hs.2]) hpos

theorem eventually_lt_iff (c d : ℚ) : ∀ᶠ s in 𝓝[>] (0 : ℚ), c + s < d ↔ c < d := by
  rcases le_or_gt d c with hle | hlt
  · filter_upwards [self_mem_nhdsWithin] with s hs
    exact iff_of_false (by linarith [Set.mem_Ioi.mp hs]) hle.not_gt
  · filter_upwards [Ioo_mem_nhdsGT (sub_pos.mpr hlt)] with s hs
    exact iff_of_true (by linarith [hs.2]) hlt

theorem orientDet_shift (a b p : Vector2) (t s : ℚ) : orientDet a b (p.shift t s) =
    orientDet a b p - t * (b.y - a.y) + s * (b.x - a.x) := by
  rw [orientDet, orientDet, Vector2.shift]
  ring

theorem eventually_crossesRight (hexact : Exact2d orient2d) (p a b : Vector2) :
    ∀ᶠ t in 𝓝[>] (0 : ℚ), ∀ᶠ s in 𝓝[>] (0 : ℚ),
      crossesRight orient2d (p.shift t s) a b = crossesRight orient2d p a b := by
  have hside {a b : Vector2} (hup : a.y < b.y) :
      ∀ᶠ t in 𝓝[>] (0 : ℚ), ∀ᶠ s in 𝓝[>] (0 : ℚ),
        crossesRight orient2d (p.shift t s) a b = crossesRight orient2d p a b := by
    filter_upwards [eventually_pos_iff (orientDet a b p) (sub_pos.mpr hup) (b.x - a.x)] with t ht
    filter_upwards [ht, eventually_lt_iff p.y a.y, eventually_lt_iff p.y b.y] with s hs ha hb
    rw [Bool.eq_iff_iff, crossesRight_iff hexact, crossesRight_iff hexact, orientDet_shift, hs]
    simp only [Vector2.shift, ← not_lt, ha, hb]
    have hdown : ¬ (¬ p.y < b.y ∧ p.y < a.y) := fun h ↦ h.1 (h.2.trans hup)
    constructor <;> rintro (h | h)
    · exact Or.inl h
    · exact absurd ⟨h.1, h.2.1⟩ hdown
    · exact Or.inl h
    · exact absurd ⟨h.1, h.2.1⟩ hdown
  rcases lt_trichotomy a.y b.y with hlt | heq | hgt
  · exact hside hlt
  · -- A level side crosses nothing.
    refine Eventually.of_forall fun t ↦ Eventually.of_forall fun s ↦ ?_
    rw [Bool.eq_iff_iff, crossesRight_iff hexact, crossesRight_iff hexact, heq]
    refine iff_of_false ?_ ?_ <;> rintro (⟨hle, hlt, -⟩ | ⟨hle, hlt, -⟩) <;> exact hle.not_gt hlt
  · filter_upwards [hside hgt] with t ht
    filter_upwards [ht] with s hs
    rw [← crossesRight_swap hexact, hs, crossesRight_swap hexact]

theorem eventually_not_onSegment (p a b : Vector2) :
    ∀ᶠ t in 𝓝[>] (0 : ℚ), ∀ᶠ s in 𝓝[>] (0 : ℚ), ¬ OnSegment (p.shift t s) a b := by
  by_cases hlevel : b.y = a.y
  · refine Eventually.of_forall fun t ↦ ?_
    filter_upwards [eventually_ne (a.y - p.y)] with s hs
    rintro ⟨r, -, -, hp⟩
    have hy : p.y + s = a.y + r * (b.y - a.y) := congrArg Vector2.y hp
    rw [hlevel, sub_self, mul_zero, add_zero] at hy
    exact hs (by linarith)
  · have hk : b.y - a.y ≠ 0 := sub_ne_zero.mpr hlevel
    filter_upwards [eventually_ne (orientDet a b p / (b.y - a.y))] with t ht
    have hdet : orientDet a b p - t * (b.y - a.y) ≠ 0 := fun hzero ↦
      ht ((eq_div_iff hk).mpr (sub_eq_zero.mp hzero).symm)
    filter_upwards [eventually_ne (-(orientDet a b p - t * (b.y - a.y)) / (b.x - a.x))] with s hs
    rintro ⟨r, -, -, hp⟩
    have hzero : orientDet a b (p.shift t s) = 0 := by
      rw [hp, orientDet]
      ring
    rw [orientDet_shift] at hzero
    by_cases hm : b.x - a.x = 0
    · rw [hm, mul_zero, add_zero] at hzero
      exact hdet hzero
    · exact hs ((eq_div_iff hm).mpr (by linarith))

/-- The polygon winds evenly around the points just to the right, and a little higher. -/
def EvenToTheRight (poly : List Vector2) (p : Vector2) : Prop :=
  ∀ᶠ t in 𝓝[>] (0 : ℚ), ∀ᶠ s in 𝓝[>] (0 : ℚ), ∃ n : ℤ, Winds poly (p.shift t s) n ∧ Even n

theorem eventually_winds (hexact : Exact2d orient2d) (poly : List Vector2) (p : Vector2) :
    ∀ᶠ t in 𝓝[>] (0 : ℚ), ∀ᶠ s in 𝓝[>] (0 : ℚ), ∃ n : ℤ, Winds poly (p.shift t s) n ∧
      (pointInPolygon2d orient2d p poly ↔ Odd n) := by
  have hfinite : {e | e ∈ sides poly}.Finite := List.finite_toSet _
  have hcross := (eventually_all_finite hfinite).mpr
    fun e _ ↦ eventually_crossesRight hexact p e.1 e.2
  have hoff := (eventually_all_finite hfinite).mpr fun e _ ↦ eventually_not_onSegment p e.1 e.2
  filter_upwards [hcross, hoff] with t hcross hoff
  filter_upwards [(eventually_all_finite hfinite).mpr hcross,
    (eventually_all_finite hfinite).mpr hoff] with s hcross hoff
  have hoff' : ¬ OnBoundary poly (p.shift t s) := fun ⟨e, he, hon⟩ ↦ hoff e he hon
  obtain ⟨n, hwinds, hodd⟩ := winds_of_not_onBoundary hexact hoff'
  refine ⟨n, hwinds, ?_⟩
  have hsame : crossings orient2d (p.shift t s) poly = crossings orient2d p poly :=
    List.countP_congr fun e he ↦ by rw [hcross e he]
  rw [← hodd, pointInPolygon2d_iff hexact, pointInPolygon2d_iff hexact, hsame]

theorem Winds.unique {m n : ℤ} (hm : Winds poly p m) (hn : Winds poly p n) : m = n := by
  have hmul := hm.symm.trans hn
  exact Int.cast_injective (mul_right_cancel₀ Real.two_pi_pos.ne' hmul)

theorem eq_false_iff_evenToTheRight (hexact : Exact2d orient2d) :
    pointInPolygon2d orient2d p poly = false ↔ EvenToTheRight poly p := by
  have hwinds := eventually_winds hexact poly p
  constructor
  · intro hfalse
    filter_upwards [hwinds] with t hwinds
    filter_upwards [hwinds] with s hwinds
    obtain ⟨n, hn, hodd⟩ := hwinds
    rw [hfalse] at hodd
    exact ⟨n, hn, Int.not_odd_iff_even.mp fun h ↦ Bool.false_ne_true (hodd.mpr h)⟩
  · intro heven
    obtain ⟨t, hwinds, heven⟩ := (hwinds.and heven).exists
    obtain ⟨s, ⟨n, hn, hodd⟩, m, hm, hmeven⟩ := (hwinds.and heven).exists
    rw [hm.unique hn] at hmeven
    exact Bool.eq_false_iff.mpr fun htrue ↦ Int.not_odd_iff_even.mpr hmeven (hodd.mp htrue)

/-- On the boundary `false`, and off it the parity of the winding number, for every rotation and
direction of the list. -/
structure Classified (orient2d : Vector2 → Vector2 → Vector2 → Orientation) (poly : List Vector2)
    (p : Vector2) : Prop where
  boundary : OnBoundary poly p → pointInPolygon2d orient2d p poly = false
  winding : ¬ OnBoundary poly p →
    ∃ n : ℤ, Winds poly p n ∧ (pointInPolygon2d orient2d p poly ↔ Odd n)
  rotate : ¬ OnBoundary poly p → ∀ k,
    pointInPolygon2d orient2d p (poly.rotate k) = pointInPolygon2d orient2d p poly
  reverse : ¬ OnBoundary poly p →
    pointInPolygon2d orient2d p poly.reverse = pointInPolygon2d orient2d p poly

/-- **The answer is as asked** just when the point is off the boundary or the polygon winds an even
number of times around the points just to its right. -/
theorem classified_iff (hexact : Exact2d orient2d) (poly : List Vector2) (p : Vector2) :
    Classified orient2d poly p ↔ (OnBoundary poly p → EvenToTheRight poly p) := by
  refine ⟨fun h hon ↦ (eq_false_iff_evenToTheRight hexact).mp (h.boundary hon),
    fun h ↦ ⟨fun hon ↦ (eq_false_iff_evenToTheRight hexact).mpr (h hon),
      winds_of_not_onBoundary hexact, fun _ k ↦ ?_, fun _ ↦ ?_⟩⟩
  · rw [Bool.eq_iff_iff, pointInPolygon2d_iff hexact, pointInPolygon2d_iff hexact,
      crossings_rotate]
  · rw [Bool.eq_iff_iff, pointInPolygon2d_iff hexact, pointInPolygon2d_iff hexact,
      crossings_reverse hexact]

def unitSquare : List Vector2 := [⟨0, 0⟩, ⟨1, 0⟩, ⟨1, 1⟩, ⟨0, 1⟩]

def exactOrient2d (pa pb pc : Vector2) : Orientation := orientationOf (orientDet pa pb pc)

/-- A point beside the square. -/
theorem classified_iff_beside : Classified exactOrient2d unitSquare ⟨2, 2⟩ := by
  refine (classified_iff (fun _ _ _ ↦ rfl) unitSquare ⟨2, 2⟩).mpr fun ⟨e, he, hon⟩ ↦ ?_
  obtain ⟨r, h0, h1, hp⟩ := hon
  have hx : (2 : ℚ) = e.1.x + r * (e.2.x - e.1.x) := congrArg Vector2.x hp
  have hsides : ∀ e ∈ sides unitSquare, e.1.x ≤ 1 ∧ e.2.x ≤ 1 := by decide +kernel
  have hsides := hsides e he
  nlinarith [hsides.1, hsides.2]

/-- **A point of the left side is inside**, and one of the right side is not. -/
theorem not_classified_left : pointInPolygon2d exactOrient2d ⟨0, 1 / 2⟩ unitSquare = true ∧
    pointInPolygon2d exactOrient2d ⟨1, 1 / 2⟩ unitSquare = false ∧
    ¬ ∀ poly p, Classified exactOrient2d poly p := by
  have hleft : pointInPolygon2d exactOrient2d ⟨0, 1 / 2⟩ unitSquare = true := by decide +kernel
  refine ⟨hleft, by decide +kernel, fun h ↦ ?_⟩
  have hfalse := (h unitSquare ⟨0, 1 / 2⟩).boundary
    ⟨(⟨0, 1⟩, ⟨0, 0⟩), by decide, 1 / 2, by norm_num, by norm_num, by norm_num⟩
  exact Bool.false_ne_true (hfalse.symm.trans hleft)

end RosheraCad
