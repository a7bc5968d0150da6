import RosheraCad.Geometry.Plane
import RosheraCad.Library.Polar

/-!
# The circular order of directions

Directions are sorted counter-clockwise from the positive x-axis: the half plane decides first, and
within one half the sign of the cross product. Each half spans less than half a turn, where that
sign compares the angles. The orientation test is a parameter, assumed exact.
-/

namespace RosheraCad

/-- An orientation test that answers the sign of the determinant. -/
def Exact2d (orient2d : Vector2 → Vector2 → Vector2 → Orientation) : Prop :=
  ∀ pa pb pc, orient2d pa pb pc = orientationOf (orientDet pa pb pc)

def angularHalf (v : Vector2) : ℕ :=
  if v.x = 0 ∧ v.y = 0 then 0
  else if v.y > 0 ∨ v.y = 0 ∧ v.x > 0 then 1
  else 2

/-- Compare two directions by their angles from the positive x-axis. -/
def circularOrder (orient2d : Vector2 → Vector2 → Vector2 → Orientation) (u v : Vector2) :
    Ordering :=
  match compare (angularHalf u) (angularHalf v) with
  | .eq =>
    match orient2d .zero u v with
    | .counterClockwise => .lt
    | .clockwise => .gt
    | .collinear => .eq
  | other => other

namespace Vector2

def scale (r : ℚ) (v : Vector2) : Vector2 := ⟨r * v.x, r * v.y⟩

def toComplex (v : Vector2) : ℂ := ⟨v.x, v.y⟩

@[simp] theorem toComplex_re (v : Vector2) : v.toComplex.re = v.x := rfl

@[simp] theorem toComplex_im (v : Vector2) : v.toComplex.im = v.y := rfl

variable {u v w : Vector2}

theorem toComplex_ne_zero (h : v ≠ zero) : v.toComplex ≠ 0 := by
  intro hzero
  refine h ?_
  obtain ⟨x, y⟩ := v
  have hx : (x : ℝ) = 0 := congrArg Complex.re hzero
  have hy : (y : ℝ) = 0 := congrArg Complex.im hzero
  rw [Rat.cast_eq_zero.mp hx, Rat.cast_eq_zero.mp hy, zero]

theorem cross_toComplex (u v : Vector2) :
    Polar.cross u.toComplex v.toComplex = (u.cross v : ℚ) := by
  rw [Polar.cross, cross]
  push_cast
  rfl

/-! ## The angle of a direction -/

noncomputable def angle (v : Vector2) : ℝ := if v = zero then -1 else Polar.turn v.toComplex

theorem angle_zero : angle zero = -1 := if_pos rfl

theorem angle_of_ne (h : v ≠ zero) : v.angle = Polar.turn v.toComplex := if_neg h

theorem angularHalf_cases (v : Vector2) :
    (angularHalf v = 0 ∧ v = zero) ∨
    (angularHalf v = 1 ∧ v ≠ zero ∧ v.angle < Real.pi) ∨
    (angularHalf v = 2 ∧ v ≠ zero ∧ Real.pi ≤ v.angle) := by
  by_cases hzero : v = zero
  · exact Or.inl ⟨if_pos ⟨congrArg x hzero, congrArg y hzero⟩, hzero⟩
  · have hcoords : ¬ (v.x = 0 ∧ v.y = 0) := fun h ↦ hzero (by
      obtain ⟨x, y⟩ := v
      exact congrArg₂ mk h.1 h.2)
    have hhalf : v.angle < Real.pi ↔ v.y > 0 ∨ v.y = 0 ∧ v.x > 0 := by
      rw [angle_of_ne hzero, Polar.turn_lt_pi_iff (toComplex_ne_zero hzero), toComplex_re,
        toComplex_im, Rat.cast_pos, Rat.cast_pos, Rat.cast_eq_zero]
    rw [angularHalf, if_neg hcoords]
    split
    next hupper => exact Or.inr (Or.inl ⟨rfl, hzero, hhalf.mpr hupper⟩)
    next hlower => exact Or.inr (Or.inr ⟨rfl, hzero, not_lt.mp (mt hhalf.mp hlower)⟩)

theorem angle_nonneg (h : v ≠ zero) : 0 ≤ v.angle := by
  rw [angle_of_ne h]
  exact Polar.turn_nonneg _

theorem angle_lt (h : v ≠ zero) : v.angle < 2 * Real.pi := by
  rw [angle_of_ne h]
  exact Polar.turn_lt _

theorem cross_pos_iff (hu : u ≠ zero) (hv : v ≠ zero) (hnear : |v.angle - u.angle| < Real.pi) :
    0 < u.cross v ↔ u.angle < v.angle := by
  rw [angle_of_ne hu, angle_of_ne hv] at hnear ⊢
  rw [← (Polar.isAngle_turn _).cross_pos_iff (Polar.isAngle_turn _) (toComplex_ne_zero hu)
    (toComplex_ne_zero hv) hnear, cross_toComplex, Rat.cast_pos]

theorem cross_comm (u v : Vector2) : v.cross u = -u.cross v := by
  rw [cross, cross]
  ring

end Vector2

open Vector2

variable {orient2d : Vector2 → Vector2 → Vector2 → Orientation} {u v w : Vector2}

theorem orientationOf_cross (hu : u ≠ zero) (hv : v ≠ zero)
    (hnear : |v.angle - u.angle| < Real.pi) :
    (match orientationOf (u.cross v) with
      | .counterClockwise => Ordering.lt
      | .clockwise => .gt
      | .collinear => .eq) = compare u.angle v.angle := by
  have hpos := cross_pos_iff hu hv hnear
  have hneg := cross_pos_iff hv hu (by rwa [abs_sub_comm])
  rw [cross_comm, neg_pos] at hneg
  rcases lt_trichotomy u.angle v.angle with hlt | heq | hgt
  · rw [orientationOf, if_pos (hpos.mpr hlt), compare_lt_iff_lt.mpr hlt]
  · rw [orientationOf, if_neg (mt hpos.mp heq.not_lt), if_neg (mt hneg.mp heq.not_gt),
      compare_eq_iff_eq.mpr heq]
  · rw [orientationOf, if_neg (mt hpos.mp hgt.not_gt), if_pos (hneg.mpr hgt),
      compare_gt_iff_gt.mpr hgt]

theorem circularOrder_eq_compare (hexact : Exact2d orient2d) (u v : Vector2) :
    circularOrder orient2d u v = compare u.angle v.angle := by
  have hdet : orientDet .zero u v = u.cross v := by
    rw [orientDet, cross, zero]
    ring
  rw [circularOrder, hexact, hdet]
  have hpi := Real.pi_pos
  rcases angularHalf_cases u with ⟨hu, rfl⟩ | ⟨hu, hu0, hulow⟩ | ⟨hu, hu0, huhigh⟩ <;>
    rcases angularHalf_cases v with ⟨hv, rfl⟩ | ⟨hv, hv0, hvlow⟩ | ⟨hv, hv0, hvhigh⟩ <;>
    simp only [hu, hv]
  · rw [compare_eq_iff_eq.mpr (rfl : zero.angle = zero.angle)]
    decide +kernel
  · exact (compare_lt_iff_lt.mpr (by linarith [angle_zero, angle_nonneg hv0])).symm
  · exact (compare_lt_iff_lt.mpr (by linarith [angle_zero, angle_nonneg hv0])).symm
  · exact (compare_gt_iff_gt.mpr (by linarith [angle_zero, angle_nonneg hu0])).symm
  · refine orientationOf_cross hu0 hv0 (abs_lt.mpr ⟨?_, ?_⟩) <;>
      linarith [angle_nonneg hu0, angle_nonneg hv0]
  · exact (compare_lt_iff_lt.mpr (by linarith)).symm
  · exact (compare_gt_iff_gt.mpr (by linarith [angle_zero, angle_nonneg hu0])).symm
  · exact (compare_gt_iff_gt.mpr (by linarith)).symm
  · refine orientationOf_cross hu0 hv0 (abs_lt.mpr ⟨?_, ?_⟩) <;>
      linarith [angle_lt hu0, angle_lt hv0]

/-! ## Same directions, and turning -/

/-- One vector is a positive multiple of another. -/
def SameDirection (u v : Vector2) : Prop := ∃ r : ℚ, 0 < r ∧ v = u.scale r

theorem SameDirection.ne_zero (h : SameDirection u v) (hu : u ≠ zero) : v ≠ zero := by
  obtain ⟨r, hr, rfl⟩ := h
  rintro hzero
  refine hu ?_
  obtain ⟨x, y⟩ := u
  have hx := congrArg Vector2.x hzero
  have hy := congrArg Vector2.y hzero
  exact congrArg₂ mk ((mul_eq_zero.mp hx).resolve_left hr.ne')
    ((mul_eq_zero.mp hy).resolve_left hr.ne')

theorem angle_eq_iff (hu : u ≠ zero) (hv : v ≠ zero) : u.angle = v.angle ↔ SameDirection u v := by
  rw [angle_of_ne hu, angle_of_ne hv,
    Polar.turn_eq_iff (toComplex_ne_zero hu) (toComplex_ne_zero hv)]
  constructor
  · rintro ⟨r, hr, h⟩
    have hx : (v.x : ℝ) = r * u.x := by simpa using congrArg Complex.re h
    have hy : (v.y : ℝ) = r * u.y := by simpa using congrArg Complex.im h
    -- The factor is a quotient of coordinates.
    obtain ⟨q, rfl⟩ : ∃ q : ℚ, (q : ℝ) = r := by
      by_cases hux : u.x = 0
      · have huy : (u.y : ℝ) ≠ 0 := fun huy ↦ hu (by
          obtain ⟨x, y⟩ := u
          exact congrArg₂ mk hux (Rat.cast_eq_zero.mp huy))
        exact ⟨v.y / u.y, by rw [Rat.cast_div, hy, mul_div_cancel_right₀ _ huy]⟩
      · exact ⟨v.x / u.x, by
          rw [Rat.cast_div, hx, mul_div_cancel_right₀ _ (Rat.cast_ne_zero.mpr hux)]⟩
    refine ⟨q, Rat.cast_pos.mp hr, ?_⟩
    obtain ⟨x, y⟩ := v
    exact congrArg₂ mk (by exact_mod_cast hx) (by exact_mod_cast hy)
  · rintro ⟨r, hr, rfl⟩
    refine ⟨r, Rat.cast_pos.mpr hr, Complex.ext ?_ ?_⟩ <;> simp [scale]

theorem angle_scale {r : ℚ} (hr : 0 < r) (v : Vector2) : (v.scale r).angle = v.angle := by
  by_cases hv : v = zero
  · rw [hv]
    simp [scale, zero]
  · have hsame : SameDirection v (v.scale r) := ⟨r, hr, rfl⟩
    exact ((angle_eq_iff hv (hsame.ne_zero hv)).mpr hsame).symm

def Meets (u : Vector2) (θ : ℝ) (v : Vector2) : Prop :=
  ∃ r : ℝ, 0 < r ∧ v.toComplex = r * (u.toComplex * Complex.exp (θ * Complex.I))

attribute [local instance] Polar.atLeastTwo_two

/-- Turning counter-clockwise from one direction meets a second one before a third. -/
def MeetsBefore (u v w : Vector2) : Prop :=
  ∃ θ : ℝ, 0 < θ ∧ θ < 2 * Real.pi ∧ Meets u θ v ∧ ∀ φ, 0 ≤ φ → φ ≤ θ → ¬ Meets u φ w

theorem meets_iff (hu : u ≠ zero) (hv : v ≠ zero) {θ : ℝ} (hθ : 0 ≤ θ)
    (hlt : u.angle + θ < 2 * Real.pi) : Meets u θ v ↔ u.angle + θ = v.angle := by
  have hturned : u.toComplex * Complex.exp (θ * Complex.I) ≠ 0 :=
    mul_ne_zero (toComplex_ne_zero hu) (Complex.exp_ne_zero _)
  have hangle := (Polar.isAngle_turn u.toComplex).mul_exp θ
  rw [angle_of_ne hu] at hlt
  rw [angle_of_ne hv, angle_of_ne hu, Meets, ← Polar.turn_eq_iff hturned (toComplex_ne_zero hv),
    Polar.turn_eq_of_isAngle hturned hangle (add_nonneg (Polar.turn_nonneg _) hθ) hlt]

theorem meetsBefore_of_lt (hu : u ≠ zero) (hv : v ≠ zero) (hw : w ≠ zero)
    (huv : u.angle < v.angle) (hvw : v.angle < w.angle) : MeetsBefore u v w := by
  have hu0 := angle_nonneg hu
  have hv2 := angle_lt hv
  refine ⟨v.angle - u.angle, by linarith, by linarith, ?_, fun φ hφ hle hmeets ↦ ?_⟩
  · rw [meets_iff hu hv (by linarith) (by linarith)]
    ring
  · rw [meets_iff hu hw hφ (by linarith)] at hmeets
    linarith

/-- **The circular order is a total preorder by direction, counter-clockwise.** -/
theorem circularOrder_isOrder (hexact : Exact2d orient2d) :
    (∀ u, circularOrder orient2d u u = .eq) ∧
    (∀ u v, circularOrder orient2d v u = (circularOrder orient2d u v).swap) ∧
    (∀ u v w, circularOrder orient2d u v ≠ .gt → circularOrder orient2d v w ≠ .gt →
      circularOrder orient2d u w ≠ .gt) ∧
    (∀ u v, u ≠ zero → v ≠ zero → (circularOrder orient2d u v = .eq ↔ SameDirection u v)) ∧
    (∀ u v r, 0 < r → circularOrder orient2d (u.scale r) v = circularOrder orient2d u v ∧
      circularOrder orient2d u (v.scale r) = circularOrder orient2d u v) ∧
    (∀ u v w, u ≠ zero → v ≠ zero → w ≠ zero → circularOrder orient2d u v = .lt →
      circularOrder orient2d v w = .lt → MeetsBefore u v w) := by
  simp only [circularOrder_eq_compare hexact]
  refine ⟨fun u ↦ compare_eq_iff_eq.mpr rfl, fun u v ↦ ?_, fun u v w huv hvw ↦ ?_,
    fun u v hu hv ↦ ?_, fun u v r hr ↦ ?_, fun u v w hu hv hw huv hvw ↦ ?_⟩
  · rcases lt_trichotomy u.angle v.angle with hlt | heq | hgt
    · rw [compare_lt_iff_lt.mpr hlt, compare_gt_iff_gt.mpr hlt]
      rfl
    · rw [compare_eq_iff_eq.mpr heq, compare_eq_iff_eq.mpr heq.symm]
      rfl
    · rw [compare_gt_iff_gt.mpr hgt, compare_lt_iff_lt.mpr hgt]
      rfl
  · rw [compare_le_iff_le] at *
    exact huv.trans hvw
  · rw [compare_eq_iff_eq, angle_eq_iff hu hv]
  · rw [angle_scale hr, angle_scale hr]
    exact ⟨rfl, rfl⟩
  · exact meetsBefore_of_lt hu hv hw (compare_lt_iff_lt.mp huv) (compare_lt_iff_lt.mp hvw)

/-- East, north and west. -/
theorem circularOrder_isOrder_east : MeetsBefore ⟨1, 0⟩ ⟨0, 1⟩ ⟨-1, 0⟩ := by
  have hexact : Exact2d fun pa pb pc ↦ orientationOf (orientDet pa pb pc) := fun _ _ _ ↦ rfl
  exact (circularOrder_isOrder hexact).2.2.2.2.2 ⟨1, 0⟩ ⟨0, 1⟩ ⟨-1, 0⟩ (by decide) (by decide)
    (by decide) (by decide +kernel) (by decide +kernel)

end RosheraCad
