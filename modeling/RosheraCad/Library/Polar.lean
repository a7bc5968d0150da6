import Mathlib.Analysis.SpecialFunctions.Complex.Arg

/-!
# Directions in the plane by their angles

A nonzero complex number points in a direction. The sign of the cross product of two numbers is that
of the sine of the difference of their angles, so within half a turn it compares the angles.
-/

namespace Polar

open Complex

structure IsAngle (z : ℂ) (α : ℝ) : Prop where
  re : z.re = ‖z‖ * Real.cos α
  im : z.im = ‖z‖ * Real.sin α

def cross (z w : ℂ) : ℝ := z.re * w.im - z.im * w.re

def dot (z w : ℂ) : ℝ := z.re * w.re + z.im * w.im

variable {z w : ℂ} {α β : ℝ}

theorem isAngle_arg (z : ℂ) : IsAngle z (arg z) where
  re := (norm_mul_cos_arg z).symm
  im := (norm_mul_sin_arg z).symm

namespace IsAngle

theorem add_two_pi (h : IsAngle z α) : IsAngle z (α + 2 * Real.pi) where
  re := by rw [Real.cos_add_two_pi, h.re]
  im := by rw [Real.sin_add_two_pi, h.im]

theorem cross_eq (hz : IsAngle z α) (hw : IsAngle w β) :
    cross z w = ‖z‖ * ‖w‖ * Real.sin (β - α) := by
  rw [cross, hz.re, hz.im, hw.re, hw.im, Real.sin_sub]
  ring

theorem dot_eq (hz : IsAngle z α) (hw : IsAngle w β) :
    dot z w = ‖z‖ * ‖w‖ * Real.cos (β - α) := by
  rw [dot, hz.re, hz.im, hw.re, hw.im, Real.cos_sub]
  ring

theorem mul_exp (h : IsAngle z α) (θ : ℝ) : IsAngle (z * exp (θ * I)) (α + θ) where
  re := by
    rw [norm_mul, norm_exp_ofReal_mul_I, mul_one, mul_re, exp_ofReal_mul_I_re,
      exp_ofReal_mul_I_im, h.re, h.im, Real.cos_add]
    ring
  im := by
    rw [norm_mul, norm_exp_ofReal_mul_I, mul_one, mul_im, exp_ofReal_mul_I_re,
      exp_ofReal_mul_I_im, h.re, h.im, Real.sin_add]
    ring

theorem eq_norm_mul (h : IsAngle z α) : z = ‖z‖ * exp (α * I) := by
  apply Complex.ext
  · rw [re_ofReal_mul, exp_ofReal_mul_I_re, ← h.re]
  · rw [im_ofReal_mul, exp_ofReal_mul_I_im, ← h.im]

theorem arg_div (hz : IsAngle z α) (hw : IsAngle w β) (hz0 : z ≠ 0) (hw0 : w ≠ 0) {θ : ℝ}
    (k : ℤ) (hθ : θ = β - α + k * (2 * Real.pi)) (hrange : θ ∈ Set.Ioc (-Real.pi) Real.pi) :
    arg (w / z) = θ := by
  have hexp : exp (β * I) / exp (α * I) = cos θ + sin θ * I := by
    have hsplit : (θ : ℂ) * I = β * I - α * I + k * (2 * Real.pi * I) := by
      rw [hθ]
      push_cast
      ring
    rw [← exp_mul_I, hsplit, Complex.exp_add, exp_int_mul_two_pi_mul_I, mul_one, Complex.exp_sub]
  have hquot : w / z = (‖w‖ / ‖z‖ : ℝ) * (cos θ + sin θ * I) := by
    rw [← hexp, ofReal_div, div_mul_div_comm, ← hz.eq_norm_mul, ← hw.eq_norm_mul]
  rw [hquot]
  exact arg_mul_cos_add_sin_mul_I (div_pos (norm_pos_iff.mpr hw0) (norm_pos_iff.mpr hz0)) hrange

/-- **The cross product compares angles** that are less than half a turn apart. -/
theorem cross_pos_iff (hz : IsAngle z α) (hw : IsAngle w β) (hz0 : z ≠ 0) (hw0 : w ≠ 0)
    (hnear : |β - α| < Real.pi) : 0 < cross z w ↔ α < β := by
  have hnorm : 0 < ‖z‖ * ‖w‖ := mul_pos (norm_pos_iff.mpr hz0) (norm_pos_iff.mpr hw0)
  obtain ⟨hlow, hhigh⟩ := abs_lt.mp hnear
  rw [hz.cross_eq hw, mul_pos_iff_of_pos_left hnorm, ← sub_pos (a := β)]
  constructor
  · intro hsin
    by_contra hle
    exact hsin.not_ge (Real.sin_nonpos_of_nonpos_of_neg_pi_le (not_lt.mp hle) hlow.le)
  · exact fun hpos ↦ Real.sin_pos_of_pos_of_lt_pi hpos hhigh

end IsAngle

/-! ## Angles from zero on -/

/-- As a local instance it lets `2 * Real.pi` stand without a proof of its own. -/
theorem atLeastTwo_two : Nat.AtLeastTwo 2 := inferInstance

/-- The angle from the positive real axis, at least `0` and below `2π`. -/
noncomputable def turn (z : ℂ) : ℝ := if 0 ≤ arg z then arg z else arg z + 2 * Real.pi

theorem isAngle_turn (z : ℂ) : IsAngle z (turn z) := by
  rw [turn]
  split
  next => exact isAngle_arg z
  next => exact (isAngle_arg z).add_two_pi

theorem turn_nonneg (z : ℂ) : 0 ≤ turn z := by
  rw [turn]
  split
  next h => exact h
  next => linarith [neg_pi_lt_arg z, Real.pi_pos]

theorem turn_lt (z : ℂ) : turn z < 2 * Real.pi := by
  rw [turn]
  split
  next => linarith [arg_le_pi z, Real.pi_pos]
  next h => linarith

theorem turn_eq_of_isAngle (hz : z ≠ 0) (h : IsAngle z α) (hnonneg : 0 ≤ α)
    (hlt : α < 2 * Real.pi) : turn z = α := by
  by_contra hne
  -- Two angles of one direction in the range are a whole turn apart, or equal.
  have hcos : Real.cos (turn z - α) = 1 := by
    have hdot := h.dot_eq (isAngle_turn z)
    have hself := (isAngle_turn z).dot_eq (isAngle_turn z)
    rw [sub_self, Real.cos_zero, mul_one] at hself
    have hnorm : 0 < ‖z‖ * ‖z‖ := mul_pos (norm_pos_iff.mpr hz) (norm_pos_iff.mpr hz)
    exact mul_left_cancel₀ hnorm.ne' (by rw [← hdot, hself, mul_one])
  have hzero := (Real.cos_eq_one_iff_of_lt_of_lt (by linarith [turn_nonneg z])
    (by linarith [turn_lt z])).mp hcos
  exact hne (sub_eq_zero.mp hzero)

theorem turn_lt_pi_iff (hz : z ≠ 0) : turn z < Real.pi ↔ 0 < z.im ∨ z.im = 0 ∧ 0 < z.re := by
  rw [turn]
  split
  next h =>
    rw [arg_nonneg_iff] at h
    rw [lt_iff_le_and_ne, and_iff_right (arg_le_pi z), Ne, arg_eq_pi_iff]
    rcases h.lt_or_eq with him | him
    · exact iff_of_true (fun hneg ↦ him.ne' hneg.2) (Or.inl him)
    · have hre : z.re ≠ 0 := fun hre ↦ hz (Complex.ext hre him.symm)
      rw [← him]
      simp [lt_iff_le_and_ne, hre, Ne.symm hre]
  next h =>
    refine iff_of_false (by linarith [neg_pi_lt_arg z]) fun him ↦ h ?_
    rw [arg_nonneg_iff]
    exact him.elim le_of_lt fun him ↦ him.1.ge

theorem turn_eq_iff (hz : z ≠ 0) (hw : w ≠ 0) : turn z = turn w ↔ ∃ r : ℝ, 0 < r ∧ w = r * z := by
  constructor
  · intro h
    refine ⟨‖w‖ / ‖z‖, div_pos (norm_pos_iff.mpr hw) (norm_pos_iff.mpr hz), ?_⟩
    have hnorm : (‖z‖ : ℂ) ≠ 0 := ofReal_ne_zero.mpr (norm_ne_zero_iff.mpr hz)
    have hexp : exp (turn z * I) = z / ‖z‖ :=
      eq_div_of_mul_eq hnorm ((mul_comm _ _).trans (isAngle_turn z).eq_norm_mul.symm)
    have hangle := (isAngle_turn w).eq_norm_mul
    rw [← h, hexp] at hangle
    refine hangle.trans ?_
    rw [ofReal_div]
    ring
  · rintro ⟨r, hr, rfl⟩
    refine (turn_eq_of_isAngle hw ?_ (turn_nonneg z) (turn_lt z)).symm
    have hnorm : ‖(r * z : ℂ)‖ = r * ‖z‖ := by rw [norm_mul, norm_real, Real.norm_of_nonneg hr.le]
    refine ⟨?_, ?_⟩
    · rw [hnorm, re_ofReal_mul, (isAngle_turn z).re]
      ring
    · rw [hnorm, im_ofReal_mul, (isAngle_turn z).im]
      ring

/-! ## Angles up to a full turn, and crossings of the positive axis -/

/-- The angle from the positive real axis, above `0` and at most `2π`. -/
noncomputable def lap (z : ℂ) : ℝ := if 0 < arg z then arg z else arg z + 2 * Real.pi

theorem isAngle_lap (z : ℂ) : IsAngle z (lap z) := by
  rw [lap]
  split
  next => exact isAngle_arg z
  next => exact (isAngle_arg z).add_two_pi

theorem lap_pos (z : ℂ) : 0 < lap z := by
  rw [lap]
  split
  next h => exact h
  next => linarith [neg_pi_lt_arg z, Real.pi_pos]

theorem lap_le (z : ℂ) : lap z ≤ 2 * Real.pi := by
  rw [lap]
  split
  next => linarith [arg_le_pi z, Real.pi_pos]
  next h => linarith

theorem lap_lt_pi_iff : lap z < Real.pi ↔ 0 < z.im := by
  rw [lap]
  split
  next h =>
    rw [lt_iff_le_and_ne, and_iff_right (arg_le_pi z), Ne, arg_eq_pi_iff]
    rcases (arg_nonneg_iff.mp h.le).lt_or_eq with him | him
    · exact iff_of_true (fun hneg ↦ him.ne' hneg.2) him
    · refine iff_of_false (not_not.mpr ⟨?_, him.symm⟩) him.not_lt
      by_contra hre
      exact h.ne' (arg_eq_zero_iff.mpr ⟨not_lt.mp hre, him.symm⟩)
  next h =>
    refine iff_of_false (by linarith [neg_pi_lt_arg z]) fun him ↦ h ?_
    refine (arg_nonneg_iff.mpr him.le).lt_of_ne fun hzero ↦ ?_
    exact him.ne' (arg_eq_zero_iff.mp hzero.symm).2

/-- How a straight way crosses the positive real axis: upward, downward or not at all. -/
noncomputable def crossing (z w : ℂ) : ℤ :=
  if z.im ≤ 0 ∧ 0 < w.im ∧ 0 < cross z w then 1
  else if w.im ≤ 0 ∧ 0 < z.im ∧ cross z w < 0 then -1
  else 0

/-- **The angle seen along a straight way** is the difference of the angles, and a full turn for a
crossing. -/
theorem arg_div_eq_lap (hz : z ≠ 0) (hw : w ≠ 0) (hmiss : ¬ (cross z w = 0 ∧ dot z w ≤ 0)) :
    arg (w / z) = lap w - lap z + crossing z w * (2 * Real.pi) := by
  refine (isAngle_lap z).arg_div (isAngle_lap w) hz hw (crossing z w) rfl ?_
  have hnorm : 0 < ‖z‖ * ‖w‖ := mul_pos (norm_pos_iff.mpr hz) (norm_pos_iff.mpr hw)
  have hcross := (isAngle_lap z).cross_eq (isAngle_lap w)
  have hdot := (isAngle_lap z).dot_eq (isAngle_lap w)
  have hpi := Real.pi_pos
  have hz1 := lap_pos z
  have hz2 := lap_le z
  have hw1 := lap_pos w
  have hw2 := lap_le w
  have hzim := lap_lt_pi_iff (z := z)
  have hwim := lap_lt_pi_iff (z := w)
  -- The two directions are not opposite.
  have hopp : lap w - lap z ≠ -Real.pi ∧ lap w - lap z ≠ Real.pi := by
    refine ⟨fun heq ↦ hmiss ?_, fun heq ↦ hmiss ?_⟩ <;> rw [hcross, hdot, heq]
    · rw [Real.sin_neg, Real.sin_pi, Real.cos_neg, Real.cos_pi]
      exact ⟨by ring, by linarith⟩
    · rw [Real.sin_pi, Real.cos_pi]
      exact ⟨by ring, by linarith⟩
  have hpos : 0 < cross z w ↔ 0 < Real.sin (lap w - lap z) := by
    rw [hcross, mul_pos_iff_of_pos_left hnorm]
  have hneg : cross z w < 0 ↔ Real.sin (lap w - lap z) < 0 := by
    rw [hcross, ← neg_pos, ← mul_neg, mul_pos_iff_of_pos_left hnorm, neg_pos]
  rw [crossing, Set.mem_Ioc]
  split
  next hup =>
    obtain ⟨hlow, hhigh, hturn⟩ := hup
    have hle : lap w - lap z ≤ -Real.pi := by
      by_contra hlt
      have hsin := Real.sin_neg_of_neg_of_neg_pi_lt (x := lap w - lap z)
        (by linarith [hwim.mpr hhigh, not_lt.mp (mt hzim.mp hlow.not_gt)]) (not_le.mp hlt)
      exact hsin.not_gt (hpos.mp hturn)
    push_cast
    constructor <;> linarith
  next hup =>
    split
    next hdown =>
      obtain ⟨hlow, hhigh, hturn⟩ := hdown
      have hle : Real.pi ≤ lap w - lap z := by
        by_contra hlt
        have hsin := Real.sin_pos_of_pos_of_lt_pi (x := lap w - lap z)
          (by linarith [hzim.mpr hhigh, not_lt.mp (mt hwim.mp hlow.not_gt)]) (not_le.mp hlt)
        exact hsin.not_gt (hneg.mp hturn)
      have hlt := hopp.2.lt_or_gt
      push_cast
      constructor
      · rcases hlt with hlt | hlt <;> linarith
      · linarith
    next hdown =>
      rw [Int.cast_zero, zero_mul, add_zero]
      by_cases hzu : 0 < z.im <;> by_cases hwu : 0 < w.im
      · exact ⟨by linarith [hzim.mpr hzu], by linarith [hwim.mpr hwu]⟩
      · -- Downward: no crossing, so less than half a turn.
        have hge := not_lt.mp (mt hwim.mp hwu)
        refine ⟨by linarith [hzim.mpr hzu], ?_⟩
        by_contra hgt
        refine hdown ⟨not_lt.mp hwu, hzu, hneg.mpr ?_⟩
        rw [← Real.sin_sub_two_pi]
        exact Real.sin_neg_of_neg_of_neg_pi_lt (by linarith) (by linarith)
      · -- Upward.
        have hge := not_lt.mp (mt hzim.mp hzu)
        refine ⟨?_, by linarith [hwim.mpr hwu]⟩
        by_contra hle
        have hlt := hopp.1.lt_of_le (not_lt.mp hle)
        refine hup ⟨not_lt.mp hzu, hwu, hpos.mpr ?_⟩
        rw [← Real.sin_add_two_pi]
        exact Real.sin_pos_of_pos_of_lt_pi (by linarith) (by linarith)
      · have hgez := not_lt.mp (mt hzim.mp hzu)
        have hgew := not_lt.mp (mt hwim.mp hwu)
        refine ⟨lt_of_le_of_ne (by linarith) hopp.1.symm, by linarith⟩

end Polar
