import RosheraCad.Geometry.Plane
import RosheraCad.Library.ForwardError

/-!
# The first stage of the exact predicates

A predicate first computes its determinant with rounding, and a bound on the error of it. Beyond the
bound its sign is answered. A rounded operation answers the exact result times `1 + d`.

The bound of the in-sphere test leaves out the squared distances that the determinant has as
factors, and four of its twelve products.
-/

namespace RosheraCad

open ForwardError

/-- The unit roundoff of doubles. -/
def EPS : ℚ := 1 / 2 ^ 53

def CCWERRBOUNDSA : ℚ := (3 + 16 * EPS) * EPS

/-- The double the source's decimal literal stands for: its digits stop short of `(7 + 56 * EPS) *
EPS`. -/
def O3DERRBOUNDSA : ℚ := 7 * EPS

def ICCERRBOUNDSA : ℚ := (10 + 96 * EPS) * EPS

def ISPERRBOUNDSA : ℚ := (16 + 224 * EPS) * EPS

/-- A point in space. -/
structure Vector3 where
  x : ℚ
  y : ℚ
  z : ℚ
  deriving DecidableEq

inductive CircleLocation
  | inside
  | outside
  | onBoundary
  deriving DecidableEq

def locationOf (det : ℚ) : CircleLocation :=
  if det > 0 then .inside else if det < 0 then .outside else .onBoundary

/-- What a filter answers by comparing a determinant with the bound on its error. -/
def accept {α : Type} (positive negative : α) (det errbound : ℚ) : Option α :=
  if det > errbound then some positive
  else if det < -errbound then some negative
  else none

section

variable (δ η : ℕ → ℚ)

def minor (k : ℕ) (a b c d : ℚ) : ℚ :=
  rnd (δ (k + 2)) (rnd (δ k) (a * b) - rnd (δ (k + 1)) (c * d))

def minorPlus (k : ℕ) (a b c d : ℚ) : ℚ :=
  rnd (δ (k + 2)) (rnd (δ k) (a * b) + rnd (δ (k + 1)) (c * d))

/-! ## Orientation in the plane -/

/-- The first stage of the orientation test. Products of strictly opposite signs need no bound. -/
def orient2dFilter (pa pb pc : Vector2) : Option Orientation :=
  let detleft := rnd (δ 2) (rnd (δ 0) (pa.x - pc.x) * rnd (δ 1) (pb.y - pc.y))
  let detright := rnd (δ 5) (rnd (δ 3) (pa.y - pc.y) * rnd (δ 4) (pb.x - pc.x))
  let det := rnd (δ 6) (detleft - detright)
  let bounded (detsum : ℚ) : Option Orientation :=
    let errbound := rnd (δ 8) (CCWERRBOUNDSA * detsum)
    if det ≥ errbound ∨ -det ≥ errbound then some (orientationOf det) else none
  if detleft > 0 then
    if detright ≤ 0 then some (orientationOf det) else bounded (rnd (δ 7) (detleft + detright))
  else if detleft < 0 then
    if detright ≥ 0 then some (orientationOf det) else bounded (rnd (δ 7) (-detleft - detright))
  else some (orientationOf det)

/-- The orientation test, with the sign of the exact second stage. -/
def orient2d (adapt : ℚ) (pa pb pc : Vector2) : Orientation :=
  (orient2dFilter δ pa pb pc).getD (orientationOf adapt)

/-! ## Orientation in space -/

def orient3dFast (pa pb pc pd : Vector3) : ℚ :=
  let adx := rnd (δ 0) (pa.x - pd.x)
  let ady := rnd (δ 1) (pa.y - pd.y)
  let adz := rnd (δ 2) (pa.z - pd.z)
  let bdx := rnd (δ 3) (pb.x - pd.x)
  let bdy := rnd (δ 4) (pb.y - pd.y)
  let bdz := rnd (δ 5) (pb.z - pd.z)
  let cdx := rnd (δ 6) (pc.x - pd.x)
  let cdy := rnd (δ 7) (pc.y - pd.y)
  let cdz := rnd (δ 8) (pc.z - pd.z)
  let det := -rnd (δ 22) (rnd (δ 21) (rnd (δ 18) (adx * minor δ 9 bdy cdz bdz cdy) +
    rnd (δ 19) (ady * minor δ 12 bdz cdx bdx cdz)) + rnd (δ 20) (adz * minor δ 15 bdx cdy bdy cdx))
  det

def orient3dPermanent (pa pb pc pd : Vector3) : ℚ :=
  let adx := |rnd (η 0) (pa.x - pd.x)|
  let ady := |rnd (η 1) (pa.y - pd.y)|
  let adz := |rnd (η 2) (pa.z - pd.z)|
  let bdx := |rnd (η 3) (pb.x - pd.x)|
  let bdy := |rnd (η 4) (pb.y - pd.y)|
  let bdz := |rnd (η 5) (pb.z - pd.z)|
  let cdx := |rnd (η 6) (pc.x - pd.x)|
  let cdy := |rnd (η 7) (pc.y - pd.y)|
  let cdz := |rnd (η 8) (pc.z - pd.z)|
  rnd (η 22) (rnd (η 21) (rnd (η 18) (adx * minorPlus η 9 bdy cdz bdz cdy) +
    rnd (η 19) (ady * minorPlus η 12 bdz cdx bdx cdz)) +
      rnd (η 20) (adz * minorPlus η 15 bdx cdy bdy cdx))

def orient3dFilter (pa pb pc pd : Vector3) : Option Orientation :=
  accept .counterClockwise .clockwise (orient3dFast δ pa pb pc pd)
    (rnd (η 23) (O3DERRBOUNDSA * orient3dPermanent η pa pb pc pd))

/-- The orientation test in space, with the sign of the exact second stage. -/
def orient3d (adapt : ℚ) (pa pb pc pd : Vector3) : Orientation :=
  (orient3dFilter δ η pa pb pc pd).getD (orientationOf adapt)

/-! ## In circle -/

def incircleFast (pa pb pc pd : Vector2) : ℚ :=
  let adx := rnd (δ 0) (pa.x - pd.x)
  let ady := rnd (δ 1) (pa.y - pd.y)
  let bdx := rnd (δ 2) (pb.x - pd.x)
  let bdy := rnd (δ 3) (pb.y - pd.y)
  let cdx := rnd (δ 4) (pc.x - pd.x)
  let cdy := rnd (δ 5) (pc.y - pd.y)
  let abdet := minor δ 6 adx bdy bdx ady
  let bcdet := minor δ 9 bdx cdy cdx bdy
  let cadet := minor δ 12 cdx ady adx cdy
  let alift := minorPlus δ 15 adx adx ady ady
  let blift := minorPlus δ 18 bdx bdx bdy bdy
  let clift := minorPlus δ 21 cdx cdx cdy cdy
  rnd (δ 28) (rnd (δ 27) (rnd (δ 24) (alift * bcdet) + rnd (δ 25) (blift * cadet)) +
    rnd (δ 26) (clift * abdet))

def incirclePermanent (pa pb pc pd : Vector2) : ℚ :=
  let adx := |rnd (η 0) (pa.x - pd.x)|
  let ady := |rnd (η 1) (pa.y - pd.y)|
  let bdx := |rnd (η 2) (pb.x - pd.x)|
  let bdy := |rnd (η 3) (pb.y - pd.y)|
  let cdx := |rnd (η 4) (pc.x - pd.x)|
  let cdy := |rnd (η 5) (pc.y - pd.y)|
  rnd (η 28) (rnd (η 27)
    (rnd (η 24) (minorPlus η 15 adx adx ady ady * minorPlus η 9 bdx cdy cdx bdy) +
      rnd (η 25) (minorPlus η 18 bdx bdx bdy bdy * minorPlus η 12 cdx ady adx cdy)) +
      rnd (η 26) (minorPlus η 21 cdx cdx cdy cdy * minorPlus η 6 adx bdy bdx ady))

def incircleFilter (pa pb pc pd : Vector2) : Option CircleLocation :=
  accept .inside .outside (incircleFast δ pa pb pc pd)
    (rnd (η 29) (ICCERRBOUNDSA * incirclePermanent η pa pb pc pd))

/-- The in-circle test, with the sign of the exact second stage. -/
def incircle (adapt : ℚ) (pa pb pc pd : Vector2) : CircleLocation :=
  (incircleFilter δ η pa pb pc pd).getD (locationOf adapt)

/-! ## In sphere -/

def squaredNorm (k : ℕ) (x y z : ℚ) : ℚ :=
  rnd (δ (k + 4)) (minorPlus δ k x x y y + rnd (δ (k + 3)) (z * z))

def insphereDiffs (a b c d : Vector3) : ℚ :=
  let ab := minor δ 12 a.x b.y b.x a.y
  let bc := minor δ 15 b.x c.y c.x b.y
  let cd := minor δ 18 c.x d.y d.x c.y
  let da := minor δ 21 d.x a.y a.x d.y
  let ac := minor δ 24 a.x c.y c.x a.y
  let bd := minor δ 27 b.x d.y d.x b.y
  let abc := rnd (δ 34) (minor δ 30 a.z bc b.z ac + rnd (δ 33) (c.z * ab))
  let bcd := rnd (δ 39) (minor δ 35 b.z cd c.z bd + rnd (δ 38) (d.z * bc))
  let cda := rnd (δ 44) (minorPlus δ 40 c.z da d.z ac + rnd (δ 43) (a.z * cd))
  let dab := rnd (δ 49) (minorPlus δ 45 d.z ab a.z bd + rnd (δ 48) (b.z * da))
  let alift := squaredNorm δ 50 a.x a.y a.z
  let blift := squaredNorm δ 55 b.x b.y b.z
  let clift := squaredNorm δ 60 c.x c.y c.z
  let dlift := squaredNorm δ 65 d.x d.y d.z
  rnd (δ 76) (rnd (δ 75) (rnd (δ 74) (rnd (δ 70) (dlift * abc) - rnd (δ 71) (clift * dab)) +
    rnd (δ 72) (blift * cda)) - rnd (δ 73) (alift * bcd))

def diff (k : ℕ) (p q : Vector3) : Vector3 :=
  ⟨rnd (δ k) (p.x - q.x), rnd (δ (k + 1)) (p.y - q.y), rnd (δ (k + 2)) (p.z - q.z)⟩

def Vector3.abs (p : Vector3) : Vector3 := ⟨|p.x|, |p.y|, |p.z|⟩

def insphereFast (pa pb pc pd pe : Vector3) : ℚ :=
  insphereDiffs δ (diff δ 0 pa pe) (diff δ 3 pb pe) (diff δ 6 pc pe) (diff δ 9 pd pe)

/-- The bound of the in-sphere test, before the factor, from the magnitudes of the differences. -/
def insphereDiffsPermanent (a b c d : Vector3) : ℚ :=
  let aexbeyplus := minorPlus η 12 a.x b.y b.x a.y
  let bexceyplus := minorPlus η 15 b.x c.y c.x b.y
  let cexdeyplus := minorPlus η 18 c.x d.y d.x c.y
  let dexaeyplus := minorPlus η 21 d.x a.y a.x d.y
  let aexceyplus := minorPlus η 24 a.x c.y c.x a.y
  let bexdeyplus := minorPlus η 27 b.x d.y d.x b.y
  rnd (η 43) (rnd (η 42) (minorPlus η 30 aexbeyplus c.z cexdeyplus a.z +
      minorPlus η 33 bexceyplus d.z dexaeyplus b.z) +
    rnd (η 44) (minorPlus η 36 aexceyplus b.z bexdeyplus a.z +
      minorPlus η 39 cexdeyplus b.z dexaeyplus c.z))

def inspherePermanent (pa pb pc pd pe : Vector3) : ℚ :=
  insphereDiffsPermanent η (diff η 0 pa pe).abs (diff η 3 pb pe).abs (diff η 6 pc pe).abs
    (diff η 9 pd pe).abs

def insphereFilter (pa pb pc pd pe : Vector3) : Option CircleLocation :=
  accept .inside .outside (insphereFast δ pa pb pc pd pe)
    (rnd (η 45) (ISPERRBOUNDSA * inspherePermanent η pa pb pc pd pe))

/-- The in-sphere test, with the sign of the exact second stage. -/
def insphere (adapt : ℚ) (pa pb pc pd pe : Vector3) : CircleLocation :=
  (insphereFilter δ η pa pb pc pd pe).getD (locationOf adapt)

end

/-- The errors are within the unit roundoff. -/
def Bounded (δ : ℕ → ℚ) : Prop := ∀ k, |δ k| ≤ EPS

/-! ## The exact determinants -/

def Vector3.sub (p q : Vector3) : Vector3 := ⟨p.x - q.x, p.y - q.y, p.z - q.z⟩

def orient3dDet (pa pb pc pd : Vector3) : ℚ :=
  let a := pa.sub pd
  let b := pb.sub pd
  let c := pc.sub pd
  let sum := a.x * (b.y * c.z - b.z * c.y) + a.y * (b.z * c.x - b.x * c.z) +
    a.z * (b.x * c.y - b.y * c.x)
  0 - sum

def incircleDet (pa pb pc pd : Vector2) : ℚ :=
  let a : Vector2 := ⟨pa.x - pd.x, pa.y - pd.y⟩
  let b : Vector2 := ⟨pb.x - pd.x, pb.y - pd.y⟩
  let c : Vector2 := ⟨pc.x - pd.x, pc.y - pd.y⟩
  (a.x * a.x + a.y * a.y) * (b.x * c.y - c.x * b.y) +
    (b.x * b.x + b.y * b.y) * (c.x * a.y - a.x * c.y) +
    (c.x * c.x + c.y * c.y) * (a.x * b.y - b.x * a.y)

def cofactor (a b c : Vector3) : ℚ :=
  a.z * (b.x * c.y - c.x * b.y) - b.z * (a.x * c.y - c.x * a.y) + c.z * (a.x * b.y - b.x * a.y)

def norm2 (a : Vector3) : ℚ := a.x * a.x + a.y * a.y + a.z * a.z

def insphereDet (pa pb pc pd pe : Vector3) : ℚ :=
  let a := pa.sub pe
  let b := pb.sub pe
  let c := pc.sub pe
  let d := pd.sub pe
  norm2 d * cofactor a b c - norm2 c * cofactor d a b + norm2 b * cofactor c d a -
    norm2 a * cofactor b c d

/-! ## The filter of the plane is sound -/

theorem orientationOf_congr {x y : ℚ} (hpos : 0 < x ↔ 0 < y) (hneg : x < 0 ↔ y < 0) :
    orientationOf x = orientationOf y := by
  simp only [orientationOf, gt_iff_lt, hpos, hneg]

theorem one_sub_EPS_pos : (0 : ℚ) < 1 - EPS := by norm_num [EPS]

theorem EPS_nonneg : (0 : ℚ) ≤ EPS := by norm_num [EPS]

theorem EPS_lt_one : EPS < 1 := by norm_num [EPS]

section

variable {d d' d'' : ℚ} (hd : |d| ≤ EPS) (hd' : |d'| ≤ EPS) (hd'' : |d''| ≤ EPS)

include hd

theorem one_add_pos : 0 < 1 + d := by linarith [(abs_le.mp hd).1, one_sub_EPS_pos]

theorem rnd_pos_iff (x : ℚ) : 0 < rnd d x ↔ 0 < x := by
  rw [rnd, mul_pos_iff_of_pos_right (one_add_pos hd)]

theorem rnd_neg_iff (x : ℚ) : rnd d x < 0 ↔ x < 0 := by
  have h := rnd_pos_iff hd (-x)
  rwa [rnd, neg_mul, neg_pos, neg_pos] at h

include hd' hd''

theorem rnd_product (a b : ℚ) : ∃ f, (1 - EPS) ^ 3 ≤ f ∧ f ≤ (1 + EPS) ^ 3 ∧
    rnd d'' (rnd d a * rnd d' b) = a * b * f := by
  have hlow (e : ℚ) (he : |e| ≤ EPS) : 1 - EPS ≤ 1 + e := by linarith [(abs_le.mp he).1]
  have hhigh (e : ℚ) (he : |e| ≤ EPS) : 1 + e ≤ 1 + EPS := by linarith [(abs_le.mp he).2]
  have hpos := one_add_pos hd
  have hpos' := one_add_pos hd'
  have hpos'' := one_add_pos hd''
  have hE := one_sub_EPS_pos
  refine ⟨(1 + d) * (1 + d') * (1 + d''), ?_, ?_, ?_⟩
  · rw [pow_succ, pow_two]
    exact mul_le_mul (mul_le_mul (hlow d hd) (hlow d' hd') hE.le hpos.le) (hlow d'' hd'') hE.le
      (mul_pos hpos hpos').le
  · rw [pow_succ, pow_two]
    exact mul_le_mul (mul_le_mul (hhigh d hd) (hhigh d' hd') hpos'.le (hpos.le.trans (hhigh d hd)))
      (hhigh d'' hd'') hpos''.le (mul_nonneg (hpos.le.trans (hhigh d hd))
        (hpos.le.trans (hhigh d hd)))
  · simp only [rnd]
    ring

/-- **The bound in the plane** is met by the ratio of the two products, not by their errors added
up. -/
theorem lt_of_beyond {l r f g : ℚ} (hl : 0 < l * f) (hr : 0 < r * g) (hf0 : (1 - EPS) ^ 3 ≤ f)
    (hf : f ≤ (1 + EPS) ^ 3) (hg0 : (1 - EPS) ^ 3 ≤ g)
    (hbeyond : rnd d'' (CCWERRBOUNDSA * rnd d' (l * f + r * g)) ≤ rnd d (l * f - r * g)) :
    0 < l * f - r * g ∧ r < l := by
  have herrbound : 0 < rnd d'' (CCWERRBOUNDSA * rnd d' (l * f + r * g)) := by
    rw [rnd_pos_iff hd'']
    refine mul_pos (by norm_num [CCWERRBOUNDSA, EPS]) ((rnd_pos_iff hd' _).mpr (by linarith))
  have hdiff := (rnd_pos_iff hd _).mp (herrbound.trans_le hbeyond)
  refine ⟨hdiff, ?_⟩
  by_contra! hle
  have hlow : (0 : ℚ) < (1 - EPS) ^ 3 := pow_pos one_sub_EPS_pos 3
  have hl' : 0 < l := (pos_iff_pos_of_mul_pos hl).mpr (hlow.trans_le hf0)
  have hr' : 0 < r := (pos_iff_pos_of_mul_pos hr).mpr (hlow.trans_le hg0)
  have hratio : (1 - EPS) ^ 3 * (l * f) ≤ (1 + EPS) ^ 3 * (r * g) := by
    have hfl : l * f ≤ r * (1 + EPS) ^ 3 :=
      mul_le_mul hle hf (hlow.le.trans hf0) hr'.le
    have hgr : r * (1 - EPS) ^ 3 ≤ r * g := mul_le_mul_of_nonneg_left hg0 hr'.le
    nlinarith [mul_le_mul_of_nonneg_left hfl hlow.le,
      mul_le_mul_of_nonneg_left hgr (hlow.le.trans (hf0.trans hf))]
  have hsum : (1 - EPS) ^ 2 * (CCWERRBOUNDSA * (l * f + r * g)) ≤ (1 + EPS) * (l * f - r * g) := by
    have hbound : (0 : ℚ) ≤ CCWERRBOUNDSA * (l * f + r * g) :=
      mul_nonneg (by norm_num [CCWERRBOUNDSA, EPS]) (by linarith)
    have hE := one_sub_EPS_pos
    have hlow' := (abs_le.mp hd').1
    have hlow'' := (abs_le.mp hd'').1
    have hscale : (1 - EPS) ^ 2 * (CCWERRBOUNDSA * (l * f + r * g)) ≤
        rnd d'' (CCWERRBOUNDSA * rnd d' (l * f + r * g)) := by
      have hfactor : (1 - EPS) * (1 - EPS) ≤ (1 + d') * (1 + d'') :=
        mul_le_mul (by linarith) (by linarith) hE.le (one_add_pos hd').le
      have hmul := mul_le_mul_of_nonneg_right hfactor hbound
      simp only [rnd]
      nlinarith
    have hhigh := (abs_le.mp hd).2
    have hrnd : rnd d (l * f - r * g) ≤ (1 + EPS) * (l * f - r * g) := by
      rw [rnd, mul_comm]
      exact mul_le_mul_of_nonneg_right (by linarith) hdiff.le
    linarith
  -- The difference is at most `3 * EPS` of the sum, and the bound is more than that.
  norm_num [EPS, CCWERRBOUNDSA] at hratio hsum
  linarith

end

section

variable {δ η : ℕ → ℚ} (hδ : Bounded δ)

include hδ

theorem orient2dFilter_sound {pa pb pc : Vector2} {o : Orientation}
    (h : orient2dFilter δ pa pb pc = some o) : o = orientationOf (orientDet pa pb pc) := by
  obtain ⟨f, hf0, hf, hleft⟩ := rnd_product (hδ 0) (hδ 1) (hδ 2) (pa.x - pc.x) (pb.y - pc.y)
  obtain ⟨g, hg0, hg, hright⟩ := rnd_product (hδ 3) (hδ 4) (hδ 5) (pa.y - pc.y) (pb.x - pc.x)
  have hlow : (0 : ℚ) < (1 - EPS) ^ 3 := pow_pos one_sub_EPS_pos 3
  have hfpos := hlow.trans_le hf0
  have hgpos := hlow.trans_le hg0
  rw [orient2dFilter, hleft, hright] at h
  rw [orientDet]
  set l := (pa.x - pc.x) * (pb.y - pc.y)
  set r := (pa.y - pc.y) * (pb.x - pc.x)
  have hposiff {x k : ℚ} (hk : 0 < k) : 0 < x * k ↔ 0 < x := mul_pos_iff_of_pos_right hk
  have hnegiff {x k : ℚ} (hk : 0 < k) : x * k < 0 ↔ x < 0 := by
    rw [← neg_pos, ← neg_mul, hposiff hk, neg_pos]
  -- Whichever sign the rounded determinant has, the exact one has it.
  have hpositive (hrounded : 0 < l * f - r * g) (hexact : r < l) :
      orientationOf (rnd (δ 6) (l * f - r * g)) = orientationOf (l - r) :=
    orientationOf_congr
      (iff_of_true ((rnd_pos_iff (hδ 6) _).mpr hrounded) (sub_pos.mpr hexact))
      (iff_of_false ((rnd_pos_iff (hδ 6) _).mpr hrounded).le.not_gt (sub_pos.mpr hexact).le.not_gt)
  have hnegative (hrounded : l * f - r * g < 0) (hexact : l < r) :
      orientationOf (rnd (δ 6) (l * f - r * g)) = orientationOf (l - r) :=
    orientationOf_congr
      (iff_of_false ((rnd_neg_iff (hδ 6) _).mpr hrounded).le.not_gt (sub_neg.mpr hexact).le.not_gt)
      (iff_of_true ((rnd_neg_iff (hδ 6) _).mpr hrounded) (sub_neg.mpr hexact))
  dsimp only at h
  split_ifs at h with hl hr hbeyond hl' hr' hbeyond' <;> simp only [Option.some.injEq] at h <;>
    subst h
  · have hrnonpos : r ≤ 0 := not_lt.mp ((hposiff hgpos).not.mp hr.not_gt)
    exact hpositive (by linarith) (hrnonpos.trans_lt ((hposiff hfpos).mp hl))
  · rw [gt_iff_lt, ge_iff_le] at *
    rcases hbeyond with hbeyond | hbeyond
    · obtain ⟨hrounded, hexact⟩ :=
        lt_of_beyond (hδ 6) (hδ 7) (hδ 8) hl (not_le.mp hr) hf0 hf hg0 hbeyond
      exact hpositive hrounded hexact
    · have hswap : -rnd (δ 6) (l * f - r * g) = rnd (δ 6) (r * g - l * f) := by
        simp only [rnd]
        ring
      rw [hswap, add_comm (l * f)] at hbeyond
      obtain ⟨hrounded, hexact⟩ :=
        lt_of_beyond (hδ 6) (hδ 7) (hδ 8) (not_le.mp hr) hl hg0 hg hf0 hbeyond
      exact hnegative (by linarith) hexact
  · have hrnonneg : 0 ≤ r := not_lt.mp ((hnegiff hgpos).not.mp hr'.not_gt)
    exact hnegative (by linarith) (((hnegiff hfpos).mp hl').trans_le hrnonneg)
  · rw [gt_iff_lt, ge_iff_le] at *
    have hlneg : 0 < -l * f := by linarith
    have hrneg : 0 < -r * g := by linarith [not_le.mp hr']
    rcases hbeyond' with hbeyond | hbeyond
    · have hswap : l * f - r * g = -r * g - -l * f := by ring
      have hswap' : -(l * f) - r * g = -r * g + -l * f := by ring
      rw [hswap, hswap'] at hbeyond
      obtain ⟨hrounded, hexact⟩ :=
        lt_of_beyond (hδ 6) (hδ 7) (hδ 8) hrneg hlneg hg0 hg hf0 hbeyond
      exact hpositive (by linarith) (by linarith)
    · have hswap : -rnd (δ 6) (l * f - r * g) = rnd (δ 6) (-l * f - -r * g) := by
        simp only [rnd]
        ring
      have hswap' : -(l * f) - r * g = -l * f + -r * g := by ring
      rw [hswap, hswap'] at hbeyond
      obtain ⟨hrounded, hexact⟩ :=
        lt_of_beyond (hδ 6) (hδ 7) (hδ 8) hlneg hrneg hf0 hf hg0 hbeyond
      exact hnegative (by linarith) (by linarith)
  · have hzero : l * f = 0 := le_antisymm (not_lt.mp hl) (not_lt.mp hl')
    have hlzero : l = 0 := (mul_eq_zero.mp hzero).resolve_right hfpos.ne'
    refine orientationOf_congr ((rnd_pos_iff (hδ 6) _).trans ?_) ((rnd_neg_iff (hδ 6) _).trans ?_)
    · rw [hlzero, zero_mul, zero_sub, zero_sub, neg_pos, neg_pos, hnegiff hgpos]
    · rw [hlzero, zero_mul, zero_sub, zero_sub, neg_lt_zero, neg_lt_zero, hposiff hgpos]

end

/-! ## The filters of space and of circles -/

variable {det errbound exact : ℚ}

theorem accept_eq_some {α : Type} {positive negative o : α}
    (h : accept positive negative det errbound = some o) (hle : exact ≤ 0 → det ≤ errbound)
    (hge : 0 ≤ exact → -errbound ≤ det) :
    0 < exact ∧ o = positive ∨ exact < 0 ∧ o = negative := by
  unfold accept at h
  split_ifs at h with hpos hneg
  · exact Or.inl ⟨not_le.mp fun hexact ↦ hpos.not_ge (hle hexact), (Option.some.inj h).symm⟩
  · exact Or.inr ⟨not_le.mp fun hexact ↦ hneg.not_ge (hge hexact), (Option.some.inj h).symm⟩

theorem orientationOf_of_accept {o : Orientation}
    (h : accept .counterClockwise .clockwise det errbound = some o)
    (hle : exact ≤ 0 → det ≤ errbound) (hge : 0 ≤ exact → -errbound ≤ det) :
    o = orientationOf exact := by
  rcases accept_eq_some h hle hge with ⟨hexact, rfl⟩ | ⟨hexact, rfl⟩
  · rw [orientationOf, if_pos hexact]
  · rw [orientationOf, if_neg hexact.le.not_gt, if_pos hexact]

theorem locationOf_of_accept {o : CircleLocation}
    (h : accept .inside .outside det errbound = some o)
    (hle : exact ≤ 0 → det ≤ errbound) (hge : 0 ≤ exact → -errbound ≤ det) :
    o = locationOf exact := by
  rcases accept_eq_some h hle hge with ⟨hexact, rfl⟩ | ⟨hexact, rfl⟩
  · rw [locationOf, if_pos hexact]
  · rw [locationOf, if_neg hexact.le.not_gt, if_pos hexact]

section

variable {δ η : ℕ → ℚ} {i j : ℕ} {a b c d a' b' c' d' A B C D : ℚ}

section

variable (hδ : Bounded δ)

include hδ

theorem approx_diff (k : ℕ) (p q : ℚ) : Approx EPS 1 (p - q) |p - q| (rnd (δ k) (p - q)) :=
  (Approx.exact EPS (p - q)).rnd EPS_nonneg (hδ k)

theorem approx_mul (k : ℕ) (ha : Approx EPS i a A a') (hb : Approx EPS j b B b') :
    Approx EPS (i + j + 1) (a * b) (A * B) (rnd (δ k) (a' * b')) :=
  (ha.mul EPS_nonneg hb).rnd EPS_nonneg (hδ k)

theorem approx_minor (k : ℕ) (ha : Approx EPS i a A a') (hb : Approx EPS j b B b')
    (hc : Approx EPS i c C c') (hd : Approx EPS j d D d') :
    Approx EPS (i + j + 2) (a * b - c * d) (A * B + C * D) (minor δ k a' b' c' d') :=
  ((approx_mul hδ k ha hb).sub (approx_mul hδ (k + 1) hc hd)).rnd EPS_nonneg (hδ (k + 2))

theorem approx_minorPlus (k : ℕ) (ha : Approx EPS i a A a') (hb : Approx EPS j b B b')
    (hc : Approx EPS i c C c') (hd : Approx EPS j d D d') :
    Approx EPS (i + j + 2) (a * b + c * d) (A * B + C * D) (minorPlus δ k a' b' c' d') :=
  ((approx_mul hδ k ha hb).add (approx_mul hδ (k + 1) hc hd)).rnd EPS_nonneg (hδ (k + 2))

end

section

variable (hη : Bounded η)

include hη

theorem above_abs_diff (k : ℕ) (p q : ℚ) : Above EPS 1 |p - q| |rnd (η k) (p - q)| :=
  Above.abs_rnd EPS_lt_one.le (p - q) (hη k)

theorem above_mul (k : ℕ) (ha : Above EPS i A a) (hb : Above EPS j B b) :
    Above EPS (i + j + 1) (A * B) (rnd (η k) (a * b)) :=
  (ha.mul EPS_lt_one.le hb).rnd EPS_lt_one.le (hη k)

theorem above_add (k : ℕ) (ha : Above EPS i A a) (hb : Above EPS i B b) :
    Above EPS (i + 1) (A + B) (rnd (η k) (a + b)) :=
  (ha.add hb).rnd EPS_lt_one.le (hη k)

theorem above_minorPlus (k : ℕ) (ha : Above EPS i A a) (hb : Above EPS j B b)
    (hc : Above EPS i C c) (hd : Above EPS j D d) :
    Above EPS (i + j + 2) (A * B + C * D) (minorPlus η k a b c d) :=
  above_add hη (k + 2) (above_mul hη k ha hb) (above_mul hη (k + 1) hc hd)

theorem above_three (k l : ℕ) (ha : Above EPS i A a) (hb : Above EPS i B b) (hc : Above EPS i C c) :
    Above EPS (i + 2) (A + B + C) (rnd (η k) (rnd (η l) (a + b) + c)) :=
  above_add hη k (above_add hη l ha hb)
    (hc.mono EPS_nonneg EPS_lt_one.le i.le_succ)

/-- The factor of a bound is large enough where it exceeds the factor of the error. -/
theorem le_errbound (k n : ℕ) {κ e P q : ℚ} (hq : Above EPS n P q) (he : 0 ≤ e)
    (hfactor : (1 + EPS) ^ 2 * κ ≤ (1 - EPS) ^ (n + 1) * e) :
    (1 + EPS) ^ 2 * (κ * P) ≤ rnd (η k) (e * q) :=
  calc (1 + EPS) ^ 2 * (κ * P) = (1 + EPS) ^ 2 * κ * P := by ring
    _ ≤ (1 - EPS) ^ (n + 1) * e * P := mul_le_mul_of_nonneg_right hfactor hq.nonneg
    _ = (1 - EPS) ^ (n + 1) * (e * P) := by ring
    _ ≤ rnd (η k) (e * q) := ((hq.scale he).rnd EPS_lt_one.le (hη k)).low

end

variable (hδ : Bounded δ) (hη : Bounded η)

include hδ hη

theorem orient3dFilter_sound {pa pb pc pd : Vector3} {o : Orientation}
    (h : orient3dFilter δ η pa pb pc pd = some o) :
    o = orientationOf (orient3dDet pa pb pc pd) := by
  have x₁ := approx_mul hδ 18 (approx_diff hδ 0 pa.x pd.x)
    (approx_minor hδ 9 (approx_diff hδ 4 pb.y pd.y) (approx_diff hδ 8 pc.z pd.z)
      (approx_diff hδ 5 pb.z pd.z) (approx_diff hδ 7 pc.y pd.y))
  have x₂ := approx_mul hδ 19 (approx_diff hδ 1 pa.y pd.y)
    (approx_minor hδ 12 (approx_diff hδ 5 pb.z pd.z) (approx_diff hδ 6 pc.x pd.x)
      (approx_diff hδ 3 pb.x pd.x) (approx_diff hδ 8 pc.z pd.z))
  have x₃ := approx_mul hδ 20 (approx_diff hδ 2 pa.z pd.z)
    (approx_minor hδ 15 (approx_diff hδ 3 pb.x pd.x) (approx_diff hδ 7 pc.y pd.y)
      (approx_diff hδ 4 pb.y pd.y) (approx_diff hδ 6 pc.x pd.x))
  have hpermanent := above_three hη 22 21
    (above_mul hη 18 (above_abs_diff hη 0 pa.x pd.x)
      (above_minorPlus hη 9 (above_abs_diff hη 4 pb.y pd.y) (above_abs_diff hη 8 pc.z pd.z)
        (above_abs_diff hη 5 pb.z pd.z) (above_abs_diff hη 7 pc.y pd.y)))
    (above_mul hη 19 (above_abs_diff hη 1 pa.y pd.y)
      (above_minorPlus hη 12 (above_abs_diff hη 5 pb.z pd.z) (above_abs_diff hη 6 pc.x pd.x)
        (above_abs_diff hη 3 pb.x pd.x) (above_abs_diff hη 8 pc.z pd.z)))
    (above_mul hη 20 (above_abs_diff hη 2 pa.z pd.z)
      (above_minorPlus hη 15 (above_abs_diff hη 3 pb.x pd.x) (above_abs_diff hη 7 pc.y pd.y)
        (above_abs_diff hη 4 pb.y pd.y) (above_abs_diff hη 6 pc.x pd.x)))
  have hbound := le_errbound hη 23 8 (κ := ((1 + EPS) ^ 6 - 1 + charged EPS 6) / 2) hpermanent
    (e := O3DERRBOUNDSA) (by norm_num [O3DERRBOUNDSA, EPS])
    (by norm_num [O3DERRBOUNDSA, EPS, charged])
  refine orientationOf_of_accept h (fun hexact ↦ ?_) fun hexact ↦ ?_
  · have hge := three_ge EPS_nonneg EPS_lt_one x₁ x₂ x₃ (hδ 21) (hδ 22) (sub_nonpos.mp hexact)
    exact (neg_le.mp hge).trans hbound
  · have hle := three_le EPS_nonneg EPS_lt_one x₁ x₂ x₃ (hδ 21) (hδ 22) (sub_nonneg.mp hexact)
    exact neg_le_neg (hle.trans hbound)

theorem incircleFilter_sound {pa pb pc pd : Vector2} {l : CircleLocation}
    (h : incircleFilter δ η pa pb pc pd = some l) : l = locationOf (incircleDet pa pb pc pd) := by
  have adx := approx_diff hδ 0 pa.x pd.x
  have ady := approx_diff hδ 1 pa.y pd.y
  have bdx := approx_diff hδ 2 pb.x pd.x
  have bdy := approx_diff hδ 3 pb.y pd.y
  have cdx := approx_diff hδ 4 pc.x pd.x
  have cdy := approx_diff hδ 5 pc.y pd.y
  have x₁ := approx_mul hδ 24 (approx_minorPlus hδ 15 adx adx ady ady)
    (approx_minor hδ 9 bdx cdy cdx bdy)
  have x₂ := approx_mul hδ 25 (approx_minorPlus hδ 18 bdx bdx bdy bdy)
    (approx_minor hδ 12 cdx ady adx cdy)
  have x₃ := approx_mul hδ 26 (approx_minorPlus hδ 21 cdx cdx cdy cdy)
    (approx_minor hδ 6 adx bdy bdx ady)
  have adx' := above_abs_diff hη 0 pa.x pd.x
  have ady' := above_abs_diff hη 1 pa.y pd.y
  have bdx' := above_abs_diff hη 2 pb.x pd.x
  have bdy' := above_abs_diff hη 3 pb.y pd.y
  have cdx' := above_abs_diff hη 4 pc.x pd.x
  have cdy' := above_abs_diff hη 5 pc.y pd.y
  have p₁ := above_mul hη 24 (above_minorPlus hη 15 adx' adx' ady' ady')
    (above_minorPlus hη 9 bdx' cdy' cdx' bdy')
  have p₂ := above_mul hη 25 (above_minorPlus hη 18 bdx' bdx' bdy' bdy')
    (above_minorPlus hη 12 cdx' ady' adx' cdy')
  have p₃ := above_mul hη 26 (above_minorPlus hη 21 cdx' cdx' cdy' cdy')
    (above_minorPlus hη 6 adx' bdy' bdx' ady')
  have hpermanent := above_three hη 28 27 p₁ p₂ p₃
  have hbound := le_errbound hη 29 11 (κ := ((1 + EPS) ^ 9 - 1 + charged EPS 9) / 2) hpermanent
    (e := ICCERRBOUNDSA) (by norm_num [ICCERRBOUNDSA, EPS])
    (by norm_num [ICCERRBOUNDSA, EPS, charged])
  refine locationOf_of_accept h (fun hexact ↦ ?_) fun hexact ↦ ?_
  · exact (three_le EPS_nonneg EPS_lt_one x₁ x₂ x₃ (hδ 27) (hδ 28) hexact).trans hbound
  · exact (neg_le_neg hbound).trans
      (three_ge EPS_nonneg EPS_lt_one x₁ x₂ x₃ (hδ 27) (hδ 28) hexact)

end

/-! ## The filter of spheres -/

def cofactorPermanent (a b c : Vector3) : ℚ :=
  |a.z| * (|b.x| * |c.y| + |c.x| * |b.y|) + |b.z| * (|a.x| * |c.y| + |c.x| * |a.y|) +
    |c.z| * (|a.x| * |b.y| + |b.x| * |a.y|)

/-- The permanent of the in-sphere determinant, with every squared distance and all twelve
products. -/
def liftedPermanent (pa pb pc pd pe : Vector3) : ℚ :=
  let a := pa.sub pe
  let b := pb.sub pe
  let c := pc.sub pe
  let d := pd.sub pe
  norm2 d * cofactorPermanent a b c + norm2 c * cofactorPermanent d a b +
    norm2 b * cofactorPermanent c d a + norm2 a * cofactorPermanent b c d

/-- What the in-sphere permanent is short of is made up for by the determinant's distance from zero.
-/
def InsphereCovered (pa pb pc pd pe : Vector3) : Prop :=
  16 * EPS * (liftedPermanent pa pb pc pd pe - inspherePermanent 0 pa pb pc pd pe) ≤
    |insphereDet pa pb pc pd pe|

section

variable {δ η : ℕ → ℚ}

structure Near (a a' : Vector3) : Prop where
  x : Approx EPS 1 a.x |a.x| a'.x
  y : Approx EPS 1 a.y |a.y| a'.y
  z : Approx EPS 1 a.z |a.z| a'.z

structure NearAbs (a a' : Vector3) : Prop where
  x : Above EPS 1 a.x a'.x
  y : Above EPS 1 a.y a'.y
  z : Above EPS 1 a.z a'.z

section

variable {a b c d a' b' c' d' : Vector3} (hδ : Bounded δ)

include hδ

theorem near_diff (k : ℕ) (p q : Vector3) : Near (p.sub q) (diff δ k p q) :=
  ⟨approx_diff hδ k p.x q.x, approx_diff hδ (k + 1) p.y q.y, approx_diff hδ (k + 2) p.z q.z⟩

theorem nearAbs_diff (k : ℕ) (p q : Vector3) : NearAbs (p.sub q).abs (diff δ k p q).abs :=
  ⟨above_abs_diff hδ k p.x q.x, above_abs_diff hδ (k + 1) p.y q.y,
    above_abs_diff hδ (k + 2) p.z q.z⟩

theorem approx_squaredNorm (k : ℕ) (ha : Near a a') :
    Approx EPS 5 (norm2 a) (norm2 a) (squaredNorm δ k a'.x a'.y a'.z) := by
  have h := ((approx_minorPlus hδ k ha.x ha.x ha.y ha.y).add
    ((approx_mul hδ (k + 3) ha.z ha.z).mono EPS_nonneg (Nat.le_succ 3))).rnd EPS_nonneg (hδ (k + 4))
  simp only [abs_mul_abs_self] at h
  exact h

theorem approx_planeMinor (k : ℕ) (ha : Near a a') (hb : Near b b') :
    Approx EPS 4 (a.x * b.y - b.x * a.y) (|a.x| * |b.y| + |b.x| * |a.y|)
      (minor δ k a'.x b'.y b'.x a'.y) :=
  approx_minor hδ k ha.x hb.y hb.x ha.y

theorem approx_cofactor {p q r P Q R p' q' r' : ℚ} (k : ℕ) (ha : Near a a') (hb : Near b b')
    (hc : Near c c') (hp : Approx EPS 4 p P p') (hq : Approx EPS 4 q Q q')
    (hr : Approx EPS 4 r R r') :
    Approx EPS 8 (a.z * p - b.z * q + c.z * r) (|a.z| * P + |b.z| * Q + |c.z| * R)
      (rnd (δ (k + 4)) (minor δ k a'.z p' b'.z q' + rnd (δ (k + 3)) (c'.z * r'))) :=
  ((approx_minor hδ k ha.z hp hb.z hq).add
    ((approx_mul hδ (k + 3) hc.z hr).mono EPS_nonneg (Nat.le_succ 6))).rnd EPS_nonneg (hδ (k + 4))

theorem approx_cofactorPlus {p q r P Q R p' q' r' : ℚ} (k : ℕ) (ha : Near a a') (hb : Near b b')
    (hc : Near c c') (hp : Approx EPS 4 p P p') (hq : Approx EPS 4 (-q) Q q')
    (hr : Approx EPS 4 r R r') :
    Approx EPS 8 (a.z * p - b.z * q + c.z * r) (|a.z| * P + |b.z| * Q + |c.z| * R)
      (rnd (δ (k + 4)) (minorPlus δ k a'.z p' b'.z q' + rnd (δ (k + 3)) (c'.z * r'))) := by
  have h := ((approx_minorPlus hδ k ha.z hp hb.z hq).add
    ((approx_mul hδ (k + 3) hc.z hr).mono EPS_nonneg (Nat.le_succ 6))).rnd EPS_nonneg (hδ (k + 4))
  rwa [mul_neg, ← sub_eq_add_neg] at h

theorem approx_swapMinor (k : ℕ) (ha : Near a a') (hb : Near b b') :
    Approx EPS 4 (-(b.x * a.y - a.x * b.y)) (|b.x| * |a.y| + |a.x| * |b.y|)
      (minor δ k a'.x b'.y b'.x a'.y) := by
  rw [neg_sub, add_comm]
  exact approx_planeMinor hδ k ha hb

end

theorem minorPlus_zero (k : ℕ) (a b c d : ℚ) : minorPlus 0 k a b c d = a * b + c * d := by
  simp only [minorPlus, Pi.zero_apply, rnd_zero]

theorem above_insphereDiffsPermanent {a b c d a' b' c' d' : Vector3} (hη : Bounded η)
    (ha : NearAbs a a') (hb : NearAbs b b') (hc : NearAbs c c') (hd : NearAbs d d') :
    Above EPS 9 (insphereDiffsPermanent 0 a b c d) (insphereDiffsPermanent η a' b' c' d') := by
  have hminor (k : ℕ) {p q p' q' : Vector3} (hp : NearAbs p p') (hq : NearAbs q q') :=
    above_minorPlus hη k hp.x hq.y hq.x hp.y
  have p₁ := above_minorPlus hη 30 (hminor 12 ha hb) hc.z (hminor 18 hc hd) ha.z
  have p₂ := above_minorPlus hη 33 (hminor 15 hb hc) hd.z (hminor 21 hd ha) hb.z
  have p₃ := above_minorPlus hη 36 (hminor 24 ha hc) hb.z (hminor 27 hb hd) ha.z
  have p₄ := above_minorPlus hη 39 (hminor 18 hc hd) hb.z (hminor 21 hd ha) hc.z
  have h := above_add hη 43 (above_add hη 42 p₁ p₂) (above_add hη 44 p₃ p₄)
  rw [insphereDiffsPermanent]
  simp only [minorPlus_zero, Pi.zero_apply, rnd_zero]
  exact h

theorem above_inspherePermanent (hη : Bounded η) (pa pb pc pd pe : Vector3) :
    Above EPS 9 (inspherePermanent 0 pa pb pc pd pe) (inspherePermanent η pa pb pc pd pe) := by
  have hzero (k : ℕ) (p : Vector3) : diff 0 k p pe = p.sub pe := by
    simp only [diff, Pi.zero_apply, rnd_zero, Vector3.sub]
  rw [inspherePermanent, hzero, hzero, hzero, hzero]
  exact above_insphereDiffsPermanent hη (nearAbs_diff hη 0 pa pe) (nearAbs_diff hη 3 pb pe)
    (nearAbs_diff hη 6 pc pe) (nearAbs_diff hη 9 pd pe)

/-- **Spheres**: what the filter answers is the side of the sphere, where the bound is enough. -/
theorem insphereFilter_sound (hδ : Bounded δ) (hη : Bounded η) {pa pb pc pd pe : Vector3}
    (hcovered : InsphereCovered pa pb pc pd pe) {l : CircleLocation}
    (h : insphereFilter δ η pa pb pc pd pe = some l) :
    l = locationOf (insphereDet pa pb pc pd pe) := by
  have a := near_diff hδ 0 pa pe
  have b := near_diff hδ 3 pb pe
  have c := near_diff hδ 6 pc pe
  have d := near_diff hδ 9 pd pe
  have ab := approx_planeMinor hδ 12 a b
  have bc := approx_planeMinor hδ 15 b c
  have cd := approx_planeMinor hδ 18 c d
  have da := approx_planeMinor hδ 21 d a
  have x₁ := approx_mul hδ 70 (approx_squaredNorm hδ 65 d)
    (approx_cofactor hδ 30 a b c bc (approx_planeMinor hδ 24 a c) ab)
  have x₂ := approx_mul hδ 71 (approx_squaredNorm hδ 60 c)
    (approx_cofactorPlus hδ 45 d a b ab (approx_swapMinor hδ 27 b d) da)
  have x₃ := approx_mul hδ 72 (approx_squaredNorm hδ 55 b)
    (approx_cofactorPlus hδ 40 c d a da (approx_swapMinor hδ 24 a c) cd)
  have x₄ := approx_mul hδ 73 (approx_squaredNorm hδ 50 a)
    (approx_cofactor hδ 35 b c d cd (approx_planeMinor hδ 27 b d) bc)
  have hpermanent := above_inspherePermanent hη pa pb pc pd pe
  have hbound := le_errbound hη 45 9 (κ := charged EPS 14) hpermanent
    (e := ISPERRBOUNDSA) (by norm_num [ISPERRBOUNDSA, EPS])
    (by norm_num [ISPERRBOUNDSA, EPS, charged])
  have hcharged0 : 0 ≤ charged EPS 14 := by norm_num [charged, EPS]
  have hcharged : charged EPS 14 ≤ 16 * EPS := by norm_num [charged, EPS]
  have hshort : charged EPS 14 *
      (liftedPermanent pa pb pc pd pe - inspherePermanent 0 pa pb pc pd pe) ≤
        |insphereDet pa pb pc pd pe| := by
    rcases le_total (inspherePermanent 0 pa pb pc pd pe) (liftedPermanent pa pb pc pd pe)
      with hle | hle
    · exact (mul_le_mul_of_nonneg_right hcharged (sub_nonneg.mpr hle)).trans hcovered
    · exact (mul_nonpos_of_nonneg_of_nonpos hcharged0 (sub_nonpos.mpr hle)).trans (abs_nonneg _)
  rw [mul_sub, sub_le_iff_le_add] at hshort
  have hc := mul_nonneg hcharged0 hpermanent.nonneg
  refine locationOf_of_accept h (fun hexact ↦ ?_) fun hexact ↦ ?_
  · rw [abs_of_nonpos hexact] at hshort
    have hsum : insphereDet pa pb pc pd pe + charged EPS 14 * liftedPermanent pa pb pc pd pe ≤
        charged EPS 14 * inspherePermanent 0 pa pb pc pd pe := by linarith
    exact (four_le EPS_nonneg EPS_lt_one x₁ x₂ x₃ x₄ (hδ 74) (hδ 75) (hδ 76) hc hsum).trans hbound
  · rw [abs_of_nonneg hexact] at hshort
    exact (neg_le_neg hbound).trans
      (four_ge EPS_nonneg EPS_lt_one x₁ x₂ x₃ x₄ (hδ 74) (hδ 75) (hδ 76) hc hshort)

end

/-! ## How far the bound of the in-sphere test falls short -/

/-- The terms of the in-sphere determinant, without their signs. -/
def insphereMagnitude (pa pb pc pd pe : Vector3) : ℚ :=
  let a := pa.sub pe
  let b := pb.sub pe
  let c := pc.sub pe
  let d := pd.sub pe
  |norm2 d * cofactor a b c| + |norm2 c * cofactor d a b| + |norm2 b * cofactor c d a| +
    |norm2 a * cofactor b c d|

def lastErrors (e₁ e₂ e₃ e₄ : ℚ) (k : ℕ) : ℚ :=
  match k with
  | 70 => e₁
  | 71 => e₂
  | 72 => e₃
  | 73 => e₄
  | _ => 0

theorem insphereFast_lastErrors (e₁ e₂ e₃ e₄ : ℚ) (pa pb pc pd pe : Vector3) :
    insphereFast (lastErrors e₁ e₂ e₃ e₄) pa pb pc pd pe =
      insphereDet pa pb pc pd pe +
        (norm2 (pd.sub pe) * cofactor (pa.sub pe) (pb.sub pe) (pc.sub pe) * e₁ -
          norm2 (pc.sub pe) * cofactor (pd.sub pe) (pa.sub pe) (pb.sub pe) * e₂ +
          norm2 (pb.sub pe) * cofactor (pc.sub pe) (pd.sub pe) (pa.sub pe) * e₃ -
          norm2 (pa.sub pe) * cofactor (pb.sub pe) (pc.sub pe) (pd.sub pe) * e₄) := by
  simp only [insphereFast, insphereDiffs, squaredNorm, minor, minorPlus, diff, lastErrors, rnd_zero,
    Nat.reduceAdd, zero_add]
  simp only [rnd, insphereDet, norm2, cofactor, Vector3.sub]
  ring

/-- Some error of at most the unit roundoff makes a term smaller by so much of its magnitude. -/
theorem exists_error (t s : ℚ) (hs : |s| ≤ EPS) : ∃ e, |e| ≤ EPS ∧ t * e = |t| * s := by
  rcases le_total 0 t with ht | ht
  · exact ⟨s, hs, by rw [abs_of_nonneg ht]⟩
  · exact ⟨-s, by rwa [abs_neg], by rw [abs_of_nonpos ht, mul_neg, neg_mul]⟩

theorem exists_insphereFast (pa pb pc pd pe : Vector3) (s : ℚ) (hs : |s| ≤ EPS) :
    ∃ δ, Bounded δ ∧ insphereFast δ pa pb pc pd pe =
      insphereDet pa pb pc pd pe + insphereMagnitude pa pb pc pd pe * s := by
  set t₁ := norm2 (pd.sub pe) * cofactor (pa.sub pe) (pb.sub pe) (pc.sub pe) with ht₁
  set t₂ := norm2 (pc.sub pe) * cofactor (pd.sub pe) (pa.sub pe) (pb.sub pe) with ht₂
  set t₃ := norm2 (pb.sub pe) * cofactor (pc.sub pe) (pd.sub pe) (pa.sub pe) with ht₃
  set t₄ := norm2 (pa.sub pe) * cofactor (pb.sub pe) (pc.sub pe) (pd.sub pe) with ht₄
  obtain ⟨e₁, he₁, h₁⟩ := exists_error t₁ s hs
  obtain ⟨e₂, he₂, h₂⟩ := exists_error t₂ (-s) (by rwa [abs_neg])
  obtain ⟨e₃, he₃, h₃⟩ := exists_error t₃ s hs
  obtain ⟨e₄, he₄, h₄⟩ := exists_error t₄ (-s) (by rwa [abs_neg])
  refine ⟨lastErrors e₁ e₂ e₃ e₄, fun k ↦ ?_, ?_⟩
  · unfold lastErrors
    split
    · exact he₁
    · exact he₂
    · exact he₃
    · exact he₄
    · exact abs_zero.trans_le EPS_nonneg
  · rw [insphereFast_lastErrors, ← ht₁, ← ht₂, ← ht₃, ← ht₄, h₁, h₂, h₃, h₄, insphereMagnitude]
    simp only [← ht₁, ← ht₂, ← ht₃, ← ht₄]
    ring

/-- The in-sphere test is right from its first stage on these points, however it is rounded. -/
def InsphereSound (pa pb pc pd pe : Vector3) : Prop :=
  ∀ δ η, Bounded δ → Bounded η → ∀ l, insphereFilter δ η pa pb pc pd pe = some l →
    l = locationOf (insphereDet pa pb pc pd pe)

theorem bounded_zero : Bounded 0 := fun _ ↦ abs_zero.trans_le EPS_nonneg

/-- A filter that is right has a bound above the rounding of the four last products. -/
theorem InsphereSound.magnitude_le {pa pb pc pd pe : Vector3} (h : InsphereSound pa pb pc pd pe) :
    EPS * insphereMagnitude pa pb pc pd pe ≤
      |insphereDet pa pb pc pd pe| + ISPERRBOUNDSA * inspherePermanent 0 pa pb pc pd pe := by
  by_contra! hlt
  have hpermanent := (above_inspherePermanent bounded_zero pa pb pc pd pe).nonneg
  have hbound := mul_nonneg (show (0 : ℚ) ≤ ISPERRBOUNDSA by norm_num [ISPERRBOUNDSA, EPS])
    hpermanent
  have hEPS : |EPS| = EPS := abs_of_nonneg EPS_nonneg
  rcases le_or_gt 0 (insphereDet pa pb pc pd pe) with hexact | hexact
  · rw [abs_of_nonneg hexact] at hlt
    obtain ⟨δ, hδ, hfast⟩ := exists_insphereFast pa pb pc pd pe (-EPS) (by rw [abs_neg, hEPS])
    have hfilter : insphereFilter δ 0 pa pb pc pd pe = some .outside := by
      rw [insphereFilter, accept, hfast, Pi.zero_apply, rnd_zero, if_neg (by linarith),
        if_pos (by linarith)]
    have hlocation := h δ 0 hδ bounded_zero _ hfilter
    simp only [locationOf] at hlocation
    split_ifs at hlocation with hpos hneg
    exact hexact.not_gt hneg
  · rw [abs_of_neg hexact] at hlt
    obtain ⟨δ, hδ, hfast⟩ := exists_insphereFast pa pb pc pd pe EPS hEPS.le
    have hfilter : insphereFilter δ 0 pa pb pc pd pe = some .inside := by
      rw [insphereFilter, accept, hfast, Pi.zero_apply, rnd_zero, if_pos (by linarith)]
    have hlocation := h δ 0 hδ bounded_zero _ hfilter
    rw [locationOf, if_neg hexact.le.not_gt, if_pos hexact] at hlocation
    exact nomatch hlocation

/-- **The first stages**: the filters of the plane, of space and of circles are right however each
operation is rounded; that of spheres where its bound covers the permanent, and only where the bound
is above the rounding of the last products. -/
theorem filters_sound {δ η : ℕ → ℚ} (hδ : Bounded δ) (hη : Bounded η) :
    (∀ pa pb pc o, orient2dFilter δ pa pb pc = some o → o = orientationOf (orientDet pa pb pc)) ∧
    (∀ pa pb pc pd o, orient3dFilter δ η pa pb pc pd = some o →
      o = orientationOf (orient3dDet pa pb pc pd)) ∧
    (∀ pa pb pc pd l, incircleFilter δ η pa pb pc pd = some l →
      l = locationOf (incircleDet pa pb pc pd)) ∧
    ∀ pa pb pc pd pe,
      (InsphereCovered pa pb pc pd pe → InsphereSound pa pb pc pd pe) ∧
      (InsphereSound pa pb pc pd pe → EPS * insphereMagnitude pa pb pc pd pe ≤
        |insphereDet pa pb pc pd pe| + ISPERRBOUNDSA * inspherePermanent 0 pa pb pc pd pe) :=
  ⟨fun _ _ _ _ h ↦ orient2dFilter_sound hδ h, fun _ _ _ _ _ h ↦ orient3dFilter_sound hδ hη h,
    fun _ _ _ _ _ h ↦ incircleFilter_sound hδ hη h,
    fun _ _ _ _ _ ↦ ⟨fun hcovered _ _ hδ hη _ h ↦ insphereFilter_sound hδ hη hcovered h,
      fun h ↦ h.magnitude_le⟩⟩

/-- Five corners of a cube of half a unit lie on a sphere, and the bound is enough for them. -/
theorem filters_sound_cube : InsphereSound ⟨0, 0, 0⟩ ⟨1 / 2, 0, 0⟩ ⟨0, 1 / 2, 0⟩ ⟨0, 0, 1 / 2⟩
    ⟨1 / 2, 1 / 2, 1 / 2⟩ :=
  ((filters_sound bounded_zero bounded_zero).2.2.2 _ _ _ _ _).1
    (by unfold InsphereCovered; decide +kernel)

/-- Five points of a sphere: the answer is that the last of them is outside. -/
theorem not_insphereSound_far : ¬ InsphereSound ⟨100003, 200006, 200006⟩ ⟨200006, 100003, 200006⟩
    ⟨200006, 200006, 100003⟩ ⟨-100003, 200006, 200006⟩ ⟨0, 300009, 0⟩ := by
  intro h
  have hlocation := h (lastErrors (-EPS) 0 0 0) 0 (fun k ↦ ?_) bounded_zero .outside
    (by decide +kernel)
  · exact absurd hlocation (by decide +kernel)
  · unfold lastErrors
    split
    · rw [abs_neg, abs_of_nonneg EPS_nonneg]
    all_goals exact abs_zero.trans_le EPS_nonneg

end RosheraCad
