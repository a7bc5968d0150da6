import Mathlib.Algebra.Order.Ring.Rat
import Mathlib.Tactic.Ring

/-!
# Points of the plane

Coordinates are rational numbers, and arithmetic on them is exact. Where rounding is the subject it
is made explicit there.
-/

namespace RosheraCad

/-- A point or a direction in the plane. -/
structure Vector2 where
  x : ℚ
  y : ℚ
  deriving DecidableEq, Inhabited

def Vector2.zero : Vector2 := ⟨0, 0⟩

def Vector2.cross (u v : Vector2) : ℚ := u.x * v.y - u.y * v.x

inductive Orientation
  | counterClockwise
  | clockwise
  | collinear
  deriving DecidableEq

def orientationOf (det : ℚ) : Orientation :=
  if det > 0 then .counterClockwise else if det < 0 then .clockwise else .collinear

/-- The orientation determinant, in the order of the factors it is computed in. -/
def orientDet (pa pb pc : Vector2) : ℚ :=
  (pa.x - pc.x) * (pb.y - pc.y) - (pa.y - pc.y) * (pb.x - pc.x)

def shoelace (points : List Vector2) : ℚ :=
  ((points.zip (points.rotate 1)).map fun (p, q) ↦ p.cross q).sum

/-- Exact orientation of a closed polygon. One of fewer than three points has none. -/
def signedArea2d (points : List Vector2) : Orientation :=
  if points.length < 3 then .collinear else orientationOf (shoelace points)

end RosheraCad
