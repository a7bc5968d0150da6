import Mathlib.Data.Int.Order.Basic

/-!
# Single-precision numbers

A number is its 32 bits. Comparison is that of IEEE 754: the bits below the sign are compared as an
integer with the sign of the number, so that the two zeros are equal. A number that is not one
compares with nothing.
-/

structure F32 where
  bits : UInt32
  deriving DecidableEq

namespace F32

def magnitude (x : F32) : UInt32 := x.bits &&& 0x7fffffff

def IsNaN (x : F32) : Prop := 0x7f800000 < x.magnitude

instance (x : F32) : Decidable x.IsNaN := inferInstanceAs (Decidable (_ < _))

/-- The position of a number in the order. -/
def key (x : F32) : ℤ := if x.bits &&& 0x80000000 = 0 then x.magnitude.toNat else -x.magnitude.toNat

instance : LT F32 := ⟨fun x y ↦ ¬ x.IsNaN ∧ ¬ y.IsNaN ∧ x.key < y.key⟩

instance : LE F32 := ⟨fun x y ↦ ¬ x.IsNaN ∧ ¬ y.IsNaN ∧ x.key ≤ y.key⟩

theorem lt_iff {x y : F32} : x < y ↔ ¬ x.IsNaN ∧ ¬ y.IsNaN ∧ x.key < y.key := Iff.rfl

theorem le_iff {x y : F32} : x ≤ y ↔ ¬ x.IsNaN ∧ ¬ y.IsNaN ∧ x.key ≤ y.key := Iff.rfl

instance (x y : F32) : Decidable (x < y) := decidable_of_iff _ lt_iff.symm

instance (x y : F32) : Decidable (x ≤ y) := decidable_of_iff _ le_iff.symm

theorem le_iff_not_lt {x y : F32} : y ≤ x ↔ ¬ x < y ∧ ¬ x.IsNaN ∧ ¬ y.IsNaN := by
  rw [lt_iff, le_iff]
  by_cases hx : x.IsNaN
  · simp [hx]
  · by_cases hy : y.IsNaN
    · simp [hy]
    · simp [hx, hy]

end F32
