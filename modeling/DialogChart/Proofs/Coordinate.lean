import DialogChart.Coordinate
import Mathlib.Algebra.Order.Field.Rat

/-!
# Exact arithmetic

The operations of a layout over the rational numbers, without rounding.
-/

namespace DialogChart

/-- Exact coordinates.  There is no infinite rank among them; a rank is missing only where nothing
is sorted, so any number may stand in for it. -/
instance : Coordinate ℚ where
  half x := x / 2
  larger := max
  magnitude x := |x|
  ofCount n := n
  below x y := x < y
  atMost x y := x ≤ y
  precedes x y := x ≤ y
  unranked := 0

namespace Coordinate

@[simp] lemma half_rat (x : ℚ) : half x = x / 2 := rfl

@[simp] lemma larger_rat (x y : ℚ) : larger x y = max x y := rfl

@[simp] lemma ofCount_rat (n : Nat) : (ofCount n : ℚ) = n := rfl

@[simp] lemma magnitude_rat (x : ℚ) : magnitude x = |x| := rfl

@[simp] lemma below_rat (x y : ℚ) : below x y = decide (x < y) := rfl

@[simp] lemma atMost_rat (x y : ℚ) : atMost x y = decide (x ≤ y) := rfl

end Coordinate

end DialogChart
