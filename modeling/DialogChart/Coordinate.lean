import DialogChart.Number.Binary

/-!
# The arithmetic of a layout

A layout is computed from lengths by a handful of operations.  They are collected in a class,
so that the computation can be read over any kind of number: the program runs it over singles,
with their rounding, and it can be studied over exact fractions.
-/

namespace DialogChart

/-- The operations on coordinates, lengths and ranks. -/
class Coordinate (α : Type) extends Zero α, Add α, Sub α, Mul α where
  /-- Half of a length. -/
  half : α → α
  /-- The larger of two lengths. -/
  larger : α → α → α
  /-- The distance from zero. -/
  magnitude : α → α
  /-- A number of things. -/
  ofCount : Nat → α
  /-- Whether one length lies strictly below another. -/
  below : α → α → Bool
  /-- Whether one length is at most another. -/
  atMost : α → α → Bool
  /-- Whether one rank may stand before another when siblings are sorted. -/
  precedes : α → α → Bool
  /-- The rank that stands in for a missing one when siblings are sorted. -/
  unranked : α

/-- The place of a single in the order of all singles, in which `-0` lies below `0` and NaN
lies outside the infinities. -/
def sortKey (x : Float32) : Int :=
  let bits := x.toBits.toNat
  let sign := Number.Format.single.signBit
  if bits < sign then bits else (sign : Int) - 1 - bits

/-- Singles.  The larger of a NaN and another number is the other number, and a missing rank
counts as infinite. -/
instance : Coordinate Float32 where
  zero := 0
  half x := x / 2
  larger x y := if x.isNaN then y else if y.isNaN then x else if x < y then y else x
  magnitude x := x.abs
  ofCount n := Number.single false n 1
  below x y := x < y
  atMost x y := x ≤ y
  precedes x y := sortKey x ≤ sortKey y
  unranked := 1 / 0

end DialogChart
