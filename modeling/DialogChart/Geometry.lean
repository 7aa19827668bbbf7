import DialogChart.Coordinate
import DialogChart.Json.Value

/-!
# Points, sizes and boxes

Coordinates grow to the right and downwards.  A box is given by its two extreme corners.
-/

namespace DialogChart

/-- A point of the plane. -/
structure Point (α : Type) where
  x : α
  y : α
  deriving DecidableEq, Repr

/-- A width and a height. -/
structure Size (α : Type) where
  width : α
  height : α
  deriving DecidableEq, Repr

/-- An upright rectangle. -/
structure Box (α : Type) where
  minX : α
  minY : α
  maxX : α
  maxY : α
  deriving DecidableEq, Repr

namespace Box

variable {α : Type} [Coordinate α]

/-- The box with a given top left corner and size. -/
def ofCorner (corner : Point α) (size : Size α) : Box α :=
  ⟨corner.x, corner.y, corner.x + size.width, corner.y + size.height⟩

/-- The width of a box. -/
def width (b : Box α) : α :=
  b.maxX - b.minX

/-- The height of a box. -/
def height (b : Box α) : α :=
  b.maxY - b.minY

/-- Whether two boxes have an inner point in common. -/
def intersects (a b : Box α) : Bool :=
  Coordinate.below a.minX b.maxX && Coordinate.below b.minX a.maxX &&
    (Coordinate.below a.minY b.maxY && Coordinate.below b.minY a.maxY)

end Box

/-- The JSON value of a point. -/
def Point.toJson (p : Point Float32) : Json.Value :=
  .object [("x", .number (.single p.x)), ("y", .number (.single p.y))]

/-- The JSON value of a size. -/
def Size.toJson (s : Size Float32) : Json.Value :=
  .object [("width", .number (.single s.width)), ("height", .number (.single s.height))]

end DialogChart
