import DialogChart.Layout.Basic
import DialogChart.Palette

/-!
# Diagrams

A diagram is what a renderer needs: the turns of a graph with their places and colours, the
edges, and the size of a turn.
-/

namespace DialogChart

/-- A turn with its place, if it was laid out, and its colour. -/
structure DiagramTurn (κ : Type) where
  turn : Turn
  position : Option (Point Float32)
  color : κ

/-- A graph with places and colours. -/
structure Diagram (κ : Type) where
  turns : List (DiagramTurn κ)
  edges : List Edge
  nodeSize : Size Float32

namespace Diagram

variable {κ : Type}

/-- Join a graph with its layout, and colour its flows from a palette in the order of the
turns.  An empty palette makes them black. -/
def ofLayout (black : κ) (g : Graph) (layout : Layout Float32) (palette : Palette κ) :
    Logged (Diagram κ) :=
  let (colors, memo) := FlowColors.colorsOf black palette ∅ (g.turns.map (·.flow))
  let turns := g.turns.zipWith (fun t color => ⟨t, layout.position? t.id, color⟩) colors
  ⟨⟨turns, g.edges, layout.nodeSize⟩,
    [{ level := .debug
       message := "Assigned flow colors"
       fields := [("flows_count", .count memo.size)] }]⟩

/-- The first turn with an id. -/
def turn? (d : Diagram κ) (id : String) : Option (DiagramTurn κ) :=
  d.turns.find? (·.turn.id = id)

/-- The JSON value of a turn. -/
def turnJson (colors : ColorFormat κ) (t : DiagramTurn κ) : Json.Value :=
  .object [
    ("id", .text t.turn.id),
    ("label", .text t.turn.label),
    ("kind", .text t.turn.speaker.name),
    ("flow", .text t.turn.flow),
    ("position", match t.position with
      | some p => p.toJson
      | none => .null),
    ("color", .text (colors.text t.color))]

/-- The JSON value of a diagram. -/
def toJson (colors : ColorFormat κ) (d : Diagram κ) : Json.Value :=
  .object [
    ("nodes", .list (d.turns.map (turnJson colors))),
    ("edges", .list (d.edges.map Edge.shape.codec.write)),
    ("nodeSize", d.nodeSize.toJson)]

end Diagram

end DialogChart
