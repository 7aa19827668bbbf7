import DialogChart.Layout.Packing
import DialogChart.Layout.Relaxation
import DialogChart.Log
import DialogChart.Table

/-!
# Layouts

A layout gives a top left corner to every turn that can be reached from the roots of a graph.
There are two engines.  The basic one stacks siblings in the order of the edges; the relaxed
one first ranks the turns and stacks siblings by rank.
-/

namespace DialogChart

/-- The corners of the turns that were laid out, in the order of the graph, and the size of
every turn. -/
structure Layout (α : Type) where
  positions : Table (Point α)
  nodeSize : Size α

namespace Layout

variable {α : Type}

/-- The top left corner of a turn. -/
def position? (layout : Layout α) (id : String) : Option (Point α) :=
  layout.positions.get? id

/-- The number of turns that were laid out. -/
def size (layout : Layout α) : Nat :=
  layout.positions.size

variable [Coordinate α]

/-- The box of a turn. -/
def bounds? (layout : Layout α) (id : String) : Option (Box α) :=
  (layout.position? id).map fun p => .ofCorner p layout.nodeSize

/-- The pairs of turns whose boxes have an inner point in common, in order. -/
def overlaps (layout : Layout α) : List (String × String) :=
  pairs (layout.positions.entries.map fun (id, p) => (id, Box.ofCorner p layout.nodeSize))
where
  /-- The overlapping pairs of a list of boxes. -/
  pairs : List (String × Box α) → List (String × String)
    | [] => []
    | (id, box) :: rest =>
      (rest.filter fun other => box.intersects other.2).map (fun other => (id, other.1)) ++
        pairs rest

end Layout

/-- The JSON value of a layout. -/
def Layout.toJson (layout : Layout Float32) : Json.Value :=
  .object [
    ("positions", .object (layout.positions.entries.map fun e => (e.1, e.2.toJson))),
    ("node_size", layout.nodeSize.toJson)]

/-- The ways to order siblings. -/
inductive Engine where
  | basic
  | relaxed
  deriving DecidableEq, Repr

/-- The settings of a layout. -/
structure LayoutSettings (α : Type) where
  spacing : Spacing α
  tension : Tension α

namespace LayoutSettings

/-- The settings for whoever asks for none. -/
def default : LayoutSettings Float32 where
  spacing := ⟨⟨160, 69⟩, 100, 40⟩
  tension := ⟨0.1, 0.01, 100, none⟩

end LayoutSettings

/-! ### What happens during a layout -/

/-- An event of a layout. -/
inductive LayoutEvent (α : Type) where
  | building
  | dangling (edge : Edge)
  | noRoot (stand : String)
  | packing (turns roots : Nat)
  | relaxing (turns roots iterations : Nat)
  | pass (iteration : Nat) (longest : α)
  | converged (iterations : Nat)
  | unplaced (turns : Nat)
  | calculated

/-- The log record of an event. -/
def LayoutEvent.record : LayoutEvent Float32 → LogRecord
  | .building => { level := .debug, message := "Building layout engine" }
  | .dangling edge =>
    { level := .debug
      message := "Ignoring edge with an unknown endpoint"
      fields := [("from", .text edge.source), ("to", .text edge.target)] }
  | .noRoot id =>
    { level := .debug
      message := "No root nodes, starting from smallest id"
      fields := [("node_id", .text id)] }
  | .packing turns roots =>
    { level := .debug
      message := "Packing graph"
      fields := [("nodes_count", .count turns), ("roots_count", .count roots)] }
  | .relaxing turns roots iterations =>
    { level := .debug
      message := "Relaxing graph"
      fields := [("nodes_count", .count turns), ("roots_count", .count roots),
        ("iterations", .count iterations)] }
  | .pass iteration longest =>
    { level := .trace
      message := "Relaxation step"
      fields := [("iteration", .count iteration), ("max_delta", .length longest)] }
  | .converged iterations =>
    { level := .debug
      message := "Relaxation converged early"
      fields := [("iterations", .count iterations)] }
  | .unplaced turns =>
    { level := .debug
      message := "Nodes unreachable from any root were not laid out"
      fields := [("unplaced", .count turns)] }
  | .calculated => { level := .trace, message := "Calculated layout" }

namespace Layout

variable {α : Type}

/-- The layout of the slots of a graph. -/
def ofSlots (g : Graph) (slots : Vector (Packing.Slot α) g.size) (nodeSize : Size α) :
    Layout α where
  positions := .ofList ((List.finRange g.size).filterMap fun i =>
    match slots.get i with
    | .placed _ corner => some ((g.turns.get i).id, corner)
    | _ => none)
  nodeSize := nodeSize

/-- The events before the turns are placed. -/
def openingEvents (g : Graph) (adj : Adjacency g.size) : List (LayoutEvent α) :=
  let standIn := match adj.orphans, g.smallest? with
    | [], some i => [.noRoot (g.turns.get i).id]
    | _, _ => []
  .building :: g.dangling.map .dangling ++ standIn

/-- The events of a relaxation. -/
def relaxationEvents {n : Nat} (outcome : Relaxation.Outcome α n) : List (LayoutEvent α) :=
  let passes := outcome.longest.zipIdx.map fun (longest, i) => .pass i longest
  passes ++ (if outcome.converged then [.converged outcome.longest.length] else [])

/-- The events after the turns are placed. -/
def closingEvents (g : Graph) (layout : Layout α) : List (LayoutEvent α) :=
  let unplaced := g.size - layout.size
  (if 0 < unplaced then [.unplaced unplaced] else []) ++ [.calculated]

variable [Coordinate α]

/-- The layout of a graph, and what happened on the way. -/
@[specialize] def compute (engine : Engine) (settings : LayoutSettings α) (g : Graph) :
    Layout α × List (LayoutEvent α) :=
  let adj := g.adjacency
  let roots := g.roots adj
  let (ranks, middle) := match engine with
    | .basic => (none, [LayoutEvent.packing g.size roots.length])
    | .relaxed =>
      let outcome := Relaxation.run settings.tension g adj roots
      (some outcome.ranks,
        .relaxing g.size roots.length settings.tension.iterations :: relaxationEvents outcome)
  let slots := Packing.run adj roots ranks settings.spacing
  let layout := ofSlots g slots settings.spacing.nodeSize
  (layout, openingEvents g adj ++ middle ++ closingEvents g layout)

/-- The layout of a graph. -/
def ofGraph (engine : Engine) (settings : LayoutSettings α) (g : Graph) : Layout α :=
  (compute engine settings g).1

end Layout

/-- The layout of a graph over singles, with its log. -/
def Layout.logged (engine : Engine) (settings : LayoutSettings Float32) (g : Graph) :
    Logged (Layout Float32) :=
  let (layout, events) := compute engine settings g
  ⟨layout, events.map (·.record)⟩

end DialogChart
