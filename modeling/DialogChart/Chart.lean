import DialogChart.Diagram
import DialogChart.Error
import DialogChart.Plot.Format
import DialogChart.Settings

/-!
# From a plot to a diagram

The steps of the program under given settings: read a plot, derive its graph, lay the graph
out, and render the diagram.  Every step keeps a log.
-/

namespace DialogChart.Chart

variable {κ : Type}

/-- Read a plot from its document. -/
def parse (numbers : Json.NumberReader) (source : String) : Logged (Except Error Plot) := do
  .write { level := .info, message := "Parsing plot" }
  match Plot.parse numbers source with
  | .error refusal => return .error (.plot refusal source)
  | .ok plot =>
    .write {
      level := .debug
      message := "Plot parsed successfully"
      fields := [("nodes_count", .count plot.nodes.size)] }
    .write { level := .trace, message := "Parsed plot" }
    return .ok plot

/-- Derive the graph of a plot. -/
def graph (settings : Settings) (plot : Plot) : Logged Graph := do
  .write { level := .info, message := "Building display graph" }
  plot.toGraphLogged settings.globalTransitions

/-- Lay a graph out. -/
def layout (settings : Settings) (g : Graph) : Logged (Layout Float32) := do
  .write { level := .info, message := "Calculating layout" }
  let layout ← Layout.logged settings.engine settings.layout g
  .write {
    level := .info
    message := "Layout calculated"
    fields := [("positioned_count", .count layout.size), ("nodes_count", .count g.size)] }
  return layout

/-- Derive, lay out and colour a plot. -/
def diagram (colors : ColorFormat κ) (settings : Settings) (plot : Plot) :
    Logged (Except Error (Diagram κ)) := do
  match settings.flowPalette colors with
  | .error message => return .error (.settings (.palette message))
  | .ok palette =>
    let g ← graph settings plot
    let layout ← layout settings g
    return .ok (← Diagram.ofLayout colors.black g layout palette)

/-- Render a plot as a document. -/
def render (colors : ColorFormat κ) (settings : Settings) (plot : Plot) :
    Logged (Except Error String) := do
  match ← diagram colors settings plot with
  | .error e => return .error e
  | .ok d =>
    .write { level := .info, message := "Diagram exported successfully" }
    return .ok (d.toJson colors).pretty

end DialogChart.Chart
