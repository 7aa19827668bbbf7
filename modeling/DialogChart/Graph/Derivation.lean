import DialogChart.Graph.Basic
import DialogChart.Log
import DialogChart.Plot.Condition

/-!
# The display graph of a plot

Every regular node with transitions is shown as a turn of the bot.  Each of its transitions
that leads to a known node is shown as a turn of the user, labelled with its condition, between
the node and the node it leads to; of several transitions of a node to the same target under
the same label only the first one is shown.  With fan-out, the transitions of global nodes are
shown from every such node as well, except from their own target.

Ids are expected to be unique across the plot.  Where they are not, the first turn with an id
stays and later ones are not added.
-/

namespace DialogChart

/-- What is done with the transitions of global nodes. -/
inductive GlobalTransitions where
  /-- They are not shown. -/
  | omit
  /-- They are shown from every regular node with transitions. -/
  | fanOut
  deriving DecidableEq, Repr

namespace Derivation

/-- What happened to a transition on the way, and the final count. -/
inductive Event where
  | noRecord (transition : String)
  | unknownTarget (transition label : String)
  | unlabelled (reason : Unlabelled)
  | collapsed (transition into : String)
  | derived (turns edges : Nat)

/-- The log record of an event. -/
def Event.record : Event → LogRecord
  | .noRecord t =>
    { level := .debug
      message := "Dropping transition without a record"
      fields := [("transition_id", .text t)] }
  | .unknownTarget t label =>
    { level := .debug
      message := "Dropping transition to an unknown node"
      fields := [("transition_id", .text t), ("label", .text label)] }
  | .unlabelled .notLink =>
    { level := .trace, message := "Condition is not a link" }
  | .unlabelled (.missingLink link) =>
    { level := .trace
      message := "Condition link not found"
      fields := [("link_id", .text link)] }
  | .unlabelled (.missingDefinition definition) =>
    { level := .trace
      message := "Condition definition not found"
      fields := [("definition_id", .text definition)] }
  | .unlabelled (.notDefinition link object) =>
    { level := .trace
      message := "Condition link does not name a definition"
      fields := [("link_id", .text link), ("object", .text object)] }
  | .collapsed t into =>
    { level := .trace
      message := "Collapsing duplicate transition"
      fields := [("transition_id", .text t), ("merged_into", .text into)] }
  | .derived turns edges =>
    { level := .debug
      message := "Graph derived from plot"
      fields := [("nodes_count", .count turns), ("edges_count", .count edges)] }

/-! ### Transitions that lead somewhere -/

/-- A transition that leads to a known node. -/
structure Step where
  transition : String
  target : String
  node : Node
  label : String

/-- The step of a transition id, if it has a record whose label is a known node, and what
happened on the way. -/
def step (plot : Plot) (t : String) : Option Step × List Event :=
  match plot.transitions.get? t with
  | none => (none, [.noRecord t])
  | some transition =>
    match transition.label.node?.bind fun id => (plot.nodes.get? id).map fun n => (id, n) with
    | none => (none, [.unknownTarget t transition.label.raw])
    | some (target, node) =>
      match plot.definitionName transition.condition with
      | .ok label => (some ⟨t, target, node, label⟩, [])
      | .error reason => (some ⟨t, target, node, unknownLabel⟩, [.unlabelled reason])

/-- The members of all flows, each with the name of its flow.  A node may be there more than once;
its first entry counts. -/
def flowIndex (plot : Plot) : List (String × String) :=
  plot.flows.records.flatMap fun flow => flow.nodes.map (·, flow.name)

/-- The flow that a node is shown in. -/
def flowName (plot : Plot) (node : String) : String :=
  ((flowIndex plot).lookup node).getD noFlow

/-! ### The graph under construction -/

/-- What a shown transition is known by: the node it starts from, the node it leads to and its
label. -/
structure Key where
  source : String
  target : String
  label : String
  deriving DecidableEq

/-- The key of a step from a node. -/
def Step.key (source : String) (s : Step) : Key :=
  ⟨source, s.target, s.label⟩

/-- A graph under construction, the transitions of nodes that are shown in it by their keys, and
what happened so far, last event first. -/
structure Draft where
  graph : Graph := {}
  shown : List (Key × String) := []
  events : List Event := []

namespace Draft

/-- Add a turn, unless its id is taken. -/
def addTurn (d : Draft) (t : Turn) : Draft :=
  if d.graph.turns.any (·.id = t.id) then d
  else { d with graph := { d.graph with turns := d.graph.turns ++ [t] } }

/-- Add an edge, unless it is there. -/
def addEdge (d : Draft) (e : Edge) : Draft :=
  if d.graph.edges.contains e then d
  else { d with graph := { d.graph with edges := d.graph.edges ++ [e] } }

/-- Note events. -/
def note (d : Draft) (events : List Event) : Draft :=
  { d with events := events.reverse ++ d.events }

/-- Remember that a step from a node is shown. -/
def remember (source : String) (s : Step) (d : Draft) : Draft :=
  { d with shown := Table.put (s.key source) s.transition d.shown }

/-- Add a turn of the bot. -/
def addNode (plot : Plot) (id : String) (node : Node) (d : Draft) : Draft :=
  d.addTurn ⟨id, node.name.getD noName, .bot, flowName plot id⟩

/-- Add a step from a node, as a turn of the user in the given flow. -/
def addStep (plot : Plot) (source flow : String) (s : Step) (d : Draft) : Draft :=
  let d := d.addEdge ⟨source, s.transition⟩
  let d := d.addTurn ⟨s.transition, s.label, .user, flow⟩
  let d := d.addNode plot s.target s.node
  d.addEdge ⟨s.transition, s.target⟩

end Draft

/-! ### The derivation -/

/-- Add a transition of a node, unless one to the same target under the same label is shown. -/
def addTransition (plot : Plot) (source : String) (d : Draft) (t : String) : Draft :=
  let (found, events) := step plot t
  let d := d.note events
  match found with
  | none => d
  | some s =>
    match d.shown.lookup (s.key source) with
    | some other => d.note [.collapsed t other]
    | none => (d.remember source s).addStep plot source (flowName plot source) s

/-- Whether a node is shown with its transitions. -/
def participates (node : Node) : Bool :=
  node.role = .regular && !node.transitions.isEmpty

/-- The steps of the global nodes, each with the flow of its node, and what happened. -/
def globalSteps (plot : Plot) : List (Step × String) × List Event :=
  plot.nodes.entries.foldl (fun acc (id, node) =>
    if node.role = .global then
      node.transitions.foldl (fun (steps, events) t =>
        let (found, more) := step plot t
        let found := found.toList.map fun s => (s, flowName plot id)
        (steps ++ found, events ++ more)) acc
    else acc) ([], [])

/-- Add a participating node with its transitions and the given global ones. -/
def addSource (plot : Plot) (globals : List (Step × String)) (d : Draft)
    (id : String) (node : Node) : Draft :=
  let d := d.addNode plot id node
  let d := node.transitions.foldl (addTransition plot id) d
  globals.foldl (fun d (s, flow) => if s.target = id then d else d.addStep plot id flow s) d

/-- Add a node of the plot, if it participates. -/
def addEntry (plot : Plot) (globals : List (Step × String)) (d : Draft) (entry : String × Node) :
    Draft :=
  if participates entry.2 then addSource plot globals d entry.1 entry.2 else d

/-- The graph of a plot and what happened on the way, last event first. -/
def run (mode : GlobalTransitions) (plot : Plot) : Draft :=
  let (globals, events) := match mode with
    | .omit => ([], [])
    | .fanOut => globalSteps plot
  let start : Draft := ({} : Draft).note events
  let d := plot.nodes.entries.foldl (addEntry plot globals) start
  d.note [.derived d.graph.turns.length d.graph.edges.length]

end Derivation

namespace Plot

/-- The display graph of a plot. -/
def toGraph (plot : Plot) (mode : GlobalTransitions) : Graph :=
  (Derivation.run mode plot).graph

/-- The display graph of a plot, with its log. -/
def toGraphLogged (plot : Plot) (mode : GlobalTransitions) : Logged Graph :=
  let d := Derivation.run mode plot
  ⟨d.graph, d.events.reverse.map (·.record)⟩

end Plot

end DialogChart
