import DialogChart.Reference
import DialogChart.Table

/-!
# Plots

A plot describes a dialog as tables of records that refer to each other by id.  Nodes are the
turns of the bot; a transition leads from a node that lists it to the node in its label, under
a condition; links apply definitions to arguments; flows group nodes under a name.  The other
tables are carried along.
-/

namespace DialogChart

/-- The part that a node plays in the script. -/
inductive Role where
  /-- Its transitions apply from every node of the script. -/
  | global
  /-- Its transitions apply from every node of its flow. -/
  | perFlow
  /-- A turn of the bot. -/
  | regular
  deriving DecidableEq, Repr

/-- A turn of the bot, with the ids of the transitions that leave it. -/
structure Node where
  role : Role
  name : Option String := none
  transitions : List String := []
  response : Option Reference := none
  processing : Option Reference := none
  misc : Option Reference := none

/-- A step to the node in `label`, taken when `condition` holds. -/
structure Transition where
  label : Reference
  priority : Option Float := none
  condition : Option Reference := none

/-- An argument of a link: one reference, or a group of them. -/
inductive Argument where
  | single (r : Reference)
  | group (rs : List Reference)

/-- An application of `object`, a definition or another link, to arguments. -/
structure Link where
  object : Reference
  parent : Option Reference := none
  arguments : List Argument := []
  keywords : Table Argument := ∅

/-- A named symbol of the script. -/
structure Definition where
  name : String
  code : Option String := none

/-- A named group of nodes. -/
structure Flow where
  name : String
  nodes : List String := []

/-- A module that the script uses. -/
structure Import where
  name : String
  code : String
  comment : Option String := none

/-- A script, with the ids of its flows. -/
structure Script where
  name : String
  flows : List String := []

/-- What the bot says. -/
structure Response where
  object : Reference

/-- What is done around a turn. -/
structure Processing where
  items : List (Table Reference) := []

/-- Other settings of a node. -/
structure Misc where
  items : Table Reference := ∅

/-- A dialog as tables of records. -/
structure Plot where
  imports : Table Import := ∅
  definitions : Table Definition := ∅
  scripts : Table Script := ∅
  flows : Table Flow := ∅
  nodes : Table Node := ∅
  transitions : Table Transition := ∅
  responses : Table Response := ∅
  processings : Table Processing := ∅
  miscs : Table Misc := ∅
  links : Table Link := ∅

namespace Plot

/-- The first flow that lists a node. -/
def flowOf? (plot : Plot) (node : String) : Option Flow :=
  plot.flows.records.find? fun flow => node ∈ flow.nodes

/-- Add or replace a node. -/
def withNode (plot : Plot) (id : String) (node : Node) : Plot :=
  { plot with nodes := plot.nodes.insert id node }

/-- Add or replace a transition. -/
def withTransition (plot : Plot) (id : String) (transition : Transition) : Plot :=
  { plot with transitions := plot.transitions.insert id transition }

/-- Add or replace a link. -/
def withLink (plot : Plot) (id : String) (link : Link) : Plot :=
  { plot with links := plot.links.insert id link }

/-- Add or replace a definition. -/
def withDefinition (plot : Plot) (id : String) (definition : Definition) : Plot :=
  { plot with definitions := plot.definitions.insert id definition }

/-- Add or replace a flow. -/
def withFlow (plot : Plot) (id : String) (flow : Flow) : Plot :=
  { plot with flows := plot.flows.insert id flow }

end Plot

end DialogChart
