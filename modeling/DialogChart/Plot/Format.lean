import DialogChart.Plot.Basic

/-!
# The JSON form of plots

Every record is an object with one member per field.  Optional fields are left out when they
are absent, and so are the transitions of a node and the arguments of a link when there are
none; all other fields are always written.
-/

namespace DialogChart

open Json (Codec Field Shape Value)

namespace Role

/-- The name of a role. -/
def name : Role → String
  | .global => "global"
  | .perFlow => "local"
  | .regular => "regular"

/-- The JSON form: the name. -/
def codec : Codec Role :=
  .choice ([.global, .perFlow, .regular].map fun role => (name role, role)) name

end Role

/-- The JSON form of nodes. -/
def Node.shape : Shape Node where
  name := "Node"
  template := { role := .regular }
  fields :=
    [.mandatory "type" Role.codec (·.role) fun v r => { r with role := v },
      .optional "name" .text (·.name) fun v r => { r with name := v },
      .sparse "transitions" (.list .text) List.isEmpty (·.transitions) fun v r =>
        { r with transitions := v },
      .optional "response" Reference.codec (·.response) fun v r => { r with response := v },
      .optional "processing" Reference.codec (·.processing) fun v r => { r with processing := v },
      .optional "misc" Reference.codec (·.misc) fun v r => { r with misc := v }]

/-- The JSON form of transitions. -/
def Transition.shape : Shape Transition where
  name := "Transition"
  template := { label := ⟨""⟩ }
  fields :=
    [.mandatory "label" Reference.codec (·.label) fun v r => { r with label := v },
      .optional "priority" .double (·.priority) fun v r => { r with priority := v },
      .optional "condition" Reference.codec (·.condition) fun v r => { r with condition := v }]

namespace Argument

/-- The JSON value of an argument: a text, or a list of texts. -/
def write : Argument → Value
  | .single r => .text r.raw
  | .group rs => .list (rs.map fun r => .text r.raw)

/-- The text that a value is. -/
def text? : Value → Option Reference
  | .text s => some ⟨s⟩
  | _ => none

/-- The argument that a value stands for. -/
def ofValue? : Value → Option Argument
  | .text s => some (.single ⟨s⟩)
  | .list items => (items.mapM text?).map .group
  | _ => none

/-- The JSON form of arguments. -/
def codec : Codec Argument :=
  .shaped "Argument" write ofValue?

end Argument

/-- The JSON form of links. -/
def Link.shape : Shape Link where
  name := "Link"
  template := { object := ⟨""⟩ }
  fields :=
    [.mandatory "object" Reference.codec (·.object) fun v r => { r with object := v },
      .optional "parent" Reference.codec (·.parent) fun v r => { r with parent := v },
      .sparse "args" (.list Argument.codec) List.isEmpty (·.arguments) fun v r =>
        { r with arguments := v },
      .sparse "kwargs" (.table Argument.codec) Table.isEmpty (·.keywords) fun v r =>
        { r with keywords := v }]

/-- The JSON form of definitions. -/
def Definition.shape : Shape Definition where
  name := "Definition"
  template := { name := "" }
  fields :=
    [.mandatory "name" .text (·.name) fun v r => { r with name := v },
      .optional "code" .text (·.code) fun v r => { r with code := v }]

/-- The JSON form of flows. -/
def Flow.shape : Shape Flow where
  name := "Flow"
  template := { name := "" }
  fields :=
    [.mandatory "name" .text (·.name) fun v r => { r with name := v },
      .defaulted "nodes" (.list .text) (·.nodes) fun v r => { r with nodes := v }]

/-- The JSON form of imports. -/
def Import.shape : Shape Import where
  name := "Import"
  template := { name := "", code := "" }
  fields :=
    [.mandatory "name" .text (·.name) fun v r => { r with name := v },
      .mandatory "code" .text (·.code) fun v r => { r with code := v },
      .optional "comment" .text (·.comment) fun v r => { r with comment := v }]

/-- The JSON form of scripts. -/
def Script.shape : Shape Script where
  name := "Script"
  template := { name := "" }
  fields :=
    [.mandatory "name" .text (·.name) fun v r => { r with name := v },
      .defaulted "flows" (.list .text) (·.flows) fun v r => { r with flows := v }]

/-- The JSON form of responses. -/
def Response.shape : Shape Response where
  name := "Response"
  template := { object := ⟨""⟩ }
  fields :=
    [.mandatory "response_object" Reference.codec (·.object) fun v r => { r with object := v }]

/-- The JSON form of processings. -/
def Processing.shape : Shape Processing where
  name := "Processing"
  template := {}
  fields :=
    [.defaulted "items" (.list (.table Reference.codec)) (·.items) fun v r =>
      { r with items := v }]

/-- The JSON form of other settings. -/
def Misc.shape : Shape Misc where
  name := "Misc"
  template := {}
  fields :=
    [.defaulted "items" (.table Reference.codec) (·.items) fun v r => { r with items := v }]

/-- The JSON form of plots. -/
def Plot.shape : Shape Plot where
  name := "Plot"
  template := {}
  fields :=
    [.defaulted "imports" (.table Import.shape.codec) (·.imports) fun v r =>
        { r with imports := v },
      .defaulted "py_defs" (.table Definition.shape.codec) (·.definitions) fun v r =>
        { r with definitions := v },
      .defaulted "plots" (.table Script.shape.codec) (·.scripts) fun v r =>
        { r with scripts := v },
      .defaulted "flows" (.table Flow.shape.codec) (·.flows) fun v r => { r with flows := v },
      .defaulted "nodes" (.table Node.shape.codec) (·.nodes) fun v r => { r with nodes := v },
      .defaulted "transitions" (.table Transition.shape.codec) (·.transitions) fun v r =>
        { r with transitions := v },
      .defaulted "responses" (.table Response.shape.codec) (·.responses) fun v r =>
        { r with responses := v },
      .defaulted "processings" (.table Processing.shape.codec) (·.processings) fun v r =>
        { r with processings := v },
      .defaulted "miscs" (.table Misc.shape.codec) (·.miscs) fun v r => { r with miscs := v },
      .defaulted "linking" (.table Link.shape.codec) (·.links) fun v r => { r with links := v }]

/-- The compact JSON text of a plot. -/
def Plot.compact (plot : Plot) : String :=
  Plot.shape.codec.compact plot

/-- The plot of a JSON document. -/
def Plot.parse (numbers : Json.NumberReader) (source : String) : Except Json.Refusal Plot :=
  Plot.shape.codec.parse numbers source

end DialogChart
