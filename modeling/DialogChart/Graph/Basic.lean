import DialogChart.Json.Codec

/-!
# Display graphs

A display graph shows a dialog as turns of the bot and turns of the user, with edges from turn
to turn.  Graphs that are read from a document may hold an id twice, or edges without ends.
-/

namespace DialogChart

open Json (Codec Field Shape)

/-- Whose turn a node of a display graph is. -/
inductive Speaker where
  | bot
  | user
  deriving DecidableEq, Repr

/-- The name of a flow for nodes outside all flows. -/
def noFlow : String := "noflow"

/-- The label of a turn of the bot without a name. -/
def noName : String := "noname"

/-- A turn. -/
structure Turn where
  id : String
  label : String
  speaker : Speaker
  flow : String := noFlow
  deriving DecidableEq, Repr

/-- An edge from one turn to another, by ids. -/
structure Edge where
  source : String
  target : String
  deriving DecidableEq, Repr

/-- A display graph. -/
structure Graph where
  turns : List Turn := []
  edges : List Edge := []
  deriving DecidableEq, Repr

namespace Graph

/-- The first turn with an id. -/
def turn? (g : Graph) (id : String) : Option Turn :=
  g.turns.find? (·.id = id)

/-- Whether there is an edge between two ids. -/
def hasEdge (g : Graph) (source target : String) : Bool :=
  g.edges.contains ⟨source, target⟩

/-- Whether there are no turns. -/
def isEmpty (g : Graph) : Bool :=
  g.turns.isEmpty

end Graph

/-! ### The JSON form -/

/-- The name of a speaker. -/
def Speaker.name : Speaker → String
  | .bot => "bot"
  | .user => "user"

/-- The JSON form of speakers: their names. -/
def Speaker.codec : Codec Speaker :=
  .choice ([.bot, .user].map fun speaker => (name speaker, speaker)) name

/-- The JSON form of turns. -/
def Turn.shape : Shape Turn where
  name := "GraphNode"
  template := { id := "", label := "", speaker := .bot }
  fields :=
    [.mandatory "id" .text (·.id) fun v r => { r with id := v },
      .mandatory "label" .text (·.label) fun v r => { r with label := v },
      .mandatory "kind" Speaker.codec (·.speaker) fun v r => { r with speaker := v },
      .defaulted "flow" .text (·.flow) fun v r => { r with flow := v }]

/-- The JSON form of edges. -/
def Edge.shape : Shape Edge where
  name := "GraphEdge"
  template := { source := "", target := "" }
  fields :=
    [.mandatory "fromId" .text (·.source) fun v r => { r with source := v },
      .mandatory "toId" .text (·.target) fun v r => { r with target := v }]

/-- The JSON form of graphs. -/
def Graph.shape : Shape Graph where
  name := "Graph"
  template := {}
  fields :=
    [.mandatory "nodes" (.list Turn.shape.codec) (·.turns) fun v r => { r with turns := v },
      .mandatory "edges" (.list Edge.shape.codec) (·.edges) fun v r => { r with edges := v }]

/-- The compact JSON text of a graph. -/
def Graph.compact (g : Graph) : String :=
  Graph.shape.codec.compact g

/-- The graph of a JSON document. -/
def Graph.parse (numbers : Json.NumberReader) (source : String) : Except Json.Refusal Graph :=
  Graph.shape.codec.parse numbers source

end DialogChart
