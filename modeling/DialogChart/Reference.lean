import DialogChart.Json.Codec

/-!
# References

Records of a plot point at each other by text.  What a reference points at is told by how its
text starts; a text that starts in none of the known ways stands for itself.
-/

namespace DialogChart

/-- A reference, by its text. -/
structure Reference where
  raw : String
  deriving DecidableEq, Repr

namespace Reference

/-- What a reference points at. -/
inductive Kind where
  | node
  | transition
  | link
  | definition
  | flow
  | other
  deriving DecidableEq, Repr

/-- How the texts of the references of each kind start. -/
def starts : List (String × Kind) :=
  [("id#nd", .node), ("id#tr", .transition), ("id#ln", .link), ("id#df", .definition),
    ("id#fl", .flow)]

/-- What a reference points at. -/
def kind (r : Reference) : Kind :=
  match starts.find? fun s => s.1.toList.isPrefixOf r.raw.toList with
  | some (_, kind) => kind
  | none => .other

/-- The id of the node that a reference points at. -/
def node? (r : Reference) : Option String :=
  if r.kind = .node then some r.raw else none

/-- The JSON form: the text. -/
def codec : Json.Codec Reference :=
  Json.Codec.text.map Reference.mk Reference.raw

end Reference

end DialogChart
