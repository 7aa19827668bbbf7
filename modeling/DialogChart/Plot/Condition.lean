import DialogChart.Plot.Basic

/-!
# Labels of conditions

A condition that is a link to a definition is labelled with the name of the definition.  Only
this one step is followed: a link to another link has no label of its own.
-/

namespace DialogChart

/-- Why a condition has no label of its own. -/
inductive Unlabelled where
  | notLink
  | missingLink (link : String)
  | missingDefinition (definition : String)
  | notDefinition (link object : String)
  deriving DecidableEq, Repr

/-- The label of a condition without one of its own. -/
def unknownLabel : String := "unknown"

namespace Plot

/-- The name of the definition behind a condition. -/
def definitionName (plot : Plot) : Option Reference → Except Unlabelled String
  | none => .error .notLink
  | some condition =>
    if condition.kind = .link then
      match plot.links.get? condition.raw with
      | none => .error (.missingLink condition.raw)
      | some link =>
        if link.object.kind = .definition then
          match plot.definitions.get? link.object.raw with
          | none => .error (.missingDefinition link.object.raw)
          | some definition => .ok definition.name
        else .error (.notDefinition condition.raw link.object.raw)
    else .error .notLink

/-- The label of a condition. -/
def conditionLabel (plot : Plot) (condition : Option Reference) : String :=
  match plot.definitionName condition with
  | .ok name => name
  | .error _ => unknownLabel

end Plot

end DialogChart
