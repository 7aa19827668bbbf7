import DialogChart.Graph.Derivation
import DialogChart.Json.Value
import DialogChart.Layout.Basic
import DialogChart.Palette

/-!
# Settings

How graphs are derived, laid out and coloured.  Settings are read from a tree of values,
whatever document it came from.  They come in sections.  Each of them is an object in which
every field may be missing and unknown ones are ignored, or a list of its fields in order, of
which the last ones may be missing.
-/

namespace DialogChart

/-- The settings of the program. -/
structure Settings where
  globalTransitions : GlobalTransitions := .omit
  engine : Engine := .relaxed
  layout : LayoutSettings Float32 := .default
  palette : Option (List String) := none

namespace Settings

open Json (Value)

/-- The palette that was chosen. -/
def flowPalette {κ : Type} (colors : ColorFormat κ) (settings : Settings) :
    Except String (Palette κ) :=
  match settings.palette with
  | none => .ok (.preset colors)
  | some texts => Palette.ofTexts colors texts

/-! ### Reading fields -/

/-- A field of a section: its name and the update by its value, if the value fits. -/
structure Entry where
  name : String
  update : Value → Settings → Option Settings

/-- The single nearest to a number. -/
def single? : Value → Option Float32
  | .number (.integer i) =>
    if -(1 <<< 63 : Nat) ≤ i ∧ i < (1 <<< 64 : Nat) then some (Number.singleOfInt i) else none
  | .number (.double x) => some (Number.narrow x)
  | .number (.single x) => some x
  | _ => none

/-- A non-negative integer. -/
def count? : Value → Option Nat
  | .number (.integer (.ofNat n)) => if n < 1 <<< 64 then some n else none
  | _ => none

/-- One of several names.  It may also be the one member of an object, with `null` for its
value. -/
def choice? {α : Type} (choices : List (String × α)) : Value → Option α
  | .text s | .object [(s, .null)] => choices.lookup s
  | _ => none

/-- A value, or nothing for `null`. -/
def optional? {α : Type} (read : Value → Option α) : Value → Option (Option α)
  | .null => some none
  | v => (read v).map some

/-- A list of texts. -/
def texts? : Value → Option (List String)
  | .list items => items.mapM fun
    | .text s => some s
    | _ => none
  | _ => none

/-- A field of a given kind of value. -/
def entry {α : Type} (name : String) (read : Value → Option α)
    (set : α → Settings → Settings) : Entry where
  name := name
  update v s := (read v).map fun a => set a s

/-- A field that is a length. -/
def lengthEntry (name : String)
    (set : Float32 → LayoutSettings Float32 → LayoutSettings Float32) : Entry :=
  entry name single? fun a s => { s with layout := set a s.layout }

/-- Update settings by the named members of an object. -/
def updateNamed (entries : List Entry) : List (String × Value) → Settings → Option Settings
  | [], s => some s
  | (name, v) :: members, s =>
    match entries.find? (·.name = name) with
    | none => updateNamed entries members s
    | some e => (e.update v s).bind (updateNamed entries members)

/-- Update settings by the fields in order. -/
def updateInOrder : List Entry → List Value → Settings → Option Settings
  | _, [], s => some s
  | [], _ :: _, _ => none
  | e :: entries, v :: values, s => (e.update v s).bind (updateInOrder entries values)

/-- Update settings by a section. -/
def updateFrom? (entries : List Entry) : Value → Settings → Option Settings
  | .object members, s => updateNamed entries members s
  | .list values, s => updateInOrder entries values s
  | _, _ => none

/-! ### The sections -/

/-- The fields of the section on graphs. -/
def graphEntries : List Entry :=
  [entry "global_transitions" (choice? [("omit", .omit), ("fan_out", .fanOut)]) fun a s =>
    { s with globalTransitions := a }]

/-- The fields of the section on layouts. -/
def layoutEntries : List Entry :=
  [entry "engine" (choice? [("basic", .basic), ("relaxed", .relaxed)]) fun a s =>
      { s with engine := a },
    lengthEntry "node_width" fun a l =>
      { l with spacing := { l.spacing with nodeSize := { l.spacing.nodeSize with width := a } } },
    lengthEntry "node_height" fun a l =>
      { l with spacing := { l.spacing with nodeSize := { l.spacing.nodeSize with height := a } } },
    lengthEntry "column_gap" fun a l => { l with spacing := { l.spacing with columnGap := a } },
    lengthEntry "row_gap" fun a l => { l with spacing := { l.spacing with rowGap := a } },
    lengthEntry "edge_stiffness" fun a l =>
      { l with tension := { l.tension with edgeStiffness := a } },
    lengthEntry "flow_stiffness" fun a l =>
      { l with tension := { l.tension with flowStiffness := a } },
    entry "iterations" count? fun a s =>
      { s with layout := { s.layout with tension := { s.layout.tension with iterations := a } } },
    entry "convergence_threshold" (optional? single?) fun a s =>
      { s with layout := { s.layout with tension := { s.layout.tension with threshold := a } } }]

/-- The fields of the section on style. -/
def styleEntries : List Entry :=
  [entry "palette" (optional? texts?) fun a s => { s with palette := a }]

/-- The sections. -/
def sections : List Entry :=
  [⟨"graph", updateFrom? graphEntries⟩, ⟨"layout", updateFrom? layoutEntries⟩,
    ⟨"style", updateFrom? styleEntries⟩]

/-- The settings that a tree of values stands for, if it fits. -/
def ofValue? (v : Value) : Option Settings :=
  updateFrom? sections v {}

end Settings

end DialogChart
