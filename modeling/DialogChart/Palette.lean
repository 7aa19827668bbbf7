import DialogChart.Color.Format
import DialogChart.Table

/-!
# Colours of flows

Every flow gets one colour.  Flows take the colours of a palette in the order in which they
are first asked for, and start over when the palette is used up.  The assignment is kept in a
memo that belongs to the caller.
-/

namespace DialogChart

/-- The colours that flows may take, in order. -/
structure Palette (κ : Type) where
  colors : List κ

namespace Palette

variable {κ : Type}

/-- The colour at an index, counted around the palette. -/
def get? (p : Palette κ) (index : Nat) : Option κ :=
  p.colors[index % p.colors.length]?

/-- The number of colours. -/
def size (p : Palette κ) : Nat :=
  p.colors.length

/-- The message for the first text that is not a colour. -/
def refusal (message : String) : String :=
  "Invalid palette color in config: " ++ message

/-- The palette of the given texts, or the message for the first one that is not a colour. -/
def ofTexts (colors : ColorFormat κ) (texts : List String) : Except String (Palette κ) :=
  match texts.mapM colors.parse with
  | .ok found => .ok ⟨found⟩
  | .error message => .error (refusal message)

/-- The palette for whoever chooses none. -/
def preset (colors : ColorFormat κ) : Palette κ :=
  ⟨colors.presets⟩

end Palette

/-- The colours that flows have got so far. -/
abbrev FlowColors (κ : Type) := Table κ

namespace FlowColors

variable {κ : Type}

/-- The colour of a flow, and the memo after it was asked for.  An empty palette gives black
to every flow. -/
def colorOf (black : κ) (palette : Palette κ) (memo : FlowColors κ) (flow : String) :
    κ × FlowColors κ :=
  match memo.get? flow with
  | some color => (color, memo)
  | none =>
    match palette.get? memo.size with
    | some color => (color, memo.insert flow color)
    | none => (black, memo)

/-- The colours of flows that are asked for one after the other, and the memo in the end. -/
def colorsOf (black : κ) (palette : Palette κ) :
    FlowColors κ → List String → List κ × FlowColors κ
  | memo, [] => ([], memo)
  | memo, flow :: flows =>
    let (color, memo) := colorOf black palette memo flow
    let (colors, memo) := colorsOf black palette memo flows
    (color :: colors, memo)

end FlowColors

end DialogChart
