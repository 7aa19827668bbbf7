import DialogChart.Number.Decimal

/-!
# Colours

A colour is a name, or red, green and blue with an opacity.  Any of the four components may be
missing.  Components lie between zero and one.

Two colours are the same when they are of the same kind and their components are equal as
numbers; a name is a kind of its own, whatever it looks like.
-/

namespace DialogChart

/-- A component of a colour, or nothing where it is missing. -/
abbrev Component := Option Float32

/-- A colour. -/
inductive Color where
  | named (name : String)
  | rgb (red green blue alpha : Component)

namespace Color

/-- The colour of whatever has no other. -/
def black : Color := .named "black"

/-- Whether two components are both missing or equal as numbers. -/
def sameComponent : Component → Component → Bool
  | none, none => true
  | some x, some y => x == y
  | _, _ => false

/-- Whether two colours are the same. -/
def same : Color → Color → Bool
  | .named a, .named b => a = b
  | .rgb r g b a, .rgb r' g' b' a' =>
    sameComponent r r' && sameComponent g g' && sameComponent b b' && sameComponent a a'
  | _, _ => false

instance : BEq Color := ⟨same⟩

/-- The text of a component. -/
def componentText : Component → String
  | some x => Number.plainText x
  | none => "none"

/-- The text of a component that is written on the scale to 255. -/
def scaledText (c : Component) : String :=
  componentText (c.map (· * 255))

/-- Whether an opacity lets something through; a missing one counts as zero. -/
def isTranslucent (alpha : Component) : Bool :=
  match alpha with
  | some a => a < 1
  | none => true

/-- The text of a colour. -/
def text : Color → String
  | .named name => name
  | .rgb r g b a =>
    let parts := [scaledText r, scaledText g, scaledText b]
    if isTranslucent a then
      "rgba(" ++ ", ".intercalate (parts ++ [componentText a]) ++ ")"
    else "rgb(" ++ ", ".intercalate parts ++ ")"

/-- Add a colour to those that a set keeps.  Colours are filed under their text, so a colour is
left out only if a kept one is the same and is written alike. -/
def file (kept : List Color) (c : Color) : List Color :=
  if kept.any fun k => k == c && k.text = c.text then kept else c :: kept

/-- The colours of a list that a set keeps. -/
def filed (colors : List Color) : List Color :=
  colors.foldl file []

/-- The number of different colours in a list. -/
def distinct (colors : List Color) : Nat :=
  (filed colors).length

end Color

end DialogChart
