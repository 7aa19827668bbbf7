/-!
# Ways of writing colours

A program that shows colours only needs to read them from texts and to write them.  Which colours
there are and how they are written is left open here; a way of writing colours has to know at least
the texts that the program itself uses.
-/

namespace DialogChart

/-- The texts of the colours for whoever chooses none. -/
def presetColors : List String :=
  ["#10b981", "#3b82f6", "#f59e0b", "#ef4444", "#8b5cf6", "#ec4899", "#14b8a6", "#f97316",
    "#6366f1", "#84cc16"]

/-- A way of writing colours: the colour of a text, or the reason why it has none, and the text of a
colour.  The text `black` and those of the preset colours can be read. -/
structure ColorFormat (κ : Type) where
  read : String → Except String κ
  text : κ → String
  black : κ
  read_black : read "black" = .ok black
  presets : List κ
  read_presets : presetColors.mapM read = .ok presets

/-- A colour, or the message that refuses the text. -/
def ColorFormat.parse {κ : Type} (colors : ColorFormat κ) (s : String) : Except String κ :=
  match colors.read s with
  | .ok color => .ok color
  | .error reason => .error ("invalid color `" ++ s ++ "`: " ++ reason)

end DialogChart
