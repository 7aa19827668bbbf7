import DialogChart.Color.Parser
import DialogChart.CommandLine.Run
import DialogChart.Json.Literal
import DialogChart.Toml.Document

/-!
# The formats in use

The program reads literals by scaling their leading digits, colours as names or by their components,
and settings from TOML documents.
-/

namespace DialogChart.CommandLine

/-- The formats that the program reads. -/
def Formats.standard : Formats Color where
  numbers := .scaled
  colors := Color.format
  document := Toml.parse

end DialogChart.CommandLine
