import DialogChart.Chart
import DialogChart.CommandLine.Arguments
import DialogChart.CommandLine.Store

/-!
# A run of the program

A run selects one file of settings, reads the plot and writes the diagram.  Everything that can
fail comes before the one write, so a run that fails leaves the files as they were.

The run is written over any place where files are kept, such as a file system that is a value or the
disk of the machine, and over the formats in which numbers, colours and settings are written.
-/

namespace DialogChart.CommandLine

/-- The formats of what the program reads: numbers in plots, colours in palettes, and documents of
settings, of which a tree of values is made. -/
structure Formats (κ : Type) where
  numbers : Json.NumberReader
  colors : ColorFormat κ
  document : String → Option Json.Value

/-- The text of bytes, if they are UTF-8. -/
def decode (content : List UInt8) : Except Error String :=
  match String.fromUTF8? ⟨content.toArray⟩ with
  | some s => .ok s
  | none => .error (.file .notText)

/-- The bytes of a text. -/
def encode (s : String) : List UInt8 :=
  s.toUTF8.toList

section Run

variable {κ : Type} {m : Type → Type} [Monad m]

/-- Read the text of a file. -/
def readText (disk : Disk m) (path : String) : ExceptT Error m String := do
  match ← disk.read path with
  | .ok content => decode content
  | .error fault => throw (.file fault)

/-- The settings of a document. -/
def settingsOf (formats : Formats κ) (source : String) : Except Error Settings :=
  match (formats.document source).bind Settings.ofValue? with
  | none => .error (.settings .unreadable)
  | some settings =>
    match settings.flowPalette formats.colors with
    | .error message => .error (.settings (.invalid message))
    | .ok _ => .ok settings

/-- Read the settings at a path, which has to be there. -/
def readSettings (formats : Formats κ) (disk : Disk m) (path : String) :
    ExceptT Error m Settings := do
  if ← disk.holds path then settingsOf formats (← readText disk path)
  else throw (.settings (.missing path))

/-- Where settings are looked for when no path is given: next to the input. -/
def localSettings : String := "dialograph/config.toml"

/-- The path of the settings: the one that was given, or else the first one that is there. -/
def selectSettings (disk : Disk m) (given : Option String) (shared : Option String) :
    m (Option String) := do
  match given with
  | some path => return some path
  | none =>
    if ← disk.holds localSettings then return some localSettings
    match shared with
    | none => return none
    | some path => if ← disk.holds path then return some path else return none

/-- The settings of a run; `shared` is the path of the settings for all directories. -/
def loadSettings (formats : Formats κ) (disk : Disk m) (given shared : Option String) :
    ExceptT Error m Settings := do
  match ← selectSettings (m := m) disk given shared with
  | none => return {}
  | some path => readSettings formats disk path

/-- The document for a plot under given settings. -/
def document (formats : Formats κ) (settings : Settings) (source : String) :
    Except Error String := do
  let plot ← (Chart.parse formats.numbers source).value
  (Chart.render formats.colors settings plot).value

/-- Read the plot and write the diagram. -/
def run (formats : Formats κ) (disk : Disk m) (shared : Option String) (arguments : Arguments) :
    ExceptT Error m Unit := do
  let settings ← loadSettings formats disk arguments.settings shared
  let source ← readText disk arguments.input
  let output ← document formats settings source
  match ← disk.write arguments.output (encode output) with
  | .ok _ => return ()
  | .error fault => throw (.file fault)

end Run

end DialogChart.CommandLine
