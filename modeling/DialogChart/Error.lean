import DialogChart.Json.Fault

/-!
# Errors and their reports

Deriving and laying out a graph never fails.  What can fail is reading and writing files,
reading a plot, and the settings.  A report of an error is what is shown to a person: for a
plot that cannot be read it points at the byte where reading stopped.
-/

namespace DialogChart

/-- Why a file could not be read or written. -/
inductive FileFault where
  | notFound
  | isDirectory
  | notDirectory
  | badName
  | notText
  /-- Any other fault, by its wording. -/
  | other (wording : String)
  deriving DecidableEq, Repr

/-- The wording of a file fault. -/
def FileFault.message : FileFault → String
  | .notFound => "No such file or directory (os error 2)"
  | .isDirectory => "Is a directory (os error 21)"
  | .notDirectory => "Not a directory (os error 20)"
  | .badName => "file name contained an unexpected NUL byte"
  | .notText => "stream did not contain valid UTF-8"
  | .other wording => wording

/-- What is wrong with the settings. -/
inductive SettingsFault where
  | unreadable
  | missing (path : String)
  | invalid (message : String)
  | palette (message : String)
  deriving DecidableEq, Repr

/-- The wording of a fault of the settings. -/
def SettingsFault.message : SettingsFault → String
  | .unreadable => "Failed to parse TOML configuration"
  | .missing path => "Missing configuration file: " ++ path
  | .invalid message => "Validation error: " ++ message
  | .palette message => message

/-- What can fail. -/
inductive Error where
  | file (fault : FileFault)
  | plot (refusal : Json.Refusal) (source : String)
  | settings (fault : SettingsFault)

/-- The wording of an error. -/
def Error.message : Error → String
  | .file fault => "I/O error: " ++ fault.message
  | .plot refusal _ => "Plot parse error: " ++ refusal.message
  | .settings fault => "Config error: " ++ fault.message

/-! ### Reports -/

/-- A place in a source, with the text that explains it. -/
structure Label where
  span : Json.Span
  text : String

/-- A report of an error. -/
structure Report where
  title : String
  code : String
  help : Option String := none
  label : Option Label := none
  source : Option String := none

/-- The advice for a category of faults. -/
def categoryHelp : Json.Category → Option String
  | .malformed => none
  | .truncated => some "the document ends before it is complete"
  | .mismatched => some "the document is valid JSON but does not match the plot schema"

/-- The report of an error. -/
def Error.report (e : Error) : Report :=
  match e with
  | .file _ => { title := e.message, code := "dialograph::io" }
  | .settings _ => { title := e.message, code := "dialograph::config" }
  | .plot refusal source =>
    { title := "Invalid plot document"
      code := "dialograph::parse"
      help := categoryHelp refusal.cause.category
      label := (refusal.position.span? source).map fun span => ⟨span, refusal.message⟩
      source := some source }

end DialogChart
