import DialogChart.CommandLine.Formats

/-!
# The program

The command line on the disk of the machine.
-/

namespace DialogChart.CommandLine

/-- The fault behind an error of the machine. -/
def faultOf : IO.Error → FileFault
  | .noFileOrDirectory .. => .notFound
  | e => .other (toString e)

/-- The disk of the machine. -/
def machine : Disk IO where
  holds path := do
    try
      let _ ← IO.FS.readBinFile path
      return true
    catch e => return faultOf e ≠ .notFound
  read path := do
    try return .ok (← IO.FS.readBinFile path).toList
    catch e => return .error (faultOf e)
  write path content := do
    try
      IO.FS.writeBinFile path ⟨content.toArray⟩
      return .ok ()
    catch e => return .error (faultOf e)

/-- The path of the settings for all directories. -/
def sharedSettings : IO (Option String) := do
  match ← IO.getEnv "XDG_CONFIG_HOME" with
  | some home => return some (home ++ "/dialograph/config.toml")
  | none => return (← IO.getEnv "HOME").map (· ++ "/.config/dialograph/config.toml")

/-- What is printed when the arguments do not lead to a run. -/
def ArgumentFault.message : ArgumentFault → String
  | .missingInput => "error: the input is missing"
  | .unknown => "error: unexpected argument"
  | .missingValue => "error: an option has no value"
  | .unneededValue => "error: an option takes no value"
  | .repeated => "error: an option is given twice"
  | .helpAsked =>
    "Usage: dialograph [-o OUTPUT] [-c CONFIG] [--log-level LEVEL] INPUT"
  | .versionAsked => "dialograph 0.1.0"

/-- The exit code when the arguments do not lead to a run. -/
def ArgumentFault.exitCode : ArgumentFault → UInt32
  | .helpAsked | .versionAsked => 0
  | _ => 2

end DialogChart.CommandLine

open DialogChart.CommandLine in
/-- Run the program. -/
def main (arguments : List String) : IO UInt32 := do
  match Arguments.parse arguments with
  | .error fault =>
    IO.eprintln fault.message
    return fault.exitCode
  | .ok arguments =>
    match ← (run Formats.standard machine (← sharedSettings) arguments).run with
    | .ok _ => return 0
    | .error e =>
      IO.eprintln e.message
      return 1
