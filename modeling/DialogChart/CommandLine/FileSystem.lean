import DialogChart.CommandLine.Store
import DialogChart.Table

/-!
# File systems

A tree of files and directories, as a value.  Paths that start with a slash are taken from the root,
all others from the working directory, and every part of a path but the last one has to be a
directory.
-/

namespace DialogChart.CommandLine

/-- What a path leads to. -/
inductive Entry where
  | file (content : List UInt8)
  | directory
  deriving DecidableEq

/-- A path from the root, by its names. -/
abbrev Location := List String

/-- Files and directories by their location, and the working directory. -/
structure FileSystem where
  entries : List (Location × Entry) := []
  working : Location := []
  deriving DecidableEq

namespace FileSystem

/-- What stands at a location.  The root is always there. -/
def get? (fs : FileSystem) (location : Location) : Option Entry :=
  if location = [] then some .directory else fs.entries.lookup location

/-- The file system with something else at a location. -/
def set (fs : FileSystem) (location : Location) (entry : Entry) : FileSystem :=
  { fs with entries := Table.put location entry fs.entries }

/-! ### Paths -/

/-- The parts of a path between slashes. -/
def split (path : List Char) : List String :=
  match path with
  | [] => [""]
  | c :: rest =>
    match split rest with
    | [] => []
    | part :: parts =>
      if c = '/' then "" :: part :: parts else String.ofList (c :: part.toList) :: parts

/-- Follow the parts of a path from a directory.  A part that is not the last one has to be a
directory; an empty part and a single dot stay where they are, and nothing is above the root. -/
def follow (fs : FileSystem) (location : Location) : List String → Except FileFault Location
  | [] => .ok location
  | part :: rest =>
    if part = "" || part = "." then fs.follow location rest
    else if part = ".." then fs.follow location.dropLast rest
    else
      let inner := location ++ [part]
      if rest = [] then .ok inner
      else
        match fs.get? inner with
        | none => .error .notFound
        | some (.file _) => .error .notDirectory
        | some .directory => fs.follow inner rest

/-- Where a path starts. -/
def start (fs : FileSystem) (path : String) : Location :=
  if path.toList.head? = some '/' then [] else fs.working

/-- The location that a path names. -/
def locate (fs : FileSystem) (path : String) : Except FileFault Location :=
  if path.toList.contains '\x00' then .error .badName
  else if path = "" ∨ fs.get? (fs.start path) ≠ some .directory then .error .notFound
  else fs.follow (fs.start path) (split path.toList)

/-- Whether a path leads to a file or a directory. -/
def holds (fs : FileSystem) (path : String) : Bool :=
  match fs.locate path with
  | .ok location => (fs.get? location).isSome
  | .error _ => false

/-- The content of the file at a path. -/
def read (fs : FileSystem) (path : String) : Except FileFault (List UInt8) := do
  match fs.get? (← fs.locate path) with
  | none => .error .notFound
  | some .directory => .error .isDirectory
  | some (.file content) => .ok content

/-- A path without the slashes at its end, and whether there were any.  The path of the root keeps
one. -/
def trimSlashes (path : String) : String × Bool :=
  let chars := path.toList.reverse
  let kept := (chars.dropWhile (· = '/')).reverse
  (String.ofList (if kept = [] then path.toList.take 1 else kept), chars.head? = some '/')

/-- The file system after a file was written, its content replaced if it was there.  A path
that ends in a slash can only name a directory, so nothing is written there. -/
def write (fs : FileSystem) (path : String) (content : List UInt8) :
    Except FileFault FileSystem := do
  let (path, slash) := trimSlashes path
  let location ← fs.locate path
  match fs.get? location with
  | some .directory => .error .isDirectory
  | _ => if slash then .error .isDirectory else .ok (fs.set location (.file content))

/-- A file system as a place where files are kept. -/
def store : Store FileSystem where
  holds := holds
  read := read
  write := write

/-! ### Building -/

/-- The location of a path whose parts need not be there. -/
def place (fs : FileSystem) (path : String) : Location :=
  fs.start path ++ (split path.toList).filter fun part => part ≠ "" && part ≠ "."

/-- The file system with a directory at a location, and with the directories on the way. -/
def makeDirectories (fs : FileSystem) (location : Location) : FileSystem :=
  let locations := (List.range location.length).map fun k => location.take (k + 1)
  locations.foldl (fun fs location =>
    if (fs.get? location).isSome then fs else fs.set location .directory) fs

/-- The file system with a directory at a path, and with the directories on the way. -/
def withDirectory (fs : FileSystem) (path : String) : FileSystem :=
  fs.makeDirectories (fs.place path)

/-- The file system with a file at a path, and with the directories on the way. -/
def withFile (fs : FileSystem) (path : String) (content : List UInt8) : FileSystem :=
  (fs.makeDirectories (fs.place path).dropLast).set (fs.place path) (.file content)

end FileSystem

end DialogChart.CommandLine
