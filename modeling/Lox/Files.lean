import Lox.Path

/-! Files in directories. A location is the list of names that lead to it from the root. -/

namespace Lox

abbrev Location := List Text

inductive FileEntry
  | file (content : Text)
  | directory
  deriving DecidableEq

/-- A tree of files, and the directory in which relative paths start. The root always exists. -/
structure Files where
  workingDirectory : Location
  entries : List (Location × FileEntry)

inductive ReadError
  | missing
  | isDirectory
  | notDirectory
  deriving DecidableEq, Repr

/-- The complaint about a path that cannot be read. -/
def ReadError.message (path : Text) : ReadError → Text
  | missing => Text.ofString "open " ++ path ++ Text.ofString ": no such file or directory"
  | isDirectory => Text.ofString "read " ++ path ++ Text.ofString ": is a directory"
  | notDirectory => Text.ofString "open " ++ path ++ Text.ofString ": not a directory"

namespace Files

def entry? (files : Files) (location : Location) : Option FileEntry :=
  if location = [] then some .directory else files.entries.lookup location

/-- Sets what is at a location. -/
def put (files : Files) (location : Location) (entry : FileEntry) : Files :=
  { files with entries := (location, entry) :: files.entries }

/-- Goes from a directory to one of its members, to its parent or nowhere. -/
def walk (files : Files) (here : Location) (element : Text) : Except ReadError Location :=
  match files.entry? here with
  | none => .error .missing
  | some (.file _) => .error .notDirectory
  | some .directory =>
    if element = [] ∨ element = Path.current then .ok here
    else if element = Path.parent then .ok here.dropLast
    else .ok (here ++ [element])

/-- The location that a path leads to. All places before it have to be directories. -/
def locate (files : Files) (path : Text) : Except ReadError Location :=
  if path = [] then .error .missing
  else
    let start := if Path.isAbsolute path then [] else files.workingDirectory
    (Path.elements path).foldlM files.walk start

def read (files : Files) (path : Text) : Except ReadError Text := do
  let location ← files.locate path
  match files.entry? location with
  | none => .error .missing
  | some .directory => .error .isDirectory
  | some (.file content) => .ok content

/-- Writes a file, unless a directory is in its place or the directory for it is missing. -/
def write? (files : Files) (path content : Text) : Option Files :=
  match files.locate path with
  | .error _ => none
  | .ok location =>
    if files.entry? location = some .directory then none
    else some (files.put location (.file content))

/-- Makes a directory and those it is in. -/
def makeDirectories (files : Files) (location : Location) : Files :=
  (List.range (location.length + 1)).foldl
    (fun files n => files.put (location.take n) .directory) files

/-- An empty working directory. -/
def empty (workingDirectory : Location) : Files :=
  (Files.mk workingDirectory []).makeDirectories workingDirectory

/-- Adds an entry under a relative path, with the directories on the way. -/
def add (files : Files) (path : Text) (entry : FileEntry) : Files :=
  let location := files.workingDirectory ++ Path.elements (Path.clean path)
  (files.makeDirectories location.dropLast).put location entry

end Files
end Lox
