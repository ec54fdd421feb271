import ScriptLint.Path

/-!
# Files

The files that a run can see, as a value. A location is the list of names from the root directory; a path
reaches a location piece by piece, and every step needs a directory to start from.
-/

namespace ScriptLint

/-- A file's text, unless its bytes are no text, and when it was last changed. -/
structure File where
  content : Option String
  modified : Int
  deriving Repr, DecidableEq

/-- Names from the root directory. -/
abbrev Location := List String

structure FileSystem where
  directories : List Location
  files : List (Location × File)
  /-- Where paths without a leading slash begin. -/
  working : Location
  deriving Repr, DecidableEq, Inhabited

namespace FileSystem

def file? (system : FileSystem) (location : Location) : Option File :=
  (system.files.find? fun entry => entry.1 == location).map Prod.snd

/-- The root is always a directory. -/
def isDirectory (system : FileSystem) (location : Location) : Bool :=
  location.isEmpty || system.directories.contains location

def contains (system : FileSystem) (location : Location) : Bool :=
  system.isDirectory location || (system.file? location).isSome

/-- Follow the pieces of a path from a location. -/
def follow? (system : FileSystem) (location : Location) : List String → Option Location
  | [] => some location
  | piece :: pieces =>
    if !system.isDirectory location then none
    else if piece == "" || piece == "." then system.follow? location pieces
    else if piece == ".." then system.follow? location.dropLast pieces
    else if system.contains (location ++ [piece]) then system.follow? (location ++ [piece]) pieces
    else none

def locate? (system : FileSystem) (path : Path) : Option Location :=
  if path.text.isEmpty then none
  else system.follow? (if path.isAbsolute then [] else system.working) path.pieces

def find? (system : FileSystem) (path : Path) : Option File :=
  (system.locate? path).bind system.file?

def isFile (system : FileSystem) (path : Path) : Bool :=
  (system.find? path).isSome

/-- The one path of a location. -/
def pathOf (location : Location) : Path :=
  .ofComponents (.root :: location.map .name)

/-- The form of a path that stands for what it leads to: its location, or the normalised text when it
leads nowhere. -/
def canonical (system : FileSystem) (path : Path) : Path :=
  match system.locate? path with
  | some location => pathOf location
  | none => path.normalize

def modified? (system : FileSystem) (path : Path) : Option Int :=
  (system.find? path).map File.modified

/-- Why a file cannot be read. -/
inductive ReadError where
  | missing
  | directory
  | notText
  deriving Repr, DecidableEq

def ReadError.message : ReadError → String
  | missing => "No such file or directory (os error 2)"
  | directory => "Is a directory (os error 21)"
  | notText => "stream did not contain valid UTF-8"

def read (system : FileSystem) (path : Path) : Except ReadError String :=
  match system.locate? path with
  | none => .error .missing
  | some location =>
    match system.file? location with
    | none => .error .directory
    | some file =>
      match file.content with
      | some content => .ok content
      | none => .error .notText

/-- All directories above a location, outermost first. -/
def above (location : Location) : List Location :=
  (List.range location.length).map fun count => location.take count

/-- Put a file at a location, with the directories that lead there. -/
def write (system : FileSystem) (location : Location) (file : File) : FileSystem :=
  let missing := (above location).filter fun directory => !system.isDirectory directory
  { system with
    directories := system.directories ++ missing
    files := system.files.filter (·.1 != location) ++ [(location, file)] }

/-- Follow the pieces of a path that is known to exist, and collect every location on the way. -/
def trace (location : Location) : List String → List Location
  | [] => [location]
  | piece :: pieces =>
    let next := if piece == "" || piece == "." then location
      else if piece == ".." then location.dropLast
      else location ++ [piece]
    location :: trace next pieces

/-- Put a file where a path leads, with every directory that the path goes through. -/
def place (system : FileSystem) (path : Path) (file : File) : FileSystem :=
  let passed := trace (if path.isAbsolute then [] else system.working) path.pieces
  let location := passed.getLast?.getD []
  let directories := passed.dropLast.filter fun directory => !system.isDirectory directory
  { system with directories := system.directories ++ directories }.write location file

def touch (system : FileSystem) (location : Location) (modified : Int) : FileSystem :=
  { system with
    files := system.files.map fun entry =>
      if entry.1 == location then (location, { entry.2 with modified }) else entry }

def remove (system : FileSystem) (location : Location) : FileSystem :=
  { system with files := system.files.filter (·.1 != location) }

end FileSystem

end ScriptLint
