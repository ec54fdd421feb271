import ScriptLint.Text.Chars

/-!
# Paths

A path is kept as it was written. Its components are what the text names one after the other: the root,
a leading `.`, each `..` and each ordinary name. Empty and later `.` pieces name nothing.
-/

namespace ScriptLint

/-- One step of a path. -/
inductive Component where
  | root
  | here
  | up
  | name (text : String)
  deriving Repr, DecidableEq

namespace Component

def text : Component → String
  | root => "/"
  | here => "."
  | up => ".."
  | name text => text

def isName : Component → Bool
  | name _ => true
  | _ => false

/-- Add a component behind those of `stack`, which is latest first: `.` adds nothing and `..` takes an
ordinary name back. -/
def settle (stack : List Component) (component : Component) : List Component :=
  match component, stack with
  | here, stack => stack
  | up, name _ :: stack => stack
  | component, stack => component :: stack

/-- The components without `.` and without names that a `..` takes back. -/
def normalize (components : List Component) : List Component :=
  match (components.foldl settle []).reverse with
  | [] => [here]
  | settled => settled

def render : List Component → String
  | root :: rest => "/" ++ "/".intercalate (rest.map text)
  | components => "/".intercalate (components.map text)

end Component

/-- A path as written. -/
structure Path where
  text : String
  deriving Repr, DecidableEq, Inhabited

namespace Path

def isAbsolute (path : Path) : Bool :=
  path.text.toList.head? == some '/'

def pieces (path : Path) : List String :=
  (Text.splitAtChars (· == '/') path.text.toList).map String.ofList

/-- What a piece after the first names. -/
def componentOf? (piece : String) : Option Component :=
  if piece == "" || piece == "." then none
  else if piece == ".." then some .up
  else some (.name piece)

def components (path : Path) : List Component :=
  match path.isAbsolute, path.pieces with
  | true, pieces => .root :: pieces.filterMap componentOf?
  | false, "." :: pieces => .here :: pieces.filterMap componentOf?
  | false, pieces => pieces.filterMap componentOf?

/-- Two paths with the same components are the same path. -/
def same (path other : Path) : Bool :=
  path.components == other.components

def ofComponents (components : List Component) : Path :=
  ⟨Component.render components⟩

/-- The path without `.` and, where the text alone decides it, without `..`. -/
def normalize (path : Path) : Path :=
  ofComponents (Component.normalize path.components)

/-- A path below another one; an absolute path stands for itself. -/
def join (base path : Path) : Path :=
  if path.isAbsolute || base.text.isEmpty then path
  else if base.text.toList.getLast? == some '/' then ⟨base.text ++ path.text⟩
  else ⟨base.text ++ "/" ++ path.text⟩

/-- Drop trailing pieces that name nothing. -/
def dropIdle (pieces : List String) : List String :=
  (pieces.reverse.dropWhile fun piece => piece == "" || piece == ".").reverse

/-- The directory part, `none` for the root and the empty path. -/
def parent? (path : Path) : Option Path :=
  match path.isAbsolute, path.pieces with
  | true, _ :: pieces =>
    match dropIdle pieces with
    | [] => none
    | named => some ⟨"/" ++ "/".intercalate (dropIdle named.dropLast)⟩
  | false, first :: pieces =>
    match first, dropIdle pieces with
    | "", [] => none
    | _, [] => some ⟨""⟩
    | first, named => some ⟨"/".intercalate (first :: dropIdle named.dropLast)⟩
  | _, [] => none

/-- The last component, when it is an ordinary name. -/
def fileName? (path : Path) : Option String :=
  match path.components.getLast? with
  | some (.name text) => some text
  | _ => none

/-- What follows the last point of the file name; a name that only begins with a point has none. -/
def extension? (path : Path) : Option String :=
  path.fileName?.bind fun name =>
    let reversed := name.toList.reverse
    let after := reversed.takeWhile (· != '.')
    match reversed.drop after.length with
    | _ :: _ :: _ => some (String.ofList after.reverse)
    | _ => none

end Path

end ScriptLint
