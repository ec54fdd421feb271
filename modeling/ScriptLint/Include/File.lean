import ScriptLint.Diagnostic
import ScriptLint.FileSystem
import ScriptLint.Include.Exports

/-!
# Included files

An included file after preprocessing: what it exports, the files it includes in turn, and every file it was
made from with the time each had then.
-/

namespace ScriptLint

/-- An include as written in a document. -/
structure Inclusion where
  target : String
  /-- The target between its marks. -/
  span : Span
  angled : Bool
  resolved : Option Path
  deriving Repr, DecidableEq

structure IncludedFile where
  path : Path
  exports : Exports
  /-- The files that it includes, in order. -/
  nested : List IncludedFile
  /-- The file itself and all files below it, with their times. -/
  sources : List (Path × Option Int)
  /-- What is wrong in the file itself. -/
  diagnostics : List Diagnostic
  /-- The digest of the definitions it was made under. -/
  fingerprint : UInt64
  deriving Repr, Inhabited

namespace IncludedFile

/-- Whether some file that it was made from has changed since. -/
def isStale (file : IncludedFile) (system : FileSystem) : Bool :=
  file.sources.any fun (path, seen) => system.modified? path != seen

mutual

/-- A file, then all files below it, depth first. -/
def walk : IncludedFile → List IncludedFile
  | file@⟨_, _, nested, _, _, _⟩ => file :: walkAll nested

def walkAll : List IncludedFile → List IncludedFile
  | [] => []
  | file :: files => file.walk ++ walkAll files

end

/-- A file's own time and the times of the files below it; each path counts once. -/
def sourcesOf (path : Path) (modified : Option Int) (nested : List IncludedFile) : List (Path × Option Int) :=
  (nested.flatMap IncludedFile.sources).foldl
    (fun sources source =>
      if sources.any fun known => known.1 == source.1 then sources else sources ++ [source])
    [(path, modified)]

end IncludedFile

end ScriptLint
