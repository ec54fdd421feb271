import ScriptLint.FileSystem

/-!
# Finding included files

A target is looked for in the directory of the including file and then in each search path in turn. An
absolute target is looked for nowhere else.
-/

namespace ScriptLint

structure Resolver where
  searchPaths : List Path := []
  deriving Repr, DecidableEq, Inhabited

namespace Resolver

/-- The places where a target may be, in order. -/
def candidates (resolver : Resolver) (target : Path) (directory : Option Path) : List Path :=
  if target.isAbsolute then [target]
  else (directory.toList ++ resolver.searchPaths).map fun root => root.join target

/-- The canonical path of the first candidate that is a file. -/
def resolve? (resolver : Resolver) (system : FileSystem) (target : String) (directory : Option Path) :
    Option Path :=
  ((resolver.candidates ⟨target⟩ directory).find? system.isFile).map system.canonical

end Resolver

end ScriptLint
