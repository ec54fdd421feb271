import ScriptLint.CommandLine.Sources

/-!
# The program

Gathers the files that a command line names, runs it on them, and prints what comes out.
-/

namespace ScriptLint

/-- Add the file at a path, if there is one. -/
def readInto (system : FileSystem) (path : Path) : IO FileSystem := do
  try
    let bytes ← IO.FS.readBinFile path.text
    return system.place path ⟨String.fromUTF8? bytes, 0⟩
  catch _ => return system

/-- Read files until the known ones name no other. -/
partial def gather (words : List String) (tried : List Path) (system : FileSystem) : IO FileSystem := do
  let wanted := (CommandLine.sources system words).filter fun path => !tried.contains path
  if wanted.isEmpty then return system
  gather words (tried ++ wanted) (← wanted.foldlM readInto system)

/-- The file system before anything was read from it. -/
def unread (working : Path) : FileSystem :=
  let location := working.pieces.filter (· != "")
  ⟨FileSystem.above location ++ [location], [], location⟩

end ScriptLint

open ScriptLint in
def main (words : List String) : IO UInt32 := do
  let system ← gather words [] (unread ⟨toString (← IO.currentDir)⟩)
  let outcome := CommandLine.run system words
  IO.print outcome.output
  if let some error := outcome.error then IO.eprintln s!"Error: {error}"
  return outcome.exitCode.toUInt32
