import ScriptLint.Text.Span

/-!
# Conditional groups

The open groups of a document, innermost first. A frame remembers what decides its later branches: whether
the code around it is active, whether one of its branches ran, and whether it had its `#else`.
-/

namespace ScriptLint.Preprocess

/-- One open group. -/
structure Frame where
  /-- The current branch is active. -/
  enabled : Bool
  /-- Some branch was active. -/
  taken : Bool
  sawElse : Bool
  parentActive : Bool
  openedAt : Span
  deriving Repr, DecidableEq

namespace Frame

def opened (parentActive holds : Bool) (span : Span) : Frame :=
  ⟨parentActive && holds, holds, false, parentActive, span⟩

/-- Whether the condition of a further branch matters. -/
def awaits (frame : Frame) : Bool :=
  !frame.sawElse && frame.parentActive && !frame.taken

def branch (frame : Frame) (enabled : Bool) : Frame :=
  { frame with enabled, taken := frame.taken || enabled }

/-- Go over to the last branch, which is active when no other one was. A second one is never active. -/
def elseBranch (frame : Frame) : Frame :=
  if frame.sawElse then { frame with enabled := false }
  else
    { frame with
      sawElse := true
      enabled := frame.parentActive && !frame.taken
      taken := true }

end Frame

/-- Whether code below these groups is active. -/
def active (frames : List Frame) : Bool :=
  frames.head?.all Frame.enabled

end ScriptLint.Preprocess
