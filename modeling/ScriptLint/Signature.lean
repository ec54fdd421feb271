import ScriptLint.SemType

/-!
# Signatures

What a callable takes and gives back.
-/

namespace ScriptLint

structure Param where
  name : String
  type : SemType
  deriving Repr, DecidableEq

structure Signature where
  returns : SemType := .void
  params : List Param := []
  deriving Repr, DecidableEq

end ScriptLint
