import ScriptLint.Macro.Arguments
import ScriptLint.Macro.Table

/-!
# Expansion

A pass replaces every defined word of a text; what replaces it is expanded again with the word hidden.
Strings are never touched, and a word that continues a number is part of the number. The nesting of
replacements has a bound, beyond which a text stays as it is.
-/

namespace ScriptLint.Macro

/-- The argument for a parameter; a missing one is empty. -/
def argument? : (params args : List String) → (word : String) → Option String
  | [], _, _ => none
  | param :: params, args, word =>
    if param == word then some (args.headD "") else argument? params args.tail word

/-- What the names in a body stand for during one call. -/
structure Binding where
  params : List String
  variadic : Bool
  args : List String
  deriving Repr, DecidableEq

namespace Binding

/-- The arguments beyond the named parameters. -/
def extra (binding : Binding) : List String :=
  if binding.variadic then binding.args.drop binding.params.length else []

def extraText (binding : Binding) : String :=
  ", ".intercalate binding.extra

def hasExtra (binding : Binding) : Bool :=
  binding.extra.any fun arg => !arg.isEmpty

/-- The text for a word of a body, which is the word itself unless it is a parameter. -/
def replace (binding : Binding) (word : String) : String :=
  if binding.variadic && word == "__VA_ARGS__" then binding.extraText
  else (argument? binding.params binding.args word).getD word

/-- Put the arguments into a body. `glued` says that the character before belongs to a word. -/
def substitute (binding : Binding) (glued : Bool) : List Char → List Char
  | [] => []
  | c :: cs =>
    if Text.isQuote c then
      let length := (Text.stringLength c cs).1
      c :: cs.take length ++ binding.substitute false (cs.drop length)
    else if glued || !Text.isIdentStart c then
      c :: binding.substitute (Text.isIdentPart c) cs
    else
      let word := c :: cs.takeWhile Text.isIdentPart
      let rest := cs.dropWhile Text.isIdentPart
      if binding.variadic && String.ofList word == "__VA_OPT__" then
        match _found : Call.read? rest with
        | some call =>
          (if binding.hasExtra then binding.substitute false call.inner else []) ++
            binding.substitute false call.rest
        | none => word ++ binding.substitute false rest
      else (binding.replace (String.ofList word)).toList ++ binding.substitute false rest
termination_by cs => cs.length
decreasing_by
  all_goals have shorter := (List.dropWhile_sublist Text.isIdentPart (l := cs)).length_le
  · simp only [List.length_drop, List.length_cons]; omega
  · simp
  · have : call.inner.length < (cs.dropWhile Text.isIdentPart).length := Call.length_inner_lt _found
    simp only [List.length_cons]; omega
  · have : call.rest.length < (cs.dropWhile Text.isIdentPart).length := Call.length_rest_lt _found
    simp only [List.length_cons]; omega
  · simp only [List.length_cons]; omega
  · simp only [List.length_cons]; omega

end Binding

/-- The body of a function-like definition with arguments put in, if it takes that many. A call without
arguments passes an empty one to a single parameter. -/
def Definition.invoke? (definition : Definition) (args : List String) : Option String :=
  match definition with
  | .object _ => none
  | .function params variadic body =>
    let single := args.isEmpty && params.length == 1 && !variadic
    if definition.acceptsArity args.length || single then
      some (String.ofList (Binding.substitute ⟨params, variadic, args⟩ false body.toList))
    else none

namespace Table

def invoke? (table : Table) (name : String) (args : List String) : Option String :=
  (table.get? name).bind fun entry => entry.definition.invoke? args

/-- The definition of a word that is not hidden. -/
def visible? (table : Table) (hidden : List String) (word : String) : Option Definition :=
  if hidden.contains word then none else (table.get? word).map Macro.definition

/-- One pass over a text. `nested hidden text` expands what replaces a word. -/
def expandText (table : Table) (nested : List String → List Char → List Char) (hidden : List String)
    (glued : Bool) : List Char → List Char
  | [] => []
  | c :: cs =>
    if Text.isQuote c then
      let length := (Text.stringLength c cs).1
      c :: cs.take length ++ table.expandText nested hidden false (cs.drop length)
    else if glued || !Text.isIdentStart c then
      c :: table.expandText nested hidden (Text.isIdentPart c) cs
    else
      let word := c :: cs.takeWhile Text.isIdentPart
      let rest := cs.dropWhile Text.isIdentPart
      let name := String.ofList word
      match table.visible? hidden name with
      | none => word ++ table.expandText nested hidden false rest
      | some (.object body) =>
        nested (name :: hidden) body.toList ++ table.expandText nested hidden false rest
      | some (.function params variadic body) =>
        match _found : Call.read? rest with
        | none => word ++ table.expandText nested hidden false rest
        | some call =>
          (match (Definition.function params variadic body).invoke? call.arguments with
            | some text => nested (name :: hidden) text.toList
            | none => word ++ call.text) ++
            table.expandText nested hidden false call.rest
termination_by cs => cs.length
decreasing_by
  all_goals have shorter := (List.dropWhile_sublist Text.isIdentPart (l := cs)).length_le
  · simp only [List.length_drop, List.length_cons]; omega
  · simp
  · simp only [List.length_cons]; omega
  · simp only [List.length_cons]; omega
  · simp only [List.length_cons]; omega
  · have : call.rest.length < (cs.dropWhile Text.isIdentPart).length := Call.length_rest_lt _found
    simp only [List.length_cons]; omega

/-- Expand a text with at most `levels` nested replacements. -/
def expandWithin (table : Table) : (levels : Nat) → (hidden : List String) → List Char → List Char
  | 0, _, text => text
  | levels + 1, hidden, text => table.expandText (table.expandWithin levels) hidden false text

/-- How many passes may be nested. -/
def maxLevels : Nat := 65

/-- Replace every use of a definition in a text, also in what replaces it. -/
def expand (table : Table) (text : String) : String :=
  String.ofList (table.expandWithin maxLevels [] text.toList)

end Table

end ScriptLint.Macro
