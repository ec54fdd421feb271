import ScriptLint.Macro.Table
import ScriptLint.Token.Lexer
import ScriptLint.TopLevel

/-!
# Exports

What a file offers to a document that includes it: its top-level declarations, the first of each name, and
the definitions in force at its end.
-/

namespace ScriptLint

/-- A declaration of an included file. -/
structure Export where
  name : String
  kind : TopLevel.Kind
  /-- What a function returns, or the type of a variable. -/
  type : SemType
  params : List Param
  span : Span
  file : Path
  deriving Repr, DecidableEq

structure Exports where
  functions : NameMap Export := ∅
  globals : NameMap Export := ∅
  states : NameMap Export := ∅
  macros : Macro.Table := ∅
  deriving Repr, DecidableEq, Inhabited

namespace Exports

def isEmpty (exported : Exports) : Bool :=
  exported.functions.isEmpty && exported.globals.isEmpty && exported.states.isEmpty &&
    exported.macros.isEmpty

/-- The export of an item; what has no type returns nothing. -/
def ofItem (file : Path) (item : TopLevel.Item) : Export :=
  { name := item.name
    kind := item.kind
    type := item.type.getD (if item.kind == .global then .any else .void)
    params := item.params
    span := item.span
    file := file }

/-- Add an export whose name is new among its kind. -/
def add (exported : Exports) (added : Export) : Exports :=
  match added.kind with
  | .function => { exported with functions := exported.functions.insertNew added.name added }
  | .global => { exported with globals := exported.globals.insertNew added.name added }
  | .state => { exported with states := exported.states.insertNew added.name added }

def ofText (text : List Char) (disabled : List Span) (file : Path) : Exports :=
  let tokens := (tokenize text disabled).tokens.filter fun token => !token.isTrivia
  ((TopLevel.scan tokens).map (ofItem file)).foldl add {}

end Exports

end ScriptLint
