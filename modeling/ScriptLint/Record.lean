import ScriptLint.Data.Json
import ScriptLint.Include.File
import ScriptLint.Scope
import ScriptLint.Text.Lines

/-!
# Records

The machine-readable form of the things that reports show, field by field in a fixed order.
-/

namespace ScriptLint

def Span.record (span : Span) : Json :=
  .obj [("start", .nat span.start), ("end", .nat span.stop)]

def Position.record (position : Position) : Json :=
  .obj [("line", .nat position.line), ("column", .nat position.column), ("offset", .nat position.offset)]

def SemType.record (type : SemType) : Json := .str type.name

/-- The fields of a diagnostic, without braces, since some reports add to them. -/
def Diagnostic.fields (diagnostic : Diagnostic) : List (String × Json) :=
  [("code", .str diagnostic.code.text), ("severity", .str diagnostic.severity.name),
    ("message", .str diagnostic.message), ("span", diagnostic.span.record),
    ("origin", .str diagnostic.origin.name)]

def Diagnostic.record (diagnostic : Diagnostic) : Json := .obj diagnostic.fields

namespace Macro

def Value.record : Value → Json
  | int n => .obj [("type", .str "int"), ("value", .int n.toInt)]
  | float x => .obj [("type", .str "float"), ("value", .float x)]
  | bool b => .obj [("type", .str "bool"), ("value", .bool b)]
  | str text => .obj [("type", .str "str"), ("value", .str text)]

def Definition.record (definition : Definition) : Json :=
  match definition with
  | object body =>
    .obj [("kind", .str "object"), ("body", .str body),
      ("value", (definition.value?.map Value.record).getD .null)]
  | function params variadic body =>
    .obj [("kind", .str "function"), ("params", .arr (params.map .str)), ("variadic", .bool variadic),
      ("body", .str body)]

def record (entry : Macro) : Json :=
  .obj [("name", .str entry.name), ("def", entry.definition.record), ("span", entry.span.record),
    ("file", .ofString? (entry.file.map Path.text))]

end Macro

def Inclusion.record (inclusion : Inclusion) : Json :=
  .obj [("target", .str inclusion.target), ("span", inclusion.span.record),
    ("angled", .bool inclusion.angled), ("resolved", .ofString? (inclusion.resolved.map Path.text))]

def Param.record (param : Param) : Json :=
  .obj [("name", .str param.name), ("type", param.type.record)]

def DeclKind.name : DeclKind → String
  | var => "var"
  | param => "param"
  | func => "func"
  | state => "state"
  | event => "event"
  | label => "label"

/-- The fields of a declaration, without braces, since some reports add to them. -/
def Decl.fields (decl : Decl) : List (String × Json) :=
  [("id", .nat decl.id), ("name", .str decl.name), ("kind", .str decl.kind.name),
    ("ty", decl.type.record), ("params", .arr (decl.params.map Param.record)),
    ("span", decl.span.record), ("full_span", decl.fullSpan.record), ("scope", .nat decl.scope)]

end ScriptLint
