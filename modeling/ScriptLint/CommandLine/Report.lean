import ScriptLint.CommandLine.Command
import ScriptLint.Pipeline
import ScriptLint.Record
import ScriptLint.Text.Quoted

/-!
# Reports

What the commands print about analysed files.
-/

namespace ScriptLint.CommandLine

/-- A file that was read and analysed. -/
structure Checked where
  path : Path
  text : List Char
  document : Document

namespace Checked

def position (file : Checked) (offset : Nat) : Position :=
  file.document.lines.position file.text offset

def count (file : Checked) (severity : Severity) : Nat :=
  (file.document.reported.filter fun diagnostic => diagnostic.severity == severity).length

/-! ## Diagnostics -/

/-- One line for a diagnostic: file, place, severity, code and message. -/
def diagnosticLine (file : Checked) (diagnostic : Diagnostic) : String :=
  let place := (file.position diagnostic.span.start).render
  s!"{file.path.text}:{place}: {diagnostic.severity.name}[{diagnostic.code.text}]: {diagnostic.message}"

def diagnosticLines (file : Checked) : List String :=
  file.document.reported.map file.diagnosticLine

def diagnosticRecord (file : Checked) (diagnostic : Diagnostic) : Json :=
  .obj (diagnostic.fields ++
    [("name", .str diagnostic.code.name), ("start", (file.position diagnostic.span.start).record),
      ("end", (file.position diagnostic.span.stop).record)])

def diagnosticsRecord (file : Checked) : Json :=
  .obj [("file", .str file.path.text), ("diagnostics", .arr (file.document.reported.map file.diagnosticRecord))]

/-! ## Tokens -/

def kindName : TokenKind → String
  | .ident => "ident"
  | .number => "number"
  | .str => "string"
  | .op => "op"
  | .punct => "punct"
  | .comment => "comment"
  | .directive => "preproc"

/-- One line for a token: place, kind and quoted text. -/
def tokenLine (file : Checked) (token : Token) : String :=
  s!"{(file.position token.span.start).render}\t{kindName token.kind}\t{Text.quoted token.text}"

def tokenLines (file : Checked) (trivia : Bool) : List String :=
  (file.document.tokens.filter fun token => trivia || !token.isTrivia).map file.tokenLine

/-! ## Preprocessing and declarations -/

def rangeRecord (file : Checked) (span : Span) : Json :=
  .obj [("start", (file.position span.start).record), ("end", (file.position span.stop).record)]

def preprocessRecord (file : Checked) : Json :=
  let pre := file.document.pre
  .obj [("file", .str file.path.text), ("disabled_ranges", .arr (pre.disabled.map file.rangeRecord)),
    ("macros", .arr (pre.macros.values.map Macro.record)),
    ("includes", .arr (pre.includes.map Inclusion.record)),
    ("missing_includes", .arr (pre.missing.map Inclusion.record)),
    ("diagnostics", .arr (pre.diagnostics.map Diagnostic.record))]

/-- Declarations are shown from top to bottom. -/
def declNotAfter (first second : Decl) : Bool :=
  if first.span.start == second.span.start then first.id ≤ second.id
  else first.span.start < second.span.start

def declRecord (file : Checked) (decl : Decl) : Json :=
  .obj (decl.fields ++
    [("position", (file.position decl.span.start).record),
      ("references", .nat (file.document.analysis.referencesTo decl.id).length)])

def symbolsRecord (file : Checked) : Json :=
  .arr ((file.document.analysis.decls.toList.mergeSort declNotAfter).map file.declRecord)

end Checked

/-! ## Output -/

/-- Every line ends with a line feed. -/
def joinLines (lines : List String) : String :=
  String.join (lines.map fun line => line ++ "\n")

def summaryLine (files : List Checked) : String :=
  let total (severity : Severity) : Nat := files.foldl (fun count file => count + file.count severity) 0
  s!"{total .error} error(s), {total .warning} warning(s) in {files.length} file(s)"

def checkReport (files : List Checked) : Format → String
  | .text => joinLines (files.flatMap Checked.diagnosticLines ++ [summaryLine files])
  | .json => joinLines [(Json.arr (files.map Checked.diagnosticsRecord)).render]

end ScriptLint.CommandLine
