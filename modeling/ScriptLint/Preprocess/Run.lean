import ScriptLint.Condition.Eval
import ScriptLint.Include.Cache
import ScriptLint.Include.Resolver
import ScriptLint.Preprocess.Conditional
import ScriptLint.Preprocess.Directive
import ScriptLint.Preprocess.Problem
import ScriptLint.Suppression

/-!
# Preprocessing

A run goes over the lines of one file and keeps what the directives add up to: definitions, open groups,
disabled ranges, includes, suppression rules and diagnostics. The text itself is not changed, so every
offset stays what it is.

Included files are loaded by a function that a run is given. It is made by recursion on how many more files
may be nested, which no chain of includes exceeds, because a file on the chain is never loaded again.
-/

namespace ScriptLint

/-- What preprocessing a document gives. -/
structure Preprocessed where
  /-- Ranges that hold no active code, in order. -/
  disabled : List Span := []
  /-- The definitions in force at the end. -/
  macros : Macro.Table := ∅
  includes : List Inclusion := []
  files : List IncludedFile := []
  missing : List Inclusion := []
  diagnostics : List Diagnostic := []
  suppressions : Suppressions := {}
  /-- An include was left out because its file was being included already. -/
  sawCycle : Bool := false
  deriving Repr, Inhabited

namespace Preprocessed

/-- Whether an offset lies in a disabled range: only the first range that ends behind it can hold it. -/
def isDisabled (result : Preprocessed) (offset : Nat) : Bool :=
  (result.disabled.find? fun range => offset < range.stop).any fun range => range.start ≤ offset

/-- Add what a file exports, unless its path is known. -/
def addExports (known : List (Path × Exports)) (file : IncludedFile) : List (Path × Exports) :=
  if known.any fun entry => entry.1 == file.path then known else known ++ [(file.path, file.exports)]

/-- What all included files export, in the order in which they are first reached. -/
def exports (result : Preprocessed) : List (Path × Exports) :=
  (IncludedFile.walkAll result.files).foldl addExports []

def includedFunction? (result : Preprocessed) (name : String) : Option Export :=
  result.exports.findSome? fun entry => entry.2.functions.get? name

def includedGlobal? (result : Preprocessed) (name : String) : Option Export :=
  result.exports.findSome? fun entry => entry.2.globals.get? name

def includedState? (result : Preprocessed) (name : String) : Option Export :=
  result.exports.findSome? fun entry => entry.2.states.get? name

end Preprocessed

namespace Preprocess

/-- Load an included file, with the cache before and after. -/
abbrev Loader := Path → IncludeCache → Except FileSystem.ReadError IncludedFile × IncludeCache

/-- What a run over one file does not change. -/
structure Env where
  system : FileSystem
  resolver : Resolver
  /-- The file that the text comes from. -/
  file : Option Path
  /-- The text is the document itself and no included file. -/
  isDocument : Bool
  /-- The files that are being included, innermost first. -/
  stack : List Path
  load : Loader

/-- Where a run stands between two lines. -/
structure Run where
  result : Preprocessed
  frames : List Frame := []
  /-- Where the disabled range begins that is not closed yet. -/
  disabledFrom : Option Nat := none
  cache : IncludeCache

namespace Run

def active (run : Run) : Bool := Preprocess.active run.frames

def report (run : Run) (problem : Problem) (span : Span) : Run :=
  let diagnostic : Diagnostic := ⟨problem.code, problem.message, span, .preprocessor⟩
  { run with
    result := { run.result with diagnostics := run.result.diagnostics ++ [diagnostic] } }

def closeDisabled (run : Run) (stop : Nat) : Run :=
  match run.disabledFrom with
  | none => run
  | some start =>
    let disabled := if start < stop then run.result.disabled ++ [⟨start, stop⟩] else run.result.disabled
    { run with disabledFrom := none, result := { run.result with disabled } }

/-- Evaluate the condition of a directive; one that is not valid does not hold. -/
def condition (run : Run) (word : String) (directive : Directive) : Bool × Run :=
  match Condition.evaluate run.result.macros directive.rest with
  | .ok holds => (holds, run)
  | .error error => (false, run.report (.invalidCondition word error) directive.span)

/-- Whether a name is defined, as `#ifdef` or `#ifndef` asks for it. -/
def definedness (run : Run) (word : String) (wanted : Bool) (directive : Directive) : Bool × Run :=
  match directive.name? with
  | some name => (run.result.macros.contains name == wanted, run)
  | none => (false, run.report (.missingName word) directive.span)

/-- Open a group whose condition is only asked for in active code. -/
def openGroup (run : Run) (directive : Directive) (ask : Run → Bool × Run) : Run :=
  let parent := run.active
  let (holds, run) := if parent then ask run else (false, run)
  { run with frames := .opened parent holds directive.span :: run.frames }

def elseIf (run : Run) (directive : Directive) : Run :=
  match run.frames with
  | [] => run.report .strayElseIf directive.span
  | frame :: outer =>
    let (enabled, run) :=
      if frame.sawElse then (false, run.report .elseIfAfterElse directive.span)
      else if frame.awaits then run.condition "#elif" directive
      else (false, run)
    { run with frames := frame.branch enabled :: outer }

def otherwise (run : Run) (directive : Directive) : Run :=
  match run.frames with
  | [] => run.report .strayElse directive.span
  | frame :: outer =>
    let run := if frame.sawElse then run.report .repeatedElse directive.span else run
    { run with frames := frame.elseBranch :: outer }

def endIf (run : Run) (directive : Directive) : Run :=
  match run.frames with
  | [] => run.report .strayEndIf directive.span
  | _ :: outer => { run with frames := outer }

def define (run : Run) (env : Env) (directive : Directive) : Run :=
  match Macro.parseDefine directive.rest with
  | .error error => run.report (.invalidDefine error) directive.span
  | .ok defined =>
    let start := directive.restOffset + defined.offset
    let span : Span := ⟨start, start + defined.name.utf8ByteSize⟩
    let added : Macro := ⟨defined.name, defined.definition, span, if env.isDocument then none else env.file⟩
    if run.result.macros.contains defined.name then
      run.report (.alreadyDefined defined.name) span
    else { run with result := { run.result with macros := run.result.macros.define added } }

def undefine (run : Run) (directive : Directive) : Run :=
  match directive.name? with
  | some name => { run with result := { run.result with macros := run.result.macros.erase name } }
  | none => run.report (.missingName "#undef") directive.span

/-- Record an include that did not give a file. -/
def miss (run : Run) (inclusion : Inclusion) (problem : Problem) : Run :=
  let run := run.report problem inclusion.span
  { run with result := { run.result with missing := run.result.missing ++ [inclusion] } }

/-- Take in a file; its definitions never replace what is defined already. -/
def merge (run : Run) (inclusion : Inclusion) (file : IncludedFile) : Run :=
  { run with
    result := { run.result with
      macros := run.result.macros.defineAll file.exports.macros.values
      files := run.result.files ++ [file]
      includes := run.result.includes ++ [inclusion] } }

/-- Follow an include whose target was found at a path. -/
def enter (run : Run) (env : Env) (inclusion : Inclusion) (path : Path) : Run :=
  if env.stack.contains path then
    let run := run.report (.includeCycle inclusion.target) inclusion.span
    { run with
      result := { run.result with
        sawCycle := true
        includes := run.result.includes ++ [inclusion] } }
  else
    match env.load path run.cache with
    | (.ok file, cache) => { run with cache }.merge inclusion file
    | (.error error, cache) =>
      { run with cache }.miss inclusion (.includeUnreadable inclusion.target error)

def inclusion (run : Run) (env : Env) (directive : Directive) : Run :=
  match Target.read? directive.rest with
  | none => run.report .malformedInclude directive.span
  | some target =>
    let start := directive.restOffset + target.offset
    let span : Span := ⟨start, start + target.text.utf8ByteSize⟩
    let directory := env.file.bind Path.parent?
    match env.resolver.resolve? env.system target.text directory with
    | none =>
      run.miss ⟨target.text, span, target.angled, none⟩ (.includeNotFound target.text)
    | some path => run.enter env ⟨target.text, span, target.angled, some path⟩ path

/-- Carry out a directive in active code that is not about groups. -/
def perform (run : Run) (env : Env) (directive : Directive) : Run :=
  match directive.keyword with
  | .define => run.define env directive
  | .undefine => run.undefine directive
  | .inclusion => run.inclusion env directive
  | .error => run.report (.errorMessage directive.messageText) directive.span
  | .warning => run.report (.warningMessage directive.messageText) directive.span
  | .unknown name => run.report (.unknownDirective name) directive.span
  | _ => run

/-- Carry out a directive. Groups are followed in inactive code too. -/
def handle (run : Run) (env : Env) (directive : Directive) : Run :=
  match directive.keyword with
  | .ifTrue => run.openGroup directive (·.condition "#if" directive)
  | .ifDefined => run.openGroup directive (·.definedness "#ifdef" true directive)
  | .ifNotDefined => run.openGroup directive (·.definedness "#ifndef" false directive)
  | .elseIf => run.elseIf directive
  | .otherwise => run.otherwise directive
  | .endIf => run.endIf directive
  | _ => if run.active then run.perform env directive else run

def step (env : Env) (run : Run) (line : Line) : Run :=
  if line.isDirective then
    let run := (run.closeDisabled line.start).handle env (Directive.read line.start line.text)
    if run.active then run else { run with disabledFrom := some line.next }
  else
    match line.remark with
    | some remark =>
      if run.active then
        { run with
          result := { run.result with
            suppressions := run.result.suppressions.addComment remark.body remark.offset line.number } }
      else run
    | none => run

/-- Report the groups that are still open, the outermost first. -/
def reportOpen (run : Run) : Run :=
  run.frames.reverse.foldl
    (fun run frame => run.report .unclosedGroup frame.openedAt) run

/-- Close everything at the end of a text. -/
def finish (run : Run) (length : Nat) : Preprocessed × IncludeCache :=
  let run := run.reportOpen.closeDisabled length
  ({ run.result with suppressions := run.result.suppressions.finish }, run.cache)

def all (env : Env) (predefined : Macro.Table) (text : List Char) (cache : IncludeCache) :
    Preprocessed × IncludeCache :=
  ((lines text).foldl (step env) { result := { macros := predefined }, cache }).finish
    (Text.byteLength text)

end Run

/-- What is the same for a document and all files it includes. -/
structure Setting where
  system : FileSystem
  resolver : Resolver
  /-- The definitions before the first line of every file. -/
  predefined : Macro.Table

def loadText (setting : Setting) (load : Loader) (stack : List Path) (path : Path) (text : List Char)
    (cache : IncludeCache) : IncludedFile × IncludeCache :=
  let env : Env := ⟨setting.system, setting.resolver, some path, false, path :: stack, load⟩
  let (result, cache) := Run.all env setting.predefined text cache
  let exports := Exports.ofText text result.disabled path
  let own := result.macros.filter fun name _ => !setting.predefined.contains name
  let file : IncludedFile :=
    { path := setting.system.canonical path
      exports := { exports with macros := own }
      nested := result.files
      sources := IncludedFile.sourcesOf path (setting.system.modified? path) result.files
      diagnostics := result.diagnostics
      fingerprint := setting.predefined.fingerprint }
  -- A file cut short by a cycle depends on who included it, so it is not kept.
  (file, if result.sawCycle then cache else cache.insert file)

/-- Load included files, with at most `depth` of them inside one another. -/
def loadWithin (setting : Setting) : (depth : Nat) → (stack : List Path) → Loader
  | 0, _ => fun _ cache => (.error .missing, cache)
  | depth + 1, stack => fun path cache =>
    match cache.get setting.system path setting.predefined.fingerprint with
    | (some file, cache) => (.ok file, cache)
    | (none, cache) =>
      match setting.system.read path with
      | .error error => (.error error, cache)
      | .ok text =>
        let (file, cache) :=
          loadText setting (loadWithin setting depth (path :: stack)) stack path text.toList cache
        (.ok file, cache)

end Preprocess

/-- Preprocess a document. Its path, if it has one, tells where its includes are looked for and keeps it
from including itself. -/
def preprocess (setting : Preprocess.Setting) (text : List Char) (path : Option Path)
    (cache : IncludeCache) : Preprocessed × IncludeCache :=
  let file := path.map setting.system.canonical
  let stack := file.toList
  let load := Preprocess.loadWithin setting (setting.system.files.length + 1) stack
  Preprocess.Run.all ⟨setting.system, setting.resolver, file, true, stack, load⟩ setting.predefined text cache

end ScriptLint
