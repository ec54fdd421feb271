import ScriptLint.Analysis
import ScriptLint.Config

/-!
# The pipeline

All stages over one document: preprocessing, tokens, analysis, and the report. A pipeline holds what outlives a
document. Each document starts from the configured definitions, so nothing that one defines reaches the next.
-/

namespace ScriptLint

/-- Everything that is known about one version of a document. -/
structure Document where
  pre : Preprocessed
  tokens : List Token
  analysis : Analysis
  /-- What all stages found, in report order. -/
  found : List Diagnostic
  /-- What is reported of it. -/
  reported : List Diagnostic
  digest : UInt64
  lines : LineIndex

namespace Document

def hasErrors (document : Document) : Bool :=
  document.reported.any Diagnostic.isError

/-- Leave out what is disabled or suppressed, and keep at most `limit` diagnostics. -/
def select (found : List Diagnostic) (suppressions : Suppressions) (lines : LineIndex) (disabled : List Code)
    (limit : Nat) : List Diagnostic :=
  (found.filter fun diagnostic =>
    !disabled.contains diagnostic.code &&
      !suppressions.suppresses lines diagnostic.code diagnostic.span.start).take limit

/-- Select again from all that was found. -/
def refilter (document : Document) (disabled : List Code) (limit : Nat) : Document :=
  { document with
    reported := select document.found document.pre.suppressions document.lines disabled limit }

end Document

/-- A document that was analysed before. -/
structure CachedDocument where
  version : Int
  document : Document

structure Pipeline where
  config : Config
  definitions : Definitions
  predefined : Macro.Table
  disabled : List Code
  documents : NameMap CachedDocument := ∅

namespace Pipeline

/-- Set a pipeline up; the configuration has to make sense. -/
def new (config : Config) (definitions : Definitions) : Except Config.Invalid Pipeline := do
  let predefined ← config.predefined
  let disabled ← config.disabledCodes
  return { config, definitions, predefined, disabled }

def analyze (pipeline : Pipeline) (system : FileSystem) (cache : IncludeCache) (text : String)
    (path : Option Path) : Document × IncludeCache :=
  let chars := text.toList
  let setting : Preprocess.Setting := ⟨system, ⟨pipeline.config.includePaths⟩, pipeline.predefined⟩
  let (pre, cache) := preprocess setting chars path cache
  let lexed := tokenize chars pre.disabled
  let analysis := ScriptLint.analyze chars lexed.tokens pre pipeline.definitions
  let found := Diagnostic.sort (pre.diagnostics ++ lexed.diagnostics ++ analysis.diagnostics)
  let lines := LineIndex.ofText chars
  let reported := Document.select found pre.suppressions lines pipeline.disabled
    pipeline.config.maxDiagnostics
  (⟨pre, lexed.tokens, analysis, found, reported, Digest.ofText text, lines⟩, cache)

/-- The kept result for a document, while its version, its text and every included file are the same. -/
def kept? (pipeline : Pipeline) (system : FileSystem) (uri : String) (version : Int) (text : String) :
    Option Document :=
  (pipeline.documents.get? uri).bind fun entry =>
    if entry.version == version && entry.document.digest == Digest.ofText text &&
        !entry.document.pre.files.any (·.isStale system) then
      some entry.document
    else none

/-- Analyse a document unless the kept result still holds. -/
def analyzeDocument (pipeline : Pipeline) (system : FileSystem) (cache : IncludeCache) (uri : String)
    (version : Int) (text : String) (path : Option Path) : Document × Pipeline × IncludeCache :=
  match pipeline.kept? system uri version text with
  | some document => (document, pipeline, cache)
  | none =>
    let (document, cache) := pipeline.analyze system cache text path
    (document, { pipeline with documents := pipeline.documents.insert uri ⟨version, document⟩ }, cache)

def forget (pipeline : Pipeline) (uri : String) : Pipeline :=
  { pipeline with documents := pipeline.documents.erase uri }

end Pipeline

end ScriptLint
