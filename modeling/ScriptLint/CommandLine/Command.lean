import ScriptLint.Path

/-!
# Commands

What can be asked for on the command line, and how the words of a command line say it. Options may stand between
the files. Behind `--` every word is a file.
-/

namespace ScriptLint.CommandLine

inductive Format where
  | text
  | json
  deriving Repr, DecidableEq

/-- What every command needs to set its pipeline up. -/
structure Options where
  /-- The configuration file, if not the one of the working directory. -/
  config : Option Path := none
  includePaths : List Path := []
  defines : List String := []
  /-- A file of definitions to add to the bundled ones. -/
  definitions : Option Path := none
  deriving Repr, DecidableEq

inductive Command where
  /-- Report diagnostics. -/
  | check (files : List Path) (format : Format)
  /-- Show the tokens of a file, with comments and directives or without. -/
  | tokens (file : Path) (trivia : Bool)
  /-- Show what preprocessing a file gives. -/
  | preprocess (file : Path)
  /-- Show the declarations of a file. -/
  | symbols (file : Path)
  deriving Repr, DecidableEq

/-! ## Names -/

inductive CommandName where
  | check | tokens | preprocess | symbols
  deriving Repr, DecidableEq

inductive OptionName where
  | config | includes | define | definitions | format | trivia
  deriving Repr, DecidableEq

def CommandName.ofText? (text : String) : Option CommandName :=
  match text with
  | "check" => some check
  | "tokens" => some tokens
  | "preprocess" => some preprocess
  | "symbols" => some symbols
  | _ => none

def CommandName.takes (command : CommandName) (name : OptionName) : Bool :=
  match name with
  | .format => command == check
  | .trivia => command == tokens
  | _ => true

namespace OptionName

def ofLong? (text : String) : Option OptionName :=
  match text with
  | "config" => some config
  | "include" => some includes
  | "define" => some define
  | "defs" => some definitions
  | "format" => some format
  | "trivia" => some trivia
  | _ => none

def ofShort? (c : Char) : Option OptionName :=
  match c with
  | 'c' => some config
  | 'I' => some includes
  | 'D' => some define
  | _ => none

def takesValue (name : OptionName) : Bool := name != trivia

end OptionName

/-- Why a command line makes no sense. -/
inductive UsageError where
  | noCommand
  | unknownCommand (word : String)
  | unknownOption (word : String)
  | missingValue (word : String)
  | unwantedValue (word : String)
  | emptyPath
  | repeated
  | unknownFormat (word : String)
  | missingFile
  | surplusFile (word : String)
  deriving Repr, DecidableEq

def UsageError.message : UsageError → String
  | noCommand => "a command is required: check, tokens, preprocess or symbols"
  | unknownCommand word => s!"unrecognized command '{word}'"
  | unknownOption word => s!"unexpected option '{word}'"
  | missingValue word => s!"a value is required for '{word}'"
  | unwantedValue word => s!"no value is allowed for '{word}'"
  | emptyPath => "a path cannot be empty"
  | repeated => "an option was given more than once"
  | unknownFormat word => s!"unknown format '{word}'"
  | missingFile => "a file is required"
  | surplusFile word => s!"unexpected file '{word}'"

/-! ## Words -/

/-- What a word, or two of them, say. -/
inductive Argument where
  | file (text : String)
  | setting (name : OptionName) (value : String)
  deriving Repr, DecidableEq

/-- A word that cannot be the value of the option in front of it. -/
def looksLikeOption (word : String) : Bool :=
  match word.toList with
  | '-' :: _ :: _ => true
  | _ => false

/-- The option that a word begins with, and the value in the same word if there is one. -/
def optionOf? (word : String) : Option (OptionName × Option String) :=
  match word.toList with
  | '-' :: '-' :: cs =>
    let name := String.ofList (cs.takeWhile (· != '='))
    let value := (cs.dropWhile (· != '=')).tail? |>.map String.ofList
    (OptionName.ofLong? name).map fun name => (name, value)
  | '-' :: c :: cs =>
    let value := match cs with
      | [] => none
      | '=' :: cs => some (String.ofList cs)
      | cs => some (String.ofList cs)
    (OptionName.ofShort? c).map fun name => (name, value)
  | _ => none

def readArguments (command : CommandName) : List String → Except UsageError (List Argument)
  | [] => .ok []
  | word :: words =>
    if word == "--" then .ok (words.map .file)
    else if !looksLikeOption word then
      (readArguments command words).map fun arguments => .file word :: arguments
    else
      match optionOf? word with
      | none => .error (.unknownOption word)
      | some (name, value) =>
        if !command.takes name then .error (.unknownOption word)
        else
          match name.takesValue, value, words with
          | false, none, words =>
            (readArguments command words).map fun arguments => .setting name "" :: arguments
          | false, some _, _ => .error (.unwantedValue word)
          | true, some value, words =>
            (readArguments command words).map fun arguments => .setting name value :: arguments
          | true, none, value :: words =>
            if looksLikeOption value then .error (.missingValue word)
            else (readArguments command words).map fun arguments => .setting name value :: arguments
          | true, none, [] => .error (.missingValue word)

/-! ## Commands from words -/

structure Request where
  files : List Path := []
  options : Options := {}
  format : Option Format := none
  trivia : Bool := false

/-- A path cannot be empty. -/
def pathOf (text : String) : Except UsageError Path :=
  if text.isEmpty then .error .emptyPath else .ok ⟨text⟩

def formatOf (text : String) : Except UsageError Format :=
  match text with
  | "text" => .ok .text
  | "json" => .ok .json
  | _ => .error (.unknownFormat text)

/-- Set what can be set once. -/
def once {α : Type} (old : Option α) (value : α) : Except UsageError (Option α) :=
  if old.isSome then .error .repeated else .ok (some value)

def Request.add (request : Request) (argument : Argument) : Except UsageError Request := do
  let options := request.options
  match argument with
  | .file text => return { request with files := request.files ++ [← pathOf text] }
  | .setting .config text =>
    return { request with options := { options with config := ← once options.config (← pathOf text) } }
  | .setting .includes text =>
    return { request with
      options := { options with includePaths := options.includePaths ++ [← pathOf text] } }
  | .setting .define text =>
    return { request with options := { options with defines := options.defines ++ [text] } }
  | .setting .definitions text =>
    return { request with
      options := { options with definitions := ← once options.definitions (← pathOf text) } }
  | .setting .format text => return { request with format := ← once request.format (← formatOf text) }
  | .setting .trivia _ =>
    if request.trivia then throw .repeated else return { request with trivia := true }

def Request.file (request : Request) : Except UsageError Path :=
  match request.files with
  | [] => .error .missingFile
  | [file] => .ok file
  | _ :: surplus :: _ => .error (.surplusFile surplus.text)

def Request.command (request : Request) (name : CommandName) : Except UsageError Command :=
  match name with
  | .check =>
    if request.files.isEmpty then .error .missingFile
    else .ok (.check request.files (request.format.getD .text))
  | .tokens => request.file.map fun file => .tokens file request.trivia
  | .preprocess => request.file.map .preprocess
  | .symbols => request.file.map .symbols

def parse (words : List String) : Except UsageError (Command × Options) := do
  match words with
  | [] => throw .noCommand
  | word :: words =>
    match CommandName.ofText? word with
    | none => throw (.unknownCommand word)
    | some name =>
      let arguments ← readArguments name words
      let request ← arguments.foldlM Request.add {}
      let command ← request.command name
      return (command, request.options)

end ScriptLint.CommandLine
