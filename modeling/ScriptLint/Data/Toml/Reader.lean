import ScriptLint.Data.Toml.Scalar

/-!
# Reading TOML

A document is a list of lines: settings, and headers that say to which table the settings below them belong. No
table is begun twice, and no setting is given twice.
-/

namespace ScriptLint.Toml

/-! ## Tables in the making -/

/-- A table while settings can still be added to it. -/
inductive Draft where
  | setting (value : Toml)
  /-- A table, whether a header began it, and whether a dotted key made it. -/
  | table (begun dotted : Bool) (fields : List (String × Draft))

namespace Draft

mutual

def toToml : Draft → Toml
  | .setting value => value
  | .table _ _ fields => .table (fieldValues fields)

def fieldValues : List (String × Draft) → List (String × Toml)
  | [] => []
  | (name, node) :: fields => (name, toToml node) :: fieldValues fields

end

/-- Put a node in the place of another. -/
def replace (fields : List (String × Draft)) (name : String) (node : Draft) : List (String × Draft) :=
  fields.map fun field => if field.1 == name then (name, node) else field

/-- Add a setting under a dotted key. Dotted keys only reach into tables that such keys made; `open_` says whether
the table at hand is one, or the one that the key starts from. -/
def add? (value : Toml) : (key : List String) → (open_ : Bool) → List (String × Draft) →
    Option (List (String × Draft))
  | [], _, _ => none
  | [name], open_, fields =>
    if open_ && (fields.lookup name).isNone then some (fields ++ [(name, .setting value)]) else none
  | name :: key, _, fields =>
    match fields.lookup name with
    | none => (add? value key true []).map fun inner => fields ++ [(name, .table false true inner)]
    | some (.table false dotted inner) =>
      (add? value key dotted inner).map fun inner => replace fields name (.table false dotted inner)
    | some _ => none

/-- Begin a table by a header. The tables around it need not have been begun. -/
def begin? : (key : List String) → List (String × Draft) → Option (List (String × Draft))
  | [], _ => none
  | [name], fields =>
    match fields.lookup name with
    | none => some (fields ++ [(name, .table true false [])])
    | some (.table false false inner) => some (replace fields name (.table true false inner))
    | some _ => none
  | name :: key, fields =>
    match fields.lookup name with
    | none => (begin? key []).map fun inner => fields ++ [(name, .table false false inner)]
    | some (.table begun dotted inner) =>
      (begin? key inner).map fun inner => replace fields name (.table begun dotted inner)
    | some (.setting _) => none

/-- Change the table of a header. -/
def within? (change : List (String × Draft) → Option (List (String × Draft))) :
    (header : List String) → List (String × Draft) → Option (List (String × Draft))
  | [], fields => change fields
  | name :: header, fields =>
    match fields.lookup name with
    | some (.table begun dotted inner) =>
      (within? change header inner).map fun inner => replace fields name (.table begun dotted inner)
    | _ => none

end Draft

/-! ## Keys -/

def isKeyPart (c : Char) : Bool :=
  Text.isLetter c || Text.isDigit c || c == '_' || c == '-'

/-- One part of a key: a word, or a string of one line. -/
def readKeyPart? : List Char → Option (String × List Char)
  | [] => none
  | c :: cs =>
    if c == '"' || c == '\'' then
      (readLine? c (cs.length + 1) cs).map fun (name, cs) => (String.ofList name, cs)
    else if isKeyPart c then
      some (String.ofList (c :: cs.takeWhile isKeyPart), cs.dropWhile isKeyPart)
    else none

/-- A key of one or more parts with points between them. -/
def readKey? : (limit : Nat) → List Char → Option (List String × List Char)
  | 0, _ => none
  | limit + 1, cs => do
    let (part, cs) ← readKeyPart? cs
    match skipBlanks cs with
    | '.' :: cs =>
      let (parts, cs) ← readKey? limit (skipBlanks cs)
      return (part :: parts, cs)
    | cs => return ([part], cs)

/-! ## Values -/

/-- Reads one value from the front of a text. -/
abbrev ValueReader := List Char → Option (Toml × List Char)

def skipSpace : (inComment : Bool) → List Char → List Char
  | _, [] => []
  | inComment, c :: cs =>
    if c == '\n' || (c == '\r' && cs.head? == some '\n') then skipSpace false cs
    else if inComment then if isAllowed c then skipSpace true cs else c :: cs
    else if isBlank c then skipSpace false cs
    else if c == '#' then skipSpace true cs
    else c :: cs

def readItems? (read : ValueReader) : (limit : Nat) → List Char → Option (List Toml × List Char)
  | 0, _ => none
  | limit + 1, cs =>
    match skipSpace false cs with
    | ']' :: cs => some ([], cs)
    | cs => do
      let (item, cs) ← read cs
      match skipSpace false cs with
      | ',' :: cs =>
        let (items, cs) ← readItems? read limit cs
        return (item :: items, cs)
      | ']' :: cs => return ([item], cs)
      | _ => none

def readSetting? (read : ValueReader) (cs : List Char) : Option ((List String × Toml) × List Char) := do
  let (key, cs) ← readKey? (cs.length + 1) cs
  match cs with
  | '=' :: cs =>
    let (value, cs) ← read (skipBlanks cs)
    return ((key, value), cs)
  | _ => none

def readInline? (read : ValueReader) :
    (limit : Nat) → List (String × Draft) → List Char → Option (List (String × Draft) × List Char)
  | 0, _, _ => none
  | limit + 1, fields, cs =>
    match skipSpace false cs with
    | '}' :: cs => some (fields, cs)
    | cs => do
      let ((key, value), cs) ← readSetting? read cs
      let fields ← Draft.add? value key true fields
      match skipSpace false cs with
      | ',' :: cs => readInline? read limit fields cs
      | '}' :: cs => return (fields, cs)
      | _ => none

def readInlineTable? (read : ValueReader) (cs : List Char) : Option (Toml × List Char) :=
  (readInline? read (cs.length + 1) [] cs).map fun (fields, cs) => (.table (Draft.fieldValues fields), cs)

/-- Read a value with at most `depth` levels of arrays and inline tables. -/
def readValue? : (depth : Nat) → ValueReader
  | _, [] => none
  | depth, c :: cs =>
    if c == '"' || c == '\'' then (readString? c cs).map fun (text, cs) => (.str text, cs)
    else if c == '[' || c == '{' then
      match depth with
      | 0 => none
      | depth + 1 =>
        if c == '{' then readInlineTable? (readValue? depth) cs
        else
          (readItems? (readValue? depth) (cs.length + 1) cs).map fun (items, cs) => (.array items, cs)
    else (ofWord? ((c :: cs).takeWhile isWordPart)).map fun value =>
      (value, (c :: cs).dropWhile isWordPart)

/-! ## Documents -/

/-- Nothing but a comment stands up to the end of the line. -/
def endLine? (cs : List Char) : Option (List Char) :=
  let cs := match skipBlanks cs with
    | '#' :: cs => cs.dropWhile isAllowed
    | cs => cs
  if cs.isEmpty then some [] else dropLineEnd? cs

def readHeader? (cs : List Char) : Option (List String × List Char) := do
  let (key, cs) ← readKey? (cs.length + 1) (skipBlanks cs)
  match cs with
  | ']' :: cs => return (key, cs)
  | _ => none

/-- How deep values may be nested. -/
def maxDepth : Nat := 80

/-- Read the lines of a document, with the header that they stand below. -/
def readDocument? : (limit : Nat) → (header : List String) → List (String × Draft) → List Char →
    Option (List (String × Draft))
  | 0, _, _, _ => none
  | limit + 1, header, fields, cs =>
    match skipSpace false cs with
    | [] => some fields
    | '[' :: cs => do
      let (header, cs) ← readHeader? cs
      let fields ← Draft.begin? header fields
      let cs ← endLine? cs
      readDocument? limit header fields cs
    | cs => do
      let ((key, value), cs) ← readSetting? (readValue? maxDepth) cs
      let fields ← Draft.within? (Draft.add? value key true) header fields
      let cs ← endLine? cs
      readDocument? limit header fields cs

/-- The character that may stand in front of a document. -/
def byteOrderMark : Char := Char.ofNat 0xFEFF

def parse? (text : String) : Option Toml :=
  let cs := text.toList
  let cs := if cs.head? == some byteOrderMark then cs.tail else cs
  (readDocument? (cs.length + 1) [] [] cs).map fun fields => .table (Draft.fieldValues fields)

end ScriptLint.Toml
