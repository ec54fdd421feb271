import ScriptLint.Data.Yaml.Token

/-!
# Reading YAML

Nodes are put together from tokens. A node may be left out where a mark already says what follows.
-/

namespace ScriptLint.Yaml

/-- Reads one node. The entries of a sequence may stand without a block of their own if `bare` is set. -/
abbrev NodeReader := (bare : Bool) → List Token → Option (Yaml × List Token)

/-- Read a node, unless one of some tokens comes first. -/
def readUnless (stops : List Token) (read : NodeReader) (bare : Bool) (tokens : List Token) :
    Option (Yaml × List Token) :=
  if tokens.head?.any stops.contains then some (.empty, tokens) else read bare tokens

def readEntries? (read : NodeReader) : (limit : Nat) → List Token → Option (List Yaml × List Token)
  | 0, _ => none
  | limit + 1, .entry :: tokens => do
    let (item, tokens) ← readUnless [.entry, .endBlock] read false tokens
    let (items, tokens) ← readEntries? read limit tokens
    return (item :: items, tokens)
  | _, .endBlock :: tokens => some ([], tokens)
  | _, _ => none

/-- The entries of a sequence at the column of the key that it belongs to. -/
def readBareEntries? (read : NodeReader) : (limit : Nat) → List Token → Option (List Yaml × List Token)
  | 0, _ => none
  | limit + 1, .entry :: tokens => do
    let (item, tokens) ← readUnless [.entry, .key, .value, .endBlock] read false tokens
    let (items, tokens) ← readBareEntries? read limit tokens
    return (item :: items, tokens)
  | _, tokens => some ([], tokens)

/-- What stands behind a key: a colon and a node, or nothing. -/
def readValue? (stops : List Token) (bare : Bool) (read : NodeReader) :
    List Token → Option (Yaml × List Token)
  | .value :: tokens => readUnless stops read bare tokens
  | tokens => some (.empty, tokens)

def readPairs? (read : NodeReader) :
    (limit : Nat) → List Token → Option (List (Yaml × Yaml) × List Token)
  | 0, _ => none
  | _, .endBlock :: tokens => some ([], tokens)
  | limit + 1, .key :: tokens => do
    let stops : List Token := [.key, .value, .endBlock]
    let (key, tokens) ← readUnless stops read true tokens
    let (node, tokens) ← readValue? stops true read tokens
    let (pairs, tokens) ← readPairs? read limit tokens
    return ((key, node) :: pairs, tokens)
  | _, _ => none

/-- What follows an item in brackets: the end, or a comma and perhaps another item. -/
def behindItem? (close : Token) : List Token → Option (List Token)
  | [] => none
  | token :: tokens =>
    if token == close then some (token :: tokens)
    else if token == .comma then some tokens
    else none

/-- The key of a lone pair. Where none is written, the token in its place is passed over. -/
def readLoneKey? (read : NodeReader) : List Token → Option (Yaml × List Token)
  | .value :: tokens | .comma :: tokens | .closeSequence :: tokens => some (.empty, tokens)
  | tokens => read false tokens

/-- One item of a sequence in brackets. A lone pair is a mapping of its own. -/
def readFlowItem? (read : NodeReader) : List Token → Option (Yaml × List Token)
  | .key :: tokens => do
    let (key, tokens) ← readLoneKey? read tokens
    let (node, tokens) ← readValue? [.comma, .closeSequence] false read tokens
    return (.mapping [(key, node)], tokens)
  | tokens => read false tokens

def readFlowItems? (read : NodeReader) : (limit : Nat) → List Token → Option (List Yaml × List Token)
  | 0, _ => none
  | _, .closeSequence :: tokens => some ([], tokens)
  | limit + 1, tokens => do
    let (item, tokens) ← readFlowItem? read tokens
    let tokens ← behindItem? .closeSequence tokens
    let (items, tokens) ← readFlowItems? read limit tokens
    return (item :: items, tokens)

/-- One entry of a mapping in braces. A node that is no key has no value. -/
def readFlowPair? (read : NodeReader) : List Token → Option ((Yaml × Yaml) × List Token)
  | .key :: tokens => do
    let (key, tokens) ← readUnless [.value, .comma, .closeMapping] read false tokens
    let (node, tokens) ← readValue? [.comma, .closeMapping] false read tokens
    return ((key, node), tokens)
  | tokens => (read false tokens).map fun (key, tokens) => ((key, .empty), tokens)

def readFlowPairs? (read : NodeReader) :
    (limit : Nat) → List Token → Option (List (Yaml × Yaml) × List Token)
  | 0, _ => none
  | _, .closeMapping :: tokens => some ([], tokens)
  | limit + 1, tokens => do
    let (pair, tokens) ← readFlowPair? read tokens
    let tokens ← behindItem? .closeMapping tokens
    let (pairs, tokens) ← readFlowPairs? read limit tokens
    return (pair :: pairs, tokens)

/-- Read a node; every level of collections takes at least one of `limit` tokens. -/
def readNode? : (limit : Nat) → NodeReader
  | _, _, .scalar text plain :: tokens => some (.scalar text plain, tokens)
  | 0, _, _ => none
  | limit + 1, bare, token :: tokens =>
    let read := readNode? limit
    let count := tokens.length + 1
    let sequence := fun (items, tokens) => (Yaml.sequence items, tokens)
    let mapping := fun (entries, tokens) => (Yaml.mapping entries, tokens)
    match token with
    | .entry => if bare then (readBareEntries? read (count + 1) (token :: tokens)).map sequence else none
    | .beginSequence => (readEntries? read count tokens).map sequence
    | .beginMapping => (readPairs? read count tokens).map mapping
    | .openSequence => (readFlowItems? read count tokens).map sequence
    | .openMapping => (readFlowPairs? read count tokens).map mapping
    | _ => none
  | _, _, [] => none

/-- The node behind the mark that begins a document, if any. -/
def readBody? (tokens : List Token) : Option (Yaml × List Token) :=
  let read := readNode? tokens.length
  match tokens with
  | [] | [.documentStart] => some (.empty, [])
  | .documentStart :: tokens => readUnless [.documentStart, .documentEnd] read false tokens
  | tokens => read false tokens

/-- The node of a document; behind it there can only be marks that end it. -/
def ofTokens? (tokens : List Token) : Option Yaml :=
  (readBody? tokens).bind fun (node, rest) =>
    if rest.all (· == .documentEnd) then some node else none

def parse? (text : String) : Option Yaml := (tokens? text).bind ofTokens?

end ScriptLint.Yaml
