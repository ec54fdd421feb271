import ScriptLint.Signature
import ScriptLint.Token

/-!
# Top-level items

A light scan of a document's tokens for what it declares outside all braces: functions with a body, typed
variables and states. It needs no definitions and looks into no body, so it also serves for files that are
only included.
-/

namespace ScriptLint.TopLevel

inductive Kind where
  | function | global | state
  deriving Repr, DecidableEq

structure Item where
  kind : Kind
  name : String
  span : Span
  /-- The declared type; functions may have none, and states never have one. -/
  type : Option SemType
  params : List Param
  deriving Repr, DecidableEq

/-- What follows the brace that closes `depth` others and one more. -/
def skipBody : (depth : Nat) → List Token → List Token
  | _, [] => []
  | depth, token :: rest =>
    if token.isPunct "\x7b" then skipBody (depth + 1) rest
    else if token.isPunct "\x7d" then
      match depth with
      | 0 => rest
      | depth + 1 => skipBody depth rest
    else skipBody depth rest

/-- What follows the next semicolon; a brace that opens comes first. -/
def skipStatement : List Token → List Token
  | [] => []
  | token :: rest =>
    if token.isPunct ";" then rest
    else if token.isPunct "\x7b" then token :: rest
    else skipStatement rest

def skipComma : List Token → List Token
  | [] => []
  | token :: rest => if token.isPunct "," then rest else token :: rest

/-- The pairs of a type and a name up to a closing parenthesis, and what follows it. -/
def scanParams : List Token → List Param × List Token
  | [] => ([], [])
  | token :: rest =>
    if token.isPunct ")" then ([], rest)
    else
      match SemType.ofKeyword? token.text, rest with
      | some type, name :: behind =>
        if name.isIdent then
          let (params, after) := scanParams (skipComma behind)
          (⟨name.text, type⟩ :: params, after)
        else scanParams (skipComma (name :: behind))
      | _, rest => scanParams (skipComma rest)
termination_by tokens => tokens.length
decreasing_by
  all_goals simp only [skipComma]
  all_goals grind

theorem length_skipBody_le (depth : Nat) (tokens : List Token) :
    (skipBody depth tokens).length ≤ tokens.length := by
  fun_induction skipBody depth tokens <;> grind

theorem length_skipStatement_le (tokens : List Token) :
    (skipStatement tokens).length ≤ tokens.length := by
  fun_induction skipStatement tokens <;> grind

theorem length_skipComma_le (tokens : List Token) : (skipComma tokens).length ≤ tokens.length := by
  fun_cases skipComma tokens <;> grind

theorem length_scanParams_le (tokens : List Token) :
    (scanParams tokens).2.length ≤ tokens.length := by
  fun_induction scanParams tokens <;> grind [length_skipComma_le]

/-- The item that begins with a name, if it is one, and what follows it. `type` is the type in front of the
name, and `rest` what stands behind the name. -/
def readItem (type : Option SemType) (name : Token) (rest : List Token) : Option (Option Item × List Token) :=
  match rest with
  | [] => none
  | next :: behind =>
    if next.isPunct "(" then
      let (params, after) := scanParams behind
      if after.head?.any (·.isPunct "\x7b") then
        some (some ⟨.function, name.text, name.span, type, params⟩, after)
      else some (none, after)
    else if type.isSome && (next.isPunct ";" || next.isOp "=") then
      some (some ⟨.global, name.text, name.span, type, []⟩, skipStatement rest)
    else none

theorem length_readItem_le {type : Option SemType} {name : Token} {rest after : List Token}
    {item : Option Item} (found : readItem type name rest = some (item, after)) :
    after.length ≤ rest.length := by
  unfold readItem at found
  grind [length_scanParams_le, length_skipStatement_le]

def typeOf? (token : Token) : Option SemType :=
  if token.isIdent then SemType.ofKeyword? token.text else none

/-- The name at a token and what stands behind it. After a type the name is the next token. -/
def nameAt? (type : Option SemType) (token : Token) (rest : List Token) : Option (Token × List Token) :=
  match type, rest with
  | some _, name :: behind => if name.isIdent then some (name, behind) else none
  | some _, [] => none
  | none, rest => if token.isIdent then some (token, rest) else none

theorem length_nameAt?_le {type : Option SemType} {token name : Token} {rest behind : List Token}
    (found : nameAt? type token rest = some (name, behind)) : behind.length ≤ rest.length := by
  unfold nameAt? at found
  grind

/-- The items of a list of tokens without comments and directives. -/
def scan : List Token → List Item
  | [] => []
  | token :: rest =>
    if token.isPunct "\x7b" then scan (skipBody 0 rest)
    else if token.isWord "default" && rest.head?.any (·.isPunct "\x7b") then
      ⟨.state, token.text, token.span, none, []⟩ :: scan rest
    else if token.isWord "state" then
      match rest with
      | [] => []
      | name :: behind =>
        if name.isIdent then ⟨.state, name.text, name.span, none, []⟩ :: scan behind else scan behind
    else
      match _named : nameAt? (typeOf? token) token rest with
      | none => scan rest
      | some (name, behind) =>
        match _found : readItem (typeOf? token) name behind with
        | some (some item, after) => item :: scan after
        | some (none, after) => scan after
        | none => scan rest
termination_by tokens => tokens.length
decreasing_by
  · have := length_skipBody_le 0 rest
    simp only [List.length_cons]; omega
  · simp
  · simp only [List.length_cons]; omega
  · simp only [List.length_cons]; omega
  · simp
  · have := length_readItem_le _found
    have := length_nameAt?_le _named
    simp only [List.length_cons]; omega
  · have := length_readItem_le _found
    have := length_nameAt?_le _named
    simp only [List.length_cons]; omega
  · simp

end ScriptLint.TopLevel
