import ScriptLint.Condition.Token
import ScriptLint.Macro.Expansion

/-!
# Trees of conditions

A condition is read by the strength of its operators: an operand, then as many operators as bind at least as
strongly as asked. Every result leaves fewer tokens, which is why the reading ends.
-/

namespace ScriptLint.Condition

inductive Tree where
  | num (value : Value)
  | ident (name : String)
  | defined (name : String)
  /-- A call of a function-like definition, with its arguments as written. -/
  | call (name : String) (args : List String)
  | unary (sign : Sign) (operand : Tree)
  | binary (op : Operator) (left right : Tree)
  | ternary (test yes no : Tree)
  deriving Repr

/-- What the reading of tokens looks up: the text they come from, and the definitions. -/
structure Source where
  text : List Char
  table : Macro.Table

/-- A tree and the tokens behind it, of which there are fewer than `bound`. -/
abbrev Parsed (bound : Nat) := Except Error (Tree × { rest : List Token // rest.length < bound })

def signStrength : Nat := 23

/-- How strongly `?` binds its test, and `:` what follows it. -/
def questionStrength : Nat := 2

def colonStrength : Nat := 1

def expectClose (tokens : List Token) : Except Error { rest : List Token // rest.length < tokens.length } :=
  match tokens with
  | [] => .error .unclosed
  | token :: rest =>
    match token.kind with
    | .closing => .ok ⟨rest, Nat.lt_succ_self _⟩
    | kind => .error (.expectedClose kind.render)

def expectColon (tokens : List Token) : Except Error { rest : List Token // rest.length < tokens.length } :=
  match tokens with
  | [] => .error .missingColon
  | token :: rest =>
    match token.kind with
    | .symbol .colon => .ok ⟨rest, Nat.lt_succ_self _⟩
    | _ => .error .missingColon

def expectName (tokens : List Token) :
    Except Error (String × { rest : List Token // rest.length < tokens.length }) :=
  match tokens with
  | [] => .error .missingName
  | token :: rest =>
    match token.kind with
    | .ident name => .ok (name, ⟨rest, Nat.lt_succ_self _⟩)
    | _ => .error .missingName

def startsWithOpening (tokens : List Token) : Bool :=
  tokens.head?.any fun token => token.kind matches .opening

/-- The name after `defined`, in parentheses or not. -/
def Tree.readDefined (tokens : List Token) : Parsed (tokens.length + 1) :=
  if startsWithOpening tokens then
    match expectName tokens.tail with
    | .error error => .error error
    | .ok (name, ⟨rest, shorter⟩) =>
      match expectClose rest with
      | .error error => .error error
      | .ok ⟨remaining, shortest⟩ =>
        .ok (.defined name, ⟨remaining, by simp only [List.length_tail] at shorter; omega⟩)
  else
    match expectName tokens with
    | .error error => .error error
    | .ok (name, ⟨rest, shorter⟩) => .ok (.defined name, ⟨rest, by omega⟩)

/-- A name, which is a call when it is defined with parameters and a parenthesis follows. -/
def Tree.readName (source : Source) (name : String) (stop : Nat) (tokens : List Token) :
    Parsed (tokens.length + 1) :=
  let takesParams := (source.table.get? name).any fun entry => entry.definition.isFunction
  if takesParams && startsWithOpening tokens then
    match Macro.Call.read? (source.text.drop stop) with
    | some found =>
      let after := stop + found.text.length
      .ok (.call name found.arguments,
        ⟨tokens.dropWhile (·.start < after),
          Nat.lt_succ_of_le (List.dropWhile_sublist _).length_le⟩)
    | none => .error (.unclosedCall name)
  else .ok (.ident name, ⟨tokens, Nat.lt_succ_self _⟩)

mutual

/-- Read an operand and the operators of at least a given strength after it. -/
def Tree.read (source : Source) (least : Nat) (tokens : List Token) : Parsed tokens.length :=
  match Tree.readOperand source tokens with
  | .error error => .error error
  | .ok (left, ⟨rest, shorter⟩) =>
    match Tree.climb source least left rest with
    | .error error => .error error
    | .ok (tree, ⟨remaining, shortest⟩) => .ok (tree, ⟨remaining, by omega⟩)
termination_by (tokens.length, 1)

/-- Extend an operand by the operators that follow it. -/
def Tree.climb (source : Source) (least : Nat) (left : Tree) (tokens : List Token) :
    Parsed (tokens.length + 1) :=
  match tokens with
  | [] => .ok (left, ⟨[], Nat.lt_succ_self _⟩)
  | token :: rest =>
    match token.kind with
    | .symbol (.binary op) =>
      if op.strength < least then .ok (left, ⟨token :: rest, Nat.lt_succ_self _⟩)
      else
        match Tree.read source (op.strength + 1) rest with
        | .error error => .error error
        | .ok (right, ⟨afterRight, shorter⟩) =>
          match Tree.climb source least (.binary op left right) afterRight with
          | .error error => .error error
          | .ok (tree, ⟨remaining, shortest⟩) =>
            .ok (tree, ⟨remaining, by simp only [List.length_cons]; omega⟩)
    | .symbol .question =>
      if questionStrength < least then .ok (left, ⟨token :: rest, Nat.lt_succ_self _⟩)
      else
        match Tree.read source 0 rest with
        | .error error => .error error
        | .ok (yes, ⟨afterYes, short⟩) =>
          match expectColon afterYes with
          | .error error => .error error
          | .ok ⟨afterColon, shorter⟩ =>
            match Tree.read source colonStrength afterColon with
            | .error error => .error error
            | .ok (no, ⟨afterNo, shorterStill⟩) =>
              match Tree.climb source least (.ternary left yes no) afterNo with
              | .error error => .error error
              | .ok (tree, ⟨remaining, shortest⟩) =>
                .ok (tree, ⟨remaining, by simp only [List.length_cons]; omega⟩)
    | _ => .ok (left, ⟨token :: rest, Nat.lt_succ_self _⟩)
termination_by (tokens.length, 0)

def Tree.readOperand (source : Source) (tokens : List Token) : Parsed tokens.length :=
  match tokens with
  | [] => .error .unexpectedEnd
  | token :: rest =>
    match token.kind with
    | .num value => .ok (.num value, ⟨rest, Nat.lt_succ_self _⟩)
    | .opening =>
      match Tree.read source 0 rest with
      | .error error => .error error
      | .ok (tree, ⟨afterTree, shorter⟩) =>
        match expectClose afterTree with
        | .error error => .error error
        | .ok ⟨remaining, shortest⟩ => .ok (tree, ⟨remaining, by simp only [List.length_cons]; omega⟩)
    | .ident "defined" => Tree.readDefined rest
    | .ident name => Tree.readName source name token.stop rest
    | .symbol symbol =>
      match symbol.sign? with
      | none => .error (.unexpected symbol.text)
      | some sign =>
        match Tree.read source signStrength rest with
        | .error error => .error error
        | .ok (tree, ⟨remaining, shorter⟩) =>
          .ok (.unary sign tree, ⟨remaining, by simp only [List.length_cons]; omega⟩)
    | kind => .error (.unexpected kind.render)
termination_by (tokens.length, 0)

end

end ScriptLint.Condition
