import ScriptLint.Condition.Tree

/-!
# Evaluating conditions

The logical operators and `?:` look only at the side they need. A name stands for the value of its
definition; one that has no definition is zero.
-/

namespace ScriptLint.Condition

/-- The value of a literal in a condition; a text counts as zero. -/
def Value.ofLiteral : Macro.Value → Value
  | .int n => int n
  | .float x => float x
  | .bool b => ofBool b
  | .str _ => int 0

/-- The value of a name. A body that is no literal is evaluated by `nested`. -/
def evalName (table : Macro.Table) (nested : List Char → Except Error Value) (name : String) :
    Except Error Value :=
  if name == "true" then .ok (.int 1)
  else if name == "false" then .ok (.int 0)
  else
    match (table.get? name).map Macro.definition with
    | some (.object body) =>
      match Macro.Value.parse? body with
      | some literal => .ok (.ofLiteral literal)
      | none => if (Text.trim body.toList).isEmpty then .ok (.int 0) else nested body.toList
    | _ => .ok (.int 0)

namespace Tree

/-- The value of a tree. What a definition stands for is evaluated by `nested`. -/
def eval (table : Macro.Table) (nested : List Char → Except Error Value) : Tree → Except Error Value
  | num value => .ok value
  | ident name => evalName table nested name
  | defined name => .ok (.ofBool (table.contains name))
  | call name args =>
    match table.invoke? name args with
    | some text => nested text.toList
    | none => .error (.wrongArity name)
  | unary sign operand => do
    let value ← operand.eval table nested
    sign.apply value
  | ternary test yes no => do
    let value ← test.eval table nested
    if value.truthy then yes.eval table nested else no.eval table nested
  | binary .and left right => do
    let value ← left.eval table nested
    if value.truthy then
      let other ← right.eval table nested
      return .ofBool other.truthy
    else return .int 0
  | binary .or left right => do
    let value ← left.eval table nested
    if value.truthy then return .int 1
    else
      let other ← right.eval table nested
      return .ofBool other.truthy
  | binary op left right => do
    let value ← left.eval table nested
    let other ← right.eval table nested
    op.apply value other

end Tree

def parse (table : Macro.Table) (text : List Char) : Except Error Tree :=
  match tokensFrom 0 text with
  | .error error => .error error
  | .ok [] => .error .empty
  | .ok tokens =>
    match Tree.read ⟨text, table⟩ 0 tokens with
    | .error error => .error error
    | .ok (tree, ⟨[], _⟩) => .ok tree
    | .ok (_, ⟨token :: _, _⟩) => .error (.unexpected token.kind.render)

/-- The value of a text, where definitions may be nested in `levels` layers. -/
def evalWithin (table : Macro.Table) : (levels : Nat) → (text : List Char) → Except Error Value
  | 0, _ => .error .tooDeep
  | levels + 1, text => do
    let tree ← parse table text
    tree.eval table (evalWithin table levels)

/-- How many layers of definitions a condition may have. -/
def maxLevels : Nat := 33

def evaluate (table : Macro.Table) (text : List Char) : Except Error Bool :=
  (evalWithin table maxLevels text).map Value.truthy

end ScriptLint.Condition
