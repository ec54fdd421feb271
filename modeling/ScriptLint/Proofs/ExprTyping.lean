import ScriptLint.Proofs.ExprReading

/-!
# The types of expression trees

The type of an expression follows from the types of its parts, wherever they stand and however they are parenthesised.
What an expression comes to has that type, and reading the tokens of an expression gives what its tree comes to.
-/

namespace ScriptLint

open List

/-! ## Operators by their symbols -/

namespace SemType

@[simp] theorem binarySymbolResult?_symbol (op : BinaryOp) (left right : SemType) :
    binarySymbolResult? op.symbol left right = binaryResult? op left right := by
  cases op <;> rfl

@[simp] theorem unarySymbolResult?_symbol (op : UnaryOp) (operand : SemType) :
    unarySymbolResult? op.symbol operand = unaryResult? op operand := by
  cases op <;> rfl

end SemType

namespace Analysis

/-! ## Kinds -/

/-- What larger expressions ask of an expression: its type, and whether it can be assigned to. -/
structure Kind where
  type : SemType
  place : Bool := false
  deriving Repr, DecidableEq

def Typed.kind (typed : Typed) : Kind := ⟨typed.type, typed.place⟩

namespace Kind

/-- Something of a kind that stands nowhere in particular. -/
def typed (kind : Kind) : Typed := { type := kind.type, span := .empty 0, place := kind.place }

/-- A result that is no variable, of any type if the operator refuses its operands. -/
def ofResult (result : Option SemType) : Kind := { type := result.getD .any }

def member (base : Kind) (name : String) : Kind :=
  ⟨(base.type.memberResult name).toOption.getD .any, base.place⟩

/-- Only a variable can be stepped. -/
def step (op : UnaryOp) (operand : Kind) : Kind :=
  if operand.place then ofResult (SemType.unaryResult? op operand.type) else ofResult none

def front (op : UnaryOp) (operand : Kind) : Kind :=
  if op.isStep then step op operand else ofResult (SemType.unaryResult? op operand.type)

/-- An assignment has the type of its variable, whatever is stored. -/
def between : (op : BetweenOp) → (left right : Kind) → Kind
  | .binary op, left, right => ofResult (SemType.binaryResult? op left.type right.type)
  | .assign _, left, _ => if left.place then { type := left.type } else ofResult none

def vector : (count : Nat) → Kind
  | 3 => { type := .vector }
  | 4 => { type := .rotation }
  | _ => ofResult none

end Kind

section Kinds

variable {ι : Type} (env : Env) (state : State)

mutual

/-- The kind of an expression, from the kinds of its parts. -/
def Expr.kind : Expr ι → Kind
  | .number text _ => { type := numberType text }
  | .string _ _ => { type := .string }
  | .name name _ => (meaningOf env state name.text (.empty 0)).typed.kind
  | .call callee _ _ args =>
    { type := (checkCall env state (.empty 0) callee.text (args.kinds.map Kind.typed)).returns }
  | .member base _ name _ => base.kind.member name
  | .parens _ inner _ => inner.kind
  | .cast _ word _ _ _ => { type := word.type }
  | .front op _ operand => operand.kind.front op
  | .behind operand step _ => operand.kind.step step.op
  | .between left op _ right => .between op left.kind right.kind
  | .vector _ parts => .vector parts.kinds.length
  | .list _ _ => { type := .list }

def Items.kinds : Items ι → List Kind
  | .last item _ => [item.kind]
  | .more item _ rest => item.kind :: rest.kinds

def Listing.kinds : Listing ι → List Kind
  | .empty _ => []
  | .filled items => items.kinds

end

end Kinds

/-! ## What the types of names and calls depend on -/

section Lookup

variable (env : Env) (state : State)

/-- The kind of a name is the same wherever it stands. -/
theorem kind_meaningOf (name : String) (span other : Span) :
    (meaningOf env state name span).typed.kind = (meaningOf env state name other).typed.kind := by
  unfold meaningOf
  split
  · unfold meaningOfDecl
    dsimp only
    split <;> rfl
  · split
    · rfl
    · split
      · rfl
      · split <;> rfl

/-- What a call returns: what its callee does, or else what the callee stands for. -/
theorem returns_checkCall (span : Span) (callee : String) (args : List Typed) :
    (checkCall env state span callee args).returns =
      ((checkCallee? env state span callee args).map Checked.returns).getD
        (((alias? env callee).bind fun real =>
          (checkCallee? env state span real args).map Checked.returns).getD .any) := by
  rw [checkCall]
  cases checkCallee? env state span callee args with
  | some => rfl
  | none =>
    cases alias? env callee with
    | none => rfl
    | some real =>
      cases found : checkCallee? env state span real args <;> simp [found, unknownCallee]

variable {args others : List Typed} (same : args.map Typed.type = others.map Typed.type)

include same

theorem length_eq_of_types : args.length = others.length := by
  simpa using congrArg List.length same

theorem fits_congr : fits args = fits others := by
  have onTypes (args : List Typed) (signature : Signature) :
      fits args signature = (signature.params.length == args.length &&
        (signature.params.zip (args.map Typed.type)).all fun pair => pair.1.type.accepts pair.2) := by
    rw [zip_map_right, all_map]
    rfl
  funext signature
  rw [onTypes, onTypes, same, length_eq_of_types same]

theorem checkSignatures_returns (span other : Span) (callee : String) (signatures : List Signature) :
    (checkSignatures span callee signatures args).2 = (checkSignatures other callee signatures others).2 := by
  rw [checkSignatures, checkSignatures, fits_congr same, length_eq_of_types same]
  split
  · rfl
  · split <;> rfl

theorem checkCallee?_returns (span other : Span) (callee : String) :
    (checkCallee? env state span callee args).map Checked.returns =
      (checkCallee? env state other callee others).map Checked.returns := by
  unfold checkCallee?
  split
  · rfl
  · split
    · exact congrArg some (checkSignatures_returns same span other callee _)
    · split
      · rfl
      · split
        · rfl
        · split <;> rfl

/-- What a call returns depends on the types of its arguments, and not on where it stands. -/
theorem checkCall_returns (span other : Span) (callee : String) :
    (checkCall env state span callee args).returns = (checkCall env state other callee others).returns := by
  rw [returns_checkCall, returns_checkCall, checkCallee?_returns env state same span other callee]
  congr 3
  funext real
  exact checkCallee?_returns env state same span other real

end Lookup

/-! ## What the rules give -/

section Rules

variable (place span : Span) (left right operand : Typed)

theorem kind_memberRule (name : String) :
    (memberRule operand ⟨.ident, name, place⟩).typed.kind = operand.kind.member name := by
  unfold memberRule Kind.member
  dsimp only [Typed.kind]
  split <;> rename_i found <;> rw [found] <;> rfl

theorem kind_unaryRule (op : UnaryOp) :
    (unaryRule ⟨.op, op.symbol, place⟩ operand).typed.kind =
      .ofResult (SemType.unaryResult? op operand.type) := by
  rw [unaryRule, SemType.unarySymbolResult?_symbol]
  cases SemType.unaryResult? op operand.type <;> rfl

theorem kind_stepRule (op : UnaryOp) :
    (stepRule ⟨.op, op.symbol, place⟩ operand span).typed.kind = operand.kind.step op := by
  change _ = if operand.place then Kind.ofResult (SemType.unaryResult? op operand.type) else .ofResult none
  rw [stepRule, SemType.unarySymbolResult?_symbol]
  cases operand.place with
  | false => rfl
  | true => cases SemType.unaryResult? op operand.type <;> rfl

theorem kind_rule (op : BetweenOp) :
    (op.rule left ⟨.op, op.symbol, place⟩ right).typed.kind = .between op left.kind right.kind := by
  cases op with
  | binary op =>
    change (binaryRule left ⟨.op, op.symbol, place⟩ right).typed.kind =
      .ofResult (SemType.binaryResult? op left.type right.type)
    rw [binaryRule, SemType.binarySymbolResult?_symbol]
    cases SemType.binaryResult? op left.type right.type <;> rfl
  | assign op =>
    change (assignRule left ⟨.op, op.symbol, place⟩ right).typed.kind =
      if left.place then { type := left.type } else .ofResult none
    unfold assignRule
    cases left.place with
    | false => rfl
    | true =>
      rw [if_neg (show ¬(!true) = true from Bool.false_ne_true)]
      cases storedType? left ⟨.op, op.symbol, place⟩ right with
      | none => rfl
      | some =>
        dsimp only
        split <;> rfl

theorem kind_vectorRule (count : Nat) : (vectorRule span count).typed.kind = .vector count := by
  unfold vectorRule
  split
  · rfl
  · rfl
  · rw [Kind.vector]
    · rfl
    · assumption
    · assumption

end Rules

/-! ## The kinds of trees -/

section Trees

variable (env : Env) (state : State)

mutual

/-- Reading an expression gives its kind, wherever it stands. -/
theorem Expr.kind_judge (expr : Expr Span) : (expr.judge env state).typed.kind = expr.erase.kind env state := by
  match expr with
  | .number .. | .string .. | .cast .. | .list .. => rfl
  | .name word place => exact kind_meaningOf env state word.text place _
  | .call callee place opening args =>
    have same : ((args.judge env state).map Judged.typed).map Typed.type =
        ((args.erase.kinds env state).map Kind.typed).map Typed.type := by
      rw [← args.kinds_judge, map_map, map_map, map_map]
      rfl
    exact congrArg (Kind.mk · false) (checkCall_returns env state same place _ callee.text)
  | .member base dot word place => exact (kind_memberRule ..).trans (congrArg (Kind.member · word) base.kind_judge)
  | .parens opening inner closing => exact inner.kind_judge
  | .front op place operand =>
    change (Judgement.typed (if op.isStep = true then _ else _)).kind = if op.isStep = true then _ else _
    rw [← operand.kind_judge]
    split
    · exact kind_stepRule ..
    · exact kind_unaryRule ..
  | .behind operand step place =>
    exact (kind_stepRule ..).trans (congrArg (Kind.step step.op) operand.kind_judge)
  | .between left op place right =>
    rw [Expr.erase, Expr.kind, ← left.kind_judge, ← right.kind_judge]
    exact kind_rule ..
  | .vector opening parts =>
    rw [Expr.erase, Expr.kind, ← parts.kinds_judge, length_map]
    exact kind_vectorRule ..

theorem Items.kinds_judge (items : Items Span) :
    (items.judge env state).map (fun judged => judged.typed.kind) = items.erase.kinds env state := by
  match items with
  | .last item closing => exact congrArg ([·]) item.kind_judge
  | .more item comma rest => exact congr (congrArg List.cons item.kind_judge) rest.kinds_judge

theorem Listing.kinds_judge (listing : Listing Span) :
    (listing.judge env state).map (fun judged => judged.typed.kind) = listing.erase.kinds env state := by
  match listing with
  | .empty closing => rfl
  | .filled items => exact items.kinds_judge

end

theorem Expr.kind_guard (needed : Bool) (expr : Expr Unit) :
    (expr.guard needed).kind env state = expr.kind env state := by
  cases needed <;> rfl

mutual

/-- The kind of an expression does not depend on the parentheses it needs. -/
theorem Expr.kind_bracket (expr : Expr Unit) : expr.bracket.kind env state = expr.kind env state := by
  match expr with
  | .number .. | .string .. | .name .. | .cast .. | .list .. => rfl
  | .call callee _ _ args => rw [Expr.bracket, Expr.kind, Expr.kind, args.kinds_bracket]
  | .member base _ word _ => rw [Expr.bracket, Expr.kind, Expr.kind, Expr.kind_guard, base.kind_bracket]
  | .parens _ inner _ => exact inner.kind_bracket
  | .front op _ operand => rw [Expr.bracket, Expr.kind, Expr.kind, Expr.kind_guard, operand.kind_bracket]
  | .behind operand step _ => rw [Expr.bracket, Expr.kind, Expr.kind, Expr.kind_guard, operand.kind_bracket]
  | .between left op _ right =>
    rw [Expr.bracket, Expr.kind, Expr.kind, Expr.kind_guard, left.kind_bracket, Expr.kind_guard, right.kind_bracket]
  | .vector _ parts => rw [Expr.bracket, Expr.kind, Expr.kind, parts.kinds_bracket]

theorem Items.kinds_bracket {least : Nat} (items : Items Unit) :
    (items.bracket least).kinds env state = items.kinds env state := by
  match items with
  | .last item _ => rw [Items.bracket, Items.kinds, Items.kinds, Expr.kind_guard, item.kind_bracket]
  | .more item _ rest =>
    rw [Items.bracket, Items.kinds, Items.kinds, Expr.kind_guard, item.kind_bracket, rest.kinds_bracket]

theorem Listing.kinds_bracket {least : Nat} (listing : Listing Unit) :
    (listing.bracket least).kinds env state = listing.kinds env state := by
  match listing with
  | .empty _ => rfl
  | .filled items => exact items.kinds_bracket

end

end Trees

end Analysis

end ScriptLint
