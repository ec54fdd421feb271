import ScriptLint.Analysis.Expr

/-!
# Expression trees

The scan of a document reads expressions without keeping them. Here they are trees, written as tokens with the
parentheses that the strengths of the operators ask for, and judged by recursion. A tree has a place for every token
that it is written with: nothing while only its shape matters, a span once it stands in a document.
-/

namespace ScriptLint

/-- What a token is, wherever it stands. -/
def Token.sign (token : Token) : TokenKind × String := (token.kind, token.text)

namespace Analysis

/-- A name that is no reserved word. -/
structure FreeName where
  text : String
  free : isReserved text = false

/-- A word that can be called: any but the name of a type. -/
structure Callee where
  text : String
  callable : SemType.ofKeyword? text = none

/-- The name of a type. -/
structure TypeWord where
  text : String
  type : SemType
  named : SemType.ofKeyword? text = some type

/-- A step behind its operand. -/
inductive Step where
  | up | down

def Step.op : Step → UnaryOp
  | up => .increment
  | down => .decrement

/-- What an assignment does with the stored value first. -/
inductive AssignOp where
  | plain | add | sub | mul | div | mod

def AssignOp.symbol : AssignOp → String
  | plain => "="
  | add => "+="
  | sub => "-="
  | mul => "*="
  | div => "/="
  | mod => "%="

/-- What stands between two operands. -/
inductive BetweenOp where
  | binary (op : BinaryOp)
  | assign (op : AssignOp)

namespace BetweenOp

def symbol : BetweenOp → String
  | binary op => op.symbol
  | assign op => op.symbol

/-- How strongly an operator binds to its left. -/
def left (op : BetweenOp) : Nat := ((strength? op.symbol).getD (0, 0)).1

/-- How strongly an operator binds to its right. -/
def right (op : BetweenOp) : Nat := ((strength? op.symbol).getD (0, 0)).2

def rule : BetweenOp → (left : Typed) → (op : Token) → (right : Typed) → Judgement
  | binary _ => binaryRule
  | assign _ => assignRule

end BetweenOp

mutual

/-- An expression. -/
inductive Expr (ι : Type) where
  | number (text : String) (place : ι)
  | string (text : String) (place : ι)
  | name (name : FreeName) (place : ι)
  | call (callee : Callee) (place opening : ι) (args : Listing ι)
  | member (base : Expr ι) (dot : ι) (name : String) (place : ι)
  | parens (opening : ι) (inner : Expr ι) (closing : ι)
  | cast (opening : ι) (word : TypeWord) (place closing : ι) (operand : Expr ι)
  | front (op : UnaryOp) (place : ι) (operand : Expr ι)
  | behind (operand : Expr ι) (step : Step) (place : ι)
  | between (left : Expr ι) (op : BetweenOp) (place : ι) (right : Expr ι)
  | vector (opening : ι) (parts : Listing ι)
  | list (opening : ι) (items : Listing ι)

/-- Expressions with commas between them, up to a closing sign. -/
inductive Items (ι : Type) where
  | last (item : Expr ι) (closing : ι)
  | more (item : Expr ι) (comma : ι) (rest : Items ι)

/-- What stands between brackets of some kind. -/
inductive Listing (ι : Type) where
  | empty (closing : ι)
  | filled (items : Items ι)

end

variable {ι κ α : Type}

/-! ## Writing -/

mutual

/-- The tokens of an expression, each made from its kind, its text and its place. -/
def Expr.write (make : TokenKind → String → ι → α) : Expr ι → List α
  | .number text place => [make .number text place]
  | .string text place => [make .str text place]
  | .name name place => [make .ident name.text place]
  | .call callee place opening args =>
    make .ident callee.text place :: make .punct "(" opening :: args.write make .punct ")"
  | .member base dot name place => base.write make ++ [make .punct "." dot, make .ident name place]
  | .parens opening inner closing => make .punct "(" opening :: (inner.write make ++ [make .punct ")" closing])
  | .cast opening word place closing operand =>
    make .punct "(" opening :: make .ident word.text place :: make .punct ")" closing :: operand.write make
  | .front op place operand => make .op op.symbol place :: operand.write make
  | .behind operand step place => operand.write make ++ [make .op step.op.symbol place]
  | .between left op place right => left.write make ++ make .op op.symbol place :: right.write make
  | .vector opening parts => make .op "<" opening :: parts.write make .op ">"
  | .list opening items => make .punct "[" opening :: items.write make .punct "]"

def Items.write (make : TokenKind → String → ι → α) (kind : TokenKind) (sign : String) : Items ι → List α
  | .last item closing => item.write make ++ [make kind sign closing]
  | .more item comma rest => item.write make ++ make .punct "," comma :: rest.write make kind sign

def Listing.write (make : TokenKind → String → ι → α) (kind : TokenKind) (sign : String) : Listing ι → List α
  | .empty closing => [make kind sign closing]
  | .filled items => items.write make kind sign

end

/-- The tokens of an expression that stands in a document. -/
abbrev Expr.tokens (expr : Expr Span) : List Token := expr.write Token.mk

/-- What the tokens of an expression are. -/
abbrev Expr.signs (expr : Expr ι) : List (TokenKind × String) := expr.write fun kind text _ => (kind, text)

-- The equations of a recursion over the whole tree take long to make, so those that proofs use are stated once.

namespace Expr

theorem tokens_member (base : Expr Span) (dot : Span) (name : String) (place : Span) :
    (member base dot name place).tokens = base.tokens ++ [⟨.punct, ".", dot⟩, ⟨.ident, name, place⟩] := rfl

theorem tokens_cast (opening : Span) (word : TypeWord) (place closing : Span) (operand : Expr Span) :
    (cast opening word place closing operand).tokens =
      ⟨.punct, "(", opening⟩ :: ⟨.ident, word.text, place⟩ :: ⟨.punct, ")", closing⟩ :: operand.tokens := rfl

theorem tokens_front (op : UnaryOp) (place : Span) (operand : Expr Span) :
    (front op place operand).tokens = ⟨.op, op.symbol, place⟩ :: operand.tokens := rfl

theorem tokens_behind (operand : Expr Span) (step : Step) (place : Span) :
    (behind operand step place).tokens = operand.tokens ++ [⟨.op, step.op.symbol, place⟩] := rfl

theorem tokens_between (left : Expr Span) (op : BetweenOp) (place : Span) (right : Expr Span) :
    (between left op place right).tokens = left.tokens ++ ⟨.op, op.symbol, place⟩ :: right.tokens := rfl

theorem tokens_vector (opening : Span) (parts : Items Span) :
    (vector opening (.filled parts)).tokens = ⟨.op, "<", opening⟩ :: parts.write Token.mk .op ">" := rfl

end Expr

/-! ## Parentheses -/

/-- Stronger than every operator. -/
def atomStrength : Nat := behindStrength + 1

/-- The greatest strength at which an expression can be read without parentheses. -/
def Expr.leftStrength : Expr ι → Nat
  | .between _ op _ _ => op.left
  | .behind .. => behindStrength
  | _ => atomStrength

/-- An operator that follows an expression leaves it whole when it binds less than this. -/
def Expr.rightStrength : Expr ι → Nat
  | .between _ op _ _ => op.right
  | .front .. | .cast .. => frontStrength
  | _ => atomStrength

/-- What a member can be taken of without parentheses. -/
def Expr.isAtom : Expr ι → Bool
  | .number .. | .string .. | .name .. | .call .. | .member .. | .parens .. | .list .. => true
  | _ => false

mutual

/-- There are parentheses wherever the strengths of the operators ask for them, and every vector has a component. -/
def Expr.Readable : Expr Unit → Prop
  | .number .. | .string .. | .name .. => True
  | .call _ _ _ args => args.Readable 0
  | .member base _ _ _ => base.isAtom = true ∧ base.Readable
  | .parens _ inner _ => inner.Readable
  | .cast _ _ _ _ operand => frontStrength ≤ operand.leftStrength ∧ operand.Readable
  | .front _ _ operand => frontStrength ≤ operand.leftStrength ∧ operand.Readable
  | .behind operand _ _ => behindStrength < operand.rightStrength ∧ operand.Readable
  | .between left op _ right =>
    op.left < left.rightStrength ∧ left.Readable ∧ op.right ≤ right.leftStrength ∧ right.Readable
  | .vector _ (.empty _) => False
  | .vector _ (.filled parts) => parts.Readable componentStrength
  | .list _ items => items.Readable 0

def Items.Readable (least : Nat) : Items Unit → Prop
  | .last item _ => least ≤ item.leftStrength ∧ item.Readable
  | .more item _ rest => least ≤ item.leftStrength ∧ item.Readable ∧ rest.Readable least

def Listing.Readable (least : Nat) : Listing Unit → Prop
  | .empty _ => True
  | .filled items => items.Readable least

end

mutual

/-- Every vector has a component. -/
def Expr.Filled : Expr ι → Prop
  | .number .. | .string .. | .name .. => True
  | .call _ _ _ args => args.Filled
  | .member base _ _ _ => base.Filled
  | .parens _ inner _ => inner.Filled
  | .cast _ _ _ _ operand => operand.Filled
  | .front _ _ operand => operand.Filled
  | .behind operand _ _ => operand.Filled
  | .between left _ _ right => left.Filled ∧ right.Filled
  | .vector _ (.empty _) => False
  | .vector _ (.filled parts) => parts.Filled
  | .list _ items => items.Filled

def Items.Filled : Items ι → Prop
  | .last item _ => item.Filled
  | .more item _ rest => item.Filled ∧ rest.Filled

def Listing.Filled : Listing ι → Prop
  | .empty _ => True
  | .filled items => items.Filled

end

/-- Put an expression in parentheses if it needs them. -/
def Expr.guard (needed : Bool) (expr : Expr Unit) : Expr Unit :=
  if needed then .parens () expr () else expr

mutual

/-- Put parentheses where the strengths of the operators ask for them, and nowhere else. -/
def Expr.bracket : Expr Unit → Expr Unit
  | .number text place => .number text place
  | .string text place => .string text place
  | .name name place => .name name place
  | .call callee place opening args => .call callee place opening (args.bracket 0)
  | .member base dot name place => .member (base.bracket.guard !base.isAtom) dot name place
  | .parens opening inner closing => .parens opening inner.bracket closing
  | .cast opening word place closing operand =>
    .cast opening word place closing (operand.bracket.guard (operand.leftStrength < frontStrength))
  | .front op place operand => .front op place (operand.bracket.guard (operand.leftStrength < frontStrength))
  | .behind operand step place => .behind (operand.bracket.guard (operand.rightStrength ≤ behindStrength)) step place
  | .between left op place right =>
    .between (left.bracket.guard (left.rightStrength ≤ op.left)) op place
      (right.bracket.guard (right.leftStrength < op.right))
  | .vector opening parts => .vector opening (parts.bracket componentStrength)
  | .list opening items => .list opening (items.bracket 0)

def Items.bracket (least : Nat) : Items Unit → Items Unit
  | .last item closing => .last (item.bracket.guard (item.leftStrength < least)) closing
  | .more item comma rest => .more (item.bracket.guard (item.leftStrength < least)) comma (rest.bracket least)

def Listing.bracket (least : Nat) : Listing Unit → Listing Unit
  | .empty closing => .empty closing
  | .filled items => .filled (items.bracket least)

end

/-- An expression as it is written: what its tokens are, with parentheses only where they are needed. -/
def Expr.render (expr : Expr Unit) : List (TokenKind × String) := expr.bracket.signs

/-! ## Judging -/

/-- What reading records. -/
@[ext] structure Trace where
  findings : List Finding := []
  refs : List Ref := []
  calls : List CallSite := []

instance : Append Trace where
  append first second :=
    ⟨first.findings ++ second.findings, first.refs ++ second.refs, first.calls ++ second.calls⟩

/-- A finding, if there is one. -/
def Trace.ofFinding (finding : Option Finding) : Trace := { findings := finding.toList }

def Trace.join (traces : List Trace) : Trace := traces.foldr (· ++ ·) {}

/-- What an expression comes to: what is known of it, and what is recorded on the way. -/
structure Judged where
  typed : Typed
  trace : Trace := {}

/-- Go on with a rule after what was recorded so far. -/
def Judged.ofRule (before : Trace) (judgement : Judgement) : Judged :=
  ⟨judgement.typed, before ++ .ofFinding judgement.finding⟩

/-- From an opening sign to a closing one. -/
def spanOver (opening closing : Span) : Span := opening.cover (.empty closing.stop)

/-- Every item is of some kind. -/
def Items.All (holds : Expr ι → Prop) : Items ι → Prop
  | .last item _ => holds item
  | .more item _ rest => holds item ∧ rest.All holds

/-- Where the sign stands that closes some items. -/
def Items.closing : Items ι → ι
  | .last _ closing => closing
  | .more _ _ rest => rest.closing

def Listing.closing : Listing ι → ι
  | .empty closing => closing
  | .filled items => items.closing

section Judge

variable (env : Env) (state : State)

/-- What a name comes to. -/
def judgeName (name : String) (place : Span) : Judged :=
  let meaning := meaningOf env state name place
  ⟨meaning.typed, { findings := meaning.finding.toList, refs := [⟨name, place, meaning.target⟩] }⟩

/-- What a call comes to, from what its arguments come to. -/
def judgeCall (callee : String) (place whole : Span) (args : List Judged) : Judged :=
  let typed := args.map Judged.typed
  let checked := checkCall env state place callee typed
  ⟨{ type := checked.returns, span := whole },
    .join (args.map Judged.trace) ++
      { findings := checked.finding.toList
        refs := [⟨callee, place, checked.target⟩]
        calls := [⟨callee, place, whole, typed.map Typed.type, checked.target, checked.returns⟩] }⟩

/-- What a vector comes to. Its components are checked when all of them are known. -/
def judgeVector (whole : Span) (parts : List Judged) : Judged :=
  .ofRule (.join (parts.map Judged.trace) ++ .join (parts.map fun part => .ofFinding (componentFinding part.typed)))
    (vectorRule whole parts.length)

/-- What a list comes to. Each element is checked right behind it. -/
def judgeList (whole : Span) (items : List Judged) : Judged :=
  ⟨{ type := .list, span := whole },
    .join (items.map fun item => item.trace ++ .ofFinding (elementFinding item.typed))⟩

mutual

/-- What an expression comes to, from what its parts come to: first what the parts record, from left to right, and
then what is wrong with the whole. -/
def Expr.judge : Expr Span → Judged
  | .number text place => ⟨{ type := numberType text, span := place }, {}⟩
  | .string _ place => ⟨{ type := .string, span := place }, {}⟩
  | .name name place => judgeName env state name.text place
  | .call callee place _ args => judgeCall env state callee.text place (spanOver place args.closing) args.judge
  | .member base _ name place =>
    .ofRule base.judge.trace (memberRule base.judge.typed ⟨.ident, name, place⟩)
  | .parens opening inner closing =>
    ⟨{ type := inner.judge.typed.type, span := spanOver opening closing, place := inner.judge.typed.place },
      inner.judge.trace⟩
  | .cast opening word _ _ operand => .ofRule operand.judge.trace (castRule opening word.type operand.judge.typed)
  | .front op place operand =>
    let token : Token := ⟨.op, op.symbol, place⟩
    let typed := operand.judge.typed
    .ofRule operand.judge.trace
      (if op.isStep then stepRule token typed (place.cover typed.span) else unaryRule token typed)
  | .behind operand step place =>
    let typed := operand.judge.typed
    .ofRule operand.judge.trace (stepRule ⟨.op, step.op.symbol, place⟩ typed (typed.span.cover place))
  | .between left op place right =>
    .ofRule (left.judge.trace ++ right.judge.trace)
      (op.rule left.judge.typed ⟨.op, op.symbol, place⟩ right.judge.typed)
  | .vector opening parts => judgeVector (spanOver opening parts.closing) parts.judge
  | .list opening items => judgeList (spanOver opening items.closing) items.judge

def Items.judge : Items Span → List Judged
  | .last item _ => [item.judge]
  | .more item _ rest => item.judge :: rest.judge

def Listing.judge : Listing Span → List Judged
  | .empty _ => []
  | .filled items => items.judge

end

end Judge

end Analysis

end ScriptLint
