import ScriptLint.Text.Span

/-!
# Tokens

A token is a piece of a document's text with its kind and its place.
-/

namespace ScriptLint

inductive TokenKind where
  | ident | number | str | op | punct | comment
  /-- A whole line that begins with `#`, with the lines it continues on. -/
  | directive
  deriving Repr, DecidableEq

structure Token where
  kind : TokenKind
  text : String
  span : Span
  deriving Repr, DecidableEq

namespace Token

/-- Comments and directives mean nothing to the analysis. -/
def isTrivia (token : Token) : Bool :=
  token.kind == .comment || token.kind == .directive

def isIdent (token : Token) : Bool := token.kind == .ident

def isOp (token : Token) (symbol : String) : Bool :=
  token.kind == .op && token.text == symbol

def isPunct (token : Token) (symbol : String) : Bool :=
  token.kind == .punct && token.text == symbol

def isWord (token : Token) (word : String) : Bool :=
  token.kind == .ident && token.text == word

end Token

end ScriptLint
