import ScriptLint.Condition.Tree

/-!
# The grammar of conditions

The operators of a condition stand in layers, as they do in C: each layer is made of operands of the next tighter one.
Reading by strengths accepts what this grammar derives and nothing else, and gives the tree of the derivation.

The step from strengths to layers is taken in the middle of an expression, where an operand stands complete and the
reading looks at the operator behind it. There the two agree on one thing only: whether that operator still belongs to
the expression that is being read.
-/

namespace ScriptLint.Condition

open List

/-! ## Layers -/

/-- The layers of the grammar, the loosest first. -/
inductive Layer where
  | conditional | or | and | bitOr | bitXor | bitAnd | equality | relational | shift | additive | multiplicative
  | signed | primary
  deriving Repr, DecidableEq

namespace Layer

/-- The next tighter layer; nothing is tighter than a primary. -/
def next : Layer → Layer
  | conditional => or
  | or => and
  | and => bitOr
  | bitOr => bitXor
  | bitXor => bitAnd
  | bitAnd => equality
  | equality => relational
  | relational => shift
  | shift => additive
  | additive => multiplicative
  | multiplicative => signed
  | signed | primary => primary

/-- How many layers are looser. -/
def rank : Layer → Nat
  | conditional => 0
  | or => 1
  | and => 2
  | bitOr => 3
  | bitXor => 4
  | bitAnd => 5
  | equality => 6
  | relational => 7
  | shift => 8
  | additive => 9
  | multiplicative => 10
  | signed => 11
  | primary => 12

/-- The next layer of one that is looser than another. -/
theorem rank_next {layer tight : Layer} (lt : layer.rank < tight.rank) : layer.next.rank = layer.rank + 1 := by
  cases layer with
  | primary => exact absurd lt (by cases tight <;> decide)
  | _ => rfl

theorem rank_le_next (layer : Layer) : layer.rank ≤ layer.next.rank := by
  cases layer <;> decide

theorem next_ne_conditional (layer : Layer) : layer.next ≠ conditional := by
  cases layer <;> decide

theorem eq_of_rank_eq {layer other : Layer} : layer.rank = other.rank → layer = other := by
  cases layer <;> cases other <;> decide

end Layer

/-- The layer that an operator belongs to. -/
def Operator.layer : Operator → Layer
  | or => .or
  | and => .and
  | bitOr => .bitOr
  | bitXor => .bitXor
  | bitAnd => .bitAnd
  | eq | ne => .equality
  | lt | gt | le | ge => .relational
  | shl | shr => .shift
  | add | sub => .additive
  | mul | div | rem => .multiplicative

/-- How a sign in front is written. -/
def Sign.symbol : Sign → Symbol
  | not => .bang
  | complement => .tilde
  | minus => .binary .sub
  | plus => .binary .add

/-- The tokens that a layer of the grammar derives a tree from. -/
inductive Derives : Layer → List Kind → Tree → Prop where
  | looser {layer : Layer} {kinds : List Kind} {tree : Tree} (inner : Derives layer.next kinds tree) :
      Derives layer kinds tree
  | choice {test yes no : List Kind} {testTree yesTree noTree : Tree} (asked : Derives .or test testTree)
      (chosen : Derives .conditional yes yesTree) (other : Derives .conditional no noTree) :
      Derives .conditional (test ++ .symbol .question :: (yes ++ .symbol .colon :: no))
        (.ternary testTree yesTree noTree)
  | operation (op : Operator) {left right : List Kind} {leftTree rightTree : Tree}
      (first : Derives op.layer left leftTree) (second : Derives op.layer.next right rightTree) :
      Derives op.layer (left ++ .symbol (.binary op) :: right) (.binary op leftTree rightTree)
  | sign (sign : Sign) {kinds : List Kind} {tree : Tree} (operand : Derives .signed kinds tree) :
      Derives .signed (.symbol sign.symbol :: kinds) (.unary sign tree)
  | num (value : Value) : Derives .primary [.num value] (.num value)
  | name {name : String} (free : name ≠ "defined") : Derives .primary [.ident name] (.ident name)
  | defined (name : String) : Derives .primary [.ident "defined", .ident name] (.defined name)
  | definedParens (name : String) :
      Derives .primary [.ident "defined", .opening, .ident name, .closing] (.defined name)
  | parens {kinds : List Kind} {tree : Tree} (inner : Derives .conditional kinds tree) :
      Derives .primary (.opening :: (kinds ++ [.closing])) tree

variable {kinds : List Kind} {tree : Tree}

/-- What a tighter layer derives, a looser one derives too. -/
theorem Derives.loosen {layer tight : Layer} (derived : Derives tight kinds tree)
    (le : layer.rank ≤ tight.rank) : Derives layer kinds tree := by
  induction distance : tight.rank - layer.rank generalizing layer with
  | zero => rwa [Layer.eq_of_rank_eq (Nat.le_antisymm le (Nat.le_of_sub_eq_zero distance))]
  | succ distance ih =>
    have next := Layer.rank_next (Nat.lt_of_sub_eq_succ distance)
    exact .looser (ih (by omega) (by omega))

/-- The names that a tree uses the values of. -/
def Tree.names : Tree → List String
  | num _ | defined _ | call .. => []
  | ident name => [name]
  | unary _ operand => operand.names
  | binary _ left right => left.names ++ right.names
  | ternary test yes no => test.names ++ (yes.names ++ no.names)

/-! ## Strengths -/

theorem Operator.strength_eq (op : Operator) : op.strength = 2 * op.layer.rank + 1 := by
  cases op <;> rfl

theorem Operator.rank_layer (op : Operator) : 0 < op.layer.rank ∧ op.layer.next.rank = op.layer.rank + 1 ∧
    op.layer.next.rank ≤ Layer.signed.rank := by
  cases op <;> decide

theorem Symbol.sign?_eq_some {symbol : Symbol} {sign : Sign} : symbol.sign? = some sign ↔ symbol = sign.symbol := by
  cases symbol with
  | binary op => cases op <;> cases sign <;> decide
  | _ => cases sign <;> decide

/-- Reading with a least strength takes in the operators of a layer and of the tighter ones. -/
structure Admits (least : Nat) (layer : Layer) : Prop where
  operator : ∀ op : Operator, least ≤ op.strength ↔ layer.rank ≤ op.layer.rank
  question : least ≤ questionStrength ↔ layer = .conditional
  signed : layer.rank ≤ Layer.signed.rank

theorem admits_conditional {least : Nat} (loose : least < questionStrength) : Admits least .conditional where
  operator op := by
    have := op.strength_eq
    change least < 2 at loose
    exact iff_of_true (by omega) (Nat.zero_le _)
  question := iff_of_true (Nat.le_of_lt loose) rfl
  signed := Nat.zero_le _

theorem admits_next (op : Operator) : Admits (op.strength + 1) op.layer.next where
  operator other := by
    have := op.strength_eq
    have := other.strength_eq
    have := op.rank_layer
    omega
  question := by
    have := op.strength_eq
    have := op.rank_layer
    refine iff_of_false ?_ op.layer.next_ne_conditional
    change ¬op.strength + 1 ≤ 2
    omega
  signed := op.rank_layer.2.2

theorem admits_signed : Admits signStrength .signed where
  operator op := by cases op <;> decide
  question := by decide
  signed := Nat.le_refl _

/-! ## What stands behind an expression -/

/-- The tokens do not begin with an operator that an expression of a layer takes in. -/
structure Ends (layer : Layer) (rest : List Token) : Prop where
  operator : ∀ op, rest.head?.map Token.kind = some (.symbol (.binary op)) → op.layer.rank < layer.rank
  question : rest.head?.map Token.kind = some (.symbol .question) → layer ≠ .conditional

/-- An operator at the front of the tokens can have an operand of a layer before it. -/
structure Follows (layer : Layer) (rest : List Token) : Prop where
  operator : ∀ op, rest.head?.map Token.kind = some (.symbol (.binary op)) → op.layer.rank ≤ layer.rank
  question : rest.head?.map Token.kind = some (.symbol .question) → layer ≠ .conditional

section Behind

variable {layer : Layer} {rest : List Token} {token : Token}

theorem Ends.follows (ends : Ends layer rest) : Follows layer rest :=
  ⟨fun op met => Nat.le_of_lt (ends.operator op met), ends.question⟩

theorem Ends.follows_operator {op : Operator} (ends : Ends op.layer.next rest) : Follows op.layer rest where
  operator other met := by
    have := ends.operator other met
    have := op.rank_layer
    omega
  question _ same := by
    have := op.rank_layer
    rw [same] at this
    exact absurd this.1 (Nat.lt_irrefl 0)

theorem Follows.ends_operator {op : Operator} (follows : Follows op.layer rest) : Ends op.layer.next rest where
  operator other met := by
    have := follows.operator other met
    have := op.rank_layer
    omega
  question _ := op.layer.next_ne_conditional

/-- A choice takes in all operators, so nothing that follows it is one. -/
theorem Follows.ends_conditional (follows : Follows .conditional rest) : Ends .conditional rest where
  operator op met := by
    have := follows.operator op met
    exact absurd op.rank_layer.1 (Nat.not_lt_of_le this)
  question := follows.question

theorem ends_signed (rest : List Token) : Ends .signed rest where
  operator op _ := by
    have := op.rank_layer
    omega
  question _ := by decide

theorem ends_nil (layer : Layer) : Ends layer [] where
  operator _ met := by cases met
  question met := by cases met

/-- A token that is neither an operator nor a question ends any expression. -/
theorem ends_of_other (layer : Layer) (noOperator : ∀ op, token.kind ≠ .symbol (.binary op))
    (noQuestion : token.kind ≠ .symbol .question) : Ends layer (token :: rest) :=
  ⟨fun op met => absurd (Option.some.inj met) (noOperator op), fun met => absurd (Option.some.inj met) noQuestion⟩

/-- Tokens that do not end an expression begin with an operator that it takes in. -/
theorem exists_of_not_ends (open_ : ¬Ends layer rest) : ∃ token behind, rest = token :: behind ∧
    ((∃ op, token.kind = .symbol (.binary op) ∧ layer.rank ≤ op.layer.rank) ∨
      token.kind = .symbol .question ∧ layer = .conditional) := by
  cases rest with
  | nil => exact absurd (ends_nil layer) open_
  | cons token behind =>
    refine ⟨token, behind, rfl, ?_⟩
    by_cases operator : ∃ op, token.kind = .symbol (.binary op) ∧ layer.rank ≤ op.layer.rank
    · exact .inl operator
    · by_cases question : token.kind = .symbol .question ∧ layer = .conditional
      · exact .inr question
      · refine absurd ⟨fun op met => ?_, fun met same => question ⟨Option.some.inj met, same⟩⟩ open_
        exact Nat.lt_of_not_le fun le => operator ⟨op, Option.some.inj met, le⟩

end Behind

/-! ## Steps of the reading -/

section Steps

section Single

variable {token : Token} {tokens rest : List Token} {name : String}

theorem expectColon_cons (kind : token.kind = .symbol .colon) :
    expectColon (token :: rest) = .ok ⟨rest, Nat.lt_succ_self _⟩ := by
  simp only [expectColon, kind]

theorem exists_of_expectColon {shorter} (passed : expectColon tokens = .ok ⟨rest, shorter⟩) :
    ∃ colon, colon.kind = .symbol .colon ∧ tokens = colon :: rest := by
  cases tokens <;> grind [expectColon]

theorem expectClose_cons (kind : token.kind = .closing) :
    expectClose (token :: rest) = .ok ⟨rest, Nat.lt_succ_self _⟩ := by
  simp only [expectClose, kind]

theorem exists_of_expectClose {shorter} (passed : expectClose tokens = .ok ⟨rest, shorter⟩) :
    ∃ close, close.kind = .closing ∧ tokens = close :: rest := by
  cases tokens <;> grind [expectClose]

theorem expectName_cons (kind : token.kind = .ident name) :
    expectName (token :: rest) = .ok (name, ⟨rest, Nat.lt_succ_self _⟩) := by
  simp only [expectName, kind]

theorem exists_of_expectName {shorter} (passed : expectName tokens = .ok (name, ⟨rest, shorter⟩)) :
    ∃ word, word.kind = .ident name ∧ tokens = word :: rest := by
  cases tokens <;> grind [expectName]

end Single

theorem startsWithOpening_iff {tokens : List Token} :
    startsWithOpening tokens ↔ ∃ opening rest, opening.kind = .opening ∧ tokens = opening :: rest := by
  cases tokens with
  | nil => simp [startsWithOpening]
  | cons token => cases kind : token.kind <;> simp [startsWithOpening, kind]

variable (source : Source)

/-- Reading with a least strength gives a tree and leaves tokens. -/
def Reads (least : Nat) (tokens : List Token) (tree : Tree) (rest : List Token) : Prop :=
  ∃ shorter, Tree.read source least tokens = .ok (tree, ⟨rest, shorter⟩)

/-- Extending an operand gives a tree and leaves tokens. -/
def Climbs (least : Nat) (left : Tree) (tokens : List Token) (tree : Tree) (rest : List Token) : Prop :=
  ∃ shorter, Tree.climb source least left tokens = .ok (tree, ⟨rest, shorter⟩)

/-- Reading an operand gives a tree and leaves tokens. -/
def ReadsOperand (tokens : List Token) (tree : Tree) (rest : List Token) : Prop :=
  ∃ shorter, Tree.readOperand source tokens = .ok (tree, ⟨rest, shorter⟩)

/-- A name is not defined with parameters. -/
def Source.Plain (source : Source) (name : String) : Prop :=
  ∀ entry, source.table.get? name = some entry → entry.definition.isFunction = false

/-- No definition takes parameters. -/
def Source.NoFunctions (source : Source) : Prop :=
  ∀ name entry, source.table.get? name = some entry → entry.definition.isFunction = false

variable {source} {least : Nat} {tokens rest : List Token} {left tree : Tree} {token : Token}

theorem reads_iff : Reads source least tokens tree rest ↔
    ∃ left behind, ReadsOperand source tokens left behind ∧ Climbs source least left behind tree rest := by
  unfold Reads ReadsOperand Climbs
  rw [Tree.read]
  constructor
  · rintro ⟨_, given⟩
    split at given
    · cases given
    · next left behind _ operand =>
      split at given
      · cases given
      · next climbed =>
        cases given
        exact ⟨left, behind, ⟨_, operand⟩, _, climbed⟩
  · rintro ⟨left, behind, ⟨_, operand⟩, _, climbed⟩
    refine ⟨?_, ?_⟩
    · omega
    · rw [operand]
      dsimp only
      rw [climbed]

theorem climbs_of_ends {layer : Layer} (admits : Admits least layer) (ends : Ends layer tokens) :
    Climbs source least left tokens tree rest ↔ tree = left ∧ rest = tokens := by
  unfold Climbs
  rw [Tree.climb.eq_def]
  have stays : (∃ shorter, (Except.ok (left, ⟨tokens, Nat.lt_succ_self _⟩) : Parsed (tokens.length + 1)) =
      .ok (tree, ⟨rest, shorter⟩)) ↔ tree = left ∧ rest = tokens := by
    constructor
    · rintro ⟨_, same⟩
      cases same
      exact ⟨rfl, rfl⟩
    · rintro ⟨rfl, rfl⟩
      exact ⟨_, rfl⟩
  cases tokens with
  | nil => exact stays
  | cons =>
    dsimp only
    split
    · next op kind =>
      have weak : op.strength < least := by
        have := ends.operator op (congrArg some kind)
        have := admits.operator op
        omega
      rw [if_pos weak]
      exact stays
    · next kind =>
      have weak : questionStrength < least := by
        have := ends.question (congrArg some kind)
        exact Nat.lt_of_not_le fun le => this (admits.question.mp le)
      rw [if_pos weak]
      exact stays
    · exact stays

theorem climbs_operator {op : Operator} (kind : token.kind = .symbol (.binary op)) (strong : least ≤ op.strength) :
    Climbs source least left (token :: tokens) tree rest ↔
      ∃ right behind, Reads source (op.strength + 1) tokens right behind ∧
        Climbs source least (.binary op left right) behind tree rest := by
  unfold Climbs Reads
  rw [Tree.climb.eq_def]
  constructor
  · rintro ⟨_, given⟩
    simp only [kind, Nat.not_lt_of_le strong, if_false] at given
    split at given
    · cases given
    · next right behind _ second =>
      split at given
      · cases given
      · next climbed =>
        cases given
        exact ⟨right, behind, ⟨_, second⟩, _, climbed⟩
  · rintro ⟨right, behind, ⟨_, second⟩, _, climbed⟩
    refine ⟨?_, ?_⟩
    · simp only [length_cons]
      omega
    · simp only [kind, Nat.not_lt_of_le strong, if_false, second, climbed]

theorem climbs_question (kind : token.kind = .symbol .question) (strong : least ≤ questionStrength) :
    Climbs source least left (token :: tokens) tree rest ↔
      ∃ yes colon afterColon no behind, colon.kind = .symbol .colon ∧
        Reads source 0 tokens yes (colon :: afterColon) ∧ Reads source colonStrength afterColon no behind ∧
        Climbs source least (.ternary left yes no) behind tree rest := by
  unfold Climbs Reads
  rw [Tree.climb.eq_def]
  constructor
  · rintro ⟨_, given⟩
    simp only [kind, Nat.not_lt_of_le strong, if_false] at given
    split at given
    · cases given
    · next yes afterYes _ chosen =>
      split at given
      · cases given
      · next afterColon _ passed =>
        split at given
        · cases given
        · next no behind _ other =>
          split at given
          · cases given
          · next climbed =>
            cases given
            obtain ⟨colon, isColon, rfl⟩ := exists_of_expectColon passed
            exact ⟨yes, colon, afterColon, no, behind, isColon, ⟨_, chosen⟩, ⟨_, other⟩, _, climbed⟩
  · rintro ⟨yes, colon, afterColon, no, behind, isColon, ⟨short, chosen⟩, ⟨_, other⟩, _, climbed⟩
    refine ⟨?_, ?_⟩
    · rw [length_cons] at short ⊢
      omega
    · simp only [kind, Nat.not_lt_of_le strong, if_false, chosen, expectColon_cons isColon, other, climbed]

theorem readDefined_eq_ok : (∃ shorter, Tree.readDefined tokens = .ok (tree, ⟨rest, shorter⟩)) ↔
    ∃ name, tree = .defined name ∧
      ((∃ word, word.kind = .ident name ∧ tokens = word :: rest) ∨
        ∃ opening word close, opening.kind = .opening ∧ word.kind = .ident name ∧ close.kind = .closing ∧
          tokens = opening :: word :: close :: rest) := by
  unfold Tree.readDefined
  constructor
  · rintro ⟨_, given⟩
    split at given
    · next opens =>
      split at given
      · cases given
      · next name _ _ named =>
        split at given
        · cases given
        · next closed =>
          cases given
          obtain ⟨opening, behindOpening, isOpening, rfl⟩ := startsWithOpening_iff.mp opens
          obtain ⟨word, isName, afterOpening⟩ := exists_of_expectName named
          obtain ⟨close, isClose, rfl⟩ := exists_of_expectClose closed
          subst afterOpening
          exact ⟨name, rfl, .inr ⟨opening, word, close, isOpening, isName, isClose, rfl⟩⟩
    · split at given
      · cases given
      · next name _ _ named =>
        cases given
        obtain ⟨word, isName, rfl⟩ := exists_of_expectName named
        exact ⟨name, rfl, .inl ⟨word, isName, rfl⟩⟩
  · rintro ⟨name, rfl, ⟨word, named, rfl⟩ | ⟨opening, word, close, opens, named, closes, rfl⟩⟩
    · have bare : startsWithOpening (word :: rest) = false := by simp [startsWithOpening, named]
      refine ⟨by simp only [length_cons]; omega, ?_⟩
      simp only [bare, Bool.false_eq_true, if_false, expectName_cons named]
    · have inParens : startsWithOpening (opening :: word :: close :: rest) := by simp [startsWithOpening, opens]
      refine ⟨by simp only [length_cons]; omega, ?_⟩
      simp only [inParens, if_true, tail_cons, expectName_cons named, expectClose_cons closes]

/-- A name that is not defined with parameters is read as itself. -/
theorem readName_eq {name : String} (objects : source.Plain name) (stop : Nat) (tokens : List Token) :
    Tree.readName source name stop tokens = .ok (.ident name, ⟨tokens, Nat.lt_succ_self _⟩) := by
  have plain : ((source.table.get? name).any fun entry => entry.definition.isFunction) = false := by
    cases found : source.table.get? name with
    | none => rfl
    | some entry => exact objects entry found
  simp only [Tree.readName, plain, Bool.false_and, Bool.false_eq_true, if_false]

/-- What reading an operand can come upon. -/
inductive Operand (source : Source) : List Token → Tree → List Token → Prop where
  | num {token : Token} {rest : List Token} {value : Value} (kind : token.kind = .num value) :
      Operand source (token :: rest) (.num value) rest
  | name {token : Token} {rest : List Token} {name : String} (kind : token.kind = .ident name)
      (free : name ≠ "defined") (plain : source.Plain name) : Operand source (token :: rest) (.ident name) rest
  | defined {token word : Token} {rest : List Token} {name : String} (kind : token.kind = .ident "defined")
      (named : word.kind = .ident name) : Operand source (token :: word :: rest) (.defined name) rest
  | definedParens {token opening word close : Token} {rest : List Token} {name : String}
      (kind : token.kind = .ident "defined") (opens : opening.kind = .opening) (named : word.kind = .ident name)
      (closes : close.kind = .closing) :
      Operand source (token :: opening :: word :: close :: rest) (.defined name) rest
  | parens {token close : Token} {tokens rest : List Token} {tree : Tree} (kind : token.kind = .opening)
      (closes : close.kind = .closing) (inner : Reads source 0 tokens tree (close :: rest)) :
      Operand source (token :: tokens) tree rest
  | sign {token : Token} {tokens rest : List Token} {sign : Sign} {tree : Tree}
      (kind : token.kind = .symbol sign.symbol) (operand : Reads source signStrength tokens tree rest) :
      Operand source (token :: tokens) (.unary sign tree) rest

theorem Operand.of_reads (objects : source.NoFunctions) (given : ReadsOperand source tokens tree rest) :
    Operand source tokens tree rest := by
  obtain ⟨_, given⟩ := given
  rw [Tree.readOperand.eq_def] at given
  split at given
  · cases given
  · next token tokens =>
    split at given
    · next kind =>
      cases given
      exact .num kind
    · next kind =>
      split at given
      · cases given
      · next inner =>
        split at given
        · cases given
        · next closed =>
          cases given
          obtain ⟨close, isClose, rfl⟩ := exists_of_expectClose closed
          exact .parens kind isClose ⟨_, inner⟩
    · next kind =>
      obtain ⟨name, rfl, ⟨word, named, rfl⟩ | ⟨opening, word, close, opens, named, closes, rfl⟩⟩ :=
        readDefined_eq_ok.mp ⟨_, given⟩
      · exact .defined kind named
      · exact .definedParens kind opens named closes
    · next name free kind =>
      rw [readName_eq (objects name)] at given
      cases given
      exact .name kind free (objects name)
    · next symbol kind =>
      split at given
      · cases given
      · next sign isSign =>
        split at given
        · cases given
        · next operand =>
          cases given
          rw [Symbol.sign?_eq_some.mp isSign] at kind
          exact .sign kind ⟨_, operand⟩
    · cases given

theorem Operand.reads (operand : Operand source tokens tree rest) : ReadsOperand source tokens tree rest := by
  unfold ReadsOperand
  rw [Tree.readOperand.eq_def]
  cases operand with
  | num kind => exact ⟨Nat.lt_succ_self _, by simp only [kind]⟩
  | name kind _ plain =>
    refine ⟨Nat.lt_succ_self _, ?_⟩
    simp only [kind, readName_eq plain]
  | defined kind named =>
    obtain ⟨shorter, read⟩ := readDefined_eq_ok.mpr ⟨_, rfl, .inl ⟨_, named, rfl⟩⟩
    exact ⟨shorter, by simp only [kind, read]⟩
  | definedParens kind opens named closes =>
    obtain ⟨shorter, read⟩ := readDefined_eq_ok.mpr ⟨_, rfl, .inr ⟨_, _, _, opens, named, closes, rfl⟩⟩
    exact ⟨shorter, by simp only [kind, read]⟩
  | parens kind closes inner =>
    obtain ⟨shorter, read⟩ := inner
    refine ⟨?_, ?_⟩
    · rw [length_cons] at shorter ⊢
      omega
    · simp only [kind, read, expectClose_cons closes]
  | sign kind operand =>
    obtain ⟨shorter, read⟩ := operand
    refine ⟨?_, ?_⟩
    · rw [length_cons]
      omega
    · simp only [kind, Symbol.sign?_eq_some.mpr rfl, read]

end Steps

/-! ## Readings are derivations -/

/-- The tokens up to some rest are derived in a layer. -/
def Derived (layer : Layer) (tokens : List Token) (tree : Tree) (rest : List Token) : Prop :=
  ∃ front, tokens = front ++ rest ∧ Derives layer (front.map Token.kind) tree

section Sound

variable {source : Source} {least : Nat} {layer : Layer} {tokens rest : List Token} {left tree : Tree}

/-- What a reading of fewer tokens than some number derives. -/
def SoundBelow (source : Source) (length : Nat) : Prop :=
  ∀ ⦃least : Nat⦄ ⦃layer : Layer⦄ ⦃tokens rest : List Token⦄ ⦃tree : Tree⦄, tokens.length < length →
    Admits least layer → Reads source least tokens tree rest → Derived layer tokens tree rest ∧ Ends layer rest

theorem SoundBelow.mono {length shorter : Nat} (sound : SoundBelow source length) (le : shorter ≤ length) :
    SoundBelow source shorter :=
  fun _ _ _ _ _ lt => sound (Nat.lt_of_lt_of_le lt le)

theorem Operand.derived (operand : Operand source tokens tree rest) (sound : SoundBelow source tokens.length) :
    Derived .signed tokens tree rest := by
  cases operand with
  | @num token _ value kind =>
    refine ⟨[token], rfl, ?_⟩
    rw [map_singleton, kind]
    exact .looser (.num value)
  | @name token _ _ kind free =>
    refine ⟨[token], rfl, ?_⟩
    rw [map_singleton, kind]
    exact .looser (.name free)
  | @defined token word _ name kind named =>
    refine ⟨[token, word], rfl, ?_⟩
    rw [map_cons, map_singleton, kind, named]
    exact .looser (.defined name)
  | @definedParens token opening word close _ name kind opens named closes =>
    refine ⟨[token, opening, word, close], rfl, ?_⟩
    simp only [map_cons, map_nil, kind, opens, named, closes]
    exact .looser (.definedParens name)
  | @parens token close _ _ _ kind closes inner =>
    obtain ⟨⟨front, rfl, derived⟩, _⟩ := sound (Nat.lt_succ_self _) (admits_conditional (by decide)) inner
    refine ⟨token :: (front ++ [close]), by simp, ?_⟩
    simp only [map_cons, map_append, map_nil, kind, closes]
    exact .looser (.parens derived)
  | @sign token _ _ sign _ kind operand =>
    obtain ⟨⟨front, rfl, derived⟩, _⟩ := sound (Nat.lt_succ_self _) admits_signed operand
    refine ⟨token :: front, rfl, ?_⟩
    rw [map_cons, kind]
    exact .sign sign derived

/-- Extending an operand that is derived already. The layer of the operand gets looser with every operator that is taken
in, and never looser than the operators asked for. -/
theorem Climbs.derived {reached : Layer} {taken : List Token}
    (climbs : Climbs source least left tokens tree rest) (sound : SoundBelow source tokens.length)
    (admits : Admits least layer)
    (derived : Derives reached (taken.map Token.kind) left) (within : layer.rank ≤ reached.rank)
    (follows : Follows reached tokens) : Derived layer (taken ++ tokens) tree rest ∧ Ends layer rest := by
  induction size : tokens.length using Nat.strongRecOn generalizing left taken tokens reached with
  | ind size ih =>
    subst size
    by_cases ends : Ends layer tokens
    · obtain ⟨rfl, rfl⟩ := (climbs_of_ends admits ends).mp climbs
      exact ⟨⟨taken, rfl, derived.loosen within⟩, ends⟩
    · obtain ⟨token, more, rfl, ⟨op, kind, takesIn⟩ | ⟨kind, rfl⟩⟩ := exists_of_not_ends ends
      · obtain ⟨right, behind, second, climbing⟩ := (climbs_operator kind ((admits.operator op).mpr takesIn)).mp climbs
        obtain ⟨⟨front, rfl, derivedRight⟩, ended⟩ := sound (Nat.lt_succ_self _) (admits_next op) second
        have derivedLeft := derived.loosen (follows.operator op (congrArg some kind))
        have whole : Derives op.layer ((taken ++ token :: front).map Token.kind) (.binary op left right) := by
          rw [map_append, map_cons, kind]
          exact .operation op derivedLeft derivedRight
        have result := ih _ (by simp only [length_cons, length_append]; omega) climbing
          (sound.mono (by simp only [length_cons, length_append]; omega)) whole takesIn ended.follows_operator rfl
        rwa [append_assoc] at result
      · obtain ⟨yes, colon, afterColon, no, behind, isColon, chosen, other, climbing⟩ :=
          (climbs_question kind (admits.question.mpr rfl)).mp climbs
        obtain ⟨⟨frontYes, rfl, derivedYes⟩, _⟩ :=
          sound (Nat.lt_succ_self _) (admits_conditional (by decide)) chosen
        obtain ⟨⟨frontNo, rfl, derivedNo⟩, ended⟩ :=
          sound (by simp only [length_cons, length_append]; omega) (admits_conditional (by decide)) other
        have asked : Derives .or (taken.map Token.kind) left := by
          refine derived.loosen (Nat.succ_le_of_lt (Nat.pos_of_ne_zero fun none => ?_))
          exact follows.question (congrArg some kind) (Layer.eq_of_rank_eq none)
        have whole : Derives .conditional ((taken ++ token :: (frontYes ++ colon :: frontNo)).map Token.kind)
            (.ternary left yes no) := by
          simp only [map_append, map_cons, kind, isColon]
          exact .choice asked derivedYes derivedNo
        have result := ih _ (by simp only [length_cons, length_append]; omega) climbing
          (sound.mono (by simp only [length_cons, length_append]; omega)) whole (Nat.le_refl _) ended.follows rfl
        simpa only [append_assoc, cons_append] using result

theorem soundBelow (objects : source.NoFunctions) (length : Nat) : SoundBelow source length := by
  induction length with
  | zero => exact fun _ _ _ _ _ lt => absurd lt (Nat.not_lt_zero _)
  | succ _ ih =>
    intro least layer tokens rest tree lt admits reads
    obtain ⟨left, behind, operand, climbs⟩ := reads_iff.mp reads
    have below := ih.mono (Nat.le_of_lt_succ lt)
    obtain ⟨front, rfl, derived⟩ := (Operand.of_reads objects operand).derived below
    exact climbs.derived (below.mono (by simp)) admits derived admits.signed (ends_signed _).follows

end Sound

/-! ## Derivations are readings -/

section Complete

variable {source : Source}

/-- Reading goes through some tokens and then stands behind a tree, where it looks for operators. -/
def Comes (source : Source) (layer : Layer) (kinds : List Kind) (tree : Tree) : Prop :=
  ∀ ⦃least : Nat⦄ ⦃asked : Layer⦄ ⦃tokens behind rest : List Token⦄ ⦃result : Tree⦄, tokens.map Token.kind = kinds →
    Admits least asked → asked.rank ≤ layer.rank → Follows layer behind →
    Climbs source least tree behind result rest → Reads source least (tokens ++ behind) result rest

theorem Comes.whole {layer : Layer} (comes : Comes source layer kinds tree)
    {least : Nat} (admits : Admits least layer) {tokens behind : List Token} (same : tokens.map Token.kind = kinds)
    (ends : Ends layer behind) : Reads source least (tokens ++ behind) tree behind :=
  comes same admits (Nat.le_refl _) ends.follows ((climbs_of_ends admits ends).mpr ⟨rfl, rfl⟩)

theorem Comes.of_operand {layer : Layer}
    (operand : ∀ tokens behind, tokens.map Token.kind = kinds →
      Operand source (tokens ++ behind) tree behind) : Comes source layer kinds tree :=
  fun _ _ _ _ _ _ same _ _ _ climbs => reads_iff.mpr ⟨_, _, (operand _ _ same).reads, climbs⟩

/-- What is derived is read, as far as the names in it are not defined with parameters. -/
theorem Derives.comes {layer : Layer} (derived : Derives layer kinds tree)
    (plain : ∀ name ∈ tree.names, source.Plain name) : Comes source layer kinds tree := by
  induction derived with
  | @looser layer _ _ _ ih =>
    specialize ih plain
    intro least asked tokens behind rest result same admits le follows climbs
    refine ih same admits (Nat.le_trans le layer.rank_le_next)
      ⟨fun op met => ?_, fun _ => layer.next_ne_conditional⟩ climbs
    exact Nat.le_trans (follows.operator op met) layer.rank_le_next
  | choice _ _ _ ihTest ihYes ihNo =>
    simp only [Tree.names, forall_mem_append] at plain
    specialize ihTest plain.1
    specialize ihYes plain.2.1
    specialize ihNo plain.2.2
    intro least asked tokens behind rest result same admits le follows climbs
    obtain ⟨test, _, rfl, sameTest, sameRest⟩ := map_eq_append_iff.mp same
    obtain ⟨question, _, rfl, isQuestion, sameRest⟩ := map_eq_cons_iff.mp sameRest
    obtain ⟨yes, _, rfl, sameYes, sameRest⟩ := map_eq_append_iff.mp sameRest
    obtain ⟨colon, no, rfl, isColon, sameNo⟩ := map_eq_cons_iff.mp sameRest
    obtain rfl : asked = .conditional := Layer.eq_of_rank_eq (Nat.eq_zero_of_le_zero le)
    have chosen : Reads source 0 (yes ++ colon :: (no ++ behind)) _ (colon :: (no ++ behind)) :=
      ihYes.whole (admits_conditional (by decide)) sameYes
        (ends_of_other _ (by simp [isColon]) (by simp [isColon]))
    have other : Reads source colonStrength (no ++ behind) _ behind :=
      ihNo.whole (admits_conditional (by decide)) sameNo follows.ends_conditional
    have climbing := (climbs_question isQuestion (admits.question.mpr rfl)).mpr
      ⟨_, colon, _, _, _, isColon, chosen, other, climbs⟩
    have began : Follows .or (question :: (yes ++ colon :: (no ++ behind))) :=
      ⟨by simp [isQuestion], fun _ => by decide⟩
    simpa only [append_assoc, cons_append] using ihTest sameTest admits (Nat.zero_le _) began climbing
  | operation op _ _ ihLeft ihRight =>
    simp only [Tree.names, forall_mem_append] at plain
    specialize ihLeft plain.1
    specialize ihRight plain.2
    intro least asked tokens behind rest result same admits le follows climbs
    obtain ⟨left, _, rfl, sameLeft, sameRest⟩ := map_eq_append_iff.mp same
    obtain ⟨sign, right, rfl, isOp, sameRight⟩ := map_eq_cons_iff.mp sameRest
    have second := ihRight.whole (admits_next op) sameRight follows.ends_operator
    have climbing := (climbs_operator isOp ((admits.operator op).mpr le)).mpr ⟨_, _, second, climbs⟩
    have began : Follows op.layer (sign :: (right ++ behind)) := by
      refine ⟨fun other met => ?_, fun met => ?_⟩
      · have same : other = op := by simpa [isOp] using met.symm
        exact Nat.le_of_eq (congrArg (·.layer.rank) same)
      · simp [isOp] at met
    simpa only [append_assoc, cons_append] using ihLeft sameLeft admits le began climbing
  | sign _ _ ih =>
    refine .of_operand fun tokens behind same => ?_
    obtain ⟨token, operand, rfl, kind, sameOperand⟩ := map_eq_cons_iff.mp same
    exact .sign kind ((ih plain).whole admits_signed sameOperand (ends_signed _))
  | num =>
    refine .of_operand fun tokens behind same => ?_
    obtain ⟨token, rfl, kind⟩ := map_eq_singleton_iff.mp same
    exact .num kind
  | name free =>
    refine .of_operand fun tokens behind same => ?_
    obtain ⟨token, rfl, kind⟩ := map_eq_singleton_iff.mp same
    exact .name kind free (plain _ (mem_singleton_self _))
  | defined =>
    refine .of_operand fun tokens behind same => ?_
    obtain ⟨token, _, rfl, kind, same⟩ := map_eq_cons_iff.mp same
    obtain ⟨word, rfl, named⟩ := map_eq_singleton_iff.mp same
    exact .defined kind named
  | definedParens =>
    refine .of_operand fun tokens behind same => ?_
    obtain ⟨token, _, rfl, kind, same⟩ := map_eq_cons_iff.mp same
    obtain ⟨opening, _, rfl, opens, same⟩ := map_eq_cons_iff.mp same
    obtain ⟨word, _, rfl, named, same⟩ := map_eq_cons_iff.mp same
    obtain ⟨close, rfl, closes⟩ := map_eq_singleton_iff.mp same
    exact .definedParens kind opens named closes
  | parens _ ih =>
    refine .of_operand fun tokens behind same => ?_
    obtain ⟨token, _, rfl, kind, same⟩ := map_eq_cons_iff.mp same
    obtain ⟨inner, _, rfl, sameInner, same⟩ := map_eq_append_iff.mp same
    obtain ⟨close, rfl, closes⟩ := map_eq_singleton_iff.mp same
    have read : Reads source 0 (inner ++ close :: behind) _ (close :: behind) :=
      (ih plain).whole (admits_conditional (by decide)) sameInner
        (ends_of_other _ (by simp [closes]) (by simp [closes]))
    simpa only [append_assoc, cons_append, nil_append] using Operand.parens kind closes read

end Complete

/-! ## The reading and the grammar -/

theorem reads_iff_derives {source : Source} (objects : source.NoFunctions) {tokens : List Token} :
    Reads source 0 tokens tree [] ↔ Derives .conditional (tokens.map Token.kind) tree := by
  have admits : Admits 0 .conditional := admits_conditional (by decide)
  constructor
  · intro reads
    obtain ⟨⟨front, rfl, derived⟩, _⟩ := soundBelow objects _ (Nat.lt_succ_self _) admits reads
    rwa [append_nil]
  · intro derived
    have reads := (derived.comes fun name _ => objects name).whole admits rfl (ends_nil .conditional)
    rwa [append_nil] at reads

/-- Where no definition takes parameters, reading accepts a list of tokens as a whole exactly when the grammar derives
it, and gives the one tree that it derives. -/
theorem read_iff_derives {source : Source} (objects : source.NoFunctions) (tokens : List Token) :
    (∀ tree, (∃ shorter, Tree.read source 0 tokens = .ok (tree, ⟨[], shorter⟩)) ↔
      Derives .conditional (tokens.map Token.kind) tree) ∧
    ∀ tree other, Derives .conditional (tokens.map Token.kind) tree →
      Derives .conditional (tokens.map Token.kind) other → tree = other := by
  refine ⟨fun tree => reads_iff_derives objects, fun tree other derived derivedOther => ?_⟩
  obtain ⟨_, read⟩ := (reads_iff_derives objects).mpr derived
  obtain ⟨_, readOther⟩ := (reads_iff_derives objects).mpr derivedOther
  rw [read] at readOther
  cases readOther
  rfl

/-- The text `A - 1 - B * 2 ? defined(A) : !B ? 0 : 1`, where `A` is defined. -/
def choiceSample : Source × List Token :=
  (⟨"A - 1 - B * 2 ? defined(A) : !B ? 0 : 1".toList, ⟨[("A", ⟨"A", .object "3", ⟨0, 1⟩, none⟩)], by decide⟩⟩,
    [⟨.ident "A", 0, 1⟩, ⟨.symbol (.binary .sub), 2, 3⟩, ⟨.num (.int 1), 4, 5⟩, ⟨.symbol (.binary .sub), 6, 7⟩,
      ⟨.ident "B", 8, 9⟩, ⟨.symbol (.binary .mul), 10, 11⟩, ⟨.num (.int 2), 12, 13⟩, ⟨.symbol .question, 14, 15⟩,
      ⟨.ident "defined", 16, 23⟩, ⟨.opening, 23, 24⟩, ⟨.ident "A", 24, 25⟩, ⟨.closing, 25, 26⟩,
      ⟨.symbol .colon, 27, 28⟩, ⟨.symbol .bang, 29, 30⟩, ⟨.ident "B", 30, 31⟩, ⟨.symbol .question, 32, 33⟩,
      ⟨.num (.int 0), 34, 35⟩, ⟨.symbol .colon, 36, 37⟩, ⟨.num (.int 1), 38, 39⟩])

/-- Differences group to the left, products bind before them, and choices group to the right. -/
theorem read_iff_derives_choiceSample : choiceSample.1.NoFunctions ∧
    (∃ shorter, Tree.read choiceSample.1 0 choiceSample.2 = .ok
      (.ternary
        (.binary .sub (.binary .sub (.ident "A") (.num (.int 1))) (.binary .mul (.ident "B") (.num (.int 2))))
        (.defined "A")
        (.ternary (.unary .not (.ident "B")) (.num (.int 0)) (.num (.int 1))),
      ⟨[], shorter⟩)) := by
  have objects : choiceSample.1.NoFunctions := by
    intro name entry found
    change (if ("A" == name) = true then some _ else none) = some entry at found
    split at found
    · rw [← Option.some.inj found]
      rfl
    · cases found
  refine ⟨objects, ((read_iff_derives objects choiceSample.2).1 _).mpr ?_⟩
  have number (n : Int64) (layer : Layer) : Derives layer [.num (.int n)] (.num (.int n)) :=
    (Derives.num (.int n)).loosen (by cases layer <;> decide)
  have name (text : String) (free : text ≠ "defined") (layer : Layer) : Derives layer [.ident text] (.ident text) :=
    (Derives.name free).loosen (by cases layer <;> decide)
  have product : Derives .multiplicative [.ident "B", .symbol (.binary .mul), .num (.int 2)] _ :=
    .operation .mul (name "B" (by decide) _) (number 2 _)
  have difference : Derives .additive [.ident "A", .symbol (.binary .sub), .num (.int 1), .symbol (.binary .sub),
      .ident "B", .symbol (.binary .mul), .num (.int 2)] _ :=
    .operation .sub (.operation .sub (name "A" (by decide) _) (number 1 _)) product
  have negation : Derives .signed [.symbol .bang, .ident "B"] _ := .sign .not (name "B" (by decide) _)
  have last : Derives .conditional [.symbol .bang, .ident "B", .symbol .question, .num (.int 0), .symbol .colon,
      .num (.int 1)] _ :=
    .choice (negation.loosen (by decide)) (number 0 _) (number 1 _)
  exact .choice (difference.loosen (by decide)) ((Derives.definedParens "A").loosen (by decide)) last

end ScriptLint.Condition
