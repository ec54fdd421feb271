import Mathlib.Algebra.Group.Nat.Defs
import Mathlib.Data.List.Basic
import Mathlib.Data.List.TakeWhile
import ScriptLint.Condition.Eval
import ScriptLint.Proofs.ConditionGrammar

/-!
# Written conditions

A formula is written with the parentheses that its layers ask for and no others. Between two tokens stands one blank,
which may be left out beside a parenthesis and behind a sign. However that is done, the text is read as the formula.
-/

namespace ScriptLint.Condition

open Text List

/-! ## Formulas -/

/-- An identifier. -/
structure Word where
  text : String
  isIdent : Text.isIdent text.toList = true

/-- Conditions over whole numbers: without calls, and without numbers that have more than 63 bits. -/
inductive Formula where
  | literal (value : Fin (2 ^ 63))
  | name (word : Word) (free : word.text ≠ "defined")
  | defined (word : Word)
  | signed (sign : Sign) (operand : Formula)
  | operation (op : Operator) (left right : Formula)
  | choice (test yes no : Formula)

namespace Formula

/-- The tree that a formula is. -/
def tree : Formula → Tree
  | literal value => .num (.int (Int64.ofNat value))
  | name word _ => .ident word.text
  | defined word => .defined word.text
  | signed sign operand => .unary sign operand.tree
  | operation op left right => .binary op left.tree right.tree
  | choice test yes no => .ternary test.tree yes.tree no.tree

/-- Tokens of a layer where one of another layer is asked for: a looser one needs parentheses. -/
def enclose (own asked : Layer) (kinds : List Kind) : List Kind :=
  if own.rank < asked.rank then .opening :: (kinds ++ [.closing]) else kinds

/-- The tokens of a formula where one of some layer is asked for. -/
def write : (asked : Layer) → Formula → List Kind
  | _, literal value => [.num (.int (Int64.ofNat value))]
  | _, name word _ => [.ident word.text]
  | _, defined word => [.ident "defined", .opening, .ident word.text, .closing]
  | asked, signed sign operand => enclose .signed asked (.symbol sign.symbol :: operand.write .signed)
  | asked, operation op left right =>
    enclose op.layer asked (left.write op.layer ++ .symbol (.binary op) :: right.write op.layer.next)
  | asked, choice test yes no =>
    enclose .conditional asked
      (test.write .or ++ .symbol .question :: (yes.write .conditional ++ .symbol .colon :: no.write .conditional))

theorem derives_enclose {own : Layer} {kinds : List Kind} {tree : Tree} (derived : Derives own kinds tree)
    (asked : Layer) : Derives asked (enclose own asked kinds) tree := by
  rw [enclose]
  split
  · refine (Derives.parens (derived.loosen (Nat.zero_le _))).loosen ?_
    cases asked <;> decide
  · next tight => exact derived.loosen (Nat.le_of_not_lt tight)

/-- The grammar derives a formula from its tokens. -/
theorem derives_write (formula : Formula) (asked : Layer) : Derives asked (formula.write asked) formula.tree := by
  have primary {kinds : List Kind} {tree : Tree} (derived : Derives .primary kinds tree) (asked : Layer) :
      Derives asked kinds tree := derived.loosen (by cases asked <;> decide)
  induction formula generalizing asked with
  | literal => exact primary (.num _) asked
  | name _ free => exact primary (.name free) asked
  | defined word => exact primary (.definedParens word.text) asked
  | signed sign _ ih => exact derives_enclose (.sign sign (ih .signed)) asked
  | operation op _ _ ihLeft ihRight => exact derives_enclose (.operation op (ihLeft _) (ihRight _)) asked
  | choice _ _ _ ihTest ihYes ihNo => exact derives_enclose (.choice (ihTest _) (ihYes _) (ihNo _)) asked

end Formula

/-! ## Tokens as text -/

/-- Whether two tokens may stand together without a blank. -/
def touches : Kind → Kind → Bool
  | .opening, _ | .closing, _ | _, .opening | _, .closing => true
  | .symbol sign, .symbol other => sign.sign?.isSome && other.sign?.isSome
  | .symbol sign, .num _ | .symbol sign, .ident _ => sign.sign?.isSome
  | _, _ => false

/-- Tokens written one after the other, with one blank between two of them or with none where they may touch. -/
inductive Spaced : List Kind → List Char → Prop where
  | nil : Spaced [] []
  | one (kind : Kind) : Spaced [kind] kind.render.toList
  | blank (kind : Kind) {next : Kind} {kinds : List Kind} {text : List Char} (rest : Spaced (next :: kinds) text) :
      Spaced (kind :: next :: kinds) (kind.render.toList ++ ' ' :: text)
  | tight {kind next : Kind} {kinds : List Kind} {text : List Char} (close : touches kind next = true)
      (rest : Spaced (next :: kinds) text) : Spaced (kind :: next :: kinds) (kind.render.toList ++ text)

/-- Tokens with one blank between any two of them. -/
def spread : List Kind → List Char
  | [] => []
  | [kind] => kind.render.toList
  | kind :: next :: kinds => kind.render.toList ++ ' ' :: spread (next :: kinds)

theorem spaced_spread (kinds : List Kind) : Spaced kinds (spread kinds) := by
  induction kinds with
  | nil => exact .nil
  | cons kind kinds ih =>
    cases kinds with
    | nil => exact .one kind
    | cons => exact .blank kind ih

/-- The tokens that formulas are written with. -/
inductive Kind.Whole : Kind → Prop where
  | num (value : Fin (2 ^ 63)) : Whole (.num (.int (Int64.ofNat value)))
  | ident {name : String} (isIdent : Text.isIdent name.toList = true) : Whole (.ident name)
  | symbol (sign : Symbol) : Whole (.symbol sign)
  | opening : Whole .opening
  | closing : Whole .closing

theorem Formula.whole_write (formula : Formula) (asked : Layer) : ∀ kind ∈ formula.write asked, kind.Whole := by
  have inside {own asked : Layer} {kinds : List Kind} (whole : ∀ kind ∈ kinds, kind.Whole) :
      ∀ kind ∈ enclose own asked kinds, kind.Whole := by
    rw [enclose]
    split
    · refine forall_mem_cons.mpr ⟨.opening, forall_mem_append.mpr ⟨whole, ?_⟩⟩
      exact forall_mem_singleton.mpr .closing
    · exact whole
  induction formula generalizing asked with
  | literal value => exact forall_mem_singleton.mpr (.num value)
  | name word => exact forall_mem_singleton.mpr (.ident word.isIdent)
  | defined word =>
    refine forall_mem_cons.mpr ⟨.ident (by decide), forall_mem_cons.mpr ⟨.opening, ?_⟩⟩
    exact forall_mem_cons.mpr ⟨.ident word.isIdent, forall_mem_singleton.mpr .closing⟩
  | signed _ _ ih => exact inside (forall_mem_cons.mpr ⟨.symbol _, ih _⟩)
  | operation _ _ _ ihLeft ihRight =>
    exact inside (forall_mem_append.mpr ⟨ihLeft _, forall_mem_cons.mpr ⟨.symbol _, ihRight _⟩⟩)
  | choice _ _ _ ihTest ihYes ihNo =>
    refine inside (forall_mem_append.mpr ⟨ihTest _, forall_mem_cons.mpr ⟨.symbol _, ?_⟩⟩)
    exact forall_mem_append.mpr ⟨ihYes _, forall_mem_cons.mpr ⟨.symbol _, ihNo _⟩⟩

/-! ## Tokens from text -/

/-- Whether a character right behind a token would be read with it. -/
def Kind.goesOn : Kind → Char → Bool
  | .num _, c => isNumberPart c
  | .ident _, c => isIdentPart c
  | .symbol _, c => "<>=&|".toList.contains c
  | _, _ => false

variable {c : Char} {digits cs text rest : List Char} {kind : Kind} {tokens : List Token} {table : Macro.Table}

theorem digitValue_of_isDigit (digit : isDigit c) : digitValue c = c.toNat - '0'.toNat := by
  rw [digitValue, if_pos digit]

theorem beq_of_apart {test : Char → Bool} (other : Char) {inside : Bool} (own : test c = inside)
    (apart : test other = !inside) : (c == other) = false := by
  refine beq_false_of_ne ?_
  rintro rfl
  exact (Bool.eq_not_self inside).mp (own.symm.trans apart)

theorem isDigit_of_mem_toDigits {n : Nat} (found : c ∈ Nat.toDigits 10 n) : isDigit c := by
  have digit := Nat.isDigit_of_mem_toDigits (by decide) (by decide) found
  simpa [isDigit, Char.isDigit, Char.le_def] using digit

theorem ofDigits_toDigits (n : Nat) : Number.ofDigits 10 (Nat.toDigits 10 n) = n := by
  refine Eq.trans ?_ (Nat.ofDigitChars_ten_toDigits (n := n))
  refine foldl_ext _ _ _ fun value c found => ?_
  rw [digitValue_of_isDigit (isDigit_of_mem_toDigits found), Nat.mul_comm]

theorem digitValue_lt (digit : isDigit c) : digitValue c < 10 := by
  rw [digitValue_of_isDigit digit]
  simp only [isDigit, Bool.and_eq_true, decide_eq_true_eq, Char.le_def] at digit
  have top : c.toNat ≤ 57 := digit.2
  change c.toNat - 48 < 10
  omega

theorem readNat?_ten (filled : digits ≠ []) (all : ∀ c ∈ digits, isDigit c) :
    Number.readNat? 10 digits = some (Number.ofDigits 10 digits) := by
  have valid : digits.all (fun c => isDigit c && decide (digitValue c < 10)) :=
    all_eq_true.mpr fun c found => by
      rw [all c found]
      exact decide_eq_true (digitValue_lt (all c found))
  change (if (digits.isEmpty || !digits.all fun c => isDigit c && decide (digitValue c < 10)) = true then none
    else some (Number.ofDigits 10 digits)) = _
  rw [valid, isEmpty_eq_false_iff.mpr filled]
  rfl

/-- Digits of a number with less than 64 bits are read as that number. -/
theorem readInt64?_of_readNat? {base n : Nat} (read : Number.readNat? base digits = some n)
    (unsigned : ∀ c ∈ digits, c ≠ '-' ∧ c ≠ '+') (small : n < 2 ^ 63) :
    Number.readInt64? base digits = some (Int64.ofNat n) := by
  have whole : Number.readInt? base digits = some (n : Int) := by
    rw [Number.readInt?, read]
    · rfl
    · rintro cs rfl
      exact (unsigned '-' mem_cons_self).1 rfl
    · rintro cs rfl
      exact (unsigned '+' mem_cons_self).2 rfl
  have fits : Number.fitsInt64 (n : Int) := by
    rw [Number.fitsInt64, Bool.and_eq_true, decide_eq_true_eq, decide_eq_true_eq]
    change -9223372036854775808 ≤ (n : Int) ∧ (n : Int) < 9223372036854775808
    omega
  rw [Number.readInt64?, whole, Option.bind_some, if_pos fits, Int64.ofInt_eq_ofNat]

theorem readInt64?_ten (filled : digits ≠ []) (all : ∀ c ∈ digits, isDigit c)
    (small : Number.ofDigits 10 digits < 2 ^ 63) :
    Number.readInt64? 10 digits = some (Int64.ofNat (Number.ofDigits 10 digits)) := by
  refine readInt64?_of_readNat? (readNat?_ten filled all) (fun c found => ?_) small
  exact ⟨beq_eq_false_iff_ne.mp (beq_of_apart '-' (all c found) (by decide)),
    beq_eq_false_iff_ne.mp (beq_of_apart '+' (all c found) (by decide))⟩

theorem readInt64?_toDigits (value : Fin (2 ^ 63)) :
    Number.readInt64? 10 (Nat.toDigits 10 value) = some (Int64.ofNat value) := by
  have digits := ofDigits_toDigits value
  have read := readInt64?_ten Nat.toDigits_ne_nil (fun c found => isDigit_of_mem_toDigits found)
    (digits.symm ▸ value.isLt : Number.ofDigits 10 (Nat.toDigits 10 value) < 2 ^ 63)
  rwa [digits] at read

theorem render_int (value : Fin (2 ^ 63)) : (Value.int (Int64.ofNat value)).render.toList = Nat.toDigits 10 value := by
  rw [Value.render, Int64.toInt_ofNat_of_lt value.isLt]
  exact Nat.toList_repr

theorem trimEndWhile_of_all {test : Char → Bool} (none_ : ∀ c ∈ cs, test c = false) : trimEndWhile test cs = cs := by
  rw [trimEndWhile]
  cases order : cs.reverse with
  | nil => rw [dropWhile_nil, ← order, reverse_reverse]
  | cons c =>
    have found : c ∈ cs := mem_reverse.mp (order ▸ mem_cons_self)
    rw [dropWhile_cons_of_neg (by rw [none_ c found]; exact Bool.false_ne_true), ← order, reverse_reverse]

theorem isHexDigit_of_isDigit (digit : isDigit c) : isHexDigit c := by
  rw [isHexDigit, digit, Bool.true_or, Bool.true_or]

theorem Value.isSuffix_of_isHexDigit (digit : isHexDigit c) : Value.isSuffix c = false := by
  rw [isSuffix, beq_of_apart _ digit (by decide), beq_of_apart _ digit (by decide),
    beq_of_apart _ digit (by decide), beq_of_apart _ digit (by decide)]
  rfl

/-- Without the mark of a base, digits are read in the base ten or as a decimal. -/
theorem Value.read?_of_unmarked (noSuffix : ∀ c ∈ text, Value.isSuffix c = false)
    (unmarked : 'x' ∉ text ∧ 'X' ∉ text) : Value.read? text =
      match Number.readInt64? 10 text with
      | some n => some (.int n)
      | none => (Number.Decimal.read? (trimEndWhile (fun c => c == 'f' || c == 'F') text)).map fun value =>
        .float value.toFloat := by
  rw [Value.read?, trimEndWhile_of_all noSuffix]
  split
  · exact absurd (mem_cons_of_mem _ mem_cons_self) unmarked.1
  · exact absurd (mem_cons_of_mem _ mem_cons_self) unmarked.2
  · rfl

theorem Value.read?_toDigits (value : Fin (2 ^ 63)) :
    Value.read? (Nat.toDigits 10 value) = some (.int (Int64.ofNat value)) := by
  have noSuffix : ∀ c ∈ Nat.toDigits 10 value, isSuffix c = false := fun c found =>
    isSuffix_of_isHexDigit (isHexDigit_of_isDigit (isDigit_of_mem_toDigits found))
  have noMark {mark : Char} (other : isDigit mark = false) : mark ∉ Nat.toDigits 10 value := fun found =>
    Bool.false_ne_true (other.symm.trans (isDigit_of_mem_toDigits found))
  rw [read?_of_unmarked noSuffix ⟨noMark (by decide), noMark (by decide)⟩, readInt64?_toDigits]

theorem numberLength_of_stops (hex : Bool) (stops : ∀ c ∈ rest.head?, isNumberPart c = false) :
    numberLength hex rest = 0 := by
  cases rest with
  | nil => rfl
  | cons c more =>
    have other := stops c rfl
    cases more with
    | nil =>
      change (if isNumberPart c then 1 else 0) = 0
      rw [other]
      rfl
    | cons =>
      rw [numberLength, beq_of_apart _ other (by decide), beq_of_apart _ other (by decide), other, Bool.or_self,
        Bool.and_false, Bool.false_and]
      rfl

theorem numberLength_digits (hex : Bool) (all : ∀ c ∈ digits, isDigit c)
    (stops : ∀ c ∈ rest.head?, isNumberPart c = false) : numberLength hex (digits ++ rest) = digits.length := by
  induction digits with
  | nil => exact numberLength_of_stops hex stops
  | cons c digits ih =>
    have digit := all c mem_cons_self
    have part : isNumberPart c := by rw [isNumberPart, digit, Bool.or_true, Bool.true_or]
    have behind := ih fun c found => all c (mem_cons_of_mem _ found)
    rw [cons_append, length_cons, ← behind]
    cases digits ++ rest with
    | nil =>
      change (if isNumberPart c then 1 else 0) = 1
      rw [if_pos part]
    | cons =>
      rw [numberLength, beq_of_apart _ digit (by decide), beq_of_apart _ digit (by decide), if_pos part]
      rw [Bool.or_self, Bool.and_false, Bool.false_and, if_neg Bool.false_ne_true]

theorem Symbol.atFront?_append (symbol : Symbol) (stops : ∀ c ∈ rest.head?, "<>=&|".toList.contains c = false) :
    Symbol.atFront? (symbol.text.toList ++ rest) = some symbol := by
  cases rest with
  | nil =>
    cases symbol with
    | binary op => cases op <;> decide
    | _ => decide
  | cons c =>
    have apart {other : Char} (listed : "<>=&|".toList.contains other) : (other == c) = false :=
      beq_of_apart c listed (stops c rfl)
    have less : ('<' == c) = false := apart (by decide)
    have more : ('>' == c) = false := apart (by decide)
    have same : ('=' == c) = false := apart (by decide)
    have both : ('&' == c) = false := apart (by decide)
    have either : ('|' == c) = false := apart (by decide)
    cases symbol with
    | binary op =>
      cases op <;> simp [atFront?, all, text, Operator.text, dropBeginning?, less, more, same, both, either]
    | _ => simp [atFront?, all, text, Operator.text, dropBeginning?, same]

/-- How a token is read off the front of a text: by its first character, which is no blank, and the others, if nothing
behind them goes on. -/
structure Kind.Reads (kind : Kind) (c : Char) (cs : List Char) : Prop where
  render : kind.render.toList = c :: cs
  solid : isWordBlank c = false
  read : ∀ rest, (∀ next ∈ rest.head?, kind.goesOn next = false) →
    Kind.read c (cs ++ rest) = .ok (kind, cs.length)

/-- A number is read as far as its length goes. -/
theorem Kind.read_number {value : Value}
    (starts : (isDigit c || (c == '.' && (cs ++ rest).head?.any isDigit)))
    (length : numberLength (c == '0' && (cs ++ rest).head? == some 'x') (c :: (cs ++ rest)) = cs.length + 1)
    (number : Value.read? (c :: cs) = some value) : Kind.read c (cs ++ rest) = .ok (.num value, cs.length) := by
  have front : (c :: (cs ++ rest)).take (cs.length + 1) = c :: cs := by
    rw [take_succ_cons, take_left]
  simp only [Kind.read, starts, if_true, length, front, number]
  rfl

theorem reads_num (value : Fin (2 ^ 63)) : ∃ c cs, isDigit c ∧
    Kind.Reads (.num (.int (Int64.ofNat value))) c cs := by
  have digit {c : Char} (found : c ∈ Nat.toDigits 10 value) : isDigit c := isDigit_of_mem_toDigits found
  have number := Value.read?_toDigits value
  have written := render_int value
  obtain ⟨c, cs, digits⟩ := exists_cons_of_ne_nil (@Nat.toDigits_ne_nil value 10)
  rw [digits] at digit number written
  have first := digit mem_cons_self
  refine ⟨c, cs, first, written, ?_, fun rest stops => ?_⟩
  · rw [isWordBlank, beq_of_apart _ first (by decide), beq_of_apart _ first (by decide),
      beq_of_apart _ first (by decide), beq_of_apart _ first (by decide), beq_of_apart _ first (by decide)]
    rfl
  · exact Kind.read_number (by rw [first, Bool.true_or])
      (numberLength_digits _ (fun c found => digit found) stops) number

theorem isDigit_of_isIdentStart (start : isIdentStart c) : isDigit c = false := by
  refine Bool.eq_false_iff.mpr fun digit => ?_
  simp only [isIdentStart, isLetter, isDigit, Bool.or_eq_true, Bool.and_eq_true, decide_eq_true_eq,
    beq_iff_eq, Char.le_def, UInt32.le_iff_toNat_le] at start digit
  have top : c.val.toNat ≤ 57 := digit.2
  rcases start with (letter | capital) | rfl
  · have low : 97 ≤ c.val.toNat := letter.1
    omega
  · have low : 65 ≤ c.val.toNat := capital.1
    omega
  · exact absurd top (by decide)

theorem reads_ident {name : String} (isIdent : Text.isIdent name.toList) :
    ∃ c cs, isIdentStart c ∧ Kind.Reads (.ident name) c cs := by
  cases chars : name.toList with
  | nil =>
    rw [chars] at isIdent
    cases isIdent
  | cons c cs =>
    rw [chars, Text.isIdent, scanIdent] at isIdent
    by_cases start : isIdentStart c
    · rw [if_pos start, isEmpty_cons, Bool.not_false, Bool.true_and, List.isEmpty_iff,
        dropWhile_eq_nil_iff] at isIdent
      have apart (other : Char) (outside : isIdentStart other = false) : (c == other) = false :=
        beq_of_apart other start outside
      have noDigit := isDigit_of_isIdentStart start
      refine ⟨c, cs, start, chars, ?_, fun rest stops => ?_⟩
      · rw [isWordBlank, apart ' ' (by decide), apart '\t' (by decide), apart '\n' (by decide),
          apart '\r' (by decide), apart '\x0c' (by decide)]
        rfl
      · have part : (cs ++ rest).takeWhile isIdentPart = cs := by
          rw [takeWhile_append_of_pos isIdent]
          cases rest with
          | nil => rw [takeWhile_nil, append_nil]
          | cons next =>
            have other := stops next rfl
            rw [takeWhile_cons_of_neg (Bool.not_eq_true _ ▸ other), append_nil]
        have whole : String.ofList (c :: cs) = name := by rw [← chars, String.ofList_toList]
        simp only [Kind.read, noDigit, apart '.' (by decide), start, part, whole, Bool.false_and, Bool.or_self,
          Bool.false_eq_true, if_false, if_true]
    · rw [if_neg start] at isIdent
      cases isIdent

/-- A character that begins neither a number, a name nor a parenthesis, and is no quote, comma or blank. -/
def isSign (c : Char) : Bool :=
  !(isDigit c || isIdentStart c || ".(),\"'".toList.contains c || isWordBlank c)

theorem reads_symbol (symbol : Symbol) : ∃ c cs, Kind.Reads (.symbol symbol) c cs := by
  have reads {c : Char} {cs : List Char} (chars : symbol.text.toList = c :: cs) (sign : isSign c) :
      Kind.Reads (.symbol symbol) c cs := by
    have length : symbol.text.length = cs.length + 1 := by rw [← String.length_toList, chars, length_cons]
    have plain := sign
    simp only [isSign, Bool.not_eq_true', Bool.or_eq_false_iff] at plain
    obtain ⟨⟨⟨noDigit, noStart⟩, -⟩, solid⟩ := plain
    refine ⟨chars, solid, fun rest stops => ?_⟩
    have found : Symbol.atFront? (c :: (cs ++ rest)) = some symbol := by
      have front := Symbol.atFront?_append symbol stops
      rwa [chars] at front
    simp only [Kind.read, noDigit, noStart, found, length, beq_of_apart '.' sign (by decide),
      beq_of_apart '(' sign (by decide), beq_of_apart ')' sign (by decide),
      beq_of_apart ',' sign (by decide), beq_of_apart '"' sign (by decide),
      beq_of_apart '\'' sign (by decide), Bool.false_and, Bool.or_self, Bool.false_eq_true, if_false]
    rfl
  cases symbol with
  | binary op => cases op <;> exact ⟨_, _, reads rfl (by decide)⟩
  | _ => exact ⟨_, _, reads rfl (by decide)⟩

theorem Kind.Whole.exists_reads (whole : kind.Whole) : ∃ c cs, kind.Reads c cs := by
  cases whole with
  | num value =>
    obtain ⟨c, cs, -, reads⟩ := reads_num value
    exact ⟨c, cs, reads⟩
  | ident isIdent =>
    obtain ⟨c, cs, -, reads⟩ := reads_ident isIdent
    exact ⟨c, cs, reads⟩
  | symbol symbol => exact reads_symbol symbol
  | opening => exact ⟨'(', [], rfl, rfl, fun rest _ => rfl⟩
  | closing => exact ⟨')', [], rfl, rfl, fun rest _ => rfl⟩

/-- A token that may stand in front of another is not lengthened by it. -/
theorem goesOn_of_touches {next : Kind} (whole : next.Whole) (close : touches kind next)
    (front : next.render.toList = c :: cs) : kind.goesOn c = false := by
  have unlisted {test : Char → Bool} (own : test c) (apart : "<>=&|".toList.all (!test ·)) :
      "<>=&|".toList.contains c = false := by
    refine Bool.eq_false_iff.mpr fun listed => ?_
    have other := all_eq_true.mp apart c (contains_iff_mem.mp listed)
    rw [own] at other
    cases other
  cases whole with
  | num value =>
    obtain ⟨first, more, digit, reads⟩ := reads_num value
    obtain ⟨rfl, rfl⟩ := List.cons.inj (reads.render.symm.trans front)
    cases kind with
    | opening | closing => rfl
    | symbol => exact unlisted digit (by decide)
    | num | ident | comma => cases close
  | ident isIdent =>
    obtain ⟨first, more, start, reads⟩ := reads_ident isIdent
    obtain ⟨rfl, rfl⟩ := List.cons.inj (reads.render.symm.trans front)
    cases kind with
    | opening | closing => rfl
    | symbol => exact unlisted start (by decide)
    | num | ident | comma => cases close
  | symbol =>
    cases kind with
    | opening | closing => rfl
    | symbol =>
      have isSign := (Bool.and_eq_true_iff.mp close).2
      obtain ⟨mark, found⟩ := Option.isSome_iff_exists.mp isSign
      rw [Symbol.sign?_eq_some.mp found] at front
      cases mark <;> obtain ⟨rfl, rfl⟩ := List.cons.inj front <;> rfl
    | num | ident | comma => cases close
  | opening =>
    obtain ⟨rfl, rfl⟩ := List.cons.inj front
    cases kind <;> rfl
  | closing =>
    obtain ⟨rfl, rfl⟩ := List.cons.inj front
    cases kind <;> rfl

theorem tokensFrom_of_read (solid : isWordBlank c = false)
    (read : Kind.read c (cs ++ rest) = .ok (kind, cs.length)) (start : Nat)
    (behind : tokensFrom (start + (cs.length + 1)) rest = .ok tokens) :
    tokensFrom start (c :: (cs ++ rest)) = .ok (⟨kind, start, start + (cs.length + 1)⟩ :: tokens) := by
  rw [tokensFrom, solid, if_neg Bool.false_ne_true, read]
  change (do
    let rest ← tokensFrom (start + cs.length + 1) ((cs ++ rest).drop cs.length)
    return Token.mk kind start (start + cs.length + 1) :: rest) = _
  rw [drop_left, Nat.add_assoc, behind]
  rfl

/-- Behind a token that nothing lengthens, the reading goes on. -/
theorem tokensFrom_append (whole : kind.Whole) (start : Nat) (stops : ∀ next ∈ rest.head?, kind.goesOn next = false)
    (behind : tokensFrom (start + kind.render.toList.length) rest = .ok tokens) :
    tokensFrom start (kind.render.toList ++ rest) =
      .ok (⟨kind, start, start + kind.render.toList.length⟩ :: tokens) := by
  obtain ⟨c, cs, render, solid, read⟩ := whole.exists_reads
  rw [render] at behind ⊢
  exact tokensFrom_of_read solid (read rest stops) start behind

theorem Spaced.exists_append {kinds : List Kind} (spaced : Spaced (kind :: kinds) text) :
    ∃ more, text = kind.render.toList ++ more := by
  cases spaced with
  | one => exact ⟨[], (append_nil _).symm⟩
  | blank => exact ⟨_, rfl⟩
  | tight => exact ⟨_, rfl⟩

/-- Written tokens are read back, wherever they begin. -/
theorem Spaced.tokensFrom {kinds : List Kind} (spaced : Spaced kinds text) (whole : ∀ kind ∈ kinds, kind.Whole)
    (start : Nat) : ∃ tokens, Condition.tokensFrom start text = .ok tokens ∧ tokens.map Token.kind = kinds := by
  induction spaced generalizing start with
  | nil => exact ⟨[], by rw [Condition.tokensFrom], rfl⟩
  | one kind =>
    have behind : Condition.tokensFrom (start + kind.render.toList.length) [] = .ok [] := by rw [Condition.tokensFrom]
    have stops : ∀ after ∈ ([] : List Char).head?, kind.goesOn after = false :=
      fun after found => absurd found (Option.not_mem_none after)
    have read := tokensFrom_append (whole kind mem_cons_self) start stops behind
    rw [append_nil] at read
    exact ⟨_, read, rfl⟩
  | @blank kind _ _ text _ ih =>
    obtain ⟨tokens, read, same⟩ := ih (forall_mem_cons.mp whole).2 (start + kind.render.toList.length + 1)
    have gap : Condition.tokensFrom (start + kind.render.toList.length) (' ' :: text) = .ok tokens := by
      rw [Condition.tokensFrom, if_pos (by decide), read]
    have stops : ∀ after ∈ (' ' :: text).head?, kind.goesOn after = false := by
      rintro after ⟨⟩
      cases kind <;> rfl
    exact ⟨_, tokensFrom_append (whole kind mem_cons_self) start stops gap, congrArg (kind :: ·) same⟩
  | @tight kind next _ text close rest ih =>
    have later := (forall_mem_cons.mp whole).2
    obtain ⟨tokens, read, same⟩ := ih later (start + kind.render.toList.length)
    have stops : ∀ after ∈ text.head?, kind.goesOn after = false := by
      obtain ⟨c, cs, front, -, -⟩ := (later next mem_cons_self).exists_reads
      obtain ⟨more, rfl⟩ := rest.exists_append
      rw [front]
      rintro after ⟨⟩
      exact goesOn_of_touches (later next mem_cons_self) close front
    exact ⟨_, tokensFrom_append (whole kind mem_cons_self) start stops read, congrArg (kind :: ·) same⟩

/-- Tokens that a tree is derived from are read as that tree, as far as the names in it are not defined with
parameters. -/
theorem parse_of_derives {tree : Tree} (lexed : tokensFrom 0 text = .ok tokens)
    (derived : Derives .conditional (tokens.map Token.kind) tree)
    (plain : ∀ name ∈ tree.names, Source.Plain ⟨text, table⟩ name) : parse table text = .ok tree := by
  have comes := derived.comes plain
  have admits : Admits 0 .conditional := admits_conditional (by decide)
  have reads := comes.whole admits rfl (ends_nil .conditional)
  rw [append_nil] at reads
  obtain ⟨shorter, read⟩ := reads
  cases tokens with
  | nil => cases shorter
  | cons => rw [parse, lexed]; simp only [read]

theorem evaluate_of_parse {tree : Tree} (parsed : parse table text = .ok tree) :
    evaluate table text = (tree.eval table (evalWithin table 32)).map Value.truthy := by
  rw [evaluate, maxLevels, evalWithin, parsed]
  rfl

end ScriptLint.Condition
