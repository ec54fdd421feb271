import Mathlib.Data.List.Infix
import Mathlib.Data.List.TakeWhile
import ScriptLint.Proofs.ConditionText
import ScriptLint.Proofs.TextEnds

/-!
# Bodies that are literals

A name whose body is one literal has its value without the body being read as a condition. Two readers meet here: the
one of literals, and the one of conditions. On numbers they agree. The words in capitals are literals only in a body; in
a condition they are names like any other.
-/

namespace ScriptLint.Number

open Text List

variable {cs : List Char}

/-- What is read as a number without a sign has digits, and nothing else. -/
theorem all_of_readNat? {base n : Nat} {cs : List Char} (read : readNat? base cs = some n) :
    ∀ c ∈ cs, isHexDigit c ∧ (base ≠ 16 → isDigit c) := by
  intro c found
  obtain ⟨valid, -⟩ := Option.ite_none_left_eq_some.mp read
  rw [Bool.not_eq_true, Bool.or_eq_false_iff, Bool.not_eq_false', all_eq_true] at valid
  have own := valid.2 c found
  split at own
  · next sixteen => exact ⟨own, fun other => absurd (beq_iff_eq.mp sixteen) other⟩
  · have digit := (Bool.and_eq_true_iff.mp own).1
    exact ⟨Condition.isHexDigit_of_isDigit digit, fun _ => digit⟩

/-- A number with an optional sign: the sign, and then digits. -/
theorem exists_of_readInt? {base : Nat} {n : Int} {cs : List Char} (read : readInt? base cs = some n) :
    ∃ sign digits, cs = sign ++ digits ∧ (sign = [] ∨ sign = ['+'] ∨ sign = ['-']) ∧
      ∃ m, readNat? base digits = some m := by
  rw [readInt?.eq_def] at read
  split at read
  all_goals
    obtain ⟨whole, number, -⟩ := Option.map_eq_some_iff.mp read
    obtain ⟨m, natural, -⟩ := Option.bind_eq_some_iff.mp number
  · exact ⟨['-'], _, rfl, .inr (.inr rfl), m, natural⟩
  · exact ⟨['+'], _, rfl, .inr (.inl rfl), m, natural⟩
  · exact ⟨[], _, rfl, .inl rfl, m, natural⟩

theorem all_of_readInt64? {base : Nat} {n : Int64} {cs : List Char} (read : readInt64? base cs = some n)
    (unsigned : ∀ c ∈ cs.head?, c ≠ '+' ∧ c ≠ '-') :
    ∀ c ∈ cs, isHexDigit c ∧ (base ≠ 16 → isDigit c) := by
  obtain ⟨whole, integer, -⟩ := Option.bind_eq_some_iff.mp read
  obtain ⟨sign, plain, rfl, rfl | rfl | rfl, m, natural⟩ := exists_of_readInt? integer
  · exact all_of_readNat? natural
  · exact absurd rfl (unsigned '+' rfl).1
  · exact absurd rfl (unsigned '-' rfl).2

/-- A decimal is digits with at most one point among them, and an exponent. One that begins with its point goes on with
a digit. -/
theorem Decimal.exists_of_read? {value : Decimal} (read : Decimal.read? cs = some value) :
    (∃ front exponent, cs = front ++ exponent ∧ (∀ c ∈ front, isDigit c ∨ c = '.') ∧
      ∃ n, readExponent? exponent = some n) ∧ ∀ rest, cs = '.' :: rest → rest.head?.any isDigit := by
  have whole : ∀ c ∈ cs.takeWhile isDigit, isDigit c := fun c found => mem_takeWhile_imp found
  have parts := takeWhile_append_dropWhile (p := isDigit) (l := cs)
  simp only [Decimal.read?] at read
  split at read
  · next rest behind =>
    obtain ⟨filled, same⟩ := Option.ite_none_left_eq_some.mp read
    obtain ⟨n, exponent, -⟩ := Option.map_eq_some_iff.mp same
    refine ⟨⟨cs.takeWhile isDigit ++ '.' :: rest.takeWhile isDigit, _, ?_, ?_, n, exponent⟩, ?_⟩
    · rw [append_assoc, cons_append, takeWhile_append_dropWhile, ← behind, parts]
    · intro c found
      rcases mem_append.mp found with left | right
      · exact .inl (whole c left)
      · rcases mem_cons.mp right with point | right
        · exact .inr point
        · exact .inl (mem_takeWhile_imp right)
    · rintro more rfl
      obtain rfl : more = rest := (List.cons.inj ((dropWhile_cons_of_neg (by decide)).symm.trans behind)).2
      cases more with
      | nil => exact absurd rfl filled
      | cons d more =>
        by_contra noDigit
        have nothing : (d :: more).takeWhile isDigit = [] := takeWhile_cons_of_neg noDigit
        rw [nothing] at filled
        exact absurd rfl filled
  · obtain ⟨filled, same⟩ := Option.ite_none_left_eq_some.mp read
    obtain ⟨n, exponent, -⟩ := Option.map_eq_some_iff.mp same
    refine ⟨⟨cs.takeWhile isDigit, _, parts.symm, fun c found => .inl (whole c found), n, exponent⟩, ?_⟩
    rintro more rfl
    exact absurd rfl filled

end ScriptLint.Number

namespace ScriptLint.Macro.Value

open Text List

variable {text : List Char} {value : Value}

/-- The ways to write a number without its sign. -/
theorem magnitude?_cases (read : magnitude? text = some value) :
    (∃ mark digits n, (mark = 'x' ∨ mark = 'X') ∧ text = '0' :: mark :: digits ∧
      Number.readInt64? 16 digits = some n ∧ value = .int n) ∨
    (∃ n, (text ≠ [] ∧ ∀ c ∈ text, isDigit c) ∧ Number.readInt64? 10 text = some n ∧ value = .int n) ∨
    ∃ c cs decimal, text = c :: cs ∧ (isDigit c ∨ c = '.') ∧ text.all isDigit = false ∧
      (∀ d ∈ text, isDecimalPart d) ∧ Number.Decimal.read? text = some decimal ∧
      value = .float decimal.toFloat := by
  rw [magnitude?.eq_def] at read
  split at read
  · next digits =>
    obtain ⟨n, number, rfl⟩ := Option.map_eq_some_iff.mp read
    exact .inl ⟨'x', digits, n, .inl rfl, rfl, number, rfl⟩
  · next digits =>
    obtain ⟨n, number, rfl⟩ := Option.map_eq_some_iff.mp read
    exact .inl ⟨'X', digits, n, .inr rfl, rfl, number, rfl⟩
  · cases read
  · next c cs _ _ =>
    split at read
    · next all =>
      obtain ⟨n, number, rfl⟩ := Option.map_eq_some_iff.mp read
      exact .inr (.inl ⟨n, ⟨cons_ne_nil c cs, all_eq_true.mp all⟩, number, rfl⟩)
    · next mixed =>
      obtain ⟨parts, read⟩ := Option.ite_none_right_eq_some.mp read
      obtain ⟨decimal, number, rfl⟩ := Option.map_eq_some_iff.mp read
      rw [Bool.and_eq_true, all_eq_true, Bool.or_eq_true, beq_iff_eq] at parts
      exact .inr (.inr ⟨c, cs, decimal, rfl, parts.2, Bool.not_eq_true _ ▸ mixed, parts.1, number, rfl⟩)

/-- A number, or a minus sign before one, perhaps with white space between them. -/
theorem number?_cases (read : number? text = some value) :
    magnitude? text = some value ∨ ∃ gap digits opposite, text = '-' :: (gap ++ digits) ∧
      (∀ c ∈ gap, isWhite c) ∧ magnitude? digits = some opposite ∧ value = opposite.negate := by
  rw [number?.eq_def] at read
  split at read
  · next cs =>
    obtain ⟨opposite, number, rfl⟩ := Option.map_eq_some_iff.mp read
    refine .inr ⟨cs.takeWhile isWhite, trimStart cs, opposite, ?_, ?_, number, rfl⟩
    · rw [trimStart, takeWhile_append_dropWhile]
    · exact fun c found => mem_takeWhile_imp found
  · exact .inl read

/-- The words for the truth values in a body. -/
def words : List (String × Bool) :=
  [("TRUE", true), ("true", true), ("FALSE", false), ("false", false)]

/-- A literal that is no text is a word or a number. -/
theorem ofTrimmed?_cases (read : ofTrimmed? text = some value) (noText : ∀ inner, value ≠ .str inner) :
    (∃ word truth, (word, truth) ∈ words ∧ text = word.toList ∧ value = .bool truth) ∨ number? text = some value := by
  have known {word : String} {truth : Bool} (listed : (word, truth) ∈ words) (same : String.ofList text = word)
      (read : some (.bool truth) = some value) :
      ∃ word truth, (word, truth) ∈ words ∧ text = word.toList ∧ value = .bool truth :=
    ⟨word, truth, listed, by rw [← same, String.toList_ofList], (Option.some.inj read).symm⟩
  rw [ofTrimmed?.eq_def] at read
  split at read
  · cases read
  · next same => exact .inl (known (by decide) same read)
  · next same => exact .inl (known (by decide) same read)
  · next same => exact .inl (known (by decide) same read)
  · next same => exact .inl (known (by decide) same read)
  · obtain ⟨-, quoted⟩ := Option.ite_none_right_eq_some.mp read
    obtain ⟨-, same⟩ := Option.ite_none_left_eq_some.mp quoted
    cases same
    exact absurd rfl (noText _)
  · exact .inr read

end ScriptLint.Macro.Value

namespace ScriptLint.Condition

open Text List

/-! ## Numbers as tokens -/

variable {c : Char} {rest cs text tail lead : List Char} {value : Value} {name body : String}

theorem isNumberPart_of_isHexDigit (digit : isHexDigit c) : isNumberPart c := by
  simp only [isHexDigit, isDigit, Bool.or_eq_true, Bool.and_eq_true, decide_eq_true_eq] at digit
  simp only [isNumberPart, isLetter, isDigit, Bool.or_eq_true, Bool.and_eq_true, decide_eq_true_eq]
  obtain (number | ⟨low, high⟩) | ⟨low, high⟩ := digit
  · exact .inl (.inr number)
  · exact .inl (.inl (.inl ⟨low, Char.le_trans high (show 'f' ≤ 'z' by decide)⟩))
  · exact .inl (.inl (.inr ⟨low, Char.le_trans high (show 'F' ≤ 'Z' by decide)⟩))

/-- Letters, digits and points belong to a number, if no sign stands behind them. -/
theorem numberLength_append (hex : Bool) {front : List Char} (parts : ∀ c ∈ front, isNumberPart c)
    (unsigned : ∀ c ∈ rest.head?, c ≠ '+' ∧ c ≠ '-') :
    numberLength hex (front ++ rest) = front.length + numberLength hex rest := by
  induction front with
  | nil => rw [nil_append, length_nil, Nat.zero_add]
  | cons c front ih =>
    have part := parts c mem_cons_self
    have later := fun c found => parts c (mem_cons_of_mem _ found)
    rw [cons_append, length_cons, Nat.add_right_comm, ← ih later]
    cases order : front ++ rest with
    | nil =>
      change (if isNumberPart c then 1 else 0) = 1
      rw [if_pos part]
    | cons next =>
      have noSign : (next == '+' || next == '-') = false := by
        cases front with
        | nil =>
          obtain ⟨plus, minus⟩ := unsigned next (by rw [← nil_append rest, order]; rfl)
          rw [beq_eq_false_iff_ne.mpr plus, beq_eq_false_iff_ne.mpr minus, Bool.or_self]
        | cons other =>
          obtain rfl : other = next := (List.cons.inj order).1
          have own := later other mem_cons_self
          rw [beq_of_apart '+' own (by decide), beq_of_apart '-' own (by decide), Bool.or_self]
      rw [numberLength, noSign, Bool.and_false, if_neg Bool.false_ne_true, if_pos part]

/-- Nothing follows, or a blank does. -/
def Apart (rest : List Char) : Prop :=
  ∀ c ∈ rest.head?, isWordBlank c = true

theorem Apart.ne (apart : Apart rest) (found : c ∈ rest.head?) (other : Char) (solid : isWordBlank other = false) :
    c ≠ other := by
  rintro rfl
  exact Bool.false_ne_true (solid.symm.trans (apart c found))

theorem isNumberPart_of_isWordBlank (blank : isWordBlank c) : isNumberPart c = false := by
  simp only [isWordBlank, Bool.or_eq_true, beq_iff_eq] at blank
  rcases blank with (((rfl | rfl) | rfl) | rfl) | rfl <;> decide

/-- A text is one number, if it stands apart from what follows. -/
structure IsNumber (c : Char) (cs : List Char) (value : Value) : Prop where
  starts : isDigit c = true ∨ c = '.'
  read : ∀ rest, Apart rest → Kind.read c (cs ++ rest) = .ok (.num value, cs.length)

theorem IsNumber.of_length (starts : isDigit c ∨ c = '.' ∧ cs.head?.any isDigit)
    (length : ∀ rest, Apart rest →
      numberLength (c == '0' && (cs ++ rest).head? == some 'x') (c :: (cs ++ rest)) = cs.length + 1)
    (number : Value.read? (c :: cs) = some value) : IsNumber c cs value where
  starts := starts.imp_right And.left
  read := by
    intro rest apart
    refine Kind.read_number ?_ (length rest apart) number
    obtain digit | ⟨rfl, digit⟩ := starts
    · rw [digit, Bool.true_or]
    · cases cs with
      | nil => cases digit
      | cons => exact (Bool.or_eq_true _ _).mpr (.inr digit)

theorem IsNumber.of_parts (starts : isDigit c ∨ c = '.' ∧ cs.head?.any isDigit)
    (parts : ∀ d ∈ c :: cs, isNumberPart d) (number : Value.read? (c :: cs) = some value) :
    IsNumber c cs value := by
  refine .of_length starts (fun rest apart => ?_) number
  have unsigned : ∀ d ∈ rest.head?, d ≠ '+' ∧ d ≠ '-' := fun d found =>
    ⟨apart.ne found '+' (by decide), apart.ne found '-' (by decide)⟩
  rw [← cons_append, numberLength_append _ parts unsigned,
    numberLength_of_stops _ fun c found => isNumberPart_of_isWordBlank (apart c found), Nat.add_zero, length_cons]

theorem isNumber_hexadecimal {mark : Char} (marked : mark = 'x' ∨ mark = 'X') {digits : List Char} {n : Int64}
    (unsigned : ∀ c ∈ digits.head?, c ≠ '+' ∧ c ≠ '-') (read : Number.readInt64? 16 digits = some n) :
    IsNumber '0' (mark :: digits) (.int n) := by
  have all := fun c found => (Number.all_of_readInt64? read unsigned c found).1
  refine .of_parts (.inl (by decide)) (forall_mem_cons.mpr ⟨by decide, forall_mem_cons.mpr ⟨?_, ?_⟩⟩) ?_
  · obtain rfl | rfl := marked <;> decide
  · exact fun c found => isNumberPart_of_isHexDigit (all c found)
  · have noSuffix : ∀ c ∈ '0' :: mark :: digits, Value.isSuffix c = false := by
      refine forall_mem_cons.mpr ⟨by decide, forall_mem_cons.mpr ⟨?_, ?_⟩⟩
      · obtain rfl | rfl := marked <;> decide
      · exact fun c found => Value.isSuffix_of_isHexDigit (all c found)
    rw [Value.read?, trimEndWhile_of_all noSuffix]
    obtain rfl | rfl := marked
    · simp only [read, Option.map_some]
    · simp only [read, Option.map_some]

theorem isNumber_digits {n : Int64} (all : ∀ d ∈ c :: cs, isDigit d)
    (read : Number.readInt64? 10 (c :: cs) = some n) : IsNumber c cs (.int n) := by
  refine .of_parts (.inl (all c mem_cons_self)) (fun d found => ?_) ?_
  · exact isNumberPart_of_isHexDigit (isHexDigit_of_isDigit (all d found))
  · have noMark {mark : Char} (other : isDigit mark = false) : mark ∉ c :: cs := fun found =>
      Bool.false_ne_true (other.symm.trans (all mark found))
    have noSuffix : ∀ d ∈ c :: cs, Value.isSuffix d = false := fun d found =>
      Value.isSuffix_of_isHexDigit (isHexDigit_of_isDigit (all d found))
    rw [Value.read?_of_unmarked noSuffix ⟨noMark (by decide), noMark (by decide)⟩, read]

/-- A sign right behind the letter of an exponent belongs to the number. -/
theorem numberLength_exponent {front digits : List Char} {letter sign : Char}
    (parts : ∀ c ∈ front, isNumberPart c) (isLetter : letter = 'e' ∨ letter = 'E')
    (isSign : sign = '+' ∨ sign = '-') (all : ∀ c ∈ digits, isDigit c) (apart : Apart rest) :
    numberLength false (front ++ letter :: sign :: (digits ++ rest)) = front.length + (digits.length + 2) := by
  have stops : ∀ c ∈ rest.head?, isNumberPart c = false := fun c found => isNumberPart_of_isWordBlank (apart c found)
  rw [numberLength_append false parts]
  · rw [numberLength, numberLength_digits false all stops]
    obtain rfl | rfl := isLetter <;> obtain rfl | rfl := isSign <;> rfl
  · rintro c ⟨⟩
    obtain rfl | rfl := isLetter <;> decide

theorem Value.read?_decimal {decimal : Number.Decimal} (starts : isDigit c ∨ c = '.')
    (mixed : (c :: cs).all isDigit = false) (parts : ∀ d ∈ c :: cs, Macro.Value.isDecimalPart d)
    (read : Number.Decimal.read? (c :: cs) = some decimal) : Value.read? (c :: cs) = some (.float decimal.toFloat) := by
  have outside {other : Char} (noPart : Macro.Value.isDecimalPart other = false) {d : Char} (found : d ∈ c :: cs) :
      (d == other) = false := beq_of_apart other (parts d found) noPart
  have noSuffix : ∀ d ∈ c :: cs, isSuffix d = false := by
    intro d found
    rw [isSuffix, outside (by decide) found, outside (by decide) found, outside (by decide) found,
      outside (by decide) found]
    rfl
  have noF : ∀ d ∈ c :: cs, (d == 'f' || d == 'F') = false := by
    intro d found
    rw [outside (by decide) found, outside (by decide) found, Bool.or_self]
  have unmarked {mark : Char} (noPart : Macro.Value.isDecimalPart mark = false) : mark ∉ c :: cs := fun found =>
    Bool.false_ne_true (noPart.symm.trans (parts mark found))
  have noInteger : Number.readInt64? 10 (c :: cs) = none := by
    by_contra some_
    obtain ⟨n, integer⟩ := Option.ne_none_iff_exists'.mp some_
    have unsigned : ∀ d ∈ (c :: cs).head?, d ≠ '+' ∧ d ≠ '-' := by
      rintro d ⟨⟩
      exact ⟨fun plus => absurd (plus ▸ starts) (by decide), fun minus => absurd (minus ▸ starts) (by decide)⟩
    refine Bool.false_ne_true (mixed.symm.trans (all_eq_true.mpr fun d found => ?_))
    exact (Number.all_of_readInt64? integer unsigned d found).2 (by decide)
  rw [read?_of_unmarked noSuffix ⟨unmarked (by decide), unmarked (by decide)⟩, noInteger, trimEndWhile_of_all noF, read]
  rfl

theorem isNumber_decimal {decimal : Number.Decimal} (starts : isDigit c ∨ c = '.')
    (mixed : (c :: cs).all isDigit = false) (parts : ∀ d ∈ c :: cs, Macro.Value.isDecimalPart d)
    (read : Number.Decimal.read? (c :: cs) = some decimal) : IsNumber c cs (.float decimal.toFloat) := by
  have number := Value.read?_decimal starts mixed parts read
  obtain ⟨⟨front, exponent, same, digits, n, behind⟩, point⟩ := Number.Decimal.exists_of_read? read
  have begins : isDigit c ∨ c = '.' ∧ cs.head?.any isDigit :=
    starts.imp_right fun dot => ⟨dot, point cs (dot ▸ rfl)⟩
  have own : ∀ d ∈ front, isNumberPart d := by
    intro d found
    rcases digits d found with digit | rfl
    · exact isNumberPart_of_isHexDigit (isHexDigit_of_isDigit digit)
    · decide
  cases exponent with
  | nil =>
    rw [append_nil] at same
    exact .of_parts begins (same ▸ own) number
  | cons letter =>
    obtain ⟨isLetter, integer⟩ := Option.ite_none_right_eq_some.mp behind
    rw [Bool.or_eq_true, beq_iff_eq, beq_iff_eq] at isLetter
    obtain ⟨sign, figures, rfl, isSign, m, natural⟩ := Number.exists_of_readInt? integer
    have all : ∀ d ∈ figures, isDigit d := fun d found =>
      (Number.all_of_readNat? natural d found).2 (by decide)
    have signed {mark : Char} (marked : mark = '+' ∨ mark = '-') (same : c :: cs = front ++ letter :: mark :: figures) :
        IsNumber c cs (.float decimal.toFloat) := by
      refine .of_length begins (fun rest apart => ?_) number
      have noHex : (c == '0' && (cs ++ rest).head? == some 'x') = false := by
        rw [Bool.and_eq_false_iff, beq_eq_false_iff_ne, beq_eq_false_iff_ne]
        refine .inr fun found => ?_
        cases cs with
        | nil => exact apart.ne found 'x' (by decide) rfl
        | cons =>
          rw [Option.some.inj found] at parts
          exact absurd (parts 'x' (mem_cons_of_mem _ mem_cons_self)) (by decide)
      have size : cs.length + 1 = front.length + (figures.length + 2) := by
        rw [← length_cons (a := c), same, length_append, length_cons, length_cons]
      rw [noHex, size, ← numberLength_exponent own isLetter marked all apart, ← cons_append, same,
        append_assoc]
      rfl
    rcases isSign with rfl | rfl | rfl
    · refine .of_parts begins (same ▸ forall_mem_append.mpr ⟨own, forall_mem_cons.mpr ⟨?_, ?_⟩⟩) number
      · obtain rfl | rfl := isLetter <;> decide
      · exact fun d found => isNumberPart_of_isHexDigit (isHexDigit_of_isDigit (all d found))
    · exact signed (.inl rfl) same
    · exact signed (.inr rfl) same

/-- No sign stands right behind the mark of a base. -/
def Unsigned (text : List Char) : Prop :=
  ∀ mark ∈ ['x', 'X'], ∀ sign ∈ ['+', '-'], ¬[mark, sign] <:+: text

instance : DecidablePred Unsigned := fun text =>
  decidable_of_iff ((['x', 'X'].all fun mark => ['+', '-'].all fun sign => !decide ([mark, sign] <:+: text)) = true)
    (by simp [Unsigned])

theorem Unsigned.of_infix {part : List Char} (unsigned : Unsigned text) (inside : part <:+: text) : Unsigned part :=
  fun mark marked sign signed found => unsigned mark marked sign signed (found.trans inside)

/-- The reader of conditions takes a number for what the reader of literals does. -/
theorem exists_isNumber {value : Macro.Value} (read : Macro.Value.magnitude? text = some value)
    (unsigned : Unsigned text) : ∃ c cs, text = c :: cs ∧ IsNumber c cs (.ofLiteral value) ∧
      Sign.minus.apply (.ofLiteral value) = .ok (.ofLiteral value.negate) := by
  obtain ⟨mark, digits, n, marked, rfl, number, rfl⟩ | ⟨n, ⟨filled, all⟩, number, rfl⟩ |
    ⟨c, cs, decimal, rfl, starts, mixed, parts, number, rfl⟩ := Macro.Value.magnitude?_cases read
  · refine ⟨'0', mark :: digits, rfl, isNumber_hexadecimal marked (fun c found => ?_) number, rfl⟩
    cases digits with
    | nil => cases found
    | cons d digits =>
      obtain rfl : d = c := Option.some.inj found
      have noSign (sign : Char) (signed : sign ∈ ['+', '-']) : d ≠ sign := by
        rintro rfl
        refine unsigned mark (by simpa using marked) d signed ⟨['0'], digits, rfl⟩
      exact ⟨noSign '+' (by decide), noSign '-' (by decide)⟩
  · obtain ⟨c, cs, rfl⟩ := exists_cons_of_ne_nil filled
    exact ⟨c, cs, rfl, isNumber_digits all number, rfl⟩
  · exact ⟨c, cs, rfl, isNumber_decimal starts mixed parts number, rfl⟩

/-! ## Conditions of one literal -/

/-- Nothing but what a condition skips. -/
def Blank (gap : List Char) : Prop :=
  ∀ c ∈ gap, isWordBlank c = true

theorem tokensFrom_blanks {gap : List Char} (blank : Blank gap) (start : Nat) (text : List Char) :
    tokensFrom start (gap ++ text) = tokensFrom (start + gap.length) text := by
  induction gap generalizing start with
  | nil => rfl
  | cons c _ ih =>
    rw [cons_append, tokensFrom, if_pos (blank c mem_cons_self),
      ih (fun d found => blank d (mem_cons_of_mem _ found)), length_cons, Nat.add_assoc, Nat.add_comm 1]

theorem tokensFrom_of_blank (blank : Blank tail) (start : Nat) : tokensFrom start tail = .ok [] := by
  have read := tokensFrom_blanks blank start []
  rw [append_nil] at read
  rw [read, tokensFrom]

theorem IsNumber.solid (number : IsNumber c cs value) : isWordBlank c = false := by
  refine Bool.eq_false_iff.mpr fun blank => ?_
  obtain digit | rfl := number.starts
  · have part := isNumberPart_of_isHexDigit (isHexDigit_of_isDigit digit)
    exact Bool.false_ne_true ((isNumberPart_of_isWordBlank blank).symm.trans part)
  · cases blank

theorem IsNumber.noSign (number : IsNumber c cs value) : "<>=&|".toList.contains c = false := by
  refine Bool.eq_false_iff.mpr fun listed => ?_
  have others : "<>=&|".toList.all (fun d => !isDigit d && d != '.') := by decide
  have other := all_eq_true.mp others c (contains_iff_mem.mp listed)
  rw [Bool.and_eq_true, Bool.not_eq_true', bne_iff_ne] at other
  obtain digit | point := number.starts
  · exact Bool.false_ne_true (other.1.symm.trans digit)
  · exact other.2 point

theorem Kind.goesOn_of_isWordBlank (kind : Kind) (blank : isWordBlank c) : kind.goesOn c = false := by
  simp only [isWordBlank, Bool.or_eq_true, beq_iff_eq] at blank
  rcases blank with (((rfl | rfl) | rfl) | rfl) | rfl <;> cases kind <;> rfl

theorem IsNumber.tokensFrom (number : IsNumber c cs value) (blank : Blank tail) (start : Nat) :
    Condition.tokensFrom start (c :: (cs ++ tail)) = .ok [⟨.num value, start, start + (cs.length + 1)⟩] :=
  tokensFrom_of_read number.solid (number.read tail fun c found => blank c (mem_of_mem_head? found)) start
    (tokensFrom_of_blank blank _)

theorem evaluate_number (table : Macro.Table) (before : Blank lead) (behind : Blank tail)
    (number : IsNumber c cs value) :
    evaluate table (lead ++ (c :: cs ++ tail)) = .ok value.truthy := by
  have lexed := (tokensFrom_blanks before 0 (c :: (cs ++ tail))).trans (number.tokensFrom behind _)
  have parsed : parse table (lead ++ (c :: (cs ++ tail))) = .ok (.num value) :=
    parse_of_derives lexed (.loosen (.num value) (by decide)) (forall_mem_nil _)
  exact (evaluate_of_parse parsed).trans rfl

theorem evaluate_negative (table : Macro.Table) {gap : List Char} (before : Blank lead) (between : Blank gap)
    (behind : Blank tail) (number : IsNumber c cs value) :
    evaluate table (lead ++ ('-' :: (gap ++ c :: cs) ++ tail)) = (Sign.minus.apply value).map Value.truthy := by
  have stops : ∀ next ∈ (gap ++ c :: (cs ++ tail)).head?, (Kind.symbol (.binary .sub)).goesOn next = false := by
    intro next found
    cases gap with
    | nil =>
      obtain rfl : c = next := Option.some.inj found
      exact number.noSign
    | cons d =>
      obtain rfl : d = next := Option.some.inj found
      exact Kind.goesOn_of_isWordBlank _ (between d mem_cons_self)
  have minus : Kind.read '-' ([] ++ (gap ++ c :: (cs ++ tail))) = .ok (.symbol (.binary .sub), 0) := by
    obtain ⟨first, more, render, -, read⟩ := reads_symbol (.binary .sub)
    obtain ⟨rfl, rfl⟩ := List.cons.inj (render : ['-'] = first :: more)
    exact read _ stops
  have digits := fun start => (tokensFrom_blanks between start (c :: (cs ++ tail))).trans (number.tokensFrom behind _)
  have lexed := (tokensFrom_blanks before 0 _).trans (tokensFrom_of_read (by decide) minus _ (digits _))
  have shape : lead ++ ('-' :: (gap ++ c :: cs) ++ tail) = lead ++ '-' :: ([] ++ (gap ++ c :: (cs ++ tail))) := by simp
  have parsed : parse table (lead ++ ('-' :: (gap ++ c :: cs) ++ tail)) = .ok (.unary .minus (.num value)) := by
    rw [shape]
    refine parse_of_derives lexed (.loosen (.sign .minus (.loosen (.num value) (by decide))) (by decide)) ?_
    exact forall_mem_nil _
  exact (evaluate_of_parse parsed).trans rfl

/-- A lone name is read as itself, also if it is defined with parameters. -/
theorem parse_name (table : Macro.Table) {start stop : Nat}
    (lexed : tokensFrom 0 text = .ok [⟨.ident name, start, stop⟩]) (free : name ≠ "defined") :
    parse table text = .ok (.ident name) := by
  have operand : ReadsOperand ⟨text, table⟩ [⟨.ident name, start, stop⟩] (.ident name) [] := by
    refine ⟨Nat.zero_lt_one, ?_⟩
    rw [Tree.readOperand.eq_def]
    simp only [Tree.readName, startsWithOpening, head?_nil, Option.any_none, Bool.and_false, Bool.false_eq_true,
      if_false]
  have admits : Admits 0 .conditional := admits_conditional (by decide)
  have stays : Climbs ⟨text, table⟩ 0 (.ident name) [] (.ident name) [] :=
    (climbs_of_ends admits (ends_nil .conditional)).mpr ⟨rfl, rfl⟩
  obtain ⟨shorter, read⟩ := reads_iff.mpr ⟨_, _, operand, stays⟩
  rw [parse, lexed]
  simp only [read]

theorem evaluate_padded_name (table : Macro.Table) (before : Blank lead) (behind : Blank tail)
    (ident : isIdent name.toList) (free : name ≠ "defined") :
    evaluate table (lead ++ (name.toList ++ tail)) =
      (evalName table (evalWithin table 32) name).map Value.truthy := by
  have stops : ∀ next ∈ tail.head?, (Kind.ident name).goesOn next = false := fun next found =>
    Kind.goesOn_of_isWordBlank _ (behind next (mem_of_mem_head? found))
  have lexed := (tokensFrom_blanks before 0 _).trans
    (tokensFrom_append (.ident ident) _ stops (tokensFrom_of_blank behind _))
  exact (evaluate_of_parse (parse_name table lexed free)).trans rfl

theorem evaluate_name (table : Macro.Table) (ident : isIdent name.toList) (free : name ≠ "defined") :
    evaluate table name.toList = (evalName table (evalWithin table 32) name).map Value.truthy := by
  have nothing : Blank [] := forall_mem_nil _
  have padded := evaluate_padded_name table nothing nothing ident free
  rwa [append_nil] at padded

/-- A name without a definition fails as a condition. -/
theorem evaluate_unlisted {table : Macro.Table} (ident : isIdent name.toList) (free : name ≠ "defined")
    (noTruth : name ≠ "true" ∧ name ≠ "false") (unlisted : table.get? name = none) :
    evaluate table name.toList = .ok false := by
  rw [evaluate_name table ident free, evalName, if_neg (mt beq_iff_eq.mp noTruth.1),
    if_neg (mt beq_iff_eq.mp noTruth.2), unlisted]
  rfl

/-- A name whose body is a literal is worth that literal. -/
theorem evalName_of_literal {table : Macro.Table} {entry : Macro} {literal : Macro.Value}
    (listed : table.get? name = some entry) (object : entry.definition = .object body)
    (parsed : Macro.Value.parse? body = some literal) (noTruth : name ≠ "true" ∧ name ≠ "false")
    (nested : List Char → Except Error Value) : evalName table nested name = .ok (.ofLiteral literal) := by
  rw [evalName, if_neg (mt beq_iff_eq.mp noTruth.1), if_neg (mt beq_iff_eq.mp noTruth.2), listed, Option.map_some,
    object]
  simp only [parsed]

theorem evaluate_of_number? (table : Macro.Table) {value : Macro.Value} (read : Macro.Value.number? text = some value)
    (unsigned : Unsigned text)
    (blanks : ∀ c ∈ lead ++ (text ++ tail), isWhite c → isWordBlank c)
    (before : ∀ c ∈ lead, isWhite c) (behind : ∀ c ∈ tail, isWhite c) :
    evaluate table (lead ++ (text ++ tail)) = .ok (Value.ofLiteral value).truthy := by
  rw [forall_mem_append, forall_mem_append] at blanks
  obtain ⟨leads, inside, tails⟩ := blanks
  have left : Blank lead := fun c found => leads c found (before c found)
  have right : Blank tail := fun c found => tails c found (behind c found)
  obtain plain | ⟨gap, digits, opposite, rfl, white, plain, rfl⟩ := Macro.Value.number?_cases read
  · obtain ⟨c, cs, rfl, number, -⟩ := exists_isNumber plain unsigned
    exact evaluate_number table left right number
  · have part : digits <:+: '-' :: (gap ++ digits) := ⟨'-' :: gap, [], by rw [append_nil, cons_append]⟩
    obtain ⟨c, cs, rfl, number, opposed⟩ := exists_isNumber plain (unsigned.of_infix part)
    have between : Blank gap := fun c found =>
      inside c (mem_cons_of_mem _ (mem_append_left _ found)) (white c found)
    rw [evaluate_negative table left between right number, opposed]
    rfl

theorem blanks_of_all (all : body.toList.all (fun c => !isWhite c || isWordBlank c)) :
    ∀ c ∈ body.toList, isWhite c → isWordBlank c := by
  simpa [← Bool.not_eq_true, ← imp_iff_not_or] using all

/-- A body that is one word is worth what the word is. -/
theorem evaluate_word_body (table : Macro.Table) {word : String}
    (blanks : ∀ c ∈ body.toList, isWhite c → isWordBlank c)
    (trimmed : trim body.toList = word.toList) (ident : isIdent word.toList) (free : word ≠ "defined") :
    evaluate table body.toList = evaluate table word.toList := by
  obtain ⟨lead, tail, same, before, behind⟩ := exists_append_trim body.toList
  rw [trimmed] at same
  rw [same, forall_mem_append, forall_mem_append] at blanks
  rw [evaluate_name table ident free, same]
  exact evaluate_padded_name table (fun c found => blanks.1 c found (before c found))
    (fun c found => blanks.2.2 c found (behind c found)) ident free

/-- A body that is a literal is worth it as a condition too, the words in capitals apart. -/
theorem evaluate_body_of_parse? (table : Macro.Table) {literal : Macro.Value}
    (parsed : Macro.Value.parse? body = some literal) (noText : ∀ inner, literal ≠ .str inner)
    (blanks : ∀ c ∈ body.toList, isWhite c → isWordBlank c) (unsigned : Unsigned body.toList)
    (other : trimString body ≠ "TRUE" ∧ trimString body ≠ "FALSE") :
    evaluate table body.toList = .ok (Value.ofLiteral literal).truthy := by
  obtain ⟨word, truth, known, trimmed, rfl⟩ | number := Macro.Value.ofTrimmed?_cases parsed noText
  · have string : trimString body = word := by rw [trimString, trimmed, String.ofList_toList]
    rw [string] at other
    simp only [Macro.Value.words, mem_cons, Prod.mk.injEq, not_mem_nil, or_false] at known
    rcases known with ⟨rfl, rfl⟩ | ⟨rfl, rfl⟩ | ⟨rfl, rfl⟩ | ⟨rfl, rfl⟩
    · exact absurd rfl other.1
    · rw [evaluate_word_body table blanks trimmed (by decide) (by decide)]
      exact evaluate_name table (by decide) (by decide)
    · exact absurd rfl other.2
    · rw [evaluate_word_body table blanks trimmed (by decide) (by decide)]
      exact evaluate_name table (by decide) (by decide)
  · obtain ⟨lead, tail, same, before, behind⟩ := exists_append_trim body.toList
    have part : trim body.toList <:+: body.toList := ⟨lead, tail, by rw [append_assoc, ← same]⟩
    have value := evaluate_of_number? table number (unsigned.of_infix part) (same ▸ blanks) before behind
    rwa [← same] at value

/-- A name whose body is a literal is worth what the body is as a condition. White space in the body is taken to be what
a condition skips, and the mark of a base to have no sign behind it. The words `TRUE` and `FALSE` are literals in the
body alone, and the names of the truth values are worth these whatever their bodies are. -/
theorem evaluate_literal_body {table : Macro.Table} {name body : String} {entry : Macro} {literal : Macro.Value}
    (listed : table.get? name = some entry) (object : entry.definition = .object body)
    (ident : Text.isIdent name.toList = true) (free : name ≠ "defined")
    (parsed : Macro.Value.parse? body = some literal) (noText : ∀ inner, literal ≠ .str inner)
    (blanks : ∀ c ∈ body.toList, Text.isWhite c = true → Text.isWordBlank c = true) (unsigned : Unsigned body.toList) :
    (name ≠ "true" ∧ name ≠ "false" →
      evaluate table name.toList = .ok (Value.ofLiteral literal).truthy ∧
      (Text.trimString body ≠ "TRUE" ∧ Text.trimString body ≠ "FALSE" →
        evaluate table name.toList = evaluate table body.toList) ∧
      ∀ word ∈ ["TRUE", "FALSE"], Text.trimString body = word →
        evaluate table name.toList = .ok (word == "TRUE") ∧
        evaluate table body.toList = evaluate table word.toList ∧
        (table.get? word = none → evaluate table word.toList = .ok false)) ∧
    (name = "true" → evaluate table name.toList = .ok true) ∧
    (name = "false" → evaluate table name.toList = .ok false) := by
  refine ⟨fun noTruth => ?_, ?_, ?_⟩
  · have worth : evaluate table name.toList = .ok (Value.ofLiteral literal).truthy := by
      rw [evaluate_name table ident free, evalName_of_literal listed object parsed noTruth]
      rfl
    rw [worth]
    refine ⟨rfl, fun other => ?_, fun word capital same => ?_⟩
    · exact (evaluate_body_of_parse? table parsed noText blanks unsigned other).symm
    · have trimmed : trim body.toList = word.toList := by rw [← same, trimString, String.toList_ofList]
      rw [Macro.Value.parse?, trimmed] at parsed
      simp only [mem_cons, not_mem_nil, or_false] at capital
      rcases capital with rfl | rfl
      all_goals
        cases parsed
        exact ⟨rfl, evaluate_word_body table blanks trimmed (by decide) (by decide),
          evaluate_unlisted (by decide) (by decide) (by decide)⟩
  · rintro rfl
    exact evaluate_name table ident free
  · rintro rfl
    exact evaluate_name table ident free

/-- A table with one name. -/
def lone (name body : String) : Macro.Table :=
  ⟨[(name, ⟨name, .object body, ⟨0, 0⟩, none⟩)], pairwise_singleton _ _⟩

theorem evaluate_literal_body_hexadecimal :
    Macro.Value.parse? "-\t0x1F" = some (.int (-31)) ∧ evaluate (lone "N" "-\t0x1F") "N".toList = .ok true ∧
      evaluate (lone "N" "-\t0x1F") "N".toList = evaluate (lone "N" "-\t0x1F") "-\t0x1F".toList := by
  have both := (@evaluate_literal_body (lone "N" "-\t0x1F") "N" "-\t0x1F" _ (.int (-31)) rfl rfl (by decide)
    (by decide) rfl (fun inner same => by cases same) (blanks_of_all rfl) (by decide)).1 (by decide)
  exact ⟨rfl, both.1, both.2.1 (by decide)⟩

/-- What a literal in a body is worth, and the same text as a condition. -/
theorem evaluate_body_apart :
    (evaluate (lone "N" "TRUE") "N".toList = .ok true ∧ evaluate (lone "N" "TRUE") "TRUE".toList = .ok false) ∧
    (evaluate (lone "true" "0") "true".toList = .ok true ∧ evaluate (lone "true" "0") "0".toList = .ok false) ∧
    (evaluate (lone "N" "0x+5") "N".toList = .ok true ∧
      evaluate (lone "N" "0x+5") "0x+5".toList = .error (.invalidNumber "0x")) ∧
    evaluate (lone "N" "-\u00a05") "N".toList = .ok true ∧
      evaluate (lone "N" "-\u00a05") "-\u00a05".toList = .error (.unexpectedChar '\u00a0') := by
  refine ⟨⟨?_, ?_⟩, ⟨?_, ?_⟩, ⟨?_, ?_⟩, ?_, ?_⟩
  · exact evaluate_name _ (by decide) (by decide)
  · exact evaluate_unlisted (by decide) (by decide) (by decide) (by decide)
  · exact evaluate_name _ (by decide) (by decide)
  · have zero : Macro.Value.parse? "0" = some (.int 0) := rfl
    exact evaluate_body_of_parse? _ zero (fun inner same => by cases same) (blanks_of_all rfl) (by decide) (by decide)
  · exact evaluate_name _ (by decide) (by decide)
  · cbv
  · exact evaluate_name _ (by decide) (by decide)
  · cbv

end ScriptLint.Condition
