import Mathlib.Algebra.Group.Int.Defs
import ScriptLint.Proofs.ConditionText
import ScriptLint.Proofs.TextValues

/-!
# Arithmetic of conditions

What a formula is worth is said with whole numbers: a result that 64 bits with a sign cannot hold wraps around, and
there is none where a division by zero is reached. The logical operators and `?:` reach only the side they need.
Evaluating the text of a formula gives just that.
-/

namespace ScriptLint.Condition

open Text List

/-! ## Whole numbers -/

/-- The number with a sign that 64 bits hold in place of another. -/
def wrap (n : Int) : Int := n.bmod (2 ^ 64)

/-- The 64 bits of a number, as a number without a sign. -/
def bits (n : Int) : Nat := (n % 2 ^ 64).toNat

/-- What a sign makes of a number. -/
def Sign.onNumber : Sign → Int → Int
  | not, n => (n == 0).toInt
  | complement, n => -n - 1
  | minus, n => wrap (-n)
  | plus, n => n

/-- What an operator makes of two numbers. Quotients are rounded toward zero, and a remainder has the sign of what was
divided; shifts take their count modulo 64, and the one to the right keeps the sign. -/
def Operator.onNumbers (op : Operator) (a b : Int) : Option Int :=
  match op with
  | or => some (a != 0 || b != 0).toInt
  | and => some (a != 0 && b != 0).toInt
  | bitOr => some (wrap (bits a ||| bits b : Nat))
  | bitXor => some (wrap (bits a ^^^ bits b : Nat))
  | bitAnd => some (wrap (bits a &&& bits b : Nat))
  | eq => some (a == b).toInt
  | ne => some (a != b).toInt
  | lt => some (decide (a < b)).toInt
  | gt => some (decide (b < a)).toInt
  | le => some (decide (a ≤ b)).toInt
  | ge => some (decide (b ≤ a)).toInt
  | shl => some (wrap (a * 2 ^ (b % 64).toNat))
  | shr => some (a / 2 ^ (b % 64).toNat)
  | add => some (wrap (a + b))
  | sub => some (wrap (a - b))
  | mul => some (wrap (a * b))
  | div => if b = 0 then none else some (wrap (a.tdiv b))
  | rem => if b = 0 then none else some (a.tmod b)

/-- What a formula is worth, given what its names are worth and which names are defined. -/
def Formula.denote (worth : String → Int) (known : String → Bool) : Formula → Option Int
  | literal value => some value
  | name word _ => some (worth word.text)
  | defined word => some (known word.text).toInt
  | signed sign operand => (operand.denote worth known).map sign.onNumber
  | operation .and left right =>
    (left.denote worth known).bind fun a =>
      if a = 0 then some 0 else (right.denote worth known).map fun b => (b != 0).toInt
  | operation .or left right =>
    (left.denote worth known).bind fun a =>
      if a = 0 then (right.denote worth known).map fun b => (b != 0).toInt else some 1
  | operation op left right =>
    (left.denote worth known).bind fun a => (right.denote worth known).bind fun b => op.onNumbers a b
  | choice test yes no =>
    (test.denote worth known).bind fun a => if a = 0 then no.denote worth known else yes.denote worth known

/-! ## Words of 64 bits -/

theorem toInt_ofBool (b : Bool) : (if b then 1 else 0 : Int64).toInt = b.toInt := by
  cases b <;> rfl

theorem toInt_ne_zero (n : Int64) : (n != 0) = (n.toInt != 0) := by
  rw [bne, bne]
  congr 1
  rw [Bool.eq_iff_iff, beq_iff_eq, beq_iff_eq, ← Int64.toInt_inj]
  rfl

theorem toNat_toBitVec (n : Int64) : n.toBitVec.toNat = bits n.toInt := by
  have value : n.toInt = (n.toBitVec.toNat : Int).bmod (2 ^ 64) := BitVec.toInt_eq_toNat_bmod n.toBitVec
  have small := n.toBitVec.isLt
  have residue : (n.toBitVec.toNat : Int).bmod (2 ^ 64) % 2 ^ 64 = (n.toBitVec.toNat : Int) % 2 ^ 64 := Int.bmod_emod
  rw [bits, value]
  omega

/-- A sign makes of 64 bits what it makes of the number they hold. -/
theorem Sign.apply_int (sign : Sign) (n : Int64) :
    ∃ result, sign.apply (.int n) = .ok (.int result) ∧ result.toInt = sign.onNumber n.toInt := by
  cases sign with
  | not =>
    refine ⟨_, rfl, (toInt_ofBool _).trans ?_⟩
    rw [Value.truthy, toInt_ne_zero, bne, Bool.not_not]
    rfl
  | complement =>
    refine ⟨~~~n, rfl, (Int64.toInt_not n).trans ?_⟩
    have low := n.le_toInt
    have high := n.toInt_lt
    exact Int.bmod_eq_of_le (by omega) (by omega)
  | minus => exact ⟨-n, rfl, Int64.toInt_neg n⟩
  | plus => exact ⟨n, rfl, rfl⟩

theorem toNat_smod (n : Int64) : (n.toBitVec.smod 64).toNat = (n.toInt % 64).toNat := by
  have value : (n.toBitVec.smod 64).toInt = n.toInt.fmod 64 := BitVec.toInt_smod
  have small := (n.toBitVec.smod 64).isLt
  rw [Int.fmod_eq_emod_of_nonneg _ (by decide), BitVec.toInt_eq_toNat_cond] at value
  split at value <;> omega

theorem toInt_shiftLeft (a b : Int64) : (a <<< b).toInt = wrap (a.toInt * 2 ^ (b.toInt % 64).toNat) := by
  have shifted : (a <<< b).toBitVec = a.toBitVec <<< (b.toInt % 64).toNat := by
    rw [Int64.toBitVec_shiftLeft, BitVec.shiftLeft_eq', toNat_smod]
  calc (a <<< b).toInt = (a.toBitVec <<< (b.toInt % 64).toNat).toInt := congrArg BitVec.toInt shifted
    _ = ((a.toBitVec.toNat : Int) * 2 ^ (b.toInt % 64).toNat).bmod (2 ^ 64) := by
      rw [BitVec.toInt_shiftLeft, Nat.shiftLeft_eq, Int.natCast_mul]
      rfl
    _ = ((a.toBitVec.toNat : Int).bmod (2 ^ 64) * 2 ^ (b.toInt % 64).toNat).bmod (2 ^ 64) := by
      rw [Int.bmod_mul_bmod]
    _ = wrap (a.toInt * 2 ^ (b.toInt % 64).toNat) := by
      rw [← BitVec.toInt_eq_toNat_bmod]
      rfl

theorem toInt_shiftRight (a b : Int64) : (a >>> b).toInt = a.toInt / 2 ^ (b.toInt % 64).toNat := by
  calc (a >>> b).toInt = (a.toBitVec.sshiftRight' (b.toBitVec.smod 64)).toInt :=
        congrArg BitVec.toInt (Int64.toBitVec_shiftRight a b)
    _ = a.toInt >>> (b.toInt % 64).toNat := by
      rw [BitVec.toInt_sshiftRight', toNat_smod]
      rfl
    _ = a.toInt / 2 ^ (b.toInt % 64).toNat := Int.shiftRight_eq_div_pow ..

/-- How the result of evaluating goes with a number: it is that number in 64 bits, or there is none. -/
def Agrees (result : Except Error Value) (number : Option Int) : Prop :=
  (∃ n, result = .ok (.int n) ∧ number = some n.toInt) ∨ result = .error .divisionByZero ∧ number = none

/-- An operator makes of 64 bits what it makes of the numbers they hold. -/
theorem Operator.apply_int (op : Operator) (a b : Int64) :
    Agrees (op.apply (.int a) (.int b)) (op.onNumbers a.toInt b.toInt) := by
  have truth {p q : Bool} (same : p = q) : Agrees (.ok (.ofBool p)) (some q.toInt) :=
    .inl ⟨_, rfl, by rw [toInt_ofBool, same]⟩
  have number {n : Int64} {m : Int} (same : n.toInt = m) : Agrees (.ok (.int n)) (some m) :=
    .inl ⟨n, rfl, congrArg some same.symm⟩
  have zero : (b == 0) ↔ b.toInt = 0 := by
    rw [beq_iff_eq, ← Int64.toInt_inj]
    rfl
  cases op with
  | or => exact truth (by rw [toInt_ne_zero, toInt_ne_zero])
  | and => exact truth (by rw [toInt_ne_zero, toInt_ne_zero])
  | bitOr => exact number (by rw [← toNat_toBitVec, ← toNat_toBitVec]; exact BitVec.toInt_or ..)
  | bitXor => exact number (by rw [← toNat_toBitVec, ← toNat_toBitVec]; exact BitVec.toInt_xor ..)
  | bitAnd => exact number (by rw [← toNat_toBitVec, ← toNat_toBitVec]; exact BitVec.toInt_and ..)
  | eq => exact truth (by rw [Bool.eq_iff_iff, beq_iff_eq, beq_iff_eq, Int64.toInt_inj])
  | ne => exact truth (by rw [Bool.eq_iff_iff, bne_iff_ne, bne_iff_ne, Ne, Ne, Int64.toInt_inj])
  | lt => exact truth (decide_eq_decide.mpr Int64.lt_iff_toInt_lt)
  | gt => exact truth (decide_eq_decide.mpr Int64.lt_iff_toInt_lt)
  | le => exact truth (decide_eq_decide.mpr Int64.le_iff_toInt_le)
  | ge => exact truth (decide_eq_decide.mpr Int64.le_iff_toInt_le)
  | shl => exact number (toInt_shiftLeft a b)
  | shr => exact number (toInt_shiftRight a b)
  | add => exact number (Int64.toInt_add a b)
  | sub => exact number (Int64.toInt_sub a b)
  | mul => exact number (Int64.toInt_mul a b)
  | div =>
    by_cases none_ : b.toInt = 0
    · exact .inr ⟨if_pos (zero.mpr none_), if_pos none_⟩
    · exact .inl ⟨a / b, if_neg (mt zero.mp none_), (if_neg none_).trans (congrArg some (Int64.toInt_div a b).symm)⟩
  | rem =>
    by_cases none_ : b.toInt = 0
    · exact .inr ⟨if_pos (zero.mpr none_), if_pos none_⟩
    · exact .inl ⟨a % b, if_neg (mt zero.mp none_), (if_neg none_).trans (congrArg some (Int64.toInt_mod a b).symm)⟩

/-! ## Names -/

/-- How a whole number is written without a sign. -/
inductive Magnitude : List Char → Nat → Prop where
  | decimal {digits : List Char} (filled : digits ≠ []) (all : ∀ c ∈ digits, isDigit c = true) :
      Magnitude digits (Number.ofDigits 10 digits)
  | hexadecimal {mark : Char} (marked : mark = 'x' ∨ mark = 'X') {digits : List Char} (filled : digits ≠ [])
      (all : ∀ c ∈ digits, isHexDigit c = true) : Magnitude ('0' :: mark :: digits) (Number.ofDigits 16 digits)

/-- How a whole number that 64 bits hold is written in a definition. White space may follow its sign. -/
inductive Literal : List Char → Int → Prop where
  | plain {text : List Char} {n : Nat} (written : Magnitude text n) (small : n < 2 ^ 63) : Literal text n
  | negative {gap text : List Char} {n : Nat} (blank : ∀ c ∈ gap, isWhite c = true) (written : Magnitude text n)
      (small : n < 2 ^ 63) : Literal ('-' :: (gap ++ text)) (-n)

/-- What a name is bound to: a whole number, or nothing, which counts as zero. -/
inductive Binds (table : Macro.Table) (name : String) : Int → Prop where
  | unbound (free : table.get? name = none) : Binds table name 0
  | object {entry : Macro} {body : String} {n : Int} (found : table.get? name = some entry)
      (definition : entry.definition = .object body) (written : Literal body.toList n) : Binds table name n

/-- The names of the truth values are worth these, whatever they are bound to. -/
def worth (bound : String → Int) (name : String) : Int :=
  if name = "true" then 1 else if name = "false" then 0 else bound name

theorem readInt64?_sixteen {digits : List Char} (filled : digits ≠ []) (all : ∀ c ∈ digits, isHexDigit c)
    (small : Number.ofDigits 16 digits < 2 ^ 63) :
    Number.readInt64? 16 digits = some (Int64.ofNat (Number.ofDigits 16 digits)) := by
  have read : Number.readNat? 16 digits = some (Number.ofDigits 16 digits) := by
    change (if (digits.isEmpty || !digits.all isHexDigit) = true then none else some _) = _
    rw [all_eq_true.mpr all, isEmpty_eq_false_iff.mpr filled]
    rfl
  refine readInt64?_of_readNat? read (fun c found => ?_) small
  exact ⟨beq_eq_false_iff_ne.mp (beq_of_apart '-' (all c found) (by decide)),
    beq_eq_false_iff_ne.mp (beq_of_apart '+' (all c found) (by decide))⟩

variable {text : List Char}

theorem Magnitude.read {n : Nat} (written : Magnitude text n) (small : n < 2 ^ 63) :
    Macro.Value.magnitude? text = some (.int (Int64.ofNat n)) := by
  cases written with
  | decimal filled all =>
    have read := readInt64?_ten filled all small
    obtain ⟨c, cs, rfl⟩ := exists_cons_of_ne_nil filled
    have noBase (mark : Char) (other : isDigit mark = false) (more : List Char) : cs ≠ mark :: more := by
      rintro rfl
      exact Bool.false_ne_true (other.symm.trans (all mark (mem_cons_of_mem _ mem_cons_self)))
    rw [Macro.Value.magnitude?, if_pos (all_eq_true.mpr all), read]
    · rfl
    · exact fun more _ same => noBase 'x' (by decide) more same
    · exact fun more _ same => noBase 'X' (by decide) more same
  | hexadecimal marked filled all =>
    have read := readInt64?_sixteen filled all small
    obtain rfl | rfl := marked
    · rw [Macro.Value.magnitude?, read, Option.map_some]
    · rw [Macro.Value.magnitude?, read, Option.map_some]

theorem isWhite_of_isHexDigit {c : Char} (digit : isHexDigit c) : isWhite c = false := by
  have range : 48 ≤ c.toNat ∧ c.toNat ≤ 102 := by
    simp only [isHexDigit, isDigit, Bool.or_eq_true, Bool.and_eq_true, decide_eq_true_eq, Char.le_def,
      UInt32.le_iff_toNat_le] at digit
    change (48 ≤ c.toNat ∧ c.toNat ≤ 57 ∨ 97 ≤ c.toNat ∧ c.toNat ≤ 102) ∨ 65 ≤ c.toNat ∧ c.toNat ≤ 70 at digit
    omega
  simp only [isWhite, Bool.or_eq_false_iff, Bool.and_eq_false_iff, decide_eq_false_iff_not, beq_eq_false_iff_ne]
  omega

/-- A number begins with a digit, and has no white space in it. -/
theorem Magnitude.exists_cons {n : Nat} (written : Magnitude text n) :
    (∃ c cs, text = c :: cs ∧ isDigit c) ∧ ∀ c ∈ text, isWhite c = false := by
  cases written with
  | decimal filled all =>
    obtain ⟨c, cs, rfl⟩ := exists_cons_of_ne_nil filled
    exact ⟨⟨c, cs, rfl, all c mem_cons_self⟩, fun d found =>
      isWhite_of_isHexDigit (isHexDigit_of_isDigit (all d found))⟩
  | hexadecimal marked _ all =>
    refine ⟨⟨'0', _, rfl, by decide⟩, forall_mem_cons.mpr ⟨by decide, forall_mem_cons.mpr ⟨?_, ?_⟩⟩⟩
    · obtain rfl | rfl := marked <;> decide
    · exact fun c found => isWhite_of_isHexDigit (all c found)

theorem ofTrimmed?_numeric {c : Char} (cs : List Char) (numeric : isDigit c ∨ c = '-') :
    Macro.Value.ofTrimmed? (c :: cs) = Macro.Value.number? (c :: cs) := by
  have apart (d : Char) (other : (isDigit d || d == '-') = false) : c ≠ d := by
    rintro rfl
    rcases numeric with digit | rfl
    · simp [digit] at other
    · cases other
  have noWord : c ∉ ['T', 't', 'F', 'f'] := by simp [apart 'T' rfl, apart 't' rfl, apart 'F' rfl, apart 'f' rfl]
  rw [Macro.Value.ofTrimmed?_cons cs noWord, if_neg (apart '"' rfl)]

theorem Literal.parse? {body : String} {n : Int} (written : Literal body.toList n) :
    ∃ value, Macro.Value.parse? body = some (.int value) ∧ value.toInt = n := by
  have nothing : ∀ c ∈ ([] : List Char), isWhite c := forall_mem_nil _
  rw [Macro.Value.parse?]
  generalize body.toList = text at written
  cases written with
  | plain written small =>
    obtain ⟨⟨c, cs, rfl, digit⟩, visible⟩ := written.exists_cons
    have trimmed : trim (c :: cs) = c :: cs := by
      have front := trim_append nothing (cons_ne_nil c cs) visible []
      rwa [show trimEnd [] = [] from rfl, append_nil] at front
    refine ⟨Int64.ofNat _, ?_, Int64.toInt_ofNat_of_lt small⟩
    rw [trimmed, ofTrimmed?_numeric cs (.inl digit), Macro.Value.number?, written.read small]
    intro more same
    rw [(List.cons.inj same).1] at digit
    cases digit
  | @negative gap text m blank written small =>
    obtain ⟨⟨c, cs, same, digit⟩, visible⟩ := written.exists_cons
    have filled : text ≠ [] := same ▸ cons_ne_nil c cs
    have trimmed : trim ('-' :: (gap ++ text)) = '-' :: (gap ++ text) := by
      have minus : ∀ c ∈ ['-'], isWhite c = false := forall_mem_singleton.mpr (by decide)
      have front := trim_append nothing (cons_ne_nil '-' []) minus (gap ++ text)
      rwa [trimEnd_of_visible gap filled visible] at front
    have behind : trimStart (gap ++ text) = text := by
      rw [trimStart, dropWhile_append_of_pos blank, dropWhile_isWhite visible]
    refine ⟨-Int64.ofNat m, ?_, ?_⟩
    · rw [trimmed, ofTrimmed?_numeric _ (.inr rfl), Macro.Value.number?, behind, written.read small]
      rfl
    · rw [Int64.toInt_neg, Int64.toInt_ofNat_of_lt small]
      exact Int.bmod_eq_of_le (by omega) (by omega)

theorem Binds.plain {table : Macro.Table} {name : String} {n : Int} (binds : Binds table name n) (text : List Char) :
    Source.Plain ⟨text, table⟩ name := by
  intro entry found
  cases binds with
  | unbound free => cases free.symm.trans found
  | object same definition =>
    obtain rfl := Option.mem_unique same found
    rw [definition]
    rfl

theorem Binds.evalName {table : Macro.Table} {name : String} {bound : String → Int}
    (binds : Binds table name (bound name)) (nested : List Char → Except Error Value) :
    Agrees (evalName table nested name) (some (worth bound name)) := by
  rw [Condition.evalName, worth]
  by_cases yes : name = "true"
  · rw [if_pos (beq_iff_eq.mpr yes), if_pos yes]
    exact .inl ⟨1, rfl, rfl⟩
  rw [if_neg (mt beq_iff_eq.mp yes), if_neg yes]
  by_cases no : name = "false"
  · rw [if_pos (beq_iff_eq.mpr no), if_pos no]
    exact .inl ⟨0, rfl, rfl⟩
  rw [if_neg (mt beq_iff_eq.mp no), if_neg no]
  generalize bound name = n at binds
  cases binds with
  | unbound free =>
    rw [free]
    exact .inl ⟨0, rfl, rfl⟩
  | object found definition written =>
    obtain ⟨value, parsed, rfl⟩ := written.parse?
    rw [found, Option.map_some, definition]
    simp only [parsed]
    exact .inl ⟨value, rfl, rfl⟩

/-! ## Evaluation -/

variable {table : Macro.Table} {nested : List Char → Except Error Value} {result : Except Error Value}

theorem Agrees.truthy {number : Option Int} (agrees : Agrees result number) :
    result.map Value.truthy = number.elim (.error .divisionByZero) fun n => .ok (n != 0) := by
  obtain ⟨n, rfl, rfl⟩ | ⟨rfl, rfl⟩ := agrees
  · exact congrArg Except.ok (toInt_ne_zero n)
  · rfl

/-- Evaluation goes on with the number that the first operand is. -/
theorem Agrees.bind {number : Option Int} {next : Value → Except Error Value}
    {more : Int → Option Int} (agrees : Agrees result number)
    (behind : ∀ n, Agrees (next (.int n)) (more n.toInt)) : Agrees (result >>= next) (number.bind more) := by
  obtain ⟨n, rfl, rfl⟩ | ⟨rfl, rfl⟩ := agrees
  · exact behind n
  · exact .inr ⟨rfl, rfl⟩

theorem Tree.eval_binary {op : Operator} (noAnd : op ≠ .and) (noOr : op ≠ .or) (left right : Tree) :
    (Tree.binary op left right).eval table nested =
      left.eval table nested >>= fun value => right.eval table nested >>= fun other => op.apply value other := by
  rw [Tree.eval]
  · exact noAnd
  · exact noOr

theorem Formula.denote_operation {op : Operator} (noAnd : op ≠ .and) (noOr : op ≠ .or) (worth : String → Int)
    (known : String → Bool) (left right : Formula) :
    (Formula.operation op left right).denote worth known =
      (left.denote worth known).bind fun a => (right.denote worth known).bind fun b => op.onNumbers a b := by
  rw [Formula.denote]
  · exact noAnd
  · exact noOr

theorem truthy_int (n : Int64) : (Value.int n).truthy ↔ n.toInt ≠ 0 := by
  rw [Value.truthy, toInt_ne_zero, bne_iff_ne]

theorem Agrees.truth {number : Option Int} (agrees : Agrees result number) :
    Agrees (result >>= fun value => .ok (.ofBool value.truthy)) (number.map fun b => (b != 0).toInt) := by
  rw [Option.map_eq_bind]
  refine agrees.bind fun n => .inl ⟨_, rfl, congrArg some ?_⟩
  rw [toInt_ofBool, Value.truthy, toInt_ne_zero]

/-- A choice by a number is a choice by its truth. -/
theorem Agrees.ite {n : Int64} {yes no : Except Error Value} {yesNumber noNumber : Option Int}
    (agreesYes : Agrees yes yesNumber) (agreesNo : Agrees no noNumber) :
    Agrees (if (Value.int n).truthy then yes else no) (if n.toInt = 0 then noNumber else yesNumber) := by
  by_cases zero : n.toInt = 0
  · rw [if_pos zero, if_neg (mt (truthy_int n).mp (not_not_intro zero))]
    exact agreesNo
  · rw [if_neg zero, if_pos ((truthy_int n).mpr zero)]
    exact agreesYes

/-- A formula evaluates to what it is worth, if its names do. -/
theorem Formula.eval_agrees (formula : Formula) {worth : String → Int}
    (names : ∀ name ∈ formula.tree.names, Agrees (evalName table nested name) (some (worth name))) :
    Agrees (formula.tree.eval table nested) (formula.denote worth table.contains) := by
  induction formula with
  | literal value => exact .inl ⟨_, rfl, congrArg some (Int64.toInt_ofNat_of_lt value.isLt).symm⟩
  | name word => exact names word.text mem_cons_self
  | defined => exact .inl ⟨_, rfl, congrArg some (toInt_ofBool _).symm⟩
  | signed sign _ ih =>
    rw [denote, Option.map_eq_bind]
    refine (ih names).bind fun n => ?_
    obtain ⟨result, applied, value⟩ := sign.apply_int n
    exact .inl ⟨result, applied, congrArg some value.symm⟩
  | operation op _ _ ihLeft ihRight =>
    obtain ⟨namesLeft, namesRight⟩ := forall_mem_append.mp names
    have agreesLeft := ihLeft namesLeft
    have agreesRight := ihRight namesRight
    by_cases isAnd : op = .and
    · subst isAnd
      exact agreesLeft.bind fun n => .ite agreesRight.truth (.inl ⟨0, rfl, rfl⟩)
    by_cases isOr : op = .or
    · subst isOr
      exact agreesLeft.bind fun n => .ite (.inl ⟨1, rfl, rfl⟩) agreesRight.truth
    rw [tree, Tree.eval_binary isAnd isOr, denote_operation isAnd isOr]
    exact agreesLeft.bind fun a => agreesRight.bind fun b => op.apply_int a b
  | choice _ _ _ ihTest ihYes ihNo =>
    obtain ⟨namesTest, namesBoth⟩ := forall_mem_append.mp names
    obtain ⟨namesYes, namesNo⟩ := forall_mem_append.mp namesBoth
    exact (ihTest namesTest).bind fun n => .ite (ihYes namesYes) (ihNo namesNo)

theorem Formula.evaluate_eq (formula : Formula) (written : Spaced (formula.write .conditional) text)
    (plain : ∀ name ∈ formula.tree.names, Source.Plain ⟨text, table⟩ name) :
    evaluate table text = (formula.tree.eval table (evalWithin table 32)).map Value.truthy := by
  obtain ⟨tokens, lexed, same⟩ := written.tokensFrom (formula.whole_write .conditional) 0
  exact evaluate_of_parse (parse_of_derives lexed (same ▸ formula.derives_write .conditional) plain)

/-- A table in which `M` is the greatest number and `N` is `-1`. -/
def overflowTable : Macro.Table :=
  ⟨[("M", ⟨"M", .object "9223372036854775807", ⟨0, 1⟩, none⟩), ("N", ⟨"N", .object "- 0x1", ⟨0, 1⟩, none⟩)], by decide⟩

/-- The division of one by `X` stands on a side that is not needed, and the least number is divided by `-1`. -/
def overflowFormula : Formula :=
  let name (text : String) (isIdent : isIdent text.toList = true) (free : text ≠ "defined") : Formula :=
    .name ⟨text, isIdent⟩ free
  let x := name "X" (by decide) (by decide)
  let least := Formula.operation .sub (.signed .minus (name "M" (by decide) (by decide))) (.literal 1)
  let quotient := Formula.operation .div least (name "N" (by decide) (by decide))
  .operation .or (.operation .and x (.operation .div (.literal 1) x)) (.operation .lt quotient (.literal 0))

end ScriptLint.Condition
