import ScriptLint.Proofs.ExprTree

/-!
# Expression trees over tokens

A tree that only has a shape is given the parentheses it needs, and then the places of the tokens it is written with.
-/

namespace ScriptLint.Analysis

open List

variable {ι : Type}

/-! ## Parentheses where they are needed -/

namespace Expr

variable (expr : Expr Unit)

@[simp] theorem leftStrength_bracket : expr.bracket.leftStrength = expr.leftStrength := by
  cases expr <;> rfl

@[simp] theorem rightStrength_bracket : expr.bracket.rightStrength = expr.rightStrength := by
  cases expr <;> rfl

@[simp] theorem isAtom_bracket : expr.bracket.isAtom = expr.isAtom := by
  cases expr <;> rfl

variable {expr}

/-- An expression can be read at the strength that it is guarded for. -/
theorem le_leftStrength_guard {least : Nat} (weak : least ≤ atomStrength) :
    least ≤ (expr.bracket.guard (expr.leftStrength < least)).leftStrength := by
  by_cases needed : expr.leftStrength < least
  · rw [guard, if_pos (decide_eq_true needed)]
    exact weak
  · rw [guard, if_neg (mt of_decide_eq_true needed), leftStrength_bracket]
    exact Nat.le_of_not_lt needed

/-- An operator leaves whole what is guarded against it. -/
theorem lt_rightStrength_guard {strength : Nat} (weak : strength < atomStrength) :
    strength < (expr.bracket.guard (expr.rightStrength ≤ strength)).rightStrength := by
  by_cases needed : expr.rightStrength ≤ strength
  · rw [guard, if_pos (decide_eq_true needed)]
    exact weak
  · rw [guard, if_neg (mt of_decide_eq_true needed), rightStrength_bracket]
    exact Nat.lt_of_not_le needed

theorem isAtom_guard : (expr.bracket.guard !expr.isAtom).isAtom := by
  cases atom : expr.isAtom with
  | false => rfl
  | true => exact expr.isAtom_bracket.trans atom

theorem readable_guard {needed : Bool} (readable : expr.Readable) : (expr.guard needed).Readable := by
  cases needed <;> exact readable

end Expr

/-- No operator binds as much as what has none. -/
theorem BetweenOp.lt_atomStrength (op : BetweenOp) : op.left < atomStrength ∧ op.right ≤ atomStrength := by
  rcases op with op | op <;> cases op <;> decide

mutual

/-- There are parentheses wherever they are needed. -/
theorem Expr.readable_bracket (expr : Expr Unit) (filled : expr.Filled) : expr.bracket.Readable := by
  match expr, filled with
  | .number .., _ | .string .., _ | .name .., _ => trivial
  | .call _ _ _ args, filled => exact args.readable_bracket filled (Nat.zero_le _)
  | .member base _ _ _, filled => exact ⟨Expr.isAtom_guard, Expr.readable_guard (base.readable_bracket filled)⟩
  | .parens _ inner _, filled => exact inner.readable_bracket filled
  | .cast _ _ _ _ operand, filled | .front _ _ operand, filled =>
    exact ⟨Expr.le_leftStrength_guard (by decide), Expr.readable_guard (operand.readable_bracket filled)⟩
  | .behind operand _ _, filled =>
    exact ⟨Expr.lt_rightStrength_guard (by decide), Expr.readable_guard (operand.readable_bracket filled)⟩
  | .between left op _ right, ⟨filledLeft, filledRight⟩ =>
    obtain ⟨lt, le⟩ := op.lt_atomStrength
    exact ⟨Expr.lt_rightStrength_guard lt, Expr.readable_guard (left.readable_bracket filledLeft),
      Expr.le_leftStrength_guard le, Expr.readable_guard (right.readable_bracket filledRight)⟩
  | .vector _ (.filled parts), filled => exact parts.readable_bracket filled (by decide)
  | .list _ items, filled => exact items.readable_bracket filled (Nat.zero_le _)

theorem Items.readable_bracket {least : Nat} (items : Items Unit) (filled : items.Filled)
    (weak : least ≤ atomStrength) : (items.bracket least).Readable least := by
  match items, filled with
  | .last item _, filled =>
    exact ⟨Expr.le_leftStrength_guard weak, Expr.readable_guard (item.readable_bracket filled)⟩
  | .more item _ rest, ⟨filled, filledRest⟩ =>
    exact ⟨Expr.le_leftStrength_guard weak, Expr.readable_guard (item.readable_bracket filled),
      rest.readable_bracket filledRest weak⟩

theorem Listing.readable_bracket {least : Nat} (listing : Listing Unit) (filled : listing.Filled)
    (weak : least ≤ atomStrength) : (listing.bracket least).Readable least := by
  match listing, filled with
  | .empty _, _ => trivial
  | .filled items, filled => exact items.readable_bracket filled weak

end

/-! ## Places -/

mutual

/-- The shape of an expression, without its places. -/
def Expr.erase : Expr ι → Expr Unit
  | .number text _ => .number text ()
  | .string text _ => .string text ()
  | .name name _ => .name name ()
  | .call callee _ _ args => .call callee () () args.erase
  | .member base _ name _ => .member base.erase () name ()
  | .parens _ inner _ => .parens () inner.erase ()
  | .cast _ word _ _ operand => .cast () word () () operand.erase
  | .front op _ operand => .front op () operand.erase
  | .behind operand step _ => .behind operand.erase step ()
  | .between left op _ right => .between left.erase op () right.erase
  | .vector _ parts => .vector () parts.erase
  | .list _ items => .list () items.erase

def Items.erase : Items ι → Items Unit
  | .last item _ => .last item.erase ()
  | .more item _ rest => .more item.erase () rest.erase

def Listing.erase : Listing ι → Listing Unit
  | .empty _ => .empty ()
  | .filled items => .filled items.erase

end

namespace Expr

variable (expr : Expr ι)

@[simp] theorem leftStrength_erase : expr.erase.leftStrength = expr.leftStrength := by
  cases expr <;> rfl

@[simp] theorem rightStrength_erase : expr.erase.rightStrength = expr.rightStrength := by
  cases expr <;> rfl

@[simp] theorem isAtom_erase : expr.erase.isAtom = expr.isAtom := by
  cases expr <;> rfl

end Expr

/-! ## Placing -/

section Signs

variable {tokens : List Token} {kind : TokenKind} {text : String} {rest : List (TokenKind × String)}

theorem exists_cons_of_signs (same : tokens.map Token.sign = (kind, text) :: rest) :
    ∃ place others, tokens = ⟨kind, text, place⟩ :: others ∧ others.map Token.sign = rest := by
  obtain ⟨⟨_, _, place⟩, others, rfl, sign, next⟩ := map_eq_cons_iff.mp same
  cases sign
  exact ⟨place, others, rfl, next⟩

theorem exists_singleton_of_signs (same : tokens.map Token.sign = [(kind, text)]) :
    ∃ place, tokens = [⟨kind, text, place⟩] := by
  obtain ⟨place, others, rfl, none⟩ := exists_cons_of_signs same
  exact ⟨place, by rw [map_eq_nil_iff.mp none]⟩

end Signs

mutual

/-- Tokens that read like a shape are the tokens of a tree of that shape. -/
theorem Expr.exists_placed (shape : Expr Unit) {tokens : List Token} (same : tokens.map Token.sign = shape.signs) :
    ∃ placed : Expr Span, placed.erase = shape ∧ placed.tokens = tokens := by
  match shape with
  | .number text _ =>
    obtain ⟨place, rfl⟩ := exists_singleton_of_signs same
    exact ⟨.number text place, rfl, rfl⟩
  | .string text _ =>
    obtain ⟨place, rfl⟩ := exists_singleton_of_signs same
    exact ⟨.string text place, rfl, rfl⟩
  | .name word _ =>
    obtain ⟨place, rfl⟩ := exists_singleton_of_signs same
    exact ⟨.name word place, rfl, rfl⟩
  | .call callee _ _ args =>
    obtain ⟨place, _, rfl, next⟩ := exists_cons_of_signs same
    obtain ⟨opening, _, rfl, others⟩ := exists_cons_of_signs next
    obtain ⟨args, rfl, rfl⟩ := args.exists_placed others
    exact ⟨.call callee place opening args, rfl, rfl⟩
  | .member base _ word _ =>
    obtain ⟨_, _, rfl, sameBase, next⟩ := map_eq_append_iff.mp same
    obtain ⟨base, rfl, rfl⟩ := base.exists_placed sameBase
    obtain ⟨dot, _, rfl, others⟩ := exists_cons_of_signs next
    obtain ⟨place, rfl⟩ := exists_singleton_of_signs others
    exact ⟨.member base dot word place, rfl, rfl⟩
  | .parens _ inner _ =>
    obtain ⟨opening, _, rfl, next⟩ := exists_cons_of_signs same
    obtain ⟨_, _, rfl, sameInner, others⟩ := map_eq_append_iff.mp next
    obtain ⟨inner, rfl, rfl⟩ := inner.exists_placed sameInner
    obtain ⟨closing, rfl⟩ := exists_singleton_of_signs others
    exact ⟨.parens opening inner closing, rfl, rfl⟩
  | .cast _ word _ _ operand =>
    obtain ⟨opening, _, rfl, next⟩ := exists_cons_of_signs same
    obtain ⟨place, _, rfl, others⟩ := exists_cons_of_signs next
    obtain ⟨closing, _, rfl, remaining⟩ := exists_cons_of_signs others
    obtain ⟨operand, rfl, rfl⟩ := operand.exists_placed remaining
    exact ⟨.cast opening word place closing operand, rfl, rfl⟩
  | .front op _ operand =>
    obtain ⟨place, _, rfl, next⟩ := exists_cons_of_signs same
    obtain ⟨operand, rfl, rfl⟩ := operand.exists_placed next
    exact ⟨.front op place operand, rfl, rfl⟩
  | .behind operand step _ =>
    obtain ⟨_, _, rfl, sameOperand, next⟩ := map_eq_append_iff.mp same
    obtain ⟨operand, rfl, rfl⟩ := operand.exists_placed sameOperand
    obtain ⟨place, rfl⟩ := exists_singleton_of_signs next
    exact ⟨.behind operand step place, rfl, rfl⟩
  | .between left op _ right =>
    obtain ⟨_, _, rfl, sameLeft, next⟩ := map_eq_append_iff.mp same
    obtain ⟨left, rfl, rfl⟩ := left.exists_placed sameLeft
    obtain ⟨place, _, rfl, others⟩ := exists_cons_of_signs next
    obtain ⟨right, rfl, rfl⟩ := right.exists_placed others
    exact ⟨.between left op place right, rfl, rfl⟩
  | .vector _ parts =>
    obtain ⟨opening, _, rfl, next⟩ := exists_cons_of_signs same
    obtain ⟨parts, rfl, rfl⟩ := parts.exists_placed next
    exact ⟨.vector opening parts, rfl, rfl⟩
  | .list _ items =>
    obtain ⟨opening, _, rfl, next⟩ := exists_cons_of_signs same
    obtain ⟨items, rfl, rfl⟩ := items.exists_placed next
    exact ⟨.list opening items, rfl, rfl⟩

theorem Items.exists_placed (shape : Items Unit) {tokens : List Token} {kind : TokenKind} {sign : String}
    (same : tokens.map Token.sign = shape.write (fun kind text _ => (kind, text)) kind sign) :
    ∃ placed : Items Span, placed.erase = shape ∧ placed.write Token.mk kind sign = tokens := by
  match shape with
  | .last item _ =>
    obtain ⟨_, _, rfl, sameItem, next⟩ := map_eq_append_iff.mp same
    obtain ⟨item, rfl, rfl⟩ := item.exists_placed sameItem
    obtain ⟨closing, rfl⟩ := exists_singleton_of_signs next
    exact ⟨.last item closing, rfl, rfl⟩
  | .more item _ rest =>
    obtain ⟨_, _, rfl, sameItem, next⟩ := map_eq_append_iff.mp same
    obtain ⟨item, rfl, rfl⟩ := item.exists_placed sameItem
    obtain ⟨comma, _, rfl, others⟩ := exists_cons_of_signs next
    obtain ⟨rest, rfl, rfl⟩ := rest.exists_placed others
    exact ⟨.more item comma rest, rfl, rfl⟩

theorem Listing.exists_placed (shape : Listing Unit) {tokens : List Token} {kind : TokenKind} {sign : String}
    (same : tokens.map Token.sign = shape.write (fun kind text _ => (kind, text)) kind sign) :
    ∃ placed : Listing Span, placed.erase = shape ∧ placed.write Token.mk kind sign = tokens := by
  match shape with
  | .empty _ =>
    obtain ⟨closing, rfl⟩ := exists_singleton_of_signs same
    exact ⟨.empty closing, rfl, rfl⟩
  | .filled items =>
    obtain ⟨items, rfl, rfl⟩ := items.exists_placed same
    exact ⟨.filled items, rfl, rfl⟩

end

end ScriptLint.Analysis
