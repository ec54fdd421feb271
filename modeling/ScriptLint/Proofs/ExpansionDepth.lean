import ScriptLint.Macro.Expansion
import ScriptLint.Proofs.Arenas

/-!
# How deep expansion nests

Every nested pass hides one more name of the table, and a pass that finds no word to replace gives its text back. So
a table with no more names than there are levels never comes to the bound on nesting: what it expands to is decided by
the hidden names alone.
-/

namespace ScriptLint.Macro

open Text List

/-! ## Words that are looked up -/

/-- The words of a text that a pass looks up, in their order. They stand outside strings and continue no other word;
`glued` says that the character before belongs to one. -/
def freeWords (glued : Bool) : List Char → List String
  | [] => []
  | c :: cs =>
    if isQuote c then freeWords false (cs.drop (stringLength c cs).1)
    else if glued || !isIdentStart c then freeWords (isIdentPart c) cs
    else String.ofList (c :: cs.takeWhile isIdentPart) :: freeWords false (cs.dropWhile isIdentPart)
termination_by cs => cs.length
decreasing_by
  · simp only [length_drop, length_cons]; omega
  · simp
  · have shorter := (dropWhile_sublist isIdentPart (l := cs)).length_le
    simp only [length_cons]; omega

section Words

variable {glued : Bool} {c : Char} {cs : List Char}

theorem freeWords_of_quote (quote : isQuote c) :
    freeWords glued (c :: cs) = freeWords false (cs.drop (stringLength c cs).1) := by
  rw [freeWords, if_pos quote]

theorem freeWords_of_plain (quote : ¬isQuote c) (plain : (glued || !isIdentStart c)) :
    freeWords glued (c :: cs) = freeWords (isIdentPart c) cs := by
  rw [freeWords, if_neg quote, if_pos plain]

theorem freeWords_of_word (quote : ¬isQuote c) (starts : ¬(glued || !isIdentStart c)) :
    freeWords glued (c :: cs) =
      String.ofList (c :: cs.takeWhile isIdentPart) :: freeWords false (cs.dropWhile isIdentPart) := by
  rw [freeWords, if_neg quote, if_neg starts]

end Words

namespace Table

/-! ## One pass -/

section Pass

variable {table : Table} {nested : List String → List Char → List Char} {hidden : List String} {glued : Bool}
  {c : Char} {cs : List Char}

theorem expandText_of_quote (quote : isQuote c) :
    table.expandText nested hidden glued (c :: cs) =
      c :: cs.take (stringLength c cs).1 ++
        table.expandText nested hidden false (cs.drop (stringLength c cs).1) := by
  rw [expandText, if_pos quote]

theorem expandText_of_plain (quote : ¬isQuote c) (plain : (glued || !isIdentStart c)) :
    table.expandText nested hidden glued (c :: cs) = c :: table.expandText nested hidden (isIdentPart c) cs := by
  rw [expandText, if_neg quote, if_pos plain]

variable (quote : ¬isQuote c) (starts : ¬(glued || !isIdentStart c))

include quote starts

theorem expandText_of_invisible
    (unseen : table.visible? hidden (String.ofList (c :: cs.takeWhile isIdentPart)) = none) :
    table.expandText nested hidden glued (c :: cs) =
      c :: cs.takeWhile isIdentPart ++
        table.expandText nested hidden false (cs.dropWhile isIdentPart) := by
  rw [expandText, if_neg quote, if_neg starts]
  simp only [unseen]

variable {body : String}

theorem expandText_of_object
    (seen : table.visible? hidden (String.ofList (c :: cs.takeWhile isIdentPart)) = some (.object body)) :
    table.expandText nested hidden glued (c :: cs) =
      nested (String.ofList (c :: cs.takeWhile isIdentPart) :: hidden) body.toList ++
        table.expandText nested hidden false (cs.dropWhile isIdentPart) := by
  rw [expandText, if_neg quote, if_neg starts]
  simp only [seen]

theorem expandText_of_noCall {params : List String} {variadic : Bool}
    (seen : table.visible? hidden (String.ofList (c :: cs.takeWhile isIdentPart)) =
      some (.function params variadic body)) (noCall : Call.read? (cs.dropWhile isIdentPart) = none) :
    table.expandText nested hidden glued (c :: cs) =
      c :: cs.takeWhile isIdentPart ++
        table.expandText nested hidden false (cs.dropWhile isIdentPart) := by
  rw [expandText, if_neg quote, if_neg starts]
  simp only [seen]
  split
  · rfl
  · next call found => cases noCall.symm.trans found

theorem expandText_of_call {params : List String} {variadic : Bool} {call : Call}
    (seen : table.visible? hidden (String.ofList (c :: cs.takeWhile isIdentPart)) =
      some (.function params variadic body)) (found : Call.read? (cs.dropWhile isIdentPart) = some call) :
    table.expandText nested hidden glued (c :: cs) =
      ((Definition.function params variadic body).invoke? call.arguments).elim
          (c :: cs.takeWhile isIdentPart ++ call.text)
          (fun text => nested (String.ofList (c :: cs.takeWhile isIdentPart) :: hidden) text.toList) ++
        table.expandText nested hidden false call.rest := by
  rw [expandText, if_neg quote, if_neg starts]
  simp only [seen]
  split
  · next noCall => cases found.symm.trans noCall
  · rename_i other same
    obtain rfl := Option.mem_unique found same
    cases (Definition.function params variadic body).invoke? call.arguments <;> rfl

end Pass

variable {table : Table} {nested other : List String → List Char → List Char} {hidden : List String}

/-- A pass over a text with no word to replace gives the text back. -/
theorem expandText_eq_self {glued : Bool} {cs : List Char}
    (clear : ∀ word ∈ freeWords glued cs, table.visible? hidden word = none) :
    table.expandText nested hidden glued cs = cs := by
  fun_induction freeWords glued cs with
  | case1 => rw [expandText]
  | case2 _ _ _ quote ih =>
    rw [expandText_of_quote quote, ih clear, cons_append, take_append_drop]
  | case3 _ _ _ quote plain ih => rw [expandText_of_plain quote plain, ih clear]
  | case4 _ _ _ quote starts ih =>
    obtain ⟨unseen, clear⟩ := forall_mem_cons.mp clear
    rw [expandText_of_invisible quote starts unseen, ih clear, cons_append, takeWhile_append_dropWhile]

/-- A pass depends on the nested ones only where it replaces a word. -/
theorem expandText_congr
    (same : ∀ {name definition}, table.visible? hidden name = some definition →
      nested (name :: hidden) = other (name :: hidden)) (glued : Bool) (cs : List Char) :
    table.expandText nested hidden glued cs = table.expandText other hidden glued cs := by
  fun_induction table.expandText nested hidden glued cs with
  | case1 => rw [expandText]
  | case2 _ _ _ quote _ ih => rw [expandText_of_quote quote, ih]
  | case3 _ _ _ quote plain ih => rw [expandText_of_plain quote plain, ih]
  | case4 _ _ _ quote starts _ _ _ unseen ih =>
    rw [expandText_of_invisible quote starts unseen, ih]
  | case5 _ _ _ quote starts _ _ _ _ seen ih =>
    rw [expandText_of_object quote starts seen, ih, same seen]
  | case6 _ _ _ quote starts _ _ _ _ _ _ seen noCall ih =>
    rw [expandText_of_noCall quote starts seen noCall, ih]
  | case7 _ _ _ quote starts _ _ _ params variadic body seen call found ih =>
    rw [expandText_of_call quote starts seen found, ih, same seen]
    cases (Definition.function params variadic body).invoke? call.arguments <;> rfl

/-! ## Nested passes -/

/-- How many names of a table are not hidden. -/
def unhidden (table : Table) (hidden : List String) : Nat :=
  (table.names.filter fun name => !hidden.contains name).length

theorem unhidden_nil (table : Table) : table.unhidden [] = table.size := by
  have all : (table.names.filter fun name => !([] : List String).contains name) = table.names :=
    filter_eq_self.mpr fun _ _ => rfl
  rw [unhidden, all, NameMap.names, length_map, NameMap.size]

/-- There is a level for each name of a small table. -/
theorem unhidden_nil_le (small : table.size ≤ 65) : table.unhidden [] ≤ maxLevels := by
  rw [unhidden_nil]
  exact small

variable {name : String} {definition : Definition}

theorem visible?_eq_some_iff :
    table.visible? hidden name = some definition ↔
      name ∉ hidden ∧ ∃ entry, table.get? name = some entry ∧ entry.definition = definition := by
  unfold visible?
  split
  · next isHidden => simp [contains_iff_mem.mp isHidden]
  · rename_i shown
    rw [contains_iff_mem] at shown
    simp [shown]

theorem mem_of_visible? (seen : table.visible? hidden name = some definition) :
    name ∈ table.names.filter fun name => !hidden.contains name := by
  obtain ⟨shown, entry, found, _⟩ := visible?_eq_some_iff.mp seen
  have isName := mem_map_of_mem (f := Prod.fst) ((NameMap.get?_eq_some_iff table).mp found)
  exact mem_filter.mpr ⟨isName, by simpa using shown⟩

/-- Replacing a word hides a name more. -/
theorem unhidden_lt (seen : table.visible? hidden name = some definition) :
    table.unhidden (name :: hidden) < table.unhidden hidden := by
  have twice : (table.names.filter fun other => !(name :: hidden).contains other) =
      (table.names.filter fun other => !hidden.contains other).filter fun other => other != name := by
    rw [filter_filter]
    congr 1
    funext other
    rw [contains_cons, Bool.not_or, bne]
  rw [unhidden, twice]
  exact length_filter_lt_length_iff_exists.mpr ⟨name, mem_of_visible? seen, by simp⟩

/-- With every name hidden nothing is replaced. -/
theorem visible?_eq_none (allHidden : table.unhidden hidden = 0) (name : String) :
    table.visible? hidden name = none := by
  cases seen : table.visible? hidden name with
  | none => rfl
  | some =>
    have fewer := unhidden_lt seen
    omega

/-- Expansion without a bound on nesting: whatever replaces a word is expanded again, by the same rule. -/
def Unbounded (table : Table) (expansion : List String → List Char → List Char) : Prop :=
  ∀ hidden text, expansion hidden text = table.expandText expansion hidden false text

/-- The expansion that only the hidden names bound. The test is always met: a nested pass has fewer names to replace. -/
def expandFreely (table : Table) (hidden : List String) (text : List Char) : List Char :=
  table.expandText
    (fun inner replaced =>
      if _fewer : table.unhidden inner < table.unhidden hidden then table.expandFreely inner replaced else replaced)
    hidden false text
termination_by table.unhidden hidden

theorem expandFreely_unbounded (table : Table) : table.Unbounded table.expandFreely := by
  intro hidden text
  rw [expandFreely]
  apply expandText_congr
  intro name definition seen
  funext replaced
  exact dif_pos (unhidden_lt seen)

/-- The bound is not met where the names run out first. -/
theorem expandWithin_eq_of_unbounded {expansion : List String → List Char → List Char}
    (unbounded : table.Unbounded expansion) {levels : Nat} (enough : table.unhidden hidden ≤ levels)
    (text : List Char) : table.expandWithin levels hidden text = expansion hidden text := by
  induction levels generalizing hidden text with
  | zero =>
    have unseen := visible?_eq_none (Nat.le_zero.mp enough)
    rw [expandWithin, unbounded hidden text, expandText_eq_self fun word _ => unseen word]
  | succ _ ih =>
    rw [unbounded hidden text]
    apply expandText_congr
    intro name definition seen
    funext replaced
    have fewer := unhidden_lt seen
    exact ih (by omega) replaced

/-- A table of at most 65 names never comes to the bound on nesting. The rule without a bound has a solution, and every
solution of it expands a text to the same. -/
theorem expand_unbounded (table : Table) (small : table.size ≤ 65) :
    table.Unbounded table.expandFreely ∧
      ∀ expansion, table.Unbounded expansion →
        ∀ text : String, table.expand text = String.ofList (expansion [] text.toList) := by
  refine ⟨expandFreely_unbounded table, ?_⟩
  intro expansion unbounded text
  rw [expand, expandWithin_eq_of_unbounded unbounded (unhidden_nil_le small)]

/-- Two names that stand for one another, one that calls itself, and one that takes arguments. -/
def tangledTable : Table :=
  Table.defineAll ∅ [⟨"A", .object "B + 1", .empty 0, none⟩, ⟨"B", .object "A", .empty 0, none⟩,
    ⟨"F", .function ["x"] false "F(x) + A", .empty 0, none⟩]

theorem expand_unbounded_tangled :
    tangledTable.size ≤ 65 ∧ tangledTable.expand "F(B) 'A'" = "F(B + 1) + A + 1 'A'" ∧
      String.ofList (tangledTable.expandFreely [] "F(B) 'A'".toList) = "F(B + 1) + A + 1 'A'" := by
  have small : tangledTable.size ≤ 65 := by decide
  obtain ⟨unbounded, same⟩ := expand_unbounded tangledTable small
  have expanded : tangledTable.expand "F(B) 'A'" = "F(B + 1) + A + 1 'A'" := by decide +kernel
  exact ⟨small, expanded, (same _ unbounded _).symm.trans expanded⟩

end Table

end ScriptLint.Macro
