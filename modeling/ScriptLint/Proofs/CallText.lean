import Mathlib.Data.List.Infix
import ScriptLint.Macro.Arguments
import ScriptLint.Proofs.Bytes
import ScriptLint.Proofs.TextEnds

/-!
# Calls in writing

A call is written as a name and its arguments in parentheses, with a comma and a space between them. Two scanners read
it: one looks for the parenthesis that closes the call and counts parentheses alone, the other divides what stands
inside at commas and counts brackets of every kind. Both step over a string in the same way, so they agree on what
stands outside of strings. An argument whose brackets close one another leaves the counts of both as they were, which
is why the first finds the end of the call and the second every argument.
-/

namespace ScriptLint.Macro

open Text List

/-! ## What encloses a comma -/

/-- The characters of a text outside its strings; none if a string is not closed. The text begins inside of a string
where the quote of one is given. -/
def outside? : (quote : Option Char) → List Char → Option (List Char)
  | none, [] => some []
  | some _, [] => none
  | none, c :: cs => if isQuote c then outside? (some c) cs else (outside? none cs).map (c :: ·)
  | some quote, '\\' :: _ :: cs => outside? (some quote) cs
  | some quote, c :: cs => outside? (if c == quote then none else some quote) cs

/-- The brackets to be closed after one more character, the innermost first; none if it is a bracket that closes
another than the innermost. -/
def turn (stack : List Char) (c : Char) : Option (List Char) :=
  if c == '(' then some (')' :: stack)
  else if c == '[' then some (']' :: stack)
  else if c == '{' then some ('}' :: stack)
  else if c == ')' || c == ']' || c == '}' then if stack.head? == some c then some stack.tail else none
  else some stack

/-- The brackets to be closed after a text without strings. -/
def pending? (stack bare : List Char) : Option (List Char) := bare.foldlM turn stack

/-- How many angle brackets are open after a text without strings. A `>` closes one if there is one. -/
def openAngles (bare : List Char) : Nat :=
  bare.foldl (fun count c => if c == '<' then count + 1 else if c == '>' then count - 1 else count) 0

/-- Every bracket closes the last one opened and none stays open, no angle bracket stays open, and every comma stands
inside of brackets or of angle brackets. -/
structure Enclosed (bare : List Char) : Prop where
  brackets : pending? [] bare = some []
  angles : openAngles bare = 0
  commas : ∀ before, before ++ [','] <+: bare → pending? [] before ≠ some [] ∨ openAngles before ≠ 0

/-- A text that can stand as one argument: its strings are closed, and what is outside of them is enclosed. -/
def IsArgument (text : List Char) : Prop := ∃ bare, outside? none text = some bare ∧ Enclosed bare

instance (bare : List Char) : Decidable (Enclosed bare) :=
  decidable_of_iff (pending? [] bare = some [] ∧ openAngles bare = 0 ∧
      ∀ before ∈ bare.inits, before ++ [','] <+: bare → pending? [] before ≠ some [] ∨ openAngles before ≠ 0) <| by
    constructor
    · rintro ⟨brackets, angles, commas⟩
      refine ⟨brackets, angles, fun before comma => commas before ?_ comma⟩
      exact (mem_inits before bare).mpr ((prefix_append before [',']).trans comma)
    · intro enclosed
      exact ⟨enclosed.brackets, enclosed.angles, fun before _ => enclosed.commas before⟩

instance (text : List Char) : Decidable (IsArgument text) :=
  match strings : outside? none text with
  | none => isFalse <| by
      rintro ⟨bare, closed, _⟩
      cases strings.symm.trans closed
  | some bare => decidable_of_iff (Enclosed bare) <| by
      simp [IsArgument, strings]

theorem openAngles_concat (bare : List Char) (c : Char) :
    openAngles (bare ++ [c]) =
      if c == '<' then openAngles bare + 1 else if c == '>' then openAngles bare - 1 else openAngles bare := by
  rw [openAngles, foldl_append]
  rfl

theorem pending?_append (stack front back : List Char) :
    pending? stack (front ++ back) = (pending? stack front).bind fun other => pending? other back :=
  foldlM_append

theorem pending?_cons (stack : List Char) (c : Char) (bare : List Char) :
    pending? stack (c :: bare) = (turn stack c).bind fun other => pending? other bare :=
  rfl

variable {stack next bare text : List Char} {c : Char}

/-- A character opens a bracket, closes the innermost one, or is no bracket. -/
theorem turn_cases (turned : turn stack c = some next) :
    (∃ close, (c, close) ∈ [('(', ')'), ('[', ']'), ('{', '}')] ∧ next = close :: stack) ∨
      (c ∈ [')', ']', '}'] ∧ stack = c :: next) ∨ (c ∉ ['(', '[', '{', ')', ']', '}'] ∧ next = stack) := by
  unfold turn at turned
  split at turned
  · next round => exact .inl ⟨')', by simp [beq_iff_eq.mp round], (Option.some.inj turned).symm⟩
  · split at turned
    · next square => exact .inl ⟨']', by simp [beq_iff_eq.mp square], (Option.some.inj turned).symm⟩
    · split at turned
      · next curly => exact .inl ⟨'}', by simp [beq_iff_eq.mp curly], (Option.some.inj turned).symm⟩
      · split at turned
        · rename_i closes
          split at turned
          · rename_i innermost
            obtain ⟨below, rfl⟩ := head?_eq_some_iff.mp (beq_iff_eq.mp innermost)
            exact .inr (.inl ⟨by simpa [or_assoc] using closes, congrArg _ (Option.some.inj turned)⟩)
          · cases turned
        · exact .inr (.inr ⟨by simp_all, (Option.some.inj turned).symm⟩)

/-! ## Strings -/

theorem some_ne_backslash (begins : isQuote c) : some c ≠ some '\\' := by
  intro same
  rw [Option.some.inj same] at begins
  cases begins

theorem goesOn_ne_backslash {quote : Char} (real : some quote ≠ some '\\') (c : Char) :
    (if c == quote then none else some quote) ≠ some '\\' := by
  split
  · exact (Option.some_ne_none _).symm
  · exact real

/-- Inside of a string that is closed, a backslash has another character behind it. -/
theorem ne_backslash_of_outside? {quote : Char} {cs : List Char} (real : some quote ≠ some '\\')
    (lone : ∀ next more, c = '\\' → cs = next :: more → False)
    (strings : outside? (if c == quote then none else some quote) cs = some bare) : c ≠ '\\' := by
  rintro rfl
  have goesOn := beq_eq_false_iff_ne.mpr fun same => real (congrArg some same.symm)
  rw [goesOn] at strings
  cases cs with
  | nil => cases strings
  | cons next more => exact lone next more rfl rfl

/-! ## Dividing at commas -/

/-- A character that divides nothing is part of the first piece. -/
theorem splitFrom_cons {nesting : Nesting} (keeps : c = ',' → nesting.splits = false) (cs : List Char) :
    splitFrom nesting (c :: cs) = ontoFirst c (splitFrom (nesting.step c) cs) := by
  rw [splitFrom, if_neg]
  intro divides
  obtain ⟨comma, splits⟩ := Bool.and_eq_true_iff.mp divides
  rw [keeps (beq_iff_eq.mp comma)] at splits
  cases splits

/-- A character outside of strings changes what encloses a place as it changes what is to be closed. -/
theorem step_outside (seen : List Char) (plain : ¬isQuote c) (turned : turn stack c = some next) :
    Nesting.step ⟨stack.length, openAngles seen, none, false⟩ c =
      ⟨next.length, openAngles (seen ++ [c]), none, false⟩ := by
  rw [openAngles_concat]
  rcases turn_cases turned with ⟨close, opens, rfl⟩ | ⟨closes, rfl⟩ | ⟨other, rfl⟩
  · simp only [mem_cons, Prod.mk.injEq, not_mem_nil, or_false] at opens
    rcases opens with ⟨rfl, rfl⟩ | ⟨rfl, rfl⟩ | ⟨rfl, rfl⟩ <;> rfl
  · simp only [mem_cons, not_mem_nil, or_false] at closes
    rcases closes with rfl | rfl | rfl <;> simp [Nesting.step, isQuote]
  · simp only [mem_cons, not_mem_nil, or_false, not_or] at other
    by_cases less : c = '<'
    · simp [Nesting.step, less, isQuote]
    · by_cases greater : c = '>'
      · simp [Nesting.step, greater, isQuote]
      · simp [Nesting.step, plain, other, less, greater]

/-- Dividing a text goes on behind an argument as if nothing stood before, and the argument is part of the first
piece. The induction keeps what was seen outside of strings, which decides what encloses the place. -/
theorem splitFrom_append {whole : List Char} (enclosed : Enclosed whole) (rest : List Char) {quote : Option Char}
    (real : quote ≠ some '\\') {seen : List Char} (strings : outside? quote text = some bare)
    (parts : whole = seen ++ bare) (unclosed : pending? [] seen = some stack) :
    splitFrom ⟨stack.length, openAngles seen, quote, false⟩ (text ++ rest) =
      text.foldr ontoFirst (splitFrom {} rest) := by
  fun_induction outside? quote text generalizing bare seen stack with
  | case1 =>
    cases strings
    rw [append_nil] at parts
    subst parts
    cases unclosed.symm.trans enclosed.brackets
    rw [enclosed.angles]
    rfl
  | case2 => cases strings
  | case3 c _ begins ih =>
    have noComma : c ≠ ',' := by
      rintro rfl
      cases begins
    rw [cons_append, splitFrom_cons fun comma => absurd comma noComma, Nesting.step, if_pos begins,
      ih (some_ne_backslash begins) strings parts unclosed]
    rfl
  | case4 c _ plain ih =>
    obtain ⟨later, laterStrings, rfl⟩ := Option.map_eq_some_iff.mp strings
    obtain ⟨next, turned, _⟩ : ∃ next, turn stack c = some next ∧ pending? next later = some [] := by
      have closed := enclosed.brackets
      rw [parts, pending?_append, unclosed, Option.bind_some] at closed
      exact Option.bind_eq_some_iff.mp closed
    have partsNext := parts.trans (append_cons seen c later)
    have unclosedNext : pending? [] (seen ++ [c]) = some next := by
      rw [pending?_append, unclosed, Option.bind_some, pending?_cons, turned]
      rfl
    have keeps : c = ',' → Nesting.splits ⟨stack.length, openAngles seen, none, false⟩ = false := by
      rintro rfl
      have inside := enclosed.commas seen ⟨later, partsNext.symm⟩
      rw [unclosed] at inside
      simpa [Nesting.splits, imp_iff_not_or] using inside
    rw [cons_append, splitFrom_cons keeps, step_outside seen plain turned,
      ih real laterStrings partsNext unclosedNext]
    rfl
  | case5 _ _ _ ih =>
    rw [cons_append, splitFrom_cons fun _ => rfl, cons_append, splitFrom_cons fun _ => rfl]
    exact congrArg _ (congrArg _ (ih real strings parts unclosed))
  | case6 quote c _ lone ih =>
    have noBackslash := ne_backslash_of_outside? real lone strings
    have step : Nesting.step ⟨stack.length, openAngles seen, some quote, false⟩ c =
        ⟨stack.length, openAngles seen, if c == quote then none else some quote, false⟩ := by
      by_cases closes : c = quote
      · subst closes
        simp [Nesting.step, noBackslash]
      · simp [Nesting.step, noBackslash, closes]
    rw [cons_append, splitFrom_cons fun _ => rfl, step, ih (goesOn_ne_backslash real c) strings parts unclosed]
    rfl

theorem foldr_ontoFirst (text part : List Char) (parts : List (List Char)) :
    text.foldr ontoFirst (part :: parts) = (text ++ part) :: parts := by
  induction text with
  | nil => rfl
  | cons _ _ ih => rw [foldr_cons, ih, ontoFirst, cons_append]

theorem IsArgument.splitFrom_append (argument : IsArgument text) (rest : List Char) :
    splitFrom {} (text ++ rest) = text.foldr ontoFirst (splitFrom {} rest) := by
  obtain ⟨bare, strings, enclosed⟩ := argument
  exact Macro.splitFrom_append enclosed rest (Option.some_ne_none _).symm strings (nil_append bare).symm rfl

theorem IsArgument.cons_space (argument : IsArgument text) : IsArgument (' ' :: text) := by
  obtain ⟨bare, strings, enclosed⟩ := argument
  refine ⟨' ' :: bare, by rw [outside?, strings]; rfl, enclosed.brackets, enclosed.angles, ?_⟩
  intro before comma
  cases before with
  | nil => cases (cons_prefix_cons.mp comma).1
  | cons _ before =>
    obtain ⟨rfl, inBare⟩ := cons_prefix_cons.mp comma
    exact enclosed.commas before inBare

theorem map_trim_splitFrom {parts : List (List Char)} (filled : parts ≠ [])
    (arguments : ∀ part ∈ parts, IsArgument part) :
    (splitFrom {} (", ".toList.intercalate parts)).map trim = parts.map trim := by
  obtain ⟨part, parts, rfl⟩ := exists_cons_of_ne_nil filled
  obtain ⟨argument, arguments⟩ := forall_mem_cons.mp arguments
  refine map_trim_split IsArgument ?_ ?_ (fun part => IsArgument.cons_space) argument arguments
  · intro part argument
    have alone := argument.splitFrom_append []
    rwa [splitFrom, foldr_ontoFirst, append_nil] at alone
  · intro part rest argument
    rw [argument.splitFrom_append, splitFrom, if_pos (by rfl), foldr_ontoFirst, append_nil]

/-! ## The end of a call -/

/-- Where the search goes on behind some text, it finds the same end, with the text in front of it. -/
def behind (front : List Char) (found : Option (List Char × List Char)) : Option (List Char × List Char) :=
  found.map fun (inner, rest) => (front ++ inner, rest)

theorem behind_behind (front more : List Char) (found : Option (List Char × List Char)) :
    behind front (behind more found) = behind (front ++ more) found := by
  cases found <;> simp [behind]

section Search

variable (depth : Nat) (cs : List Char)

theorem closeCall?_other {c : Char} (opens : c ≠ '(') (closes : c ≠ ')') :
    closeCall? depth none (c :: cs) = behind [c] (closeCall? depth (if isQuote c then some c else none) cs) := by
  rw [closeCall?.eq_def]
  simp [opens, closes, behind]

theorem closeCall?_escape (quote c : Char) :
    closeCall? depth (some quote) ('\\' :: c :: cs) = behind ['\\', c] (closeCall? depth (some quote) cs) := rfl

theorem closeCall?_string (quote : Char) {c : Char} (plain : c ≠ '\\') :
    closeCall? depth (some quote) (c :: cs) =
      behind [c] (closeCall? depth (if c == quote then none else some quote) cs) := by
  rw [closeCall?]
  · rfl
  · exact fun _ _ same => absurd same plain

end Search

/-- A character outside of strings changes how many parentheses are open as it changes what is to be closed. -/
theorem closeCall?_cons (plain : ¬isQuote c) (turned : turn stack c = some next) (cs : List Char) :
    closeCall? (stack.count ')') none (c :: cs) = behind [c] (closeCall? (next.count ')') none cs) := by
  have other (opens : c ≠ '(') (closes : c ≠ ')') (same : next.count ')' = stack.count ')') :
      closeCall? (stack.count ')') none (c :: cs) = behind [c] (closeCall? (next.count ')') none cs) := by
    rw [closeCall?_other _ _ opens closes, if_neg plain, same]
  rcases turn_cases turned with ⟨close, opens, rfl⟩ | ⟨closes, rfl⟩ | ⟨noBracket, rfl⟩
  · simp only [mem_cons, Prod.mk.injEq, not_mem_nil, or_false] at opens
    rcases opens with ⟨rfl, rfl⟩ | ⟨rfl, rfl⟩ | ⟨rfl, rfl⟩
    · rw [count_cons_self]
      rfl
    · exact other (by decide) (by decide) (count_cons_of_ne (by decide))
    · exact other (by decide) (by decide) (count_cons_of_ne (by decide))
  · simp only [mem_cons, not_mem_nil, or_false] at closes
    rcases closes with rfl | rfl | rfl
    · rw [count_cons_self]
      rfl
    · exact other (by decide) (by decide) (count_cons_of_ne (by decide)).symm
    · exact other (by decide) (by decide) (count_cons_of_ne (by decide)).symm
  · simp only [mem_cons, not_mem_nil, or_false, not_or] at noBracket
    exact other noBracket.1 noBracket.2.2.2.1 rfl

/-- The end of a call is looked for behind an argument as if nothing stood before. -/
theorem closeCall?_append (rest : List Char) {quote : Option Char} (real : quote ≠ some '\\')
    (strings : outside? quote text = some bare) (closed : pending? stack bare = some []) :
    closeCall? (stack.count ')') quote (text ++ rest) = behind text (closeCall? 0 none rest) := by
  fun_induction outside? quote text generalizing bare stack with
  | case1 =>
    cases strings
    cases closed
    simp [behind]
  | case2 => cases strings
  | case3 c _ begins ih =>
    have noParen : c ≠ '(' ∧ c ≠ ')' := by
      constructor
      · rintro rfl
        cases begins
      · rintro rfl
        cases begins
    rw [cons_append, closeCall?_other _ _ noParen.1 noParen.2, if_pos begins,
      ih (some_ne_backslash begins) strings closed, behind_behind]
    rfl
  | case4 _ _ plain ih =>
    obtain ⟨later, laterStrings, rfl⟩ := Option.map_eq_some_iff.mp strings
    obtain ⟨next, turned, laterClosed⟩ := Option.bind_eq_some_iff.mp closed
    rw [cons_append, closeCall?_cons plain turned, ih real laterStrings laterClosed, behind_behind]
    rfl
  | case5 _ _ _ ih =>
    rw [cons_append, cons_append, closeCall?_escape, ih real strings closed, behind_behind]
    rfl
  | case6 quote c _ lone ih =>
    rw [cons_append, closeCall?_string _ _ quote (ne_backslash_of_outside? real lone strings),
      ih (goesOn_ne_backslash real c) strings closed, behind_behind]
    rfl

theorem closeCall?_listing {parts : List (List Char)} (arguments : ∀ part ∈ parts, IsArgument part)
    (rest : List Char) :
    closeCall? 0 none (", ".toList.intercalate parts ++ ')' :: rest) =
      some (", ".toList.intercalate parts, rest) := by
  induction parts with
  | nil => rfl
  | cons part parts ih =>
    obtain ⟨⟨bare, strings, enclosed⟩, arguments⟩ := forall_mem_cons.mp arguments
    have pass (rest : List Char) : closeCall? 0 none (part ++ rest) = behind part (closeCall? 0 none rest) :=
      closeCall?_append rest (Option.some_ne_none _).symm strings enclosed.brackets
    cases parts with
    | nil =>
      rw [intercalate_singleton, pass]
      exact congrArg (fun inner => some (inner, rest)) (append_nil part)
    | cons =>
      have between (more : List Char) :
          closeCall? 0 none (", ".toList ++ more) = behind ", ".toList (closeCall? 0 none more) := by
        rw [show ", ".toList ++ more = ',' :: ' ' :: more from rfl,
          closeCall?_other _ _ (by decide) (by decide), if_neg (by decide),
          closeCall?_other _ _ (by decide) (by decide), if_neg (by decide), behind_behind]
        rfl
      rw [intercalate_cons_cons, append_assoc, append_assoc, pass, between, ih arguments,
        behind_behind]
      rfl

/-! ## Whole calls -/

namespace Call

/-- The arguments as they stand between the parentheses of a call. -/
def listed (args : List String) : List Char := (", ".intercalate args).toList

/-- A call in writing. -/
def write (name : String) (args : List String) : List Char := name.toList ++ '(' :: listed args ++ [')']

variable {args : List String}

theorem read?_listed (arguments : ∀ arg ∈ args, IsArgument arg.toList) (rest : List Char) :
    read? ('(' :: (listed args ++ ')' :: rest)) = some ⟨[], listed args, rest⟩ := by
  have closed : closeCall? 0 none (listed args ++ ')' :: rest) = some (listed args, rest) := by
    rw [listed, String.toList_intercalate]
    exact closeCall?_listing (forall_mem_map.mpr arguments) rest
  rw [read?, dropWhile_cons_of_neg (by decide), takeWhile_cons_of_neg (by decide)]
  simp only [closed, Option.map_some]

/-- A list of trimmed texts is blank only if it is empty or holds one empty text. -/
theorem trim_listed_ne_nil (trimmed : ∀ arg ∈ args, trimString arg = arg) (filled : args ≠ [])
    (notBlank : args ≠ [""]) :
    trim (listed args) ≠ [] := by
  obtain ⟨arg, others, rfl⟩ := exists_cons_of_ne_nil filled
  rw [listed, String.toList_intercalate]
  cases others with
  | nil =>
    rw [map_singleton, intercalate_singleton]
    intro blank
    have empty : arg = "" := by simpa [trimString, blank] using (trimmed arg mem_cons_self).symm
    exact notBlank (congrArg ([·]) empty)
  | cons next others =>
    have comma : ',' ∈ ", ".toList.intercalate ((arg :: next :: others).map String.toList) := by
      rw [map_cons, map_cons, intercalate_cons_cons]
      exact mem_append_left _ (mem_append_right _ (by decide))
    exact trim_ne_nil comma (by decide)

theorem splitArguments_listed (arguments : ∀ arg ∈ args, IsArgument arg.toList)
    (trimmed : ∀ arg ∈ args, trimString arg = arg) (notBlank : args ≠ [""]) : splitArguments (listed args) = args := by
  by_cases empty : args = []
  · subst empty
    rfl
  · have visible := trim_listed_ne_nil trimmed empty notBlank
    have divided : (splitFrom {} (listed args)).map trim = (args.map String.toList).map trim := by
      rw [listed, String.toList_intercalate]
      exact map_trim_splitFrom (by simpa using empty) (forall_mem_map.mpr arguments)
    calc splitArguments (listed args)
        = ((splitFrom {} (listed args)).map trim).map String.ofList := by
          rw [splitArguments, if_neg (by simpa using visible), map_map]
          rfl
      _ = args.map trimString := by
          rw [divided, map_map, map_map]
          rfl
      _ = args := (map_congr_left trimmed).trans (map_id args)

/-- Arguments with a string that holds brackets and an escaped quote, with angle brackets, with a comparison, and an
empty one. -/
def mixedArguments : List String := ["f([a, \")\\\"\"], 0)", "<1, 2, 3>", "i->j > 'é,('", ""]

end Call

end ScriptLint.Macro
