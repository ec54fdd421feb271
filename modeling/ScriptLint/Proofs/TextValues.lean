import ScriptLint.Macro.Value
import ScriptLint.Proofs.TextEnds

/-!
# Texts as values

A text that is written as a literal is read back as the value of a body. Classifying a body and undoing its escapes
walk over it separately, and they agree on where a quote is escaped: a body of several literals has no value.
-/

namespace ScriptLint.Macro.Value

open Text List

/-- How a character is written inside the quotes of a literal. -/
def escape (c : Char) : List Char :=
  match c with
  | '\\' => ['\\', '\\']
  | '"' => ['\\', '"']
  | '\n' => ['\\', 'n']
  | '\t' => ['\\', 't']
  | c => [c]

/-- A text with its escapes, between quotes. -/
def literal (text : String) : List Char :=
  '"' :: (text.toList.flatMap escape ++ ['"'])

/-- Literals one after the other, each of the later ones behind some other text. -/
def literals (text : String) (others : List (List Char × String)) : List Char :=
  literal text ++ others.flatMap fun (between, other) => between ++ literal other

/-- A character is written as itself, or behind a backslash. -/
theorem escape_cases (c : Char) :
    escape c = [c] ∧ c ≠ '\\' ∧ c ≠ '"' ∨
      ∃ d, escape c = ['\\', d] ∧ ∀ cs, unescape ('\\' :: d :: cs) = c :: unescape cs := by
  unfold escape
  split
  · exact .inr ⟨'\\', rfl, fun _ => rfl⟩
  · exact .inr ⟨'"', rfl, fun _ => rfl⟩
  · exact .inr ⟨'n', rfl, fun _ => rfl⟩
  · exact .inr ⟨'t', rfl, fun _ => rfl⟩
  · next backslash quote _ _ => exact .inl ⟨rfl, backslash, quote⟩

theorem unescape_escaped (cs : List Char) : unescape (cs.flatMap escape) = cs := by
  induction cs with
  | nil => rfl
  | cons c _ ih =>
    rw [flatMap_cons]
    rcases escape_cases c with ⟨plain, backslash, _⟩ | ⟨d, escaped, undone⟩
    · rw [plain]
      simp [unescape, backslash, ih]
    · rw [escaped]
      exact (undone _).trans (congrArg (c :: ·) ih)

/-- No escape runs over the end of an escaped text, so a quote behind it is bare. -/
theorem hasBareQuote_escaped (cs rest : List Char) : hasBareQuote (cs.flatMap escape ++ rest) = hasBareQuote rest := by
  induction cs with
  | nil => rfl
  | cons c _ ih =>
    rw [flatMap_cons]
    rcases escape_cases c with ⟨plain, backslash, quote⟩ | ⟨d, escaped, _⟩
    · rw [plain]
      simp [hasBareQuote, backslash, quote, ih]
    · rw [escaped]
      exact ih

/-- The value of a text that begins as none of the words for truth values does. -/
theorem ofTrimmed?_cons {c : Char} (cs : List Char) (noWord : c ∉ ['T', 't', 'F', 'f']) :
    ofTrimmed? (c :: cs) =
      if c = '"' then if cs.getLast? == some '"' then quoted? cs else none else number? (c :: cs) := by
  have apart {word : String} {first : Char} {rest : List Char} (chars : word.toList = first :: rest)
      (begins : first ∈ ['T', 't', 'F', 'f']) : String.ofList (c :: cs) ≠ word := by
    intro same
    have both : c :: cs = first :: rest := by rw [← chars, ← same, String.toList_ofList]
    exact noWord ((List.cons.inj both).1 ▸ begins)
  unfold ofTrimmed?
  split
  · next same => cases same
  · next same _ => exact absurd same (apart rfl (by decide))
  · next same _ => exact absurd same (apart rfl (by decide))
  · next same _ => exact absurd same (apart rfl (by decide))
  · next same _ => exact absurd same (apart rfl (by decide))
  · next same _ _ _ _ =>
    cases same
    rfl
  · next other _ _ _ _ => exact (if_neg fun quote => other cs (congrArg (· :: cs) quote)).symm

/-- White space around a text in quotes has no influence on its value. -/
theorem parse?_quoted {lead tail : List Char} (before : ∀ c ∈ lead, isWhite c)
    (behind : ∀ c ∈ tail, isWhite c) (inner : List Char) :
    parse? (String.ofList (lead ++ ('"' :: (inner ++ ['"']) ++ tail))) =
      if hasBareQuote inner then none else some (.str (String.ofList (unescape inner))) := by
  have ends : trimEnd (inner ++ ['"'] ++ tail) = inner ++ ['"'] := by
    have cut : trimEnd (inner ++ ['"'] ++ tail) = trimEnd (inner ++ ['"']) := by
      rw [trimEnd, reverse_append, dropWhile_append_of_pos fun c found => behind c (mem_reverse.mp found)]
      rfl
    rw [cut, trimEnd_of_visible inner (cons_ne_nil _ _) (forall_mem_singleton.mpr rfl)]
  have trimmed : trim (lead ++ ('"' :: (inner ++ ['"']) ++ tail)) = '"' :: (inner ++ ['"']) :=
    (trim_append before (cons_ne_nil '"' []) (forall_mem_singleton.mpr rfl) _).trans (congrArg _ ends)
  rw [parse?, String.toList_ofList, trimmed, ofTrimmed?_cons _ (by decide), if_pos rfl, quoted?, dropLast_concat,
    getLast?_concat]
  rfl

/-- A literal is read back as its text, and several literals have no value, whatever stands between them. -/
theorem parse?_literals {lead tail : List Char} (before : ∀ c ∈ lead, isWhite c = true)
    (behind : ∀ c ∈ tail, isWhite c = true) (text : String) (others : List (List Char × String)) :
    parse? (String.ofList (lead ++ (literals text others ++ tail))) =
      if others = [] then some (.str text) else none := by
  have escaped := hasBareQuote_escaped text.toList
  cases others using List.reverseRecOn with
  | nil =>
    rw [literals, flatMap_nil, append_nil, literal, parse?_quoted before behind, ← append_nil (flatMap _ _), escaped,
      append_nil, unescape_escaped, String.ofList_toList]
    rfl
  | append_singleton others last =>
    -- The quote that closes the first literal stands between those of the body.
    let more := others.flatMap fun (between, other) => between ++ literal other
    let inner := text.toList.flatMap escape ++ '"' :: (more ++ (last.1 ++ '"' :: last.2.toList.flatMap escape))
    have whole : literals text (others ++ [last]) = '"' :: (inner ++ ['"']) := by
      simp [literals, literal, inner, more]
    rw [whole, parse?_quoted before behind, escaped]
    simp [hasBareQuote]

theorem parse?_literals_joined :
    parse? " \"a\\\\\\\"\\n\"\t" = some (.str "a\\\"\n") ∧ parse? "\"\\\\\" + \"\\\"\"" = none :=
  ⟨@parse?_literals [' '] ['\t'] (forall_mem_singleton.mpr rfl) (forall_mem_singleton.mpr rfl) "a\\\"\n" [],
    @parse?_literals [] [] (forall_mem_nil _) (forall_mem_nil _) "\\" [(" + ".toList, "\"")]⟩

end ScriptLint.Macro.Value
