import Mathlib.Data.List.Nodup
import ScriptLint.Macro.Definition
import ScriptLint.Proofs.Lines
import ScriptLint.Proofs.TextEnds

/-!
# Definitions in writing

A definition is written as its name, the parameters in parentheses right behind it, a space and the body. Reading takes
the name up to the first character that cannot continue it, and the parameters up to the first closing parenthesis; no
identifier holds either, so what was written is read back. Everything that reading accepts can be written: its names are
identifiers, no two parameters are alike, and its body is trimmed.
-/

namespace ScriptLint

open List

namespace Text

/-! ## Identifiers -/

variable {c : Char} {cs : List Char}

theorem ne_of_isIdentStart (start : isIdentStart c) (other : Char) (outside : isIdentStart other = false) :
    c ≠ other := by
  rintro rfl
  rw [start] at outside
  cases outside

theorem isIdent_iff :
    isIdent cs ↔ ∃ c rest, cs = c :: rest ∧ isIdentStart c ∧ ∀ d ∈ rest, isIdentPart d := by
  cases cs with
  | nil => simp [isIdent]
  | cons c =>
    by_cases start : isIdentStart c
    · simp [isIdent, scanIdent, start]
    · simp [isIdent, scanIdent, start]

theorem isIdentPart_of_isIdent (ident : isIdent cs) : ∀ c ∈ cs, isIdentPart c := by
  obtain ⟨c, rest, rfl, start, parts⟩ := isIdent_iff.mp ident
  exact forall_mem_cons.mpr ⟨isIdentPart_of_isIdentStart start, parts⟩

theorem not_mem_of_isIdent (ident : isIdent cs) (outside : isIdentPart c = false) : c ∉ cs := by
  intro found
  rw [isIdentPart_of_isIdent ident c found] at outside
  cases outside

theorem isWhite_of_isIdentPart (part : isIdentPart c) : isWhite c = false := by
  simp only [isIdentPart, isLetter, isDigit, Bool.or_eq_true, Bool.and_eq_true, decide_eq_true_eq, beq_iff_eq,
    Char.le_def, UInt32.le_iff_toNat_le] at part
  have range : 48 ≤ c.toNat ∧ c.toNat ≤ 122 := by
    rcases part with ((letter | capital) | digit) | rfl
    · exact ⟨Nat.le_trans (by decide) letter.1, letter.2⟩
    · exact ⟨Nat.le_trans (by decide) capital.1, Nat.le_trans capital.2 (by decide)⟩
    · exact ⟨digit.1, Nat.le_trans digit.2 (by decide)⟩
    · decide
  refine Bool.eq_false_iff.mpr fun white => ?_
  simp only [isWhite, Bool.or_eq_true, Bool.and_eq_true, decide_eq_true_eq, beq_iff_eq] at white
  omega

/-- A word is read up to a character that cannot continue it. -/
theorem scanIdent_word {word rest : List Char} (ident : isIdent word)
    (stops : ∀ c ∈ rest.head?, isIdentPart c = false) : scanIdent (word ++ rest) = (word, rest) := by
  obtain ⟨first, more, rfl, start, parts⟩ := isIdent_iff.mp ident
  have ends : rest.takeWhile isIdentPart = [] ∧ rest.dropWhile isIdentPart = rest := by
    cases rest with
    | nil => exact ⟨rfl, rfl⟩
    | cons c =>
      have outside := Bool.eq_false_iff.mp (stops c rfl)
      exact ⟨takeWhile_cons_of_neg outside, dropWhile_cons_of_neg outside⟩
  rw [cons_append, scanIdent, if_pos start, takeWhile_append_of_pos parts,
    dropWhile_append_of_pos parts, ends.1, ends.2, append_nil]

/-- What is read as a word is an identifier. -/
theorem isIdent_scanIdent (found : (scanIdent cs).1 ≠ []) : isIdent (scanIdent cs).1 := by
  cases cs with
  | nil => exact absurd rfl found
  | cons c =>
    rw [scanIdent] at found ⊢
    split at found
    · rename_i start
      rw [if_pos start]
      exact isIdent_iff.mpr ⟨c, _, rfl, start, fun d => mem_takeWhile_imp⟩
    · exact absurd rfl found

end Text

namespace Macro

open Text

namespace Definition

def params : Definition → List String
  | object _ => []
  | function params _ _ => params

/-- The parameters as they are listed, dots for any number of others at their end. -/
def listed (params : List String) (variadic : Bool) : List String :=
  params ++ if variadic then ["..."] else []

/-- The text that defines a name. -/
def write (name : String) : Definition → String
  | object body => name ++ " " ++ body
  | function params variadic body => name ++ "(" ++ ", ".intercalate (listed params variadic) ++ ") " ++ body

/-- The parameters are identifiers, all different, and the body is trimmed. -/
structure Proper (definition : Definition) : Prop where
  idents : ∀ param ∈ definition.params, isIdent param.toList = true
  distinct : definition.params.Nodup
  trimmed : trimString definition.body = definition.body

end Definition

/-! ## Lists of parameters -/

variable {params : List String} {variadic : Bool} {name : String}

/-- A listed parameter has characters, and all of them can be seen and neither divide nor end a list. -/
theorem Definition.plain_of_mem_listed (idents : ∀ param ∈ params, isIdent param.toList) {param : String}
    (found : param ∈ listed params variadic) :
    param.toList ≠ [] ∧ ∀ c ∈ param.toList, isWhite c = false ∧ c ≠ ',' ∧ c ≠ ')' := by
  rcases mem_append.mp found with found | dots
  · have ident := idents param found
    obtain ⟨first, more, whole, _⟩ := isIdent_iff.mp ident
    refine ⟨whole ▸ cons_ne_nil first more, fun c held =>
      ⟨isWhite_of_isIdentPart (isIdentPart_of_isIdent ident c held), ?_, ?_⟩⟩
    · rintro rfl
      exact not_mem_of_isIdent ident (by decide) held
    · rintro rfl
      exact not_mem_of_isIdent ident (by decide) held
  · obtain rfl : param = "..." := by
      cases variadic with
      | false => cases dots
      | true => exact mem_singleton.mp dots
    exact ⟨by decide, by simp; decide⟩

/-- Reading the parameters of a list one after another gives them back. -/
theorem readParams_listed (name : String) {before : List String} {pieces : List (List Char)}
    (spelled : pieces.map trim = (Definition.listed params variadic).map String.toList)
    (idents : ∀ param ∈ params, isIdent param.toList) (distinct : (before ++ params).Nodup) :
    readParams name before false pieces = .ok (before ++ params, variadic) := by
  induction params generalizing before pieces with
  | nil =>
    rw [append_nil]
    cases variadic with
    | false =>
      obtain rfl : pieces = [] := map_eq_nil_iff.mp spelled
      rfl
    | true =>
      obtain ⟨piece, rfl, dots⟩ := map_eq_singleton_iff.mp spelled
      rw [readParams, dots]
      rfl
  | cons param _ ih =>
    obtain ⟨ident, idents⟩ := forall_mem_cons.mp idents
    obtain ⟨piece, pieces, rfl, first, spelled⟩ := map_eq_cons_iff.mp spelled
    have absent : param ∉ before := fun found =>
      disjoint_of_nodup_append distinct found mem_cons_self
    have noDots : (param == "...") = false := by
      rw [beq_eq_false_iff_ne]
      rintro rfl
      cases ident
    rw [append_cons] at distinct ⊢
    simpa [readParams, first, ident, noDots, absent] using ih spelled idents distinct

/-- What is read as parameters is as it should be, if what was read before is. -/
theorem readParams_proper {before : List String} {more : Bool} {pieces : List (List Char)}
    (read : readParams name before variadic pieces = .ok (params, more))
    (idents : ∀ param ∈ before, isIdent param.toList) (distinct : before.Nodup) :
    (∀ param ∈ params, isIdent param.toList) ∧ params.Nodup := by
  fun_induction readParams name before variadic pieces with
  | case1 =>
    cases read
    exact ⟨idents, distinct⟩
  | case2 | case4 | case5 => cases read
  | case3 _ _ _ _ _ _ _ ih => exact ih read idents distinct
  | case6 before _ _ _ param _ _ ident fresh ih =>
    have isIdent : Text.isIdent param.toList := by simpa using ident
    have absent : param ∉ before := by simpa using fresh
    refine ih read (forall_mem_append.mpr ⟨idents, forall_mem_singleton.mpr isIdent⟩) ?_
    exact distinct.append (nodup_singleton param) (disjoint_singleton.mpr absent)

theorem paramList_proper {inner : List Char} (read : paramList name inner = .ok (params, variadic)) :
    (∀ param ∈ params, isIdent param.toList) ∧ params.Nodup := by
  rw [paramList] at read
  split at read
  · cases read
    exact ⟨forall_mem_nil _, nodup_nil⟩
  · exact readParams_proper read (forall_mem_nil _) nodup_nil

theorem paramList_listed (name : String) (variadic : Bool) (idents : ∀ param ∈ params, isIdent param.toList)
    (distinct : params.Nodup) :
    paramList name (", ".intercalate (Definition.listed params variadic)).toList = .ok (params, variadic) := by
  have plain : ∀ part ∈ (Definition.listed params variadic).map String.toList,
      part ≠ [] ∧ ∀ c ∈ part, isWhite c = false ∧ c ≠ ',' ∧ c ≠ ')' :=
    forall_mem_map.mpr fun param found => Definition.plain_of_mem_listed idents found
  have visible : ∀ part ∈ (Definition.listed params variadic).map String.toList, ∀ c ∈ part, isWhite c = false :=
    fun part found c held => ((plain part found).2 c held).1
  rw [paramList, String.toList_intercalate, trim_listing (fun part found => (plain part found).1) visible]
  cases parts : (Definition.listed params variadic).map String.toList with
  | nil =>
    obtain ⟨rfl, noDots⟩ := append_eq_nil_iff.mp (map_eq_nil_iff.mp parts)
    cases variadic with
    | false => rfl
    | true => cases noDots
  | cons part others =>
    rw [parts] at plain visible
    have noComma : ∀ other ∈ part :: others, ',' ∉ other := fun other found held =>
      ((plain other found).2 ',' held).2.1 rfl
    have split : (splitAtChars (· == ',') (", ".toList.intercalate (part :: others))).map trim =
        (Definition.listed params variadic).map String.toList := by
      rw [parts, map_trim_split (',' ∉ ·) _ _ _ (noComma part mem_cons_self)
        fun other found => noComma other (mem_cons_of_mem part found)]
      · exact (map_congr_left fun other found => trim_of_visible (visible other found)).trans (map_id _)
      · intro part clear
        rw [splitAtChars_beq, splitOn_eq_singleton clear]
      · intro part rest clear
        rw [splitAtChars_beq, splitAtChars_beq, splitOn_append_cons_self_of_not_mem clear]
      · intro part clear
        exact not_mem_cons_of_ne_of_not_mem (by decide) clear
    have filled : (", ".toList.intercalate (part :: others)).isEmpty = false := by
      obtain ⟨first, more, rfl⟩ := exists_cons_of_ne_nil (plain part mem_cons_self).1
      rw [intercalate_cons_cons_left, isEmpty_cons]
    rw [filled]
    exact readParams_listed name split idents distinct

/-! ## Whole definitions -/

theorem parseDefine_eq {text word rest : List Char} (scanned : scanIdent (text.dropWhile isLineBlank) = (word, rest)) :
    parseDefine text =
      if word = [] then .error .missingName
      else if String.ofList word == "defined" then .error .reservedName
      else (readDefinition (String.ofList word) rest).map fun definition =>
        ⟨String.ofList word, (text.takeWhile isLineBlank).length, definition⟩ := by
  simp only [parseDefine, drop_length_takeWhile, scanned]
  cases word with
  | nil => rfl
  | cons => rfl

/-- A name is read up to a character that cannot continue it; what follows decides the definition. -/
theorem parseDefine_ident (ident : isIdent name.toList) (free : name ≠ "defined") {c : Char}
    (outside : isIdentPart c = false) (rest : List Char) :
    parseDefine (name.toList ++ c :: rest) =
      (readDefinition name (c :: rest)).map fun definition => ⟨name, 0, definition⟩ := by
  obtain ⟨first, more, whole, start, _⟩ := isIdent_iff.mp ident
  have noBlank : ¬isLineBlank first := by
    simp [isLineBlank, ne_of_isIdentStart start ' ' (by decide), ne_of_isIdentStart start '\t' (by decide)]
  have front : (name.toList ++ c :: rest).takeWhile isLineBlank = [] := by
    rw [whole, cons_append, takeWhile_cons_of_neg noBlank]
  have back : (name.toList ++ c :: rest).dropWhile isLineBlank = name.toList ++ c :: rest := by
    rw [whole, cons_append, dropWhile_cons_of_neg noBlank]
  have scanned : scanIdent ((name.toList ++ c :: rest).dropWhile isLineBlank) = (name.toList, c :: rest) := by
    rw [back]
    exact scanIdent_word ident fun d front => Option.some.inj front ▸ outside
  have filled : name.toList ≠ [] := whole ▸ cons_ne_nil first more
  rw [parseDefine_eq scanned, if_neg filled, String.ofList_toList, if_neg (by simpa using free), front, length_nil]

/-- The parameters of a definition end at the first closing parenthesis. -/
theorem readDefinition_params (name : String) {inner : List Char} (inside : ')' ∉ inner) (body : List Char) :
    readDefinition name ('(' :: (inner ++ ')' :: body)) =
      (paramList name inner).map fun (params, variadic) =>
        .function params variadic (String.ofList (trim body)) := by
  have goesOn : ∀ c ∈ inner, (c != ')') := fun c found => bne_iff_ne.mpr fun same => inside (same ▸ found)
  have front : (inner ++ ')' :: body).takeWhile (· != ')') = inner := by
    rw [takeWhile_append_of_pos goesOn, takeWhile_cons_of_neg (by simp), append_nil]
  have back : (inner ++ ')' :: body).dropWhile (· != ')') = ')' :: body := by
    rw [dropWhile_append_of_pos goesOn, dropWhile_cons_of_neg (by simp)]
  rw [readDefinition, front, back]

theorem noParen_listed (idents : ∀ param ∈ params, isIdent param.toList) (variadic : Bool) :
    ')' ∉ (", ".intercalate (Definition.listed params variadic)).toList := by
  rw [String.toList_intercalate]
  have apart : ∀ c ∈ ", ".toList.intercalate ((Definition.listed params variadic).map String.toList), c ≠ ')' := by
    have between : ')' ∉ ", ".toList := by decide
    refine forall_mem_intercalate (fun c held same => between (same ▸ held)) ?_
    intro part found c held
    obtain ⟨param, listed, rfl⟩ := mem_map.mp found
    exact ((Definition.plain_of_mem_listed idents listed).2 c held).2.2
  exact fun found => apart ')' found rfl

theorem trimString_ofList_trim (cs : List Char) : trimString (String.ofList (trim cs)) = String.ofList (trim cs) := by
  rw [trimString, String.toList_ofList, trim_trim]

theorem exists_of_map_eq_ok {ε α β : Type} {f : α → β} {result : Except ε α} {b : β} (mapped : result.map f = .ok b) :
    ∃ a, result = .ok a ∧ f a = b := by
  cases result with
  | error => cases mapped
  | ok a => exact ⟨a, rfl, Except.ok.inj mapped⟩

theorem readDefinition_proper {rest : List Char} {definition : Definition}
    (read : readDefinition name rest = .ok definition) : definition.Proper := by
  unfold readDefinition at read
  split at read
  · rename_i rest
    split at read
    · cases read
    · rename_i close body _
      obtain ⟨found, listed, rfl⟩ := exists_of_map_eq_ok read
      obtain ⟨idents, distinct⟩ := paramList_proper listed
      exact ⟨idents, distinct, trimString_ofList_trim body⟩
  · cases read
    exact ⟨forall_mem_nil _, nodup_nil, trimString_ofList_trim rest⟩

/-- What reading accepts: a name that is an identifier and free, and a definition that could be written. -/
theorem parseDefine_proper {text : List Char} {defined : Defined} (read : parseDefine text = .ok defined) :
    isIdent defined.name.toList ∧ defined.name ≠ "defined" ∧ defined.definition.Proper := by
  cases scanned : scanIdent (text.dropWhile isLineBlank) with
  | mk =>
    rw [parseDefine_eq scanned] at read
    split at read
    · cases read
    · rename_i filled
      split at read
      · cases read
      · rename_i free
        obtain ⟨definition, found, rfl⟩ := exists_of_map_eq_ok read
        have ident := isIdent_scanIdent (by rwa [scanned])
        rw [scanned] at ident
        refine ⟨?_, by simpa using free, readDefinition_proper found⟩
        rw [String.toList_ofList]
        exact ident

theorem ofList_trim_space {body : String} (trimmed : trimString body = body) :
    String.ofList (trim (' ' :: body.toList)) = body := by
  exact trimmed

/-- A definition that was written is read back. -/
theorem parseDefine_write (ident : isIdent name.toList) (free : name ≠ "defined") {definition : Definition}
    (proper : definition.Proper) : parseDefine (definition.write name).toList = .ok ⟨name, 0, definition⟩ := by
  obtain ⟨idents, distinct, trimmed⟩ := proper
  cases definition with
  | object body =>
    have text : (Definition.write name (.object body)).toList = name.toList ++ ' ' :: body.toList := by
      simp [Definition.write]
    rw [text, parseDefine_ident ident free (by decide)]
    exact congrArg (Except.ok ∘ Defined.mk name 0 ∘ Definition.object) (ofList_trim_space trimmed)
  | function params variadic body =>
    have text : (Definition.write name (.function params variadic body)).toList =
        name.toList ++ '(' :: ((", ".intercalate (Definition.listed params variadic)).toList ++
          ')' :: ' ' :: body.toList) := by
      simp [Definition.write]
    have idents : ∀ param ∈ params, isIdent param.toList := idents
    rw [text, parseDefine_ident ident free (by decide), readDefinition_params name (noParen_listed idents variadic),
      paramList_listed name variadic idents distinct, @ofList_trim_space body trimmed]
    rfl

/-- Reading a definition undoes writing it, and everything that reading accepts could have been written: the name is an
identifier other than `defined`, the parameters are different identifiers and the body is trimmed. Writing it and
reading it again therefore changes nothing but the offset of the name. -/
theorem parseDefine_inverts_write :
    (∀ (name : String) (definition : Definition), isIdent name.toList = true → name ≠ "defined" → definition.Proper →
      parseDefine (definition.write name).toList = .ok ⟨name, 0, definition⟩) ∧
    ∀ (text : List Char) (defined : Defined), parseDefine text = .ok defined →
      isIdent defined.name.toList = true ∧ defined.name ≠ "defined" ∧ defined.definition.Proper ∧
        parseDefine (defined.definition.write defined.name).toList = .ok { defined with offset := 0 } := by
  constructor
  · intro name definition ident free proper
    exact parseDefine_write ident free proper
  · intro text defined read
    obtain ⟨ident, free, proper⟩ := parseDefine_proper read
    exact ⟨ident, free, proper, parseDefine_write ident free proper⟩

/-- One name with parameters, blanks in every place that allows them and a body of two lines; and one without, whose
body begins with a parenthesis. -/
theorem parseDefine_inverts_write_spaced :
    parseDefine " \tLOG( fmt ,\t... )  (a)\n b, c \n".toList = .ok ⟨"LOG", 2, .function ["fmt"] true "(a)\n b, c"⟩ ∧
      parseDefine "LOG(fmt, ...) (a)\n b, c".toList = .ok ⟨"LOG", 0, .function ["fmt"] true "(a)\n b, c"⟩ ∧
      (Definition.object "(x) x").Proper ∧
      parseDefine ((Definition.object "(x) x").write "SPACED").toList = .ok ⟨"SPACED", 0, .object "(x) x"⟩ := by
  have read : parseDefine " \tLOG( fmt ,\t... )  (a)\n b, c \n".toList =
      .ok ⟨"LOG", 2, .function ["fmt"] true "(a)\n b, c"⟩ := by decide +kernel
  have proper : (Definition.object "(x) x").Proper := ⟨by decide, by decide, by decide +kernel⟩
  obtain ⟨_, _, _, again⟩ := parseDefine_inverts_write.2 _ _ read
  refine ⟨read, ?_, proper, parseDefine_inverts_write.1 "SPACED" _ (by decide +kernel) (by decide) proper⟩
  have written : (Definition.function ["fmt"] true "(a)\n b, c").write "LOG" = "LOG(fmt, ...) (a)\n b, c" := by
    decide +kernel
  rwa [written] at again

end Macro

end ScriptLint
