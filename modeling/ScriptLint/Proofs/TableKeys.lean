import Mathlib.Data.List.Induction
import Mathlib.Data.List.Perm.Basic
import ScriptLint.Macro.Table
import ScriptLint.Proofs.Arenas
import ScriptLint.Proofs.DefinitionText

/-!
# Keys of tables

The key text of a table lists its names with their parameters and bodies. A body may hold line feeds, commas and
parentheses, so the text can only be read from its end: the last body begins behind the last NUL, and the name before it
behind the last line feed. Read so, it gives every definition back, and two tables have the same key text only if they
define the same.
-/

namespace ScriptLint

open List

open List

namespace Text

/-- A text is divided in one way at the last place of a character. -/
theorem eq_of_append_cons_eq {c : Char} {front other back rest : List Char} (last : c ∉ back) (otherLast : c ∉ rest)
    (same : front ++ c :: back = other ++ c :: rest) : front = other ∧ back = rest := by
  rcases append_eq_append_iff.mp same with ⟨between, rfl, behind⟩ | ⟨between, rfl, behind⟩
  · cases between with
    | nil => exact ⟨(append_nil front).symm, (List.cons.inj behind).2⟩
    | cons d between =>
      rw [(List.cons.inj behind).2] at last
      exact absurd (mem_append_right between mem_cons_self) last
  · cases between with
    | nil => exact ⟨append_nil other, ((List.cons.inj behind).2).symm⟩
    | cons d between =>
      rw [(List.cons.inj behind).2] at otherLast
      exact absurd (mem_append_right between mem_cons_self) otherLast

end Text

namespace Macro

open Text

namespace Table

/-! ## Names and parameters -/

section Joined

variable {params others : List String} (idents : ∀ param ∈ params, isIdent param.toList)

include idents

theorem splitOn_joined (filled : params ≠ []) :
    ((",".intercalate params).toList).splitOn ',' = params.map String.toList := by
  rw [String.toList_intercalate]
  apply splitOn_intercalate
  · exact forall_mem_map.mpr fun param found => not_mem_of_isIdent (idents param found) (by decide)
  · simpa using filled

theorem eq_nil_of_joined (blank : (",".intercalate params).toList = []) : params = [] := by
  by_contra filled
  have single : params.map String.toList = [[]] := by rw [← splitOn_joined idents filled, blank, splitOn_nil]
  obtain ⟨param, rfl, noText⟩ := map_eq_singleton_iff.mp single
  have ident := idents param mem_cons_self
  rw [noText] at ident
  cases ident

/-- Identifiers that are joined by commas are known from what they give. -/
theorem eq_of_joined_eq (otherIdents : ∀ param ∈ others, isIdent param.toList)
    (same : (",".intercalate params).toList = (",".intercalate others).toList) : params = others := by
  by_cases filled : params = []
  · subst filled
    exact (eq_nil_of_joined otherIdents same.symm).symm
  · have otherFilled : others ≠ [] := by
      rintro rfl
      exact filled (eq_nil_of_joined idents same)
    have sameTexts : params.map String.toList = others.map String.toList := by
      rw [← splitOn_joined idents filled, ← splitOn_joined otherIdents otherFilled, same]
    exact map_injective_iff.mpr (fun _ _ => String.toList_injective) sameTexts

/-- Joined identifiers hold nothing but what an identifier holds and commas. -/
theorem not_mem_joined {c : Char} (outside : isIdentPart c = false) (noComma : c ≠ ',') :
    c ∉ (",".intercalate params).toList := by
  have apart : ∀ d ∈ ",".toList.intercalate (params.map String.toList), d ≠ c := by
    refine forall_mem_intercalate ?_ (forall_mem_map.mpr ?_)
    · exact forall_mem_singleton.mpr noComma.symm
    · intro param found d held
      rintro rfl
      exact not_mem_of_isIdent (idents param found) outside held
  rw [String.toList_intercalate]
  exact fun found => apart c found rfl

/-- Dots stand behind joined identifiers only where others may follow. -/
theorem dot_mem_iff (variadic : Bool) :
    '.' ∈ (",".intercalate params).toList ++ (if variadic then "..." else "").toList ↔ variadic := by
  have noDot := not_mem_joined idents (show isIdentPart '.' = false by decide) (by decide)
  cases variadic with
  | false => simpa using noDot
  | true => simp

end Joined

theorem toList_paramText (params : List String) (variadic : Bool) (body : String) :
    (paramText (.function params variadic body)).toList =
      '(' :: ((",".intercalate params).toList ++ (if variadic then "..." else "").toList ++ [')']) := by
  simp [paramText]

/-- The parameters that are listed behind a name decide whether it has any, which, and whether others may follow. -/
theorem eq_of_paramText_eq {definition other : Definition} (proper : definition.Proper) (otherProper : other.Proper)
    (same : (paramText definition).toList = (paramText other).toList) (sameBody : definition.body = other.body) :
    definition = other := by
  cases definition with
  | object =>
    cases other with
    | object => exact congrArg Definition.object sameBody
    | function =>
      rw [toList_paramText] at same
      cases same
  | function params variadic =>
    cases other with
    | object =>
      rw [toList_paramText] at same
      cases same
    | function _ otherVariadic =>
      rw [toList_paramText, toList_paramText, List.cons.injEq] at same
      have inner := append_cancel_right same.2
      obtain rfl : variadic = otherVariadic := by
        have dots := iff_of_eq (congrArg ('.' ∈ ·) inner)
        apply Bool.eq_iff_iff.mpr
        exact (dot_mem_iff proper.idents variadic).symm.trans (dots.trans (dot_mem_iff otherProper.idents _))
      obtain rfl := eq_of_joined_eq proper.idents otherProper.idents (append_cancel_right inner)
      exact congrArg (Definition.function params variadic) sameBody

/-- A name ends where the parameters begin. -/
theorem scanIdent_paramText {name : String} (ident : isIdent name.toList) (definition : Definition) :
    scanIdent (name.toList ++ (paramText definition).toList) = (name.toList, (paramText definition).toList) := by
  apply scanIdent_word ident
  cases definition with
  | object => exact fun c front => absurd front (by simp [paramText])
  | function =>
    rw [toList_paramText]
    intro c front
    cases front
    rfl

/-! ## Lists of definitions -/

/-- What a table says: its names in order, each with its definition. -/
def outline (table : Table) : List (String × Definition) :=
  table.values.map fun entry => (entry.name, entry.definition)

/-- One definition of a key text, with the line feed that ends it moved to its front. -/
def record (entry : String × Definition) : List Char :=
  '\n' :: (entry.1.toList ++ (paramText entry.2).toList) ++ '\x00' :: entry.2.body.toList

theorem keyText_eq_flatMap (table : Table) : '\n' :: table.keyText.toList = table.outline.flatMap record ++ ['\n'] := by
  rw [keyText, outline, String.toList_join]
  induction table.values with
  | nil => rfl
  | cons entry _ ih =>
    have moved : '\n' :: (entryText entry).toList = record (entry.name, entry.definition) ++ ['\n'] := by
      simp [entryText, record]
    rw [map_cons, flatMap_cons, map_cons, flatMap_cons, ← cons_append, moved,
      append_assoc, singleton_append, ih, append_assoc]

/-- An entry whose name, parameters and body cannot be mistaken for one another. -/
def Recorded (entry : String × Definition) : Prop :=
  isIdent entry.1.toList = true ∧ entry.2.Proper ∧ '\x00' ∉ entry.2.body.toList

theorem Recorded.lineFeed_not_mem {entry : String × Definition} (recorded : Recorded entry) :
    '\n' ∉ entry.1.toList ++ (paramText entry.2).toList := by
  obtain ⟨name, definition⟩ := entry
  obtain ⟨ident, proper, _⟩ := recorded
  have noFeed : '\n' ∉ name.toList := not_mem_of_isIdent ident (by decide)
  cases definition with
  | object => simpa [paramText] using noFeed
  | function params variadic =>
    have idents : ∀ param ∈ params, isIdent param.toList := proper.idents
    have joined := not_mem_joined idents (show isIdentPart '\n' = false by decide) (by decide)
    have dots : '\n' ∉ (if variadic then "..." else "").toList := by
      cases variadic with
      | false => decide
      | true => decide
    rw [toList_paramText]
    simpa [noFeed, dots] using joined

/-- A definition can be read from the end of what lists it behind others. -/
theorem eq_of_append_record_eq {front otherFront : List Char} {entry other : String × Definition}
    (recorded : Recorded entry) (otherRecorded : Recorded other)
    (same : front ++ record entry = otherFront ++ record other) : front = otherFront ∧ entry = other := by
  have regroup (front : List Char) (entry : String × Definition) : front ++ record entry =
      (front ++ '\n' :: (entry.1.toList ++ (paramText entry.2).toList)) ++ '\x00' :: entry.2.body.toList := by
    rw [record, append_assoc]
  rw [regroup, regroup] at same
  obtain ⟨sameHeads, sameBodies⟩ := eq_of_append_cons_eq recorded.2.2 otherRecorded.2.2 same
  obtain ⟨sameFronts, sameHead⟩ :=
    eq_of_append_cons_eq recorded.lineFeed_not_mem otherRecorded.lineFeed_not_mem sameHeads
  have scanned := congrArg scanIdent sameHead
  rw [scanIdent_paramText recorded.1, scanIdent_paramText otherRecorded.1] at scanned
  obtain ⟨sameNames, sameParams⟩ := Prod.mk.inj scanned
  refine ⟨sameFronts, Prod.ext (String.toList_injective sameNames) ?_⟩
  exact eq_of_paramText_eq recorded.2.1 otherRecorded.2.1 sameParams (String.toList_injective sameBodies)

/-- The last definition can be read from the end, so all of them can. -/
theorem eq_of_flatMap_record_eq {entries others : List (String × Definition)}
    (recorded : ∀ entry ∈ entries, Recorded entry) (otherRecorded : ∀ entry ∈ others, Recorded entry)
    (same : entries.flatMap record = others.flatMap record) : entries = others := by
  induction entries using List.reverseRecOn generalizing others with
  | nil =>
    cases others with
    | nil => rfl
    | cons => cases same
  | append_singleton _ entry ih =>
    rcases eq_nil_or_concat others with rfl | ⟨others, other, rfl⟩
    · rw [flatMap_append] at same
      cases (append_eq_nil_iff.mp same).2
    · rw [concat_eq_append] at otherRecorded same ⊢
      rw [flatMap_append, flatMap_append, flatMap_singleton, flatMap_singleton] at same
      obtain ⟨earlier, last⟩ := forall_mem_append.mp recorded
      obtain ⟨otherEarlier, otherLast⟩ := forall_mem_append.mp otherRecorded
      obtain ⟨sameFront, rfl⟩ := eq_of_append_record_eq (last entry mem_cons_self)
        (otherLast other mem_cons_self) same
      rw [ih earlier otherEarlier sameFront]

/-! ## Tables that were built -/

/-- A table that was built from texts: definitions that were read are added, and names taken out, in any order. -/
inductive Built : Table → Prop
  | empty : Built ∅
  | define {table : Table} {text : List Char} {offset : Nat} {entry : Macro} (built : Built table)
      (read : parseDefine text = .ok ⟨entry.name, offset, entry.definition⟩) : Built (table.define entry)
  | undef {table : Table} (built : Built table) (name : String) : Built (table.erase name)

namespace Built

variable {table : Table}

/-- Every definition of a table that was built stands under its own name, and is as it was read. -/
theorem proper_of_mem (built : Built table) : ∀ entry ∈ table.entries,
    entry.1 = entry.2.name ∧ isIdent entry.2.name.toList ∧ entry.2.definition.Proper := by
  induction built with
  | empty => exact forall_mem_nil _
  | define _ read ih =>
    rename_i table text offset added
    intro entry found
    rw [Table.define, NameMap.insertNew] at found
    split at found
    · exact ih entry found
    · rcases NameMap.mem_place found with rfl | found
      · obtain ⟨ident, _, proper⟩ := parseDefine_proper read
        exact ⟨rfl, ident, proper⟩
      · exact ih entry found
  | undef _ _ ih => exact fun entry found => ih entry (mem_filter.mp found).1

/-- The outline of a table that was built says what its names are defined as. -/
theorem mem_outline_iff (built : Built table) {name : String} {definition : Definition} :
    (name, definition) ∈ table.outline ↔ (table.get? name).map Macro.definition = some definition := by
  constructor
  · intro found
    obtain ⟨entry, isValue, same⟩ := mem_map.mp found
    obtain ⟨⟨key, value⟩, isEntry, rfl⟩ := mem_map.mp isValue
    obtain ⟨rfl, rfl⟩ := Prod.mk.inj same
    obtain rfl : key = value.name := (built.proper_of_mem _ isEntry).1
    rw [(NameMap.get?_eq_some_iff table).mpr isEntry, Option.map_some]
  · intro known
    obtain ⟨entry, found, rfl⟩ := Option.map_eq_some_iff.mp known
    have isEntry := (NameMap.get?_eq_some_iff table).mp found
    obtain rfl : name = entry.name := (built.proper_of_mem _ isEntry).1
    exact mem_map_of_mem (mem_map_of_mem (f := Prod.snd) isEntry)

/-- The names of an outline are in order. -/
theorem sorted_outline (built : Built table) : table.outline.Pairwise fun first second => first.1 < second.1 := by
  rw [outline, NameMap.values, map_map, pairwise_map]
  refine table.sorted.imp_of_mem ?_
  intro first second isFirst isSecond before
  rw [(built.proper_of_mem first isFirst).1, (built.proper_of_mem second isSecond).1] at before
  exact before

theorem nodup_outline (built : Built table) : table.outline.Nodup := by
  refine built.sorted_outline.imp ?_
  intro first second before same
  subst same
  exact String.lt_irrefl _ before

/-- Tables that define the same have the same outline. -/
theorem outline_eq_iff {first second : Table} (built : Built first) (otherBuilt : Built second) :
    first.outline = second.outline ↔
      ∀ name, (first.get? name).map Macro.definition = (second.get? name).map Macro.definition := by
  constructor
  · intro same name
    apply Option.ext
    intro definition
    rw [← built.mem_outline_iff, ← otherBuilt.mem_outline_iff, same]
  · intro same
    have members (entry : String × Definition) : entry ∈ first.outline ↔ entry ∈ second.outline := by
      rw [built.mem_outline_iff, otherBuilt.mem_outline_iff, same]
    have listed := (perm_ext_iff_of_nodup built.nodup_outline otherBuilt.nodup_outline).mpr members
    refine listed.eq_of_pairwise ?_ built.sorted_outline otherBuilt.sorted_outline
    intro entry other _ _ before after
    exact absurd (String.lt_trans before after) (String.lt_irrefl entry.1)

/-- The definitions of a table that was built can be told apart in its key text, unless a body holds a NUL. -/
theorem recorded_of_mem (built : Built table)
    (plain : ∀ entry ∈ table.values, '\x00' ∉ entry.definition.body.toList) :
    ∀ entry ∈ table.outline, Recorded entry := by
  refine forall_mem_map.mpr fun entry isValue => ?_
  obtain ⟨⟨key, entry⟩, isEntry, rfl⟩ := mem_map.mp isValue
  obtain ⟨_, ident, proper⟩ := built.proper_of_mem _ isEntry
  exact ⟨ident, proper, plain entry isValue⟩

end Built

/-- The key texts of two tables are equal exactly if the tables have the same names, and each name is defined in the
same way: with or without parameters, with the same ones, further arguments allowed or not, and the same body. It plays
no part in which order the names were defined, or which were taken out between. -/
theorem keyText_eq_iff (first second : Table) (built : first.Built) (otherBuilt : second.Built)
    (plain : ∀ entry ∈ first.values, '\x00' ∉ entry.definition.body.toList)
    (otherPlain : ∀ entry ∈ second.values, '\x00' ∉ entry.definition.body.toList) :
    first.keyText = second.keyText ↔
      ∀ name, (first.get? name).map Macro.definition = (second.get? name).map Macro.definition := by
  rw [← built.outline_eq_iff otherBuilt]
  constructor
  · intro same
    have records : first.outline.flatMap record ++ ['\n'] = second.outline.flatMap record ++ ['\n'] := by
      rw [← keyText_eq_flatMap, ← keyText_eq_flatMap, same]
    exact eq_of_flatMap_record_eq (built.recorded_of_mem plain) (otherBuilt.recorded_of_mem otherPlain)
      (append_cancel_right records)
  · intro same
    have texts : '\n' :: first.keyText.toList = '\n' :: second.keyText.toList := by
      rw [keyText_eq_flatMap, keyText_eq_flatMap, same]
    exact String.toList_injective (List.cons.inj texts).2

/-- A name whose body holds a line feed, and one that takes any number of arguments. -/
def brokenLines : Table :=
  define (define ∅ ⟨"A", .object "1\nF", .empty 0, none⟩) ⟨"F", .function ["x"] true "a,\nb(c)", .empty 9, none⟩

/-- The same names, defined in the other order and at other places, with another name between that was taken out. -/
def reorderedLines : Table :=
  define (NameMap.erase (define (define ∅ ⟨"F", .function ["x"] true "a,\nb(c)", .empty 3, none⟩)
    ⟨"E", .object "", .empty 5, none⟩) "E") ⟨"A", .object "1\nF", .empty 7, none⟩

theorem keyText_eq_iff_reorderedLines :
    brokenLines.Built ∧ reorderedLines.Built ∧ brokenLines ≠ reorderedLines ∧
      brokenLines.keyText = "A\x001\nF\nF(x...)\x00a,\nb(c)\n" ∧
      ∀ name, (brokenLines.get? name).map Macro.definition = (reorderedLines.get? name).map Macro.definition := by
  have readA : parseDefine "A 1\nF".toList = .ok ⟨"A", 0, .object "1\nF"⟩ := by decide +kernel
  have readE : parseDefine "E".toList = .ok ⟨"E", 0, .object ""⟩ := by decide +kernel
  have readF : parseDefine "F(x, ...) a,\nb(c)".toList = .ok ⟨"F", 0, .function ["x"] true "a,\nb(c)"⟩ := by
    decide +kernel
  have built : brokenLines.Built := .define (.define .empty readA) readF
  have otherBuilt : reorderedLines.Built := .define (.undef (.define (.define .empty readF) readE) "E") readA
  have same : brokenLines.keyText = reorderedLines.keyText := by decide +kernel
  refine ⟨built, otherBuilt, by decide +kernel, by decide +kernel, ?_⟩
  exact (keyText_eq_iff brokenLines reorderedLines built otherBuilt (by decide +kernel) (by decide +kernel)).mp same

end Table

end Macro

end ScriptLint
