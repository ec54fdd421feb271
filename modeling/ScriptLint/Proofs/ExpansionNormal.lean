import Mathlib.Data.List.TakeWhile
import Mathlib.Logic.Relation
import ScriptLint.Proofs.ExpansionDepth
import ScriptLint.Proofs.LexedLines

/-!
# Expanded texts

A replacement stands between neighbours that no pass touches. Its ends cannot run together with them into a new word,
and a string ends where it ended before. So the words of an expanded text are those that were left alone and those of
the replacements. If no definition leads back to itself, none of them is defined any more, and expanding once again
changes nothing.
-/

namespace ScriptLint

open List

namespace Text

/-- Nothing in a text begins a string. -/
def Unquoted (cs : List Char) : Prop := ∀ c ∈ cs, isQuote c = false

/-- The text, if there is any, begins behind a word. -/
def EndsWord (cs : List Char) : Prop := ∀ c ∈ cs.head?, isIdentPart c = false

variable {cs : List Char}

theorem isIdentStart_of_endsWord {c : Char} (ends : EndsWord (c :: cs)) : isIdentStart c = false := by
  have noPart := ends c rfl
  simp only [isIdentPart, Bool.or_eq_false_iff] at noPart
  simp [isIdentStart, noPart]

theorem endsWord_dropWhile (cs : List Char) : EndsWord (cs.dropWhile isIdentPart) := by
  intro c first
  have stops := head?_dropWhile_not isIdentPart cs
  rw [Option.mem_def.mp first] at stops
  exact stops

/-- A word that ends before a text does not go on in it. -/
theorem takeWhile_append_of_endsWord {rest : List Char} (ends : EndsWord rest) (cs : List Char) :
    (cs ++ rest).takeWhile isIdentPart = cs.takeWhile isIdentPart ∧
      (cs ++ rest).dropWhile isIdentPart = cs.dropWhile isIdentPart ++ rest := by
  induction cs with
  | nil =>
    cases rest with
    | nil => exact ⟨rfl, rfl⟩
    | cons c =>
      have part := ends c rfl
      simp [part]
  | cons c _ ih =>
    rw [cons_append, takeWhile_cons, dropWhile_cons, takeWhile_cons, dropWhile_cons]
    split
    · exact ⟨congrArg (c :: ·) ih.1, ih.2⟩
    · exact ⟨rfl, rfl⟩

end Text

namespace Macro

open Text

/-! ## Words at the seams -/

/-- A text that no word runs into is read alike whatever stands before it. -/
theorem freeWords_of_endsWord {cs : List Char} (ends : EndsWord cs) (glued : Bool) :
    freeWords glued cs = freeWords false cs := by
  cases cs with
  | nil => rw [freeWords, freeWords]
  | cons c =>
    have plain (glued : Bool) : (glued || !isIdentStart c) := by simp [isIdentStart_of_endsWord ends]
    by_cases quote : isQuote c
    · rw [freeWords_of_quote quote, freeWords_of_quote quote]
    · rw [freeWords_of_plain quote (plain glued), freeWords_of_plain quote (plain false)]

/-- Where a word ends between two texts, the words of both are those of each. -/
theorem freeWords_append {glued : Bool} {piece rest : List Char} (unquoted : Unquoted piece) (ends : EndsWord rest) :
    freeWords glued (piece ++ rest) = freeWords glued piece ++ freeWords false rest := by
  fun_induction freeWords glued piece with
  | case1 glued => exact freeWords_of_endsWord ends glued
  | case2 _ c _ quote => exact absurd ((unquoted c mem_cons_self).symm.trans quote) Bool.false_ne_true
  | case3 _ c _ quote plain ih =>
    rw [cons_append, freeWords_of_plain quote plain]
    exact ih fun d found => unquoted d (mem_cons_of_mem c found)
  | case4 _ c cs quote starts ih =>
    obtain ⟨word, left⟩ := takeWhile_append_of_endsWord ends cs
    rw [cons_append, freeWords_of_word quote starts, word, left]
    refine congrArg _ (ih fun d found => ?_)
    exact unquoted d (mem_cons_of_mem c ((dropWhile_sublist _).mem found))

/-- A word before the end of a word is looked up as a whole. -/
theorem freeWords_word_append {glued : Bool} {c : Char} {rest : List Char} (cs : List Char)
    (quote : ¬isQuote c) (starts : ¬(glued || !isIdentStart c)) (ends : EndsWord rest) :
    freeWords glued (c :: cs.takeWhile isIdentPart ++ rest) =
      String.ofList (c :: cs.takeWhile isIdentPart) :: freeWords false rest := by
  obtain ⟨word, left⟩ := takeWhile_append_of_endsWord ends (cs.takeWhile isIdentPart)
  have whole : (cs.takeWhile isIdentPart).takeWhile isIdentPart = cs.takeWhile isIdentPart :=
    takeWhile_idem
  have nothing : (cs.takeWhile isIdentPart).dropWhile isIdentPart = [] :=
    dropWhile_eq_nil_iff.mpr fun _ found => mem_takeWhile_imp found
  rw [cons_append, freeWords_of_word quote starts, word, left, whole, nothing, nil_append]

namespace Table

variable {table : Table} {nested : List String → List Char → List Char} {hidden : List String}

variable {cs text : List Char}

/-- What no pass replaces stays in front. -/
theorem head?_expandText (ends : EndsWord cs) (glued : Bool) :
    (table.expandText nested hidden glued cs).head? = cs.head? := by
  cases cs with
  | nil => rw [expandText]
  | cons c =>
    have plain : (glued || !isIdentStart c) := by simp [isIdentStart_of_endsWord ends]
    by_cases quote : isQuote c
    · rw [expandText_of_quote quote]
      rfl
    · rw [expandText_of_plain quote plain]
      rfl

theorem endsWord_expandText (ends : EndsWord cs) (glued : Bool) :
    EndsWord (table.expandText nested hidden glued cs) := by
  intro c first
  rw [head?_expandText ends] at first
  exact ends c first

/-- A pass keeps the end of a string where it is. -/
theorem stringLength_expandText (quote : Char) (cs : List Char) :
    let length := (stringLength quote cs).1
    (stringLength quote (cs.take length ++ table.expandText nested hidden false (cs.drop length))).1 = length := by
  refine congrArg Prod.fst (stringLength_take_append (fun _ ended => ?_) fun _ feed => ?_)
  · rw [ended, expandText]
  · rw [head?_expandText, feed]
    intro c first
    obtain rfl := Option.mem_unique feed first
    rfl

/-- A word that is looked up in an expanded text is one that was left alone, or stands in a replacement. -/
theorem forall_freeWords_expandText {holds : String → Prop} {glued : Bool}
    (kept : ∀ word ∈ freeWords glued cs, table.visible? hidden word = none → holds word)
    (replaced : ∀ word ∈ freeWords glued cs, ∀ definition, table.visible? hidden word = some definition →
      ∃ body, definition = .object body ∧ Unquoted (nested (word :: hidden) body.toList) ∧
        ∀ inner ∈ freeWords false (nested (word :: hidden) body.toList), holds inner) :
    ∀ word ∈ freeWords glued (table.expandText nested hidden glued cs), holds word := by
  fun_induction freeWords glued cs with
  | case1 =>
    rw [expandText, freeWords]
    exact forall_mem_nil _
  | case2 _ c cs quote ih =>
    have length : (stringLength c (cs.take _ ++ table.expandText nested hidden false (cs.drop _))).1 = _ :=
      stringLength_expandText c cs
    have passed := length_take_of_le (stringLength_le c cs)
    rw [expandText_of_quote quote, cons_append, freeWords_of_quote quote, length, drop_left' passed]
    exact ih kept replaced
  | case3 _ _ _ quote plain ih =>
    rw [expandText_of_plain quote plain, freeWords_of_plain quote plain]
    exact ih kept replaced
  | case4 glued c cs quote starts ih =>
    obtain ⟨keptFirst, keptLater⟩ := forall_mem_cons.mp kept
    obtain ⟨replacedFirst, replacedLater⟩ := forall_mem_cons.mp replaced
    have ends : EndsWord (table.expandText nested hidden false (cs.dropWhile isIdentPart)) :=
      endsWord_expandText (endsWord_dropWhile cs) false
    have later := ih keptLater replacedLater
    cases seen : table.visible? hidden (String.ofList (c :: cs.takeWhile isIdentPart)) with
    | none =>
      rw [expandText_of_invisible quote starts seen, freeWords_word_append cs quote starts ends]
      exact forall_mem_cons.mpr ⟨keptFirst seen, later⟩
    | some definition =>
      obtain ⟨body, rfl, unquoted, inner⟩ := replacedFirst definition seen
      obtain rfl : glued = false := by
        cases glued with
        | false => rfl
        | true => exact absurd rfl starts
      rw [expandText_of_object quote starts seen, freeWords_append unquoted ends]
      exact forall_mem_append.mpr ⟨inner, later⟩

/-! ## Tables of plain definitions -/

/-- Every name stands for a body alone, and no body begins a string. -/
structure Plain (table : Table) : Prop where
  object : ∀ entry ∈ table.values, entry.definition.isFunction = false
  unquoted : ∀ entry ∈ table.values, Unquoted entry.definition.body.toList

/-- The body of a name holds another name, where a pass would look it up. -/
def Refers (table : Table) (name other : String) : Prop :=
  ∃ entry, table.get? name = some entry ∧ other ∈ freeWords false entry.definition.body.toList

theorem Plain.object_of_visible? (plain : Plain table) {name : String} {definition : Definition}
    (seen : table.visible? hidden name = some definition) :
    ∃ body, definition = .object body ∧ Unquoted body.toList ∧
      ∀ word ∈ freeWords false body.toList, table.Refers name word := by
  obtain ⟨_, entry, found, rfl⟩ := visible?_eq_some_iff.mp seen
  have isValue := mem_map_of_mem (f := Prod.snd) ((NameMap.get?_eq_some_iff table).mp found)
  have unquoted := plain.unquoted entry isValue
  cases shape : entry.definition with
  | object body =>
    rw [shape] at unquoted
    refine ⟨body, rfl, unquoted, fun word held => ⟨entry, found, ?_⟩⟩
    rw [shape]
    exact held
  | function =>
    have object := plain.object entry isValue
    rw [shape] at object
    cases object

theorem Plain.unquoted_expandText (plain : Plain table)
    (inner : ∀ hidden text, Unquoted text → Unquoted (nested hidden text)) {glued : Bool} (unquoted : Unquoted cs) :
    Unquoted (table.expandText nested hidden glued cs) := by
  have divide {c : Char} {cs : List Char} (unquoted : Unquoted (c :: cs)) :
      Unquoted (c :: cs.takeWhile isIdentPart) ∧ Unquoted (cs.dropWhile isIdentPart) := by
    rw [← takeWhile_append_dropWhile (p := isIdentPart) (l := cs)] at unquoted
    exact forall_mem_append.mp unquoted
  fun_induction table.expandText nested hidden glued cs with
  | case1 => exact unquoted
  | case2 _ c _ quote => exact absurd ((unquoted c mem_cons_self).symm.trans quote) Bool.false_ne_true
  | case3 _ _ _ _ _ ih =>
    obtain ⟨first, later⟩ := forall_mem_cons.mp unquoted
    exact forall_mem_cons.mpr ⟨first, ih later⟩
  | case4 _ _ _ _ _ _ _ _ _ ih =>
    obtain ⟨ofWord, ofRest⟩ := divide unquoted
    exact forall_mem_append.mpr ⟨ofWord, ih ofRest⟩
  | case5 _ _ _ _ _ _ _ _ _ seen ih =>
    obtain ⟨other, same, ofBody, _⟩ := plain.object_of_visible? seen
    obtain rfl := Definition.object.inj same
    exact forall_mem_append.mpr ⟨inner _ _ ofBody, ih (divide unquoted).2⟩
  | case6 _ _ _ _ _ _ _ _ _ _ _ seen =>
    obtain ⟨other, same, _⟩ := plain.object_of_visible? seen
    cases same
  | case7 _ _ _ _ _ _ _ _ _ _ _ seen =>
    obtain ⟨other, same, _⟩ := plain.object_of_visible? seen
    cases same

theorem Plain.unquoted_expandWithin (plain : Plain table) (levels : Nat) (hidden : List String)
    (unquoted : Unquoted text) : Unquoted (table.expandWithin levels hidden text) := by
  induction levels generalizing hidden text with
  | zero => exact unquoted
  | succ _ ih => exact plain.unquoted_expandText (fun hidden text => ih hidden) unquoted

/-- A word that is not replaced is not defined, unless it is hidden. -/
theorem get?_of_invisible {name : String} (unseen : table.visible? hidden name = none) (shown : name ∉ hidden) :
    table.get? name = none := by
  rw [visible?, if_neg (by simpa using shown)] at unseen
  exact Option.map_eq_none_iff.mp unseen

/-- Nested passes give a text back as well that has no word to replace. -/
theorem expandWithin_eq_self (clear : ∀ word ∈ freeWords false text, table.visible? hidden word = none) (levels : Nat) :
    table.expandWithin levels hidden text = text := by
  cases levels with
  | zero => rfl
  | succ => exact expandText_eq_self clear

/-- If no definition leads back to itself, nothing that is left can be replaced. The words of the text must not lead to
a hidden name; those of a replacement then do not either. -/
theorem Plain.get?_of_mem_freeWords (plain : Plain table) (acyclic : ∀ name, ¬Relation.TransGen table.Refers name name)
    {levels : Nat} (enough : table.unhidden hidden ≤ levels)
    (apart : ∀ word ∈ freeWords false text, ∀ name ∈ hidden, ¬Relation.ReflTransGen table.Refers word name) :
    ∀ word ∈ freeWords false (table.expandWithin levels hidden text), table.get? word = none := by
  induction levels generalizing hidden text with
  | zero =>
    intro word found
    have unseen := visible?_eq_none (Nat.le_zero.mp enough) word
    exact get?_of_invisible unseen fun isHidden => apart word found word isHidden .refl
  | succ levels ih =>
    apply forall_freeWords_expandText
    · intro word found unseen
      exact get?_of_invisible unseen fun isHidden => apart word found word isHidden .refl
    · intro name found definition seen
      obtain ⟨body, rfl, unquoted, refers⟩ := plain.object_of_visible? seen
      have fewer := unhidden_lt seen
      refine ⟨body, rfl, plain.unquoted_expandWithin levels _ unquoted, ih (by omega) ?_⟩
      intro word held other isHidden leads
      rcases mem_cons.mp isHidden with rfl | isHidden
      · exact acyclic other (.head' (refers word held) leads)
      · exact apart name found other isHidden (.head (refers word held) leads)

/-- Expanding a text with at most 65 plain definitions, none of which leads back to itself, leaves no defined word to
look up. So an expanded text is not changed by expanding it again. -/
theorem expand_expand (table : Table) (small : table.size ≤ 65) (plain : table.Plain)
    (acyclic : ∀ name, ¬Relation.TransGen table.Refers name name) (text : String) :
    (∀ word ∈ freeWords false (table.expand text).toList, table.get? word = none) ∧
      table.expand (table.expand text) = table.expand text := by
  have settled : ∀ word ∈ freeWords false (table.expandWithin maxLevels [] text.toList), table.get? word = none :=
    plain.get?_of_mem_freeWords acyclic (unhidden_nil_le small) fun _ _ _ isHidden => absurd isHidden not_mem_nil
  have again : table.expandWithin maxLevels [] (table.expandWithin maxLevels [] text.toList) =
      table.expandWithin maxLevels [] text.toList := by
    apply expandWithin_eq_self
    intro word found
    exact Option.map_eq_none_iff.mpr (settled word found)
  refine ⟨?_, ?_⟩
  · rw [expand, String.toList_ofList]
    exact settled
  · rw [expand, expand, String.toList_ofList, again]

/-- References that lead to ever smaller names never come back. -/
theorem acyclic_of_rank (rank : String → Nat)
    (falls : ∀ entry ∈ table.entries, ∀ other ∈ freeWords false entry.2.definition.body.toList,
      rank other < rank entry.1) (name : String) : ¬Relation.TransGen table.Refers name name := by
  have step {first second : String} (refers : table.Refers first second) : rank second < rank first := by
    obtain ⟨entry, found, held⟩ := refers
    exact falls (first, entry) ((NameMap.get?_eq_some_iff table).mp found) second held
  have leads {first second : String} (path : Relation.TransGen table.Refers first second) :
      rank second < rank first := by
    induction path with
    | single refers => exact step refers
    | tail _ refers ih => exact Nat.lt_trans (step refers) ih
  exact fun path => Nat.lt_irrefl _ (leads path)

/-- Three names that build on one another, the last of them empty. -/
def layeredTable : Table :=
  Table.defineAll ∅ [⟨"TOTAL", .object "PART+1PART", .empty 0, none⟩, ⟨"PART", .object "(ONE)\\", .empty 0, none⟩,
    ⟨"ONE", .object "", .empty 0, none⟩]

theorem expand_expand_layered :
    layeredTable.size ≤ 65 ∧ layeredTable.Plain ∧ (∀ name, ¬Relation.TransGen layeredTable.Refers name name) ∧
      layeredTable.expand "TOTAL\"TOTAL\"ONE'é PART\n2PART" = "()\\+1PART\"TOTAL\"'é PART\n2PART" ∧
      layeredTable.expand (layeredTable.expand "TOTAL\"TOTAL\"ONE'é PART\n2PART") =
        layeredTable.expand "TOTAL\"TOTAL\"ONE'é PART\n2PART" := by
  have small : layeredTable.size ≤ 65 := by decide
  have unquoted :
      layeredTable.values.all (fun entry => entry.definition.body.toList.all fun c => !isQuote c) = true := by
    decide +kernel
  have plain : layeredTable.Plain := by
    refine ⟨by decide +kernel, fun entry found c held => ?_⟩
    simpa using all_eq_true.mp (all_eq_true.mp unquoted entry found) c held
  have acyclic : ∀ name, ¬Relation.TransGen layeredTable.Refers name name :=
    acyclic_of_rank String.length (by decide +kernel)
  exact ⟨small, plain, acyclic, by decide +kernel, (expand_expand layeredTable small plain acyclic _).2⟩

end Table

end Macro

end ScriptLint
