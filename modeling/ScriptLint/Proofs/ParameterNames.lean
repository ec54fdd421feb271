import ScriptLint.Proofs.DefinitionText
import ScriptLint.Proofs.ExpansionNormal

/-!
# Names of parameters

A call without further arguments puts a text for each word of a body that stands outside of strings, and leaves the rest
as it is. Where every word is replaced by an identifier, the words of the new text are the replacements, in the same
places, so replacing twice is replacing once by the second of the first. What a call gives therefore does not depend on
the names of the parameters, as long as no new name is a word of the body already.
-/

namespace ScriptLint.Macro

open Text List

/-! ## Replacing words -/

/-- Replace each word of a text that stands outside of strings. `glued` says that the character before belongs to a
word. -/
def mapWords (value : String → String) (glued : Bool) : List Char → List Char
  | [] => []
  | c :: cs =>
    if isQuote c then
      c :: cs.take (stringLength c cs).1 ++ mapWords value false (cs.drop (stringLength c cs).1)
    else if glued || !isIdentStart c then c :: mapWords value (isIdentPart c) cs
    else
      (value (String.ofList (c :: cs.takeWhile isIdentPart))).toList ++
        mapWords value false (cs.dropWhile isIdentPart)
termination_by cs => cs.length
decreasing_by
  · simp only [length_drop, length_cons]; omega
  · simp
  · have shorter := (dropWhile_sublist isIdentPart (l := cs)).length_le
    simp only [length_cons]; omega

section Words

variable {value : String → String} {glued : Bool} {c : Char} {cs : List Char}

theorem mapWords_nil : mapWords value glued [] = [] := by rw [mapWords]

theorem mapWords_of_quote (quote : isQuote c) :
    mapWords value glued (c :: cs) =
      c :: cs.take (stringLength c cs).1 ++ mapWords value false (cs.drop (stringLength c cs).1) := by
  rw [mapWords, if_pos quote]

theorem mapWords_of_plain (quote : ¬isQuote c) (plain : (glued || !isIdentStart c)) :
    mapWords value glued (c :: cs) = c :: mapWords value (isIdentPart c) cs := by
  rw [mapWords, if_neg quote, if_pos plain]

theorem mapWords_of_word (quote : ¬isQuote c) (starts : ¬(glued || !isIdentStart c)) :
    mapWords value glued (c :: cs) =
      (value (String.ofList (c :: cs.takeWhile isIdentPart))).toList ++
        mapWords value false (cs.dropWhile isIdentPart) := by
  rw [mapWords, if_neg quote, if_neg starts]

end Words

variable {glued : Bool} {cs : List Char} {params fresh : List String} {word : String}

/-- What replaces the words of a text decides the result. -/
theorem mapWords_congr {value other : String → String} (same : ∀ word ∈ freeWords glued cs, value word = other word) :
    mapWords value glued cs = mapWords other glued cs := by
  fun_induction freeWords glued cs with
  | case1 => rw [mapWords_nil, mapWords_nil]
  | case2 _ _ _ quote ih => rw [mapWords_of_quote quote, mapWords_of_quote quote, ih same]
  | case3 _ _ _ quote plain ih => rw [mapWords_of_plain quote plain, mapWords_of_plain quote plain, ih same]
  | case4 _ _ _ quote starts ih =>
    obtain ⟨first, later⟩ := forall_mem_cons.mp same
    rw [mapWords_of_word quote starts, mapWords_of_word quote starts, first, ih later]

/-- Replacing each word by itself changes nothing. -/
theorem mapWords_id (glued : Bool) (cs : List Char) : mapWords id glued cs = cs := by
  fun_induction mapWords id glued cs with
  | case1 => rfl
  | case2 _ _ _ _ ih => rw [ih, cons_append, take_append_drop]
  | case3 _ _ _ _ _ ih => rw [ih]
  | case4 _ _ _ _ _ ih =>
    rw [ih, id, String.toList_ofList, cons_append, takeWhile_append_dropWhile]

/-- What begins no word stays in front. -/
theorem head?_mapWords (ends : EndsWord cs) (value : String → String) (glued : Bool) :
    (mapWords value glued cs).head? = cs.head? := by
  cases cs with
  | nil => rw [mapWords_nil]
  | cons c =>
    have plain : (glued || !isIdentStart c) := by simp [isIdentStart_of_endsWord ends]
    by_cases quote : isQuote c
    · rw [mapWords_of_quote quote]
      rfl
    · rw [mapWords_of_plain quote plain]
      rfl

/-- A string ends where it ended when words behind it are replaced. -/
theorem stringLength_mapWords (value : String → String) (quote : Char) (cs : List Char) :
    let length := (stringLength quote cs).1
    (stringLength quote (cs.take length ++ mapWords value false (cs.drop length))).1 = length := by
  refine congrArg Prod.fst (stringLength_take_append (fun _ ended => ?_) fun _ feed => ?_)
  · rw [ended, mapWords_nil]
  · rw [head?_mapWords, feed]
    intro c first
    obtain rfl := Option.mem_unique feed first
    rfl

/-- An identifier before the end of a word is replaced as a whole. -/
theorem mapWords_ident_append (value : String → String) {name : String} (ident : isIdent name.toList)
    {rest : List Char} (ends : EndsWord rest) :
    mapWords value false (name.toList ++ rest) = (value name).toList ++ mapWords value false rest := by
  obtain ⟨first, more, whole, start, parts⟩ := isIdent_iff.mp ident
  obtain ⟨word, left⟩ := takeWhile_append_of_endsWord ends more
  have quote : ¬isQuote first := by
    simp [isQuote, ne_of_isIdentStart start '"' (by decide), ne_of_isIdentStart start '\'' (by decide)]
  rw [whole, cons_append, mapWords_of_word quote (by simp [start]), word, left,
    takeWhile_eq_self_iff.mpr parts, dropWhile_eq_nil_iff.mpr parts, ← whole, String.ofList_toList,
    nil_append]

/-- Where words are replaced by identifiers, those are the words that are replaced next. -/
theorem mapWords_mapWords {first : String → String} (second : String → String)
    (idents : ∀ word ∈ freeWords glued cs, isIdent (first word).toList) :
    mapWords second glued (mapWords first glued cs) = mapWords (fun word => second (first word)) glued cs := by
  fun_induction freeWords glued cs with
  | case1 => rw [mapWords_nil, mapWords_nil, mapWords_nil]
  | case2 _ c cs quote ih =>
    have length := stringLength_mapWords first c cs
    have passed := length_take_of_le (stringLength_le c cs)
    rw [mapWords_of_quote quote, cons_append, mapWords_of_quote quote, length, take_left' passed,
      drop_left' passed, ih idents, mapWords_of_quote quote]
  | case3 _ _ _ quote plain ih =>
    rw [mapWords_of_plain quote plain, mapWords_of_plain quote plain, ih idents, mapWords_of_plain quote plain]
  | case4 glued c cs quote starts ih =>
    obtain ⟨ident, later⟩ := forall_mem_cons.mp idents
    obtain rfl : glued = false := by
      cases glued with
      | false => rfl
      | true => exact absurd rfl starts
    have ends : EndsWord (mapWords first false (cs.dropWhile isIdentPart)) := by
      intro d front
      rw [head?_mapWords (endsWord_dropWhile cs)] at front
      exact endsWord_dropWhile cs d front
    rw [mapWords_of_word quote starts, mapWords_ident_append second ident ends, ih later,
      mapWords_of_word quote starts]

/-- Without further arguments, a call replaces the words of a body by what they stand for. -/
theorem Binding.substitute_eq_mapWords {binding : Binding} (fixed : binding.variadic = false) (glued : Bool)
    (cs : List Char) : binding.substitute glued cs = mapWords binding.replace glued cs := by
  fun_induction mapWords binding.replace glued cs with
  | case1 => rw [substitute]
  | case2 _ c cs quote ih =>
    rw [substitute, if_pos quote]
    exact congrArg (c :: cs.take (stringLength c cs).1 ++ ·) ih
  | case3 _ _ _ quote plain ih => rw [substitute, if_neg quote, if_pos plain, ih]
  | case4 _ _ _ quote starts ih =>
    rw [substitute, if_neg quote, if_neg starts]
    simp only [fixed, Bool.false_and, Bool.false_eq_true, if_false, ih]

/-! ## Renaming parameters -/

/-- The new name of a parameter; any other word is kept. -/
def rename (params fresh : List String) (word : String) : String := ((params.zip fresh).lookup word).getD word

theorem argument?_of_not_mem (absent : word ∉ params) (args : List String) : argument? params args word = none := by
  induction params generalizing args with
  | nil => rfl
  | cons param _ ih =>
    have other : ¬(param == word) := fun same => absent (beq_iff_eq.mp same ▸ mem_cons_self)
    rw [argument?, if_neg other, ih fun later => absent (mem_cons_of_mem param later)]

/-- A parameter stands for the same argument under its new name. -/
theorem argument?_of_lookup (distinct : fresh.Nodup) {new : String}
    (renamed : (params.zip fresh).lookup word = some new) (args : List String) :
    ∃ value, argument? params args word = some value ∧ argument? fresh args new = some value := by
  induction params generalizing fresh args with
  | nil => cases renamed
  | cons param _ ih =>
    cases fresh with
    | nil => cases renamed
    | cons name =>
      obtain ⟨apart, distinct⟩ := nodup_cons.mp distinct
      rw [zip_cons_cons, lookup_cons] at renamed
      split at renamed
      · rename_i same
        obtain rfl := Option.some.inj renamed
        refine ⟨args.headD "", ?_, ?_⟩
        · rw [argument?, if_pos (beq_iff_eq.mpr (beq_iff_eq.mp same).symm)]
        · rw [argument?, if_pos (beq_self_eq_true name)]
      · rename_i other
        have otherParam : ¬(param == word) := by
          intro same
          rw [beq_iff_eq.mp same, beq_self_eq_true] at other
          cases other
        obtain ⟨value, old, found⟩ := ih distinct renamed args.tail
        have later : name ≠ new := by
          rintro rfl
          rw [argument?_of_not_mem apart] at found
          cases found
        refine ⟨value, ?_, ?_⟩
        · rw [argument?, if_neg otherParam, old]
        · rw [argument?, if_neg (by simpa using later), found]

/-- Looking up a new name gives what looking up the old one gave, and a word that is not renamed is looked up in vain
as before. -/
theorem argument?_rename (length : fresh.length = params.length) (distinct : fresh.Nodup) (unused : word ∉ fresh)
    (args : List String) :
    (argument? fresh args (rename params fresh word)).getD (rename params fresh word) =
      (argument? params args word).getD word := by
  rw [rename]
  cases renamed : (params.zip fresh).lookup word with
  | none =>
    have absent : word ∉ params := by
      rw [← map_fst_zip (Nat.le_of_eq length.symm)]
      intro found
      obtain ⟨pair, paired, rfl⟩ := mem_map.mp found
      exact absurd rfl (bne_iff_ne.mp (lookup_eq_none_iff.mp renamed pair paired))
    rw [Option.getD_none, argument?_of_not_mem unused, argument?_of_not_mem absent]
  | some =>
    obtain ⟨value, old, found⟩ := argument?_of_lookup distinct renamed args
    rw [Option.getD_some, old, found]
    rfl

/-- A parameter that is passed under its own name stands for itself. -/
theorem argument?_self (params : List String) (word : String) : (argument? params params word).getD word = word := by
  induction params with
  | nil => rfl
  | cons _ _ ih =>
    rw [argument?]
    split
    · next same => exact beq_iff_eq.mp same
    · exact ih

theorem isIdent_rename (idents : ∀ name ∈ fresh, isIdent name.toList) (ident : isIdent word.toList) :
    isIdent (rename params fresh word).toList := by
  rw [rename]
  cases renamed : (params.zip fresh).lookup word with
  | none => exact ident
  | some new =>
    obtain ⟨before, after, pairs, _⟩ := lookup_eq_some_iff.mp renamed
    have paired : (word, new) ∈ params.zip fresh := pairs ▸ mem_append_right before mem_cons_self
    exact idents new (of_mem_zip paired).2

/-- The words that are looked up are identifiers. -/
theorem isIdent_of_mem_freeWords (found : word ∈ freeWords glued cs) : isIdent word.toList := by
  fun_induction freeWords glued cs with
  | case1 => cases found
  | case2 _ _ _ _ ih => exact ih found
  | case3 _ _ _ _ _ ih => exact ih found
  | case4 glued c _ _ starts ih =>
    rcases mem_cons.mp found with rfl | later
    · have start : glued = false ∧ isIdentStart c := by simpa using starts
      rw [String.toList_ofList]
      exact isIdent_iff.mpr ⟨c, _, rfl, start.2, fun d => mem_takeWhile_imp⟩
    · exact ih later

/-- A body with its parameters renamed, where they are words outside of strings. -/
def renameBody (params fresh : List String) (body : String) : String :=
  String.ofList (mapWords (rename params fresh) false body.toList)

theorem invoke?_function (params args : List String) (body : String) :
    (Definition.function params false body).invoke? args =
      if args.length == params.length || args.isEmpty && params.length == 1 then
        some (String.ofList (Binding.substitute ⟨params, false, args⟩ false body.toList))
      else none := by
  simp [Definition.invoke?, Definition.acceptsArity]

/-- A call of a definition gives the same under other names of its parameters. -/
theorem invoke?_renameBody {body : String} (length : fresh.length = params.length)
    (idents : ∀ name ∈ fresh, isIdent name.toList) (distinct : fresh.Nodup)
    (unused : ∀ name ∈ fresh, name ∉ freeWords false body.toList) (args : List String) :
    (Definition.function fresh false (renameBody params fresh body)).invoke? args =
      (Definition.function params false body).invoke? args := by
  have substituted : Binding.substitute ⟨fresh, false, args⟩ false (renameBody params fresh body).toList =
      Binding.substitute ⟨params, false, args⟩ false body.toList := by
    rw [renameBody, String.toList_ofList, Binding.substitute_eq_mapWords rfl, Binding.substitute_eq_mapWords rfl,
      mapWords_mapWords _ fun word found => isIdent_rename idents (isIdent_of_mem_freeWords found)]
    refine mapWords_congr fun word found => ?_
    exact argument?_rename length distinct (fun held => unused word held found) args
  rw [invoke?_function, invoke?_function, length, substituted]

/-- A call that passes the parameters themselves gives the body. -/
theorem invoke?_self (params : List String) (body : String) :
    (Definition.function params false body).invoke? params = some body := by
  have same : Binding.substitute ⟨params, false, params⟩ false body.toList = body.toList := by
    rw [Binding.substitute_eq_mapWords rfl]
    exact (mapWords_congr fun word _ => argument?_self params word).trans (mapWords_id false body.toList)
  rw [invoke?_function, beq_self_eq_true, Bool.true_or, if_pos rfl, same, String.ofList_toList]

namespace Table

/-- The names of the parameters do not matter. If each parameter of a definition that takes no further arguments gets
another name, different from the others and no word of the body yet, and the body is renamed with them, every call gives
what it gave before, and none where it gave none. The arguments may hold any of the names. A call that passes the
parameters themselves gives the body. -/
theorem invoke?_renamed (table : Table) (name : String) (entry : Macro) (params fresh : List String) (body : String)
    (found : table.get? name = some entry) (shape : entry.definition = .function params false body)
    (length : fresh.length = params.length) (idents : ∀ new ∈ fresh, isIdent new.toList = true)
    (distinct : fresh.Nodup) (unused : ∀ new ∈ fresh, new ∉ freeWords false body.toList) :
    (∀ args, Table.invoke? (table.insert name
        { entry with definition := .function fresh false (renameBody params fresh body) }) name args =
      table.invoke? name args) ∧
      table.invoke? name params = some body := by
  constructor
  · intro args
    rw [invoke?, invoke?, NameMap.get?_insert, if_pos rfl, found, Option.bind_some, Option.bind_some, shape]
    exact invoke?_renameBody length idents distinct unused args
  · rw [invoke?, found, Option.bind_some, shape]
    exact invoke?_self params body

/-- One definition with two parameters, one of which stands also in a string and as a part of another word. -/
def swappedTable : Table :=
  Table.defineAll ∅ [⟨"F", .function ["a", "b"] false "a + \"a\" + ab * 1a(b)", .empty 0, none⟩]

/-- The new names are passed as arguments, each for the other. -/
theorem invoke?_renamed_swapped :
    renameBody ["a", "b"] ["x", "y"] "a + \"a\" + ab * 1a(b)" = "x + \"a\" + ab * 1a(y)" ∧
      swappedTable.invoke? "F" ["y", "x"] = some "y + \"a\" + ab * 1a(x)" ∧
      Table.invoke? (swappedTable.insert "F" ⟨"F", .function ["x", "y"] false "x + \"a\" + ab * 1a(y)", .empty 0, none⟩)
        "F" ["y", "x"] = some "y + \"a\" + ab * 1a(x)" ∧
      swappedTable.invoke? "F" ["a", "b"] = some "a + \"a\" + ab * 1a(b)" := by
  have renamed : renameBody ["a", "b"] ["x", "y"] "a + \"a\" + ab * 1a(b)" = "x + \"a\" + ab * 1a(y)" := by
    decide +kernel
  have before : swappedTable.invoke? "F" ["y", "x"] = some "y + \"a\" + ab * 1a(x)" := by decide +kernel
  obtain ⟨same, self⟩ := invoke?_renamed swappedTable "F" _ ["a", "b"] ["x", "y"] "a + \"a\" + ab * 1a(b)" rfl rfl rfl
    (by decide +kernel) (by decide) (by decide +kernel)
  have after := (same ["y", "x"]).trans before
  rw [renamed] at after
  exact ⟨renamed, before, after, self⟩

end Table

end ScriptLint.Macro
