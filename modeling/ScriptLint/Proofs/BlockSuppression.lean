import Mathlib.Data.List.Induction
import ScriptLint.Proofs.TextEnds
import ScriptLint.Suppression

/-!
# The last word on a code

Blocks in which codes are off overlap. Each comment that switches codes on ends all the blocks that are open, and opens
what is left of them again. All the same, whether a code is off at a place depends on one comment only: the last one up
to there that mentions the code.
-/

namespace ScriptLint

open Text List

namespace Suppression

/-! ## Written comments -/

/-- What separates the words of a code list. -/
def isSeparator (c : Char) : Bool := c == ',' || isWhite c

/-- A text and the words of the code list that it is. What follows the word `--` explains and is no part of the list. -/
inductive Lists : List Char → List String → Prop where
  | nil : Lists [] []
  | gap {c : Char} {cs : List Char} {words : List String} (separates : isSeparator c = true) (rest : Lists cs words) :
      Lists (c :: cs) words
  | word {word cs : List Char} {words : List String} (filled : word ≠ [])
      (whole : ∀ c ∈ word, isSeparator c = false) (code : String.ofList word ≠ "--")
      (ends : cs.head?.all isSeparator = true) (rest : Lists cs words) :
      Lists (word ++ cs) (String.ofList word :: words)
  | explanation {cs : List Char} (ends : cs.head?.all isSeparator = true) : Lists ('-' :: '-' :: cs) []

theorem splitAtChars_word {word cs : List Char} (whole : ∀ c ∈ word, isSeparator c = false)
    (ends : cs.head?.all isSeparator) :
    ∃ parts, splitAtChars isSeparator cs = [] :: parts ∧
      splitAtChars isSeparator (word ++ cs) = word :: parts := by
  induction word with
  | nil =>
    cases cs with
    | nil => exact ⟨[], rfl, rfl⟩
    | cons c cs =>
      have split : splitAtChars isSeparator (c :: cs) = [] :: splitAtChars isSeparator cs := if_pos ends
      exact ⟨_, split, split⟩
  | cons _ _ ih =>
    obtain ⟨inner, later⟩ := forall_mem_cons.mp whole
    obtain ⟨parts, front, split⟩ := ih later
    refine ⟨parts, front, ?_⟩
    rw [cons_append, splitAtChars, inner, if_neg Bool.false_ne_true, split]

theorem words_eq (cs : List Char) :
    words cs = (((splitAtChars isSeparator cs).filter fun part => !part.isEmpty).map String.ofList).takeWhile
      (· != "--") := rfl

theorem words_gap {c : Char} (separates : isSeparator c) (cs : List Char) : words (c :: cs) = words cs := by
  rw [words_eq, splitAtChars, if_pos separates]
  rfl

/-- A word comes first in its list, unless it begins an explanation. -/
theorem words_word {word cs : List Char} (filled : word ≠ []) (whole : ∀ c ∈ word, isSeparator c = false)
    (ends : cs.head?.all isSeparator) :
    words (word ++ cs) = if String.ofList word = "--" then [] else String.ofList word :: words cs := by
  obtain ⟨parts, front, split⟩ := splitAtChars_word whole ends
  have kept : (!word.isEmpty) := by simpa using filled
  rw [words_eq, words_eq, split, front, filter_cons, if_pos kept, map_cons, takeWhile_cons,
    filter_cons]
  by_cases dashes : String.ofList word = "--"
  · rw [dashes]
    rfl
  · rw [if_neg dashes, bne_iff_ne.mpr dashes]
    rfl

/-- The code words that are read are those that stand in the text. -/
theorem words_eq_iff {cs : List Char} {listed : List String} : words cs = listed ↔ Lists cs listed := by
  constructor
  · rintro rfl
    induction size : cs.length using Nat.strongRecOn generalizing cs with
    | ind size ih =>
      subst size
      cases cs with
      | nil => exact .nil
      | cons c cs =>
        by_cases separates : isSeparator c
        · rw [words_gap separates]
          exact .gap separates (ih cs.length (Nat.lt_succ_self _) rfl)
        · have inner := Bool.eq_false_iff.mpr separates
          let word := c :: cs.takeWhile fun d => !isSeparator d
          let rest := cs.dropWhile fun d => !isSeparator d
          have whole : ∀ d ∈ word, isSeparator d = false := by
            refine forall_mem_cons.mpr ⟨inner, fun d found => ?_⟩
            simpa using mem_takeWhile_imp found
          have ends : rest.head?.all isSeparator := by
            have stops := head?_dropWhile_not (fun d => !isSeparator d) cs
            cases first : rest.head? with
            | none => rfl
            | some d =>
              rw [show (cs.dropWhile fun d => !isSeparator d).head? = some d from first] at stops
              simpa using stops
          have joined : c :: cs = word ++ rest := congrArg (c :: ·) takeWhile_append_dropWhile.symm
          have shorter : rest.length < (c :: cs).length :=
            Nat.lt_succ_of_le (dropWhile_sublist _).length_le
          rw [joined, words_word (cons_ne_nil _ _) whole ends]
          split
          · rename_i dashes
            have isDashes : word = ['-', '-'] := String.ofList_injective dashes
            rw [isDashes]
            exact .explanation ends
          · next code => exact .word (cons_ne_nil _ _) whole code ends (ih rest.length shorter rfl)
  · intro lists
    induction lists with
    | nil => rfl
    | gap separates _ ih => rw [words_gap separates, ih]
    | word filled whole code ends _ ih => rw [words_word filled whole ends, if_neg code, ih]
    | explanation ends =>
      have whole (c : Char) (found : c ∈ ['-', '-']) : isSeparator c = false :=
        Bool.eq_false_iff.mpr (any_eq_false.mp rfl c found)
      exact words_word (cons_ne_nil _ _) whole ends

theorem Lists.concat {c : Char} {cs : List Char} {listed : List String} (separates : isSeparator c)
    (lists : Lists cs listed) : Lists (cs ++ [c]) listed := by
  have ending {cs : List Char} (ends : cs.head?.all isSeparator) :
      (cs ++ [c]).head?.all isSeparator := by
    cases cs with
    | nil => exact separates
    | cons => exact ends
  induction lists with
  | nil => exact .gap separates .nil
  | gap earlier _ ih => exact .gap earlier ih
  | word filled whole code ends _ ih =>
    rw [append_assoc]
    exact .word filled whole code (ending ends) ih
  | explanation ends => exact .explanation (ending ends)

theorem Lists.append_blank {tail cs : List Char} {listed : List String} (blank : ∀ c ∈ tail, isSeparator c)
    (lists : Lists cs listed) : Lists (cs ++ tail) listed := by
  induction tail generalizing cs with
  | nil => rwa [append_nil]
  | cons _ _ ih =>
    obtain ⟨separates, later⟩ := forall_mem_cons.mp blank
    rw [append_cons]
    exact ih later (lists.concat separates)

theorem words_trimEnd (cs : List Char) : words (trimEnd cs) = words cs := by
  obtain ⟨tail, whole, blank⟩ := exists_trimEnd_append cs
  have separates : ∀ c ∈ tail, isSeparator c := fun c found => by rw [isSeparator, blank c found, Bool.or_true]
  have lists := (words_eq_iff.mp rfl : Lists (trimEnd cs) _).append_blank separates
  rw [← whole] at lists
  exact (words_eq_iff.mpr lists).symm

/-- A comment that switches codes off or on from its place on, as it is written behind `//`. -/
structure Switch where
  disables : Bool
  lead : List Char
  colons : Nat
  list : List Char
  words : List String
  offset : Nat
  line : Nat
  blank : ∀ c ∈ lead, isWhite c = true
  /-- White space or colons stand between the keyword and the list. -/
  apart : (if colons = 0 then list.head?.all isWhite else list.head? != some ':') = true
  lists : Lists list words

namespace Switch

def action (switch : Switch) : Action := if switch.disables then .disable else .enable

def body (switch : Switch) : List Char :=
  switch.lead ++ switch.action.keyword.toList ++ List.replicate switch.colons ':' ++ switch.list

/-- A comment without words mentions every code, and otherwise those that a word names. -/
def mentions (switch : Switch) (code : Code) : Bool :=
  switch.words.isEmpty || switch.words.any fun word => (Code.parse word).toOption == some code

/-- What follows the keyword when the comment is trimmed. -/
def tail (switch : Switch) : List Char := List.replicate switch.colons ':' ++ trimEnd switch.list

variable (switch : Switch)

theorem trim_body : trim switch.body = switch.action.keyword.toList ++ switch.tail := by
  have visible : ∀ c ∈ switch.action.keyword.toList, isWhite c = false := by
    have none : switch.action.keyword.toList.any isWhite = false := by
      rw [action]
      split <;> decide
    exact fun c found => Bool.eq_false_iff.mpr (any_eq_false.mp none c found)
  have filled : switch.action.keyword.toList ≠ [] := by
    rw [action]
    split <;> decide
  have colons : ∀ c ∈ List.replicate switch.colons ':', isWhite c = false := by
    intro c found
    rw [eq_of_mem_replicate found]
    decide
  rw [body, append_assoc, append_assoc, trim_append switch.blank filled visible,
    trimEnd_append colons, tail]

theorem head?_trimEnd (cs : List Char) : (trimEnd cs).head? = none ∨ (trimEnd cs).head? = cs.head? := by
  obtain ⟨removed, whole, _⟩ := exists_trimEnd_append cs
  cases kept : trimEnd cs with
  | nil => exact .inl rfl
  | cons =>
    rw [kept] at whole
    exact .inr (by rw [whole]; rfl)

theorem endsKeyword_tail : endsKeyword switch.tail := by
  have apart := switch.apart
  rw [tail]
  cases colons : switch.colons with
  | zero =>
    rw [colons] at apart
    cases kept : trimEnd switch.list with
    | nil => rfl
    | cons c =>
      have same := (head?_trimEnd switch.list).resolve_left (by rw [kept]; exact Option.some_ne_none c)
      rw [kept] at same
      rw [← same] at apart
      exact Bool.or_eq_true_iff.mpr (.inl apart)
  | succ => rfl

theorem dropWhile_tail : switch.tail.dropWhile (· == ':') = trimEnd switch.list := by
  have free : switch.list.head? ≠ some ':' := by
    have apart := switch.apart
    split at apart
    · intro colon
      rw [colon] at apart
      exact absurd apart (by decide)
    · exact bne_iff_ne.mp apart
  rw [tail, dropWhile_append_of_pos fun c found => by rw [eq_of_mem_replicate found]; rfl]
  cases kept : trimEnd switch.list with
  | nil => rfl
  | cons c =>
    have same := (head?_trimEnd switch.list).resolve_left (by rw [kept]; exact Option.some_ne_none c)
    rw [kept] at same
    refine dropWhile_cons_of_neg fun colon => free ?_
    rw [← same, eq_of_beq colon]
    rfl

/-- No longer keyword stands where a switch has its own. -/
theorem head?_tail : switch.tail.head? ≠ some '-' := by
  intro dash
  have ends := switch.endsKeyword_tail
  obtain ⟨rest, front⟩ := head?_eq_some_iff.mp dash
  rw [front] at ends
  exact absurd (show (isWhite '-' || '-' == ':') = true from ends) (by decide)

theorem readAction?_body : readAction? (trim switch.body) = some (switch.action, trimEnd switch.list) := by
  have own (action : Action) : dropBeginning? action.keyword.toList (action.keyword.toList ++ switch.tail) =
      some switch.tail := dropBeginning?_self ..
  have longer (more : List Char) : dropBeginning? (Action.disable.keyword.toList ++ '-' :: more)
      (Action.disable.keyword.toList ++ switch.tail) = none := by
    rw [dropBeginning?_append, dropBeginning?_of_ne more switch.head?_tail]
  rw [trim_body, readAction?, action]
  split
  · have nextLine := longer "next-line".toList
    have line := longer "line".toList
    change dropBeginning? Action.disableNextLine.keyword.toList _ = none at nextLine
    change dropBeginning? Action.disableLine.keyword.toList _ = none at line
    simp only [findSome?_cons, nextLine, line, own, endsKeyword_tail, if_true, dropWhile_tail]
  · have other (word : List Char) : dropBeginning? ("lsl-".toList ++ 'd' :: word)
        (Action.enable.keyword.toList ++ switch.tail) = none := dropBeginning?_append "lsl-".toList ..
    have nextLine := other "isable-next-line".toList
    have line := other "isable-line".toList
    have disable := other "isable".toList
    change dropBeginning? Action.disableNextLine.keyword.toList _ = none at nextLine
    change dropBeginning? Action.disableLine.keyword.toList _ = none at line
    change dropBeginning? Action.disable.keyword.toList _ = none at disable
    simp only [findSome?_cons, nextLine, line, disable, own, endsKeyword_tail, if_true, dropWhile_tail]

theorem read?_body : Comment.read? switch.body = some ⟨switch.action, mention switch.words⟩ := by
  rw [Comment.read?, readAction?_body, Option.map_some]
  dsimp only
  rw [words_trimEnd, words_eq_iff.mpr switch.lists]

theorem contains_mention (code : Code) :
    (CodeSet.ofMention (mention switch.words)).contains code = switch.mentions code := by
  rw [mention, mentions]
  split
  · rename_i none
    rw [none]
    rfl
  · rename_i some
    rw [Bool.eq_false_iff.mpr some, Bool.false_or, Bool.eq_iff_iff]
    simp [CodeSet.ofMention, CodeSet.contains]

end Switch

end Suppression

namespace CodeSet

/-- What is left without some codes is the difference. -/
theorem any_without? (set : CodeSet) (codes : List Code) (code : Code) :
    (set.without? codes).any (·.contains code) = (set.contains code && !codes.contains code) := by
  cases set with
  | all => rfl
  | only own =>
    have rest : (own.filter fun code => !codes.contains code).contains code =
        (own.contains code && !codes.contains code) := by
      simp
    rw [contains, ← rest, without?]
    split
    · rename_i nothing
      rw [nothing]
      rfl
    · rfl
  | except =>
    rw [Bool.eq_iff_iff]
    simp [without?, contains]
    tauto

end CodeSet

namespace Suppressions

open Suppression

/-- What a set loses when codes are switched on are the codes that are mentioned. -/
theorem any_reopen? (offset : Nat) (codes : Option (List Code)) (block : BlockRule) (code : Code) :
    (reopen? offset codes block).any (·.codes.contains code) =
      (block.codes.contains code && !(CodeSet.ofMention codes).contains code) := by
  cases codes with
  | none => exact (Bool.and_false _).symm
  | some codes =>
    have left := CodeSet.any_without? block.codes codes code
    rw [reopen?, Option.bind_some, Option.any_map]
    exact left

theorem any_filterMap_reopen? (offset : Nat) (codes : Option (List Code)) (blocks : List BlockRule) (code : Code) :
    (blocks.filterMap (reopen? offset codes)).any (·.codes.contains code) =
      (blocks.any (·.codes.contains code) && !(CodeSet.ofMention codes).contains code) := by
  induction blocks with
  | nil => rfl
  | cons block _ ih =>
    have first := any_reopen? offset codes block code
    rw [any_cons, Bool.and_or_distrib_right, ← first, ← ih, filterMap_cons]
    cases reopen? offset codes block <;> rfl

/-- Ended blocks end up to an offset, and pending ones begin up to there. -/
structure Within (rules : Suppressions) (bound : Nat) : Prop where
  ended : ∀ block ∈ rules.blocks, ∃ stop, block.stop = some stop ∧ stop ≤ bound
  pending : ∀ block ∈ rules.pending, block.start ≤ bound ∧ block.stop = none

variable {rules : Suppressions} {bound : Nat}

theorem Within.mono {later : Nat} (within : Within rules bound) (le : bound ≤ later) : Within rules later where
  ended block found := by
    obtain ⟨stop, ends, before⟩ := within.ended block found
    exact ⟨stop, ends, Nat.le_trans before le⟩
  pending block found := (within.pending block found).imp_left fun before => Nat.le_trans before le

theorem Within.enable (within : Within rules bound) (codes : Option (List Code)) :
    Within (rules.enable bound codes) bound where
  ended block found := by
    rcases mem_append.mp found with ended | pending
    · exact within.ended block ended
    · obtain ⟨open_, _, rfl⟩ := mem_map.mp pending
      exact ⟨bound, rfl, Nat.le_refl bound⟩
  pending block found := by
    obtain ⟨open_, _, reopened⟩ := mem_filterMap.mp found
    obtain ⟨rest, _, rfl⟩ := Option.map_eq_some_iff.mp reopened
    exact ⟨Nat.le_refl bound, rfl⟩

/-- Behind all comments only the pending blocks matter. -/
theorem Within.inBlock_eq {offset : Nat} (within : Within rules bound) (le : bound ≤ offset) (code : Code) :
    rules.inBlock code offset = rules.pending.any (·.codes.contains code) := by
  have ended : (rules.blocks.any fun rule => rule.suppresses code offset) = false := by
    refine any_eq_false.mpr fun block found suppresses => ?_
    obtain ⟨stop, ends, before⟩ := within.ended block found
    rw [BlockRule.suppresses, BlockRule.covers, ends] at suppresses
    have inside : offset < stop := by simpa using (Bool.and_eq_true_iff.mp (Bool.and_eq_true_iff.mp suppresses).1).2
    omega
  have pending : (rules.pending.any fun rule => rule.suppresses code offset) =
      rules.pending.any (·.codes.contains code) := by
    rw [Bool.eq_iff_iff, any_eq_true, any_eq_true]
    refine exists_congr fun block => and_congr_right fun found => ?_
    obtain ⟨begins, open_⟩ := within.pending block found
    rw [BlockRule.suppresses, BlockRule.covers, open_, decide_eq_true (Nat.le_trans begins le)]
    exact .rfl
  rw [inBlock, any_append, ended, pending, Bool.false_or]

/-- Up to a comment that switches codes on, nothing changes. -/
theorem inBlock_enable_of_lt {offset place : Nat} (open_ : ∀ block ∈ rules.pending, block.stop = none)
    (lt : offset < place) (codes : Option (List Code)) (code : Code) :
    (rules.enable place codes).inBlock code offset = rules.inBlock code offset := by
  have ended : ((rules.pending.map fun block => { block with stop := some place }).any fun rule =>
      rule.suppresses code offset) = rules.pending.any fun rule => rule.suppresses code offset := by
    rw [any_map, Bool.eq_iff_iff, any_eq_true, any_eq_true]
    refine exists_congr fun block => and_congr_right fun found => ?_
    simp [BlockRule.suppresses, BlockRule.covers, open_ block found, lt]
  have reopened : ((rules.pending.filterMap (reopen? place codes)).any fun rule => rule.suppresses code offset) =
      false := by
    refine any_eq_false.mpr fun block found suppresses => ?_
    obtain ⟨earlier, _, reopens⟩ := mem_filterMap.mp found
    obtain ⟨rest, _, rfl⟩ := Option.map_eq_some_iff.mp reopens
    have begins : place ≤ offset := by
      simpa using (Bool.and_eq_true_iff.mp (Bool.and_eq_true_iff.mp suppresses).1).1
    omega
  rw [inBlock, enable, any_append, any_append, ended, reopened, Bool.or_false, inBlock, any_append]

/-- A switch has the last word, from its place on, on the codes that it mentions. -/
theorem Within.inBlock_apply {comment : Comment} {place : Nat} (within : Within rules place)
    (switches : comment.action = .disable ∨ comment.action = .enable) (line : Nat) (code : Code) (offset : Nat) :
    (rules.apply comment place line).inBlock code offset =
      if place ≤ offset && (CodeSet.ofMention comment.codes).contains code then comment.action == .disable
      else rules.inBlock code offset := by
  obtain ⟨action, codes⟩ := comment
  rcases switches with rfl | rfl
  · have added : (rules.apply ⟨.disable, codes⟩ place line).inBlock code offset =
        (rules.inBlock code offset || (place ≤ offset && (CodeSet.ofMention codes).contains code)) := by
      rw [apply, inBlock, inBlock, ← append_assoc, any_append]
      simp [BlockRule.suppresses, BlockRule.covers]
    rw [added]
    split
    · rename_i mentioned
      rw [mentioned, Bool.or_true]
      rfl
    · next other => rw [Bool.eq_false_iff.mpr other, Bool.or_false]
  · change (rules.enable place codes).inBlock code offset = _
    by_cases behind : place ≤ offset
    · have reopened : (rules.enable place codes).pending.any (·.codes.contains code) =
          (rules.pending.any (·.codes.contains code) && !(CodeSet.ofMention codes).contains code) :=
        any_filterMap_reopen? ..
      rw [(within.enable codes).inBlock_eq behind, within.inBlock_eq behind, decide_eq_true behind, Bool.true_and,
        reopened]
      split
      · rename_i mentioned
        rw [mentioned, Bool.not_true, Bool.and_false]
        rfl
      · next other => rw [Bool.eq_false_iff.mpr other, Bool.not_false, Bool.and_true]
    · rw [inBlock_enable_of_lt (fun block found => (within.pending block found).2) (Nat.lt_of_not_le behind),
        decide_eq_false behind, Bool.false_and, if_neg Bool.false_ne_true]

theorem Within.apply {comment : Comment} {place : Nat} (within : Within rules place) (line : Nat) :
    Within (rules.apply comment place line) place := by
  unfold Suppressions.apply
  split
  · exact ⟨within.ended, within.pending⟩
  · exact ⟨within.ended, within.pending⟩
  · refine ⟨within.ended, fun block found => ?_⟩
    rcases mem_append.mp found with earlier | new
    · exact within.pending block earlier
    · rw [mem_singleton.mp new]
      exact ⟨Nat.le_refl place, rfl⟩
  · exact within.enable comment.codes

/-! ## Runs of switches -/

/-- The rules that some switches make one after the other. -/
def ofSwitches (switches : List Switch) : Suppressions :=
  switches.foldl (fun rules switch => rules.addComment switch.body switch.offset switch.line) {}

theorem ofSwitches_concat (switches : List Switch) (switch : Switch) :
    ofSwitches (switches ++ [switch]) =
      (ofSwitches switches).apply ⟨switch.action, mention switch.words⟩ switch.offset switch.line := by
  rw [ofSwitches, foldl_append, foldl_cons, foldl_nil, addComment, switch.read?_body, ofSwitches]

/-- The last of some switches up to an offset that mentions a code. -/
def lastMention (switches : List Switch) (code : Code) (offset : Nat) : Option Switch :=
  (switches.filter fun switch => switch.offset ≤ offset && switch.mentions code).getLast?

theorem lastMention_concat (switches : List Switch) (switch : Switch) (code : Code) (offset : Nat) :
    lastMention (switches ++ [switch]) code offset =
      if switch.offset ≤ offset && switch.mentions code then some switch else lastMention switches code offset := by
  rw [lastMention, lastMention, filter_append, filter_cons, filter_nil]
  split
  · exact getLast?_concat
  · rw [append_nil]

/-- Switches in order leave no block open or closed behind the last of them. -/
theorem within_ofSwitches {switches : List Switch} {bound : Nat}
    (ordered : switches.Pairwise fun first second => first.offset ≤ second.offset)
    (before : ∀ switch ∈ switches, switch.offset ≤ bound) : Within (ofSwitches switches) bound := by
  induction switches using List.reverseRecOn generalizing bound with
  | nil => exact (⟨by simp, by simp⟩ : Within {} bound)
  | append_singleton _ switch ih =>
    obtain ⟨earlier, _, apart⟩ := pairwise_append.mp ordered
    rw [ofSwitches_concat]
    have within := ih earlier fun other found => apart other found switch (mem_singleton_self switch)
    exact (within.apply switch.line).mono (before switch (mem_append_right _ (mem_singleton_self switch)))

theorem inBlock_ofSwitches {switches : List Switch}
    (ordered : switches.Pairwise fun first second => first.offset ≤ second.offset) (code : Code) (offset : Nat) :
    (ofSwitches switches).inBlock code offset = (lastMention switches code offset).any Switch.disables := by
  induction switches using List.reverseRecOn with
  | nil => rfl
  | append_singleton _ switch ih =>
    obtain ⟨earlier, _, apart⟩ := pairwise_append.mp ordered
    have within := within_ofSwitches earlier fun other found => apart other found switch (mem_singleton_self switch)
    have isSwitch : switch.action = .disable ∨ switch.action = .enable := by
      rw [Switch.action]
      cases switch.disables
      · exact .inr rfl
      · exact .inl rfl
    have disables : (switch.action == .disable) = switch.disables := by
      rw [Switch.action]
      cases switch.disables <;> rfl
    rw [ofSwitches_concat, within.inBlock_apply isSwitch, switch.contains_mention, disables, ih earlier,
      lastMention_concat]
    split <;> rfl

theorem lines_ofSwitches (switches : List Switch) : (ofSwitches switches).lines = [] := by
  induction switches using List.reverseRecOn with
  | nil => rfl
  | append_singleton _ switch ih =>
    rw [ofSwitches_concat, ← ih, Switch.action]
    cases switch.disables <;> rfl

theorem inBlock_finish (rules : Suppressions) (code : Code) (offset : Nat) :
    rules.finish.inBlock code offset = rules.inBlock code offset := by
  rw [inBlock, finish, append_nil, inBlock]

/-- Switches that are taken in in the order of their offsets make a code be off at an offset exactly if the last of them
up to there that mentions it switches it off. It does not matter whether the end of the document was reached, and no
other rule comes in. -/
theorem inBlock_iff_last_disables (switches : List Switch)
    (ordered : switches.Pairwise fun first second => first.offset ≤ second.offset) (code : Code) (offset : Nat) :
    ∀ rules ∈ [ofSwitches switches, (ofSwitches switches).finish],
      (rules.inBlock code offset = true ↔
        ∃ switch, lastMention switches code offset = some switch ∧ switch.disables = true) ∧
      ∀ index, rules.suppresses index code offset = rules.inBlock code offset := by
  have holds : (ofSwitches switches).inBlock code offset = true ↔
      ∃ switch, lastMention switches code offset = some switch ∧ switch.disables = true := by
    rw [inBlock_ofSwitches ordered, Option.any_eq_true]
  have lines (index : LineIndex) : (ofSwitches switches).onLine code (index.lineOf offset) = false := by
    rw [onLine, lines_ofSwitches]
    rfl
  refine forall_mem_cons.mpr ⟨⟨holds, fun index => ?_⟩, forall_mem_singleton.mpr ⟨?_, fun index => ?_⟩⟩
  · rw [suppresses, lines, Bool.false_or]
  · rwa [inBlock_finish]
  · exact (congrArg (· || _) (lines index)).trans (Bool.false_or _)

/-- All codes go off at 10, two of them come on again at 40, one of these goes off at 40 with a word that names no code,
and at 90 nothing but such a word is enabled. -/
def overlapSample : List Switch :=
  [⟨true, [' '], 0, " -- all of them, for now".toList, [], 10, 1, all_eq_true.mp rfl, by decide,
      words_eq_iff.mp (by decide)⟩,
    ⟨false, [], 1, "LSL051, unused-param".toList, ["LSL051", "unused-param"], 40, 4, all_eq_true.mp rfl,
      by decide, words_eq_iff.mp (by decide)⟩,
    ⟨true, [' '], 0, " unused-PARAM no-such-code ".toList, ["unused-PARAM", "no-such-code"], 40, 4,
      all_eq_true.mp rfl, by decide, words_eq_iff.mp (by decide)⟩,
    ⟨false, [' '], 0, " no-such-code".toList, ["no-such-code"], 90, 9, all_eq_true.mp rfl, by decide,
      words_eq_iff.mp (by decide)⟩]

theorem inBlock_overlapSample :
    (overlapSample.Pairwise fun first second => first.offset ≤ second.offset) ∧
      (ofSwitches overlapSample).inBlock .unusedParam 40 = true ∧
      (ofSwitches overlapSample).finish.inBlock .deadCode 95 = true ∧
      ¬(ofSwitches overlapSample).finish.inBlock .unusedLocal 95 = true := by
  have ordered : overlapSample.Pairwise fun first second => first.offset ≤ second.offset := by decide
  have last (code : Code) (offset : Nat) := inBlock_iff_last_disables overlapSample ordered code offset
  refine ⟨ordered, ?_, ?_, ?_⟩
  · exact ((last .unusedParam 40) _ mem_cons_self).1.mpr ⟨overlapSample[2], by rfl, rfl⟩
  · exact ((last .deadCode 95) _ (mem_cons_of_mem _ mem_cons_self)).1.mpr ⟨overlapSample[0], by rfl, rfl⟩
  · rw [((last .unusedLocal 95) _ (mem_cons_of_mem _ mem_cons_self)).1]
    rintro ⟨switch, found, disables⟩
    obtain rfl : overlapSample[1] = switch := Option.some.inj found
    cases disables

end Suppressions

end ScriptLint
