import ScriptLint.Proofs.Bytes
import ScriptLint.Token.Lexer

/-!
# Cutting a text loses nothing

The disabled ranges of a text and the pieces that the lexer cuts between them lie side by side and cover the text. So
every byte is in one of them, and what is neither disabled nor in a token nor reported is a blank.
-/

namespace ScriptLint

open Text List

namespace Span

variable {start middle stop place : Nat}

theorem contains_eq_false (outside : place < start ∨ stop ≤ place) : contains ⟨start, stop⟩ place = false := by
  rw [Bool.eq_false_iff, Ne, contains_iff]
  dsimp only
  omega

theorem toNat_contains_append (before : start ≤ middle) (behind : middle ≤ stop) (place : Nat) :
    (contains ⟨start, middle⟩ place).toNat + (contains ⟨middle, stop⟩ place).toNat =
      (contains ⟨start, stop⟩ place).toNat := by
  by_cases first : place < middle
  · have second : contains ⟨middle, stop⟩ place = false := contains_eq_false (.inl first)
    have same : contains ⟨start, middle⟩ place = contains ⟨start, stop⟩ place := by
      rw [Bool.eq_iff_iff, contains_iff, contains_iff]
      dsimp only
      omega
    rw [second, same, Bool.toNat_false, Nat.add_zero]
  · have none : contains ⟨start, middle⟩ place = false := contains_eq_false (.inr (Nat.le_of_not_lt first))
    have same : contains ⟨middle, stop⟩ place = contains ⟨start, stop⟩ place := by
      rw [Bool.eq_iff_iff, contains_iff, contains_iff]
      dsimp only
      omega
    rw [none, same, Bool.toNat_false, Nat.zero_add]

end Span

variable {text : List Char}

namespace Text

theorem exists_of_slice? {start stop : Nat} (cut : (slice? text start stop).isSome) :
    ∃ front middle back, text = front ++ (middle ++ back) ∧ start = byteLength front ∧
      stop = start + byteLength middle := by
  unfold slice? at cut
  dsimp only at cut
  split at cut
  · rename_i holds
    refine ⟨(splitBytes start text).1, (splitBytes (stop - start) (splitBytes start text).2).1,
      (splitBytes (stop - start) (splitBytes start text).2).2, ?_, holds.2.1.symm, by omega⟩
    rw [splitBytes_append, splitBytes_append]
  · cases cut

end Text

namespace Lexer

/-! ## Tiles -/

/-- A part of a text: disabled, or cut by the lexer. -/
inductive Tile where
  | gap (offset : Nat) (chars : List Char)
  | cut (piece : Piece)

variable {tile : Tile}

namespace Tile

def offset : Tile → Nat
  | gap offset _ => offset
  | cut piece => piece.offset

def chars : Tile → List Char
  | gap _ chars => chars
  | cut piece => piece.chars

def span (tile : Tile) : Span := ⟨tile.offset, tile.offset + byteLength tile.chars⟩

def gap? : Tile → Option Span
  | gap offset chars => some ⟨offset, offset + byteLength chars⟩
  | cut _ => none

def piece? : Tile → Option Piece
  | gap _ _ => none
  | cut piece => some piece

theorem eq_cut {piece : Piece} (cut : tile.piece? = some piece) : tile = .cut piece := by
  cases tile with
  | gap => cases cut
  | cut => exact congrArg Tile.cut (Option.some.inj cut)

end Tile

/-- Tiles that lie side by side from an offset on and make up a text. None of them is empty. -/
inductive Tiled : (offset : Nat) → List Tile → List Char → Prop
  | nil (offset : Nat) : Tiled offset [] []
  | cons (tile : Tile) {tiles : List Tile} {rest : List Char} (filled : tile.chars ≠ [])
      (more : Tiled tile.span.stop tiles rest) : Tiled tile.offset (tile :: tiles) (tile.chars ++ rest)

namespace Tiled

variable {offset : Nat} {tiles : List Tile} {text : List Char}

section

variable (tiled : Tiled offset tiles text)

include tiled

theorem append {others : List Tile} {rest : List Char}
    (more : Tiled (offset + byteLength text) others rest) : Tiled offset (tiles ++ others) (text ++ rest) := by
  induction tiled with
  | nil => exact more
  | @cons tile _ _ filled _ ih =>
    rw [append_assoc]
    refine .cons tile filled (ih ?_)
    rw [byteLength_append, ← Nat.add_assoc] at more
    exact more

/-- Every byte of the text is in one tile, and no other byte is in any. -/
theorem countP_contains (place : Nat) :
    tiles.countP (fun tile => tile.span.contains place) =
      (Span.contains ⟨offset, offset + byteLength text⟩ place).toNat := by
  induction tiled with
  | nil => rw [countP_nil, Span.contains_eq_false (by rw [byteLength_nil]; omega), Bool.toNat_false]
  | @cons tile _ _ _ _ ih =>
    have own : (if tile.span.contains place = true then 1 else 0) = (tile.span.contains place).toNat := by
      cases tile.span.contains place <;> rfl
    rw [countP_cons, ih, own, Nat.add_comm, byteLength_append, ← Nat.add_assoc]
    exact Span.toNat_contains_append (Nat.le_add_right ..) (Nat.le_add_right ..) place

/-- A tile is the text at its place, and not empty. -/
theorem exists_around (found : tile ∈ tiles) :
    tile.chars ≠ [] ∧ ∃ front back, text = front ++ (tile.chars ++ back) ∧ tile.offset = offset + byteLength front := by
  induction tiled with
  | nil => cases found
  | @cons first _ back filled _ ih =>
    rcases mem_cons.mp found with rfl | later
    · exact ⟨filled, [], back, rfl, rfl⟩
    · obtain ⟨filled, front, back, rfl, place⟩ := ih later
      refine ⟨filled, first.chars ++ front, back, (append_assoc ..).symm, ?_⟩
      rw [place, byteLength_append, ← Nat.add_assoc]
      rfl

/-- Later tiles lie further behind. -/
theorem le_start (found : tile ∈ tiles) : offset ≤ tile.span.start := by
  obtain ⟨-, _, _, -, place⟩ := tiled.exists_around found
  exact Nat.le.intro place.symm

theorem pairwise : tiles.Pairwise fun tile later => tile.span.stop ≤ later.span.start := by
  induction tiled with
  | nil => exact .nil
  | cons _ _ more ih => exact .cons (fun later found => more.le_start found) ih

end

theorem slice?_of_mem (tiled : Tiled 0 tiles text) (found : tile ∈ tiles) :
    slice? text tile.span.start tile.span.stop = some tile.chars := by
  obtain ⟨-, front, back, rfl, place⟩ := tiled.exists_around found
  rw [Nat.zero_add] at place
  rw [Tile.span, place]
  exact slice?_append ..

end Tiled

/-! ## Pieces -/

/-- A token, or a character that fits nowhere and is reported. -/
def Definite (kind : Option TokenKind) (problem : Option Problem) : Prop :=
  (∃ found, kind = some found) ∧ (∀ c, problem ≠ some (.unexpected c)) ∨
    kind = none ∧ ∃ c, problem = some (.unexpected c)

/-- A piece is a blank, a token, or a character that is reported. -/
def Piece.Sorted (piece : Piece) : Prop :=
  piece.kind = none ∧ piece.problem = none ∧ (∃ c, isTokenBlank c = true ∧ piece.chars = [c]) ∨
    Definite piece.kind piece.problem

namespace Lexeme

def Sorted (lexeme : Lexeme) : Prop := Definite lexeme.kind lexeme.problem

theorem sorted_good (kind : TokenKind) (tail : Nat) : (good kind tail).Sorted := .inl ⟨⟨kind, rfl⟩, nofun⟩

theorem sorted_blockComment (cs : List Char) : (blockComment cs).Sorted := by
  unfold blockComment
  split
  · exact sorted_good _ _
  · exact .inl ⟨⟨_, rfl⟩, nofun⟩

theorem sorted_string (quote : Char) (cs : List Char) : (string quote cs).Sorted := by
  unfold string
  split
  · exact sorted_good _ _
  · exact .inl ⟨⟨_, rfl⟩, nofun⟩

theorem sorted_number (first : Char) (cs : List Char) : (number first cs).Sorted := by
  unfold number
  split
  · refine .inl ⟨⟨_, rfl⟩, fun c => ?_⟩
    dsimp only
    split <;> nofun
  · exact sorted_good _ _

theorem sorted_operator (first : Char) (cs : List Char) : (operator first cs).Sorted := by
  cases cs with
  | nil => exact sorted_good _ _
  | cons => exact sorted_good _ _

/-- What is not blank is a token, or reported. -/
theorem sorted_classify (fresh : Bool) (next : Option Char) (c : Char) (cs : List Char) :
    (classify fresh next c cs).Sorted := by
  unfold classify
  dsimp only
  split
  · exact sorted_good _ _
  · split
    · exact sorted_good _ _
    · split
      · exact sorted_blockComment cs
      · split
        · exact sorted_string c cs
        · split
          · exact sorted_number c cs
          · split
            · exact sorted_good _ _
            · split
              · exact sorted_operator c cs
              · split
                · exact sorted_good _ _
                · exact .inr ⟨rfl, c, rfl⟩

end Lexeme

/-- The pieces of a region lie side by side. -/
theorem tiled_cut (next : Option Char) (fresh : Bool) (offset : Nat) (cs : List Char) :
    Tiled offset ((cut next fresh offset cs).1.map Tile.cut) cs := by
  fun_induction cut next fresh offset cs with
  | case1 _ offset => exact .nil offset
  | case2 _ offset c _ _ _ _ found ih =>
    rw [found] at ih
    exact .cons (.cut ⟨offset, [c], none, none⟩) (cons_ne_nil c []) ih
  | case3 _ _ c cs _ lexeme piece _ _ found ih =>
    rw [found] at ih
    have tiled := Tiled.cons (.cut piece) (cons_ne_nil c _) ih
    have whole : piece.chars ++ cs.drop lexeme.tail = c :: cs :=
      congrArg (c :: ·) (take_append_drop lexeme.tail cs)
    exact whole ▸ tiled

theorem sorted_cut (next : Option Char) (fresh : Bool) (offset : Nat) (cs : List Char) :
    ∀ piece ∈ (cut next fresh offset cs).1, piece.Sorted := by
  fun_induction cut next fresh offset cs with
  | case1 => exact nofun
  | case2 _ _ c _ blank _ _ found ih =>
    rw [found] at ih
    exact forall_mem_cons.mpr ⟨.inl ⟨rfl, rfl, c, blank, rfl⟩, ih⟩
  | case3 fresh _ c cs _ _ _ _ _ found ih =>
    rw [found] at ih
    exact forall_mem_cons.mpr ⟨.inr (Lexeme.sorted_classify fresh next c cs), ih⟩

/-! ## Regions -/

/-- A range starts no later than another, and they share no byte. -/
def Before (range later : Span) : Prop :=
  range.start ≤ later.start ∧ ∀ place, ¬(range.contains place = true ∧ later.contains place = true)

theorem Before.le_start {range later : Span} (before : Before range later) (filled : later.start < later.stop) :
    range.stop ≤ later.start := by
  have apart := before.2 later.start
  rw [Span.contains_iff, Span.contains_iff] at apart
  have := before.1
  omega

/-- A range that lies between characters of the text from an offset on, or an empty one that is passed. -/
def Fits (offset : Nat) (text : List Char) (range : Span) : Prop :=
  range.start = range.stop ∧ range.stop ≤ offset ∨
    ∃ front body back, text = front ++ (body ++ back) ∧ range.start = offset + byteLength front ∧
      range.stop = range.start + byteLength body

/-- A range still fits when the text before it is passed. -/
theorem Fits.advance {offset stop : Nat} {passed rest : List Char} {range : Span}
    (fits : Fits offset (passed ++ rest) range) (reaches : stop = offset + byteLength passed)
    (ahead : range.start < range.stop → stop ≤ range.start) : Fits stop rest range := by
  by_cases behind : stop ≤ range.start
  · rcases fits with ⟨empty, le⟩ | ⟨front, body, back, same, begins, ends⟩
    · exact .inl ⟨empty, by omega⟩
    · obtain ⟨middle, rfl, rest⟩ := exists_middle same (by omega)
      refine .inr ⟨middle, body, back, rest, ?_, ends⟩
      rw [begins, reaches, byteLength_append, Nat.add_assoc]
  · refine .inl ?_
    rcases fits with passed | ⟨front, body, back, same, begins, ends⟩
    · omega
    · omega

/-- Some pieces and some gaps, each in order, lie side by side and make up a text. -/
def Covered (offset : Nat) (text : List Char) (pieces : List Piece) (gaps : List Span) : Prop :=
  ∃ tiles, Tiled offset tiles text ∧ tiles.filterMap Tile.piece? = pieces ∧ tiles.filterMap Tile.gap? = gaps

namespace Covered

variable {offset : Nat} {text : List Char} {pieces : List Piece} {gaps : List Span}

theorem gap {range : Span} {body : List Char} (covered : Covered range.stop text pieces gaps)
    (ends : range.stop = range.start + byteLength body) (filled : body ≠ []) :
    Covered range.start (body ++ text) pieces (range :: gaps) := by
  obtain ⟨tiles, tiled, rfl, rfl⟩ := covered
  have same : ⟨range.start, range.start + byteLength body⟩ = range := by rw [← ends]
  rw [ends] at tiled
  exact ⟨.gap range.start body :: tiles, .cons (.gap range.start body) filled tiled, rfl, congrArg (· :: _) same⟩

theorem region {stop : Nat} {front : List Char} (covered : Covered stop text pieces gaps)
    (reaches : stop = offset + byteLength front) (next : Option Char) (fresh : Bool) :
    Covered offset (front ++ text) ((cut next fresh offset front).1 ++ pieces) gaps := by
  obtain ⟨tiles, tiled, rfl, rfl⟩ := covered
  rw [reaches] at tiled
  refine ⟨_, (tiled_cut next fresh offset front).append tiled, ?_, ?_⟩
  · rw [filterMap_append, filterMap_map]
    exact congrArg (· ++ _) filterMap_some
  · have none : ((cut next fresh offset front).1.map Tile.cut).filterMap Tile.gap? = [] := by
      rw [filterMap_map, filterMap_eq_nil_iff]
      exact fun _ _ => rfl
    rw [filterMap_append, none, nil_append]

end Covered

/-- The disabled ranges of a text, and the pieces between them, lie side by side. -/
theorem covered_regions (ranges : List Span) (offset : Nat) (fresh afterGap : Bool) (text : List Char)
    (fits : ∀ range ∈ ranges, Fits offset text range) (apart : ranges.Pairwise Before) :
    Covered offset text (cutRegions fresh (regions offset afterGap ranges text))
      (ranges.filter fun range => range.start < range.stop) := by
  induction ranges generalizing offset fresh afterGap text with
  | nil =>
    have covered : Covered (offset + byteLength text) [] [] [] := ⟨[], .nil _, rfl, rfl⟩
    have whole := covered.region rfl none (fresh || afterGap)
    rw [append_nil] at whole
    exact whole
  | cons range ranges ih =>
    obtain ⟨fitsFirst, fitsLater⟩ := forall_mem_cons.mp fits
    obtain ⟨before, apartLater⟩ := pairwise_cons.mp apart
    by_cases passed : range.stop ≤ offset
    · have empty : ¬range.start < range.stop := by
        rcases fitsFirst with ⟨empty, _⟩ | ⟨front, _, _, _, begins, _⟩ <;> omega
      rw [regions, if_pos passed, filter_cons_of_neg (by simpa using empty)]
      exact ih offset fresh afterGap text fitsLater apartLater
    · rcases fitsFirst with ⟨_, le⟩ | ⟨front, body, back, rfl, begins, ends⟩
      · exact absurd le passed
      · -- What follows the text in front of the range.
        have rest (fresh : Bool) : Covered range.start (body ++ back)
            (cutRegions fresh
              (if range.stop ≤ range.start then regions range.start false ranges (body ++ back)
              else regions range.stop true ranges back))
            ((range :: ranges).filter fun range => range.start < range.stop) := by
          split
          · rename_i empty
            rw [filter_cons_of_neg (by simpa using empty)]
            refine ih range.start fresh false _ (fun later found => ?_) apartLater
            exact (fitsLater later found).advance begins fun _ => (before later found).1
          · rename_i filled
            have bodyFilled : body ≠ [] := by
              rintro rfl
              exact filled (Nat.le_of_eq ends)
            rw [filter_cons_of_pos (by simpa using filled)]
            refine Covered.gap (ih range.stop fresh true back (fun later found => ?_) apartLater) ends bodyFilled
            have fitsThis := fitsLater later found
            rw [← append_assoc] at fitsThis
            refine fitsThis.advance ?_ (before later found).le_start
            rw [ends, begins, byteLength_append, Nat.add_assoc]
        have gap : splitBytes (range.stop - range.start) (body ++ back) = (body, back) := by
          rw [ends, Nat.add_sub_cancel_left, splitBytes_byteLength]
        rw [regions, if_neg passed]
        by_cases reached : range.start ≤ offset
        · have none : front = [] := by
            cases front with
            | nil => rfl
            | cons c cs =>
              have := byteLength_pos (cons_ne_nil c cs)
              omega
          obtain rfl : offset = range.start := by
            rw [begins, none]
            rfl
          have covered := rest fresh
          rw [if_neg passed] at covered
          rw [if_pos reached, none, nil_append, gap]
          exact covered
        · have window : splitBytes (range.start - offset) (front ++ (body ++ back)) = (front, body ++ back) := by
            rw [begins, Nat.add_sub_cancel_left, splitBytes_byteLength]
          rw [if_neg reached, window]
          dsimp only
          rw [gap]
          exact (rest _).region begins _ _

theorem sorted_cutRegions (fresh : Bool) (regions : List Region) :
    ∀ piece ∈ cutRegions fresh regions, piece.Sorted := by
  induction regions generalizing fresh with
  | nil => exact nofun
  | cons _ _ ih =>
    intro piece found
    rcases mem_append.mp found with here | later
    · exact sorted_cut _ _ _ _ piece here
    · exact ih _ piece later

/-! ## Counting -/

/-- The report of a character that fits nowhere. -/
def isUnexpected (message : String) : Bool := "unexpected character".toList.isPrefixOf message.toList

theorem Problem.isUnexpected_message {problem : Problem} :
    isUnexpected problem.message ↔ ∃ c, problem = .unexpected c := by
  cases problem with
  | unclosedComment | unterminatedString | noHexDigits => exact iff_of_false (by decide +kernel) nofun
  | unexpected c =>
    refine iff_of_true ?_ ⟨c, rfl⟩
    have opening : "unexpected character '" = "unexpected character" ++ " '" := by decide +kernel
    have written : message (unexpected c) = "unexpected character" ++ (" '" ++ (toString c ++ "'")) := by
      rfl
    rw [isUnexpected, written, String.toList_append]
    exact isPrefixOf_iff_prefix.mpr (prefix_append ..)

def Piece.isBlank (piece : Piece) : Bool := piece.kind.isNone && piece.problem.isNone

theorem Piece.Sorted.exists_blank {piece : Piece} (sorted : piece.Sorted) (blank : piece.isBlank) :
    ∃ c, isTokenBlank c ∧ piece.chars = [c] := by
  rw [isBlank, Bool.and_eq_true, Option.isNone_iff_eq_none, Option.isNone_iff_eq_none] at blank
  rcases sorted with ⟨_, _, single⟩ | ⟨⟨kind, isKind⟩, _⟩ | ⟨_, c, problem⟩
  · exact single
  · exact absurd (blank.1.symm.trans isKind) nofun
  · exact absurd (blank.2.symm.trans problem) nofun

/-- A place in a tile is in a gap or in a piece. -/
theorem countP_tiles (tiles : List Tile) (place : Nat) :
    tiles.countP (fun tile => tile.span.contains place) =
      (tiles.filterMap Tile.gap?).countP (fun gap => gap.contains place) +
        (tiles.filterMap Tile.piece?).countP (fun piece => piece.span.contains place) := by
  induction tiles with
  | nil => rfl
  | cons tile _ ih =>
    cases tile with
    | gap =>
      rw [countP_cons, ih, filterMap_cons_some (by rfl), filterMap_cons_none (by rfl), countP_cons]
      exact Nat.add_right_comm ..
    | cut =>
      rw [countP_cons, ih, filterMap_cons_none (by rfl), filterMap_cons_some (by rfl), countP_cons]
      exact Nat.add_assoc ..

/-- A place in a piece is in a token, in what is reported, or in a blank. -/
theorem countP_pieces {pieces : List Piece} (sorted : ∀ piece ∈ pieces, piece.Sorted) (place : Nat) :
    pieces.countP (fun piece => piece.span.contains place) =
      (pieces.filterMap Piece.token?).countP (fun token => token.span.contains place) +
        ((pieces.filterMap Piece.diagnostic?).filter fun diagnostic => isUnexpected diagnostic.message).countP
          (fun diagnostic => diagnostic.span.contains place) +
        (pieces.filter Piece.isBlank).countP (fun piece => piece.span.contains place) := by
  induction pieces with
  | nil => rfl
  | cons piece pieces ih =>
    obtain ⟨sortedFirst, sortedLater⟩ := forall_mem_cons.mp sorted
    rw [countP_cons, ih sortedLater]
    rcases sortedFirst with ⟨kind, problem, _⟩ | ⟨⟨found, kind⟩, other⟩ | ⟨kind, c, problem⟩
    · have token : piece.token? = none := by rw [Piece.token?, kind, Option.map_none]
      have report : piece.diagnostic? = none := by rw [Piece.diagnostic?, problem, Option.map_none]
      have blank : piece.isBlank := by
        rw [Piece.isBlank, kind, problem]
        rfl
      rw [filterMap_cons_none token, filterMap_cons_none report, filter_cons_of_pos blank,
        countP_cons, Nat.add_assoc]
    · have token : piece.token? = some ⟨found, String.ofList piece.chars, piece.span⟩ := by
        rw [Piece.token?, kind, Option.map_some]
      have blank : ¬piece.isBlank := by
        rw [Piece.isBlank, kind]
        exact Bool.false_ne_true
      have reports : ((piece :: pieces).filterMap Piece.diagnostic?).filter
          (fun diagnostic => isUnexpected diagnostic.message) =
            (pieces.filterMap Piece.diagnostic?).filter fun diagnostic => isUnexpected diagnostic.message := by
        cases problem : piece.problem with
        | none => rw [filterMap_cons_none (by rw [Piece.diagnostic?, problem, Option.map_none])]
        | some =>
          rw [filterMap_cons_some (by rw [Piece.diagnostic?, problem, Option.map_some]),
            filter_cons_of_neg]
          intro unexpected
          obtain ⟨c, rfl⟩ := Problem.isUnexpected_message.mp unexpected
          exact other c problem
      rw [filterMap_cons_some token, reports, filter_cons_of_neg blank, countP_cons]
      dsimp only
      omega
    · have token : piece.token? = none := by rw [Piece.token?, kind, Option.map_none]
      have report : piece.diagnostic? =
          some ⟨.malformed, (Problem.unexpected c).message, piece.span, .lexer⟩ := by
        rw [Piece.diagnostic?, problem, Option.map_some]
      have blank : ¬piece.isBlank := by
        rw [Piece.isBlank, problem, Option.isNone_some, Bool.and_false]
        exact Bool.false_ne_true
      rw [filterMap_cons_none token, filterMap_cons_some report, filter_cons_of_neg blank,
        filter_cons_of_pos, countP_cons]
      · dsimp only
        omega
      · exact Problem.isUnexpected_message.mpr ⟨c, rfl⟩

theorem countP_filter_filled (ranges : List Span) (place : Nat) :
    (ranges.filter fun range => range.start < range.stop).countP (fun range => range.contains place) =
      ranges.countP fun range => range.contains place := by
  rw [countP_filter]
  refine countP_congr fun range _ => ?_
  rw [Bool.and_eq_true, decide_eq_true_eq, Span.contains_iff]
  omega

theorem pairwise_tokens {pieces : List Piece}
    (apart : pieces.Pairwise fun piece later => piece.span.stop ≤ later.span.start) :
    (pieces.filterMap Piece.token?).Pairwise fun token later => token.span.stop ≤ later.span.start := by
  refine pairwise_filterMap.mpr (apart.imp fun le token made later madeLater => ?_)
  obtain ⟨_, _, rfl⟩ := Option.map_eq_some_iff.mp made
  obtain ⟨_, _, rfl⟩ := Option.map_eq_some_iff.mp madeLater
  exact le

/-- Disabled ranges that lie between characters, in order and apart, cover a text together with its pieces. -/
theorem covered_pieces {disabled : List Span}
    (inside : ∀ range ∈ disabled, (slice? text range.start range.stop).isSome)
    (apart : disabled.Pairwise Before) :
    Covered 0 text (pieces text disabled) (disabled.filter fun range => range.start < range.stop) := by
  refine covered_regions disabled 0 true false text (fun range found => ?_) apart
  obtain ⟨front, middle, back, same, begins, ends⟩ := exists_of_slice? (inside range found)
  exact .inr ⟨front, middle, back, same, by rw [begins, Nat.zero_add], ends⟩

/-- A piece that is cut out of a text is the text at its place. -/
theorem Covered.slice?_of_mem {pieces : List Piece} {gaps : List Span}
    (covered : Covered 0 text pieces gaps) {piece : Piece} (found : piece ∈ pieces) :
    piece.chars ≠ [] ∧ slice? text piece.span.start piece.span.stop = some piece.chars := by
  obtain ⟨tiles, tiled, rfl, rfl⟩ := covered
  obtain ⟨tile, foundTile, cut⟩ := mem_filterMap.mp found
  obtain rfl := Tile.eq_cut cut
  exact ⟨(tiled.exists_around foundTile).1, tiled.slice?_of_mem foundTile⟩

theorem Covered.pairwise {pieces : List Piece} {gaps : List Span} (covered : Covered 0 text pieces gaps) :
    pieces.Pairwise fun piece later => piece.span.stop ≤ later.span.start := by
  obtain ⟨tiles, tiled, rfl, rfl⟩ := covered
  refine pairwise_filterMap.mpr (tiled.pairwise.imp fun {tile later} le piece cut other cutLater => ?_)
  obtain rfl := Tile.eq_cut cut
  obtain rfl := Tile.eq_cut cutLater
  exact le

theorem Covered.count {pieces : List Piece} {gaps : List Span} (covered : Covered 0 text pieces gaps)
    {place : Nat} (inside : place < byteLength text) :
    gaps.countP (fun gap => gap.contains place) + pieces.countP (fun piece => piece.span.contains place) = 1 := by
  obtain ⟨tiles, tiled, rfl, rfl⟩ := covered
  have there : Span.contains ⟨0, 0 + byteLength text⟩ place := by
    rw [Span.contains_iff, Nat.zero_add]
    exact ⟨Nat.zero_le place, inside⟩
  rw [← countP_tiles, tiled.countP_contains, there, Bool.toNat_true]

end Lexer

/-- The blanks that may stand between tokens. -/
def tokenBlanks : List Char := [' ', '\t', '\n', '\r', '\x0b', '\x0c']

theorem utf8Size_of_mem_tokenBlanks {c : Char} (blank : c ∈ tokenBlanks) : c.utf8Size = 1 := by
  simp only [tokenBlanks, mem_cons, not_mem_nil, or_false] at blank
  rcases blank with rfl | rfl | rfl | rfl | rfl | rfl <;> rfl

/-- How many of the disabled ranges, the tokens and the reported characters of a text a place is in. -/
def Lexed.countAt (lexed : Lexed) (disabled : List Span) (place : Nat) : Nat :=
  disabled.countP (fun range => range.contains place) + lexed.tokens.countP (fun token => token.span.contains place) +
    (lexed.diagnostics.filter fun diagnostic => Lexer.isUnexpected diagnostic.message).countP
      fun diagnostic => diagnostic.span.contains place

/-- Nothing is lost when a text is cut. Every byte is in one disabled range, in one token or in one reported character,
or it is a blank in none of them. Tokens are not empty, they follow one another, and each is the text at its place. -/
theorem tokenize_lossless (text : List Char) (disabled : List Span)
    (inside : ∀ range ∈ disabled, (slice? text range.start range.stop).isSome = true)
    (sorted : disabled.Pairwise fun range later => range.start ≤ later.start)
    (disjoint : disabled.Pairwise fun range later =>
      ∀ place, ¬(range.contains place = true ∧ later.contains place = true)) :
    (∀ place, place < byteLength text →
      (tokenize text disabled).countAt disabled place = 1 ∨
        (tokenize text disabled).countAt disabled place = 0 ∧
          ∃ c ∈ tokenBlanks, slice? text place (place + 1) = some [c]) ∧
      (∀ token ∈ (tokenize text disabled).tokens, token.span.start < token.span.stop ∧
        slice? text token.span.start token.span.stop = some token.text.toList) ∧
      (tokenize text disabled).tokens.Pairwise fun token later => token.span.stop ≤ later.span.start := by
  have covered := Lexer.covered_pieces inside (sorted.and disjoint)
  have kinds : ∀ piece ∈ Lexer.pieces text disabled, piece.Sorted :=
    Lexer.sorted_cutRegions _ _
  refine ⟨fun place within => ?_, fun token found => ?_, ?_⟩
  · have count := covered.count within
    rw [Lexer.countP_filter_filled, Lexer.countP_pieces kinds, ← Nat.add_assoc, ← Nat.add_assoc] at count
    change (tokenize text disabled).countAt disabled place + _ = 1 at count
    rcases Nat.eq_zero_or_pos
      (((Lexer.pieces text disabled).filter Lexer.Piece.isBlank).countP fun piece => piece.span.contains place)
      with none | blank
    · exact .inl (by omega)
    · refine .inr ⟨by omega, ?_⟩
      obtain ⟨piece, found, there⟩ := countP_pos_iff.mp blank
      obtain ⟨isPiece, isBlank⟩ := mem_filter.mp found
      obtain ⟨c, blankChar, chars⟩ := (kinds piece isPiece).exists_blank isBlank
      have slice := (covered.slice?_of_mem isPiece).2
      have listed : c ∈ tokenBlanks := by simpa [isTokenBlank, tokenBlanks, or_assoc] using blankChar
      have size : byteLength piece.chars = 1 := by
        rw [chars, byteLength_cons, utf8Size_of_mem_tokenBlanks listed, byteLength_nil]
      rw [Span.contains_iff, Lexer.Piece.span, size] at there
      have same : piece.offset = place := Nat.le_antisymm there.1 (Nat.le_of_lt_succ there.2)
      rw [Lexer.Piece.span, size, same, chars] at slice
      exact ⟨c, listed, slice⟩
  · obtain ⟨piece, isPiece, made⟩ := mem_filterMap.mp found
    obtain ⟨kind, _, rfl⟩ := Option.map_eq_some_iff.mp made
    obtain ⟨filled, slice⟩ := covered.slice?_of_mem isPiece
    refine ⟨Nat.lt_add_of_pos_right (byteLength_pos filled), ?_⟩
    rw [slice, String.toList_ofList]
  · exact Lexer.pairwise_tokens covered.pairwise

/-- A text with a character that fits nowhere and with a string that is not closed. -/
def splitCommentSample : List Char := "a\t§ /*b*/ \"é".toList

/-- An empty range, and one that divides a comment of the sample. -/
def splitCommentRanges : List Span := [⟨0, 0⟩, ⟨7, 8⟩]

theorem tokenize_lossless_splitComment :
    (∀ range ∈ splitCommentRanges, (slice? splitCommentSample range.start range.stop).isSome = true) ∧
      (∀ place, place < byteLength splitCommentSample →
        (tokenize splitCommentSample splitCommentRanges).countAt splitCommentRanges place = 1 ∨
          (tokenize splitCommentSample splitCommentRanges).countAt splitCommentRanges place = 0 ∧
            ∃ c ∈ tokenBlanks, slice? splitCommentSample place (place + 1) = some [c]) ∧
      (∀ token ∈ (tokenize splitCommentSample splitCommentRanges).tokens, token.span.start < token.span.stop ∧
        slice? splitCommentSample token.span.start token.span.stop = some token.text.toList) ∧
      (tokenize splitCommentSample splitCommentRanges).tokens.Pairwise
        fun token later => token.span.stop ≤ later.span.start := by
  have inside : ∀ range ∈ splitCommentRanges, (slice? splitCommentSample range.start range.stop).isSome = true := by
    decide +kernel
  have disjoint : splitCommentRanges.Pairwise fun range later =>
      ∀ place, ¬(range.contains place = true ∧ later.contains place = true) := by
    refine pairwise_pair.mpr fun place both => ?_
    exact absurd (Span.contains_iff.mp both.1).2 (Nat.not_lt_zero place)
  exact ⟨inside, tokenize_lossless splitCommentSample splitCommentRanges inside (by decide) disjoint⟩

end ScriptLint
