import ScriptLint.Proofs.LexerTiles
import ScriptLint.Proofs.ScanRuns

/-!
# Tokens follow one another

Whatever ranges of a text are disabled, its tokens are not empty and come in the order of the text. When the ranges lie
between characters, the tokens lie inside the text.
-/

namespace ScriptLint

open Text List

namespace Text

theorem byteLength_splitBytes_le (bytes : Nat) (text : List Char) : byteLength (splitBytes bytes text).1 ≤ bytes := by
  induction text generalizing bytes with
  | nil => exact Nat.zero_le bytes
  | cons c cs ih =>
    rw [splitBytes]
    split
    · have rest := ih (bytes - c.utf8Size)
      change c.utf8Size + byteLength (splitBytes (bytes - c.utf8Size) cs).1 ≤ bytes
      omega
    · exact Nat.zero_le bytes

end Text

namespace Lexer

/-- Pieces that are not empty and follow one another from an offset on. -/
structure Follow (offset : Nat) (pieces : List Piece) : Prop where
  filled : ∀ piece ∈ pieces, piece.chars ≠ []
  behind : ∀ piece ∈ pieces, offset ≤ piece.span.start
  apart : pieces.Pairwise fun piece later => piece.span.stop ≤ later.span.start

namespace Follow

variable {offset further : Nat} {pieces : List Piece}

theorem mono (follow : Follow further pieces) (le : offset ≤ further) : Follow offset pieces :=
  ⟨follow.filled, fun piece found => Nat.le_trans le (follow.behind piece found), follow.apart⟩

theorem ofTiled {text : List Char} (tiled : Tiled offset (pieces.map .cut) text) : Follow offset pieces where
  filled _ found := (tiled.exists_around (mem_map_of_mem found)).1
  behind _ found := tiled.le_start (mem_map_of_mem found)
  apart := pairwise_map.mp tiled.pairwise

/-- The pieces of a text end where the text does. -/
theorem stop_le {text : List Char} (tiled : Tiled offset (pieces.map .cut) text) {piece : Piece}
    (found : piece ∈ pieces) : piece.span.stop ≤ offset + byteLength text := by
  obtain ⟨-, front, back, rfl, begins⟩ := tiled.exists_around (mem_map_of_mem found)
  change piece.offset + byteLength piece.chars ≤ _
  change piece.offset = _ at begins
  rw [byteLength_append, byteLength_append]
  change _ ≤ offset + (byteLength front + (byteLength piece.chars + byteLength back))
  omega

theorem append {others : List Piece} (follow : Follow offset pieces) (more : Follow further others)
    (ends : ∀ piece ∈ pieces, piece.span.stop ≤ further) (le : offset ≤ further) :
    Follow offset (pieces ++ others) where
  filled piece found := (mem_append.mp found).elim (follow.filled piece) (more.filled piece)
  behind piece found :=
    (mem_append.mp found).elim (follow.behind piece) fun found => Nat.le_trans le (more.behind piece found)
  apart := pairwise_append.mpr ⟨follow.apart, more.apart, fun piece found other foundOther =>
    Nat.le_trans (ends piece found) (more.behind other foundOther)⟩

end Follow

/-! ## Names do not touch -/

/-- A name that stands before another ends before it starts. -/
def Divided (piece later : Piece) : Prop :=
  piece.kind = some .ident → later.kind = some .ident → piece.span.stop < later.span.start

/-- A name begins as names do and takes all that can be part of it. -/
theorem Lexeme.classify_ident {fresh : Bool} {next : Option Char} {c : Char} {cs : List Char}
    (ident : (classify fresh next c cs).kind = some .ident) :
    isIdentStart c ∧ (classify fresh next c cs).tail = (cs.takeWhile isIdentPart).length := by
  have comment : (blockComment cs).kind = some .comment := by unfold blockComment; split <;> rfl
  have str : (string c cs).kind = some .str := by unfold string; split <;> rfl
  have digits : (number c cs).kind = some .number := by unfold number; split <;> rfl
  have sign : (operator c cs).kind = some .op := by cases cs <;> rfl
  unfold classify at ident ⊢
  grind [good]

theorem exists_head_of_ident {next : Option Char} {fresh : Bool} {offset : Nat} {cs : List Char} :
    ∀ piece ∈ (cut next fresh offset cs).1, piece.kind = some .ident →
      ∃ c rest, piece.chars = c :: rest ∧ isIdentStart c := by
  fun_induction cut next fresh offset cs with
  | case1 => exact forall_mem_nil _
  | case2 _ _ _ _ _ _ _ found ih =>
    rw [found] at ih
    exact forall_mem_cons.mpr ⟨fun ident => (by cases ident), ih⟩
  | case3 _ _ c _ _ _ _ _ _ found ih =>
    rw [found] at ih
    exact forall_mem_cons.mpr ⟨fun ident => ⟨c, _, rfl, (Lexeme.classify_ident ident).1⟩, ih⟩

theorem divided_cut (next : Option Char) (fresh : Bool) (offset : Nat) (cs : List Char) :
    (cut next fresh offset cs).1.Pairwise Divided := by
  fun_induction cut next fresh offset cs with
  | case1 => exact .nil
  | case2 _ _ _ _ _ _ _ found ih =>
    rw [found] at ih
    exact .cons (fun _ _ ident => by cases ident) ih
  | case3 fresh _ _ cs _ lexeme piece pieces _ found ih =>
    have tiled := tiled_cut next (fresh && lexeme.kind.isNone) piece.span.stop (cs.drop lexeme.tail)
    have heads := @exists_head_of_ident next (fresh && lexeme.kind.isNone) piece.span.stop (cs.drop lexeme.tail)
    rw [found] at ih tiled heads
    refine .cons (fun later isLater ident identLater => ?_) ih
    have member : Tile.cut later ∈ pieces.map Tile.cut := mem_map_of_mem isLater
    refine Nat.lt_of_le_of_ne (tiled.le_start member) fun touch => ?_
    -- What follows the name would be part of it.
    obtain ⟨-, front, back, whole, place⟩ := tiled.exists_around member
    obtain ⟨d, rest, head, start⟩ := heads later isLater identLater
    have nothing : front = [] := by
      cases front with
      | nil => rfl
      | cons e front =>
        have positive := byteLength_pos (cons_ne_nil e front)
        change later.offset = _ at place
        change piece.span.stop = later.offset at touch
        omega
    have behind : cs.dropWhile isIdentPart = d :: (rest ++ back) := by
      have tail := (Lexeme.classify_ident ident).2
      rw [nothing, tail, drop_length_takeWhile] at whole
      change _ = later.chars ++ back at whole
      rwa [head] at whole
    have stops := head?_dropWhile_not isIdentPart cs
    rw [behind] at stops
    exact Bool.noConfusion ((isIdentPart_of_isIdentStart start).symm.trans stops)

/-- The pieces between any ranges follow one another. Names on both sides of a range that is not empty do not touch
either. -/
theorem follow_regions (ranges : List Span) (offset : Nat) (fresh afterGap : Bool) (text : List Char) :
    Follow offset (cutRegions fresh (regions offset afterGap ranges text)) ∧
      ((∀ range ∈ ranges, range.start < range.stop) →
        (cutRegions fresh (regions offset afterGap ranges text)).Pairwise Divided) := by
  induction ranges generalizing offset fresh afterGap text with
  | nil =>
    have whole : cutRegions fresh (regions offset afterGap [] text) = (cut none (fresh || afterGap) offset text).1 :=
      append_nil _
    rw [whole]
    exact ⟨.ofTiled (tiled_cut ..), fun _ => divided_cut ..⟩
  | cons range _ ih =>
    rw [regions, forall_mem_cons]
    split
    · exact ⟨(ih ..).1, fun filled => (ih ..).2 filled.2⟩
    · split
      · next ahead _ => exact ⟨(ih range.stop ..).1.mono (by omega), fun filled => (ih ..).2 filled.2⟩
      · rename_i ahead behind
        -- The window in front of the range ends where the range starts at the latest.
        have tiled := tiled_cut (splitBytes (range.start - offset) text).2.head? (fresh || afterGap) offset
          (splitBytes (range.start - offset) text).1
        have short := byteLength_splitBytes_le (range.start - offset) text
        have ends (piece : Piece) (found : piece ∈ (cut (splitBytes (range.start - offset) text).2.head?
            (fresh || afterGap) offset (splitBytes (range.start - offset) text).1).1) :
            piece.span.stop ≤ range.start := by
          have := Follow.stop_le tiled found
          omega
        refine ⟨(Follow.ofTiled tiled).append (show Follow range.start _ from ?_) ends (by omega), fun filled => ?_⟩
        · split
          · exact (ih ..).1
          · exact (ih range.stop ..).1.mono (by omega)
        · dsimp only
          rw [if_neg (Nat.not_le_of_lt filled.1)]
          refine pairwise_append.mpr ⟨divided_cut .., (ih ..).2 filled.2, fun piece found later foundLater _ _ => ?_⟩
          have before := ends piece found
          have behind := (ih range.stop ..).1.behind later foundLater
          omega

/-- Ranges that lie between characters leave only pieces that lie inside the text. -/
theorem stop_le_of_regions {whole : List Char} (ranges : List Span)
    (inside : ∀ range ∈ ranges, (slice? whole range.start range.stop).isSome) (fresh afterGap : Bool)
    (passed text : List Char) (same : whole = passed ++ text) :
    ∀ piece ∈ cutRegions fresh (regions (byteLength passed) afterGap ranges text),
      piece.span.stop ≤ byteLength whole := by
  -- The text from a boundary on, when the boundary is not passed.
  have beyond {stop : Nat} {passed text front back : List Char} (same : whole = passed ++ text)
      (cut : whole = front ++ back) (ends : stop = byteLength front) (le : byteLength passed ≤ stop) :
      splitBytes (stop - byteLength passed) text = (front.drop passed.length, back) ∧
        front = passed ++ front.drop passed.length := by
    obtain ⟨middle, rfl, rfl⟩ := exists_middle (same.symm.trans cut) (ends ▸ le)
    rw [drop_left, ends, byteLength_append, Nat.add_sub_cancel_left, splitBytes_byteLength]
    exact ⟨rfl, rfl⟩
  induction ranges generalizing passed text fresh afterGap with
  | nil =>
    intro piece found
    change piece ∈ (cut none (fresh || afterGap) (byteLength passed) text).1 ++ [] at found
    rw [append_nil] at found
    rw [same, byteLength_append]
    exact Follow.stop_le (tiled_cut ..) found
  | cons range _ ih =>
    obtain ⟨insideFirst, insideLater⟩ := forall_mem_cons.mp inside
    obtain ⟨front, body, back, cut, begins, ends⟩ := exists_of_slice? insideFirst
    have cutBehind : whole = (front ++ body) ++ back := by rw [cut, append_assoc]
    have stops : range.stop = byteLength (front ++ body) := by rw [ends, begins, byteLength_append]
    rw [regions]
    split
    · exact ih insideLater _ _ _ _ same
    · rename_i ahead
      split
      · rw [(beyond same cutBehind stops (by omega)).1]
        rw [stops]
        exact ih insideLater _ _ _ _ cutBehind
      · rename_i behind
        obtain ⟨split, window_front⟩ := beyond same cut begins (by omega)
        rw [split]
        intro piece found
        rcases mem_append.mp found with window | later
        · have ends : piece.span.stop ≤ byteLength passed + byteLength (front.drop passed.length) :=
            Follow.stop_le (tiled_cut ..) window
          have total := congrArg byteLength cut
          have reached := congrArg byteLength window_front
          rw [byteLength_append] at total reached
          omega
        · split at later
          · rw [begins] at later
            exact ih insideLater _ _ _ _ cut piece later
          · rw [begins, (beyond cut cutBehind stops (by omega)).1, stops] at later
            exact ih insideLater _ _ _ _ cutBehind piece later

end Lexer

/-! ## Tokens -/

/-- Tokens that are not empty and follow one another between two offsets. -/
structure InOrder (start stop : Nat) (tokens : List Token) : Prop where
  le : start ≤ stop
  filled : ∀ token ∈ tokens, token.span.start < token.span.stop
  inside : ∀ token ∈ tokens, start ≤ token.span.start ∧ token.span.stop ≤ stop
  apart : tokens.Pairwise fun token later => token.span.stop ≤ later.span.start

namespace InOrder

variable {start stop : Nat} {token : Token} {tokens used : List Token}

theorem filter (ordered : InOrder start stop tokens) (test : Token → Bool) :
    InOrder start stop (tokens.filter test) where
  le := ordered.le
  filled token found := ordered.filled token (mem_filter.mp found |>.1)
  inside token found := ordered.inside token (mem_filter.mp found |>.1)
  apart := ordered.apart.filter test

theorem tail (ordered : InOrder start stop (token :: tokens)) : InOrder token.span.stop stop tokens where
  le := (ordered.inside token mem_cons_self).2
  filled later found := ordered.filled later (mem_cons_of_mem token found)
  inside later found :=
    ⟨(pairwise_cons.mp ordered.apart).1 later found, (ordered.inside later (mem_cons_of_mem token found)).2⟩
  apart := ordered.apart.of_cons

/-- What is left after some tokens lies behind the last of them. -/
theorem drop (ordered : InOrder start stop (used ++ tokens)) : InOrder (Analysis.lastStop start used) stop tokens := by
  induction used generalizing start with
  | nil => exact ordered
  | cons _ _ ih => exact ih ordered.tail

theorem suffix {all : List Token} (ordered : InOrder start stop all) (rest : tokens <:+ all) :
    ∃ first, InOrder first stop tokens := by
  obtain ⟨front, rfl⟩ := rest
  exact ⟨_, ordered.drop⟩

theorem le_lastStop (ordered : InOrder start stop (used ++ tokens)) : start ≤ Analysis.lastStop start used := by
  induction used generalizing start with
  | nil => exact Nat.le_refl start
  | cons token _ ih =>
    have filled := ordered.filled token mem_cons_self
    have inside := ordered.inside token mem_cons_self
    have le : start ≤ token.span.stop := by omega
    exact Nat.le_trans le (ih ordered.tail)

/-- A token that was passed ends no later than the last one. -/
theorem stop_le_lastStop (ordered : InOrder start stop (used ++ tokens)) (found : token ∈ used) :
    token.span.stop ≤ Analysis.lastStop start used := by
  induction used generalizing start with
  | nil => cases found
  | cons _ _ ih =>
    rcases mem_cons.mp found with rfl | later
    · exact ordered.tail.le_lastStop
    · exact ih ordered.tail later

/-- The tokens in front of one are those that start before it. -/
theorem takeWhile_start {all front behind : List Token} (ordered : InOrder start stop all)
    (split : all = front ++ token :: behind) :
    all.takeWhile (fun other => other.span.start < token.span.start) = front := by
  induction front generalizing start all with
  | nil => simp [split]
  | cons first _ ih =>
    subst split
    have filled := ordered.filled first mem_cons_self
    have behind := (ordered.tail.inside token (by simp)).1
    have earlier := Nat.lt_of_lt_of_le filled behind
    rw [cons_append, takeWhile_cons_of_pos (by simpa using earlier)]
    exact congrArg (first :: ·) (ih ordered.tail rfl)

/-- Tokens are known from where they start. -/
theorem eq_of_start_eq (ordered : InOrder start stop tokens) {other : Token} (found : token ∈ tokens)
    (foundOther : other ∈ tokens) (same : token.span.start = other.span.start) : token = other := by
  obtain ⟨front, behind, split⟩ := append_of_mem found
  obtain ⟨_, _, split'⟩ := append_of_mem foundOther
  have before := ordered.takeWhile_start split
  rw [same, ordered.takeWhile_start split'] at before
  subst before
  exact (List.cons.inj (append_cancel_left (split.symm.trans split'))).1

end InOrder

section Tokenize

variable (text : List Char) (disabled : List Span)

/-- The tokens of a text follow one another up to an offset that none of them passes. -/
theorem tokenize_inOrder {stop : Nat}
    (ends : ∀ piece ∈ Lexer.pieces text disabled, piece.span.stop ≤ stop) :
    InOrder 0 stop (tokenize text disabled).tokens := by
  have follow : Lexer.Follow 0 (Lexer.pieces text disabled) := (Lexer.follow_regions ..).1
  refine ⟨Nat.zero_le stop, fun token found => ?_, fun token found => ?_, ?_⟩
  · obtain ⟨piece, isPiece, made⟩ := mem_filterMap.mp found
    obtain ⟨kind, _, rfl⟩ := Option.map_eq_some_iff.mp made
    exact Nat.lt_add_of_pos_right (byteLength_pos (follow.filled piece isPiece))
  · obtain ⟨piece, isPiece, made⟩ := mem_filterMap.mp found
    obtain ⟨kind, _, rfl⟩ := Option.map_eq_some_iff.mp made
    exact ⟨Nat.zero_le _, ends piece isPiece⟩
  · exact Lexer.pairwise_tokens follow.apart

theorem exists_tokenize_inOrder : ∃ stop, InOrder 0 stop (tokenize text disabled).tokens := by
  have bounded (pieces : List Lexer.Piece) : ∃ stop, ∀ piece ∈ pieces, piece.span.stop ≤ stop := by
    induction pieces with
    | nil => exact ⟨0, nofun⟩
    | cons piece _ ih =>
      obtain ⟨stop, ends⟩ := ih
      refine ⟨max piece.span.stop stop, forall_mem_cons.mpr ⟨Nat.le_max_left .., fun later found => ?_⟩⟩
      exact Nat.le_trans (ends later found) (Nat.le_max_right ..)
  obtain ⟨stop, ends⟩ := bounded (Lexer.pieces text disabled)
  exact ⟨stop, tokenize_inOrder text disabled ends⟩

/-- Between ranges that are not empty, no two names of a text touch. -/
theorem tokenize_divided (filled : ∀ range ∈ disabled, range.start < range.stop) :
    (tokenize text disabled).tokens.Pairwise fun token later =>
      token.isIdent → later.isIdent → token.span.stop < later.span.start := by
  have divided := (Lexer.follow_regions disabled 0 true false text).2 filled
  refine pairwise_filterMap.mpr (divided.imp fun divided token made later madeLater ident identLater => ?_)
  obtain ⟨kind, isKind, rfl⟩ := Option.map_eq_some_iff.mp made
  obtain ⟨kindLater, isKindLater, rfl⟩ := Option.map_eq_some_iff.mp madeLater
  refine divided (isKind.trans ?_) (isKindLater.trans ?_)
  · rw [show kind = .ident from eq_of_beq ident]
  · rw [show kindLater = .ident from eq_of_beq identLater]

/-- When the disabled ranges lie between characters, the tokens lie inside the text. -/
theorem tokenize_inOrder_of_inside
    (inside : ∀ range ∈ disabled, (slice? text range.start range.stop).isSome) :
    InOrder 0 (byteLength text) (tokenize text disabled).tokens :=
  tokenize_inOrder text disabled (Lexer.stop_le_of_regions disabled inside true false [] text rfl)

end Tokenize

end ScriptLint
