import ScriptLint.Pipeline
import ScriptLint.Proofs.DisabledRanges
import ScriptLint.Proofs.MaskedRun

/-!
# Disabled text has no influence

A document with its disabled text masked is analysed like the document itself. Preprocessing gives the same
(`Run.all_mask`). The lexer cuts the text between the disabled ranges and looks one character ahead; every such
stretch ends with a line feed, so it never sees what a range holds. The later stages read the text only through its
tokens, its length and its lines.
-/

namespace ScriptLint

open Text List

/-- From an offset on, exactly the bytes in some ranges are masked. -/
def Hides (masked : Nat → Bool) (offset : Nat) (ranges : List Span) : Prop :=
  ∀ place, offset ≤ place → (masked place = true ↔ ∃ range ∈ ranges, range.contains place = true)

variable {offset : Nat} {ranges : List Span} {text : List Char} {masked : Nat → Bool}

theorem Apart.le_start (apart : Apart offset ranges text) {range : Span} (found : range ∈ ranges) :
    offset ≤ range.start := by
  induction apart with
  | nil => cases found
  | @cons offset first ranges front body rest begins reaches filled more ih =>
    rcases mem_cons.mp found with rfl | later
    · omega
    · have := ih later
      omega

namespace Hides

variable {masked : Nat → Bool} {offset : Nat} {range : Span} {ranges : List Span} {rest : List Char}

variable (hides : Hides masked offset (range :: ranges))

include hides

theorem clear (nonempty : range.start ≤ range.stop)
    (more : Apart range.stop ranges rest) :
    ∀ place, offset ≤ place → place < range.start → masked place = false := by
  intro place le lt
  rw [Bool.eq_false_iff, Ne, hides place le]
  rintro ⟨other, found, inside⟩
  rw [Span.contains_iff] at inside
  rcases mem_cons.mp found with rfl | later
  · omega
  · have := more.le_start later
    omega

/-- The text in the first range is masked. -/
theorem covered (behind : offset ≤ range.start) :
    ∀ place, range.start ≤ place → place < range.stop → masked place := by
  intro place le lt
  rw [hides place (Nat.le_trans behind le)]
  exact ⟨range, mem_cons_self, Span.contains_iff.mpr ⟨le, lt⟩⟩

theorem tail (behind : offset ≤ range.stop) : Hides masked range.stop ranges := by
  intro place le
  rw [hides place (Nat.le_trans behind le)]
  have outside : range.contains place = false := by
    rw [Bool.eq_false_iff, Ne, Span.contains_iff]
    exact fun inside => absurd inside.2 (Nat.not_lt.mpr le)
  simp [outside]

end Hides

/-- A text without ranges is not masked. -/
theorem mask_of_hides_nil (hides : Hides masked offset []) (text : List Char) : mask masked offset text = text := by
  apply mask_of_clear
  intro place le _
  rw [Bool.eq_false_iff, Ne, hides place le]
  rintro ⟨range, found, _⟩
  cases found

/-- Masking changes nothing before the first range. -/
theorem mask_of_apart {range : Span} {front body rest : List Char} (hides : Hides masked offset (range :: ranges))
    (begins : range.start = offset + byteLength front + 1) (reaches : range.stop = range.start + byteLength body)
    (more : Apart range.stop ranges rest) :
    mask masked offset (front ++ '\n' :: (body ++ rest)) =
      front ++ '\n' :: (mask masked range.start body ++ mask masked range.stop rest) := by
  have clear := hides.clear (Nat.le.intro reaches.symm) more
  rw [mask_append, mask_of_clear masked (fun place le lt => clear place le (by omega)), mask_lineFeed, ← begins,
    mask_append, ← reaches]

/-- Disabled ranges do not divide a character. -/
theorem Apart.undivided (apart : Apart offset ranges text) (hides : Hides masked offset ranges) :
    Undivided masked offset text := by
  induction apart with
  | nil =>
    apply undivided_of_constant
    intro place le _
    rw [Bool.eq_false_iff, Ne, hides place le]
    rintro ⟨range, found, _⟩
    cases found
  | @cons offset range _ front body rest begins reaches _ more ih =>
    have clear := hides.clear (Nat.le.intro reaches.symm) more
    have covered := hides.covered (by omega)
    have line : offset + byteLength (front ++ ['\n']) = range.start := by
      rw [byteLength_append, begins]
      rfl
    rw [append_cons front '\n' (body ++ rest), undivided_append masked offset (front ++ ['\n']), line,
      undivided_append masked range.start body, ← reaches]
    refine ⟨?_, ?_, ih (hides.tail (by omega))⟩
    · exact undivided_of_constant masked fun place le lt => clear place le (line ▸ lt)
    · exact undivided_of_constant masked fun place le lt => covered place le (reaches ▸ lt)

namespace Lexer

/-- The first region of a text whose disabled ranges are apart. -/
theorem regions_of_apart {offset : Nat} {afterGap : Bool} {range : Span} {ranges : List Span}
    {front body rest : List Char} (begins : range.start = offset + byteLength front + 1)
    (reaches : range.stop = range.start + byteLength body) (filled : body ≠ []) :
    regions offset afterGap (range :: ranges) (front ++ '\n' :: (body ++ rest)) =
      ⟨offset, front ++ ['\n'], (body ++ rest).head?, afterGap⟩ :: regions range.stop true ranges rest := by
  have positive := byteLength_pos filled
  have window : range.start - offset = byteLength (front ++ ['\n']) := by
    rw [begins, byteLength_append, Nat.add_assoc, Nat.add_sub_cancel_left]
    rfl
  have gap : range.stop - range.start = byteLength body := by
    rw [reaches, Nat.add_sub_cancel_left]
  rw [regions, if_neg (by omega), if_neg (by omega), window, append_cons front '\n' (body ++ rest),
    splitBytes_byteLength]
  dsimp only
  rw [if_neg (by omega), gap, splitBytes_byteLength]

/-- A lexeme of a text that ends a line does not depend on what follows the text. -/
theorem classify_next (next other : Option Char) (fresh : Bool) {c : Char} {cs : List Char}
    (blank : ¬isTokenBlank c) (ends : ∀ last, (c :: cs).getLast? = some last → last = '\n') :
    Lexeme.classify fresh next c cs = Lexeme.classify fresh other c cs := by
  cases cs with
  | nil =>
    obtain rfl : c = '\n' := ends c rfl
    exact absurd rfl blank
  | cons => rfl

/-- What follows a text has no influence on how it is cut when the text ends a line. -/
theorem cut_next (next other : Option Char) (fresh : Bool) (offset : Nat) (cs : List Char)
    (ends : ∀ last, cs.getLast? = some last → last = '\n') :
    cut next fresh offset cs = cut other fresh offset cs := by
  have endsAfter {c : Char} {cs : List Char} (ends : ∀ last, (c :: cs).getLast? = some last → last = '\n')
      (count : Nat) : ∀ last, (cs.drop count).getLast? = some last → last = '\n' := by
    intro last found
    rw [getLast?_drop] at found
    split at found
    · cases found
    · refine ends last ?_
      rw [getLast?_cons, found]
      rfl
  fun_induction cut next fresh offset cs with
  | case1 => rw [cut]
  | case2 _ _ _ _ blank _ _ found ih =>
    have later := ih (endsAfter ends 0)
    rw [found] at later
    rw [cut, if_pos blank, ← later]
  | case3 fresh _ _ _ blank lexeme piece _ _ found ih =>
    have later := ih (endsAfter ends lexeme.tail)
    have same := classify_next next other fresh blank ends
    rw [found] at later
    rw [cut, if_neg blank]
    simp only [← same]
    exact congrArg (fun rest : List Piece × Bool => (piece :: rest.1, rest.2)) later

/-- Masking the disabled ranges has no influence on how the text between them is cut. -/
theorem cutRegions_mask {masked : Nat → Bool} {offset : Nat} {ranges : List Span} {text : List Char}
    (apart : Apart offset ranges text) (hides : Hides masked offset ranges) (fresh afterGap : Bool) :
    cutRegions fresh (regions offset afterGap ranges (mask masked offset text)) =
      cutRegions fresh (regions offset afterGap ranges text) := by
  induction apart generalizing fresh afterGap with
  | nil => rw [mask_of_hides_nil hides]
  | @cons offset range _ front body rest begins reaches filled more ih =>
    have maskedFilled : mask masked range.start body ≠ [] := by
      intro empty
      have length := congrArg byteLength empty
      rw [byteLength_mask] at length
      exact absurd length (Nat.ne_of_gt (byteLength_pos filled))
    have ends : ∀ last, (front ++ ['\n']).getLast? = some last → last = '\n' := by
      intro last found
      rw [getLast?_append] at found
      exact (Option.some.inj found).symm
    have maskedReaches : range.stop = range.start + byteLength (mask masked range.start body) := by
      rw [byteLength_mask, reaches]
    have same := cut_next (mask masked range.start body ++ mask masked range.stop rest).head? (body ++ rest).head?
      (fresh || afterGap) offset (front ++ ['\n']) ends
    have behind : offset ≤ range.stop := by omega
    rw [mask_of_apart hides begins reaches more, regions_of_apart begins maskedReaches maskedFilled,
      regions_of_apart begins reaches filled, cutRegions, cutRegions, same]
    cases cut (body ++ rest).head? (fresh || afterGap) offset (front ++ ['\n']) with
    | mk pieces freshAfter => exact congrArg (pieces ++ ·) (ih (hides.tail behind) freshAfter true)

end Lexer

/-- Masking the disabled ranges of a text leaves its tokens and what is wrong with them as they are. -/
theorem tokenize_mask (apart : Apart 0 ranges text) (hides : Hides masked 0 ranges) :
    tokenize (mask masked 0 text) ranges = tokenize text ranges := by
  have same : Lexer.pieces (mask masked 0 text) ranges = Lexer.pieces text ranges :=
    Lexer.cutRegions_mask apart hides true false
  rw [tokenize, tokenize, same]

/-- Disabled text has no influence. Write spaces over the bytes of the disabled ranges other than line feeds. What
comes out is a text, and its analysis differs in the digest alone. -/
theorem Pipeline.analyze_overwritten (pipeline : Pipeline) (system : FileSystem) (cache : IncludeCache) (text : String)
    (path : Option Path) (closed : Preprocess.DirectivesClosed (Preprocess.lines text.toList)) :
    let analyzed := pipeline.analyze system cache text path
    let disabled (offset : Nat) : Bool := analyzed.1.pre.disabled.any (·.contains offset)
    let overwritten := overwrite disabled (bytes text.toList)
    (∃ other : String, bytes other.toList = overwritten) ∧
      ∀ other : String, bytes other.toList = overwritten →
        pipeline.analyze system cache other path =
          ({ analyzed.1 with digest := Digest.ofText other }, analyzed.2) := by
  intro analyzed disabled overwritten
  have apart : Apart 0 analyzed.1.pre.disabled text.toList := Preprocess.Run.all_apart _ _ _ _
  have hides : Hides disabled 0 analyzed.1.pre.disabled := by
    intro place _
    exact any_eq_true
  have written : bytes (mask disabled 0 text.toList) = overwritten := by
    rw [bytes_mask disabled (apart.undivided hides)]
    simp only [Nat.zero_add, overwritten]
  refine ⟨⟨String.ofList (mask disabled 0 text.toList), ?_⟩, ?_⟩
  · rw [String.toList_ofList]
    exact written
  · intro other sameBytes
    have masked := eq_of_bytes_eq (sameBytes.trans written.symm)
    let setting : Preprocess.Setting := ⟨system, ⟨pipeline.config.includePaths⟩, pipeline.predefined⟩
    have preprocessed : preprocess setting (mask disabled 0 text.toList) path cache =
        preprocess setting text.toList path cache :=
      Preprocess.Run.all_mask closed fun place => hides place (Nat.zero_le place)
    have tokens : tokenize (mask disabled 0 text.toList) (preprocess setting text.toList path cache).1.disabled =
        tokenize text.toList (preprocess setting text.toList path cache).1.disabled :=
      tokenize_mask apart hides
    simp only [Pipeline.analyze, ScriptLint.analyze, masked, preprocessed, tokens, byteLength_mask, ofText_mask,
      setting, analyzed]

/-- A document with a disabled comment that hides an `#endif`. -/
def hiddenEndSample : String :=
  "#ifdef A\nx /* é\n#endif\n*/ y\n#else\ninteger z;\n#endif\n"

/-- The same with spaces over the disabled lines. -/
def hiddenEndMasked : String :=
  "#ifdef A\n       \n      \n    \n#else\ninteger z;\n#endif\n"

/-- A pipeline without definitions. -/
def Pipeline.bare : Pipeline := ⟨{}, {}, ∅, [], ∅⟩

theorem Pipeline.analyze_overwritten_hiddenEnd :
    Preprocess.DirectivesClosed (Preprocess.lines hiddenEndSample.toList) ∧
      Pipeline.bare.analyze default {} hiddenEndMasked none =
        ({ (Pipeline.bare.analyze default {} hiddenEndSample none).1 with digest := Digest.ofText hiddenEndMasked },
          (Pipeline.bare.analyze default {} hiddenEndSample none).2) := by
  have closed : Preprocess.DirectivesClosed (Preprocess.lines hiddenEndSample.toList) := by
    unfold Preprocess.DirectivesClosed
    decide +kernel
  have written : bytes hiddenEndMasked.toList =
      overwrite (fun offset =>
        (Pipeline.bare.analyze default {} hiddenEndSample none).1.pre.disabled.any (·.contains offset))
        (bytes hiddenEndSample.toList) := by
    decide +kernel
  obtain ⟨_, same⟩ := Pipeline.bare.analyze_overwritten default {} hiddenEndSample none closed
  exact ⟨closed, same hiddenEndMasked written⟩

end ScriptLint
