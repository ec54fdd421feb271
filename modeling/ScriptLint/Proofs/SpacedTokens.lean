import ScriptLint.Proofs.LexedLines

/-!
# Tokens apart

A token does not depend on its neighbours: a text that is cut without a problem is cut into the same tokens when only
these are left, with a single space between any two of them.
-/

namespace ScriptLint

open Text List

/-- What a token is without its place. -/
def Token.spelling (token : Token) : TokenKind × String := (token.kind, token.text)

namespace Lexer

variable {cs other : List Char}

/-! ## Lengths that a space bounds -/

/-- A text that is empty or begins with a space. -/
def Gap (cs : List Char) : Prop := ∀ c ∈ cs.head?, c = ' '

theorem Gap.cases (gap : Gap other) : other = [] ∨ ∃ rest, other = ' ' :: rest := by
  cases other with
  | nil => exact .inl rfl
  | cons c rest =>
    obtain rfl := gap c rfl
    exact .inr ⟨rest, rfl⟩

/-- The length of a front of a text that ends where it ended when the text is cut off behind it and a gap follows. -/
structure Bounded (length : List Char → Nat) : Prop where
  le (cs : List Char) : length cs ≤ cs.length
  keeps {cs other : List Char} {count : Nat} (reach : length cs ≤ count) (gap : Gap other) :
    length (cs.take count ++ other) = length cs

namespace Bounded

variable {first second : List Char → Nat}

theorem zero : Bounded fun _ => 0 := ⟨fun _ => Nat.zero_le _, fun _ _ => rfl⟩

theorem takeWhile {test : Char → Bool} (stops : test ' ' = false) : Bounded fun cs => (cs.takeWhile test).length where
  le cs := (takeWhile_sublist test).length_le
  keeps {cs other count} reach gap := by
    have ends : other.takeWhile test = [] := by
      rcases gap.cases with rfl | ⟨rest, rfl⟩
      · rfl
      · exact takeWhile_cons_of_neg (Bool.eq_false_iff.mp stops)
    induction cs generalizing count with
    | nil => rw [take_nil, nil_append, ends]; rfl
    | cons c _ ih =>
      cases holds : test c with
      | false =>
        cases count with
        | zero => simp [ends, holds]
        | succ => simp [holds]
      | true =>
        cases count with
        | zero => simp [holds] at reach
        | succ =>
          simp only [takeWhile_cons_of_pos holds, length_cons, Nat.add_le_add_iff_right] at reach
          simp [holds, ih reach]

theorem append (before : Bounded first) (after : Bounded second) :
    Bounded fun cs => first cs + second (cs.drop (first cs)) where
  le cs := by
    have := after.le (cs.drop (first cs))
    have := before.le cs
    rw [length_drop] at *
    omega
  keeps {cs other count} reach gap := by
    have inside : first cs ≤ (cs.take count).length := by
      have := before.le cs
      rw [length_take]
      omega
    rw [before.keeps (by omega) gap, drop_append_of_le_length inside, drop_take, after.keeps (by omega) gap]

/-- A front behind one character of a class, when that is there. -/
theorem behind (after : Bounded second) {test : Char → Bool} (stops : test ' ' = false) :
    Bounded fun cs => if cs.head?.any test then second cs.tail + 1 else 0 where
  le cs := by
    cases cs with
    | nil => exact Nat.le_refl 0
    | cons c cs =>
      have := after.le cs
      cases holds : test c <;> simp [holds, this]
  keeps {cs other count} reach gap := by
    have nothing : other.head?.any test = false := by
      rcases gap.cases with rfl | ⟨rest, rfl⟩
      · rfl
      · exact stops
    cases cs with
    | nil => simp [nothing]
    | cons c cs =>
      cases holds : test c with
      | false => cases count <;> simp [nothing, holds]
      | true =>
        cases count with
        | zero => simp [holds] at reach
        | succ count =>
          have reach : second cs ≤ count := by simpa [holds] using reach
          simp [holds, after.keeps reach gap]

end Bounded

/-! ## Numbers -/

theorem digits_bounded : Bounded digitsLength := .takeWhile rfl

theorem fraction_bounded : Bounded fractionLength := by
  have same : fractionLength = fun cs => if cs.head?.any (· == '.') then digitsLength cs.tail + 1 else 0 := by
    funext cs
    unfold fractionLength
    split
    · rfl
    · next other =>
      cases cs with
      | nil => rfl
      | cons c cs => exact (if_neg fun point => other cs (congrArg (· :: cs) (beq_iff_eq.mp point))).symm
  rw [same]
  exact digits_bounded.behind rfl

/-- Length of a sign. -/
def signLength (cs : List Char) : Nat := if cs.head?.any fun c => c == '+' || c == '-' then 0 + 1 else 0

theorem exponentLength_cons (c : Char) (cs : List Char) : exponentLength (c :: cs) =
    if c == 'e' || c == 'E' then
      if digitsLength (cs.drop (signLength cs)) == 0 then 0
      else 1 + signLength cs + digitsLength (cs.drop (signLength cs))
    else 0 := by
  cases cs with
  | nil => rfl
  | cons sign =>
    by_cases plus : sign = '+'
    · subst plus
      rfl
    · by_cases minus : sign = '-'
      · subst minus
        rfl
      · simp [exponentLength, signLength, plus, minus]

theorem exponent_bounded : Bounded exponentLength := by
  have sign : Bounded signLength := Bounded.zero.behind rfl
  have signed := sign.append digits_bounded
  refine ⟨fun cs => ?_, fun {cs other count} reach gap => ?_⟩
  · cases cs with
    | nil => exact Nat.le_refl 0
    | cons c cs =>
      have := signed.le cs
      rw [exponentLength_cons]
      grind
  · have nothing : exponentLength other = 0 := by
      rcases gap.cases with rfl | ⟨rest, rfl⟩ <;> rfl
    cases cs with
    | nil => exact (congrArg exponentLength (by simp)).trans nothing
    | cons c cs =>
      cases count with
      | zero => exact nothing.trans (Nat.le_zero.mp reach).symm
      | succ count =>
        rw [exponentLength_cons] at reach
        rw [take_succ_cons, cons_append, exponentLength_cons, exponentLength_cons]
        by_cases inside : signLength cs + digitsLength (cs.drop (signLength cs)) ≤ count
        · have same := signed.keeps inside gap
          rw [sign.keeps (by omega) gap] at same ⊢
          rw [Nat.add_left_cancel same]
        · cases mark : c == 'e' || c == 'E' with
          | false => rfl
          | true =>
            -- Only a sign without digits behind it is cut off, so there is no exponent in either text.
            have short : signLength cs ≤ 1 := by unfold signLength; split <;> omega
            have bare : signLength other = 0 ∧ digitsLength other = 0 := by
              rcases gap.cases with rfl | ⟨rest, rfl⟩ <;> exact ⟨rfl, rfl⟩
            obtain ⟨rfl, digits⟩ : count = 0 ∧ digitsLength (cs.drop (signLength cs)) = 0 := by grind
            simp [bare, digits]

theorem number_bounded (first : Char) : Bounded (numberLength first) := by
  have front : Bounded fun cs =>
      digitsLength cs + if first == '.' then 0 else fractionLength (cs.drop (digitsLength cs)) := by
    split
    · exact digits_bounded
    · exact digits_bounded.append fraction_bounded
  exact front.append exponent_bounded

/-! ## Tokens -/

/-- A test of what stands behind the first character of a token fails again when a gap follows the token. -/
theorem head?_keeps {test : Char → Bool} (stops : test ' ' = false) (gap : Gap other) (count : Nat) {guard : Bool}
    (fails : ¬(guard && cs.head?.any test)) : ¬(guard && (cs.take count ++ other).head?.any test) := by
  have bare : other.head?.any test = false := by
    rcases gap.cases with rfl | ⟨rest, rfl⟩
    · rfl
    · exact stops
  cases cs with
  | nil => simp [bare]
  | cons =>
    cases count with
    | zero => simp [bare]
    | succ => exact fails

namespace Lexeme

variable {c : Char} {tail : Nat} {kind : TokenKind}

theorem string_keeps (found : string c cs = good kind tail) : string c (cs.take tail ++ other) = good kind tail := by
  have kept := @stringLength_take_append c cs other
  unfold string at found ⊢
  split at found
  · next length known =>
    cases found
    rw [known] at kept
    rw [kept (fun ended => by cases ended) fun ended => by cases ended]
  · cases found

theorem number_keeps (gap : Gap other) (found : number c cs = good kind tail) :
    number c (cs.take tail ++ other) = good kind tail := by
  have marked (head : Option Char) : (head == some 'x' || head == some 'X') =
      head.any fun d => d == 'x' || d == 'X' := by
    cases head <;> rfl
  unfold number at found ⊢
  rw [marked] at found ⊢
  split at found
  · next hexadecimal =>
    cases cs with
    | nil => simp at hexadecimal
    | cons _ cs =>
      have digits := (@Bounded.takeWhile isHexDigit rfl).keeps (Nat.le_refl (cs.takeWhile isHexDigit).length) gap
      obtain ⟨-, rfl, -⟩ := Lexeme.mk.inj found
      rw [← found]
      refine (if_pos hexadecimal).trans ?_
      simp only [drop_one, tail_cons, take_succ_cons, cons_append, digits]
  · next decimal =>
    cases found
    rw [if_neg (head?_keeps rfl gap _ decimal), (number_bounded c).keeps (Nat.le_refl _) gap]

/-- A number that begins with a point has a digit behind it. -/
theorem begins_keeps (begins : (isDigit c || c == '.' && cs.head?.any isDigit))
    (found : number c cs = good kind tail) :
    (isDigit c || c == '.' && (cs.take tail ++ other).head?.any isDigit) := by
  rw [Bool.or_eq_true, Bool.and_eq_true, beq_iff_eq] at begins
  rcases begins with digit | ⟨rfl, digit⟩
  · rw [digit, Bool.true_or]
  · cases cs with
    | nil => cases digit
    | cons d cs =>
      have length : digitsLength (d :: cs) ≤ tail := by
        rw [← (Lexeme.mk.inj found).2.1]
        exact Nat.le_trans (Nat.le_add_right _ _) (Nat.le_add_right _ _)
      rw [digitsLength, takeWhile_cons_of_pos (show isDigit d = true from digit)] at length
      cases tail with
      | zero => cases length
      | succ => exact digit

theorem operator_keeps (gap : Gap other) (found : operator c cs = good kind tail) :
    operator c (cs.take tail ++ other) = good kind tail := by
  have alone : operator c other = good .op 0 := by
    rcases gap.cases with rfl | ⟨rest, rfl⟩
    · rfl
    · exact congrArg (good .op) (if_neg (by simp [pairs]))
  unfold operator at found
  split at found
  · next second rest =>
    cases found
    split
    · next pair => exact congrArg (good .op) (if_pos pair)
    · exact alone
  · cases found
    exact alone

/-- A token that is no comment and no directive is read again where a gap follows it. -/
theorem classify_keeps {fresh : Bool} (gap : Gap other) (found : classify fresh none c cs = good kind tail)
    (significant : kind ≠ .comment ∧ kind ≠ .directive) (again : Bool) :
    classify again none c (cs.take tail ++ other) = good kind tail := by
  have hash : (c == '#') = false := by
    rw [beq_eq_false_iff_ne]
    rintro rfl
    cases fresh <;> cases found
    exact significant.2 rfl
  have second (mark : Char) (o : Option Char) : (o == some mark) = o.any (· == mark) := by cases o <;> rfl
  unfold classify at found ⊢
  simp only [Option.or_none, hash, Bool.false_and, Bool.false_eq_true, ↓reduceIte, second] at found ⊢
  split at found
  · cases found
    exact absurd rfl significant.1
  · next line =>
    split at found
    · unfold blockComment at found
      split at found <;> cases found
      exact absurd rfl significant.1
    · next block =>
      rw [if_neg (head?_keeps rfl gap tail line), if_neg (head?_keeps rfl gap tail block)]
      split at found
      · next quote => rw [if_pos quote, string_keeps found]
      · next quote =>
        rw [if_neg quote]
        split at found
        · next digit =>
          rw [if_pos (begins_keeps digit found), number_keeps gap found]
        · next digit =>
          rw [Bool.or_eq_true, not_or] at digit
          rw [if_neg (by rw [Bool.or_eq_true, not_or]; exact ⟨digit.1, head?_keeps rfl gap tail digit.2⟩)]
          split at found
          · next start =>
            cases found
            rw [if_pos start, (Bounded.takeWhile rfl).keeps (Nat.le_refl _) gap]
          · next start =>
            rw [if_neg start]
            split at found
            · next sign => rw [if_pos sign, operator_keeps gap found]
            · next sign =>
              rw [if_neg sign]
              split at found
              · next punct =>
                cases found
                rw [if_pos punct]
              · cases found

theorem tail_le {fresh : Bool} (found : classify fresh none c cs = good kind tail)
    (significant : kind ≠ .comment ∧ kind ≠ .directive) : tail ≤ cs.length := by
  have comment : (blockComment cs).kind = some .comment := by unfold blockComment; split <;> rfl
  have str : (string c cs).tail ≤ cs.length := by
    have := stringLength_le c cs
    unfold string
    split <;> simp_all [good]
  have digits : (number c cs).tail ≤ cs.length := by
    have := (number_bounded c).le cs
    have := (@Bounded.takeWhile isHexDigit rfl).le (cs.drop 1)
    unfold number
    cases cs <;> grind [good]
  have sign : (operator c cs).tail ≤ cs.length := by
    unfold operator
    grind [good]
  have name := (takeWhile_sublist isIdentPart (l := cs)).length_le
  unfold classify at found
  grind [good]

end Lexeme

/-! ## Texts -/

/-- A token that is read wherever a gap follows it, by its kind and its text. -/
def Solitary (token : TokenKind × String) : Prop :=
  ∃ c cs, token.2 = String.ofList (c :: cs) ∧ isTokenBlank c = false ∧
    ∀ fresh other, Gap other → Lexeme.classify fresh none c (cs ++ other) = .good token.1 cs.length

/-- The tokens of a text that are cut without a problem stand apart, except comments and directives. -/
theorem solitary_of_cut (fresh : Bool) (offset : Nat) (cs : List Char) :
    ∀ piece ∈ (cut none fresh offset cs).1, piece.problem = none → ∀ kind, piece.kind = some kind →
      kind ≠ .comment ∧ kind ≠ .directive → Solitary (kind, String.ofList piece.chars) := by
  fun_induction cut none fresh offset cs with
  | case1 => exact forall_mem_nil _
  | case2 _ _ _ _ _ _ _ found ih =>
    rw [found] at ih
    exact forall_mem_cons.mpr ⟨fun _ _ kind => (by cases kind), ih⟩
  | case3 fresh _ c cs blank lexeme _ _ _ found ih =>
    rw [found] at ih
    refine forall_mem_cons.mpr ⟨fun sound kind named significant => ?_, ih⟩
    have good : Lexeme.classify fresh none c cs = .good kind lexeme.tail := by
      rw [Lexeme.good, ← named, ← sound]
    refine ⟨c, cs.take lexeme.tail, rfl, Bool.eq_false_iff.mpr blank, fun again other gap => ?_⟩
    rw [length_take_of_le (Lexeme.tail_le good significant)]
    exact Lexeme.classify_keeps gap good significant again

/-- Cutting a text that begins with a token and a gap. -/
theorem cut_solitary {token : TokenKind × String} (solitary : Solitary token) (fresh : Bool) (offset : Nat)
    (gap : Gap other) :
    ∃ piece stop, (cut none fresh offset (token.2.toList ++ other)).1 = piece :: (cut none false stop other).1 ∧
      piece.token?.map Token.spelling = some token ∧ piece.problem = none := by
  obtain ⟨c, cs, text, blank, read⟩ := solitary
  rw [text, String.toList_ofList, cons_append, cut, if_neg (Bool.eq_false_iff.mp blank), read fresh other gap]
  simp only [Lexeme.good, take_left, drop_left, Option.isNone_some, Bool.and_false]
  exact ⟨_, _, rfl, congrArg (fun text => some (token.1, text)) text.symm, rfl⟩

/-- Solitary tokens are cut again from their texts with single spaces between them. -/
theorem cut_intercalate {tokens : List (TokenKind × String)} (solitary : ∀ token ∈ tokens, Solitary token)
    (fresh : Bool) (offset : Nat) :
    let pieces := (cut none fresh offset ([' '].intercalate (tokens.map (·.2.toList)))).1
    (pieces.filterMap Piece.token?).map Token.spelling = tokens ∧ ∀ piece ∈ pieces, piece.problem = none := by
  induction tokens generalizing fresh offset with
  | nil => simp [cut]
  | cons token tokens ih =>
    obtain ⟨first, later⟩ := forall_mem_cons.mp solitary
    obtain ⟨other, gap, whole, rest⟩ : ∃ other, Gap other ∧
        [' '].intercalate ((token :: tokens).map (·.2.toList)) = token.2.toList ++ other ∧ ∀ stop,
          let pieces := (cut none false stop other).1
          (pieces.filterMap Piece.token?).map Token.spelling = tokens ∧ ∀ piece ∈ pieces, piece.problem = none := by
      cases tokens with
      | nil => exact ⟨[], fun _ first => (by cases first), by simp, fun stop => by simp [cut]⟩
      | cons next tokens =>
        refine ⟨' ' :: [' '].intercalate ((next :: tokens).map (·.2.toList)), fun c first => ?_, ?_, fun stop => ?_⟩
        · exact (Option.some.inj first).symm
        · simp
        · obtain ⟨spelled, sound⟩ := ih later false (stop + 1)
          rw [cut]
          exact ⟨spelled, forall_mem_cons.mpr ⟨rfl, sound⟩⟩
    obtain ⟨piece, stop, pieces, spelled, sound⟩ := cut_solitary first fresh offset gap
    obtain ⟨token', isToken, rfl⟩ := Option.map_eq_some_iff.mp spelled
    dsimp only
    rw [whole, pieces, filterMap_cons_some isToken, map_cons, (rest stop).1]
    exact ⟨rfl, forall_mem_cons.mpr ⟨sound, (rest stop).2⟩⟩

end Lexer

theorem tokenize_nil (text : List Char) : tokenize text [] =
    let pieces := (Lexer.cut none true 0 text).1
    ⟨pieces.filterMap Lexer.Piece.token?, pieces.filterMap Lexer.Piece.diagnostic?⟩ := by
  simp [tokenize, Lexer.pieces, Lexer.regions, Lexer.cutRegions]

/-- A text that is cut without a problem is cut into the same tokens when these are written with single spaces between
them, without comments and directives. -/
theorem tokenize_spaced (text : List Char) (clean : (tokenize text []).diagnostics = []) :
    let significant := (tokenize text []).tokens.filter (!·.isTrivia)
    let again := tokenize ([' '].intercalate (significant.map (·.text.toList))) []
    again.tokens.map Token.spelling = significant.map Token.spelling ∧ again.diagnostics = [] := by
  intro significant again
  have solitary : ∀ token ∈ significant.map Token.spelling, Lexer.Solitary token := by
    intro _ listed
    obtain ⟨token, isToken, rfl⟩ := mem_map.mp listed
    obtain ⟨found, kept⟩ := mem_filter.mp isToken
    rw [tokenize_nil] at found clean
    obtain ⟨piece, isPiece, cut⟩ := mem_filterMap.mp found
    obtain ⟨kind, named, rfl⟩ := Option.map_eq_some_iff.mp cut
    have sound := filterMap_eq_nil_iff.mp clean piece isPiece
    refine Lexer.solitary_of_cut true 0 text piece isPiece (Option.map_eq_none_iff.mp sound) kind named ?_
    simpa [Token.isTrivia] using kept
  obtain ⟨spelled, sound⟩ := Lexer.cut_intercalate solitary true 0
  rw [map_map] at spelled sound
  have whole := tokenize_nil ([' '].intercalate (significant.map (·.text.toList)))
  change again = _ at whole
  rw [whole]
  exact ⟨spelled, filterMap_eq_nil_iff.mpr fun piece found => Option.map_eq_none_iff.mpr (sound piece found)⟩

/-- Numbers, operators and strings that touch, with a comment and a directive between them. -/
def crowdedSample : List Char := "x=.5e+1.e3..2e //c\n#d\n'a\\\n\"'---0x1F<<=/ *y".toList

theorem tokenize_spaced_crowded :
    let significant := (tokenize crowdedSample []).tokens.filter (!·.isTrivia)
    let again := tokenize ([' '].intercalate (significant.map (·.text.toList))) []
    (tokenize crowdedSample []).diagnostics = [] ∧
      again.tokens.map Token.spelling = significant.map Token.spelling ∧ again.diagnostics = [] := by
  have clean : (tokenize crowdedSample []).diagnostics = [] := by decide +kernel
  exact ⟨clean, tokenize_spaced crowdedSample clean⟩

end ScriptLint
